import CompassAdapters.Matching.Inverse
import Mathlib.Data.List.Nodup
import Mathlib.Data.List.Zip

/-! Two maps that are set pair by pair, and the names that a name left over may take. -/
namespace Matching

variable {α : Type*} {u : α}

/-- Two maps that are stored side by side, with the value `u` where nothing is stored. -/
@[ext] structure Links (α : Type*) where
  toRight : α → α
  toLeft : α → α

namespace Links

/-- Nothing is stored. -/
def unset (u : α) : Links α := ⟨fun _ => u, fun _ => u⟩

def swap (k : Links α) : Links α := ⟨k.toLeft, k.toRight⟩

theorem swap_swap (k : Links α) : k.swap.swap = k := rfl

/-- The names to the left of these pairs and those to the right of them are new and different. -/
structure Fresh (u : α) (k : Links α) (ps : List (α × α)) : Prop where
  right_unset : ∀ x ∈ ps, k.toRight x.1 = u
  left_unset : ∀ x ∈ ps, k.toLeft x.2 = u
  fst_nodup : (ps.map Prod.fst).Nodup
  snd_nodup : (ps.map Prod.snd).Nodup

theorem Fresh.swap {k : Links α} {ps : List (α × α)} (h : Fresh u k ps) :
    Fresh u k.swap (ps.map Prod.swap) := by
  refine ⟨?_, ?_, ?_, ?_⟩
  · intro x hx
    obtain ⟨y, hy, rfl⟩ := List.mem_map.mp hx
    exact h.left_unset y hy
  · intro x hx
    obtain ⟨y, hy, rfl⟩ := List.mem_map.mp hx
    exact h.right_unset y hy
  · simpa [Function.comp_def] using h.snd_nodup
  · simpa [Function.comp_def] using h.fst_nodup

theorem Fresh.sublist {k : Links α} {ps qs : List (α × α)} (h : Fresh u k ps)
    (hsub : qs.Sublist ps) : Fresh u k qs where
  right_unset x hx := h.right_unset x (hsub.subset hx)
  left_unset x hx := h.left_unset x (hsub.subset hx)
  fst_nodup := h.fst_nodup.sublist (hsub.map Prod.fst)
  snd_nodup := h.snd_nodup.sublist (hsub.map Prod.snd)

theorem self_fresh {k : Links α} {xs : List α} (hxs : xs.Nodup)
    (h : ∀ x ∈ xs, k.toRight x = u ∧ k.toLeft x = u) :
    Fresh u k (xs.map fun a => (a, a)) := by
  refine ⟨?_, ?_, ?_, ?_⟩
  · intro x hx
    obtain ⟨y, hy, rfl⟩ := List.mem_map.mp hx
    exact (h y hy).1
  · intro x hx
    obtain ⟨y, hy, rfl⟩ := List.mem_map.mp hx
    exact (h y hy).2
  · simpa [Function.comp_def] using hxs
  · simpa [Function.comp_def] using hxs

variable [DecidableEq α]

/-- `a` and `b` are stored under each other. -/
def bind (k : Links α) (a b : α) : Links α :=
  ⟨Function.update k.toRight a b, Function.update k.toLeft b a⟩

@[simp] theorem bind_toRight (k : Links α) (a b : α) : (k.bind a b).toRight a = b := by
  simp [bind]

/-- Storing once more what is stored changes nothing. -/
theorem bind_eq_self {k : Links α} {a b : α} (hr : k.toRight a = b) (hl : k.toLeft b = a) :
    k.bind a b = k := by
  subst hr
  apply Links.ext
  · exact Function.update_eq_self _ _
  · show Function.update k.toLeft (k.toRight a) a = k.toLeft
    rw [Function.update_eq_self_iff, hl]

def bindAll (k : Links α) (ps : List (α × α)) : Links α := ps.foldl (fun k x => k.bind x.1 x.2) k

@[simp] theorem bindAll_nil (k : Links α) : k.bindAll [] = k := rfl

theorem bindAll_cons (k : Links α) (x : α × α) (ps : List (α × α)) :
    k.bindAll (x :: ps) = (k.bind x.1 x.2).bindAll ps := rfl

theorem bindAll_append (k : Links α) (ps qs : List (α × α)) :
    k.bindAll (ps ++ qs) = (k.bindAll ps).bindAll qs := by
  rw [bindAll, List.foldl_append]
  rfl

theorem swap_bindAll (k : Links α) (ps : List (α × α)) :
    (k.bindAll ps).swap = k.swap.bindAll (ps.map Prod.swap) := by
  induction ps generalizing k with
  | nil => rfl
  | cons x ps ih =>
    rw [bindAll_cons, ih]
    rfl

theorem Fresh.tail {k : Links α} {x : α × α} {ps : List (α × α)} (h : Fresh u k (x :: ps)) :
    x.1 ∉ ps.map Prod.fst ∧ x.2 ∉ ps.map Prod.snd ∧ Fresh u (k.bind x.1 x.2) ps := by
  obtain ⟨hfst, hfst'⟩ := List.nodup_cons.mp h.fst_nodup
  obtain ⟨hsnd, hsnd'⟩ := List.nodup_cons.mp h.snd_nodup
  refine ⟨hfst, hsnd, ?_, ?_, hfst', hsnd'⟩
  · intro y hy
    have hne : y.1 ≠ x.1 := fun he => hfst (he ▸ List.mem_map_of_mem hy)
    show Function.update k.toRight x.1 x.2 y.1 = u
    rw [Function.update_of_ne hne]
    exact h.right_unset y (List.mem_cons_of_mem x hy)
  · intro y hy
    have hne : y.2 ≠ x.2 := fun he => hsnd (he ▸ List.mem_map_of_mem hy)
    show Function.update k.toLeft x.2 x.1 y.2 = u
    rw [Function.update_of_ne hne]
    exact h.left_unset y (List.mem_cons_of_mem x hy)

theorem bindAll_inverse {k : Links α} {ps : List (α × α)} (hk : Inverse u k.toRight k.toLeft)
    (h : Fresh u k ps) : Inverse u (k.bindAll ps).toRight (k.bindAll ps).toLeft := by
  induction ps generalizing k with
  | nil => exact hk
  | cons x ps ih =>
    rw [bindAll_cons]
    apply ih _ h.tail.2.2
    exact hk.bind (h.right_unset x List.mem_cons_self) (h.left_unset x List.mem_cons_self)

/-- A name that is in no pair keeps its value. -/
theorem bindAll_of_not_mem (k : Links α) {ps : List (α × α)} {a : α} (ha : a ∉ ps.map Prod.fst) :
    (k.bindAll ps).toRight a = k.toRight a := by
  induction ps generalizing k with
  | nil => rfl
  | cons x ps ih =>
    rw [List.map_cons, List.mem_cons, not_or] at ha
    rw [bindAll_cons, ih _ ha.2]
    exact Function.update_of_ne ha.1 _ _

theorem bindAll_left_of_not_mem (k : Links α) {ps : List (α × α)} {b : α}
    (hb : b ∉ ps.map Prod.snd) : (k.bindAll ps).toLeft b = k.toLeft b := by
  show (k.bindAll ps).swap.toRight b = k.toLeft b
  have hswap : b ∉ (ps.map Prod.swap).map Prod.fst := by
    simpa [List.map_map, Function.comp_def] using hb
  rw [swap_bindAll, bindAll_of_not_mem _ hswap]
  rfl

/-- A name stays unset when it is in no pair, if the pairs store no `u`. -/
theorem bindAll_right_eq_unset (k : Links α) {ps : List (α × α)} (h : ∀ x ∈ ps, x.2 ≠ u) {a : α} :
    (k.bindAll ps).toRight a = u ↔ a ∉ ps.map Prod.fst ∧ k.toRight a = u := by
  induction ps generalizing k with
  | nil => simp
  | cons x ps ih =>
    obtain ⟨hx, h⟩ := List.forall_mem_cons.mp h
    rw [bindAll_cons, ih _ h, List.map_cons, List.mem_cons, not_or]
    by_cases ha : a = x.1
    · subst ha
      simp [hx]
    · simp [bind, ha]

theorem bindAll_of_nodup (k : Links α) {ps : List (α × α)} (h : (ps.map Prod.fst).Nodup)
    {x : α × α} (hx : x ∈ ps) : (k.bindAll ps).toRight x.1 = x.2 := by
  induction ps generalizing k with
  | nil => cases hx
  | cons y ps ih =>
    obtain ⟨hy, h⟩ := List.nodup_cons.mp h
    rw [bindAll_cons]
    rcases List.mem_cons.mp hx with rfl | hx
    · rw [bindAll_of_not_mem _ hy, bind_toRight]
    · exact ih _ h hx

theorem bindAll_of_mem {k : Links α} {ps : List (α × α)} (h : Fresh u k ps) {x : α × α}
    (hx : x ∈ ps) : (k.bindAll ps).toRight x.1 = x.2 := bindAll_of_nodup k h.fst_nodup hx

/-- What was set stays. -/
theorem bindAll_of_ne {k : Links α} {ps : List (α × α)} (h : Fresh u k ps) {a : α}
    (ha : k.toRight a ≠ u) : (k.bindAll ps).toRight a = k.toRight a := by
  apply bindAll_of_not_mem
  intro hmem
  obtain ⟨x, hx, rfl⟩ := List.mem_map.mp hmem
  exact ha (h.right_unset x hx)

/-- The value of a name is the old one or comes from a pair. -/
theorem bindAll_cases {k : Links α} {ps : List (α × α)} (h : Fresh u k ps) (a : α) :
    (∃ x ∈ ps, x.1 = a ∧ (k.bindAll ps).toRight a = x.2) ∨
      (a ∉ ps.map Prod.fst ∧ (k.bindAll ps).toRight a = k.toRight a) := by
  by_cases ha : a ∈ ps.map Prod.fst
  · obtain ⟨x, hx, rfl⟩ := List.mem_map.mp ha
    exact Or.inl ⟨x, hx, rfl, bindAll_of_mem h hx⟩
  · exact Or.inr ⟨ha, bindAll_of_not_mem k ha⟩

theorem bindAll_self (k : Links α) (xs : List α) :
    k.bindAll (xs.map fun a => (a, a)) =
      ⟨fun a => if a ∈ xs then a else k.toRight a, fun a => if a ∈ xs then a else k.toLeft a⟩ := by
  induction xs generalizing k with
  | nil => simp
  | cons x xs ih =>
    rw [List.map_cons, bindAll_cons, ih]
    apply Links.ext
    · funext a
      by_cases hx : a = x
      · simp [bind, hx]
      · simp [bind, hx]
    · funext a
      by_cases hx : a = x
      · simp [bind, hx]
      · simp [bind, hx]

/-- Whatever `a` is mapped to is mapped back to something. -/
def Linked (u : α) (k : Links α) : Prop := ∀ a, k.toRight a ≠ u → k.toLeft (k.toRight a) ≠ u

theorem Linked.bind {k : Links α} (hk : Linked u k) {a : α} (ha : a ≠ u) (b : α) :
    Linked u (k.bind a b) := by
  intro x hx
  by_cases hxa : x = a
  · subst hxa
    simpa [Links.bind] using ha
  · simp only [Links.bind, Function.update_of_ne hxa] at hx ⊢
    by_cases hb : k.toRight x = b
    · rw [hb, Function.update_self]
      exact ha
    · rw [Function.update_of_ne hb]
      exact hk x hx

theorem Linked.bindAll {k : Links α} (hk : Linked u k) {ps : List (α × α)}
    (hne : ∀ x ∈ ps, x.1 ≠ u) : Linked u (k.bindAll ps) := by
  induction ps generalizing k with
  | nil => exact hk
  | cons x ps ih =>
    obtain ⟨hx, hne⟩ := List.forall_mem_cons.mp hne
    exact ih (hk.bind hx x.2) hne

/-- The last pair of a name counts. -/
theorem bindAll_last (k : Links α) {ps qs : List (α × α)} {a : α} (b : α)
    (ha : a ∉ qs.map Prod.fst) : (k.bindAll (ps ++ (a, b) :: qs)).toRight a = b := by
  rw [bindAll_append, bindAll_cons, bindAll_of_not_mem _ ha, bind_toRight]

/-- The value of a name is the old one or that of a pair of its own. -/
theorem bindAll_keep_or (k : Links α) (ps : List (α × α)) (a : α) :
    (k.bindAll ps).toRight a = k.toRight a ∨
      ∃ x ∈ ps, x.1 = a ∧ (k.bindAll ps).toRight a = x.2 := by
  induction ps generalizing k with
  | nil => exact Or.inl rfl
  | cons x ps ih =>
    rw [bindAll_cons]
    rcases ih (k.bind x.1 x.2) with hkeep | ⟨y, hy, hya, hval⟩
    · by_cases ha : a = x.1
      · refine Or.inr ⟨x, List.mem_cons_self, ha.symm, ?_⟩
        rw [hkeep, ha, bind_toRight]
      · exact Or.inl (hkeep.trans (Function.update_of_ne ha _ _))
    · exact Or.inr ⟨y, List.mem_cons_of_mem x hy, hya, hval⟩

/-- Pairs that each store something new change the map, if there are any. -/
theorem bindAll_right_eq_iff {k : Links α} {ps : List (α × α)}
    (h : ∀ x ∈ ps, k.toRight x.1 ≠ x.2) : (k.bindAll ps).toRight = k.toRight ↔ ps = [] := by
  constructor
  · intro he
    rcases List.eq_nil_or_concat ps with hnil | ⟨init, x, rfl⟩
    · exact hnil
    · rw [List.concat_eq_append] at he h
      have hlast : (k.bindAll (init ++ [x])).toRight x.1 = x.2 := bindAll_last k x.2 (by simp)
      rw [he] at hlast
      exact absurd hlast (h x (by simp))
  · rintro rfl
    rfl

/-- A loop that stores names under themselves, where the test of a name looks at nothing but what
is stored under it. -/
theorem foldl_self (test : Links α → α → Bool) (xs : List α) (hxs : xs.Nodup)
    (htest : ∀ (k k' : Links α) (a : α),
      k.toRight a = k'.toRight a → k.toLeft a = k'.toLeft a → test k a = test k' a)
    (k : Links α) :
    xs.foldl (fun k a => if test k a then k.bind a a else k) k =
      k.bindAll ((xs.filter (test k)).map fun a => (a, a)) := by
  induction xs generalizing k with
  | nil => rfl
  | cons x xs ih =>
    obtain ⟨hx, hxs⟩ := List.nodup_cons.mp hxs
    rw [List.foldl_cons, ih hxs]
    by_cases h : test k x = true
    · have hsame : xs.filter (test (k.bind x x)) = xs.filter (test k) := by
        apply List.filter_congr
        intro a ha
        have hne : a ≠ x := fun he => hx (he ▸ ha)
        exact htest _ _ a (Function.update_of_ne hne _ _) (Function.update_of_ne hne _ _)
      rw [if_pos h, List.filter_cons_of_pos h, List.map_cons, bindAll_cons, hsame]
    · rw [if_neg h, List.filter_cons_of_neg h]

end Links

/-- The pairs that a loop over two lists forms. -/
theorem map_fst_zip (xs ys : List α) : (xs.zip ys).map Prod.fst = xs.take ys.length := by
  induction xs generalizing ys with
  | nil => simp
  | cons x xs ih =>
    cases ys with
    | nil => rfl
    | cons y ys => simp [ih]

theorem map_snd_zip (xs ys : List α) : (xs.zip ys).map Prod.snd = ys.take xs.length := by
  induction xs generalizing ys with
  | nil => simp
  | cons x xs ih =>
    cases ys with
    | nil => rfl
    | cons y ys => simp [ih]

/-- Elements without a partner do not matter. -/
theorem zip_take {β : Type*} (xs : List α) (ys : List β) :
    (xs.take ys.length).zip ys = xs.zip ys := by
  induction xs generalizing ys with
  | nil => simp
  | cons x xs ih =>
    cases ys with
    | nil => rfl
    | cons y ys => simp [ih]

theorem mem_drop_iff {xs : List α} (h : xs.Nodup) {n : ℕ} {a : α} :
    a ∈ xs.drop n ↔ a ∈ xs ∧ a ∉ xs.take n := by
  rw [← List.take_append_drop n xs, List.nodup_append] at h
  constructor
  · intro hdrop
    exact ⟨List.mem_of_mem_drop hdrop, fun htake => h.2.2 a htake a hdrop rfl⟩
  · rintro ⟨ha, htake⟩
    rw [← List.take_append_drop n xs, List.mem_append] at ha
    exact ha.resolve_left htake

/-- A loop over two lists leaves what the other list is too short for. -/
theorem Links.zip_right_eq [DecidableEq α] {k : Links α} {xs ys : List α} (hxs : xs.Nodup)
    (hys : ∀ y ∈ ys, y ≠ u) (hfresh : k.Fresh u (xs.zip ys)) {a : α}
    (ha : k.toRight a = u ↔ a ∈ xs) :
    (k.bindAll (xs.zip ys)).toRight a = u ↔ a ∈ xs.drop ys.length := by
  rw [mem_drop_iff hxs, ← map_fst_zip]
  rcases Links.bindAll_cases hfresh a with ⟨x, hx, rfl, hval⟩ | ⟨hnot, hval⟩
  · rw [hval]
    constructor
    · intro he
      exact absurd he (hys x.2 (List.of_mem_zip hx).2)
    · rintro ⟨-, htake⟩
      exact absurd (List.mem_map_of_mem hx) htake
  · rw [hval, ha]
    exact (and_iff_left hnot).symm

theorem Links.zip_left_eq [DecidableEq α] {k : Links α} {xs ys : List α} (hys : ys.Nodup)
    (hxs : ∀ x ∈ xs, x ≠ u) (hfresh : k.Fresh u (xs.zip ys)) {a : α}
    (ha : k.toLeft a = u ↔ a ∈ ys) :
    (k.bindAll (xs.zip ys)).toLeft a = u ↔ a ∈ ys.drop xs.length := by
  show (k.bindAll (xs.zip ys)).swap.toRight a = u ↔ a ∈ ys.drop xs.length
  have hfresh' := hfresh.swap
  rw [List.zip_swap] at hfresh'
  rw [Links.swap_bindAll, List.zip_swap]
  exact Links.zip_right_eq hys hxs hfresh' ha

/-- The last place of a name in a list. -/
theorem exists_last {xs : List α} {a : α} (h : a ∈ xs) :
    ∃ before after, xs = before ++ a :: after ∧ a ∉ after := by
  obtain ⟨before, after, hsplit, hnot⟩ := List.eq_append_cons_of_mem (List.mem_reverse.mpr h)
  refine ⟨after.reverse, before.reverse, ?_, by simpa using hnot⟩
  rw [← List.reverse_reverse xs, hsplit]
  simp

section Zip

variable [DecidableEq α]

/-- In a loop over two lists the last place of a name counts. -/
theorem Links.bindAll_zip_last (k : Links α) {xs ys before after : List α} {a : α}
    (hsplit : xs.take ys.length = before ++ a :: after) (ha : a ∉ after) :
    ∃ b, ys[before.length]? = some b ∧ (k.bindAll (xs.zip ys)).toRight a = b := by
  have hlen : before.length < ys.length := by
    have hle := congrArg List.length hsplit
    rw [List.length_take, List.length_append, List.length_cons] at hle
    omega
  refine ⟨ys[before.length], List.getElem?_eq_getElem hlen, ?_⟩
  have hys : ys = ys.take before.length ++ ys[before.length] :: ys.drop (before.length + 1) := by
    rw [List.getElem_cons_drop, List.take_append_drop]
  have hzip : xs.zip ys = before.zip (ys.take before.length) ++
      (a, ys[before.length]) :: after.zip (ys.drop (before.length + 1)) := by
    rw [← zip_take, hsplit]
    conv_lhs => rw [hys]
    rw [List.zip_append (by rw [List.length_take]; omega), List.zip_cons_cons]
  rw [hzip]
  apply Links.bindAll_last
  intro hmem
  obtain ⟨x, hx, rfl⟩ := List.mem_map.mp hmem
  exact ha (List.of_mem_zip hx).1

/-- Two loops over the same names store the same when the last place of each name has the same
value. -/
theorem Links.bindAll_zip_right_eq_iff (k : Links α) {xs ys zs : List α}
    (hlen : ys.length = zs.length) :
    (k.bindAll (xs.zip ys)).toRight = (k.bindAll (xs.zip zs)).toRight ↔
      ∀ before a after, xs.take ys.length = before ++ a :: after → a ∉ after →
        ys[before.length]? = zs[before.length]? := by
  constructor
  · intro heq before a after hsplit ha
    obtain ⟨b, hb, hval⟩ := k.bindAll_zip_last hsplit ha
    rw [hlen] at hsplit
    obtain ⟨b', hb', hval'⟩ := k.bindAll_zip_last hsplit ha
    rw [hb, hb', ← hval, ← hval', heq]
  · intro hsame
    funext a
    by_cases ha : a ∈ xs.take ys.length
    · obtain ⟨before, after, hsplit, hnot⟩ := exists_last ha
      obtain ⟨b, hb, hval⟩ := k.bindAll_zip_last hsplit hnot
      have hsplit' := hsplit
      rw [hlen] at hsplit'
      obtain ⟨b', hb', hval'⟩ := k.bindAll_zip_last hsplit' hnot
      have hbb := hsame before a after hsplit hnot
      rw [hb, hb'] at hbb
      rw [hval, hval', Option.some.inj hbb]
    · have ha' : a ∉ xs.take zs.length := hlen ▸ ha
      rw [← map_fst_zip] at ha ha'
      rw [Links.bindAll_of_not_mem _ ha, Links.bindAll_of_not_mem _ ha']

omit [DecidableEq α] in
/-- A name stands behind the first `n` elements when its last place does. -/
theorem mem_drop_last {before after : List α} {a : α} (ha : a ∉ after) {n : ℕ} :
    a ∈ (before ++ a :: after).drop n ↔ n ≤ before.length := by
  constructor
  · intro hmem
    by_contra hlt
    obtain ⟨m, hm⟩ := Nat.exists_eq_add_of_lt (not_le.mp hlt)
    have hn : n = before.length + (m + 1) := by omega
    rw [hn, List.drop_length_add_append, List.drop_succ_cons] at hmem
    exact ha (List.mem_of_mem_drop hmem)
  · intro hle
    rw [List.drop_append_of_le_length hle]
    exact List.mem_append_right _ List.mem_cons_self

/-- A loop over two lists does something else without the last place of a name, if that place has
a partner. -/
theorem Links.bindAll_zip_remove (k : Links α) {before after ys : List α} {a : α} (ha : a ∉ after)
    (hys : ys.Nodup) (hne : ∀ b ∈ ys, k.toRight a ≠ b) (hlt : before.length < ys.length) :
    (k.bindAll ((before ++ a :: after).zip ys)).toRight a ≠
      (k.bindAll ((before ++ after).zip ys)).toRight a := by
  have htake : (before ++ a :: after).take ys.length =
      before ++ a :: after.take (ys.length - before.length - 1) := by
    obtain ⟨m, hm⟩ := Nat.exists_eq_add_of_lt hlt
    have hone : before.length + m + 1 - before.length - 1 = m := by omega
    have hlen : before.length + m + 1 = before.length + (m + 1) := by omega
    rw [hm, hone, hlen, List.take_length_add_append, List.take_succ_cons]
  obtain ⟨b, hb, hval⟩ := k.bindAll_zip_last htake fun hmem => ha (List.mem_of_mem_take hmem)
  rw [hval]
  intro heq
  rcases k.bindAll_keep_or ((before ++ after).zip ys) a with hkeep | ⟨x, hx, hxa, hx2⟩
  · exact hne b (List.mem_of_getElem? hb) (hkeep.symm.trans heq.symm)
  · -- the other places of the name come before, with other partners
    have hzip : (before ++ after).zip ys = before.zip (ys.take before.length) ++
        after.zip (ys.drop before.length) := by
      conv_lhs => rw [← List.take_append_drop before.length ys]
      rw [List.zip_append (by rw [List.length_take]; omega)]
    rw [hzip, List.mem_append] at hx
    rcases hx with hx | hx
    · have hfirst := (List.of_mem_zip hx).2
      have hdrop : b ∈ ys.drop before.length := by
        rw [List.mem_iff_getElem?]
        exact ⟨0, by simpa using hb⟩
      rw [← hx2, ← heq] at hfirst
      rw [← List.take_append_drop before.length ys, List.nodup_append] at hys
      exact hys.2.2 b hfirst b hdrop rfl
    · exact ha (hxa ▸ (List.of_mem_zip hx).1)

end Zip

section First

variable [DecidableEq α]

/-- `a` is linked to the first of the names that nothing is linked to. -/
def Links.bindFirst (u : α) (names : List α) (k : Links α) (a : α) : Links α :=
  match names.find? fun name => decide (k.toLeft name = u) with
  | some name => k.bind a name
  | none => k

/-- A loop of this kind takes the free names in their order, each of them once. -/
theorem Links.foldl_bindFirst {names xs : List α} (hxs : ∀ a ∈ xs, a ≠ u) (k : Links α) :
    xs.foldl (Links.bindFirst u names) k =
      k.bindAll (xs.zip (names.filter fun name => decide (k.toLeft name = u)).eraseDups) := by
  induction xs generalizing k with
  | nil => simp
  | cons a xs ih =>
    obtain ⟨ha, hxs⟩ := List.forall_mem_cons.mp hxs
    rw [List.foldl_cons]
    cases hfree : names.filter fun name => decide (k.toLeft name = u) with
    | nil =>
      have hnone : names.find? (fun name => decide (k.toLeft name = u)) = none := by
        rw [← List.head?_filter, hfree]
        rfl
      have hk : Links.bindFirst u names k a = k := by rw [Links.bindFirst, hnone]
      rw [hk, ih hxs, hfree, List.eraseDups_nil, List.zip_nil_right, List.zip_nil_right]
    | cons name free =>
      have hsome : names.find? (fun name => decide (k.toLeft name = u)) = some name := by
        rw [← List.head?_filter, hfree]
        rfl
      have hk : Links.bindFirst u names k a = k.bind a name := by rw [Links.bindFirst, hsome]
      have hrest : names.filter (fun x => decide ((k.bind a name).toLeft x = u)) =
          free.filter fun x => !(x == name) := by
        have hstep : names.filter (fun x => decide ((k.bind a name).toLeft x = u)) =
            (names.filter fun x => decide (k.toLeft x = u)).filter fun x => !(x == name) := by
          rw [List.filter_filter]
          apply List.filter_congr
          intro x _
          by_cases hx : x = name
          · subst hx
            simp [Links.bind, ha]
          · simp [Links.bind, hx]
        rw [hstep, hfree, List.filter_cons, if_neg (by simp)]
      rw [hk, ih hxs, hrest, List.eraseDups_cons]
      rfl

theorem eraseDups_of_nodup {xs : List α} (h : xs.Nodup) : xs.eraseDups = xs := by
  induction xs with
  | nil => rfl
  | cons x xs ih =>
    obtain ⟨hx, hxs⟩ := List.nodup_cons.mp h
    have hsame : xs.filter (fun y => !(y == x)) = xs := by
      rw [List.filter_eq_self]
      intro y hy
      have hne : y ≠ x := fun he => hx (he ▸ hy)
      simpa using hne
    rw [List.eraseDups_cons, hsame, ih hxs]

theorem nodup_eraseDups (xs : List α) : xs.eraseDups.Nodup := by
  induction hlen : xs.length using Nat.strong_induction_on generalizing xs with
  | _ n ih =>
    cases xs with
    | nil => simp
    | cons x xs =>
      have hlt : (xs.filter fun y => !(y == x)).length < n := by
        rw [← hlen, List.length_cons]
        exact Nat.lt_succ_of_le (List.length_filter_le _ xs)
      rw [List.eraseDups_cons, List.nodup_cons]
      refine ⟨?_, ih _ hlt _ rfl⟩
      rw [List.mem_eraseDups, List.mem_filter]
      simp

end First

section Overflow

variable (free : α → Bool) (names rest : List α)

/-- The names left over that are free, and are taken by themselves. -/
def ownNames : List α := rest.filter free

/-- The names left over that have to take another one. -/
def leftOver : List α := rest.filter fun x => !free x

variable [DecidableEq α]

/-- The free names that nothing takes for its own. -/
def available : List α := names.filter fun x => free x && decide (x ∉ rest)

variable {free names rest}

/-- The pairs of the loop over the names left over, whatever the order in which the two lists
come to it. -/
theorem overflow_fresh {k : Links α} {rest' names' : List α} (hnodup : rest.Nodup)
    (hrest : rest'.Perm (leftOver free rest)) (hnames : names.Nodup)
    (hnames' : names'.Perm (available free names rest))
    (hright : ∀ x ∈ rest, k.toRight x = u) (hleft : ∀ x, free x = true → k.toLeft x = u) :
    k.Fresh u ((ownNames free rest).map (fun x => (x, x)) ++ rest'.zip names') := by
  have hown : ((ownNames free rest).map fun x => (x, x)).map Prod.fst = ownNames free rest := by
    simp [Function.comp_def]
  have hown' : ((ownNames free rest).map fun x => (x, x)).map Prod.snd = ownNames free rest := by
    simp [Function.comp_def]
  have htake : ∀ x ∈ rest'.take names'.length, x ∈ rest ∧ free x = false := by
    intro x hx
    simpa [leftOver] using hrest.mem_iff.mp (List.mem_of_mem_take hx)
  have htake' : ∀ x ∈ names'.take rest'.length, x ∉ rest ∧ free x = true := by
    intro x hx
    have hmem := hnames'.mem_iff.mp (List.mem_of_mem_take hx)
    rw [available, List.mem_filter, Bool.and_eq_true, decide_eq_true_eq] at hmem
    exact ⟨hmem.2.2, hmem.2.1⟩
  have hmem (x : α) (hx : x ∈ ownNames free rest) : x ∈ rest ∧ free x = true :=
    List.mem_filter.mp hx
  refine ⟨?_, ?_, ?_, ?_⟩
  · intro x hx
    have hfst := List.mem_map_of_mem (f := Prod.fst) hx
    rw [List.map_append, hown, map_fst_zip, List.mem_append] at hfst
    rcases hfst with hfst | hfst
    · exact hright _ (hmem _ hfst).1
    · exact hright _ (htake _ hfst).1
  · intro x hx
    have hsnd := List.mem_map_of_mem (f := Prod.snd) hx
    rw [List.map_append, hown', map_snd_zip, List.mem_append] at hsnd
    rcases hsnd with hsnd | hsnd
    · exact hleft _ (hmem _ hsnd).2
    · exact hleft _ (htake' _ hsnd).2
  · rw [List.map_append, hown, map_fst_zip, List.nodup_append]
    refine ⟨hnodup.filter _, ?_, ?_⟩
    · exact ((hrest.nodup_iff.mpr (hnodup.filter _)).sublist (List.take_sublist _ _))
    · rintro x hx y hy rfl
      exact absurd (hmem x hx).2 (by simp [(htake x hy).2])
  · rw [List.map_append, hown', map_snd_zip, List.nodup_append]
    refine ⟨hnodup.filter _, ?_, ?_⟩
    · exact ((hnames'.nodup_iff.mpr (hnames.filter _)).sublist (List.take_sublist _ _))
    · rintro x hx y hy rfl
      exact (htake' x hy).1 (hmem x hx).1

/-- What is left over is something to the right, and no name of it. -/
theorem leftOver_subset {k : Links α} {others : List α} (hk : Inverse u k.toRight k.toLeft)
    (hnames : ∀ x ∈ names, x ≠ u) (hunset : ∀ x, x ∈ rest ↔ x ∈ names ∧ k.toRight x = u)
    (hfree : ∀ x ∈ names, free x = true ↔ k.toLeft x = u) (hothers : ∀ y ∈ others, y ≠ u)
    (hmem : ∀ x ∈ names, k.toLeft x ≠ u → x ∈ others) :
    (leftOver free rest).toFinset ⊆
      (names.toFinset \ others.toFinset.image k.toLeft) ∩ others.toFinset := by
  intro x hx
  rw [List.mem_toFinset, leftOver, List.mem_filter, Bool.not_eq_true'] at hx
  obtain ⟨hx, hfx⟩ := hx
  obtain ⟨hxn, hxr⟩ := (hunset x).mp hx
  have hset : k.toLeft x ≠ u := by
    intro he
    rw [(hfree x hxn).mpr he] at hfx
    cases hfx
  rw [Finset.mem_inter, Finset.mem_sdiff, List.mem_toFinset, List.mem_toFinset]
  refine ⟨⟨hxn, ?_⟩, hmem x hxn hset⟩
  intro himage
  obtain ⟨y, hy, hyx⟩ := Finset.mem_image.mp himage
  have hyne := hothers y (List.mem_toFinset.mp hy)
  exact hyne (((hk x y (hnames x hxn) hyne).mpr hyx).symm.trans hxr)

/-- The names of what is to the right, and nothing to the right themselves, are available. -/
theorem image_subset_available {k : Links α} {others : List α}
    (hk : Inverse u k.toRight k.toLeft) (hnames : ∀ x ∈ names, x ≠ u)
    (hunset : ∀ x, x ∈ rest ↔ x ∈ names ∧ k.toRight x = u)
    (hfree : ∀ x ∈ names, free x = true ↔ k.toLeft x = u)
    (hothers : ∀ y ∈ others, y ≠ u ∧ k.toLeft y ≠ u ∧ k.toLeft y ∈ names)
    (hmem : ∀ x ∈ names, k.toLeft x ≠ u → x ∈ others) :
    others.toFinset.image k.toLeft \ others.toFinset ⊆ (available free names rest).toFinset := by
  intro x hx
  rw [Finset.mem_sdiff, List.mem_toFinset] at hx
  obtain ⟨himage, hxo⟩ := hx
  obtain ⟨y, hy, rfl⟩ := Finset.mem_image.mp himage
  obtain ⟨hyne, hset, hyn⟩ := hothers y (List.mem_toFinset.mp hy)
  rw [List.mem_toFinset, available, List.mem_filter, Bool.and_eq_true, decide_eq_true_eq]
  refine ⟨hyn, (hfree _ hyn).mpr ?_, ?_⟩
  · by_contra h
    exact hxo (hmem _ hyn h)
  · intro hin
    have hr := ((hk _ y (hnames _ hyn) hyne).mpr rfl).symm.trans ((hunset _).mp hin).2
    exact hyne hr

/-- When everything to the right is matched, there are as many names available as are left
over. -/
theorem leftOver_le {k : Links α} {others : List α} (hk : Inverse u k.toRight k.toLeft)
    (hrest : rest.Nodup) (hnames : ∀ x ∈ names, x ≠ u)
    (hunset : ∀ x, x ∈ rest ↔ x ∈ names ∧ k.toRight x = u)
    (hfree : ∀ x ∈ names, free x = true ↔ k.toLeft x = u)
    (hothers : ∀ y ∈ others, y ≠ u ∧ k.toLeft y ≠ u ∧ k.toLeft y ∈ names)
    (hmem : ∀ x ∈ names, k.toLeft x ≠ u → x ∈ others) :
    (leftOver free rest).length ≤ (available free names rest).length := by
  have hinj : Set.InjOn k.toLeft (others.toFinset : Set α) := by
    intro x hx y hy he
    obtain ⟨hx, hxl, -⟩ := hothers x (by simpa using hx)
    exact hk.symm.injective hx (hothers y (by simpa using hy)).1 hxl he
  have hcard := card_leftover_le names.toFinset hinj
  have hnodup : (leftOver free rest).toFinset.card = (leftOver free rest).length :=
    List.toFinset_card_of_nodup (hrest.filter _)
  have hle := Finset.card_le_card
    (leftOver_subset hk hnames hunset hfree (fun y hy => (hothers y hy).1) hmem)
  have hge := (Finset.card_le_card
    (image_subset_available hk hnames hunset hfree hothers hmem)).trans (List.toFinset_card_le _)
  omega

end Overflow

end Matching
