import CompassAdapters.Ruby.Hash
import Mathlib.Algebra.BigOperators.Group.Finset.Basic

/-! Totals and single values in one dictionary. Each value is added to a total and stored under a
name of its own, where it takes the place of an earlier one. -/
namespace Tally
open Ruby

section Lists

variable {ν M : Type*} [DecidableEq ν]

/-- The last value under a name. -/
def last (xs : List (ν × M)) (n : ν) : Option M := (xs.findRev? fun x => x.1 = n).map Prod.snd

/-- The values with a later one under the same name. -/
def replaced : List (ν × M) → List M
  | [] => []
  | x :: xs => if x.1 ∈ xs.map Prod.fst then x.2 :: replaced xs else replaced xs

@[simp] theorem last_nil (n : ν) : last ([] : List (ν × M)) n = none := rfl

theorem last_cons (x : ν × M) (xs : List (ν × M)) (n : ν) :
    last (x :: xs) n = (last xs n).or (if x.1 = n then some x.2 else none) := by
  rw [last, last, List.findRev?]
  cases xs.findRev? fun x => x.1 = n with
  | some y => rfl
  | none => by_cases hx : x.1 = n <;> simp [hx]

theorem last_append (xs ys : List (ν × M)) (n : ν) :
    last (xs ++ ys) n = (last ys n).or (last xs n) := by
  induction xs with
  | nil => rw [List.nil_append, last_nil, Option.or_none]
  | cons x xs ih => rw [List.cons_append, last_cons, last_cons, ih, Option.or_assoc]

theorem last_concat (xs : List (ν × M)) (x : ν × M) (n : ν) :
    last (xs ++ [x]) n = if x.1 = n then some x.2 else last xs n := by
  rw [last_append, last_cons, last_nil, Option.none_or]
  split <;> rfl

theorem last_eq_none {xs : List (ν × M)} {n : ν} : last xs n = none ↔ n ∉ xs.map Prod.fst := by
  rw [last, Option.map_eq_none_iff, Hash.findRev?_eq_none]
  simp only [List.mem_map, not_exists, not_and]

variable [AddCommMonoid M]

/-- A total is what stands under the names and what has been replaced there. -/
theorem sum_eq_add_replaced (xs : List (ν × M)) : (xs.map Prod.snd).sum =
    ∑ n ∈ (xs.map Prod.fst).toFinset, (last xs n).getD 0 + (replaced xs).sum := by
  induction xs with
  | nil => simp [replaced]
  | cons x xs ih =>
    rw [List.map_cons, List.map_cons, List.sum_cons, List.toFinset_cons, ih, replaced]
    by_cases hx : x.1 ∈ xs.map Prod.fst
    · have hsame (n : ν) (hn : n ∈ (xs.map Prod.fst).toFinset) :
          (last (x :: xs) n).getD 0 = (last xs n).getD 0 := by
        rw [last_cons]
        cases hlast : last xs n with
        | some v => rfl
        | none => exact absurd (List.mem_toFinset.mp hn) (last_eq_none.mp hlast)
      rw [if_pos hx, Finset.insert_eq_of_mem (List.mem_toFinset.mpr hx),
        Finset.sum_congr rfl hsame, List.sum_cons, add_left_comm]
    · have hsame (n : ν) (hn : n ∈ (xs.map Prod.fst).toFinset) :
          (last (x :: xs) n).getD 0 = (last xs n).getD 0 := by
        have hne : ¬ x.1 = n := by
          rintro rfl
          exact hx (List.mem_toFinset.mp hn)
        rw [last_cons, if_neg hne, Option.or_none]
      rw [if_neg hx, Finset.sum_insert (fun hmem => hx (List.mem_toFinset.mp hmem)),
        Finset.sum_congr rfl hsame, last_cons, last_eq_none.mpr hx, if_pos rfl, Option.none_or,
        Option.getD_some, add_assoc]

/-- Over any names that there are values for, and others. -/
theorem sum_eq_iff {G : Type*} [AddCommGroup G] {xs : List (ν × G)} (names : Finset ν)
    (hnames : ∀ x ∈ xs, x.1 ∈ names) :
    (xs.map Prod.snd).sum = ∑ n ∈ names, (last xs n).getD 0 ↔ (replaced xs).sum = 0 := by
  have hsum : ∑ n ∈ (xs.map Prod.fst).toFinset, (last xs n).getD 0 =
      ∑ n ∈ names, (last xs n).getD 0 := by
    apply Finset.sum_subset
    · intro n hn
      obtain ⟨x, hx, rfl⟩ := List.mem_map.mp (List.mem_toFinset.mp hn)
      exact hnames x hx
    · intro n _ hn
      rw [last_eq_none.mpr fun hmem => hn (List.mem_toFinset.mpr hmem)]
      rfl
  rw [sum_eq_add_replaced, hsum, add_eq_left]

omit [AddCommMonoid M] in
theorem replaced_of_nodup {xs : List (ν × M)} (h : (xs.map Prod.fst).Nodup) :
    replaced xs = [] := by
  induction xs with
  | nil => rfl
  | cons x xs ih =>
    rw [List.map_cons, List.nodup_cons] at h
    rw [replaced, if_neg h.1, ih h.2]

end Lists

section Dictionaries

variable {κ γ ν M : Type*} [DecidableEq κ]

/-- `d[k] += v`, an error without the key. -/
def add [Add M] (d : Hash κ M) (k : κ) (v : M) : Option (Hash κ M) :=
  (d.get? k).map fun old => d.store k (old + v)

/-- Where the totals and the single values are. -/
structure Layout (γ ν κ : Type*) where
  total : γ → κ
  gauge : γ → ν → κ
  total_injective : Function.Injective total
  gauge_injective : ∀ {c c' n n'}, gauge c n = gauge c' n' → c = c' ∧ n = n'
  total_ne_gauge : ∀ c c' n, total c ≠ gauge c' n

/-- What a dictionary holds: totals, single values and others. -/
structure Holds (L : Layout γ ν κ) (d : Hash κ M) (total : γ → M) (gauge : γ → ν → Option M)
    (other : κ → Option M) : Prop where
  total : ∀ c, d.get? (L.total c) = some (total c)
  gauge : ∀ c n, d.get? (L.gauge c n) = gauge c n
  other : ∀ k, (∀ c, k ≠ L.total c) → (∀ c n, k ≠ L.gauge c n) → d.get? k = other k

variable [DecidableEq γ] [DecidableEq ν] [Add M] {L : Layout γ ν κ} {d : Hash κ M} {total : γ → M}
  {gauge : γ → ν → Option M} {other : κ → Option M}

omit [DecidableEq ν] [Add M] in
theorem Holds.store_total (h : Holds L d total gauge other) (c : γ) (v : M) :
    Holds L (d.store (L.total c) v) (Function.update total c v) gauge other where
  total c' := by
    rw [Hash.get?_store, Function.update_apply, Function.update_apply, h.total]
    by_cases hc : c' = c
    · rw [if_pos (congrArg L.total hc), if_pos hc]
    · rw [if_neg fun heq => hc (L.total_injective heq), if_neg hc]
  gauge c' n := by
    rw [Hash.get?_store, Function.update_of_ne (L.total_ne_gauge c c' n).symm, h.gauge]
  other k htotal hgauge := by
    rw [Hash.get?_store, Function.update_of_ne (htotal c), h.other k htotal hgauge]

omit [DecidableEq ν] in
theorem Holds.add_total (h : Holds L d total gauge other) (c : γ) (v : M) :
    ∃ d', add d (L.total c) v = some d' ∧
      Holds L d' (Function.update total c (total c + v)) gauge other := by
  rw [add, h.total]
  exact ⟨_, rfl, h.store_total c _⟩

omit [Add M] in
theorem Holds.store_gauge (h : Holds L d total gauge other) (c : γ) (n : ν) (v : M) :
    Holds L (d.store (L.gauge c n) v) total
      (Function.update gauge c (Function.update (gauge c) n (some v))) other where
  total c' := by
    rw [Hash.get?_store, Function.update_of_ne (L.total_ne_gauge c' c n), h.total]
  gauge c' n' := by
    rw [Hash.get?_store, Function.update_apply, h.gauge]
    by_cases hc : c' = c
    · subst hc
      rw [Function.update_self, Function.update_apply]
      by_cases hn : n' = n
      · rw [if_pos (congrArg _ hn), if_pos hn]
      · rw [if_neg fun heq => hn (L.gauge_injective heq).2, if_neg hn]
    · rw [Function.update_of_ne hc, if_neg fun heq => hc (L.gauge_injective heq).1]
  other k htotal hgauge := by
    rw [Hash.get?_store, Function.update_of_ne (hgauge c n), h.other k htotal hgauge]

omit [DecidableEq γ] [DecidableEq ν] [Add M] in
/-- Any other key leaves the totals and the single values as they are. -/
theorem Holds.store_other (h : Holds L d total gauge other) {k : κ} (htotal : ∀ c, k ≠ L.total c)
    (hgauge : ∀ c n, k ≠ L.gauge c n) (v : M) :
    Holds L (d.store k v) total gauge (Function.update other k (some v)) where
  total c := by rw [Hash.get?_store, Function.update_of_ne (htotal c).symm, h.total]
  gauge c n := by rw [Hash.get?_store, Function.update_of_ne (hgauge c n).symm, h.gauge]
  other k' htotal' hgauge' := by
    rw [Hash.get?_store, Function.update_apply, Function.update_apply, h.other k' htotal' hgauge']

theorem Holds.add_gauge (h : Holds L d total gauge other) {c : γ} {n : ν} {old : M}
    (hold : gauge c n = some old) (v : M) :
    ∃ d', add d (L.gauge c n) v = some d' ∧
      Holds L d' total (Function.update gauge c (Function.update (gauge c) n (some (old + v))))
        other := by
  rw [add, h.gauge, hold]
  exact ⟨_, rfl, h.store_gauge c n _⟩

/-- `d[total] += v` and `d[gauge] = v`. -/
def record (L : Layout γ ν κ) (c : γ) (n : ν) (v : M) (d : Hash κ M) : Option (Hash κ M) :=
  (add d (L.total c) v).map fun d => d.store (L.gauge c n) v

theorem Holds.record (h : Holds L d total gauge other) (c : γ) (n : ν) (v : M) :
    ∃ d', record L c n v d = some d' ∧ Holds L d' (Function.update total c (total c + v))
      (Function.update gauge c (Function.update (gauge c) n (some v))) other := by
  obtain ⟨d', hadd, hd'⟩ := h.add_total c v
  rw [Tally.record, hadd]
  exact ⟨_, rfl, hd'.store_gauge c n v⟩

end Dictionaries

end Tally
