import Mathlib.Data.List.Sort
import Mathlib.Data.List.Nodup
import Mathlib.Logic.Function.Basic

/-! Hashes of Ruby: every key once, listed in the order in which the keys came in. -/
namespace Ruby

structure Hash (κ ν : Type*) where
  entries : List (κ × ν)
  nodup : (entries.map Prod.fst).Nodup

namespace Hash

variable {κ κ' ν ι : Type*} [DecidableEq κ] [DecidableEq κ']

def empty : Hash κ ν := ⟨[], List.nodup_nil⟩

omit [DecidableEq κ] in
theorem eq_of_entries {h h' : Hash κ ν} (heq : h.entries = h'.entries) : h = h' := by
  obtain ⟨es, hes⟩ := h
  obtain ⟨es', hes'⟩ := h'
  obtain rfl : es = es' := heq
  rfl

def keys (h : Hash κ ν) : List κ := h.entries.map Prod.fst

/-- `h[k]`. -/
def get? (h : Hash κ ν) (k : κ) : Option ν := h.entries.lookup k

/-- A key that is there already keeps its place. -/
def storeEntries (k : κ) (v : ν) : List (κ × ν) → List (κ × ν)
  | [] => [(k, v)]
  | e :: es => if e.1 = k then (k, v) :: es else e :: storeEntries k v es

theorem map_fst_storeEntries (k : κ) (v : ν) (es : List (κ × ν)) :
    (storeEntries k v es).map Prod.fst =
      if k ∈ es.map Prod.fst then es.map Prod.fst else es.map Prod.fst ++ [k] := by
  induction es with
  | nil => rfl
  | cons e es ih =>
    rw [storeEntries]
    by_cases he : e.1 = k
    · simp [he]
    · rw [if_neg he, List.map_cons, ih]
      have hne : ¬ k = e.1 := fun h => he h.symm
      by_cases hk : k ∈ es.map Prod.fst
      · simp [hk]
      · simp [hk, hne]

theorem lookup_cons_eq (k : κ) (e : κ × ν) (es : List (κ × ν)) :
    (e :: es).lookup k = if k = e.1 then some e.2 else es.lookup k := by
  rw [List.lookup_cons]
  by_cases hk : k = e.1
  · simp [hk]
  · simp [hk, beq_false_of_ne hk]

theorem lookup_storeEntries (k : κ) (v : ν) (es : List (κ × ν)) (x : κ) :
    (storeEntries k v es).lookup x = if x = k then some v else es.lookup x := by
  induction es with
  | nil => exact lookup_cons_eq x (k, v) []
  | cons e es ih =>
    rw [storeEntries]
    by_cases he : e.1 = k
    · rw [if_pos he, lookup_cons_eq, lookup_cons_eq, he]
      by_cases hx : x = k <;> simp [hx]
    · rw [if_neg he, lookup_cons_eq, lookup_cons_eq, ih]
      by_cases hx : x = k
      · subst hx
        have hne : ¬ x = e.1 := fun h => he h.symm
        simp [hne]
      · simp [hx]

/-- A key that is not there comes last. -/
theorem storeEntries_of_notMem {k : κ} {v : ν} {es : List (κ × ν)} (h : k ∉ es.map Prod.fst) :
    storeEntries k v es = es ++ [(k, v)] := by
  induction es with
  | nil => rfl
  | cons e es ih =>
    rw [List.map_cons, List.mem_cons, not_or] at h
    rw [storeEntries, if_neg (Ne.symm h.1), ih h.2, List.cons_append]

/-- `h[k] = v`. -/
def store (h : Hash κ ν) (k : κ) (v : ν) : Hash κ ν where
  entries := storeEntries k v h.entries
  nodup := by
    rw [map_fst_storeEntries]
    split
    next => exact h.nodup
    next hk =>
      rw [← List.concat_eq_append]
      exact h.nodup.concat hk

/-- `select`, and with the negated test `reject`. -/
def select (h : Hash κ ν) (p : κ → ν → Bool) : Hash κ ν where
  entries := h.entries.filter fun e => p e.1 e.2
  nodup := h.nodup.sublist (List.filter_sublist.map Prod.fst)

@[simp] theorem get?_empty (k : κ) : (empty : Hash κ ν).get? k = none := rfl

omit [DecidableEq κ] in
@[simp] theorem keys_empty : (empty : Hash κ ν).keys = [] := rfl

theorem get?_store (h : Hash κ ν) (k : κ) (v : ν) :
    (h.store k v).get? = Function.update h.get? k (some v) := by
  funext x
  rw [Function.update_apply]
  exact lookup_storeEntries k v h.entries x

theorem mem_entries {h : Hash κ ν} {k : κ} {v : ν} : (k, v) ∈ h.entries ↔ h.get? k = some v := by
  obtain ⟨es, hes⟩ := h
  show (k, v) ∈ es ↔ es.lookup k = some v
  induction es with
  | nil => simp
  | cons e es ih =>
    rw [List.map_cons, List.nodup_cons] at hes
    rw [List.mem_cons, lookup_cons_eq]
    by_cases hk : k = e.1
    · have hnot : (k, v) ∉ es := fun hmem => hes.1 (hk ▸ List.mem_map_of_mem hmem)
      obtain ⟨k', v'⟩ := e
      obtain rfl : k = k' := hk
      simp [hnot, eq_comm]
    · have hpair : (k, v) ≠ e := fun h => hk (congrArg Prod.fst h)
      simp [hk, hpair, ih hes.2]

theorem mem_keys {h : Hash κ ν} {k : κ} : k ∈ h.keys ↔ ∃ v, h.get? k = some v := by
  simp only [keys, List.mem_map, ← mem_entries]
  constructor
  · rintro ⟨⟨k, v⟩, hmem, rfl⟩
    exact ⟨v, hmem⟩
  · rintro ⟨v, hmem⟩
    exact ⟨(k, v), hmem, rfl⟩

omit [DecidableEq κ] in
theorem mem_keys_select {h : Hash κ ν} {p : κ → Bool} {k : κ} :
    k ∈ (h.select fun k _ => p k).keys ↔ k ∈ h.keys ∧ p k = true := by
  simp only [keys, select, List.mem_map, List.mem_filter]
  constructor
  · rintro ⟨e, ⟨hmem, hp⟩, rfl⟩
    exact ⟨⟨e, hmem, rfl⟩, hp⟩
  · rintro ⟨⟨e, hmem, rfl⟩, hp⟩
    exact ⟨e, ⟨hmem, hp⟩, rfl⟩

theorem get?_select {h : Hash κ ν} {p : κ → Bool} {k : κ} (hk : p k = true) :
    (h.select fun k _ => p k).get? k = h.get? k := by
  apply Option.ext
  intro v
  rw [← mem_entries, ← mem_entries]
  simp [select, hk]

theorem store_of_get? {h : Hash κ ν} {k : κ} {v : ν} (hget : h.get? k = some v) :
    h.store k v = h := by
  apply eq_of_entries
  have hentries {es : List (κ × ν)} (hlookup : es.lookup k = some v) :
      storeEntries k v es = es := by
    induction es with
    | nil => cases hlookup
    | cons e es ih =>
      rw [lookup_cons_eq] at hlookup
      rw [storeEntries]
      split at hlookup
      next hk =>
        obtain rfl := Option.some.inj hlookup
        rw [if_pos hk.symm, hk]
      next hk => rw [if_neg (fun h => hk h.symm), ih hlookup]
  exact hentries hget

/-- The entries in the order of their keys. -/
def sorted {ν : Type*} (h : Hash String ν) : List (String × ν) :=
  (h.keys.insertionSort (· ≤ ·)).filterMap fun k => (h.get? k).map fun v => (k, v)

theorem mem_sorted {ν : Type*} {h : Hash String ν} {k : String} {v : ν} :
    (k, v) ∈ h.sorted ↔ h.get? k = some v := by
  simp only [sorted, List.mem_filterMap, List.mem_insertionSort, Option.map_eq_some_iff,
    Prod.mk.injEq]
  constructor
  · rintro ⟨k', -, v', hget, rfl, rfl⟩
    exact hget
  · intro hget
    exact ⟨k, mem_keys.mpr ⟨v, hget⟩, v, hget, rfl, rfl⟩

section Loops

variable (key : ι → κ) (val : ι → ν)

/-- Of the values that a loop stores under a key the last one stays. -/
theorem get?_foldl_store (xs : List ι) (h : Hash κ ν) (k : κ) :
    (xs.foldl (fun h x => h.store (key x) (val x)) h).get? k =
      ((xs.findRev? fun x => key x = k).map val).or (h.get? k) := by
  induction xs generalizing h with
  | nil => rfl
  | cons x xs ih =>
    rw [List.foldl_cons, ih, get?_store, List.findRev?, Function.update_apply]
    cases xs.findRev? fun x => key x = k with
    | some y => rfl
    | none =>
      by_cases hk : key x = k
      · simp [hk]
      · have hne : ¬ k = key x := fun h => hk h.symm
        simp [hk, hne]

variable {key val} {xs : List ι} {h : Hash κ ν} {k : κ}

theorem mem_of_findRev? {p : ι → Bool} {x : ι} (hx : xs.findRev? p = some x) :
    x ∈ xs ∧ p x = true := by
  rw [List.findRev?_eq_find?_reverse] at hx
  exact ⟨List.mem_reverse.mp (List.mem_of_find?_eq_some hx), List.find?_some hx⟩

theorem exists_findRev? {p : ι → Bool} {x : ι} (hx : x ∈ xs) (hp : p x = true) :
    ∃ y, xs.findRev? p = some y := by
  rw [List.findRev?_eq_find?_reverse]
  exact Option.isSome_iff_exists.mp
    (List.find?_isSome.mpr ⟨x, List.mem_reverse.mpr hx, hp⟩)

/-- A loop that keeps what the last item of a kind gives. -/
theorem foldl_last {α β : Type*} (p : α → Prop) [DecidablePred p] (f : α → β) (xs : List α)
    (rc : β) : xs.foldl (fun rc x => if p x then f x else rc) rc =
      ((xs.findRev? fun x => p x).map f).getD rc := by
  induction xs generalizing rc with
  | nil => rfl
  | cons x xs ih =>
    rw [List.foldl_cons, ih, List.findRev?]
    cases xs.findRev? fun x => p x with
    | some y => rfl
    | none => by_cases hx : p x <;> simp [hx]

theorem findRev?_eq_some {α : Type*} {p : α → Prop} [DecidablePred p] {xs : List α} {x : α} :
    (xs.findRev? fun x => p x) = some x ↔
      p x ∧ ∃ before after, xs = before ++ x :: after ∧ ∀ y ∈ after, ¬ p y := by
  rw [List.findRev?_eq_find?_reverse, List.find?_eq_some_iff_append, decide_eq_true_iff]
  refine and_congr_right fun _ => ?_
  constructor
  · rintro ⟨after, before, heq, hafter⟩
    refine ⟨before.reverse, after.reverse, ?_, ?_⟩
    · rw [← List.reverse_reverse xs, heq]
      simp
    · intro y hy
      simpa using hafter y (List.mem_reverse.mp hy)
  · rintro ⟨before, after, rfl, hafter⟩
    refine ⟨after.reverse, before.reverse, by simp, ?_⟩
    intro y hy
    simpa using hafter y (List.mem_reverse.mp hy)

theorem findRev?_eq_none {α : Type*} {p : α → Prop} [DecidablePred p] {xs : List α} :
    (xs.findRev? fun x => p x) = none ↔ ∀ x ∈ xs, ¬ p x := by
  simp [List.findRev?_eq_find?_reverse]

theorem of_get?_foldl_store {v : ν}
    (hget : (xs.foldl (fun h x => h.store (key x) (val x)) empty).get? k = some v) :
    ∃ x ∈ xs, key x = k ∧ val x = v := by
  rw [get?_foldl_store, get?_empty, Option.or_none, Option.map_eq_some_iff] at hget
  obtain ⟨x, hx, hval⟩ := hget
  obtain ⟨hmem, hkey⟩ := mem_of_findRev? hx
  exact ⟨x, hmem, of_decide_eq_true hkey, hval⟩

theorem mem_keys_foldl_store :
    k ∈ (xs.foldl (fun h x => h.store (key x) (val x)) empty).keys ↔ ∃ x ∈ xs, key x = k := by
  constructor
  · intro hk
    obtain ⟨v, hget⟩ := mem_keys.mp hk
    obtain ⟨x, hx, hkey, -⟩ := of_get?_foldl_store hget
    exact ⟨x, hx, hkey⟩
  · rintro ⟨x, hx, hkey⟩
    obtain ⟨y, hy⟩ := exists_findRev? (p := fun x => decide (key x = k)) hx (decide_eq_true hkey)
    rw [mem_keys, get?_foldl_store, hy]
    exact ⟨val y, rfl⟩

/-- Entries with other keys come behind those that are there. -/
theorem entries_foldl_store (es : List (κ × ν)) (h : Hash κ ν)
    (hnodup : ((h.entries ++ es).map Prod.fst).Nodup) :
    (es.foldl (fun h e => h.store e.1 e.2) h).entries = h.entries ++ es := by
  induction es generalizing h with
  | nil => rw [List.append_nil, List.foldl_nil]
  | cons e es ih =>
    have hnot : e.1 ∉ h.entries.map Prod.fst := by
      intro hmem
      rw [List.map_append, List.map_cons] at hnodup
      exact List.disjoint_of_nodup_append hnodup hmem List.mem_cons_self
    have hstore : (h.store e.1 e.2).entries = h.entries ++ [e] := storeEntries_of_notMem hnot
    rw [List.foldl_cons, ih, hstore, List.append_assoc, List.singleton_append]
    rw [hstore, List.append_assoc, List.singleton_append]
    exact hnodup

/-- A hash is made again from its entries. -/
theorem foldl_store_entries (h : Hash κ ν) :
    h.entries.foldl (fun h e => h.store e.1 e.2) empty = h :=
  eq_of_entries (entries_foldl_store h.entries empty h.nodup)

end Loops

section Nested

/-- `h[a][b]` of a hash of hashes. -/
def get2? (h : Hash κ (Hash κ' ν)) (a : κ) (b : κ') : Option ν := (h.get? a).bind fun g => g.get? b

/-- `h[a] ||= {}; h[a][b] = v`. -/
def store2 (h : Hash κ (Hash κ' ν)) (a : κ) (b : κ') (v : ν) : Hash κ (Hash κ' ν) :=
  h.store a (((h.get? a).getD empty).store b v)

@[simp] theorem get2?_empty (a : κ) (b : κ') : (empty : Hash κ (Hash κ' ν)).get2? a b = none := rfl

theorem get2?_store2 (h : Hash κ (Hash κ' ν)) (a : κ) (b : κ') (v : ν) (x : κ) (y : κ') :
    (h.store2 a b v).get2? x y = if a = x ∧ b = y then some v else h.get2? x y := by
  rw [get2?, store2, get?_store, Function.update_apply]
  by_cases hx : x = a
  · subst hx
    rw [if_pos rfl, Option.bind_some, get?_store, Function.update_apply]
    by_cases hy : y = b
    · simp [hy]
    · have hne : ¬ b = y := fun h => hy h.symm
      rw [if_neg hy, if_neg (fun h => hne h.2), get2?]
      cases h.get? x <;> rfl
  · have hne : ¬ a = x := fun h => hx h.symm
    rw [if_neg hx, if_neg (fun h => hne h.1), get2?]

theorem get2?_foldl_store2 (key : ι → κ) (key' : ι → κ') (val : ι → ν) (xs : List ι)
    (h : Hash κ (Hash κ' ν)) (a : κ) (b : κ') :
    (xs.foldl (fun h x => h.store2 (key x) (key' x) (val x)) h).get2? a b =
      ((xs.findRev? fun x => decide (key x = a ∧ key' x = b)).map val).or (h.get2? a b) := by
  induction xs generalizing h with
  | nil => rfl
  | cons x xs ih =>
    rw [List.foldl_cons, ih, get2?_store2, List.findRev?]
    cases xs.findRev? fun x => decide (key x = a ∧ key' x = b) with
    | some y => rfl
    | none =>
      by_cases hk : key x = a ∧ key' x = b
      · simp [hk]
      · simp [hk]

theorem of_get2?_foldl_store2 {key : ι → κ} {key' : ι → κ'} {val : ι → ν} {xs : List ι} {a : κ}
    {b : κ'} {v : ν} (hget : (xs.foldl (fun h x => h.store2 (key x) (key' x) (val x))
      empty).get2? a b = some v) : ∃ x ∈ xs, key x = a ∧ key' x = b ∧ val x = v := by
  rw [get2?_foldl_store2, get2?_empty, Option.or_none, Option.map_eq_some_iff] at hget
  obtain ⟨x, hx, hval⟩ := hget
  obtain ⟨hmem, hkey⟩ := mem_of_findRev? hx
  obtain ⟨hkey, hkey'⟩ := of_decide_eq_true hkey
  exact ⟨x, hmem, hkey, hkey', hval⟩

theorem exists_get2?_foldl_store2 (key : ι → κ) (key' : ι → κ') (val : ι → ν) {xs : List ι} {x : ι}
    (hx : x ∈ xs) : ∃ v, (xs.foldl (fun h x => h.store2 (key x) (key' x) (val x))
      empty).get2? (key x) (key' x) = some v := by
  obtain ⟨y, hy⟩ := exists_findRev? (p := fun y => decide (key y = key x ∧ key' y = key' x)) hx
    (decide_eq_true ⟨rfl, rfl⟩)
  rw [get2?_foldl_store2, hy]
  exact ⟨val y, rfl⟩

/-- All values of a hash of hashes. -/
def values2 (h : Hash κ (Hash κ' ν)) : List ν := h.entries.flatMap fun e => e.2.entries.map Prod.snd

theorem mem_values2 {h : Hash κ (Hash κ' ν)} {v : ν} :
    v ∈ h.values2 ↔ ∃ a b, h.get2? a b = some v := by
  simp only [values2, List.mem_flatMap, List.mem_map, get2?, Option.bind_eq_some_iff]
  constructor
  · rintro ⟨⟨a, g⟩, hg, ⟨b, v⟩, hv, rfl⟩
    exact ⟨a, b, g, mem_entries.mp hg, mem_entries.mp hv⟩
  · rintro ⟨a, b, g, hg, hv⟩
    exact ⟨(a, g), mem_entries.mpr hg, (b, v), mem_entries.mpr hv, rfl⟩

/-- The values in the order of both keys. -/
def sortedValues2 {ν : Type*} (h : Hash String (Hash String ν)) : List (String × ν) :=
  h.sorted.flatMap fun e => e.2.sorted.map fun e' => (e.1, e'.2)

theorem mem_sortedValues2 {ν : Type*} {h : Hash String (Hash String ν)} {a : String} {v : ν} :
    (a, v) ∈ h.sortedValues2 ↔ ∃ b, h.get2? a b = some v := by
  simp only [sortedValues2, List.mem_flatMap, List.mem_map, get2?, Option.bind_eq_some_iff,
    Prod.mk.injEq]
  constructor
  · rintro ⟨⟨a, g⟩, hg, ⟨b, v⟩, hv, rfl, rfl⟩
    exact ⟨b, g, mem_sorted.mp hg, mem_sorted.mp hv⟩
  · rintro ⟨b, g, hg, hv⟩
    exact ⟨(a, g), mem_sorted.mpr hg, (b, v), mem_sorted.mpr hv, rfl, rfl⟩

end Nested

end Hash

end Ruby
