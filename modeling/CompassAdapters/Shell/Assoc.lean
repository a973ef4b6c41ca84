import CompassAdapters.Shell.Collation
import Mathlib.Data.List.AList
import Mathlib.Logic.Function.Basic

/-! Associative arrays of bash and the unspecified order in which their elements are listed. -/
namespace Shell

abbrev AssocArray := AList fun _ : String => String

namespace AssocArray

/-- `${a[k]}`. -/
def get (a : AssocArray) (k : String) : String := (a.lookup k).getD ""

/-- `a[k]=v`. For an empty subscript nothing is stored; the shell then also leaves the compound
command that the assignment stands in, which is up to the loops that may meet one. -/
def assign (a : AssocArray) (k v : String) : AssocArray := if k = "" then a else a.insert k v

/-- `unset a[k]`. -/
def unset (a : AssocArray) (k : String) : AssocArray := a.erase k

@[simp] theorem get_empty (k : String) : get ∅ k = "" := rfl

theorem get_assign (a : AssocArray) {k : String} (hk : k ≠ "") (v : String) :
    get (a.assign k v) = Function.update (get a) k v := by
  funext x
  by_cases hx : x = k
  · subst hx
    simp [get, assign, hk]
  · simp [get, assign, hk, hx]

theorem mem_keys_assign (a : AssocArray) {k : String} (hk : k ≠ "") (v x : String) :
    x ∈ (a.assign k v).keys ↔ x = k ∨ x ∈ a.keys := by
  rw [assign, if_neg hk, ← AList.mem_keys, AList.mem_insert, AList.mem_keys]

theorem get_unset (a : AssocArray) (k : String) :
    get (a.unset k) = Function.update (get a) k "" := by
  funext x
  by_cases hx : x = k
  · subst hx
    simp [get, unset]
  · simp [get, unset, hx]

theorem mem_keys_unset (a : AssocArray) (k x : String) :
    x ∈ (a.unset k).keys ↔ x ≠ k ∧ x ∈ a.keys := by
  rw [unset, ← AList.mem_keys, AList.mem_erase, AList.mem_keys]

theorem get_of_not_mem {a : AssocArray} {k : String} (h : k ∉ a.keys) : get a k = "" := by
  rw [← AList.mem_keys, ← AList.lookup_eq_none] at h
  simp [get, h]

/-- Every element is stored under itself. -/
def IsSet (a : AssocArray) : Prop := ∀ x ∈ a.keys, a.get x = x

theorem IsSet.get_eq {a : AssocArray} (h : IsSet a) (x : String) :
    a.get x = if x ∈ a.keys then x else "" := by
  split
  next hx => exact h x hx
  next hx => exact get_of_not_mem hx

theorem IsSet.assign {a : AssocArray} (h : IsSet a) (x : String) : IsSet (a.assign x x) := by
  by_cases hx : x = ""
  · simpa [AssocArray.assign, hx] using h
  · intro y hy
    rw [get_assign a hx]
    by_cases hyx : y = x
    · simp [hyx]
    · rw [Function.update_of_ne hyx]
      rw [mem_keys_assign a hx] at hy
      exact h y (hy.resolve_left hyx)

theorem IsSet.unset {a : AssocArray} (h : IsSet a) (k : String) : IsSet (a.unset k) := by
  intro y hy
  rw [mem_keys_unset] at hy
  rw [get_unset, Function.update_of_ne hy.1]
  exact h y hy.2

/-- `for x in xs; do if p x; then a[x]=x; fi; done`. -/
def collect (p : String → Bool) (xs : List String) : AssocArray :=
  xs.foldl (fun a x => if p x then a.assign x x else a) ∅

/-- A loop that stores under different keys leaves one value for each. -/
theorem get_foldl_assign {ι : Type*} (k v : ι → String) {xs : List ι}
    (hne : ∀ x ∈ xs, k x ≠ "") (hk : (xs.map k).Nodup) (a : AssocArray) :
    (∀ x ∈ xs, (xs.foldl (fun a x => a.assign (k x) (v x)) a).get (k x) = v x) ∧
    ∀ y, y ∉ xs.map k → (xs.foldl (fun a x => a.assign (k x) (v x)) a).get y = a.get y := by
  induction xs generalizing a with
  | nil => simp
  | cons x xs ih =>
    obtain ⟨hx, hne⟩ := List.forall_mem_cons.mp hne
    rw [List.map_cons, List.nodup_cons] at hk
    obtain ⟨hin, hout⟩ := ih hne hk.2 (a.assign (k x) (v x))
    rw [List.foldl_cons]
    constructor
    · intro y hy
      rcases List.mem_cons.mp hy with rfl | hy
      · rw [hout _ hk.1, get_assign a hx, Function.update_self]
      · exact hin y hy
    · intro y hy
      rw [List.map_cons, List.mem_cons, not_or] at hy
      rw [hout y hy.2, get_assign a hx, Function.update_of_ne hy.1]

theorem collect_spec (p : String → Bool) {xs : List String} (hxs : ∀ x ∈ xs, x ≠ "") :
    IsSet (collect p xs) ∧ ∀ x, x ∈ (collect p xs).keys ↔ x ∈ xs ∧ p x = true := by
  have hloop (a : AssocArray) (ha : IsSet a) :
      IsSet (xs.foldl (fun a x => if p x then a.assign x x else a) a) ∧
      ∀ x, x ∈ (xs.foldl (fun a x => if p x then a.assign x x else a) a).keys ↔
        x ∈ a.keys ∨ (x ∈ xs ∧ p x = true) := by
    induction xs generalizing a with
    | nil => simpa using ha
    | cons y ys ih =>
      obtain ⟨hy, hys⟩ := List.forall_mem_cons.mp hxs
      rw [List.foldl_cons]
      by_cases hp : p y = true
      · rw [if_pos hp]
        obtain ⟨hset, hmem⟩ := ih hys (a.assign y y) (ha.assign y)
        refine ⟨hset, fun x => ?_⟩
        rw [hmem, mem_keys_assign a hy]
        grind
      · rw [if_neg hp]
        obtain ⟨hset, hmem⟩ := ih hys a ha
        refine ⟨hset, fun x => ?_⟩
        rw [hmem]
        grind
  obtain ⟨hset, hmem⟩ := hloop ∅ (by intro x hx; cases hx)
  refine ⟨hset, fun x => ?_⟩
  rw [collect, hmem]
  simp

/-- An array that holds every name of a list under itself. -/
def ofNames (xs : List String) : AssocArray := collect (fun _ => true) xs

theorem ofNames_spec {xs : List String} (hxs : ∀ x ∈ xs, x ≠ "") :
    IsSet (ofNames xs) ∧ ∀ x, x ∈ (ofNames xs).keys ↔ x ∈ xs := by
  obtain ⟨hset, hmem⟩ := collect_spec (fun _ => true) hxs
  refine ⟨hset, fun x => (hmem x).trans ?_⟩
  simp

end AssocArray

/-- What the scripts leave to the shell: the order of `sort`, and the order in which the loop at
each place of a script lists the keys of an array. -/
structure Bash extends Collation where
  order : ℕ → List String → List String
  order_perm : ∀ place ks, (order place ks).Perm ks

namespace Bash

instance : Coe Bash Collation := ⟨Bash.toCollation⟩

/-- The keys in the order in which they are stored. -/
def plain : Bash where
  toCollation := Collation.plain
  order _ ks := ks
  order_perm _ _ := List.Perm.refl _

variable (b : Bash)

/-- `${!a[@]}`. -/
def keys (place : ℕ) (a : AssocArray) : List String := b.order place a.keys

/-- `${a[@]}`. -/
def values (place : ℕ) (a : AssocArray) : List String := (b.keys place a).map a.get

theorem mem_keys {place : ℕ} {a : AssocArray} {x : String} : x ∈ b.keys place a ↔ x ∈ a.keys :=
  (b.order_perm place a.keys).mem_iff

theorem keys_nodup (place : ℕ) (a : AssocArray) : (b.keys place a).Nodup :=
  (b.order_perm place a.keys).nodup_iff.mpr a.keys_nodup

theorem values_of_isSet (place : ℕ) {a : AssocArray} (h : a.IsSet) :
    b.values place a = b.keys place a := by
  have hid : ∀ x ∈ b.keys place a, a.get x = x := fun x hx => h x (b.mem_keys.mp hx)
  rw [values, List.map_congr_left hid, List.map_id']

theorem sort_values (place : ℕ) {a : AssocArray} (h : a.IsSet) {xs : List String}
    (hxs : xs.Nodup) (hmem : ∀ x, x ∈ a.keys ↔ x ∈ xs) :
    b.sort (b.values place a) = b.sort xs := by
  rw [values_of_isSet b place h]
  apply b.sort_eq_of_perm
  rw [List.perm_ext_iff_of_nodup (b.keys_nodup place a) hxs]
  intro x
  rw [b.mem_keys, hmem]

theorem mem_values (place : ℕ) {a : AssocArray} (h : a.IsSet) {x : String} :
    x ∈ b.values place a ↔ x ∈ a.keys := by
  rw [values_of_isSet b place h, b.mem_keys]

theorem values_ofNames_perm (place : ℕ) {xs : List String} (hxs : xs.Nodup)
    (hne : ∀ x ∈ xs, x ≠ "") : (b.values place (AssocArray.ofNames xs)).Perm xs := by
  obtain ⟨hset, hmem⟩ := AssocArray.ofNames_spec hne
  rw [values_of_isSet b place hset, List.perm_ext_iff_of_nodup (b.keys_nodup place _) hxs]
  intro x
  rw [b.mem_keys, hmem]

/-- The loop over the elements of such an array that keeps the ones passing a test. -/
theorem collect_values_spec (place : ℕ) (p : String → Bool) {a : AssocArray} (h : a.IsSet)
    (hne : ∀ x ∈ a.keys, x ≠ "") :
    (AssocArray.collect p (b.values place a)).IsSet ∧
    ∀ x, x ∈ (AssocArray.collect p (b.values place a)).keys ↔ x ∈ a.keys ∧ p x = true := by
  obtain ⟨hset, hmem⟩ := AssocArray.collect_spec p
    (fun x hx => hne x ((b.mem_values place h).mp hx))
  exact ⟨hset, fun x => (hmem x).trans (and_congr_left' (b.mem_values place h))⟩

/-- The values of an array that a loop stores under different keys. -/
theorem values_foldl_assign_perm {ι : Type*} (place : ℕ) (k v : ι → String) {xs : List ι}
    (hne : ∀ x ∈ xs, k x ≠ "") (hk : (xs.map k).Nodup) :
    (b.values place (xs.foldl (fun a x => a.assign (k x) (v x)) ∅)).Perm (xs.map v) := by
  obtain ⟨hin, -⟩ := AssocArray.get_foldl_assign k v hne hk ∅
  have hkeys (a : AssocArray) (y : String) :
      y ∈ (xs.foldl (fun a x => a.assign (k x) (v x)) a).keys ↔ y ∈ xs.map k ∨ y ∈ a.keys := by
    clear hin hk
    induction xs generalizing a with
    | nil => simp
    | cons x xs ih =>
      obtain ⟨hx, hne⟩ := List.forall_mem_cons.mp hne
      rw [List.foldl_cons, ih hne, AssocArray.mem_keys_assign a hx, List.map_cons, List.mem_cons]
      tauto
  have hperm : (b.keys place (xs.foldl (fun a x => a.assign (k x) (v x)) ∅)).Perm (xs.map k) := by
    rw [List.perm_ext_iff_of_nodup (b.keys_nodup place _) hk]
    intro y
    rw [b.mem_keys, hkeys]
    exact or_iff_left List.not_mem_nil
  have hmap : xs.map v =
      (xs.map k).map (xs.foldl (fun a x => a.assign (k x) (v x)) ∅ : AssocArray).get := by
    rw [List.map_map]
    exact List.map_congr_left fun x hx => (hin x hx).symm
  rw [hmap]
  exact hperm.map _

end Bash

end Shell
