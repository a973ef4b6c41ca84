import Mathlib.Data.List.ReduceOption
import Mathlib.Data.Int.Notation

/-! Indexed arrays of bash. Elements that are not set take no part in `${a[@]}` and
`${#a[@]}`, and unsetting one does not renumber the others. -/
namespace Shell

abbrev IndexedArray := List (Option String)

namespace IndexedArray

/-- `a=(x y z)`. -/
def ofWords (ws : List String) : IndexedArray := ws.map some

/-- `a[i]=v`. -/
def assign (a : IndexedArray) (i : ℕ) (v : String) : IndexedArray :=
  (a ++ List.replicate (i + 1 - a.length) none).set i (some v)

/-- `${a[i]}`. -/
def elem (a : IndexedArray) (i : ℕ) : String := (a.getD i none).getD ""

/-- `unset a[i]`. -/
def unset (a : IndexedArray) (i : ℕ) : IndexedArray := a.set i none

/-- `${a[@]}`. -/
def values (a : IndexedArray) : List String := a.reduceOption

/-- `${#a[@]}`. -/
def count (a : IndexedArray) : ℕ := a.values.length

/-- `${a}`, which is `${a[0]}`, as the words of a loop. -/
def scalar (a : IndexedArray) : List String := if a.elem 0 = "" then [] else [a.elem 0]

/-- `${a[@}}` is a bad substitution: the loop over it does nothing. -/
def malformed (_ : IndexedArray) : List String := []

theorem scalar_ofWords {ws : List String} (h : ∀ w ∈ ws, w ≠ "") :
    (ofWords ws).scalar = ws.head?.toList := by
  cases ws with
  | nil => rfl
  | cons w ws => exact if_neg (h w List.mem_cons_self)

@[simp] theorem values_ofWords (ws : List String) : (ofWords ws).values = ws := by
  simp [ofWords, values, List.reduceOption]

/-- A subscript made of variable names joined by `-`, where `vars` holds their values. -/
def subscript (vars : String → ℤ) (expr : String) : ℤ :=
  match (expr.toList.splitOnP (· == '-')).map fun name => vars (String.ofList name) with
  | [] => 0
  | v :: vs => vs.foldl (· - ·) v

/-- An unset variable counts as 0. -/
def unsetVars : String → ℤ := fun _ => 0

@[simp] theorem subscript_unsetVars (expr : String) : subscript unsetVars expr = 0 := by
  have hzero (vs : List ℤ) (h : ∀ v ∈ vs, v = 0) : vs.foldl (· - ·) 0 = 0 := by
    induction vs with
    | nil => rfl
    | cons v vs ih =>
      obtain ⟨rfl, hvs⟩ := List.forall_mem_cons.mp h
      simpa using ih hvs
  unfold subscript
  split
  next => rfl
  next v vs he =>
    have hall : ∀ w ∈ v :: vs, w = 0 := by
      rw [← he]
      simp [unsetVars]
    obtain ⟨rfl, hvs⟩ := List.forall_mem_cons.mp hall
    exact hzero vs hvs

/-- However many values are stored under the subscript 0, the last one stays. -/
theorem values_foldl_assign_zero (ws : List String) :
    (ws.foldl (fun a w => assign a 0 w) []).values = ws.getLast?.toList := by
  have hlast (v : String) (ws : List String) :
      ws.foldl (fun a w => assign a 0 w) [some v] = [some (ws.getLast?.getD v)] := by
    induction ws generalizing v with
    | nil => rfl
    | cons w ws ih =>
      rw [List.foldl_cons]
      show ws.foldl (fun a w => assign a 0 w) [some w] = _
      rw [ih, List.getLast?_cons]
      rfl
  cases ws with
  | nil => rfl
  | cons w ws =>
    rw [List.foldl_cons]
    show (ws.foldl (fun a w => assign a 0 w) [some w]).values = _
    rw [hlast, List.getLast?_cons]
    rfl

end IndexedArray

end Shell
