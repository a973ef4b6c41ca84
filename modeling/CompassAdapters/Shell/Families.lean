import CompassAdapters.Shell.Words
import Mathlib.Logic.Function.Basic

/-! Variables `FAMILY_NAME` that a script makes with `eval`: one function for each family. -/
namespace Shell

abbrev Family := String → String

/-- A string that may stand in the name of a variable. -/
def isName (w : String) : Bool := w.toList.all fun c => c.isAlphanum || c == '_'

/-- The string has a redirection when it is read as part of a command. -/
def redirects (w : String) : Bool := w.toList.any fun c => c == '<' || c == '>'

theorem redirects_of_isName {w : String} (h : isName w = true) : redirects w = false := by
  rw [redirects, List.any_eq_false]
  intro c hc
  have hname := List.all_eq_true.mp h c hc
  rw [Bool.or_eq_true, beq_iff_eq, beq_iff_eq]
  rintro (rfl | rfl)
  · exact absurd hname (by decide)
  · exact absurd hname (by decide)

theorem redirects_append (v w : String) : redirects (v ++ w) = (redirects v || redirects w) := by
  simp [redirects]

section Last
variable {ι : Type*}

/-- What the last element that passes a test leads to. -/
def lastMatch (test : ι → Bool) (value : ι → String) (otherwise : String) (xs : List ι) : String :=
  ((xs.reverse.find? test).map value).getD otherwise

@[simp] theorem lastMatch_nil (test : ι → Bool) (value : ι → String) (otherwise : String) :
    lastMatch test value otherwise [] = otherwise := rfl

theorem lastMatch_cons (test : ι → Bool) (value : ι → String) (otherwise : String) (x : ι)
    (xs : List ι) : lastMatch test value otherwise (x :: xs) =
      lastMatch test value (if test x then value x else otherwise) xs := by
  rw [lastMatch, List.reverse_cons, List.find?_append, lastMatch]
  cases xs.reverse.find? test with
  | some y => rfl
  | none => cases hx : test x <;> simp [hx]

/-- An element that fails the test may be left out. -/
theorem lastMatch_remove {test : ι → Bool} (value : ι → String) (otherwise : String) {x : ι}
    (hx : test x = false) (xs ys : List ι) : lastMatch test value otherwise (xs ++ x :: ys) =
      lastMatch test value otherwise (xs ++ ys) := by
  simp [lastMatch, List.find?_append, hx]

/-- It comes from an element that passes the test. -/
theorem lastMatch_cases (test : ι → Bool) (value : ι → String) (otherwise : String)
    (xs : List ι) : lastMatch test value otherwise xs = otherwise ∨
      ∃ x ∈ xs, test x = true ∧ lastMatch test value otherwise xs = value x := by
  rw [lastMatch]
  cases hfind : xs.reverse.find? test with
  | none => exact Or.inl rfl
  | some x =>
    have hmem := List.mem_reverse.mp (List.mem_of_find?_eq_some hfind)
    exact Or.inr ⟨x, hmem, List.find?_some hfind, rfl⟩

theorem lastMatch_of_forall {test : ι → Bool} (value : ι → String) (otherwise : String)
    {xs : List ι} (h : ∀ x ∈ xs, test x = false) :
    lastMatch test value otherwise xs = otherwise := by
  rcases lastMatch_cases test value otherwise xs with hlast | ⟨x, hx, htest, -⟩
  · exact hlast
  · rw [h x hx] at htest
    cases htest

/-- Where all elements that pass the test lead to the same, so does the last of them. -/
theorem lastMatch_eq {test : ι → Bool} {value : ι → String} (otherwise : String) {xs : List ι}
    {x : ι} (hx : x ∈ xs) (htest : test x = true) {y : String}
    (hall : ∀ z ∈ xs, test z = true → value z = y) :
    lastMatch test value otherwise xs = y := by
  have hsome : (xs.reverse.find? test).isSome = true :=
    List.find?_isSome.mpr ⟨x, List.mem_reverse.mpr hx, htest⟩
  obtain ⟨z, hz⟩ := Option.isSome_iff_exists.mp hsome
  rw [lastMatch, hz, Option.map_some, Option.getD_some]
  exact hall z (List.mem_reverse.mp (List.mem_of_find?_eq_some hz)) (List.find?_some hz)

theorem lastMatch_congr {test test' : ι → Bool} {value value' : ι → String} (otherwise : String)
    {xs : List ι} (htest : ∀ x ∈ xs, test x = test' x)
    (hvalue : ∀ x ∈ xs, test x = true → value x = value' x) :
    lastMatch test value otherwise xs = lastMatch test' value' otherwise xs := by
  induction xs generalizing otherwise with
  | nil => rfl
  | cons x xs ih =>
    obtain ⟨hx, htest⟩ := List.forall_mem_cons.mp htest
    obtain ⟨hv, hvalue⟩ := List.forall_mem_cons.mp hvalue
    rw [lastMatch_cons, lastMatch_cons, ih _ htest hvalue, ← hx]
    cases hpass : test x with
    | true => rw [if_pos rfl, if_pos rfl, hv hpass]
    | false => rfl

end Last

namespace Family

/-- No variable of the family is set. -/
def unset : Family := fun _ => ""

/-- `eval "FAMILY_$name=$value"`. With another name it is a command that is not found; a value
with a redirection is a syntax error, at which dash ends the script. -/
def evalAssign (f : Family) (name value : String) : Option Family :=
  if redirects value then none
  else if isName name then some (Function.update f name value) else some f

/-- `eval "x=\${FAMILY_$name}"`. With another name it is a bad substitution, which ends the
script as well. -/
def evalGet (f : Family) (name : String) : Option String :=
  if isName name then some (f name) else none

theorem evalAssign_of_isName (f : Family) {name value : String} (hn : isName name = true)
    (hv : isName value = true) : f.evalAssign name value = some (Function.update f name value) := by
  rw [evalAssign, redirects_of_isName hv, if_neg Bool.false_ne_true, if_pos hn]

theorem evalGet_of_isName (f : Family) {name : String} (h : isName name = true) :
    f.evalGet name = some (f name) := if_pos h

/-- A loop that stores under different names leaves one value for each. -/
theorem foldl_update_spec {ι : Type*} (name value : ι → String) {xs : List ι}
    (hnodup : (xs.map name).Nodup) (f : Family) :
    (∀ x ∈ xs, xs.foldl (fun f x => Function.update f (name x) (value x)) f (name x) = value x) ∧
    ∀ y, y ∉ xs.map name → xs.foldl (fun f x => Function.update f (name x) (value x)) f y = f y := by
  induction xs generalizing f with
  | nil => simp
  | cons x xs ih =>
    rw [List.map_cons, List.nodup_cons] at hnodup
    obtain ⟨hin, hout⟩ := ih hnodup.2 (Function.update f (name x) (value x))
    rw [List.foldl_cons]
    constructor
    · intro y hy
      rcases List.mem_cons.mp hy with rfl | hy
      · rw [hout _ hnodup.1, Function.update_self]
      · exact hin y hy
    · intro y hy
      rw [List.map_cons, List.mem_cons, not_or] at hy
      rw [hout y hy.2, Function.update_of_ne hy.1]

/-- A loop that stores under names that may come again keeps the last value of each. -/
theorem foldl_update_eq {ι : Type*} (name value : ι → String) (xs : List ι) (f : Family)
    (y : String) : xs.foldl (fun f x => Function.update f (name x) (value x)) f y =
      lastMatch (fun x => name x == y) value (f y) xs := by
  induction xs generalizing f with
  | nil => rfl
  | cons x xs ih =>
    rw [List.foldl_cons, ih, lastMatch_cons]
    by_cases hy : name x = y
    · simp [hy]
    · simp [hy, Function.update_of_ne (Ne.symm hy)]

end Family

end Shell
