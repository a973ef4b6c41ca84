import CompassAdapters.Shell.Families
import CompassAdapters.Template.Python
import Mathlib.Data.List.TakeWhile
import Mathlib.Data.Option.Basic

/-! Variables whose names are put together from a fixed part and a text, as scripts set and read
them through `eval`, and the numbers of the shells. -/
namespace Shell
open Python

def isNameChar (c : Char) : Bool := c.isAlphanum || c == '_'

/-- The variables `FAMILY_name`, by their names; the others are not set. -/
abbrev Table := String → Option String

namespace Table

def unset : Table := fun _ => none

/-- `$FAMILY_name`, for the name of a variable. -/
def get (t : Table) (name : String) : String := (t name).getD ""

/-- The command `FAMILY_name=value`: it sets a variable only if the name can be that of one and no
word stands behind the value. Otherwise it is a command that is not found. -/
def assign (t : Table) (name value : String) : Table :=
  let rest := value.toList.dropWhile fun c => !isBlank c
  if isName name = true ∧ words (String.ofList rest) = [] then
    Function.update t name (String.ofList (value.toList.takeWhile fun c => !isBlank c))
  else t

/-- `${FAMILY_text}`: a character that cannot stand in the name of a variable ends it, and an
operator begins. Without `-` and `:-` it is taken for a bad substitution. -/
def expand (t : Table) (text : String) : Option String :=
  let name := String.ofList (text.toList.takeWhile isNameChar)
  match text.toList.dropWhile isNameChar with
  | [] => some (t.get name)
  | '-' :: word => some ((t name).getD (String.ofList word))
  | ':' :: '-' :: word => some (if t.get name = "" then String.ofList word else t.get name)
  | _ => none

variable (t : Table) {name value : String}

theorem assign_of_isName (hname : isName name = true)
    (hvalue : ∀ c ∈ value.toList, isBlank c = false) :
    t.assign name value = Function.update t name (some value) := by
  have hall : ∀ c ∈ value.toList, (!isBlank c) = true := fun c hc => by rw [hvalue c hc]; rfl
  rw [assign]
  simp only [List.takeWhile_eq_self_iff.mpr hall, List.dropWhile_eq_nil_iff.mpr hall]
  rw [if_pos ⟨hname, by decide⟩, String.ofList_toList]

theorem expand_of_isName (hname : isName name = true) : t.expand name = some (t.get name) := by
  have hall : ∀ c ∈ name.toList, isNameChar c = true := List.all_eq_true.mp hname
  rw [expand]
  simp only [List.takeWhile_eq_self_iff.mpr hall, List.dropWhile_eq_nil_iff.mpr hall,
    String.ofList_toList]

theorem get_update (name value x : String) :
    get (Function.update t name (some value)) x = if x = name then value else t.get x := by
  rw [get, Function.update_apply]
  split
  next => rfl
  next => rfl

/-- `[ -z "$FAMILY_name" ] && FAMILY_name=value`. -/
def setDefault (name value : String) : Table :=
  if t.get name = "" then Function.update t name (some value) else t

theorem get_setDefault (name value x : String) :
    (t.setDefault name value).get x = if x = name ∧ t.get name = "" then value else t.get x := by
  rw [setDefault]
  split
  next h => simp only [get_update, h, and_true]
  next h => rw [if_neg fun h' => h h'.2]

theorem assign_of_ne {x : String} (h : x ≠ name) : t.assign name value x = t x := by
  rw [assign]
  split
  next => rw [Function.update_of_ne h]
  next => rfl

/-- What becomes of a variable does not depend on the others. -/
theorem assign_congr {t t' : Table} (value : String) (h : t name = t' name) :
    t.assign name value name = t'.assign name value name := by
  rw [assign, assign]
  split
  next => rw [Function.update_self, Function.update_self]
  next => exact h

section Fill
variable {ι : Type*} (name : ι → String) (value : ι → Option String)

/-- Some of the elements of a list set the variable of their name. -/
def fill (xs : List ι) : Table :=
  xs.foldl (fun t x => (value x).elim t (t.assign (name x))) t

theorem fill_cons (x : ι) (xs : List ι) :
    fill t name value (x :: xs) = fill ((value x).elim t (t.assign (name x))) name value xs := rfl

/-- Where no two elements have one name, the variable of each is what the element alone makes of
it. -/
theorem fill_alone {xs : List ι} (hnodup : (xs.map name).Nodup) :
    (∀ x ∈ xs, fill t name value xs (name x) = fill t name value [x] (name x)) ∧
      ∀ y, y ∉ xs.map name → fill t name value xs y = t y := by
  induction xs generalizing t with
  | nil => exact ⟨fun x hx => absurd hx List.not_mem_nil, fun _ _ => rfl⟩
  | cons x xs ih =>
    rw [List.map_cons, List.nodup_cons] at hnodup
    obtain ⟨hin, hout⟩ := ih ((value x).elim t (t.assign (name x))) hnodup.2
    have hother {y : String} (hy : y ≠ name x) : (value x).elim t (t.assign (name x)) y = t y := by
      cases value x with
      | none => rfl
      | some w => exact assign_of_ne t hy
    rw [fill_cons]
    constructor
    · intro y hy
      rcases List.mem_cons.mp hy with rfl | hy
      · exact hout _ hnodup.1
      · have hne : name y ≠ name x := fun h => hnodup.1 (h ▸ List.mem_map_of_mem hy)
        rw [hin y hy, fill_cons, fill_cons]
        cases value y with
        | none => exact hother hne
        | some w => exact assign_congr w (hother hne)
    · intro y hy
      rw [List.map_cons, List.mem_cons, not_or] at hy
      rw [hout y hy.2, hother hy.1]

/-- It holds the element's own value, if there can be such a variable and the value is in one
piece. -/
theorem fill_spec {xs : List ι} (hnodup : (xs.map name).Nodup) :
    (∀ x ∈ xs, isName (name x) = true →
      (∀ w ∈ value x, ∀ c ∈ w.toList, isBlank c = false) →
        fill t name value xs (name x) = (value x).or (t (name x))) ∧
      ∀ y, y ∉ xs.map name → fill t name value xs y = t y := by
  obtain ⟨hin, hout⟩ := fill_alone t name value hnodup
  refine ⟨fun x hx hname hvalue => ?_, hout⟩
  rw [hin x hx, fill_cons]
  cases hval : value x with
  | none => rfl
  | some w =>
    rw [Option.elim_some, assign_of_isName t hname (hvalue w hval)]
    exact Function.update_self (name x) (some w) t

/-- What is read of a table that was empty. -/
theorem get_fill_unset {xs : List ι} (hnodup : (xs.map name).Nodup) {x : ι} (hx : x ∈ xs)
    (hname : isName (name x) = true)
    (hvalue : ∀ w ∈ value x, ∀ c ∈ w.toList, isBlank c = false) :
    (fill unset name value xs).get (name x) = (value x).getD "" := by
  rw [get, (fill_spec unset name value hnodup).1 x hx hname hvalue]
  cases value x with
  | none => rfl
  | some w => rfl

end Fill

end Table

section Numbers

/-- A number as `[` reads it. -/
def number (s : String) : Option ℤ := (int s).filter fun n => -2 ^ 63 ≤ n ∧ n < 2 ^ 63

/-- `[ a -gt b ]`, which fails where one of them is no number. -/
def isGreater (a b : String) : Bool :=
  match number a, number b with
  | some a, some b => b < a
  | _, _ => false

/-- `[ a -ne 0 ]`. -/
def isNonzero (a : String) : Bool := (number a).any (· ≠ 0)

/-- A number as `$((…))` reads it: with a zero in front it is octal. -/
def arithmetic (s : String) : Option ℤ :=
  match s.toList with
  | '0' :: d :: ds =>
    if (d :: ds).all fun c => '0' ≤ c ∧ c ≤ '7' then some (Nat.ofDigitChars 8 (d :: ds) 0) else none
  | _ => int s

theorem isDigit_of_mem_toString {n : ℕ} {c : Char} (hc : c ∈ (toString n).toList) :
    c.isDigit = true := by
  rw [Nat.toString_eq_repr, Nat.toList_repr] at hc
  exact Nat.isDigit_of_mem_toDigits (by decide) (by decide) hc

theorem isBlank_of_isDigit {c : Char} (h : c.isDigit = true) : isBlank c = false := by
  rw [Bool.eq_false_iff]
  intro hblank
  rw [isBlank, Bool.or_eq_true, Bool.or_eq_true, beq_iff_eq, beq_iff_eq, beq_iff_eq] at hblank
  rcases hblank with (rfl | rfl) | rfl
  · cases h
  · cases h
  · cases h

theorem strip_of_no_space {s : String} (h : ∀ c ∈ s.toList, isSpace c = false) : strip s = s := by
  have hdrop (l : List Char) (hl : ∀ c ∈ l, isSpace c = false) : l.dropWhile isSpace = l := by
    cases l with
    | nil => rfl
    | cons c l => rw [List.dropWhile_cons_of_neg (by rw [hl c List.mem_cons_self]; decide)]
  rw [strip, hdrop _ h, hdrop _ fun c hc => h c (List.mem_reverse.mp hc), List.reverse_reverse,
    String.ofList_toList]

theorem digits_toString (n : ℕ) : digits (toString n).toList = some n := by
  rw [digits, if_neg, if_pos (List.all_eq_true.mpr fun c hc => isDigit_of_mem_toString hc),
    Nat.toString_eq_repr, Nat.toList_repr, Nat.ofDigitChars_ten_toDigits]
  rw [Nat.toString_eq_repr, Nat.toList_repr, List.isEmpty_iff]
  exact Nat.toDigits_ne_nil

theorem isSpace_of_isDigit {c : Char} (h : c.isDigit = true) : isSpace c = false := by
  rw [Bool.eq_false_iff]
  intro hspace
  simp only [isSpace, Bool.or_eq_true, beq_iff_eq] at hspace
  rcases hspace with ((((rfl | rfl) | rfl) | rfl) | rfl) | rfl <;> cases h

theorem int_toString (n : ℕ) : int (toString n) = some (n : ℤ) := by
  have hstrip : strip (toString n) = toString n :=
    strip_of_no_space fun c hc => isSpace_of_isDigit (isDigit_of_mem_toString hc)
  rw [int, hstrip]
  split
  next ds heq =>
    have hdigit := isDigit_of_mem_toString (heq ▸ List.mem_cons_self : '-' ∈ (toString n).toList)
    cases hdigit
  next ds heq =>
    have hdigit := isDigit_of_mem_toString (heq ▸ List.mem_cons_self : '+' ∈ (toString n).toList)
    cases hdigit
  next =>
    rw [digits_toString]
    rfl

theorem int_toString_int (z : ℤ) : int (toString z) = some z := by
  cases z with
  | ofNat n => exact int_toString n
  | negSucc n =>
    have htext : (toString (Int.negSucc n)).toList = '-' :: (toString (n + 1)).toList := by
      rw [show toString (Int.negSucc n) = "-" ++ toString (n + 1) from rfl, String.toList_append]
      rfl
    have hstrip : strip (toString (Int.negSucc n)) = toString (Int.negSucc n) := by
      refine strip_of_no_space ?_
      rw [htext]
      exact List.forall_mem_cons.mpr
        ⟨rfl, fun c hc => isSpace_of_isDigit (isDigit_of_mem_toString hc)⟩
    rw [int, hstrip, htext]
    simp only [digits_toString]
    rfl

/-- No numeral but that of zero begins with a zero. -/
theorem head_toDigits_ne_zero {n : ℕ} (hn : 0 < n) : (Nat.toDigits 10 n).head? ≠ some '0' := by
  induction n using Nat.strongRecOn with
  | ind n ih =>
    by_cases hlt : n < 10
    · rw [Nat.toDigits_of_lt_base hlt, List.head?_cons]
      have hdigit : ∀ k < 10, 0 < k → some (Nat.digitChar k) ≠ some '0' := by decide
      exact hdigit n hlt hn
    · have hle : 10 ≤ n := Nat.le_of_not_lt hlt
      rw [Nat.toDigits_of_base_le (by decide) hle,
        List.head?_append_of_ne_nil _ Nat.toDigits_ne_nil]
      exact ih (n / 10) (Nat.div_lt_self hn (by decide)) (Nat.div_pos hle (by decide))

theorem arithmetic_toString (n : ℕ) : arithmetic (toString n) = some (n : ℤ) := by
  rw [arithmetic]
  split
  next d ds heq =>
    rw [Nat.toString_eq_repr, Nat.toList_repr] at heq
    cases n with
    | zero =>
      rw [Nat.toDigits_zero] at heq
      cases heq
    | succ n =>
      have hhead := head_toDigits_ne_zero (Nat.succ_pos n)
      rw [heq] at hhead
      exact absurd rfl hhead
  next => exact int_toString n

theorem number_toString_int {z : ℤ} (hlow : -2 ^ 63 ≤ z) (hhigh : z < 2 ^ 63) :
    number (toString z) = some z := by
  rw [number, int_toString_int, Option.filter_some, if_pos (decide_eq_true ⟨hlow, hhigh⟩)]

theorem number_toString {n : ℕ} (hn : n < 2 ^ 63) : number (toString n) = some (n : ℤ) := by
  have htext : toString n = toString (n : ℤ) := rfl
  rw [htext]
  exact number_toString_int (by omega) (by omega)

/-- A number against zero. -/
theorem isGreater_toString_zero {z : ℤ} (hlow : -2 ^ 63 ≤ z) (hhigh : z < 2 ^ 63) :
    isGreater (toString z) "0" = decide (0 < z) := by
  have hzero : number "0" = some 0 := by decide +kernel
  rw [isGreater, number_toString_int hlow hhigh, hzero]

theorem isGreater_toString {a b : ℕ} (ha : a < 2 ^ 63) (hb : b < 2 ^ 63) :
    isGreater (toString a) (toString b) = decide (b < a) := by
  rw [isGreater, number_toString ha, number_toString hb]
  simp

theorem toString_int_ne_empty (n : ℤ) : toString n ≠ "" := by
  cases n with
  | ofNat n => exact Nat.repr_ne_empty
  | negSucc n =>
    intro h
    exact absurd (String.append_eq_empty_iff.mp h).1 (by decide)

/-- A numeral is in one piece. -/
theorem no_blank_toString_int (n : ℤ) : ∀ c ∈ (toString n).toList, isBlank c = false := by
  cases n with
  | ofNat n => exact fun c hc => isBlank_of_isDigit (isDigit_of_mem_toString hc)
  | negSucc n =>
    have htext : toString (Int.negSucc n) = "-" ++ toString (n + 1) := rfl
    rw [htext, String.toList_append]
    intro c hc
    rcases List.mem_append.mp hc with hc | hc
    · rw [List.mem_singleton.mp hc]
      rfl
    · exact isBlank_of_isDigit (isDigit_of_mem_toString hc)

theorem toString_int_injective {m n : ℤ} (h : toString m = toString n) : m = n := by
  have hneg (k : ℕ) : toString (Int.negSucc k) = "-" ++ toString (k + 1) := rfl
  have hpos (j k : ℕ) : toString (j : ℤ) ≠ toString (Int.negSucc k) := by
    intro hjk
    have hdash : '-' ∈ (toString j).toList := by
      have htext : toString j = "-" ++ toString (k + 1) := hjk
      rw [htext, String.toList_append]
      exact List.mem_append_left _ (List.mem_singleton_self _)
    exact absurd (isDigit_of_mem_toString hdash) (by decide)
  cases m with
  | ofNat j =>
    cases n with
    | ofNat k => exact congrArg Int.ofNat (toString_injective h)
    | negSucc k => exact absurd h (hpos j k)
  | negSucc j =>
    cases n with
    | ofNat k => exact absurd h.symm (hpos k j)
    | negSucc k =>
      rw [hneg, hneg, String.append_right_inj] at h
      exact congrArg Int.negSucc (Nat.succ.inj (toString_injective h))

end Numbers

end Shell
