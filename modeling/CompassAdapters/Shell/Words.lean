import Mathlib.Data.List.Basic
import Mathlib.Data.Nat.Digits.Defs

/-! Strings as the shells see them: blank-separated words, positional parameters, and the
filters that work on single characters and path components. -/
namespace Shell

def isBlank (c : Char) : Bool := c == ' ' || c == '\t' || c == '\n'

/-- Word splitting of an unquoted expansion with the default `IFS`. -/
def words (s : String) : List String :=
  ((s.toList.splitOnP isBlank).filter (fun w => !w.isEmpty)).map String.ofList

/-- A nonempty string that word splitting leaves in one piece. -/
structure IsWord (s : String) : Prop where
  ne_empty : s ≠ ""
  no_blank : ∀ c ∈ s.toList, isBlank c = false

/-- A statement about the characters of a string is decided along the string. -/
instance decidableForallChar (s : String) (p : Char → Prop) [DecidablePred p] :
    Decidable (∀ c ∈ s.toList, p c) :=
  List.decidableBAll p s.toList

instance (s : String) : Decidable (IsWord s) :=
  decidable_of_iff (s ≠ "" ∧ ∀ c ∈ s.toList, isBlank c = false)
    ⟨fun h => ⟨h.1, h.2⟩, fun h => ⟨h.1, h.2⟩⟩

/-- `tr a b`, and also `${s//a/b}` for single characters. -/
def translate (a b : Char) (s : String) : String :=
  String.ofList (s.toList.map fun c => if c = a then b else c)

/-- `set $ws`: without a word the command lists the variables and keeps the parameters. -/
def setParams (params ws : List String) : List String := if ws = [] then params else ws

/-- `$i`, counted from 1. -/
def param (params : List String) (i : ℕ) : String := params.getD (i - 1) ""

/-- `basename` of a path that does not end in a slash. -/
def basename (path : String) : String :=
  String.ofList (path.toList.reverse.takeWhile (· != '/')).reverse

theorem isWord_append {a b : String} (ha : IsWord a) (hb : ∀ c ∈ b.toList, isBlank c = false) :
    IsWord (a ++ b) where
  ne_empty h := ha.ne_empty (String.append_eq_empty_iff.mp h).1
  no_blank c hc := by
    rw [String.toList_append, List.mem_append] at hc
    rcases hc with hc | hc
    · exact ha.no_blank c hc
    · exact hb c hc

@[simp] theorem words_empty : words "" = [] := by simp [words]

theorem words_of_isWord {s : String} (h : IsWord s) : words s = [s] := by
  have hs : s.toList ≠ [] := fun he => h.ne_empty (String.toList_eq_nil_iff.mp he)
  rw [words, List.splitOnP_eq_singleton h.no_blank]
  simp [hs, String.ofList_toList]

theorem words_of_no_blank {s : String} (h : ∀ c ∈ s.toList, isBlank c = false) :
    words s = if s = "" then [] else [s] := by
  split
  next he => rw [he, words_empty]
  next hne => exact words_of_isWord ⟨hne, h⟩

theorem words_append_space (a b : String) : words (a ++ " " ++ b) = words a ++ words b := by
  have h : (a ++ " " ++ b).toList = a.toList ++ ' ' :: b.toList := by simp
  rw [words, h, List.splitOnP_append_cons _ _ (by decide)]
  simp [words]

theorem translate_append (a b : Char) (s t : String) :
    translate a b (s ++ t) = translate a b s ++ translate a b t := by
  simp [translate, String.ofList_append]

theorem translate_of_not_mem {a : Char} (b : Char) {s : String} (h : a ∉ s.toList) :
    translate a b s = s := by
  have hs : s.toList.map (fun c => if c = a then b else c) = s.toList := by
    conv_rhs => rw [← List.map_id s.toList]
    apply List.map_congr_left
    intro c hc
    have hne : c ≠ a := fun he => h (he ▸ hc)
    simp [hne]
  rw [translate, hs, String.ofList_toList]

theorem basename_append {name : String} (dir : String) (h : '/' ∉ name.toList) :
    basename (dir ++ "/" ++ name) = name := by
  have hpath : (dir ++ "/" ++ name).toList.reverse =
      name.toList.reverse ++ '/' :: dir.toList.reverse := by simp
  have hname : ∀ c ∈ name.toList.reverse, (c != '/') = true := by
    intro c hc
    rw [bne_iff_ne]
    rintro rfl
    exact h (List.mem_reverse.mp hc)
  rw [basename, hpath, List.takeWhile_append_of_pos hname]
  simp [String.ofList_toList]

/-- Two numbers are not written alike. -/
theorem toString_injective {m n : ℕ} (h : toString m = toString n) : m = n := by
  have hdigits : Nat.toDigits 10 m = Nat.toDigits 10 n := by
    rw [Nat.toString_eq_ofList_toDigits, Nat.toString_eq_ofList_toDigits] at h
    exact String.ofList_injective h
  rw [← Nat.ofDigitChars_ten_toDigits (n := m), hdigits, Nat.ofDigitChars_ten_toDigits]

theorem setParams_of_ne_nil (params : List String) {ws : List String} (h : ws ≠ []) :
    setParams params ws = ws := by simp [setParams, h]

end Shell
