import Mathlib.Data.List.Basic
import Mathlib.Data.List.Infix

/-! The regular expressions the scripts use: fixed patterns anywhere in a line, the greedy
split of a line by `\(.*\)\(R\+\)$`, and anchored basic expressions made of characters, `.`
and `*`. -/
namespace Shell

/-- `grep pat` for a pattern without special characters. -/
def grep (pat line : String) : Bool := line.toList.tails.any fun rest => pat.toList.isPrefixOf rest

theorem grep_append {pat b : String} (a : String) (h : pat.toList <+: b.toList) :
    grep pat (a ++ b) = true := by
  rw [grep, List.any_eq_true]
  refine ⟨b.toList, ?_, List.isPrefixOf_iff_prefix.mpr h⟩
  rw [List.mem_tails, String.toList_append]
  exact List.suffix_append _ _

section Greedy
variable {α : Type*}

/-- The cuts of a line in two, the longest first part first. -/
def cuts (xs : List α) : List (List α × List α) :=
  ((List.range (xs.length + 1)).map fun i => xs.splitAt i).reverse

/-- The match of `^\(.*\)\(R\+\)$`, where `R` is the class of `p`: the first group is as
long as possible. -/
def greedySplit (p : α → Bool) (xs : List α) : Option (List α × List α) :=
  (cuts xs).find? fun cut => !cut.2.isEmpty && cut.2.all p

theorem greedySplit_concat (p : α → Bool) (xs : List α) (c : α) :
    greedySplit p (xs ++ [c]) = if p c then some (xs, [c]) else none := by
  have hcuts : cuts (xs ++ [c]) =
      (xs ++ [c], []) :: (xs, [c]) ::
        ((List.range xs.length).map fun i => (xs ++ [c]).splitAt i).reverse := by
    simp [cuts, List.range_succ, List.take_of_length_le]
  rw [greedySplit, hcuts, List.find?_cons_of_neg (by simp)]
  by_cases hc : p c
  · rw [List.find?_cons_of_pos (by simp [hc]), if_pos hc]
  · rw [List.find?_cons_of_neg (by simp [hc]), if_neg hc, List.find?_eq_none]
    intro cut hcut
    simp only [List.mem_reverse, List.mem_map, List.mem_range] at hcut
    obtain ⟨i, hi, rfl⟩ := hcut
    -- every shorter first part leaves `c` in the second one
    have hmem : c ∈ ((xs ++ [c]).splitAt i).2 := by
      rw [List.splitAt_eq, List.drop_append_of_le_length (by omega)]
      simp
    intro hall
    rw [Bool.and_eq_true, List.all_eq_true] at hall
    exact hc (hall.2 c hmem)

end Greedy

section Basic

/-- The characters that an element accepts, and whether a `*` follows it. -/
structure Item where
  accepts : Char → Bool
  star : Bool

def Item.ofChar (c : Char) (star : Bool) : Item := ⟨fun d => c == '.' || c == d, star⟩

/-- A basic regular expression without brackets, backslashes and anchors. -/
def items : List Char → List Item
  | [] => []
  | [c] => [Item.ofChar c false]
  | c :: '*' :: cs => Item.ofChar c true :: items cs
  | c :: d :: cs => Item.ofChar c false :: items (d :: cs)

def matchStar (accepts : Char → Bool) (k : List Char → Bool) : List Char → Bool
  | [] => k []
  | c :: cs => k (c :: cs) || (accepts c && matchStar accepts k cs)

/-- Whether the expression matches at the start of the line. -/
def matchStart : List Item → List Char → Bool
  | [] => fun _ => true
  | ⟨accepts, true⟩ :: is => matchStar accepts (matchStart is)
  | ⟨accepts, false⟩ :: is => fun
    | [] => false
    | c :: cs => accepts c && matchStart is cs

/-- `expr match s re` as a condition, for expressions that do not match the empty string. -/
def exprMatch (s re : String) : Bool := matchStart (items re.toList) s.toList

/-- The second string begins with the first one, where a `.` stands for any character. -/
def DotPrefix : List Char → List Char → Prop
  | [], _ => True
  | _ :: _, [] => False
  | p :: ps, c :: cs => (p = '.' ∨ p = c) ∧ DotPrefix ps cs

instance decidableDotPrefix : ∀ ps cs, Decidable (DotPrefix ps cs)
  | [], _ => inferInstanceAs (Decidable True)
  | _ :: _, [] => inferInstanceAs (Decidable False)
  | p :: ps, c :: cs =>
    have := decidableDotPrefix ps cs
    inferInstanceAs (Decidable ((p = '.' ∨ p = c) ∧ DotPrefix ps cs))

theorem dotPrefix_append (ps cs : List Char) : DotPrefix ps (ps ++ cs) := by
  induction ps with
  | nil => trivial
  | cons p ps ih => exact ⟨Or.inr rfl, ih⟩

theorem items_dotStar {ps : List Char} (hps : '*' ∉ ps) :
    items (ps ++ ['.', '*']) = ps.map (Item.ofChar · false) ++ [Item.ofChar '.' true] := by
  induction ps with
  | nil => rfl
  | cons p ps ih =>
    rw [List.mem_cons, not_or] at hps
    have htail := ih hps.2
    cases ps with
    | nil => rfl
    | cons q ps =>
      have hq : q ≠ '*' := fun he => hps.2 (he ▸ List.mem_cons_self)
      rw [List.cons_append, List.cons_append, items]
      · rw [← List.cons_append, htail]
        rfl
      · exact hq

/-- `PREFIX.*` accepts what begins with `PREFIX`. -/
theorem exprMatch_dotStar {s p : String} (hp : '*' ∉ p.toList) :
    exprMatch s (p ++ ".*") = true ↔ DotPrefix p.toList s.toList := by
  have hdots : (p ++ ".*").toList = p.toList ++ ['.', '*'] := by simp
  rw [exprMatch, hdots, items_dotStar hp]
  generalize p.toList = ps
  generalize s.toList = cs
  induction ps generalizing cs with
  | nil => cases cs <;> simp [matchStart, matchStar, Item.ofChar, DotPrefix]
  | cons p ps ih =>
    cases cs with
    | nil => simp [matchStart, Item.ofChar, DotPrefix]
    | cons c cs => simpa [matchStart, Item.ofChar, DotPrefix] using fun _ => ih cs

end Basic

end Shell
