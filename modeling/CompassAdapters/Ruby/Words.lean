import CompassAdapters.Ruby.Regex
import CompassAdapters.Ruby.Text
import Mathlib.Data.Nat.Digits.Defs

/-! Lines and words of a text in Ruby, and rows of words between blanks. -/
namespace Ruby
namespace Text

/-- `split` without a pattern. -/
def words (s : List Char) : List (List Char) :=
  (s.splitOnP isSpace).filter fun w => !w.isEmpty

/-- `lines`, without the ends of the lines. -/
def lines (s : List Char) : List (List Char) :=
  let ls := s.splitOn '\n'
  if ls.getLast? = some [] then ls.dropLast else ls

/-- Text without blanks. -/
abbrev Word := { w : List Char // w ≠ [] ∧ ∀ c ∈ w, isSpace c = false }

theorem words_append_cons (s t : List Char) {c : Char} (hc : isSpace c = true) :
    words (s ++ c :: t) = words s ++ words t := by
  rw [words, List.splitOnP_append_cons _ _ hc, List.filter_append]
  rfl

theorem words_append_space (s t : List Char) : words (s ++ ' ' :: t) = words s ++ words t :=
  words_append_cons s t (by decide)

theorem words_word (w : Word) : words w.val = [w.val] := by
  rw [words, List.splitOnP_eq_singleton w.property.2]
  simp [w.property.1]

/-- A piece has nothing in it at which the text is split. -/
theorem of_mem_splitOnP {α : Type*} {p : α → Bool} {s w : List α} (hw : w ∈ s.splitOnP p) :
    ∀ c ∈ w, p c = false := by
  induction s generalizing w with
  | nil =>
    rw [List.splitOnP_nil, List.mem_singleton] at hw
    simp [hw]
  | cons x s ih =>
    rw [List.splitOnP_cons_eq_if_modifyHead] at hw
    split at hw
    next =>
      rcases List.mem_cons.mp hw with rfl | hw
      · simp
      · exact ih hw
    next hx =>
      cases hs : s.splitOnP p with
      | nil => exact absurd hs (List.splitOnP_ne_nil p s)
      | cons q qs =>
        rw [hs] at hw ih
        rcases List.mem_cons.mp hw with rfl | hw
        · exact List.forall_mem_cons.mpr ⟨Bool.eq_false_iff.mpr hx, ih List.mem_cons_self⟩
        · exact ih (List.mem_cons_of_mem q hw)

theorem of_mem_words {s w : List Char} (hw : w ∈ words s) :
    w ≠ [] ∧ ∀ c ∈ w, isSpace c = false := by
  rw [words, List.mem_filter] at hw
  exact ⟨by simpa using hw.2, of_mem_splitOnP hw.1⟩

theorem words_replicate_append (n : ℕ) (s : List Char) :
    words (List.replicate n ' ' ++ s) = words s := by
  induction n with
  | zero => rfl
  | succ n ih =>
    have hnil : words [] = [] := by simp [words]
    rw [List.replicate_succ, List.cons_append, ← List.nil_append (' ' :: _), words_append_space,
      ih, hnil, List.nil_append]

/-- Words with any number of blanks in front and between them. -/
structure Row where
  indent : ℕ
  first : Word
  rest : List (ℕ × Word)

def Row.text (r : Row) : List Char :=
  List.replicate r.indent ' ' ++ r.first.val ++
    r.rest.flatMap fun e => List.replicate (e.1 + 1) ' ' ++ e.2.val

def Row.words (r : Row) : List (List Char) := r.first.val :: r.rest.map fun e => e.2.val

theorem words_row (r : Row) : Text.words r.text = r.words := by
  obtain ⟨indent, first, rest⟩ := r
  rw [Row.text, Row.words, List.append_assoc, words_replicate_append]
  induction rest generalizing first with
  | nil => rw [List.flatMap_nil, List.append_nil, words_word, List.map_nil]
  | cons e rest ih =>
    rw [List.flatMap_cons, List.replicate_succ, List.cons_append, List.cons_append,
      words_append_space, words_word, List.append_assoc, words_replicate_append, ih]
    rfl

theorem splitOn_lines {ls : List (List Char)} (h : ∀ l ∈ ls, '\n' ∉ l) :
    (ls.flatMap fun l => l ++ ['\n']).splitOn '\n' = ls ++ [[]] := by
  induction ls with
  | nil => rfl
  | cons l ls ih =>
    obtain ⟨hl, hls⟩ := List.forall_mem_cons.mp h
    rw [List.flatMap_cons, List.append_assoc, List.singleton_append,
      List.splitOn_append_cons_self, ih hls, List.splitOn_eq_singleton hl]
    rfl

/-- Lines that end in a newline are the lines of their text. -/
theorem lines_flatMap {ls : List (List Char)} (h : ∀ l ∈ ls, '\n' ∉ l) :
    lines (ls.flatMap fun l => l ++ ['\n']) = ls := by
  rw [lines, splitOn_lines h]
  simp

/-- A newline in a line breaks it. -/
theorem lines_flatMap_eq (ls : List (List Char)) :
    lines (ls.flatMap fun l => l ++ ['\n']) = ls.flatMap fun l => l.splitOn '\n' := by
  have hsplit : (ls.flatMap fun l => l ++ ['\n']).splitOn '\n' =
      (ls.flatMap fun l => l.splitOn '\n') ++ [[]] := by
    induction ls with
    | nil => rfl
    | cons l ls ih =>
      rw [List.flatMap_cons, List.append_assoc, List.singleton_append,
        List.splitOn_append_cons_self, ih, List.flatMap_cons, List.append_assoc]
  rw [lines, hsplit]
  simp

theorem length_le_length_splitOn (ls : List (List Char)) :
    ls.length ≤ (ls.flatMap fun l => l.splitOn '\n').length := by
  induction ls with
  | nil => rfl
  | cons l ls ih =>
    have hpos : 0 < (l.splitOn '\n').length := List.length_pos_iff.mpr (List.splitOn_ne_nil _ _)
    rw [List.flatMap_cons, List.length_append, List.length_cons]
    omega

/-- As many lines as were written means that no line was broken. -/
theorem newline_notMem_of_length {ls : List (List Char)}
    (h : (lines (ls.flatMap fun l => l ++ ['\n'])).length = ls.length) : ∀ l ∈ ls, '\n' ∉ l := by
  rw [lines_flatMap_eq] at h
  induction ls with
  | nil => exact fun l hl => absurd hl List.not_mem_nil
  | cons l ls ih =>
    have hpos : 0 < (l.splitOn '\n').length := List.length_pos_iff.mpr (List.splitOn_ne_nil _ _)
    have hle := length_le_length_splitOn ls
    rw [List.flatMap_cons, List.length_append, List.length_cons] at h
    obtain ⟨piece, hpiece⟩ := List.length_eq_one_iff.mp (show (l.splitOn '\n').length = 1 by omega)
    have hl : piece = l := by
      have hjoin : ['\n'].intercalate (l.splitOn '\n') = l := List.intercalate_splitOn '\n'
      rwa [hpiece, List.intercalate_singleton] at hjoin
    have hmem : l ∈ l.splitOn '\n' := by
      rw [hpiece, hl]
      exact List.mem_singleton_self l
    exact List.forall_mem_cons.mpr ⟨notMem_of_mem_splitOn hmem, ih (by omega)⟩

theorem intercalate_newline (ls : List (List Char)) :
    ['\n'].intercalate (ls ++ [[]]) = ls.flatMap fun l => l ++ ['\n'] := by
  induction ls with
  | nil => rfl
  | cons l ls ih =>
    rw [List.cons_append, List.intercalate_cons_of_ne_nil (by simp), ih, List.flatMap_cons]

theorem newline_notMem_row (r : Row) : '\n' ∉ r.text := by
  have hword (w : Word) : '\n' ∉ w.val := by
    intro hmem
    exact absurd (w.property.2 _ hmem) (by decide)
  simp only [Row.text, List.mem_append, List.mem_flatMap, List.mem_replicate]
  rintro ((⟨-, heq⟩ | hmem) | ⟨e, -, ⟨-, heq⟩ | hmem⟩)
  · exact absurd heq (by decide)
  · exact hword _ hmem
  · exact absurd heq (by decide)
  · exact hword _ hmem

/-- The first run of digits. -/
def firstDigits (s : List Char) : List Char :=
  (s.dropWhile fun c => !c.isDigit).takeWhile Char.isDigit

theorem firstDigits_toDigits (n : ℕ) {s : List Char} (hs : ∀ c ∈ s.head?, c.isDigit = false) :
    firstDigits (Nat.toDigits 10 n ++ s) = Nat.toDigits 10 n := by
  have hdigits : ∀ c ∈ Nat.toDigits 10 n, c.isDigit = true := fun c hc =>
    Nat.isDigit_of_mem_toDigits (by decide) (by decide) hc
  obtain ⟨d, ds, hds⟩ := List.exists_cons_of_ne_nil (Nat.toDigits_ne_nil (b := 10) (n := n))
  have hd : d.isDigit = true := hdigits d (hds ▸ List.mem_cons_self)
  have hstop : s.takeWhile Char.isDigit = [] := by
    cases s with
    | nil => rfl
    | cons c s => rw [List.takeWhile_cons_of_neg (by simp [hs c rfl])]
  rw [firstDigits, hds, List.cons_append, List.dropWhile_cons_of_neg (by simp [hd]),
    ← List.cons_append, ← hds, List.takeWhile_append_of_pos hdigits, hstop, List.append_nil]

end Text
end Ruby
