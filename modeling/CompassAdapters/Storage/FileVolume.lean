import CompassAdapters.Ruby.Words
import CompassAdapters.Shell.Words

/-! `volume.rb`: the size of the file that stands in for a disk of cinder. -/
namespace CompassAdapters.Storage
open Ruby Text

section Sizes

/-- The free space of the root file system as `df -h` shows it; `none` is an exception. -/
def availableSize (output : List Char) : Option (List Char) :=
  (lines output)[1]?.bind fun first =>
    match (words first)[3]? with
    | some size => some size
    | none => (lines output)[2]?.bind fun second => (words first ++ words second)[3]?

/-- Half of the first number before the first letter of a unit. -/
def fileSize (available_size : List Char) : Option String :=
  (available_size.find? fun c => decide (c ∈ ['M', 'G', 'T', 'E', 'Y'])).map fun unit =>
    toString (Nat.ofDigitChars 10 (firstDigits available_size) 0 / 2) ++ String.singleton unit

def filePartitionSize (output : List Char) : Option String :=
  (availableSize output).bind fileSize

end Sizes

section Figures

inductive SizeUnit
  | M
  | G
  | T

def SizeUnit.letter : SizeUnit → Char
  | M => 'M'
  | G => 'G'
  | T => 'T'

/-- In MB. -/
def SizeUnit.factor : SizeUnit → ℕ
  | M => 1
  | G => 1024
  | T => 1024 * 1024

def digitsOf (whole : ℕ) (tenth : Option (Fin 10)) : List Char :=
  Nat.toDigits 10 whole ++ tenth.toList.flatMap fun d => '.' :: Nat.toDigits 10 d.val

/-- A number below 1024, perhaps with one digit after the point, and a unit; at least 1M. -/
structure Figure where
  whole : ℕ
  tenth : Option (Fin 10)
  unit : SizeUnit
  below : whole < 1024
  one_le : 10 ≤ (10 * whole + tenth.elim 0 Fin.val) * unit.factor

def Figure.text (f : Figure) : List Char := digitsOf f.whole f.tenth ++ [f.unit.letter]

/-- The number, in tenths. -/
def Figure.tenths (f : Figure) : ℕ := 10 * f.whole + f.tenth.elim 0 Fin.val

/-- A size in the unit of a figure is more than nothing, at most half of the figure and more than a
quarter of it. -/
def Halves (f : Figure) (size : Option String) : Prop :=
  ∃ k : ℕ, size = some (toString k ++ String.singleton f.unit.letter) ∧ 0 < k ∧
    2 * (10 * k) ≤ f.tenths ∧ f.tenths < 4 * (10 * k)

theorem digitsOf_digit {whole : ℕ} {tenth : Option (Fin 10)} :
    ∀ c ∈ digitsOf whole tenth, c = '.' ∨ c.isDigit = true := by
  intro c hc
  have hdigit {n : ℕ} (hc : c ∈ Nat.toDigits 10 n) : c.isDigit = true :=
    Nat.isDigit_of_mem_toDigits (by decide) (by decide) hc
  rcases List.mem_append.mp hc with hc | hc
  · exact Or.inr (hdigit hc)
  · obtain ⟨d, -, hc⟩ := List.mem_flatMap.mp hc
    rcases List.mem_cons.mp hc with rfl | hc
    · exact Or.inl rfl
    · exact Or.inr (hdigit hc)

theorem firstDigits_text (f : Figure) : firstDigits f.text = Nat.toDigits 10 f.whole := by
  rw [Figure.text, digitsOf, List.append_assoc]
  apply firstDigits_toDigits
  intro c hc
  cases htenth : f.tenth with
  | none =>
    rw [htenth] at hc
    obtain rfl : f.unit.letter = c := Option.some.inj hc
    cases f.unit <;> decide
  | some d =>
    rw [htenth] at hc
    obtain rfl : '.' = c := Option.some.inj hc
    decide

theorem find?_unit (f : Figure) :
    (f.text.find? fun c => decide (c ∈ ['M', 'G', 'T', 'E', 'Y'])) = some f.unit.letter := by
  have hdigits : (digitsOf f.whole f.tenth).find?
      (fun c => decide (c ∈ ['M', 'G', 'T', 'E', 'Y'])) = none := by
    rw [List.find?_eq_none]
    intro c hc hunit
    have hletter : ∀ c ∈ ['M', 'G', 'T', 'E', 'Y'], c ≠ '.' ∧ c.isDigit = false := by
      simp
    obtain ⟨hpoint, hdigit⟩ := hletter c (of_decide_eq_true hunit)
    rcases digitsOf_digit c hc with heq | hd
    · exact hpoint heq
    · rw [hdigit] at hd
      cases hd
  rw [Figure.text, List.find?_append, hdigits, Option.none_or, List.find?_cons_of_pos]
  cases f.unit <;> decide

theorem fileSize_text (f : Figure) :
    fileSize f.text = some (toString (f.whole / 2) ++ String.singleton f.unit.letter) := by
  rw [fileSize, find?_unit, firstDigits_text, Nat.ofDigitChars_ten_toDigits]
  rfl

/-- Half of the whole number is right if and only if it is not 0. -/
theorem halves_iff (f : Figure) : Halves f (fileSize f.text) ↔ 2 ≤ f.whole := by
  have htenth : f.tenth.elim 0 Fin.val < 10 := by
    cases f.tenth with
    | none => decide
    | some d => exact d.isLt
  rw [fileSize_text]
  constructor
  · rintro ⟨k, hsize, hpos, -, -⟩
    have hk : f.whole / 2 = k :=
      Shell.toString_injective (String.append_left_inj _ |>.mp (Option.some.inj hsize))
    omega
  · intro hwhole
    refine ⟨f.whole / 2, rfl, by omega, ?_, ?_⟩
    · rw [Figure.tenths]
      omega
    · rw [Figure.tenths]
      omega

end Figures

section Output

theorem text_solid (f : Figure) : ∀ c ∈ f.text, isSpace c = false := by
  intro c hc
  rcases List.mem_append.mp hc with hc | hc
  · rcases digitsOf_digit c hc with rfl | hd
    · decide
    · simp only [Char.isDigit, ge_iff_le, Bool.and_eq_true, decide_eq_true_eq] at hd
      have hlow : 48 ≤ c.toNat := hd.1
      simp only [isSpace, Bool.or_eq_false_iff, beq_eq_false_iff_ne, Bool.and_eq_false_imp,
        decide_eq_true_eq, decide_eq_false_iff_not]
      refine ⟨?_, fun _ => by omega⟩
      rintro rfl
      exact absurd hlow (by decide)
  · rw [List.mem_singleton.mp hc]
    cases f.unit <;> decide

def Figure.word (f : Figure) : Word := ⟨f.text, by simp [Figure.text], text_solid f⟩

/-- What `df -h /` prints: a header and the fields of the file system, of which the first stands on
a line of its own if it is long. -/
structure Df where
  header : List Char
  header_line : '\n' ∉ header
  filesystem : Word
  size : Word
  used : Word
  figure : Figure
  rest : List (ℕ × Word)
  gaps : ℕ × ℕ × ℕ
  broken : Bool

/-- The fields after the file system and the size. -/
def Df.fields (df : Df) : List (ℕ × Word) :=
  (df.gaps.2.1, df.used) :: (df.gaps.2.2, df.figure.word) :: df.rest

def Df.rows (df : Df) : List Row :=
  if df.broken then [⟨0, df.filesystem, []⟩, ⟨df.gaps.1, df.size, df.fields⟩]
  else [⟨0, df.filesystem, (df.gaps.1, df.size) :: df.fields⟩]

def Df.text (df : Df) : List Char :=
  (df.header :: df.rows.map Row.text).flatMap fun l => l ++ ['\n']

theorem lines_df (df : Df) : lines df.text = df.header :: df.rows.map Row.text := by
  rw [Df.text, lines_flatMap]
  refine List.forall_mem_cons.mpr ⟨df.header_line, ?_⟩
  exact List.forall_mem_map.mpr fun r _ => newline_notMem_row r

theorem availableSize_df (df : Df) : availableSize df.text = some df.figure.text := by
  rw [availableSize, lines_df, Df.rows]
  split
  next =>
    simp only [List.map_cons, List.map_nil, List.getElem?_cons_succ, List.getElem?_cons_zero,
      Option.bind_some, words_row, Row.words, Df.fields]
    rfl
  next =>
    simp only [List.map_cons, List.map_nil, List.getElem?_cons_succ, List.getElem?_cons_zero,
      Option.bind_some, words_row, Row.words, Df.fields]
    rfl

/-- The size is right if and only if the free space is 2 or more in its unit. -/
theorem filePartitionSize_halves_iff (df : Df) :
    Halves df.figure (filePartitionSize df.text) ↔ 2 ≤ df.figure.whole := by
  rw [filePartitionSize, availableSize_df, Option.bind_some, halves_iff]

def plainWord : Word := ⟨['-'], List.cons_ne_nil _ _, List.forall_mem_singleton.mpr rfl⟩

theorem newline_notMem_nil : '\n' ∉ ([] : List Char) := List.not_mem_nil

/-- A root file system with 1.5G left. -/
def smallDf : Df where
  header := []
  header_line := newline_notMem_nil
  filesystem := plainWord
  size := plainWord
  used := plainWord
  figure := ⟨1, some ⟨5, Nat.le_of_ble_eq_true rfl⟩, .G, Nat.le_of_ble_eq_true rfl,
    Nat.le_of_ble_eq_true rfl⟩
  rest := []
  gaps := (0, 0, 0)
  broken := false

theorem smallDf_not_halves : filePartitionSize smallDf.text = some "0G" ∧
    ¬ Halves smallDf.figure (filePartitionSize smallDf.text) := by
  rw [filePartitionSize, availableSize_df, Option.bind_some]
  refine ⟨by rw [fileSize_text]; decide, ?_⟩
  rw [halves_iff]
  decide

end Output

end CompassAdapters.Storage
