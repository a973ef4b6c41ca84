import Mathlib.Algebra.GroupWithZero.Nat
import Mathlib.Data.List.Basic
import Mathlib.Data.String.Basic
import Mathlib.Tactic.Common

/-! How the shell reads one command with blanks, quotes and backslashes. Where another character
would make it more than a list of words, nothing is said about what it becomes. -/
namespace Shell

/-- The part of a word that is being read. -/
inductive Quote
  | bare
  | escaped
  | single
  | double
  | doubleEscaped
  deriving DecidableEq, Repr

abbrev singleQuote : Char := '\x27'

abbrev doubleQuote : Char := '\x22'

abbrev backslash : Char := '\x5c'

def isSeparator (c : Char) : Bool := c == ' ' || c == '\t'

/-- Operators, expansions and patterns; `#` and `~` where a word begins. -/
def isActive (inWord : Bool) (c : Char) : Bool :=
  c ∈ ['|', '&', ';', '<', '>', '(', ')', '$', '\x60', '\n', '*', '?', '[', '\x7b'] ||
    (!inWord && (c == '#' || c == '~'))

/-- What keeps a meaning in double quotes. -/
def isDoubleActive (c : Char) : Bool := c ∈ ['$', '\x60', doubleQuote, backslash]

/-- The words of a command. `word` is what there is of the one that is being read. -/
def readWords : Quote → Option (List Char) → List Char → Option (List (List Char))
  | .bare, word, [] => some word.toList
  | _, _, [] => none
  | .bare, word, c :: cs =>
    if isSeparator c then (readWords .bare none cs).map (word.toList ++ ·)
    else if c = backslash then readWords .escaped (some (word.getD [])) cs
    else if c = singleQuote then readWords .single (some (word.getD [])) cs
    else if c = doubleQuote then readWords .double (some (word.getD [])) cs
    else if isActive word.isSome c then none
    else readWords .bare (some (word.getD [] ++ [c])) cs
  | .escaped, word, c :: cs =>
    if c = '\n' then readWords .bare word cs
    else readWords .bare (some (word.getD [] ++ [c])) cs
  | .single, word, c :: cs =>
    if c = singleQuote then readWords .bare word cs
    else readWords .single (some (word.getD [] ++ [c])) cs
  | .double, word, c :: cs =>
    if c = doubleQuote then readWords .bare word cs
    else if c = backslash then readWords .doubleEscaped word cs
    else if isDoubleActive c then none
    else readWords .double (some (word.getD [] ++ [c])) cs
  | .doubleEscaped, word, c :: cs =>
    if c = '\n' then readWords .double word cs
    else if isDoubleActive c then readWords .double (some (word.getD [] ++ [c])) cs
    else readWords .double (some (word.getD [] ++ [backslash, c])) cs

def argv (command : List Char) : Option (List (List Char)) := readWords .bare none command

section Bare

/-- A character that stands for itself without quotes. -/
def isLiteral (inWord : Bool) (c : Char) : Bool :=
  !isSeparator c && c != backslash && c != singleQuote && c != doubleQuote && !isActive inWord c

/-- The characters that have a meaning at some place. -/
def special : List Char :=
  [' ', '\t', backslash, singleQuote, doubleQuote, '|', '&', ';', '<', '>', '(', ')', '$', '\x60',
    '\n', '*', '?', '[', '\x7b', '#', '~']

variable {word : Option (List Char)} {c : Char} {cs rest p : List Char}

theorem isLiteral_of_notMem {inWord : Bool} (hc : c ∉ special) : isLiteral inWord c = true := by
  simp only [special, List.mem_cons, List.not_mem_nil, or_false, not_or] at hc
  simp [isLiteral, isSeparator, isActive, hc]

theorem readWords_literal (hc : isLiteral word.isSome c = true) :
    readWords .bare word (c :: cs) = readWords .bare (some (word.getD [] ++ [c])) cs := by
  simp only [isLiteral, Bool.and_eq_true, Bool.not_eq_true', bne_iff_ne] at hc
  obtain ⟨⟨⟨⟨hseparator, hbackslash⟩, hsingle⟩, hdouble⟩, hactive⟩ := hc
  rw [readWords, if_neg (by simp [hseparator]), if_neg hbackslash, if_neg hsingle, if_neg hdouble,
    if_neg (by simp [hactive])]

/-- Text that is one word without quotes. -/
def Literal (p : List Char) : Prop :=
  (∀ c ∈ p.head?, isLiteral false c = true) ∧ ∀ c ∈ p.tail, isLiteral true c = true

theorem literal_of_notMem (hp : ∀ c ∈ p, c ∉ special) : Literal p :=
  ⟨fun c hc => isLiteral_of_notMem (hp c (List.mem_of_mem_head? hc)),
    fun c hc => isLiteral_of_notMem (hp c (List.mem_of_mem_tail hc))⟩

theorem literal_of_all (hp : (p.all fun c => !special.contains c) = true) : Literal p := by
  refine literal_of_notMem fun c hc hmem => ?_
  have hnot := List.all_eq_true.mp hp c hc
  rw [List.contains_iff_mem.mpr hmem] at hnot
  cases hnot

theorem readWords_literals {u : List Char} (hp : ∀ c ∈ p, isLiteral true c = true) :
    readWords .bare (some u) (p ++ rest) = readWords .bare (some (u ++ p)) rest := by
  induction p generalizing u with
  | nil => rw [List.nil_append, List.append_nil]
  | cons c p ih =>
    obtain ⟨hc, hp⟩ := List.forall_mem_cons.mp hp
    rw [List.cons_append, @readWords_literal (some u) c _ hc, Option.getD_some, ih hp,
      List.append_assoc, List.singleton_append]

theorem readWords_word (hp : Literal p) (hne : p ≠ []) :
    readWords .bare none (p ++ rest) = readWords .bare (some p) rest := by
  obtain ⟨c, p, rfl⟩ := List.exists_cons_of_ne_nil hne
  have hfirst : isLiteral (none : Option (List Char)).isSome c = true := hp.1 c rfl
  have hrest : ∀ d ∈ p, isLiteral true d = true := hp.2
  rw [List.cons_append, readWords_literal hfirst, Option.getD_none, List.nil_append,
    readWords_literals hrest, List.singleton_append]

theorem readWords_separator : readWords .bare word (' ' :: rest) =
    (readWords .bare none rest).map (word.toList ++ ·) := by
  rw [readWords, if_pos (by decide)]

theorem readWords_cons (hp : Literal p) (hne : p ≠ []) :
    readWords .bare none (p ++ ' ' :: rest) = (readWords .bare none rest).map (p :: ·) := by
  rw [readWords_word hp hne, readWords_separator]
  rfl

/-- The words of a row with one blank after each. -/
theorem readWords_append {ws : List (List Char)} (hws : ∀ w ∈ ws, w ≠ [] ∧ Literal w) :
    readWords .bare none (ws.flatMap (· ++ [' ']) ++ rest) =
      (readWords .bare none rest).map (ws ++ ·) := by
  induction ws with
  | nil => simp
  | cons w ws ih =>
    obtain ⟨hw, hws⟩ := List.forall_mem_cons.mp hws
    rw [List.flatMap_cons, List.append_assoc, List.append_assoc, List.singleton_append,
      readWords_cons hw.2 hw.1, ih hws, Option.map_map]
    rfl

theorem readWords_last (hp : Literal p) (hne : p ≠ []) : readWords .bare none p = some [p] := by
  have h := @readWords_word [] p hp hne
  rw [List.append_nil] at h
  rw [h, readWords]
  rfl

end Bare

section Quotes

/-- Single quotes around a text whose own single quotes are taken out of them. -/
def quoteChar (c : Char) : List Char :=
  if c = singleQuote then [singleQuote, backslash, singleQuote, singleQuote] else [c]

variable {u p rest : List Char}

theorem readWords_quoted : readWords .single (some u)
    ([singleQuote, backslash, singleQuote, singleQuote] ++ rest) =
      readWords .single (some (u ++ [singleQuote])) rest := rfl

/-- A text in single quotes is read as it is. -/
theorem readWords_single : readWords .single (some u)
    (p.flatMap quoteChar ++ singleQuote :: rest) = readWords .bare (some (u ++ p)) rest := by
  induction p generalizing u with
  | nil => simp [readWords]
  | cons c p ih =>
    rw [List.flatMap_cons, List.append_assoc, quoteChar]
    split
    next hc =>
      obtain rfl := hc
      rw [readWords_quoted, ih, List.append_assoc, List.singleton_append]
    next hc =>
      rw [List.singleton_append, readWords, if_neg hc, Option.getD_some, ih, List.append_assoc,
        List.singleton_append]

/-- A text without the characters that are active in double quotes is read as it is between them. -/
theorem readWords_double (hp : ∀ c ∈ p, isDoubleActive c = false) :
    readWords .double (some u) (p ++ doubleQuote :: rest) =
      readWords .bare (some (u ++ p)) rest := by
  induction p generalizing u with
  | nil => simp [readWords]
  | cons c p ih =>
    obtain ⟨hc, hp⟩ := List.forall_mem_cons.mp hp
    have hquote : c ≠ doubleQuote := by
      rintro rfl
      exact absurd hc (by decide)
    have hbackslash : c ≠ backslash := by
      rintro rfl
      exact absurd hc (by decide)
    rw [List.cons_append, readWords, if_neg hquote, if_neg hbackslash, if_neg (by simp [hc]),
      Option.getD_some, ih hp, List.append_assoc, List.singleton_append]

end Quotes

section Lengths

/-- A backslash that is read in double quotes may yet be one of the characters of a word. -/
def pending : Quote → ℕ
  | .doubleEscaped => 1
  | _ => 0

variable {quote : Quote} {word : Option (List Char)} {c : Char} {cs p : List Char}
  {ws : List (List Char)}

theorem sum_length_toList :
    (word.toList.map List.length).sum = (word.getD []).length := by
  cases word <;> simp

/-- A character ends a word or goes on with one, and makes it longer by one at most. Outside of quotes
a character with a meaning adds nothing. -/
theorem readWords_cases (h : readWords quote word (c :: cs) = some ws) :
    (∃ ws', readWords .bare none cs = some ws' ∧ ws = word.toList ++ ws') ∨
      ∃ quote' word', readWords quote' word' cs = some ws ∧
        (word'.getD []).length + pending quote' ≤ (word.getD []).length + 1 + pending quote ∧
        (quote = .bare → isLiteral word.isSome c = false →
          (word'.getD []).length + pending quote' = (word.getD []).length) := by
  cases quote with
  | bare =>
    rw [readWords] at h
    split at h
    next =>
      obtain ⟨ws', hws, rfl⟩ := Option.map_eq_some_iff.mp h
      exact .inl ⟨ws', hws, rfl⟩
    next hseparator =>
      right
      split at h
      next => exact ⟨_, _, h, by simp [pending], by simp [pending]⟩
      next hbackslash =>
        split at h
        next => exact ⟨_, _, h, by simp [pending], by simp [pending]⟩
        next hsingle =>
          split at h
          next => exact ⟨_, _, h, by simp [pending], by simp [pending]⟩
          next hdouble =>
            split at h
            next => cases h
            next hactive =>
              refine ⟨_, _, h, by simp [pending], fun _ hc => ?_⟩
              simp [isLiteral, hseparator, hbackslash, hsingle, hdouble, hactive] at hc
  | escaped =>
    rw [readWords] at h
    right
    split at h
    next => exact ⟨_, _, h, by simp [pending], nofun⟩
    next => exact ⟨_, _, h, by simp [pending], nofun⟩
  | single =>
    rw [readWords] at h
    right
    split at h
    next => exact ⟨_, _, h, by simp [pending], nofun⟩
    next => exact ⟨_, _, h, by simp [pending], nofun⟩
  | double =>
    rw [readWords] at h
    right
    split at h
    next => exact ⟨_, _, h, by simp [pending], nofun⟩
    next =>
      split at h
      next => exact ⟨_, _, h, by simp [pending], nofun⟩
      next =>
        split at h
        next => cases h
        next => exact ⟨_, _, h, by simp [pending], nofun⟩
  | doubleEscaped =>
    rw [readWords] at h
    right
    split at h
    next => exact ⟨_, _, h, by simp only [pending]; omega, nofun⟩
    next =>
      split at h
      next => exact ⟨_, _, h, by simp [pending], nofun⟩
      next => exact ⟨_, _, h, by simp [pending], nofun⟩

/-- Words have no more characters than what they are read from. -/
theorem sum_length_le (h : readWords quote word cs = some ws) :
    (ws.map List.length).sum ≤ (word.getD []).length + cs.length + pending quote := by
  induction cs generalizing quote word ws with
  | nil =>
    cases quote with
    | bare =>
      obtain rfl := Option.some.inj h
      rw [sum_length_toList]
      exact Nat.le_add_right _ _
    | _ => cases h
  | cons c cs ih =>
    rw [List.length_cons]
    obtain ⟨ws', hws, rfl⟩ | ⟨quote', word', hws, hle, -⟩ := readWords_cases h
    · have hih := ih hws
      simp only [Option.getD_none, List.length_nil, pending] at hih
      rw [List.map_append, List.sum_append, sum_length_toList]
      omega
    · have hih := ih hws
      omega

/-- A character with a meaning is lost. -/
theorem sum_length_lt (h : readWords .bare word (c :: cs) = some ws)
    (hc : isLiteral word.isSome c = false) :
    (ws.map List.length).sum < (word.getD []).length + (c :: cs).length := by
  rw [List.length_cons]
  obtain ⟨ws', hws, rfl⟩ | ⟨quote', word', hws, -, heq⟩ := readWords_cases h
  · have hle := sum_length_le hws
    simp only [Option.getD_none, List.length_nil, pending] at hle
    rw [List.map_append, List.sum_append, sum_length_toList]
    omega
  · have hle := sum_length_le hws
    have hsame := heq rfl hc
    omega

theorem literals_of_length (h : readWords .bare word p = some ws)
    (hlength : (ws.map List.length).sum = (word.getD []).length + p.length) :
    (∀ c ∈ p.head?, isLiteral word.isSome c = true) ∧ ∀ c ∈ p.tail, isLiteral true c = true := by
  induction p generalizing word with
  | nil => simp
  | cons c p ih =>
    have hc : isLiteral word.isSome c = true := by
      by_contra hnot
      have hlt := sum_length_lt h (Bool.eq_false_iff.mpr hnot)
      omega
    rw [readWords_literal hc] at h
    obtain ⟨hhead, htail⟩ := ih h (by
      rw [hlength, Option.getD_some, List.length_append, List.length_cons, List.length_singleton]
      omega)
    refine ⟨by simpa using hc, fun d hd => ?_⟩
    cases p with
    | nil => cases hd
    | cons e p =>
      rcases List.mem_cons.mp hd with rfl | hd
      · exact hhead d rfl
      · exact htail d hd

/-- A text is read as one word, itself, just when it is literal. -/
theorem readWords_eq_self : readWords .bare none p = some [p] ↔ p ≠ [] ∧ Literal p := by
  constructor
  · intro h
    have hne : p ≠ [] := by
      rintro rfl
      cases h
    exact ⟨hne, literals_of_length h (by simp)⟩
  · rintro ⟨hne, hp⟩
    exact readWords_last hp hne

end Lengths

end Shell
