import CompassAdapters.Shell.Quoting
import CompassAdapters.Shell.Variables

/-! What `echo` of dash writes for one word in double quotes. -/
namespace Shell

/-- What makes `$` before it an expansion. -/
def beginsExpansion (c : Char) : Bool :=
  isNameChar c || c ∈ ['\x7b', '(', '@', '*', '#', '?', '-', '$', '!']

/-- The text between double quotes with its backslashes removed; `none` when the quotes end in it
or something in it is expanded. -/
def doubleQuoted : List Char → Option (List Char)
  | [] => some []
  | [c] => if c = backslash ∨ c = doubleQuote ∨ c = '\x60' then none else some [c]
  | c :: d :: cs =>
    if c = backslash then
      if d = '\n' then doubleQuoted cs
      else if isDoubleActive d then (doubleQuoted cs).map (d :: ·)
      else (doubleQuoted (d :: cs)).map (c :: ·)
    else if c = '$' then
      if beginsExpansion d then none else (doubleQuoted (d :: cs)).map (c :: ·)
    else if c = doubleQuote ∨ c = '\x60' then none
    else (doubleQuoted (d :: cs)).map (c :: ·)

def isOctal (c : Char) : Bool := '0' ≤ c && c ≤ '7'

def octalValue (ds : List Char) : ℕ := ds.foldl (fun n d => 8 * n + (d.toNat - 48)) 0

/-- The character that the escape after a backslash stands for, and what follows it. -/
def echoEscape : List Char → Option (Char × List Char)
  | 'a' :: cs => some (Char.ofNat 7, cs)
  | 'b' :: cs => some (Char.ofNat 8, cs)
  | 'f' :: cs => some (Char.ofNat 12, cs)
  | 'n' :: cs => some ('\n', cs)
  | 'r' :: cs => some ('\r', cs)
  | 't' :: cs => some ('\t', cs)
  | 'v' :: cs => some (Char.ofNat 11, cs)
  | '\x5c' :: cs => some (backslash, cs)
  | '0' :: cs =>
    let ds := (cs.take 3).takeWhile isOctal
    some (Char.ofNat (octalValue ds % 256), cs.drop ds.length)
  | d :: cs =>
    let ds := ((d :: cs).take 3).takeWhile isOctal
    if isOctal d then some (Char.ofNat (octalValue ds % 256), (d :: cs).drop ds.length) else none
  | [] => none

theorem echoEscape_length {c : Char} {cs rest : List Char}
    (h : echoEscape cs = some (c, rest)) : rest.length < cs.length := by
  unfold echoEscape at h
  split at h <;> simp only [Option.some.injEq, Prod.mk.injEq, Option.ite_none_right_eq_some,
    reduceCtorEq] at h
  case h_9 cs =>
    rw [← h.2, List.length_drop, List.length_cons]
    omega
  case h_10 d cs _ _ _ _ _ _ _ _ _ =>
    obtain ⟨hd, -, rfl⟩ := h
    rw [List.take_succ_cons, List.takeWhile_cons_of_pos hd, List.length_cons, List.drop_succ_cons,
      List.length_drop, List.length_cons]
    omega
  all_goals rw [← h.2, List.length_cons]; omega

/-- What is written for a text. `\c` ends it without a newline. -/
def echoText : List Char → List Char
  | [] => ['\n']
  | c :: cs =>
    if c = backslash then
      if cs.head? = some 'c' then []
      else
        match h : echoEscape cs with
        | some (e, rest) =>
          have := echoEscape_length h
          e :: echoText rest
        | none => c :: echoText cs
    else c :: echoText cs
termination_by cs => cs.length
decreasing_by all_goals simp only [List.length_cons]; omega

/-- `echo "s"`. -/
def echo (s : String) : Option String :=
  (doubleQuoted s.toList).map fun text => String.ofList (echoText text)

section Verbatim

/-- Text between double quotes from which no backslash is taken and in which nothing is expanded. -/
def keptInQuotes : List Char → Bool
  | [] => true
  | c :: cs =>
    (if c = backslash then cs.head?.any fun d => !isDoubleActive d && d != '\n'
      else if c = '$' then !cs.head?.any beginsExpansion
      else c != doubleQuote && c != '\x60') && keptInQuotes cs

/-- Text without an escape of `echo`. -/
def hasNoEscape : List Char → Bool
  | [] => true
  | c :: cs =>
    !(c == backslash && (cs.head? == some 'c' || (echoEscape cs).isSome)) && hasNoEscape cs

def isVerbatim (s : String) : Bool := keptInQuotes s.toList && hasNoEscape s.toList

variable {s t : List Char}

/-- The quotes only take characters away. -/
theorem doubleQuoted_length (h : doubleQuoted s = some t) :
    t.length ≤ s.length ∧ (t.length = s.length → t = s) := by
  induction s using doubleQuoted.induct generalizing t with
  | case1 =>
    cases h
    exact ⟨le_rfl, fun _ => rfl⟩
  | case2 c hc =>
    rw [doubleQuoted, if_pos hc] at h
    cases h
  | case3 c hc =>
    rw [doubleQuoted, if_neg hc] at h
    cases h
    exact ⟨le_rfl, fun _ => rfl⟩
  | case4 cs ih =>
    rw [doubleQuoted, if_pos rfl, if_pos rfl] at h
    have hle := (ih h).1
    simp only [List.length_cons]
    omega
  | case5 d cs hd hactive ih =>
    rw [doubleQuoted, if_pos rfl, if_neg hd, if_pos hactive] at h
    obtain ⟨t, ht, rfl⟩ := Option.map_eq_some_iff.mp h
    have hle := (ih ht).1
    simp only [List.length_cons]
    omega
  | case6 d cs hd hactive ih =>
    rw [doubleQuoted, if_pos rfl, if_neg hd, if_neg hactive] at h
    obtain ⟨t, ht, rfl⟩ := Option.map_eq_some_iff.mp h
    simpa using ih ht
  | case7 d cs hd _ =>
    rw [doubleQuoted, if_neg (by decide), if_pos rfl, if_pos hd] at h
    cases h
  | case8 d cs hd _ ih =>
    rw [doubleQuoted, if_neg (by decide), if_pos rfl, if_neg hd] at h
    obtain ⟨t, ht, rfl⟩ := Option.map_eq_some_iff.mp h
    simpa using ih ht
  | case9 c d cs hslash hdollar hquote =>
    rw [doubleQuoted, if_neg hslash, if_neg hdollar, if_pos hquote] at h
    cases h
  | case10 c d cs hslash hdollar hquote ih =>
    rw [doubleQuoted, if_neg hslash, if_neg hdollar, if_neg hquote] at h
    obtain ⟨t, ht, rfl⟩ := Option.map_eq_some_iff.mp h
    simpa using ih ht

theorem map_cons_eq_self {c : Char} : (doubleQuoted s).map (c :: ·) = some (c :: s) ↔
    doubleQuoted s = some s := by
  rw [Option.map_eq_some_iff]
  simp

theorem doubleQuoted_eq_self : doubleQuoted s = some s ↔ keptInQuotes s = true := by
  induction s using doubleQuoted.induct with
  | case1 => simp [doubleQuoted, keptInQuotes]
  | case2 c hc =>
    refine iff_of_false (by simp [doubleQuoted, hc]) ?_
    rcases hc with rfl | rfl | rfl <;> decide
  | case3 c hc =>
    refine iff_of_true (by simp [doubleQuoted, hc]) ?_
    rw [not_or, not_or] at hc
    simp [keptInQuotes, hc]
  | case4 cs ih =>
    refine iff_of_false (fun h => ?_) (by simp [keptInQuotes])
    rw [doubleQuoted, if_pos rfl, if_pos rfl] at h
    have hle := (doubleQuoted_length h).1
    simp only [List.length_cons] at hle
    omega
  | case5 d cs hd hactive ih =>
    refine iff_of_false (fun h => ?_) (by simp [keptInQuotes, hactive])
    rw [doubleQuoted, if_pos rfl, if_neg hd, if_pos hactive] at h
    obtain ⟨t, ht, heq⟩ := Option.map_eq_some_iff.mp h
    have hle := (doubleQuoted_length ht).1
    rw [(List.cons.inj heq).2, List.length_cons] at hle
    omega
  | case6 d cs hd hactive ih =>
    rw [doubleQuoted, if_pos rfl, if_neg hd, if_neg hactive, map_cons_eq_self, ih]
    rw [keptInQuotes.eq_2 backslash]
    simp [hd, hactive]
  | case7 d cs hd hslash =>
    refine iff_of_false (fun h => ?_) (by simp [keptInQuotes, hd, hslash])
    rw [doubleQuoted, if_neg (by decide), if_pos rfl, if_pos hd] at h
    cases h
  | case8 d cs hd hslash ih =>
    rw [doubleQuoted, if_neg (by decide), if_pos rfl, if_neg hd, map_cons_eq_self, ih]
    rw [keptInQuotes.eq_2 '$']
    simp [hd, hslash]
  | case9 c d cs hslash hdollar hquote =>
    refine iff_of_false (fun h => ?_) ?_
    · rw [doubleQuoted, if_neg hslash, if_neg hdollar, if_pos hquote] at h
      cases h
    · rcases hquote with rfl | rfl <;> simp [keptInQuotes, hslash, hdollar]
  | case10 c d cs hslash hdollar hquote ih =>
    rw [doubleQuoted, if_neg hslash, if_neg hdollar, if_neg hquote, map_cons_eq_self, ih]
    rw [keptInQuotes.eq_2 c]
    rw [not_or] at hquote
    simp [hslash, hdollar, hquote]

/-- Nothing that `echo` writes is longer, and only text without escapes is written as it is. -/
theorem echoText_length (s : List Char) : (echoText s).length ≤ s.length + 1 ∧
    ((echoText s).length = s.length + 1 → hasNoEscape s = true) := by
  induction s using echoText.induct with
  | case1 => simp [echoText, hasNoEscape]
  | case2 cs hc =>
    rw [echoText, if_pos rfl, if_pos hc]
    simp
  | case3 cs hc e rest h _ ih =>
    have hlen := echoEscape_length h
    rw [echoText, if_pos rfl, if_neg hc]
    split
    next e' rest' h' =>
      rw [h, Option.some.injEq, Prod.mk.injEq] at h'
      obtain ⟨rfl, rfl⟩ := h'
      simp only [List.length_cons]
      omega
    next h' => exact absurd (h.symm.trans h') (by simp)
  | case4 cs hc h ih =>
    rw [echoText, if_pos rfl, if_neg hc]
    split
    next e rest h' => exact absurd (h.symm.trans h') (by simp)
    next =>
      rw [hasNoEscape]
      simp [hc, h]
      omega
  | case5 c cs hc ih =>
    rw [echoText, if_neg hc, hasNoEscape]
    simpa [hc] using ih

theorem echoText_of_noEscape (h : hasNoEscape s = true) : echoText s = s ++ ['\n'] := by
  induction s with
  | nil => rw [echoText, List.nil_append]
  | cons c cs ih =>
    rw [hasNoEscape, Bool.and_eq_true] at h
    obtain ⟨hc, h⟩ := h
    rw [echoText, List.cons_append, ← ih h]
    split
    next hslash =>
      simp only [hslash, beq_self_eq_true, Bool.true_and, Bool.not_eq_true', Bool.or_eq_false_iff,
        beq_eq_false_iff_ne, Option.isSome_eq_false_iff, Option.isNone_iff_eq_none] at hc
      rw [if_neg hc.1]
      split
      next e rest h' => exact absurd (hc.2.symm.trans h') (by simp)
      next => rfl
    next => rfl

/-- `echo` writes the text between its quotes as it is exactly if neither the quotes nor `echo`
take anything in it for something else. -/
theorem echo_eq_iff (s : String) : echo s = some (s ++ "\n") ↔ isVerbatim s = true := by
  have htext (t : List Char) : String.ofList (echoText t) = s ++ "\n" ↔
      echoText t = s.toList ++ ['\n'] := by
    rw [← String.toList_inj, String.toList_ofList, String.toList_append]
    rfl
  rw [echo, isVerbatim, Bool.and_eq_true, Option.map_eq_some_iff, ← doubleQuoted_eq_self]
  constructor
  · rintro ⟨t, hquoted, hwritten⟩
    rw [htext] at hwritten
    have hlen := congrArg List.length hwritten
    rw [List.length_append, List.length_singleton] at hlen
    obtain ⟨hshort, hsame⟩ := doubleQuoted_length hquoted
    obtain ⟨hecho, hescape⟩ := echoText_length t
    obtain rfl : t = s.toList := hsame (by omega)
    exact ⟨hquoted, hescape hlen⟩
  · rintro ⟨hquoted, hescape⟩
    exact ⟨s.toList, hquoted, (htext _).mpr (echoText_of_noEscape hescape)⟩

end Verbatim

section Prefix

/-- A character with no meaning at any place of the text. -/
def isPlainEchoed (c : Char) : Bool := c != backslash && c != '$' && c != doubleQuote && c != '\x60'

variable {p s : List Char} (hp : ∀ c ∈ p, isPlainEchoed c = true)
include hp

theorem keptInQuotes_append : keptInQuotes (p ++ s) = keptInQuotes s := by
  induction p with
  | nil => rfl
  | cons c p ih =>
    obtain ⟨hc, hp⟩ := List.forall_mem_cons.mp hp
    simp only [isPlainEchoed, Bool.and_eq_true, bne_iff_ne] at hc
    rw [List.cons_append, keptInQuotes, ih hp]
    simp [hc]

theorem hasNoEscape_append : hasNoEscape (p ++ s) = hasNoEscape s := by
  induction p with
  | nil => rfl
  | cons c p ih =>
    obtain ⟨hc, hp⟩ := List.forall_mem_cons.mp hp
    simp only [isPlainEchoed, Bool.and_eq_true, bne_iff_ne] at hc
    rw [List.cons_append, hasNoEscape, ih hp]
    simp [hc]

end Prefix

theorem isVerbatim_append {p : String} (hp : p.toList.all isPlainEchoed = true) (s : String) :
    isVerbatim (p ++ s) = isVerbatim s := by
  rw [List.all_eq_true] at hp
  rw [isVerbatim, isVerbatim, String.toList_append, keptInQuotes_append hp, hasNoEscape_append hp]

end Shell
