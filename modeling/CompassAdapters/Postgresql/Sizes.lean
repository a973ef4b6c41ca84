import CompassAdapters.Shell.Loops
import CompassAdapters.Shell.Variables
import Mathlib.Data.Nat.Factorization.Basic
import Mathlib.Data.Nat.Log

/-! The sizes that the cookbook `postgresql` writes into the configuration of the server. -/
namespace CompassAdapters.Postgresql
open Shell

/-- One factor 2 goes from the value into the multiplier. -/
def halve (s : ℕ × ℕ) : ℕ × ℕ := (s.1 / 2, s.2 * 2)

/-- One factor 2 goes back into the value. -/
def double (s : ℕ × ℕ) : ℕ × ℕ := (2 * s.1, s.2 / 2)

/-- The last lines of `binaryround`: the multiplier goes down to `limit` and is left out. -/
def inUnits (fuel limit : ℕ) (units : String) (s : ℕ × ℕ) : Option String :=
  (whileLoop (fun s => decide (s.2 > limit)) double fuel s).map fun s =>
    toString (1 * s.1) ++ units

/-- `none` when one of the loops is not done after `fuel` tests of its condition. -/
def binaryround (fuel value : ℕ) : Option String :=
  (whileLoop (fun s => decide (s.1 ≥ 16)) halve fuel (value, 1)).bind fun s =>
  (whileLoop (fun s => s.1 == 2 * (s.1 / 2)) halve fuel s).bind fun s =>
  if s.2 ≥ 1024 * 1024 * 1024 then inUnits fuel (1024 * 1024 * 1024) "GB" s
  else if s.2 ≥ 1024 * 1024 then inUnits fuel (1024 * 1024) "MB" s
  else if s.2 ≥ 1024 then inUnits fuel 1024 "kB" s
  else some (toString (s.2 * s.1) ++ "")

section Purpose

/-- The bits behind the four most significant ones. -/
def dropped (value : ℕ) : ℕ := value.log2 - 3

/-- A value cut off behind its four most significant bits. -/
def rounded (value : ℕ) : ℕ := value / 2 ^ dropped value * 2 ^ dropped value

/-- A size in the greatest unit that divides it. -/
def sizeText (bytes : ℕ) : String :=
  if 2 ^ 30 ∣ bytes then toString (bytes / 2 ^ 30) ++ "GB"
  else if 2 ^ 20 ∣ bytes then toString (bytes / 2 ^ 20) ++ "MB"
  else if 2 ^ 10 ∣ bytes then toString (bytes / 2 ^ 10) ++ "kB"
  else toString bytes ++ ""

/-- What a size with a unit stands for. -/
def readSize (s : String) : Option ℕ :=
  let digits := s.toList.takeWhile Char.isDigit
  let bytes := (Nat.ofDigitChars 10 digits 0 * ·)
  match s.toList.drop digits.length with
  | [] => some (bytes 1)
  | ['k', 'B'] => some (bytes (2 ^ 10))
  | ['M', 'B'] => some (bytes (2 ^ 20))
  | ['G', 'B'] => some (bytes (2 ^ 30))
  | _ => none

theorem dropped_of_lt {value : ℕ} (h : value < 16) : dropped value = 0 := by
  have hlog : value.log2 < 4 := by
    rcases Nat.eq_zero_or_pos value with rfl | hpos
    · decide
    · exact (Nat.log2_lt hpos.ne').mpr h
  rw [dropped]
  omega

theorem div_dropped_lt (value : ℕ) : value / 2 ^ dropped value < 16 := by
  by_cases h : value < 16
  · exact (Nat.div_le_self _ _).trans_lt h
  · have hlog : 4 ≤ value.log2 := (Nat.le_log2 (by omega)).mpr (not_lt.mp h)
    rw [Nat.div_lt_iff_lt_mul (Nat.two_pow_pos _)]
    have hpow : 16 * 2 ^ dropped value = 2 ^ (value.log2 + 1) := by
      rw [dropped, show 16 = 2 ^ 4 from rfl, ← Nat.pow_add]
      congr 1
      omega
    rw [hpow]
    exact Nat.lt_log2_self

theorem le_div_dropped {value : ℕ} (h : 8 ≤ value) : 8 ≤ value / 2 ^ dropped value := by
  have hlog : 3 ≤ value.log2 := (Nat.le_log2 (by omega)).mpr h
  rw [Nat.le_div_iff_mul_le (Nat.two_pow_pos _)]
  have hpow : 8 * 2 ^ dropped value = 2 ^ value.log2 := by
    rw [dropped, show 8 = 2 ^ 3 from rfl, ← Nat.pow_add]
    congr 1
    omega
  rw [hpow]
  exact Nat.log2_self_le (by omega)

/-- Before the last of these rounds the value has more than four bits. -/
theorem le_div_of_lt_dropped {value i : ℕ} (h : i < dropped value) : 16 ≤ value / 2 ^ i := by
  have hlog : 3 + i < value.log2 := by
    rw [dropped] at h
    omega
  have hne : value ≠ 0 := by
    rintro rfl
    simp at hlog
  rw [Nat.le_div_iff_mul_le (Nat.two_pow_pos _)]
  calc 16 * 2 ^ i = 2 ^ (4 + i) := by rw [Nat.pow_add]
    _ ≤ 2 ^ value.log2 := Nat.pow_le_pow_right (by decide) (by omega)
    _ ≤ value := Nat.log2_self_le hne

theorem rounded_le (value : ℕ) : rounded value ≤ value := Nat.div_mul_le_self _ _

theorem rounded_pos {value : ℕ} (h : 0 < value) : 0 < rounded value := by
  refine Nat.mul_pos (Nat.div_pos ?_ (Nat.two_pow_pos _)) (Nat.two_pow_pos _)
  exact (Nat.pow_le_pow_right (by decide) (Nat.sub_le _ _)).trans (Nat.log2_self_le h.ne')

/-- Less than a ninth is lost. -/
theorem lt_rounded {value : ℕ} (h : 0 < value) : 8 * value < 9 * rounded value := by
  by_cases hsmall : value < 16
  · rw [rounded, dropped_of_lt hsmall, Nat.pow_zero, Nat.div_one, Nat.mul_one]
    omega
  · have hbits : 8 ≤ value / 2 ^ dropped value := le_div_dropped (by omega)
    have hmod := Nat.mod_lt value (Nat.two_pow_pos (dropped value))
    have hsum := Nat.div_add_mod' value (2 ^ dropped value)
    rw [rounded]
    have hpart : 8 * 2 ^ dropped value ≤ value / 2 ^ dropped value * 2 ^ dropped value :=
      Nat.mul_le_mul_right _ hbits
    omega

theorem rounded_rounded (value : ℕ) : rounded (rounded value) = rounded value := by
  by_cases hsmall : value < 16
  · have hsame : rounded value = value := by
      rw [rounded, dropped_of_lt hsmall, Nat.pow_zero, Nat.div_one, Nat.mul_one]
    rw [hsame, hsame]
  · have hlog : (rounded value).log2 = value.log2 := by
      have hlow : 2 ^ value.log2 ≤ rounded value := by
        have hbits : 8 ≤ value / 2 ^ dropped value := le_div_dropped (by omega)
        have hpow : 8 * 2 ^ dropped value = 2 ^ value.log2 := by
          have hlog : 4 ≤ value.log2 := (Nat.le_log2 (by omega)).mpr (not_lt.mp hsmall)
          rw [dropped, show 8 = 2 ^ 3 from rfl, ← Nat.pow_add]
          congr 1
          omega
        rw [← hpow, rounded]
        exact Nat.mul_le_mul_right _ hbits
      have hne : rounded value ≠ 0 := (rounded_pos (by omega)).ne'
      refine le_antisymm ?_ ((Nat.le_log2 hne).mpr hlow)
      refine Nat.lt_succ_iff.mp ((Nat.log2_lt hne).mpr ?_)
      exact (rounded_le value).trans_lt Nat.lt_log2_self
    have hdrop : dropped (rounded value) = dropped value := by rw [dropped, hlog, dropped]
    rw [rounded, hdrop]
    conv_lhs => rw [rounded]
    rw [Nat.mul_div_cancel _ (Nat.two_pow_pos _)]
    rfl

end Purpose

section Loops

variable {value multiplier : ℕ}

theorem iterate_halve (i : ℕ) :
    halve^[i] (value, multiplier) = (value / 2 ^ i, multiplier * 2 ^ i) := by
  induction i with
  | zero => simp
  | succ i ih =>
    rw [Function.iterate_succ_apply', ih, halve, Nat.div_div_eq_div_mul, Nat.pow_succ,
      Nat.mul_assoc]

theorem iterate_double {i u : ℕ} :
    double^[i] (value, 2 ^ (u + i)) = (value * 2 ^ i, 2 ^ u) := by
  induction i generalizing value with
  | zero => simp
  | succ i ih =>
    have hstep : double (value, 2 ^ (u + (i + 1))) = (value * 2, 2 ^ (u + i)) := by
      rw [double, ← Nat.add_assoc, Nat.pow_succ, Nat.mul_div_cancel _ (by decide), Nat.mul_comm 2]
    rw [Function.iterate_succ_apply, hstep, ih, Nat.pow_succ', Nat.mul_assoc]

/-- The first loop drops all bits but four. -/
theorem truncate_endsAfter (value : ℕ) :
    EndsAfter (fun s => decide (s.1 ≥ 16)) halve (dropped value) (value, 1)
      (value / 2 ^ dropped value, 2 ^ dropped value) where
  more i hi := by
    rw [iterate_halve]
    exact decide_eq_true (le_div_of_lt_dropped hi)
  last := by rw [iterate_halve, Nat.one_mul]
  done := decide_eq_false (not_le.mpr (div_dropped_lt value))

/-- The second loop takes the factors 2 out of the value. -/
theorem factor_endsAfter {n odd : ℕ} (hodd : odd % 2 = 1) :
    EndsAfter (fun s => s.1 == 2 * (s.1 / 2)) halve n (odd * 2 ^ n, multiplier)
      (odd, multiplier * 2 ^ n) where
  more i hi := by
    obtain ⟨k, rfl⟩ := Nat.exists_eq_add_of_lt hi
    have hquot : odd * 2 ^ (i + k + 1) / 2 ^ i = 2 * (odd * 2 ^ k) := by
      rw [show i + k + 1 = k + 1 + i by omega, Nat.pow_add, ← Nat.mul_assoc,
        Nat.mul_div_cancel _ (Nat.two_pow_pos i), Nat.pow_succ', Nat.mul_left_comm]
    rw [iterate_halve, hquot, beq_iff_eq, Nat.mul_div_cancel_left _ (by decide)]
  last := by rw [iterate_halve, Nat.mul_div_cancel _ (Nat.two_pow_pos n)]
  done := by
    rw [beq_eq_false_iff_ne]
    show odd ≠ 2 * (odd / 2)
    omega

/-- The last loop gives the factors 2 back that the unit does not need. -/
theorem units_endsAfter (u i : ℕ) :
    EndsAfter (fun s => decide (s.2 > 2 ^ u)) double i (value, 2 ^ (u + i))
      (value * 2 ^ i, 2 ^ u) where
  more j hj := by
    obtain ⟨k, rfl⟩ := Nat.exists_eq_add_of_lt hj
    rw [show u + (j + k + 1) = u + (k + 1) + j by omega, iterate_double]
    exact decide_eq_true (Nat.pow_lt_pow_right (by decide) (by omega))
  last := iterate_double
  done := decide_eq_false (lt_irrefl _)

theorem whileLoop_of_endsAfter {cond : ℕ × ℕ → Bool} {body : ℕ × ℕ → ℕ × ℕ} {n fuel : ℕ}
    {s t : ℕ × ℕ} (h : EndsAfter cond body n s t) (hfuel : n < fuel) :
    whileLoop cond body fuel s = some t := by
  obtain ⟨more, rfl⟩ := Nat.exists_eq_add_of_lt hfuel
  rw [show n + more + 1 = n + 1 + more by omega]
  exact whileLoop_add h.whileLoop_eq more

theorem inUnits_eq {fuel u i : ℕ} (units : String) (hfuel : i < fuel) :
    inUnits fuel (2 ^ u) units (value, 2 ^ (u + i)) =
      some (toString (value * 2 ^ i) ++ units) := by
  rw [inUnits, whileLoop_of_endsAfter (units_endsAfter u i) hfuel, Option.map_some, Nat.one_mul]

end Loops

/-- The least odd part of a number and its factors 2. -/
theorem exists_odd_mul {b : ℕ} (h : 0 < b) : ∃ odd n, b = odd * 2 ^ n ∧ odd % 2 = 1 := by
  obtain ⟨n, odd, hodd, hb⟩ := Nat.exists_eq_two_pow_mul_odd h.ne'
  exact ⟨odd, n, by rw [hb, Nat.mul_comm], Nat.odd_iff.mp hodd⟩

theorem two_pow_dvd_iff {odd e u : ℕ} (hodd : odd % 2 = 1) : 2 ^ u ∣ odd * 2 ^ e ↔ u ≤ e := by
  constructor
  · intro h
    have hcoprime : Nat.Coprime (2 ^ u) odd :=
      Nat.Coprime.pow_left u ((Nat.coprime_two_left).mpr (Nat.odd_iff.mpr hodd))
    exact (Nat.pow_dvd_pow_iff_le_right (by decide)).mp (hcoprime.dvd_of_dvd_mul_left h)
  · exact fun h => (Nat.pow_dvd_pow 2 h).trans (Nat.dvd_mul_left _ _)

/-- The text for a size with some factors 2. -/
theorem sizeText_eq {odd e : ℕ} (hodd : odd % 2 = 1) :
    sizeText (odd * 2 ^ e) =
      if 30 ≤ e then toString (odd * 2 ^ (e - 30)) ++ "GB"
      else if 20 ≤ e then toString (odd * 2 ^ (e - 20)) ++ "MB"
      else if 10 ≤ e then toString (odd * 2 ^ (e - 10)) ++ "kB"
      else toString (odd * 2 ^ e) ++ "" := by
  have hquot {u : ℕ} (h : u ≤ e) : odd * 2 ^ e / 2 ^ u = odd * 2 ^ (e - u) := by
    rw [Nat.mul_div_assoc _ (Nat.pow_dvd_pow 2 h), Nat.pow_div h (by decide)]
  simp only [sizeText, two_pow_dvd_iff hodd]
  split
  next h => rw [hquot h]
  next =>
    split
    next h => rw [hquot h]
    next =>
      split
      next h => rw [hquot h]
      next => rfl

/-- A value other than 0 becomes the text for its four most significant bits. -/
theorem binaryround_eq {value fuel : ℕ} (h : 0 < value) (hfuel : value.log2 + 4 < fuel) :
    binaryround fuel value = some (sizeText (rounded value)) := by
  have hquot : 0 < value / 2 ^ dropped value :=
    Nat.pos_of_ne_zero fun hzero => (rounded_pos h).ne' (by rw [rounded, hzero, Nat.zero_mul])
  obtain ⟨odd, n, heq, hodd⟩ := exists_odd_mul hquot
  have hn : n < 4 := by
    have hlt := div_dropped_lt value
    rw [heq] at hlt
    have hodd : 1 ≤ odd := by omega
    by_contra hle
    have hpow : 2 ^ 4 ≤ 2 ^ n := Nat.pow_le_pow_right (by decide) (not_lt.mp hle)
    exact absurd ((Nat.mul_le_mul hodd hpow).trans_lt hlt) (by decide)
  have hdropped : dropped value ≤ value.log2 := Nat.sub_le _ _
  have hrounded : rounded value = odd * 2 ^ (dropped value + n) := by
    rw [rounded, heq, Nat.mul_assoc, ← Nat.pow_add, Nat.add_comm n]
  have hfactor : EndsAfter (fun s => s.1 == 2 * (s.1 / 2)) halve n
      (odd * 2 ^ n, 2 ^ dropped value) (odd, 2 ^ dropped value * 2 ^ n) := factor_endsAfter hodd
  rw [binaryround, whileLoop_of_endsAfter (truncate_endsAfter value) (by omega), Option.bind_some,
    heq, whileLoop_of_endsAfter hfactor (by omega), Option.bind_some, ← Nat.pow_add, hrounded,
    sizeText_eq hodd]
  have hunit {u : ℕ} : 2 ^ (dropped value + n) ≥ 2 ^ u ↔ u ≤ dropped value + n :=
    Nat.pow_le_pow_iff_right (by decide)
  have hshift {u : ℕ} (units : String) (hu : u ≤ dropped value + n) :
      inUnits fuel (2 ^ u) units (odd, 2 ^ (dropped value + n)) =
        some (toString (odd * 2 ^ (dropped value + n - u)) ++ units) := by
    have hsum : dropped value + n = u + (dropped value + n - u) := by omega
    conv_lhs => rw [hsum]
    exact inUnits_eq units (by omega)
  have hgb : 1024 * 1024 * 1024 = 2 ^ 30 := rfl
  have hmb : 1024 * 1024 = 2 ^ 20 := rfl
  have hkb : 1024 = 2 ^ 10 := rfl
  rw [hgb, hmb, hkb]
  simp only [hunit]
  split
  next hu => exact hshift "GB" hu
  next =>
    split
    next hu => exact hshift "MB" hu
    next =>
      split
      next hu => exact hshift "kB" hu
      next => rw [Nat.mul_comm]

/-- A result is the same with more rounds at hand. -/
theorem binaryround_add {fuel value : ℕ} {text : String} (h : binaryround fuel value = some text)
    (more : ℕ) : binaryround (fuel + more) value = some text := by
  have hunits {limit : ℕ} {units : String} {s : ℕ × ℕ}
      (h : inUnits fuel limit units s = some text) :
      inUnits (fuel + more) limit units s = some text := by
    obtain ⟨t, ht, htext⟩ := Option.map_eq_some_iff.mp h
    rw [inUnits, whileLoop_add ht more, Option.map_some, htext]
  obtain ⟨s, hs, h⟩ := Option.bind_eq_some_iff.mp h
  obtain ⟨t, ht, h⟩ := Option.bind_eq_some_iff.mp h
  rw [binaryround, whileLoop_add hs more, Option.bind_some, whileLoop_add ht more,
    Option.bind_some]
  split at h
  next hlimit => rw [if_pos hlimit, hunits h]
  next hlimit =>
    rw [if_neg hlimit]
    split at h
    next hlimit => rw [if_pos hlimit, hunits h]
    next hlimit =>
      rw [if_neg hlimit]
      split at h
      next hlimit => rw [if_pos hlimit, hunits h]
      next hlimit => rw [if_neg hlimit, h]

/-- For 0 the second loop does not end. -/
theorem binaryround_zero (fuel : ℕ) : binaryround fuel 0 = none := by
  have hloop (s : ℕ × ℕ) (hs : s.1 = 0) :
      whileLoop (fun s => s.1 == 2 * (s.1 / 2)) halve fuel s = none :=
    whileLoop_diverges (fun s => s.1 = 0) (fun s hs => by rw [hs]; rfl)
      (fun s hs => by rw [halve, hs]) fuel hs
  rw [binaryround]
  rcases fuel with - | fuel
  · rfl
  · rw [whileLoop_done _ _ (by rfl), Option.bind_some, hloop _ rfl, Option.bind_none]

theorem readSize_append (n : ℕ) (units : String)
    (hunits : units.toList.takeWhile Char.isDigit = []) :
    readSize (toString n ++ units) = match units.toList with
      | [] => some (n * 1)
      | ['k', 'B'] => some (n * 2 ^ 10)
      | ['M', 'B'] => some (n * 2 ^ 20)
      | ['G', 'B'] => some (n * 2 ^ 30)
      | _ => none := by
  have hdigits : (toString n ++ units).toList.takeWhile Char.isDigit = (toString n).toList := by
    rw [String.toList_append, List.takeWhile_append_of_pos fun c hc =>
      Shell.isDigit_of_mem_toString hc, hunits, List.append_nil]
  have hnumber : Nat.ofDigitChars 10 (toString n).toList 0 = n := by
    rw [Nat.toString_eq_repr, Nat.toList_repr, Nat.ofDigitChars_ten_toDigits]
  rw [readSize, hdigits, String.toList_append, List.drop_left, hnumber]

theorem readSize_sizeText (bytes : ℕ) : readSize (sizeText bytes) = some bytes := by
  rw [sizeText]
  split
  next h =>
    rw [readSize_append _ _ (by rfl)]
    exact congrArg some (Nat.div_mul_cancel h)
  next =>
    split
    next h =>
      rw [readSize_append _ _ (by rfl)]
      exact congrArg some (Nat.div_mul_cancel h)
    next =>
      split
      next h =>
        rw [readSize_append _ _ (by rfl)]
        exact congrArg some (Nat.div_mul_cancel h)
      next =>
        rw [readSize_append _ _ (by rfl)]
        exact congrArg some (Nat.mul_one _)

/-- The loops end for every value but 0. The text that they lead to stands for a size that is no
greater and more than eight ninths of the value, and that becomes the same text again. -/
theorem binaryround_spec (value : ℕ) :
    ((∃ fuel, (binaryround fuel value).isSome) ↔ value ≠ 0) ∧
    ∀ fuel text, binaryround fuel value = some text → ∃ size, readSize text = some size ∧
      size ≤ value ∧ 8 * value < 9 * size ∧
      ∃ fuel', binaryround fuel' size = some text := by
  rcases Nat.eq_zero_or_pos value with rfl | hpos
  · refine ⟨iff_of_false ?_ (not_not.mpr rfl), fun fuel text h => ?_⟩
    · rintro ⟨fuel, h⟩
      rw [binaryround_zero] at h
      cases h
    · rw [binaryround_zero] at h
      cases h
  · have hends := binaryround_eq hpos (Nat.lt_succ_self _)
    refine ⟨iff_of_true ⟨_, Option.isSome_of_mem hends⟩ hpos.ne', fun fuel text h => ?_⟩
    have htext : text = sizeText (rounded value) := by
      have hmore := binaryround_add h (value.log2 + 4 + 1)
      rw [binaryround_eq hpos (by omega)] at hmore
      exact (Option.some.inj hmore).symm
    refine ⟨rounded value, by rw [htext, readSize_sizeText], rounded_le value, lt_rounded hpos, ?_⟩
    refine ⟨_, (binaryround_eq (rounded_pos hpos) (Nat.lt_succ_self _)).trans ?_⟩
    rw [rounded_rounded, htext]

end CompassAdapters.Postgresql
