import CompassAdapters.Ruby.Regex
import CompassAdapters.Ruby.Text

/-! `sub` of Ruby, and what it does to the lines of a text. -/
namespace Ruby
namespace Regex

/-- The first match at the head of a text, for an expression without groups. -/
def matched (f : List Item) (s : List Char) : Option (List Char) :=
  (run (group f) s s).head?.bind List.head?

/-- The substitution from a place on, which is at the start of a line or not. -/
def subFrom (r : Regex) (t : List Char) (start : Bool) : List Char → List Char
  | [] => if !r.bol && (matched r.items []).isSome then t else []
  | c :: cs =>
    match if r.bol && !start then none else matched r.items (c :: cs) with
    | some m => t ++ (c :: cs).drop m.length
    | none => c :: subFrom r t (c == '\n') cs

/-- `s.sub(r, t)`: the first match is replaced. -/
def sub (r : Regex) (t s : List Char) : List Char :=
  if s = [] then (if (matched r.items []).isSome then t else []) else subFrom r t true s

section Matched

variable {p : Char → Bool}

theorem rests_eq (s : List Char) : ∃ more, rests p s = s.dropWhile p :: more ∧
    ∀ v ∈ more, ∃ c cs, v = c :: cs ∧ p c = true := by
  induction s with
  | nil => exact ⟨[], rfl, nofun⟩
  | cons c cs ih =>
    obtain ⟨more, hrests, hmore⟩ := ih
    by_cases hc : p c = true
    · refine ⟨more ++ [c :: cs], ?_, ?_⟩
      · rw [rests, if_pos hc, hrests, List.dropWhile_cons_of_pos hc, List.cons_append]
      · intro v hv
        rcases List.mem_append.mp hv with hv | hv
        · exact hmore v hv
        · exact ⟨c, cs, List.mem_singleton.mp hv, hc⟩
    · refine ⟨[], ?_, nofun⟩
      rw [rests, if_neg hc, List.dropWhile_cons_of_neg hc]

theorem take_sub_length_dropWhile (s : List Char) :
    s.take (s.length - (s.dropWhile p).length) = s.takeWhile p := by
  have hlen : s.length = (s.takeWhile p).length + (s.dropWhile p).length := by
    rw [← List.length_append, List.takeWhile_append_dropWhile]
  rw [hlen, Nat.add_sub_cancel]
  exact (List.prefix_iff_eq_take.mp (List.takeWhile_prefix p)).symm

theorem drop_length_takeWhile (s : List Char) :
    s.drop (s.takeWhile p).length = s.dropWhile p := by
  have hs : s.takeWhile p ++ s.dropWhile p = s := List.takeWhile_append_dropWhile
  calc s.drop (s.takeWhile p).length
      = (s.takeWhile p ++ s.dropWhile p).drop (s.takeWhile p).length := by rw [hs]
    _ = s.dropWhile p := List.drop_left

/-- A repetition takes all that it can. -/
theorem matched_plus (s : List Char) :
    matched [.plus p] s = if s.takeWhile p = [] then none else some (s.takeWhile p) := by
  cases s with
  | nil => rfl
  | cons c cs =>
    by_cases hc : p c = true
    · obtain ⟨more, hrests, -⟩ := rests_eq (p := p) cs
      have htake := take_sub_length_dropWhile (p := p) (c :: cs)
      rw [List.dropWhile_cons_of_pos hc] at htake
      rw [List.takeWhile_cons_of_pos hc] at htake ⊢
      rw [if_neg (List.cons_ne_nil _ _), ← htake]
      simp [matched, group, run, hc, hrests]
    · rw [List.takeWhile_cons_of_neg hc, if_pos rfl]
      simp [matched, group, run, hc]

theorem matched_plus_of_pos {c : Char} (hc : p c = true) (s : List Char) :
    matched [.plus p] (c :: s) = some ((c :: s).takeWhile p) := by
  rw [matched_plus, List.takeWhile_cons_of_pos hc, if_neg (List.cons_ne_nil _ _)]

theorem matched_plus_of_neg {c : Char} (hc : ¬ p c = true) (s : List Char) :
    matched [.plus p] (c :: s) = none := by
  rw [matched_plus, List.takeWhile_cons_of_neg hc, if_pos rfl]

/-- Before the end of a line a repetition takes all or nothing. -/
theorem matched_plus_eol (hp : p '\n' = false) (s : List Char) :
    matched [.plus p, .eol] s =
      if s.takeWhile p = [] then none
      else if s.dropWhile p = [] ∨ (s.dropWhile p).head? = some '\n' then some (s.takeWhile p)
      else none := by
  cases s with
  | nil => rfl
  | cons c cs =>
    by_cases hc : p c = true
    · obtain ⟨more, hrests, hmore⟩ := rests_eq (p := p) cs
      have htake := take_sub_length_dropWhile (p := p) (c :: cs)
      rw [List.dropWhile_cons_of_pos hc] at htake ⊢
      rw [List.takeWhile_cons_of_pos hc] at htake ⊢
      rw [if_neg (List.cons_ne_nil _ _), ← htake]
      -- what a shorter repetition leaves begins with a character of the repetition
      have hshort : more.flatMap (run [.eol, .closing] (c :: cs)) = [] := by
        rw [List.flatMap_eq_nil_iff]
        intro v hv
        obtain ⟨d, ds, rfl, hd⟩ := hmore v hv
        have hne : d ≠ '\n' := by
          rintro rfl
          rw [hp] at hd
          cases hd
        simp [run, hne]
      have hrun : run (group [.plus p, .eol]) (c :: cs) (c :: cs) =
          run [.eol, .closing] (c :: cs) (cs.dropWhile p) := by
        rw [← List.append_nil (run _ _ (cs.dropWhile p)), ← hshort, ← List.flatMap_cons, ← hrests]
        simp [group, run, hc]
      rw [matched, hrun]
      split
      next hend =>
        rw [run, if_pos hend]
        rfl
      next hend =>
        rw [run, if_neg hend]
        rfl
    · rw [List.takeWhile_cons_of_neg hc, if_pos rfl]
      simp [matched, group, run, hc]

end Matched

section Cut

variable {p : Char → Bool} {r : Regex} {f : List Item}

/-- The matches are runs of `p`, to their ends. -/
def Takes (f : List Item) (p : Char → Bool) : Prop :=
  ∀ s m, matched f s = some m → m = s.takeWhile p ∧ m ≠ []

theorem takes_plus : Takes [.plus p] p := by
  intro s m h
  rw [matched_plus] at h
  split at h
  next => cases h
  next hne =>
    obtain rfl := Option.some.inj h
    exact ⟨rfl, hne⟩

theorem takes_plus_eol (hp : p '\n' = false) : Takes [.plus p, .eol] p := by
  intro s m h
  rw [matched_plus_eol hp] at h
  split at h
  next => cases h
  next hne =>
    split at h
    next =>
      obtain rfl := Option.some.inj h
      exact ⟨rfl, hne⟩
    next => cases h

theorem Takes.matched_nil (h : Takes f p) : matched f [] = none := by
  cases hm : matched f [] with
  | none => rfl
  | some m => exact absurd (h [] m hm).1 (h [] m hm).2

theorem Takes.sub_eq (h : Takes r.items p) (t s : List Char) : sub r t s = subFrom r t true s := by
  rw [sub]
  split
  next hs =>
    rw [hs, subFrom, h.matched_nil]
    simp
  next => rfl

theorem Takes.subFrom_cut (h : Takes r.items p) (start : Bool) (s : List Char) :
    ∃ a m b, s = a ++ m ++ b ∧ subFrom r [] start s = a ++ b ∧ (∀ c ∈ m, p c = true) ∧
      ∀ c ∈ b.head?, p c = false := by
  induction s generalizing start with
  | nil => exact ⟨[], [], [], rfl, by rw [subFrom, ite_self]; rfl, nofun, nofun⟩
  | cons c cs ih =>
    rw [subFrom]
    split
    next m hm =>
      have hmatched : matched r.items (c :: cs) = some m := by
        split at hm
        next => cases hm
        next => exact hm
      obtain ⟨rfl, -⟩ := h _ _ hmatched
      refine ⟨[], (c :: cs).takeWhile p, (c :: cs).dropWhile p, ?_, ?_, ?_, ?_⟩
      · exact List.takeWhile_append_dropWhile.symm
      · exact drop_length_takeWhile (c :: cs)
      · exact fun d hd => List.mem_takeWhile_imp hd
      · intro d hd
        have hnot := List.head?_dropWhile_not p (c :: cs)
        rw [Option.mem_def.mp hd] at hnot
        simpa using hnot
    next =>
      obtain ⟨a, m, b, hs, hsub, hm, hb⟩ := ih (c == '\n')
      exact ⟨c :: a, m, b, by rw [hs]; rfl, by rw [hsub]; rfl, hm, hb⟩

/-- What goes is a run of `p` with no such character behind it. -/
theorem Takes.sub_cut (h : Takes r.items p) (s : List Char) :
    ∃ a m b, s = a ++ m ++ b ∧ sub r [] s = a ++ b ∧ (∀ c ∈ m, p c = true) ∧
      ∀ c ∈ b.head?, p c = false := by
  rw [h.sub_eq]
  exact h.subFrom_cut true s

end Cut

section Lines

variable {p : Char → Bool} {f : List Item} {t l rest : List Char}

theorem subFrom_of_none {r : Regex} {c : Char} {s : List Char} (start : Bool)
    (h : matched r.items (c :: s) = none) :
    subFrom r t start (c :: s) = c :: subFrom r t (c == '\n') s := by
  rw [subFrom, h, ite_self]

theorem subFrom_of_some {r : Regex} {c : Char} {s m : List Char} {start : Bool}
    (hplace : (r.bol && !start) = false) (h : matched r.items (c :: s) = some m) :
    subFrom r t start (c :: s) = t ++ (c :: s).drop m.length := by
  rw [subFrom, hplace, if_neg Bool.false_ne_true, h]

theorem subFrom_start (start : Bool) (s : List Char) :
    subFrom ⟨false, f⟩ t start s = subFrom ⟨false, f⟩ t true s := by
  cases s with
  | nil => rfl
  | cons c s => rfl

theorem subFrom_false (hl : '\n' ∉ l) :
    subFrom ⟨true, f⟩ t false (l ++ rest) = l ++ subFrom ⟨true, f⟩ t false rest := by
  induction l with
  | nil => rfl
  | cons c l ih =>
    rw [List.mem_cons, not_or] at hl
    have hc : (c == '\n') = false := beq_false_of_ne (Ne.symm hl.1)
    rw [List.cons_append, subFrom, hc, ih hl.2]
    rfl

/-- A run does not go beyond the line. -/
theorem dropWhile_append_line (hp : p '\n' = false) (hrest : rest = [] ∨ rest.head? = some '\n') :
    (l ++ rest).dropWhile p = l.dropWhile p ++ rest := by
  have hstop : rest.dropWhile p = rest := by
    cases rest with
    | nil => rfl
    | cons d rest =>
      have hd : d = '\n' := by simpa using hrest
      rw [List.dropWhile_cons_of_neg (by simp [hd, hp])]
  rw [List.dropWhile_append]
  split
  next hempty => rw [hstop, List.isEmpty_iff.mp hempty, List.nil_append]
  next => rfl

/-- `^` on one line. -/
theorem subFrom_bol_line (hp : p '\n' = false) (hl : '\n' ∉ l)
    (hrest : rest = [] ∨ rest.head? = some '\n') :
    subFrom ⟨true, [.plus p]⟩ [] true (l ++ rest) =
      if l.head?.any p then l.dropWhile p ++ rest
      else l ++ subFrom ⟨true, [.plus p]⟩ [] false rest := by
  cases l with
  | nil =>
    cases rest with
    | nil => rfl
    | cons d rest =>
      have hd : d = '\n' := by simpa using hrest
      subst hd
      simp [subFrom, matched_plus, hp]
  | cons c l =>
    by_cases hc : p c = true
    · rw [List.head?_cons, Option.any_some, if_pos hc, ← dropWhile_append_line hp hrest,
        List.cons_append, subFrom_of_some rfl (matched_plus_of_pos hc _)]
      exact drop_length_takeWhile _
    · rw [List.mem_cons, not_or] at hl
      have hnewline : (c == '\n') = false := beq_false_of_ne (Ne.symm hl.1)
      rw [List.cons_append, subFrom_of_none true (matched_plus_of_neg hc _), hnewline,
        subFrom_false hl.2, List.head?_cons, Option.any_some, if_neg hc]
      rfl

/-- Behind the substitution the text does not begin with `p`. -/
theorem head?_sub_bol (s : List Char) : ∀ c ∈ (sub ⟨true, [.plus p]⟩ [] s).head?, p c = false := by
  rw [Takes.sub_eq (p := p) takes_plus]
  intro c hc
  cases s with
  | nil => cases hc
  | cons d s =>
    by_cases hd : p d = true
    · rw [subFrom_of_some rfl (matched_plus_of_pos hd s), List.nil_append,
        drop_length_takeWhile] at hc
      have hnot := List.head?_dropWhile_not p (d :: s)
      rw [Option.mem_def.mp hc] at hnot
      simpa using hnot
    · rw [subFrom_of_none true (matched_plus_of_neg hd s)] at hc
      obtain rfl : d = c := Option.some.inj hc
      exact Bool.eq_false_iff.mpr hd

section LineEnd

variable {c : Char} (hp : p '\n' = false) (hrest : rest = [] ∨ rest.head? = some '\n')
include hp hrest

/-- A run up to the end of the line matches. -/
theorem matched_eol_of_all (hall : ∀ d ∈ c :: l, p d = true) :
    matched [.plus p, .eol] (c :: l ++ rest) = some (c :: l) := by
  have hdrop := dropWhile_append_line (l := c :: l) hp hrest
  rw [List.dropWhile_eq_nil_iff.mpr hall, List.nil_append] at hdrop
  have htake : (c :: l ++ rest).takeWhile p = c :: l := by
    have hparts : (c :: l ++ rest).takeWhile p ++ (c :: l ++ rest).dropWhile p =
        c :: l ++ rest := List.takeWhile_append_dropWhile
    rw [hdrop] at hparts
    exact List.append_cancel_right hparts
  rw [matched_plus_eol hp, hdrop, htake, if_neg (List.cons_ne_nil c l), if_pos hrest]

/-- Where the line goes on with something else, there is no match. -/
theorem matched_eol_of_not_all (hl : '\n' ∉ c :: l) (hall : ¬ ∀ d ∈ c :: l, p d = true) :
    matched [.plus p, .eol] (c :: l ++ rest) = none := by
  have hne : (c :: l).dropWhile p ≠ [] := fun h => hall (List.dropWhile_eq_nil_iff.mp h)
  have hinner : ¬ ((c :: l ++ rest).dropWhile p = [] ∨
      ((c :: l ++ rest).dropWhile p).head? = some '\n') := by
    rw [dropWhile_append_line hp hrest, List.head?_append_of_ne_nil _ hne]
    rintro (hnil | hhead)
    · exact hne (List.append_eq_nil_iff.mp hnil).1
    · exact hl ((List.dropWhile_suffix p).subset (List.mem_of_mem_head? hhead))
  rw [matched_plus_eol hp, if_neg hinner, ite_self]

end LineEnd

/-- `$` on one line. -/
theorem subFrom_eol_line (hp : p '\n' = false) (hl : '\n' ∉ l)
    (hrest : rest = [] ∨ rest.head? = some '\n') :
    subFrom ⟨false, [.plus p, .eol]⟩ [] true (l ++ rest) =
      if l.getLast?.any p then l.rdropWhile p ++ rest
      else l ++ subFrom ⟨false, [.plus p, .eol]⟩ [] true rest := by
  induction l with
  | nil => rfl
  | cons c l ih =>
    by_cases hall : ∀ d ∈ c :: l, p d = true
    · -- the whole line goes
      have hlast : (c :: l).getLast?.any p = true := by
        rw [List.getLast?_eq_some_getLast (List.cons_ne_nil c l)]
        exact hall _ (List.getLast_mem _)
      have hsome := matched_eol_of_all hp hrest hall
      rw [if_pos hlast, List.rdropWhile_eq_nil_iff.mpr hall]
      rw [List.cons_append] at hsome ⊢
      rw [subFrom_of_some rfl hsome, ← List.cons_append, List.drop_left]
    · have hnone := matched_eol_of_not_all hp hrest hl hall
      have hlast : (c :: l).getLast?.any p = l.getLast?.any p := by
        cases l with
        | nil => simpa using hall
        | cons d l => rw [List.getLast?_cons_cons]
      have hcut : (c :: l).rdropWhile p = c :: l.rdropWhile p := by
        rw [Text.rdropWhile_cons, if_neg]
        rintro ⟨hc, hnil⟩
        exact hall (List.forall_mem_cons.mpr ⟨hc, List.rdropWhile_eq_nil_iff.mp hnil⟩)
      rw [hlast, hcut, List.cons_append, subFrom_of_none true hnone, subFrom_start,
        ih fun h => hl (List.mem_cons_of_mem c h)]
      by_cases hend : l.getLast?.any p = true
      · rw [if_pos hend, if_pos hend]
        rfl
      · rw [if_neg hend, if_neg hend]
        rfl

end Lines

section CutFirst

variable {hit : List Char → Bool} {cut : List Char → List Char} {done : Bool}

/-- The first line that `hit` accepts is cut, if it is not done. -/
def cutFirst (hit : List Char → Bool) (cut : List Char → List Char) :
    Bool → List (List Char) → List (List Char)
  | _, [] => []
  | done, l :: ls =>
    (if !done && hit l then cut l else l) :: cutFirst hit cut (done || hit l) ls

theorem cutFirst_true (ls : List (List Char)) : cutFirst hit cut true ls = ls := by
  induction ls with
  | nil => rfl
  | cons l ls ih =>
    rw [cutFirst, Bool.true_or, ih]
    rfl

theorem cutFirst_append (ls ls' : List (List Char)) : cutFirst hit cut done (ls ++ ls') =
    cutFirst hit cut done ls ++ cutFirst hit cut (done || ls.any hit) ls' := by
  induction ls generalizing done with
  | nil => rw [List.any_nil, Bool.or_false]; rfl
  | cons l ls ih =>
    rw [List.cons_append, cutFirst, ih, cutFirst, List.any_cons, Bool.or_assoc]
    rfl

theorem mem_cutFirst {ls : List (List Char)} {x : List Char} :
    x ∈ cutFirst hit cut done ls ↔ ∃ before l after, ls = before ++ l :: after ∧
      x = if !(done || before.any hit) && hit l then cut l else l := by
  constructor
  · intro hx
    induction ls generalizing done with
    | nil => exact absurd hx List.not_mem_nil
    | cons l ls ih =>
      rcases List.mem_cons.mp hx with rfl | hx
      · exact ⟨[], l, ls, rfl, by rw [List.any_nil, Bool.or_false]⟩
      · obtain ⟨before, l', after, rfl, rfl⟩ := ih hx
        exact ⟨l :: before, l', after, rfl, by rw [List.any_cons, Bool.or_assoc]⟩
  · rintro ⟨before, l, after, rfl, rfl⟩
    rw [cutFirst_append]
    exact List.mem_append_right _ List.mem_cons_self

theorem getLast?_cutFirst (ls : List (List Char)) (l : List Char) :
    (cutFirst hit cut false (ls ++ [l])).getLast? =
      some (if !(ls.any hit) && hit l then cut l else l) := by
  rw [cutFirst_append, cutFirst, cutFirst, List.getLast?_concat, Bool.false_or]

/-- What works line by line up to the first line that is hit. -/
theorem splitOn_of_lines {F G : List Char → List Char}
    (hF : ∀ l rest, '\n' ∉ l → rest = [] ∨ rest.head? = some '\n' →
      F (l ++ rest) = if hit l then cut l ++ rest else l ++ G rest)
    (hnil : G [] = []) (hnext : ∀ s, G ('\n' :: s) = '\n' :: F s)
    (hcut : ∀ l, '\n' ∉ l → '\n' ∉ cut l) (s : List Char) :
    (F s).splitOn '\n' = cutFirst hit cut false (s.splitOn '\n') := by
  have hlines (ls : List (List Char)) (hne : ls ≠ []) (hls : ∀ l ∈ ls, '\n' ∉ l) :
      (F (['\n'].intercalate ls)).splitOn '\n' = cutFirst hit cut false ls := by
    induction ls with
    | nil => exact absurd rfl hne
    | cons l ls ih =>
      obtain ⟨hl, hls⟩ := List.forall_mem_cons.mp hls
      cases ls with
      | nil =>
        rw [List.intercalate_singleton, cutFirst, Bool.not_false, Bool.true_and]
        have hFl := hF l [] hl (Or.inl rfl)
        rw [List.append_nil, hnil, List.append_nil, List.append_nil] at hFl
        rw [hFl]
        split
        next => rw [List.splitOn_eq_singleton (hcut l hl)]; rfl
        next => rw [List.splitOn_eq_singleton hl]; rfl
      | cons l' ls =>
        have hne' : l' :: ls ≠ [] := List.cons_ne_nil l' ls
        rw [List.intercalate_cons_cons, List.append_assoc, List.singleton_append,
          hF l _ hl (Or.inr rfl), cutFirst, Bool.not_false, Bool.true_and, Bool.false_or]
        by_cases hhit : hit l = true
        · rw [if_pos hhit, if_pos hhit, List.splitOn_append_cons_self_of_not_mem (hcut l hl),
            List.splitOn_intercalate '\n' hls hne', hhit, cutFirst_true]
        · rw [if_neg hhit, if_neg hhit, hnext, List.splitOn_append_cons_self_of_not_mem hl,
            ih hne' hls, Bool.eq_false_iff.mpr hhit]
  rw [← hlines _ (List.splitOn_ne_nil _ _) fun l hl => Text.notMem_of_mem_splitOn hl,
    List.intercalate_splitOn]

variable {p : Char → Bool}

/-- `sub(/^p+/, '')` cuts the first line that begins with `p`. -/
theorem splitOn_sub_bol (hp : p '\n' = false) (s : List Char) :
    (sub ⟨true, [.plus p]⟩ [] s).splitOn '\n' =
      cutFirst (fun l => l.head?.any p) (List.dropWhile p) false (s.splitOn '\n') := by
  rw [Takes.sub_eq (p := p) takes_plus]
  refine splitOn_of_lines (G := subFrom ⟨true, [.plus p]⟩ [] false) ?_ rfl ?_ ?_ s
  · exact fun l rest hl hrest => subFrom_bol_line hp hl hrest
  · exact fun s => rfl
  · exact fun l hl h => hl ((List.dropWhile_suffix p).subset h)

/-- `sub(/p+$/, '')` cuts the first line that ends with `p`. -/
theorem splitOn_sub_eol (hp : p '\n' = false) (s : List Char) :
    (sub ⟨false, [.plus p, .eol]⟩ [] s).splitOn '\n' =
      cutFirst (fun l => l.getLast?.any p) (List.rdropWhile p) false (s.splitOn '\n') := by
  rw [Takes.sub_eq (p := p) (takes_plus_eol hp)]
  refine splitOn_of_lines (G := subFrom ⟨false, [.plus p, .eol]⟩ [] true) ?_ rfl ?_ ?_ s
  · exact fun l rest hl hrest => subFrom_eol_line hp hl hrest
  · intro s
    have hnone : matched [.plus p, .eol] ('\n' :: s) = none := by
      rw [matched_plus_eol hp, List.takeWhile_cons_of_neg (by simp [hp]), if_pos rfl]
    exact subFrom_of_none true hnone
  · exact fun l hl h => hl ((List.rdropWhile_prefix p l).subset h)

end CutFirst

end Regex
end Ruby
