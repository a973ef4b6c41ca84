import Mathlib.Data.List.DropRight

/-! `strip` and `split` of Ruby on lists of characters. -/
namespace Ruby
namespace Text

/-- What `strip` takes away. -/
def isBlank (c : Char) : Bool := c = ' ' || (9 ≤ c.toNat && c.toNat ≤ 13) || c.toNat = 0

def lstrip (s : List Char) : List Char := s.dropWhile isBlank

def rstrip (s : List Char) : List Char := s.rdropWhile isBlank

def strip (s : List Char) : List Char := lstrip (rstrip s)

/-- `split`, which leaves out empty pieces at the end. -/
def split (c : Char) (s : List Char) : List (List Char) := (s.splitOn c).rdropWhile (· = [])

@[simp] theorem isBlank_space : isBlank ' ' = true := rfl

@[simp] theorem rstrip_nil : rstrip [] = [] := rfl

theorem rdropWhile_cons {α : Type*} (p : α → Bool) (c : α) (s : List α) :
    (c :: s).rdropWhile p =
      if p c = true ∧ s.rdropWhile p = [] then [] else c :: s.rdropWhile p := by
  induction s using List.reverseRecOn with
  | nil => by_cases hc : p c = true <;> simp [List.rdropWhile_singleton, hc]
  | append_singleton s d ih =>
    rw [← List.cons_append, List.rdropWhile_concat, List.rdropWhile_concat]
    by_cases hd : p d = true
    · rw [if_pos hd, if_pos hd]
      exact ih
    · rw [if_neg hd, if_neg hd, if_neg]
      · rfl
      · intro h
        exact List.append_ne_nil_of_right_ne_nil s (List.cons_ne_nil d []) h.2

theorem rstrip_cons (c : Char) (s : List Char) :
    rstrip (c :: s) = if isBlank c = true ∧ rstrip s = [] then [] else c :: rstrip s :=
  rdropWhile_cons isBlank c s

theorem rstrip_eq_nil {s : List Char} : rstrip s = [] ↔ ∀ c ∈ s, isBlank c = true :=
  List.rdropWhile_eq_nil_iff

/-- Blanks in front do not matter. -/
theorem strip_append {t : List Char} (ht : ∀ c ∈ t, isBlank c = true) (s : List Char) :
    strip (t ++ s) = strip s := by
  induction t with
  | nil => rfl
  | cons c t ih =>
    obtain ⟨hc, ht⟩ := List.forall_mem_cons.mp ht
    rw [← ih ht, List.cons_append, strip, rstrip_cons]
    split
    next h => rw [strip, h.2]
    next => rw [lstrip, List.dropWhile_cons_of_pos hc, strip, lstrip]

theorem strip_blank {s : List Char} (hs : ∀ c ∈ s, isBlank c = true) : strip s = [] := by
  rw [strip, rstrip_eq_nil.mpr hs]
  rfl

/-- Text that starts with something else is stripped at the end only. -/
theorem strip_cons {c : Char} (hc : isBlank c = false) (s : List Char) :
    strip (c :: s) = c :: rstrip s := by
  rw [strip, rstrip_cons, if_neg (by simp [hc]), lstrip, List.dropWhile_cons_of_neg (by simp [hc])]

theorem rstrip_concat {c : Char} (hc : isBlank c = false) (s : List Char) :
    rstrip (s ++ [c]) = s ++ [c] :=
  List.rdropWhile_concat_neg isBlank s c (by simp [hc])

/-- The last piece of a text ends as the text does. -/
theorem splitOn_concat {c x : Char} (hx : x ≠ c) (s : List Char) :
    ∃ ps p, (s ++ [x]).splitOn c = ps ++ [p ++ [x]] := by
  induction s with
  | nil => exact ⟨[], [], by simpa using List.splitOn_eq_singleton (by simpa using hx.symm)⟩
  | cons y s ih =>
    obtain ⟨ps, p, hs⟩ := ih
    rw [List.cons_append, List.splitOn_cons_eq_if_modifyHead, hs]
    split
    next => exact ⟨[] :: ps, p, rfl⟩
    next =>
      cases ps with
      | nil => exact ⟨[], y :: p, rfl⟩
      | cons q ps => exact ⟨(y :: q) :: ps, p, rfl⟩

/-- A text ends as its last piece does, if not with the separator. -/
theorem getLast?_splitOn {c x : Char} (hx : x ≠ c) {s : List Char} :
    s.getLast? = some x ↔ (s.splitOn c).getLast?.bind List.getLast? = some x := by
  rcases List.eq_nil_or_concat s with rfl | ⟨s, y, rfl⟩
  · simp
  · rw [List.concat_eq_append, List.getLast?_concat]
    by_cases hy : y = c
    · rw [hy, List.splitOn_append_cons_self, List.splitOn_nil, List.getLast?_concat]
      exact iff_of_false (fun h => hx (Option.some.inj h).symm) (by simp)
    · obtain ⟨ps, p, hs⟩ := splitOn_concat hy s
      rw [hs, List.getLast?_concat, Option.bind_some, List.getLast?_concat]

/-- A piece has no separator in it. -/
theorem notMem_of_mem_splitOn {c : Char} {s p : List Char} (hp : p ∈ s.splitOn c) : c ∉ p := by
  induction s generalizing p with
  | nil =>
    rw [List.splitOn_nil, List.mem_singleton] at hp
    rw [hp]
    exact List.not_mem_nil
  | cons x s ih =>
    rw [List.splitOn_cons_eq_if_modifyHead] at hp
    split at hp
    next =>
      rcases List.mem_cons.mp hp with rfl | hp
      · exact List.not_mem_nil
      · exact ih hp
    next hx =>
      cases hs : s.splitOn c with
      | nil => exact absurd hs (List.splitOn_ne_nil c s)
      | cons q qs =>
        rw [hs, List.modifyHead_cons] at hp
        rcases List.mem_cons.mp hp with rfl | hp
        · have hq : c ∉ q := ih (hs ▸ List.mem_cons_self)
          have hne : c ≠ x := fun h => hx (beq_iff_eq.mpr h.symm)
          exact List.not_mem_cons_of_ne_of_not_mem hne hq
        · exact ih (hs ▸ List.mem_cons_of_mem q hp)

/-- The pieces of a text with blanks around it are the pieces of the text, but for blanks. -/
theorem map_strip_splitOn {c : Char} (hc : isBlank c = false) {t u : List Char}
    (ht : ∀ x ∈ t, isBlank x = true) (hu : ∀ x ∈ u, isBlank x = true) (s : List Char) :
    ((t ++ s ++ u).splitOn c).map strip = (s.splitOn c).map strip := by
  have hne {x : Char} (hx : isBlank x = true) : x ≠ c := fun h => by simp [← h, hx] at hc
  have hright (s : List Char) : ((s ++ u).splitOn c).map rstrip = (s.splitOn c).map rstrip := by
    induction s with
    | nil =>
      have hnot : c ∉ u := fun h => hne (hu c h) rfl
      rw [List.nil_append, List.splitOn_eq_singleton hnot, List.splitOn_nil, List.map_singleton,
        List.map_singleton, rstrip_eq_nil.mpr hu]
      rfl
    | cons x s ih =>
      rw [List.cons_append, List.splitOn_cons_eq_if_modifyHead, List.splitOn_cons_eq_if_modifyHead]
      split
      next => rw [List.map_cons, List.map_cons, ih]
      next =>
        cases hsu : (s ++ u).splitOn c with
        | nil => exact absurd hsu (List.splitOn_ne_nil c _)
        | cons p ps =>
          cases hs : s.splitOn c with
          | nil => exact absurd hs (List.splitOn_ne_nil c s)
          | cons q qs =>
            rw [hsu, hs, List.map_cons, List.map_cons, List.cons.injEq] at ih
            rw [List.modifyHead_cons, List.modifyHead_cons, List.map_cons, List.map_cons,
              rstrip_cons, rstrip_cons, ih.1, ih.2]
  have hleft (s : List Char) : ((t ++ s).splitOn c).map strip = (s.splitOn c).map strip := by
    induction t with
    | nil => rfl
    | cons x t ih =>
      obtain ⟨hx, ht⟩ := List.forall_mem_cons.mp ht
      rw [← ih ht, List.cons_append, List.splitOn_cons_eq_if_modifyHead,
        if_neg (by simpa using hne hx)]
      cases hts : (t ++ s).splitOn c with
      | nil => exact absurd hts (List.splitOn_ne_nil c _)
      | cons p ps =>
        have hp : strip (x :: p) = strip p :=
          strip_append (t := [x]) (fun y hy => List.mem_singleton.mp hy ▸ hx) p
        rw [List.modifyHead_cons, List.map_cons, List.map_cons, hp]
  have hstrip (ps : List (List Char)) : ps.map strip = (ps.map rstrip).map lstrip := by
    rw [List.map_map]
    rfl
  rw [List.append_assoc, hleft, hstrip, hright, ← hstrip]

end Text
end Ruby
