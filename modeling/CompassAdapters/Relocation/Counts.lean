import CompassAdapters.Relocation.Moves
import Mathlib.Data.List.Count

/-! How many items each place has after moves that take every item at most once. -/
namespace Relocation

variable {ι ρ : Type*}

/-- No item is at two places. -/
def Placement.Apart (p : Placement ι ρ) : Prop :=
  ∀ r a b, r ∈ p.items a → r ∈ p.items b → a = b

theorem Placement.apart_of_one {p : Placement ι ρ} (a : ι) (h : ∀ b ≠ a, p.items b = []) :
    p.Apart := by
  have honly (r : ρ) (b : ι) (hr : r ∈ p.items b) : b = a := by
    by_contra hne
    rw [h b hne] at hr
    exact absurd hr List.not_mem_nil
  intro r b b' hb hb'
  rw [honly r b hb, honly r b' hb']

/-- Moves to other places that succeed and take each item at most once. -/
structure Single (f : Faults ι ρ) (p : Placement ι ρ) (ms : List (Move ι ρ)) : Prop where
  passes : ∀ m ∈ ms, f.passes m = true
  items : (ms.map Move.item).Nodup
  present : ∀ m ∈ ms, m.item ∈ p.items m.source
  away : ∀ m ∈ ms, m.source ≠ m.target

variable [DecidableEq ι] [DecidableEq ρ] {f : Faults ι ρ} {p : Placement ι ρ} {m : Move ι ρ}
  {ms : List (Move ι ρ)}

theorem mem_move_of_passes (hpass : f.passes m = true) {r : ρ} {a : ι} :
    r ∈ (f.move m p).items a ↔
      (r ∈ p.items a ∧ ¬ (m.item = r ∧ m.source = a)) ∨ (m.item = r ∧ m.target = a) := by
  have hremove : f.remove m = false := by
    rw [Faults.passes, Bool.and_eq_true, Bool.not_eq_true'] at hpass
    exact hpass.1
  rw [mem_move]
  simp only [hremove, hpass, and_true]

theorem Placement.Apart.move (h : p.Apart) (hpass : f.passes m = true)
    (hpresent : m.item ∈ p.items m.source) : (f.move m p).Apart := by
  intro r a b ha hb
  rw [mem_move_of_passes hpass] at ha hb
  rcases ha with ⟨ha, hkeep⟩ | ⟨rfl, rfl⟩
  · rcases hb with ⟨hb, -⟩ | ⟨rfl, rfl⟩
    · exact h r a b ha hb
    · exact absurd ⟨rfl, h _ _ _ hpresent ha⟩ hkeep
  · rcases hb with ⟨hb, hkeep⟩ | ⟨-, rfl⟩
    · exact absurd ⟨rfl, h _ _ _ hpresent hb⟩ hkeep
    · rfl

/-- The source has what is there after the move, and the item. -/
theorem perm_source (hpass : f.passes m = true) (hpresent : m.item ∈ p.items m.source)
    (haway : m.source ≠ m.target) :
    (m.item :: (f.move m p).items m.source).Perm (p.items m.source) := by
  have hmem (r : ρ) := mem_move_of_passes (p := p) hpass (r := r) (a := m.source)
  have hgone : m.item ∉ (f.move m p).items m.source := by
    rw [hmem]
    rintro (⟨-, hkeep⟩ | ⟨-, heq⟩)
    · exact hkeep ⟨rfl, rfl⟩
    · exact haway heq.symm
  rw [List.perm_ext_iff_of_nodup (((f.move m p).nodup m.source).cons hgone) (p.nodup m.source)]
  intro r
  rw [List.mem_cons, hmem]
  constructor
  · rintro (rfl | ⟨hr, -⟩ | ⟨-, heq⟩)
    · exact hpresent
    · exact hr
    · exact absurd heq.symm haway
  · intro hr
    by_cases hitem : m.item = r
    · exact Or.inl hitem.symm
    · exact Or.inr (Or.inl ⟨hr, fun hboth => hitem hboth.1⟩)

/-- After the move the target has the item besides what was there. -/
theorem perm_target (h : p.Apart) (hpass : f.passes m = true)
    (hpresent : m.item ∈ p.items m.source) (haway : m.source ≠ m.target) :
    ((f.move m p).items m.target).Perm (m.item :: p.items m.target) := by
  have hnew : m.item ∉ p.items m.target := fun htarget => haway (h _ _ _ hpresent htarget)
  rw [List.perm_ext_iff_of_nodup ((f.move m p).nodup m.target) ((p.nodup m.target).cons hnew)]
  intro r
  rw [List.mem_cons, mem_move_of_passes hpass]
  constructor
  · rintro (⟨hr, -⟩ | ⟨rfl, -⟩)
    · exact Or.inr hr
    · exact Or.inl rfl
  · rintro (rfl | hr)
    · exact Or.inr ⟨rfl, rfl⟩
    · exact Or.inl ⟨hr, fun hboth => haway hboth.2⟩

/-- A move takes one item from its source and gives one to its target. -/
theorem length_move (h : p.Apart) (hpass : f.passes m = true)
    (hpresent : m.item ∈ p.items m.source) (haway : m.source ≠ m.target) (a : ι) :
    ((f.move m p).items a).length + (if m.source = a then 1 else 0) =
      (p.items a).length + (if m.target = a then 1 else 0) := by
  by_cases hsource : m.source = a
  · subst hsource
    rw [if_pos rfl, if_neg haway.symm, ← (perm_source hpass hpresent haway).length_eq]
    rfl
  · rw [if_neg hsource, Nat.add_zero]
    by_cases htarget : m.target = a
    · subst htarget
      rw [if_pos rfl, (perm_target h hpass hpresent haway).length_eq]
      rfl
    · have hsame : (f.moveAll [m] p).items a = p.items a := by
        apply moveAll_items
        intro n hn
        obtain rfl := List.mem_singleton.mp hn
        exact ⟨hsource, htarget⟩
      rw [if_neg htarget, Nat.add_zero]
      exact congrArg List.length hsame

/-- The moves after the first one start from where that one leads to. -/
theorem Single.tail (h : Single f p (m :: ms)) : Single f (f.move m p) ms where
  passes n hn := h.passes n (List.mem_cons_of_mem m hn)
  items := (List.nodup_cons.mp h.items).2
  present n hn := by
    rw [mem_move_of_passes (h.passes m List.mem_cons_self)]
    refine Or.inl ⟨h.present n (List.mem_cons_of_mem m hn), fun hboth => ?_⟩
    exact (List.nodup_cons.mp h.items).1 (hboth.1 ▸ List.mem_map_of_mem hn)
  away n hn := h.away n (List.mem_cons_of_mem m hn)

theorem length_moveAll (hapart : p.Apart) (h : Single f p ms) (a : ι) :
    ((f.moveAll ms p).items a).length + ms.countP (fun m => m.source = a) =
      (p.items a).length + ms.countP (fun m => m.target = a) := by
  induction ms generalizing p with
  | nil => rfl
  | cons m ms ih =>
    have hpass := h.passes m List.mem_cons_self
    have hpresent := h.present m List.mem_cons_self
    have hfirst := length_move hapart hpass hpresent (h.away m List.mem_cons_self) a
    have hrest := ih (hapart.move hpass hpresent) h.tail
    rw [moveAll_cons, List.countP_cons, List.countP_cons]
    simp only [decide_eq_true_eq]
    omega

/-- Each item is moved from where it is at that moment. -/
theorem Single.hosted {ns : List (Move ι ρ)} (h : Single f p (ms ++ m :: ns)) :
    m.item ∈ (f.moveAll ms p).items m.source := by
  induction ms generalizing p with
  | nil => exact h.present m List.mem_cons_self
  | cons first ms ih => exact ih h.tail

end Relocation
