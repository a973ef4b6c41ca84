import Mathlib.Data.List.Nodup
import Mathlib.Logic.Function.Basic

/-! Items that are kept at places, and moves in two steps, of which either may fail. -/
namespace Relocation

variable {ι ρ : Type*}

/-- What is kept at each place, each item once. -/
@[ext] structure Placement (ι ρ : Type*) where
  items : ι → List ρ
  nodup : ∀ a, (items a).Nodup

structure Move (ι ρ : Type*) where
  item : ρ
  source : ι
  target : ι
  deriving DecidableEq

/-- The moves in which the first step fails, and those in which the second one does. -/
structure Faults (ι ρ : Type*) where
  remove : Move ι ρ → Bool
  add : Move ι ρ → Bool

/-- Neither step fails. -/
def Faults.passes (f : Faults ι ρ) (m : Move ι ρ) : Bool := !f.remove m && !f.add m

/-- No item is moved to a place from which it is moved. -/
def Separate (ms : List (Move ι ρ)) : Prop :=
  ∀ m ∈ ms, ∀ n ∈ ms, m.item = n.item → m.target ≠ n.source

/-- What is somewhere stays somewhere, and in one place if it is in one. -/
structure Survives (p q : Placement ι ρ) : Prop where
  somewhere : ∀ r a, r ∈ p.items a → ∃ b, r ∈ q.items b
  once : ∀ r a, (∀ b, r ∈ p.items b ↔ b = a) → ∀ b b', r ∈ q.items b → r ∈ q.items b' → b = b'

theorem Survives.refl (p : Placement ι ρ) : Survives p p where
  somewhere _ a hr := ⟨a, hr⟩
  once _ _ h b b' hb hb' := ((h b).mp hb).trans ((h b').mp hb').symm

/-- Moves that take each item at most once from a place, and from places where it is. -/
structure Valid (p : Placement ι ρ) (ms : List (Move ι ρ)) : Prop where
  separate : Separate ms
  present : ∀ m ∈ ms, m.item ∈ p.items m.source
  unique : ∀ m ∈ ms, ∀ n ∈ ms, m.item = n.item → m.source = n.source → m = n

theorem valid_nil (p : Placement ι ρ) : Valid p [] where
  separate m hm := by cases hm
  present m hm := by cases hm
  unique m hm := by cases hm

variable [DecidableEq ι] [DecidableEq ρ]

namespace Placement

def remove (p : Placement ι ρ) (a : ι) (r : ρ) : Placement ι ρ where
  items := Function.update p.items a ((p.items a).filter fun x => decide (x ≠ r))
  nodup b := by
    by_cases hb : b = a
    · subst hb
      rw [Function.update_self]
      exact (p.nodup b).filter _
    · rw [Function.update_of_ne hb]
      exact p.nodup b

/-- An item that is there already is not added once more. -/
def add (p : Placement ι ρ) (a : ι) (r : ρ) : Placement ι ρ where
  items := Function.update p.items a (if r ∈ p.items a then p.items a else p.items a ++ [r])
  nodup b := by
    by_cases hb : b = a
    · subst hb
      rw [Function.update_self]
      split
      next => exact p.nodup b
      next hr =>
        rw [← List.concat_eq_append]
        exact (p.nodup b).concat hr
    · rw [Function.update_of_ne hb]
      exact p.nodup b

variable {p : Placement ι ρ} {a b : ι} {r s : ρ}

theorem mem_remove : s ∈ (p.remove a r).items b ↔ s ∈ p.items b ∧ ¬ (b = a ∧ s = r) := by
  by_cases hb : b = a
  · subst hb
    simp [remove]
  · simp [remove, hb]

theorem mem_add : s ∈ (p.add a r).items b ↔ s ∈ p.items b ∨ (b = a ∧ s = r) := by
  by_cases hb : b = a
  · subst hb
    by_cases hr : r ∈ p.items b
    · simp only [add, Function.update_self, if_pos hr, true_and]
      exact ⟨Or.inl, fun h => h.elim id fun he => he ▸ hr⟩
    · simp [add, hr]
  · simp [add, hb]

end Placement

/-- A move ends where it fails. -/
def Faults.move (f : Faults ι ρ) (m : Move ι ρ) (p : Placement ι ρ) : Placement ι ρ :=
  if f.remove m then p
  else if f.add m then p.remove m.source m.item
  else (p.remove m.source m.item).add m.target m.item

def Faults.moveAll (f : Faults ι ρ) (ms : List (Move ι ρ)) (p : Placement ι ρ) : Placement ι ρ :=
  ms.foldl (fun p m => f.move m p) p

variable {f : Faults ι ρ} {ms : List (Move ι ρ)} {p : Placement ι ρ} {a : ι} {r : ρ}

theorem mem_move {m : Move ι ρ} : r ∈ (f.move m p).items a ↔
    (r ∈ p.items a ∧ ¬ (m.item = r ∧ m.source = a ∧ f.remove m = false)) ∨
      (m.item = r ∧ m.target = a ∧ f.passes m = true) := by
  rw [Faults.move, Faults.passes]
  cases hremove : f.remove m with
  | true => simp
  | false =>
    cases hadd : f.add m with
    | true =>
      simp only [Bool.false_eq_true, if_false, if_true, Placement.mem_remove, Bool.not_true,
        Bool.and_false, and_false, or_false, and_true]
      rw [and_comm (a := a = m.source), eq_comm (a := a), eq_comm (a := r)]
    | false =>
      simp only [Bool.false_eq_true, if_false, Placement.mem_add, Placement.mem_remove,
        Bool.not_false, Bool.and_true, and_true]
      rw [and_comm (a := a = m.source), eq_comm (a := a), eq_comm (a := r),
        and_comm (a := a = m.target), eq_comm (a := a)]

@[simp] theorem moveAll_nil (f : Faults ι ρ) (p : Placement ι ρ) : f.moveAll [] p = p := rfl

theorem moveAll_cons (f : Faults ι ρ) (m : Move ι ρ) (ms : List (Move ι ρ)) (p : Placement ι ρ) :
    f.moveAll (m :: ms) p = f.moveAll ms (f.move m p) := rfl

theorem moveAll_append (f : Faults ι ρ) (ms ns : List (Move ι ρ)) (p : Placement ι ρ) :
    f.moveAll (ms ++ ns) p = f.moveAll ns (f.moveAll ms p) := List.foldl_append

/-- Moves between other places do not matter for a place. -/
theorem moveAll_items (h : ∀ m ∈ ms, m.source ≠ a ∧ m.target ≠ a) :
    (f.moveAll ms p).items a = p.items a := by
  induction ms generalizing p with
  | nil => rfl
  | cons m ms ih =>
    obtain ⟨⟨hsource, htarget⟩, h⟩ := List.forall_mem_cons.mp h
    rw [moveAll_cons, ih h, Faults.move]
    split
    next => rfl
    next =>
      have hremove : (p.remove m.source m.item).items a = p.items a :=
        Function.update_of_ne hsource.symm _ _
      split
      next => exact hremove
      next => exact (Function.update_of_ne htarget.symm _ _).trans hremove

/-- What is where after some moves: what was there and was not removed, and what was moved there. -/
theorem mem_moveAll (h : Separate ms) : r ∈ (f.moveAll ms p).items a ↔
    (r ∈ p.items a ∧ ∀ m ∈ ms, m.item = r → m.source = a → f.remove m = true) ∨
      ∃ m ∈ ms, m.item = r ∧ m.target = a ∧ f.passes m = true := by
  induction ms generalizing p with
  | nil => simp [Faults.moveAll]
  | cons m ms ih =>
    have hms : Separate ms := fun n hn n' hn' =>
      h n (List.mem_cons_of_mem m hn) n' (List.mem_cons_of_mem m hn')
    rw [moveAll_cons, ih hms, mem_move]
    constructor
    · rintro (⟨⟨hr, hkeep⟩ | ⟨hitem, htarget, hpass⟩, hrest⟩ | ⟨n, hn, hmoved⟩)
      · left
        refine ⟨hr, List.forall_mem_cons.mpr ⟨fun hitem hsource => ?_, hrest⟩⟩
        cases hremove : f.remove m with
        | true => rfl
        | false => exact absurd ⟨hitem, hsource, hremove⟩ hkeep
      · exact Or.inr ⟨m, List.mem_cons_self, hitem, htarget, hpass⟩
      · exact Or.inr ⟨n, List.mem_cons_of_mem m hn, hmoved⟩
    · rintro (⟨hr, hkeep⟩ | ⟨n, hn, hitem, htarget, hpass⟩)
      · obtain ⟨hfirst, hrest⟩ := List.forall_mem_cons.mp hkeep
        refine Or.inl ⟨Or.inl ⟨hr, ?_⟩, hrest⟩
        rintro ⟨hitem, hsource, hremove⟩
        rw [hfirst hitem hsource] at hremove
        cases hremove
      · rcases List.mem_cons.mp hn with rfl | hn
        · -- what is moved to a place is not removed from it later
          refine Or.inl ⟨Or.inr ⟨hitem, htarget, hpass⟩, fun n' hn' hitem' hsource' => ?_⟩
          exact absurd (htarget.trans hsource'.symm)
            (h n List.mem_cons_self n' (List.mem_cons_of_mem n hn') (hitem.trans hitem'.symm))
        · exact Or.inr ⟨n, hn, hitem, htarget, hpass⟩

/-- Every item survives just when each one is somewhere from where it is not moved, or where the
first step of the move fails, or the second one does not. -/
theorem survives_moveAll_iff (h : Valid p ms) : Survives p (f.moveAll ms p) ↔
    ∀ r a, r ∈ p.items a → ∃ b, r ∈ p.items b ∧
      ∀ m ∈ ms, m.item = r → m.source = b → f.remove m = true ∨ f.add m = false := by
  constructor
  · intro hsurvives r a hr
    obtain ⟨b, hb⟩ := hsurvives.somewhere r a hr
    rcases (mem_moveAll h.separate).mp hb with ⟨hb, hkeep⟩ | ⟨m, hm, hitem, -, hpass⟩
    · exact ⟨b, hb, fun m hm hitem hsource => Or.inl (hkeep m hm hitem hsource)⟩
    · refine ⟨m.source, hitem ▸ h.present m hm, fun n hn hitem' hsource => ?_⟩
      obtain rfl := h.unique n hn m hm (hitem'.trans hitem.symm) hsource
      rw [Faults.passes, Bool.and_eq_true, Bool.not_eq_true', Bool.not_eq_true'] at hpass
      exact Or.inr hpass.2
  · intro hsafe
    refine ⟨fun r a hr => ?_, fun r a honce b b' hb hb' => ?_⟩
    · obtain ⟨b, hb, hmoves⟩ := hsafe r a hr
      by_cases hkeep : ∀ m ∈ ms, m.item = r → m.source = b → f.remove m = true
      · exact ⟨b, (mem_moveAll h.separate).mpr (Or.inl ⟨hb, hkeep⟩)⟩
      · push Not at hkeep
        obtain ⟨m, hm, hitem, hsource, hremove⟩ := hkeep
        have hadd := (hmoves m hm hitem hsource).resolve_left hremove
        refine ⟨m.target, (mem_moveAll h.separate).mpr (Or.inr ⟨m, hm, hitem, rfl, ?_⟩)⟩
        rw [Faults.passes, hadd, Bool.eq_false_iff.mpr hremove]
        rfl
    · rw [mem_moveAll h.separate] at hb hb'
      have hfrom (m : Move ι ρ) (hm : m ∈ ms) (hitem : m.item = r) : m.source = a :=
        (honce m.source).mp (hitem ▸ h.present m hm)
      have hmoved (m : Move ι ρ) (hpass : f.passes m = true) : f.remove m ≠ true := by
        rw [Faults.passes, Bool.and_eq_true, Bool.not_eq_true'] at hpass
        rw [hpass.1]
        exact Bool.false_ne_true
      rcases hb with ⟨hb, hkeep⟩ | ⟨m, hm, hitem, htarget, hpass⟩
      · rcases hb' with ⟨hb', -⟩ | ⟨m, hm, hitem, -, hpass⟩
        · exact ((honce b).mp hb).trans ((honce b').mp hb').symm
        · have hsource : m.source = b := (hfrom m hm hitem).trans ((honce b).mp hb).symm
          exact absurd (hkeep m hm hitem hsource) (hmoved m hpass)
      · rcases hb' with ⟨hb', hkeep⟩ | ⟨n, hn, hitem', htarget', -⟩
        · have hsource : m.source = b' := (hfrom m hm hitem).trans ((honce b').mp hb').symm
          exact absurd (hkeep m hm hitem hsource) (hmoved m hpass)
        · obtain rfl := h.unique m hm n hn (hitem.trans hitem'.symm)
            ((hfrom m hm hitem).trans (hfrom n hn hitem').symm)
          exact htarget.symm.trans htarget'

/-- An item that is in one place stays in one, when each of its moves that begins also ends. -/
theorem Valid.existsUnique (h : Valid p ms)
    (hends : ∀ m ∈ ms, m.item = r → f.remove m = true ∨ f.add m = false)
    (hr : ∃! a, r ∈ p.items a) : ∃! a, r ∈ (f.moveAll ms p).items a := by
  obtain ⟨a, ha, honce⟩ := hr
  have hsource (m : Move ι ρ) (hm : m ∈ ms) (hitem : m.item = r) : m.source = a :=
    honce _ (hitem ▸ h.present m hm)
  by_cases hkeep : ∀ m ∈ ms, m.item = r → f.remove m = true
  · refine ⟨a, (mem_moveAll h.separate).mpr (Or.inl ⟨ha, fun m hm hi _ => hkeep m hm hi⟩), ?_⟩
    intro b hb
    rcases (mem_moveAll h.separate).mp hb with ⟨hb, -⟩ | ⟨m, hm, hitem, -, hpass⟩
    · exact honce b hb
    · rw [Faults.passes, hkeep m hm hitem] at hpass
      cases hpass
  · push Not at hkeep
    obtain ⟨m, hm, hitem, hremove⟩ := hkeep
    have hremove := Bool.eq_false_iff.mpr hremove
    have hpass : f.passes m = true := by
      rw [Faults.passes, hremove, (hends m hm hitem).resolve_left (by rw [hremove]; decide)]
      rfl
    refine ⟨m.target, (mem_moveAll h.separate).mpr (Or.inr ⟨m, hm, hitem, rfl, hpass⟩), ?_⟩
    intro b hb
    rcases (mem_moveAll h.separate).mp hb with ⟨hb, hstays⟩ | ⟨n, hn, hitem', rfl, -⟩
    · obtain rfl := honce b hb
      rw [hstays m hm hitem (hsource m hm hitem)] at hremove
      cases hremove
    · exact congrArg Move.target (h.unique n hn m hm (hitem'.trans hitem.symm)
        ((hsource n hn hitem').trans (hsource m hm hitem).symm))

end Relocation
