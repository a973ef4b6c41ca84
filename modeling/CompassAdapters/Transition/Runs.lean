import Mathlib.Data.List.Basic

/-! Runs of a labelled step function and the rules that carry an invariant along them.
A step that is not enabled yields `none`, and nothing is said about what follows it. -/
namespace Transition

variable {σ α : Type*} (step : σ → α → Option σ)

def run : σ → List α → Option σ
  | s, [] => some s
  | s, a :: as => (step s a).bind fun t => run t as

/-- Every state passed on the way, the first and the last included, satisfies `P`. -/
def Always (P : σ → Prop) : σ → List α → Prop
  | s, [] => P s
  | s, a :: as => P s ∧ ∀ t, step s a = some t → Always P t as

/-- Every enabled action meets `ok` in the state in which it is taken. -/
def Guarded (ok : σ → α → Prop) : σ → List α → Prop
  | _, [] => True
  | s, a :: as => ∀ t, step s a = some t → ok s a ∧ Guarded ok t as

variable {step} {P I : σ → Prop} {ok : σ → α → Prop}

instance Guarded.decidable [∀ s a, Decidable (ok s a)] :
    ∀ s as, Decidable (Guarded step ok s as)
  | _, [] => inferInstanceAs (Decidable True)
  | s, a :: as =>
    match h : step s a with
    | none => .isTrue (by intro t ht; rw [h] at ht; cases ht)
    | some t =>
      have := Guarded.decidable t as
      decidable_of_iff (ok s a ∧ Guarded step ok t as)
        ⟨fun hg t' ht' => by rw [h] at ht'; cases ht'; exact hg, fun hg => hg t h⟩

theorem Always.run_end {s t : σ} {as : List α} (h : Always step P s as)
    (hr : run step s as = some t) : P t := by
  induction as generalizing s with
  | nil =>
    obtain rfl : s = t := by simpa [run] using hr
    exact h
  | cons a as ih =>
    obtain ⟨u, hu, hr⟩ := Option.bind_eq_some_iff.mp hr
    exact ih (h.2 u hu) hr

/-- What every step keeps is kept by a run. -/
theorem run_keeps (hstep : ∀ s a t, I s → step s a = some t → I t) {s t : σ} {as : List α}
    (hs : I s) (hr : run step s as = some t) : I t := by
  induction as generalizing s with
  | nil =>
    obtain rfl : s = t := by simpa [run] using hr
    exact hs
  | cons a as ih =>
    obtain ⟨u, hu, hr⟩ := Option.bind_eq_some_iff.mp hr
    exact ih (hstep s a u hs hu) hr

theorem Always.of_guarded
    (hstep : ∀ s a t, I s → ok s a → step s a = some t → I t) (hP : ∀ s, I s → P s)
    {s : σ} {as : List α} (hs : I s) (hg : Guarded step ok s as) : Always step P s as := by
  induction as generalizing s with
  | nil => exact hP s hs
  | cons a as ih =>
    refine ⟨hP s hs, fun t ht => ?_⟩
    obtain ⟨ha, hg⟩ := hg t ht
    exact ih (hstep s a t hs ha ht) hg

/-- When a step taken against the guard leaves `P`, the guard is the exact condition. -/
theorem always_iff_guarded
    (hstep : ∀ s a t, I s → ok s a → step s a = some t → I t) (hP : ∀ s, I s → P s)
    (hbad : ∀ s a t, I s → ¬ ok s a → step s a = some t → ¬ P t)
    {s : σ} {as : List α} (hs : I s) : Always step P s as ↔ Guarded step ok s as := by
  refine ⟨fun h => ?_, Always.of_guarded hstep hP hs⟩
  induction as generalizing s with
  | nil => trivial
  | cons a as ih =>
    intro t ht
    have htail := h.2 t ht
    have ha : ok s a := by
      by_contra hna
      refine hbad s a t hs hna ht ?_
      cases as with
      | nil => exact htail
      | cons b bs => exact htail.1
    exact ⟨ha, ih (hstep s a t hs ha ht) htail⟩

/-- Two conditions on actions that agree where an invariant holds, which one of them preserves. -/
theorem Guarded.congr {ok' : σ → α → Prop}
    (hstep : ∀ s a t, I s → ok s a → step s a = some t → I t)
    (hiff : ∀ s a t, I s → step s a = some t → (ok s a ↔ ok' s a)) {s : σ} {as : List α}
    (hs : I s) : Guarded step ok s as ↔ Guarded step ok' s as := by
  induction as generalizing s with
  | nil => exact Iff.rfl
  | cons a as ih =>
    refine forall₂_congr fun t ht => ?_
    rw [← hiff s a t hs ht]
    exact and_congr_right fun ha => ih (hstep s a t hs ha ht)

section Histories

variable {ε : Type*} {R : List ε → ε → Prop} {es : List ε} {e : ε}

/-- Every event of a history is allowed by those before it. -/
def Past (R : List ε → ε → Prop) (es : List ε) : Prop :=
  ∀ before e after, es = before ++ e :: after → R before e

theorem past_nil : Past R [] := by
  intro before e after h
  exact absurd h.symm (by simp)

theorem Past.concat (h : Past R es) (he : R es e) : Past R (es ++ [e]) := by
  intro before e' after heq
  rcases List.eq_nil_or_concat after with rfl | ⟨after, x, rfl⟩
  · obtain ⟨rfl, hlast⟩ := List.append_inj' heq rfl
    obtain rfl := List.singleton_injective hlast
    exact he
  · rw [List.concat_eq_append, ← List.cons_append, ← List.append_assoc] at heq
    exact h before e' after (List.append_inj' heq rfl).1

end Histories

end Transition
