import Mathlib.Data.List.Basic
import Mathlib.Order.Monotone.Defs

/-! Rules for what a list of steps leads to, one phase after another. Steps are total. Where they
never take anything away, what a phase has brought about is there after the later ones. -/
namespace Transition

variable {σ ρ α : Type*} (apply : σ → ρ → σ)

/-- From every state with `P`, the steps lead to one with `Q`. -/
def Leads (P : σ → Prop) (rs : List ρ) (Q : σ → Prop) : Prop := ∀ s, P s → Q (rs.foldl apply s)

variable {apply} {P P' Q Q' R : σ → Prop} {rs rs' : List ρ}

theorem Leads.weaken (h : Leads apply P rs Q) (hP : ∀ s, P' s → P s) (hQ : ∀ s, Q s → Q' s) :
    Leads apply P' rs Q' := fun s hs => hQ _ (h s (hP s hs))

theorem Leads.append (h : Leads apply P rs Q) (h' : Leads apply Q rs' R) :
    Leads apply P (rs ++ rs') R := by
  intro s hs
  rw [List.foldl_append]
  exact h' _ (h s hs)

theorem Leads.cons {r : ρ} (h : ∀ s, P s → Q (apply s r)) (h' : Leads apply Q rs R) :
    Leads apply P (r :: rs) R := fun s hs => h' _ (h s hs)

section Growing

variable [Preorder σ] (hgrows : ∀ s r, s ≤ apply s r)
include hgrows

theorem le_foldl (s : σ) : s ≤ rs.foldl apply s := by
  induction rs generalizing s with
  | nil => exact le_rfl
  | cons r rs ih => exact (hgrows s r).trans (ih (apply s r))

/-- What can only come about stays. -/
theorem Leads.frame (h : Leads apply P rs Q) (hR : Monotone R) :
    Leads apply (fun s => P s ∧ R s) rs (fun s => Q s ∧ R s) :=
  fun s hs => ⟨h s hs.1, hR (le_foldl hgrows s) hs.2⟩

/-- A loop that keeps an invariant and brings something about for each item. -/
theorem Leads.each {items : List α} {body : α → List ρ} {D : α → σ → Prop}
    (hD : ∀ x, Monotone (D x))
    (hbody : ∀ x ∈ items, Leads apply P (body x) fun s => P s ∧ D x s) :
    Leads apply P (items.flatMap body) fun s => P s ∧ ∀ x ∈ items, D x s := by
  induction items with
  | nil => exact fun s hs => ⟨hs, fun x hx => absurd hx List.not_mem_nil⟩
  | cons x items ih =>
    obtain ⟨hfirst, hrest⟩ := List.forall_mem_cons.mp hbody
    rw [List.flatMap_cons]
    refine hfirst.append (((ih hrest).frame hgrows (hD x)).weaken (fun _ hs => hs) ?_)
    rintro s ⟨⟨hs, hitems⟩, hx⟩
    exact ⟨hs, List.forall_mem_cons.mpr ⟨hx, hitems⟩⟩

theorem Leads.map {items : List α} {f : α → ρ} {D : α → σ → Prop} (hD : ∀ x, Monotone (D x))
    (hstep : ∀ x ∈ items, ∀ s, P s → P (apply s (f x)) ∧ D x (apply s (f x))) :
    Leads apply P (items.map f) fun s => P s ∧ ∀ x ∈ items, D x s := by
  rw [List.map_eq_flatMap]
  exact Leads.each hgrows hD hstep

end Growing

end Transition
