import Mathlib.Data.Finset.Card
import Mathlib.Data.Finset.Image
import Mathlib.Logic.Function.Basic

/-! Two maps that are inverse to each other where they are set, and what is left over when a
finite set is matched into another one. The value `u` stands for "not set". -/
namespace Matching

variable {α : Type*} {u : α} {f g : α → α}

/-- On values other than `u`, `f a = b` and `g b = a` say the same. -/
def Inverse (u : α) (f g : α → α) : Prop := ∀ a b, a ≠ u → b ≠ u → (f a = b ↔ g b = a)

namespace Inverse

theorem symm (h : Inverse u f g) : Inverse u g f := fun a b ha hb => (h b a hb ha).symm

theorem injective (h : Inverse u f g) {a b : α} (ha : a ≠ u) (hb : b ≠ u) (hf : f a ≠ u)
    (he : f a = f b) : a = b := by
  have hga := (h a (f a) ha hf).mp rfl
  have hgb := (h b (f a) hb hf).mp he.symm
  exact hga.symm.trans hgb

/-- A free pair may be bound. -/
theorem bind [DecidableEq α] (h : Inverse u f g) {a b : α} (hfa : f a = u) (hgb : g b = u) :
    Inverse u (Function.update f a b) (Function.update g b a) := by
  intro x y hx hy
  by_cases hxa : x = a
  · subst hxa
    by_cases hyb : y = b
    · subst hyb
      simp
    · rw [Function.update_self, Function.update_of_ne hyb]
      have hne : ¬ g y = x := fun he => hy (((h x y hx hy).mpr he).symm.trans hfa)
      exact ⟨fun he => absurd he.symm hyb, fun he => absurd he hne⟩
  · rw [Function.update_of_ne hxa]
    by_cases hyb : y = b
    · subst hyb
      rw [Function.update_self]
      have hne : ¬ f x = y := fun he => hx (((h x y hx hy).mp he).symm.trans hgb)
      exact ⟨fun he => absurd he hne, fun he => absurd he.symm hxa⟩
    · rw [Function.update_of_ne hyb]
      exact h x y hx hy

end Inverse

/-- Match the finite set `A` into `B`. The unmatched elements of `B` that lie in `A` are no more
than the matched ones that do not. -/
theorem card_leftover_le [DecidableEq α] {A : Finset α} (B : Finset α) (hf : Set.InjOn f A) :
    ((B \ A.image f) ∩ A).card ≤ (A.image f \ A).card := by
  have himage : (A.image f).card = A.card := Finset.card_image_of_injOn hf
  have hsplit := Finset.card_sdiff_add_card_inter (A.image f) A
  have hdisjoint : Disjoint ((B \ A.image f) ∩ A) (A.image f ∩ A) := by
    rw [Finset.disjoint_left]
    intro x hx hx'
    exact (Finset.mem_sdiff.mp (Finset.mem_inter.mp hx).1).2 (Finset.mem_inter.mp hx').1
  have hunion : ((B \ A.image f) ∩ A) ∪ (A.image f ∩ A) ⊆ A := by
    intro x hx
    rcases Finset.mem_union.mp hx with hx | hx
    · exact (Finset.mem_inter.mp hx).2
    · exact (Finset.mem_inter.mp hx).2
  have hcard := Finset.card_le_card hunion
  rw [Finset.card_union_of_disjoint hdisjoint] at hcard
  omega

end Matching
