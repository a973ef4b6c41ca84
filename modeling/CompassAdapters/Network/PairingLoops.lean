import CompassAdapters.Network.KickstartMapping
import CompassAdapters.Network.SuseMapping

/-! The loops of the kickstart and SUSE scripts that pair two sorted arrays: how often they go
round, and what they store. -/
namespace CompassAdapters.Network
open Shell Matching Pairing

namespace Kickstart

/-- The body of the loop over the names without a partner, the cards to the left. -/
def bindUnset : String → String → Vars → Except Vars Vars :=
  tryStrike fun maps p l => maps.bind l p

/-- The logical interface is to be mapped to the card. -/
def wantUnset : String → String → Vars → Vars := strike fun maps p l => maps.bind l p

/-- The body of the loop over the remaining logical interfaces and the available names. -/
def bindRemainingLogical : String → String → Vars → Except Vars Vars :=
  tryStrike fun maps l available => maps.bind l available

/-- The logical interface is to be mapped to the available name. -/
def wantRemainingLogical : String → String → Vars → Vars :=
  strike fun maps l available => maps.bind l available

/-- The body of the loop over the remaining cards and the available names. -/
def bindRemainingPhysical : String → String → Vars → Except Vars Vars :=
  tryStrike fun maps p available => maps.bind p available

/-- What a round of it stores. -/
def storeRemainingPhysical : String → String → Vars → Vars :=
  strike fun maps p available => maps.bind p available

/-- The available name is a logical interface to be mapped to the card. -/
def wantRemainingPhysical : String → String → Vars → Vars :=
  strike fun maps p available => maps.bind available p

/-- The first of them is the loop of the mapping phases. -/
theorem mapInterfaces_loop (b : Bash) (fuel : ℕ) (nics : List Nic) (interfaces : List Interface) :
    ∃ ps ls v rest, mapInterfaces b fuel nics interfaces =
      (Pairing.loop bindUnset fuel (Pairing.ofWords ps ls v)).bind rest :=
  ⟨_, _, _, _, rfl⟩

/-- These are the loops of the two phases for the names left over. -/
theorem spread_loops (b : Bash) (fuel : ℕ) (names : AssocArray) {rest : IndexedArray}
    (unset : AssocArray) (maps : Maps) (h : 0 < rest.count) :
    (∃ xs ys v, spreadLogical b fuel names rest unset maps =
      (Pairing.loop bindRemainingLogical fuel (Pairing.ofWords xs ys v)).map
        fun p => p.vars.maps) ∧
    ∃ xs ys v, spreadPhysical b fuel names rest unset maps =
      (Pairing.loop bindRemainingPhysical fuel (Pairing.ofWords xs ys v)).map
        fun p => p.vars.maps :=
  ⟨⟨_, _, _, if_pos h⟩, _, _, _, if_pos h⟩

instance nonempty_vars : Nonempty Vars := ⟨⟨⟨∅, ∅⟩, ∅, ∅⟩⟩

/-- The last loop stores its pair the other way round. -/
theorem storeRemainingPhysical_eq_iff {x y : String} (hx : x ≠ "") (hy : y ≠ "") :
    (∀ v, storeRemainingPhysical x y v = wantRemainingPhysical x y v) ↔ x = y := by
  constructor
  · intro h
    by_contra hne
    have hget := congrArg (fun v : Vars => v.maps.logical_interface_mapping.get x)
      (h ⟨⟨∅, ∅⟩, ∅, ∅⟩)
    have hleft : ((∅ : AssocArray).assign x y).get x = y := by
      rw [AssocArray.get_assign _ hx, Function.update_self]
    have hright : ((∅ : AssocArray).assign y x).get x = "" := by
      rw [AssocArray.get_assign _ hy, Function.update_of_ne hne]
      rfl
    exact hy (hleft.symm.trans (hget.trans hright))
  · rintro rfl v
    rfl

end Kickstart

namespace Suse

/-- The body of the loop of `pairUnset`. -/
def bindUnset (p l : String) (k : Links String) : Except (Links String) (Links String) :=
  .ok (k.bind l p)

/-- The logical interface is to be mapped to the card. -/
def wantUnset (p l : String) (k : Links String) : Links String := k.bind l p

theorem pairUnset_eq (fuel : ℕ) (ps ls : List String) (k : Links String) :
    pairUnset fuel ps ls k = Pairing.loop bindUnset fuel (Pairing.ofWords ps ls k) := rfl

instance nonempty_links : Nonempty (Links String) := ⟨Links.unset ""⟩

end Suse

section Order
open Kickstart

variable {xs ys : List String}

/-- The four loops end after as many rounds as the shorter list has elements just when one of the
lists has no second element. They have then stored the `i`-th pair for each `i`, but for the last
one of the kickstart script, which does so only for equal names. -/
theorem pairing_loops_iff (hxs : ∀ x ∈ xs, x ≠ "") (hys : ∀ y ∈ ys, y ≠ "") :
    (InOrder bindUnset wantUnset xs ys ↔ ¬ (2 ≤ xs.length ∧ 2 ≤ ys.length)) ∧
    (InOrder bindRemainingLogical wantRemainingLogical xs ys ↔
      ¬ (2 ≤ xs.length ∧ 2 ≤ ys.length)) ∧
    (InOrder bindRemainingPhysical storeRemainingPhysical xs ys ↔
      ¬ (2 ≤ xs.length ∧ 2 ≤ ys.length)) ∧
    (InOrder bindRemainingPhysical wantRemainingPhysical xs ys ↔
      ¬ (2 ≤ xs.length ∧ 2 ≤ ys.length) ∧ ∀ x ∈ xs.head?, ∀ y ∈ ys.head?, x = y) ∧
    (InOrder Suse.bindUnset Suse.wantUnset xs ys ↔ ¬ (2 ≤ xs.length ∧ 2 ≤ ys.length)) := by
  have hown {σ : Type} [Nonempty σ] {assign : String → String → σ → Except σ σ}
      {f : String → String → σ → σ} (hdoes : Does assign f xs ys) :
      InOrder assign f xs ys ↔ ¬ (2 ≤ xs.length ∧ 2 ≤ ys.length) :=
    (inOrder_iff hdoes f).trans (and_iff_left fun _ => rfl)
  have hstrike (assign : Maps → String → String → Maps) := tryStrike_does assign hxs hys
  refine ⟨hown (hstrike _), hown (hstrike _), hown (hstrike _), ?_,
    hown fun _ _ _ _ _ => rfl⟩
  refine (inOrder_iff (f := storeRemainingPhysical) (hstrike _) wantRemainingPhysical).trans ?_
  apply and_congr_right
  intro hends
  rcases xs with - | ⟨x, xs⟩
  · simp
  rcases ys with - | ⟨y, ys⟩
  · simp
  have hpair : (x :: xs).zip (y :: ys) = [(x, y)] := by
    simp only [List.length_cons] at hends
    rw [List.zip_cons_cons, List.cons_inj_right, List.zip_eq_nil_iff,
      ← List.length_eq_zero_iff, ← List.length_eq_zero_iff (l := ys)]
    omega
  rw [hpair]
  simpa using storeRemainingPhysical_eq_iff (hxs x List.mem_cons_self) (hys y List.mem_cons_self)

/-- One card and two interfaces without a partner. -/
theorem oneCard_inOrder : InOrder bindUnset wantUnset ["eth1"] ["em1", "em2"] ∧
    InOrder Suse.bindUnset Suse.wantUnset ["eth1"] ["em1", "em2"] := by
  have h := @pairing_loops_iff ["eth1"] ["em1", "em2"] (by decide) (by decide)
  exact ⟨h.1.mpr (by decide), h.2.2.2.2.mpr (by decide)⟩

/-- With two cards and two interfaces the loop of the kickstart script is left in its second
round, with the first pair stored only, and that of the SUSE script goes round for ever. The last
loop of the kickstart script stores a single pair the other way round. -/
theorem twoCards_not_inOrder :
    (∀ v, ∃ p, Pairing.loop bindUnset 3 (Pairing.ofWords ["eth0", "eth1"] ["em1", "em2"] v) =
      some p ∧ p.broken = true ∧ p.vars = wantUnset "eth0" "em1" v) ∧
    (∀ fuel k, Pairing.loop Suse.bindUnset fuel
      (Pairing.ofWords ["eth0", "eth1"] ["em1", "em2"] k) = none) ∧
    ¬ InOrder bindUnset wantUnset ["eth0", "eth1"] ["em1", "em2"] ∧
    ¬ InOrder Suse.bindUnset Suse.wantUnset ["eth0", "eth1"] ["em1", "em2"] ∧
    ¬ InOrder bindRemainingPhysical wantRemainingPhysical ["eth0"] ["em1"] := by
  have hwords (xs ys : List String) (hxs : ∀ x ∈ xs, x ≠ "") (hys : ∀ y ∈ ys, y ≠ "")
      (assign : Maps → String → String → Maps) := tryStrike_does assign hxs hys
  have htwo := hwords ["eth0", "eth1"] ["em1", "em2"] (by decide) (by decide)
  refine ⟨fun v => ⟨_, Pairing.loop_breaks (htwo _) (tryStrike_empty _) 0, rfl, rfl⟩,
    fun fuel k => loop_diverges (f := Suse.wantUnset) (fun _ _ _ => rfl) (by decide) fuel,
    ?_, ?_, ?_⟩
  · intro h
    exact ((inOrder_iff (htwo _) wantUnset).mp h).1 (by decide)
  · intro h
    exact ((inOrder_iff (f := Suse.wantUnset) (fun _ _ _ _ _ => rfl) Suse.wantUnset).mp h).1
      (by decide)
  · intro h
    have hone := hwords ["eth0"] ["em1"] (by decide) (by decide)
    have hpair := ((inOrder_iff (hone _) wantRemainingPhysical).mp h).2
    have heq := (storeRemainingPhysical_eq_iff (x := "eth0") (y := "em1") (by decide)
      (by decide)).mp hpair
    exact absurd heq (by decide)

end Order

end CompassAdapters.Network
