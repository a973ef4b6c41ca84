import CompassAdapters.Matching.Links
import CompassAdapters.Network.Interfaces
import CompassAdapters.Shell.Collation

/-! What both network scripts store: the links by address, by equal names and by the order of
the names that are left, and the names that remain after that. -/
namespace CompassAdapters.Network.Machine
open Shell Matching

variable (m : Machine)

/-- A logical interface and a card have the name `x`, and neither is bound by an address. -/
def SameName (x : String) : Prop :=
  x ∈ m.logical ∧ x ∈ m.physical ∧ m.boundTo x = "" ∧ m.owner x = ""

instance : DecidablePred m.SameName := fun x => by
  unfold SameName
  infer_instance

/-- The links by address. -/
def declared : Links String := ⟨m.boundTo, m.owner⟩

/-- The logical interfaces whose address is that of a card, with the card. -/
def addressed : List (String × String) :=
  ((entries m.interfaces).map fun e => (e.1, m.card e.2)).filter fun x => x.2 ≠ ""

/-- The links by address and by equal names. -/
def named : Links String where
  toRight l := if m.SameName l then l else m.boundTo l
  toLeft p := if m.SameName p then p else m.owner p

/-- The logical interfaces without a card. -/
def unsetLogical : List String :=
  m.logical.filter fun l => decide (m.boundTo l = "" ∧ ¬ m.SameName l)

/-- The cards without a logical interface. -/
def unsetPhysical : List String :=
  m.physical.filter fun p => decide (m.owner p = "" ∧ ¬ m.SameName p)

/-- Links that are inverse to each other and keep the declared ones. -/
structure Kept (k : Links String) : Prop where
  inverse : Inverse "" k.toRight k.toLeft
  kept : ∀ l, m.boundTo l ≠ "" → k.toRight l = m.boundTo l
  right_empty : k.toRight "" = ""

/-- Such links between logical interfaces and cards only. -/
structure Matched (k : Links String) : Prop extends m.Kept k where
  right_mem : ∀ l, k.toRight l ≠ "" → l ∈ m.logical ∧ k.toRight l ∈ m.physical
  left_mem : ∀ p, k.toLeft p ≠ "" → p ∈ m.physical ∧ k.toLeft p ∈ m.logical

variable {m}

theorem logical_nodup : m.logical.Nodup := m.entries_nodup

theorem physical_nodup : m.physical.Nodup := m.nics_nodup

theorem mem_addressed {x : String × String} : x ∈ m.addressed ↔
    ∃ e ∈ entries m.interfaces, m.card e.2 ≠ "" ∧ x = (e.1, m.card e.2) := by
  rw [addressed, List.mem_filter, List.mem_map, decide_eq_true_eq]
  constructor
  · rintro ⟨⟨e, he, rfl⟩, hne⟩
    exact ⟨e, he, hne, rfl⟩
  · rintro ⟨e, he, hne, rfl⟩
    exact ⟨⟨e, he, rfl⟩, hne⟩

theorem addressed_fresh : (Links.unset "").Fresh "" m.addressed := by
  refine ⟨fun _ _ => rfl, fun _ _ => rfl, ?_, ?_⟩
  · have hsub : (m.addressed.map Prod.fst).Sublist m.logical := by
      have h := (List.filter_sublist (p := fun x : String × String => decide (x.2 ≠ ""))
        (l := (entries m.interfaces).map fun e => (e.1, m.card e.2))).map Prod.fst
      rwa [List.map_map] at h
    exact logical_nodup.sublist hsub
  · rw [List.nodup_map_iff_inj_on]
    · intro x hx y hy he
      obtain ⟨e, hmem, hne, rfl⟩ := mem_addressed.mp hx
      obtain ⟨e', hmem', -, rfl⟩ := mem_addressed.mp hy
      rw [entry_eq_of_card hmem hmem' hne he]
    · apply List.Nodup.filter
      rw [List.nodup_map_iff_inj_on]
      · intro e he e' he' h
        exact List.inj_on_of_nodup_map m.entries_nodup he he' (Prod.ext_iff.mp h).1
      · exact List.Nodup.of_map _ m.entries_nodup

/-- Storing each address that is found stores the declared links. -/
theorem bindAll_addressed : (Links.unset "").bindAll m.addressed = m.declared := by
  apply Links.ext
  · funext l
    rcases Links.bindAll_cases (addressed_fresh (m := m)) l with ⟨x, hx, rfl, hval⟩ | ⟨hnot, hval⟩
    · obtain ⟨e, he, -, rfl⟩ := mem_addressed.mp hx
      rw [hval]
      exact (boundTo_entry he).symm
    · rw [hval]
      by_contra hb
      obtain ⟨e, he, rfl⟩ := List.mem_map.mp (boundTo_mem fun h => hb h.symm).1
      apply hnot
      refine List.mem_map.mpr ⟨(e.1, m.card e.2), mem_addressed.mpr ⟨e, he, ?_, rfl⟩, rfl⟩
      rw [← boundTo_entry he]
      exact fun h => hb h.symm
  · funext p
    change ((Links.unset "").bindAll m.addressed).swap.toRight p = m.owner p
    rw [Links.swap_bindAll]
    rcases Links.bindAll_cases (addressed_fresh (m := m)).swap p with
      ⟨x, hx, rfl, hval⟩ | ⟨hnot, hval⟩
    · obtain ⟨y, hy, rfl⟩ := List.mem_map.mp hx
      obtain ⟨e, he, hne, rfl⟩ := mem_addressed.mp hy
      rw [hval]
      exact (owner_card he hne).symm
    · rw [hval]
      refine (owner_eq_empty ?_).symm
      rintro e he hp rfl
      apply hnot
      rw [List.map_map]
      exact List.mem_map.mpr ⟨(e.1, m.card e.2), mem_addressed.mpr ⟨e, he, hp, rfl⟩, rfl⟩

/-- The code generated from the configuration stores the declared links, whatever else its state
`σ` holds, when the code of one entry binds the card of its address if there is one. -/
theorem foldl_declared {σ : Type*} (links : σ → Links String) (step : σ → String × String → σ)
    (hstep : ∀ s, ∀ e ∈ entries m.interfaces, (links s).toRight e.1 = "" →
      links (step s e) =
        if m.card e.2 ≠ "" then (links s).bind e.1 (m.card e.2) else links s)
    (s : σ) (hs : links s = Links.unset "") :
    links ((entries m.interfaces).foldl step s) = m.declared := by
  have hloop (es : List (String × String)) (hsub : ∀ e ∈ es, e ∈ entries m.interfaces)
      (hnodup : (es.map Prod.fst).Nodup) (s : σ) (hunset : ∀ e ∈ es, (links s).toRight e.1 = "") :
      links (es.foldl step s) = (links s).bindAll
        ((es.map fun e => (e.1, m.card e.2)).filter fun x => x.2 ≠ "") := by
    induction es generalizing s with
    | nil => rfl
    | cons e es ih =>
      obtain ⟨he, hsub⟩ := List.forall_mem_cons.mp hsub
      obtain ⟨hu, hunset⟩ := List.forall_mem_cons.mp hunset
      rw [List.map_cons, List.nodup_cons] at hnodup
      have hlinks := hstep s e he hu
      have hunset' : ∀ e' ∈ es, (links (step s e)).toRight e'.1 = "" := by
        intro e' he'
        rw [hlinks]
        split
        next =>
          have hname : e'.1 ≠ e.1 := fun h => hnodup.1 (h ▸ List.mem_map_of_mem he')
          exact (Function.update_of_ne hname _ _).trans (hunset e' he')
        next => exact hunset e' he'
      rw [List.foldl_cons, ih hsub hnodup.2 _ hunset', hlinks, List.map_cons, List.filter_cons]
      by_cases hcard : m.card e.2 = ""
      · simp [hcard]
      · simp [hcard, Links.bindAll_cons]
  rw [← bindAll_addressed, ← hs]
  refine hloop _ (fun _ he => he) m.entries_nodup s fun e _ => ?_
  rw [hs]
  rfl

theorem card_empty : m.card "" = "" := by
  by_contra h
  exact (exists_of_card h).1 rfl

/-- What the loop over equal names tests. -/
def sameNameTest (k : Links String) (x : String) : Bool :=
  decide (k.toRight x = "" ∧ k.toLeft x = "" ∧ x ∈ m.physical)

theorem foldl_sameName {ks : List String} (hks : ks.Perm m.logical) :
    ks.foldl (fun k x => if m.sameNameTest k x then k.bind x x else k) m.declared = m.named := by
  rw [Links.foldl_self _ ks (hks.nodup_iff.mpr logical_nodup)]
  · have htest (x : String) : x ∈ ks.filter (m.sameNameTest m.declared) ↔ m.SameName x := by
      rw [List.mem_filter, hks.mem_iff, sameNameTest, decide_eq_true_eq]
      constructor
      · rintro ⟨hl, hb, ho, hp⟩
        exact ⟨hl, hp, hb, ho⟩
      · rintro ⟨hl, hp, hb, ho⟩
        exact ⟨hl, hb, ho, hp⟩
    rw [Links.bindAll_self]
    simp only [htest]
    rfl
  · intro k k' x hr hl
    rw [sameNameTest, sameNameTest, hr, hl]

theorem SameName.ne_empty {x : String} (h : m.SameName x) : x ≠ "" := ne_empty_of_mem_logical h.1

theorem named_matched : m.Matched m.named := by
  refine ⟨⟨?_, ?_, ?_⟩, ?_, ?_⟩
  · intro l p hl hp
    unfold named
    by_cases hsl : m.SameName l
    · by_cases hsp : m.SameName p
      · simp only [hsl, hsp, if_true]
        exact eq_comm
      · simp only [hsl, hsp, if_true, if_false]
        constructor
        · rintro rfl
          exact absurd hsl hsp
        · intro ho
          have hb := (boundTo_inverse l p hl hp).mpr ho
          exact absurd (hb.symm.trans hsl.2.2.1) hp
    · by_cases hsp : m.SameName p
      · simp only [hsl, hsp, if_true, if_false]
        constructor
        · intro hb
          have ho := (boundTo_inverse l p hl hp).mp hb
          exact absurd (ho.symm.trans hsp.2.2.2) hl
        · rintro rfl
          exact absurd hsp hsl
      · simp only [hsl, hsp, if_false]
        exact boundTo_inverse l p hl hp
  · intro l hb
    have hsl : ¬ m.SameName l := fun h => hb h.2.2.1
    simp [named, hsl]
  · have hsl : ¬ m.SameName "" := fun h => h.ne_empty rfl
    have hb := boundTo_of_not_mem (m := m) fun h => ne_empty_of_mem_logical h rfl
    simp [named, hsl, hb]
  · intro l hl
    by_cases hsl : m.SameName l
    · simpa [named, hsl] using And.intro hsl.1 hsl.2.1
    · simp only [named, hsl, if_false] at hl ⊢
      exact boundTo_mem hl
  · intro p hp
    by_cases hsp : m.SameName p
    · simpa [named, hsp] using And.intro hsp.2.1 hsp.1
    · simp only [named, hsp, if_false] at hp ⊢
      exact owner_mem hp

theorem named_right_eq_empty {l : String} (h : l ∈ m.logical) :
    m.named.toRight l = "" ↔ l ∈ m.unsetLogical := by
  rw [unsetLogical, List.mem_filter, decide_eq_true_eq]
  by_cases hsl : m.SameName l
  · simp [named, hsl, hsl.ne_empty]
  · simp [named, hsl, h]

theorem named_left_eq_empty {p : String} (h : p ∈ m.physical) :
    m.named.toLeft p = "" ↔ p ∈ m.unsetPhysical := by
  rw [unsetPhysical, List.mem_filter, decide_eq_true_eq]
  by_cases hsp : m.SameName p
  · simp [named, hsp, hsp.ne_empty]
  · simp [named, hsp, h]

theorem filter_named_right :
    m.logical.filter (fun l => m.named.toRight l == "") = m.unsetLogical := by
  apply List.filter_congr
  intro l hl
  have h := named_right_eq_empty hl
  rw [unsetLogical, List.mem_filter, and_iff_right hl] at h
  rw [Bool.eq_iff_iff, beq_iff_eq, h]

theorem filter_named_left :
    m.physical.filter (fun p => m.named.toLeft p == "") = m.unsetPhysical := by
  apply List.filter_congr
  intro p hp
  have h := named_left_eq_empty hp
  rw [unsetPhysical, List.mem_filter, and_iff_right hp] at h
  rw [Bool.eq_iff_iff, beq_iff_eq, h]

theorem unsetLogical_nodup : m.unsetLogical.Nodup := logical_nodup.filter _

theorem unsetPhysical_nodup : m.unsetPhysical.Nodup := physical_nodup.filter _

theorem Kept.bindAll {k : Links String} (h : m.Kept k) {ps : List (String × String)}
    (hfresh : k.Fresh "" ps) (hne : ∀ x ∈ ps, x.1 ≠ "") : m.Kept (k.bindAll ps) := by
  refine ⟨Links.bindAll_inverse h.inverse hfresh, ?_, ?_⟩
  · intro l hb
    have hset : k.toRight l ≠ "" := by
      rw [h.kept l hb]
      exact hb
    rw [Links.bindAll_of_ne hfresh hset, h.kept l hb]
  · have hnot : "" ∉ ps.map Prod.fst := by
      intro hmem
      obtain ⟨x, hx, he⟩ := List.mem_map.mp hmem
      exact hne x hx he
    rw [Links.bindAll_of_not_mem k hnot, h.right_empty]

theorem Matched.bindAll {k : Links String} (h : m.Matched k) {ps : List (String × String)}
    (hfresh : k.Fresh "" ps) (hmem : ∀ x ∈ ps, x.1 ∈ m.logical ∧ x.2 ∈ m.physical) :
    m.Matched (k.bindAll ps) := by
  refine ⟨h.toKept.bindAll hfresh fun x hx => ne_empty_of_mem_logical (hmem x hx).1, ?_, ?_⟩
  · intro l hl
    rcases Links.bindAll_cases hfresh l with ⟨x, hx, rfl, hval⟩ | ⟨-, hval⟩
    · rw [hval]
      exact hmem x hx
    · rw [hval] at hl ⊢
      exact h.right_mem l hl
  · intro p hp
    change (k.bindAll ps).swap.toRight p ≠ "" at hp
    show p ∈ m.physical ∧ (k.bindAll ps).swap.toRight p ∈ m.logical
    rw [Links.swap_bindAll] at hp ⊢
    rcases Links.bindAll_cases hfresh.swap p with ⟨x, hx, rfl, hval⟩ | ⟨-, hval⟩
    · rw [hval]
      obtain ⟨y, hy, rfl⟩ := List.mem_map.mp hx
      exact (hmem y hy).symm
    · rw [hval] at hp ⊢
      exact h.left_mem p hp

section Paired

variable {ls ps : List String} (hls : ls.Perm m.unsetLogical) (hps : ps.Perm m.unsetPhysical)
include hls hps

theorem pairs_fresh : m.named.Fresh "" (ls.zip ps) := by
  have hl : ∀ l ∈ ls, l ∈ m.logical := fun l h => List.mem_of_mem_filter (hls.mem_iff.mp h)
  have hp : ∀ p ∈ ps, p ∈ m.physical := fun p h => List.mem_of_mem_filter (hps.mem_iff.mp h)
  refine ⟨?_, ?_, ?_, ?_⟩
  · intro x hx
    have hx := (List.of_mem_zip hx).1
    exact (named_right_eq_empty (hl _ hx)).mpr (hls.mem_iff.mp hx)
  · intro x hx
    have hx := (List.of_mem_zip hx).2
    exact (named_left_eq_empty (hp _ hx)).mpr (hps.mem_iff.mp hx)
  · rw [map_fst_zip]
    exact (hls.nodup_iff.mpr unsetLogical_nodup).sublist (List.take_sublist _ _)
  · rw [map_snd_zip]
    exact (hps.nodup_iff.mpr unsetPhysical_nodup).sublist (List.take_sublist _ _)

theorem paired_matched : m.Matched (m.named.bindAll (ls.zip ps)) := by
  apply named_matched.bindAll (pairs_fresh hls hps)
  intro x hx
  obtain ⟨hl, hp⟩ := List.of_mem_zip hx
  exact ⟨List.mem_of_mem_filter (hls.mem_iff.mp hl), List.mem_of_mem_filter (hps.mem_iff.mp hp)⟩

theorem paired_right_eq_empty {l : String} (h : l ∈ m.logical) :
    (m.named.bindAll (ls.zip ps)).toRight l = "" ↔ l ∈ ls.drop ps.length := by
  apply Links.zip_right_eq (hls.nodup_iff.mpr unsetLogical_nodup) _ (pairs_fresh hls hps)
  · rw [hls.mem_iff]
    exact named_right_eq_empty h
  · intro p hp
    exact ne_empty_of_mem_physical (List.mem_of_mem_filter (hps.mem_iff.mp hp))

theorem paired_left_eq_empty {p : String} (h : p ∈ m.physical) :
    (m.named.bindAll (ls.zip ps)).toLeft p = "" ↔ p ∈ ps.drop ls.length := by
  apply Links.zip_left_eq (hps.nodup_iff.mpr unsetPhysical_nodup) _ (pairs_fresh hls hps)
  · rw [hps.mem_iff]
    exact named_left_eq_empty h
  · intro l hl
    exact ne_empty_of_mem_logical (List.mem_of_mem_filter (hls.mem_iff.mp hl))

end Paired

section Sorted

variable (c : Collation) (m : Machine)

/-- The logical interfaces that are left over when the sorted names are paired. -/
def restLogical : List String := (c.sort m.unsetLogical).drop (c.sort m.unsetPhysical).length

/-- The cards that are left over then. -/
def restPhysical : List String := (c.sort m.unsetPhysical).drop (c.sort m.unsetLogical).length

def pairedLinks : Links String :=
  m.named.bindAll ((c.sort m.unsetLogical).zip (c.sort m.unsetPhysical))

variable {c m}

theorem restLogical_spec : (restLogical c m).Nodup ∧ ∀ l ∈ restLogical c m, l ∈ m.logical := by
  constructor
  · exact ((c.sort_perm _).nodup_iff.mpr unsetLogical_nodup).sublist (List.drop_sublist _ _)
  · intro l hl
    exact List.mem_of_mem_filter (c.mem_sort.mp (List.mem_of_mem_drop hl))

theorem restPhysical_spec : (restPhysical c m).Nodup ∧ ∀ p ∈ restPhysical c m, p ∈ m.physical := by
  constructor
  · exact ((c.sort_perm _).nodup_iff.mpr unsetPhysical_nodup).sublist (List.drop_sublist _ _)
  · intro p hp
    exact List.mem_of_mem_filter (c.mem_sort.mp (List.mem_of_mem_drop hp))

theorem pairedLinks_matched : m.Matched (pairedLinks c m) :=
  paired_matched (c.sort_perm _) (c.sort_perm _)

theorem mem_restLogical {l : String} :
    l ∈ restLogical c m ↔ l ∈ m.logical ∧ (pairedLinks c m).toRight l = "" := by
  constructor
  · intro h
    have hl := restLogical_spec.2 l h
    exact ⟨hl, (paired_right_eq_empty (c.sort_perm _) (c.sort_perm _) hl).mpr h⟩
  · rintro ⟨hl, h⟩
    exact (paired_right_eq_empty (c.sort_perm _) (c.sort_perm _) hl).mp h

theorem mem_restPhysical {p : String} :
    p ∈ restPhysical c m ↔ p ∈ m.physical ∧ (pairedLinks c m).toLeft p = "" := by
  constructor
  · intro h
    have hp := restPhysical_spec.2 p h
    exact ⟨hp, (paired_left_eq_empty (c.sort_perm _) (c.sort_perm _) hp).mpr h⟩
  · rintro ⟨hp, h⟩
    exact (paired_left_eq_empty (c.sort_perm _) (c.sort_perm _) hp).mp h

/-- Only one side has names left over. -/
theorem restPhysical_eq_nil (h : restLogical c m ≠ []) : restPhysical c m = [] := by
  rw [restLogical, Ne, List.drop_eq_nil_iff, not_le] at h
  rw [restPhysical, List.drop_eq_nil_iff]
  omega

end Sorted

section Overflow

variable {k : Links String} {free : String → Bool} {rest : List String}

/-- When each card has a logical interface, the logical interfaces left over that cannot keep
their names are no more than the names that they may take. -/
theorem Matched.logical_leftOver_le (h : m.Matched k) (hrest : rest.Nodup)
    (hunset : ∀ l, l ∈ rest ↔ l ∈ m.logical ∧ k.toRight l = "")
    (hfree : ∀ l ∈ m.logical, free l = true ↔ k.toLeft l = "")
    (hall : ∀ p ∈ m.physical, k.toLeft p ≠ "") :
    (leftOver free rest).length ≤ (available free m.logical rest).length :=
  leftOver_le h.inverse hrest (fun _ hl => ne_empty_of_mem_logical hl) hunset hfree
    (fun p hp => ⟨ne_empty_of_mem_physical hp, hall p hp, (h.left_mem p (hall p hp)).2⟩)
    (fun l _ hl => (h.left_mem l hl).1)

theorem Matched.physical_leftOver_le (h : m.Matched k) (hrest : rest.Nodup)
    (hunset : ∀ p, p ∈ rest ↔ p ∈ m.physical ∧ k.toLeft p = "")
    (hfree : ∀ p ∈ m.physical, free p = true ↔ k.toRight p = "")
    (hall : ∀ l ∈ m.logical, k.toRight l ≠ "") :
    (leftOver free rest).length ≤ (available free m.physical rest).length :=
  leftOver_le (k := k.swap) h.inverse.symm hrest (fun _ hp => ne_empty_of_mem_physical hp) hunset
    hfree (fun l hl => ⟨ne_empty_of_mem_logical hl, hall l hl, (h.right_mem l (hall l hl)).2⟩)
    (fun p _ hp => (h.right_mem p hp).1)

end Overflow

end CompassAdapters.Network.Machine
