import CompassAdapters.Network.PreseedPhases

/-! When the mapping of `preseed_post_install_network_config` is one-to-one. -/
namespace CompassAdapters.Network.Preseed
open Shell Matching Machine

variable {c : Collation} {h : Host}

/-- Each logical interface has a name of its own, each card is the target of one name, the two
mappings are inverse to each other on the cards, and declared addresses are respected. -/
structure Bijective (h : Host) (k : Links String) : Prop where
  total : ∀ l ∈ h.logical, k.toRight l ∈ h.physical ∨ k.toRight l ∈ h.logical
  injective : ∀ l l', k.toRight l ≠ "" → k.toRight l = k.toRight l' → l = l'
  target : ∀ p ∈ h.physical, ∃! l, k.toRight l = p
  inverse : ∀ p ∈ h.physical, ∀ l, k.toRight l = p ↔ k.toLeft p = l
  declared : ∀ l p, h.Declares l p → k.toRight l = p

/-- The script maps the interfaces one-to-one. -/
def MapsOneToOne (c : Collation) (h : Host) : Prop :=
  ∃ k, mapInterfaces c h.link h.nics h.interfaces = some k ∧ Bijective h k

theorem bijective_of_kept {k : Links String} (hk : h.Kept k)
    (htotal : ∀ l ∈ h.logical, k.toRight l ∈ h.physical ∨ k.toRight l ∈ h.logical)
    (hset : ∀ p ∈ h.physical, k.toLeft p ≠ "") : Bijective h k := by
  have hinverse : ∀ p ∈ h.physical, ∀ l, k.toRight l = p ↔ k.toLeft p = l := by
    intro p hp l
    have hpne := ne_empty_of_mem_physical hp
    by_cases hl : l = ""
    · subst hl
      rw [hk.right_empty]
      exact ⟨fun he => absurd he.symm hpne, fun he => absurd he (hset p hp)⟩
    · exact hk.inverse l p hl hpne
  refine ⟨htotal, ?_, ?_, hinverse, ?_⟩
  · intro l l' hne he
    have hlne : l ≠ "" := by
      rintro rfl
      exact hne hk.right_empty
    have hlne' : l' ≠ "" := by
      rintro rfl
      exact hne (he.trans hk.right_empty)
    exact hk.inverse.injective hlne hlne' hne he
  · intro p hp
    refine ⟨k.toLeft p, (hinverse p hp _).mpr rfl, ?_⟩
    intro l hl
    exact ((hinverse p hp l).mp hl).symm
  · intro l p hdecl
    obtain ⟨hp, rfl⟩ := declares_iff.mp hdecl
    exact hk.kept l hp

theorem isName_of_mem_logical {l : String} (hl : l ∈ h.logical) : isName l = true := by
  obtain ⟨e, he, rfl⟩ := List.mem_map.mp hl
  exact (h.entry_plain e he).isName

theorem isName_of_mem_physical {p : String} (hp : p ∈ h.physical) : isName p = true := by
  obtain ⟨nic, hnic, rfl⟩ := List.mem_map.mp hp
  exact (h.nic_plain nic hnic).isName

/-- The pairing loop gets the words that are left in the positional parameters only if there are
cards and none of them is without a logical interface. -/
def PairsCards (h : Host) : Prop :=
  h.physical = [] ∨ h.unsetPhysical ≠ [] ∨ h.unsetLogical = []

/-- The run from the links by equal names on. -/
theorem mapInterfaces_named : mapInterfaces c h.link h.nics h.interfaces =
    ((c.sort h.unsetLogical).foldlM pair
      ⟨(readCards h.link h.nics).params, c.sort h.unsetPhysical, [], h.named⟩).bind fun s =>
    mapPhysical (mapLogical h.logical h.physical s.unset_logical_interfaces s.links).1
      s.sorted_unset_physical_interfaces
      (mapLogical h.logical h.physical s.unset_logical_interfaces s.links).2 := by
  rw [← filter_named_right, ← filter_named_left, ← foldl_bindSameName h, mapInterfaces, mapPhases,
    Option.map_bind]
  simp only [Function.comp_def, Option.map_map, Option.map_id']
  rfl

theorem mapInterfaces_eq (hpairs : PairsCards h) :
    mapInterfaces c h.link h.nics h.interfaces =
      mapPhysical (mapLogical h.logical h.physical (restLogical c h.toMachine)
        (pairedLinks c h.toMachine)).1 (restPhysical c h.toMachine)
        (mapLogical h.logical h.physical (restLogical c h.toMachine)
          (pairedLinks c h.toMachine)).2 := by
  have hset : c.sort h.unsetLogical = [] ∨ c.sort h.unsetPhysical ≠ [] ∨
      (readCards h.link h.nics).params = [] := by
    rcases hpairs with hnone | hsome | hnone
    · exact Or.inr (Or.inr ((foldl_params h.link h.nics).1 hnone))
    · refine Or.inr (Or.inl fun he => hsome ?_)
      exact List.Perm.eq_nil (he ▸ (c.sort_perm h.unsetPhysical).symm)
    · left
      rw [hnone]
      rfl
  have hls : ∀ l ∈ c.sort h.unsetLogical, isName l = true := fun l hl =>
    isName_of_mem_logical (List.mem_of_mem_filter (c.mem_sort.mp hl))
  have hps : ∀ p ∈ c.sort h.unsetPhysical, isName p = true := fun p hp =>
    isName_of_mem_physical (List.mem_of_mem_filter (c.mem_sort.mp hp))
  obtain ⟨params, hpair⟩ := foldlM_pair hls hps (readCards h.link h.nics).params [] h.named hset
  rw [mapInterfaces_named, hpair]
  rfl

section Outcome

/-- The pairs of the phase for the logical interfaces left over. -/
def logicalPairs (c : Collation) (h : Host) : List (String × String) :=
  overflowPairs (fun l => (pairedLinks c h.toMachine).toLeft l == "") h.logical
    (restLogical c h.toMachine)

/-- The pairs of the phase for the cards left over, the cards first. -/
def physicalPairs (c : Collation) (h : Host) : List (String × String) :=
  overflowPairs (fun p => (pairedLinks c h.toMachine).toRight p == "") h.physical
    (restPhysical c h.toMachine)

theorem logicalPairs_fresh : (pairedLinks c h.toMachine).Fresh "" (logicalPairs c h) := by
  apply overflow_fresh restLogical_spec.1 (List.Perm.refl _) logical_nodup (List.Perm.refl _)
  · intro l hl
    exact (mem_restLogical.mp hl).2
  · intro l hl
    exact beq_iff_eq.mp hl

theorem physicalPairs_fresh : (pairedLinks c h.toMachine).swap.Fresh "" (physicalPairs c h) := by
  apply overflow_fresh restPhysical_spec.1 (List.Perm.refl _) physical_nodup (List.Perm.refl _)
  · intro p hp
    exact (mem_restPhysical.mp hp).2
  · intro p hp
    exact beq_iff_eq.mp hp

/-- Without a card left over, there are names enough for the logical interfaces left over. -/
theorem mapsOneToOne_logical (hpairs : PairsCards h) (hnone : restPhysical c h.toMachine = []) :
    MapsOneToOne c h := by
  have hmatched := pairedLinks_matched (c := c) (m := h.toMachine)
  have hfresh := logicalPairs_fresh (c := c) (h := h)
  have hrun : mapInterfaces c h.link h.nics h.interfaces =
      some ((pairedLinks c h.toMachine).bindAll (logicalPairs c h)) := by
    rw [mapInterfaces_eq hpairs, hnone, mapPhysical_nil, mapLogical_eq _ logical_nodup
      (fun _ hl => ne_empty_of_mem_logical hl) restLogical_spec.2]
    rfl
  have hall : ∀ p ∈ h.physical, (pairedLinks c h.toMachine).toLeft p ≠ "" := by
    intro p hp he
    have hmem := (mem_restPhysical (c := c)).mpr ⟨hp, he⟩
    rw [hnone] at hmem
    cases hmem
  have hle := hmatched.logical_leftOver_le restLogical_spec.1 (fun l => mem_restLogical)
    (fun l _ => beq_iff_eq) hall
  refine ⟨_, hrun, bijective_of_kept ?_ ?_ ?_⟩
  · apply hmatched.toKept.bindAll hfresh
    intro x hx
    exact ne_empty_of_mem_logical (restLogical_spec.2 _ (mem_overflowPairs restLogical_spec.2 hx).1)
  · intro l hl
    by_cases hset : (pairedLinks c h.toMachine).toRight l = ""
    · obtain ⟨x, hx, rfl⟩ := exists_overflowPair hle (mem_restLogical.mpr ⟨hl, hset⟩)
      rw [Links.bindAll_of_mem hfresh hx]
      exact Or.inr (mem_overflowPairs restLogical_spec.2 hx).2
    · rw [Links.bindAll_of_ne hfresh hset]
      exact Or.inl (hmatched.right_mem l hset).2
  · intro p hp
    have hkeep : ((pairedLinks c h.toMachine).bindAll (logicalPairs c h)).swap.toRight p =
        (pairedLinks c h.toMachine).toLeft p := by
      rw [Links.swap_bindAll]
      exact Links.bindAll_of_ne hfresh.swap (hall p hp)
    intro he
    exact hall p hp (hkeep.symm.trans he)

/-- Without a logical interface left over, there are names enough for the cards left over. -/
theorem mapsOneToOne_physical (hpairs : PairsCards h) (hnone : restLogical c h.toMachine = []) :
    MapsOneToOne c h := by
  have hmatched := pairedLinks_matched (c := c) (m := h.toMachine)
  have hfresh := physicalPairs_fresh (c := c) (h := h)
  have hrun : mapInterfaces c h.link h.nics h.interfaces =
      some ((pairedLinks c h.toMachine).swap.bindAll (physicalPairs c h)).swap := by
    rw [mapInterfaces_eq hpairs, hnone, mapLogical_nil]
    exact mapPhysical_eq physical_nodup (fun _ hp => ne_empty_of_mem_physical hp)
      restPhysical_spec.2 (fun p hp => isName_of_mem_physical (restPhysical_spec.2 p hp)) _
  have hall : ∀ l ∈ h.logical, (pairedLinks c h.toMachine).toRight l ≠ "" := by
    intro l hl he
    have hmem := (mem_restLogical (c := c)).mpr ⟨hl, he⟩
    rw [hnone] at hmem
    cases hmem
  have hle := hmatched.physical_leftOver_le restPhysical_spec.1 (fun p => mem_restPhysical)
    (fun p _ => beq_iff_eq) hall
  rw [Links.swap_bindAll, Links.swap_swap] at hrun
  have hfresh' : (pairedLinks c h.toMachine).Fresh "" ((physicalPairs c h).map Prod.swap) :=
    hfresh.swap
  have hmem : ∀ x ∈ physicalPairs c h, x.1 ∈ restPhysical c h.toMachine ∧ x.2 ∈ h.physical :=
    fun x hx => mem_overflowPairs restPhysical_spec.2 hx
  refine ⟨_, hrun, bijective_of_kept ?_ ?_ ?_⟩
  · apply hmatched.toKept.bindAll hfresh'
    intro x hx
    obtain ⟨y, hy, rfl⟩ := List.mem_map.mp hx
    exact ne_empty_of_mem_physical (hmem y hy).2
  · intro l hl
    rw [Links.bindAll_of_ne hfresh' (hall l hl)]
    exact Or.inl (hmatched.right_mem l (hall l hl)).2
  · intro p hp
    show ((pairedLinks c h.toMachine).bindAll ((physicalPairs c h).map Prod.swap)).swap.toRight p
      ≠ ""
    rw [← Links.swap_swap (pairedLinks c h.toMachine), ← Links.swap_bindAll, Links.swap_swap]
    by_cases hset : (pairedLinks c h.toMachine).swap.toRight p = ""
    · obtain ⟨x, hx, rfl⟩ := exists_overflowPair hle (mem_restPhysical.mpr ⟨hp, hset⟩)
      rw [Links.bindAll_of_mem hfresh hx]
      exact ne_empty_of_mem_physical (hmem x hx).2
    · rw [Links.bindAll_of_ne hfresh hset]
      exact hset

end Outcome

/-- With words in the positional parameters and no card left to pair, the script ends before the
mapping is done. -/
theorem mapInterfaces_eq_none (hpairs : ¬ PairsCards h) :
    mapInterfaces c h.link h.nics h.interfaces = none := by
  rw [PairsCards, not_or, not_or, not_not] at hpairs
  obtain ⟨hcards, hall, hleft⟩ := hpairs
  obtain ⟨nic, hnic, hparams⟩ := (foldl_params h.link h.nics).2 hcards
  have hls : ∀ l ∈ c.sort h.unsetLogical, isName l = true := fun l hl =>
    isName_of_mem_logical (List.mem_of_mem_filter (c.mem_sort.mp hl))
  have hsort : c.sort h.unsetLogical ≠ [] := fun he =>
    hleft (List.Perm.eq_nil (he ▸ (c.sort_perm h.unsetLogical).symm))
  rw [mapInterfaces_named, hall, hparams, Collation.sort_nil]
  exact foldlM_pair_leak hls hsort _ (h.nic_plain nic hnic).isName _ _ _

theorem mapsOneToOne_iff (c : Collation) (h : Host) : MapsOneToOne c h ↔ PairsCards h := by
  constructor
  · rintro ⟨k, hrun, -⟩
    by_contra hpairs
    rw [mapInterfaces_eq_none hpairs] at hrun
    cases hrun
  · intro hpairs
    by_cases hnone : restLogical c h.toMachine = []
    · exact mapsOneToOne_physical hpairs hnone
    · exact mapsOneToOne_logical hpairs (restPhysical_eq_nil hnone)

/-- One card and two logical interfaces, the first with the name of the card. -/
def oneCard : Host where
  nics := [⟨"eth0", "52:54:00:00:00:0a"⟩]
  interfaces := [⟨"eth0", "", ""⟩, ⟨"eth1", "", ""⟩]
  nic_word := by decide
  nic_mac := by decide
  nics_nodup := by decide
  macs_nodup := by decide
  entry_word := by decide
  entries_nodup := by decide
  declared_nodup := by decide
  link _ := ⟨2, "BROADCAST,MULTICAST,UP,LOWER_UP", ["mtu", "1500"]⟩
  nic_plain := by decide
  nic_address := by decide
  entry_plain := by decide
  entry_address := by decide

/-- `eth1` is given the word `2:` and the script ends in the phase for the cards left over. -/
theorem oneCard_not_mapped :
    (pair ⟨(oneCard.link "eth0").words "eth0", [], [], oneCard.named⟩ "eth1").map
      (fun s => s.links.toRight "eth1") = some "2:" ∧
    (mapInterfaces Collation.plain oneCard.link oneCard.nics oneCard.interfaces).isNone = true ∧
    ¬ MapsOneToOne Collation.plain oneCard := by
  have hnone : (mapInterfaces Collation.plain oneCard.link oneCard.nics
      oneCard.interfaces).isNone = true := by
    decide +kernel
  refine ⟨by decide +kernel, hnone, ?_⟩
  rintro ⟨k, hrun, -⟩
  rw [hrun] at hnone
  cases hnone

end CompassAdapters.Network.Preseed
