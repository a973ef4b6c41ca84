import CompassAdapters.Network.AliasEntries

/-! When the mapping scripts store the same without the entry of a VLAN or of an alias. -/
namespace CompassAdapters.Network.Site
open Shell Matching Preseed

variable {s s' : Site} {i : Interface} {c : Collation}

section Unnamed
variable (h : s.WithoutAlias s' i) (hmaster : i.isMaster = false)
  (hunset : s.named.toRight (logicalName i.iname) = "")

/-- What was stored when the names were paired stays. -/
theorem final_right_of_set {l : String} (hrest : l ∉ s.restLogical c)
    (hset : (s.paired c).toRight l ≠ "") : (s.final c).toRight l = (s.paired c).toRight l := by
  have hphysical : l ∉ ((s.physicalPairs c).map Prod.swap).map Prod.fst := by
    intro hmem
    rw [List.map_map, physicalPairs, overflowPairs, List.map_append, List.mem_append] at hmem
    rcases hmem with hmem | hmem
    · rw [List.map_map] at hmem
      obtain ⟨p, hp, rfl⟩ := List.mem_map.mp hmem
      exact hset (beq_iff_eq.mp (List.mem_filter.mp hp).2)
    · obtain ⟨x, hx, rfl⟩ := List.mem_map.mp hmem
      exact hset (mem_spareCards (List.of_mem_zip hx).2).2.1
  have hlogical : l ∉ (s.logicalPairs c).map Prod.fst := by
    intro hmem
    rw [logicalPairs, repeatedPairs, List.map_append, List.mem_append, map_fst_zip] at hmem
    rcases hmem with hmem | hmem
    · rw [List.map_map] at hmem
      obtain ⟨x, hx, rfl⟩ := List.mem_map.mp hmem
      exact hrest (List.mem_of_mem_filter hx)
    · exact hrest (List.mem_of_mem_filter (List.mem_of_mem_take hmem))
  rw [final, Links.bindAll_of_not_mem _ hphysical, Links.bindAll_of_not_mem _ hlogical]

/-- What a base name is paired with when its last place has a partner. -/
theorem paired_right_of_split {before after : List String} {l : String}
    (hsplit : s.sortedLogical c = before ++ l :: after) (hl : l ∉ after)
    (hlt : before.length < (s.sortedPhysical c).length) :
    (s.sortedPhysical c)[before.length]? = some ((s.paired c).toRight l) ∧
      (s.paired c).toRight l ≠ "" ∧ l ∉ s.restLogical c := by
  have htake : (s.sortedLogical c).take (s.sortedPhysical c).length =
      before ++ l :: after.take ((s.sortedPhysical c).length - before.length - 1) := by
    obtain ⟨n, hn⟩ := Nat.exists_eq_add_of_lt hlt
    have hone : before.length + n + 1 - before.length - 1 = n := by omega
    have hlen : before.length + n + 1 = before.length + (n + 1) := by omega
    rw [hn, hone, hsplit, hlen, List.take_length_add_append, List.take_succ_cons]
  obtain ⟨p, hp, hval⟩ := s.named.bindAll_zip_last htake fun hmem => hl (List.mem_of_mem_take hmem)
  have hpaired : (s.paired c).toRight l = p := hval
  refine ⟨by rw [hp, hpaired], ?_, ?_⟩
  · rw [hpaired]
    exact ne_empty_of_mem_physical
      (List.mem_of_mem_filter (c.mem_sort.mp (List.mem_of_getElem? hp)))
  · intro hmem
    rw [restLogical, hsplit] at hmem
    exact absurd ((mem_drop_last hl).mp hmem) (not_le.mpr hlt)

/-- A free name is taken by itself just when it is left over. -/
theorem owned_right_eq_iff {l : String} (hl : l ∈ s.logical) (hfree : s.freeName c l = true) :
    (s.owned c).toRight l = l ↔ l ∈ s.restLogical c := by
  rw [owned, Links.bindAll_self]
  constructor
  · intro heq
    by_contra hrest
    have hown : l ∉ ownNames (s.freeName c) (s.restLogical c) :=
      fun hmem => hrest (List.mem_of_mem_filter hmem)
    have hpaired : (s.paired c).toRight l = l := (if_neg hown).symm.trans heq
    -- whatever a name is mapped to is not free
    have hset := paired_linked (c := c) l (by
      rw [hpaired]
      exact ne_empty_of_mem_logical hl)
    rw [hpaired] at hset
    exact hset (beq_iff_eq.mp hfree)
  · intro hrest
    exact if_pos (List.mem_filter.mpr ⟨hrest, hfree⟩)

/-- A free name gets no spare one. -/
theorem final_right_eq_owned {l : String} (hcards : s.restPhysical c = [])
    (hfree : s.freeName c l = true) : (s.final c).toRight l = (s.owned c).toRight l := by
  rw [final_of_rest hcards, Links.bindAll_of_not_mem]
  rw [map_fst_zip]
  intro hmem
  have htaken := (List.mem_filter.mp (List.mem_of_mem_take hmem)).2
  rw [hfree] at htaken
  exact absurd htaken (by decide)

include h hmaster

include hunset in
/-- Either the alias takes a card, and the base name is bound to another one without it, or it is
left over and nothing else changes when the names are paired. -/
theorem WithoutAlias.paired_cases :
    ((s.paired c).toRight (logicalName i.iname) ≠ "" ∧
      (s'.paired c).toRight (logicalName i.iname) ≠ "" ∧
      (s.paired c).toRight (logicalName i.iname) ≠ (s'.paired c).toRight (logicalName i.iname) ∧
      logicalName i.iname ∉ s.restLogical c ∧ logicalName i.iname ∉ s'.restLogical c ∧
      2 ≤ (s.sortedPhysical c).length) ∨
    (s'.paired c = s.paired c ∧ s.restPhysical c = [] ∧ s'.restPhysical c = [] ∧
      ∃ before after, s.restLogical c = before ++ logicalName i.iname :: after ∧
        s'.restLogical c = before ++ after ∧ logicalName i.iname ∉ after) := by
  obtain ⟨before, after, hs', hs, hnot⟩ := h.sortedLogical_split hmaster hunset (c := c)
  have hphysical := h.sortedPhysical_eq hmaster (c := c)
  by_cases hlt : before.length + 1 < (s.sortedPhysical c).length
  · left
    have hsplit : s.sortedLogical c =
        (before ++ [logicalName i.iname]) ++ logicalName i.iname :: after := by
      rw [hs, List.append_assoc]
      rfl
    obtain ⟨hget, hne, hrest⟩ := paired_right_of_split hsplit hnot (by simpa using hlt)
    obtain ⟨hget', hne', hrest'⟩ := paired_right_of_split hs' hnot (by rw [hphysical]; omega)
    refine ⟨hne, hne', ?_, hrest, hrest', by omega⟩
    intro heq
    rw [hphysical, ← heq, ← hget] at hget'
    have hnodup : (s.sortedPhysical c).Nodup :=
      (c.sort_perm _).nodup_iff.mpr (List.Nodup.filter _ s.nics_nodup)
    have hsame := (List.getElem?_inj (by omega) hnodup).mp hget'
    simp at hsame
  · right
    have hle : (s.sortedPhysical c).length ≤ (before ++ [logicalName i.iname]).length := by
      simp only [List.length_append, List.length_singleton]
      omega
    have hsplit : s.sortedLogical c =
        (before ++ [logicalName i.iname]) ++ logicalName i.iname :: after := by
      rw [hs, List.append_assoc]
      rfl
    have hsplit' : s'.sortedLogical c = (before ++ [logicalName i.iname]) ++ after := by
      rw [hs', List.append_assoc]
      rfl
    refine ⟨?_, ?_, ?_, (before ++ [logicalName i.iname]).drop (s.sortedPhysical c).length,
      after, ?_, ?_, hnot⟩
    · rw [paired, paired, h.named_eq hmaster, hphysical, ← zip_take, ← zip_take (s.sortedLogical c),
        hsplit, hsplit', List.take_append_of_le_length hle, List.take_append_of_le_length hle]
    · rw [restPhysical, List.drop_eq_nil_iff, hsplit, List.length_append]
      omega
    · rw [restPhysical, List.drop_eq_nil_iff, hsplit', List.length_append, hphysical]
      omega
    · rw [restLogical, hsplit, List.drop_append_of_le_length hle]
    · rw [restLogical, hsplit', hphysical, List.drop_append_of_le_length hle]


variable {before after : List String}

/-- The names to be taken are the same when the base name is none of them. -/
theorem WithoutAlias.spareNames_eq (hpaired : s'.paired c = s.paired c)
    (hrest : ∀ x, x ≠ logicalName i.iname → (x ∈ s'.restLogical c ↔ x ∈ s.restLogical c))
    (hname : s.freeName c (logicalName i.iname) = false ∨
      logicalName i.iname ∈ s.restLogical c ∧ logicalName i.iname ∈ s'.restLogical c) :
    s'.spareNames c = s.spareNames c := by
  obtain ⟨before, after, hs, hs'⟩ := h.logical_eq hmaster
  have hfree : s'.freeName c = s.freeName c := by
    funext x
    rw [freeName, freeName, hpaired]
  have hdrop : (s.freeName c (logicalName i.iname) &&
      decide (logicalName i.iname ∉ s.restLogical c)) = false := by
    rcases hname with hfree | ⟨hmem, -⟩
    · rw [hfree, Bool.false_and]
    · rw [Bool.and_eq_false_iff]
      exact Or.inr (by simpa using hmem)
  have hsame (x : String) : (s'.freeName c x && decide (x ∉ s'.restLogical c)) =
      (s.freeName c x && decide (x ∉ s.restLogical c)) := by
    rw [hfree]
    by_cases hx : x = logicalName i.iname
    · subst hx
      rcases hname with hfree | ⟨hmem, hmem'⟩
      · rw [hfree, Bool.false_and, Bool.false_and]
      · simp [hmem, hmem']
    · simp only [hrest x hx]
  rw [spareNames, spareNames, available, available, hs, hs', List.filter_append,
    List.filter_append, List.filter_cons_of_neg (by rw [hdrop]; exact Bool.false_ne_true)]
  simp only [hsame]

/-- Left over, with its own name free. -/
theorem WithoutAlias.sameLinks_iff_of_free (hpaired : s'.paired c = s.paired c)
    (hcards : s.restPhysical c = []) (hcards' : s'.restPhysical c = [])
    (hrest : s.restLogical c = before ++ logicalName i.iname :: after)
    (hrest' : s'.restLogical c = before ++ after)
    (hfree : s.freeName c (logicalName i.iname) = true) :
    (s.SameLinks (s.final c) (s'.final c) ↔ logicalName i.iname ∈ s'.restLogical c) ∧
    (s.SameLinks (s.owned c) (s'.owned c) ↔ logicalName i.iname ∈ s'.restLogical c) := by
  have hfree' : s'.freeName c = s.freeName c := by
    funext x
    rw [freeName, freeName, hpaired]
  have hl' : logicalName i.iname ∈ s'.logical := h.other
  have hl : logicalName i.iname ∈ s.logical := (h.mem_logical_iff hmaster).mpr hl'
  have hin : logicalName i.iname ∈ s.restLogical c :=
    hrest ▸ List.mem_append_right _ List.mem_cons_self
  by_cases hmem : logicalName i.iname ∈ s'.restLogical c
  · have hiff (x : String) : x ∈ s'.restLogical c ↔ x ∈ s.restLogical c := by
      by_cases hx : x = logicalName i.iname
      · subst hx
        exact iff_of_true hmem hin
      · simp [hrest, hrest', hx]
    have howned : s'.owned c = s.owned c := by
      rw [owned, owned, Links.bindAll_self, Links.bindAll_self, hpaired]
      simp only [ownNames, List.mem_filter, hfree', hiff]
    have htaken : s'.takenNames c = s.takenNames c := by
      rw [takenNames, takenNames, hfree', hrest, hrest', leftOver, leftOver, List.filter_append,
        List.filter_append, List.filter_cons_of_neg (by simp [hfree])]
    have hspare := h.spareNames_eq hmaster hpaired (fun x _ => hiff x) (Or.inr ⟨hin, hmem⟩)
    rw [final_of_rest hcards, final_of_rest hcards', howned, htaken, hspare]
    exact ⟨iff_of_true (SameLinks.refl _) hmem, iff_of_true (SameLinks.refl _) hmem⟩
  · have howned := (owned_right_eq_iff hl hfree).mpr hin
    have howned' : (s'.owned c).toRight (logicalName i.iname) ≠ logicalName i.iname :=
      fun heq => hmem ((owned_right_eq_iff hl' (hfree' ▸ hfree)).mp heq)
    constructor
    · refine iff_of_false (fun hsame => howned' ?_) hmem
      rw [← final_right_eq_owned hcards' (hfree' ▸ hfree), ← hsame.logical,
        final_right_eq_owned hcards hfree, howned]
    · refine iff_of_false (fun hsame => howned' ?_) hmem
      rw [← hsame.logical, howned]

/-- Left over, with its own name taken. -/
theorem WithoutAlias.sameLinks_iff_of_taken (hpaired : s'.paired c = s.paired c)
    (hcards : s.restPhysical c = []) (hcards' : s'.restPhysical c = [])
    (hrest : s.restLogical c = before ++ logicalName i.iname :: after)
    (hrest' : s'.restLogical c = before ++ after) (hafter : logicalName i.iname ∉ after)
    (hfree : s.freeName c (logicalName i.iname) = false) :
    (s.SameLinks (s.final c) (s'.final c) ↔
      logicalName i.iname ∈ (s.takenNames c).drop (s.spareNames c).length) ∧
    s'.owned c = s.owned c := by
  have hfree' : s'.freeName c = s.freeName c := by
    funext x
    rw [freeName, freeName, hpaired]
  have howned : s'.owned c = s.owned c := by
    rw [owned, owned, hpaired, hfree', hrest, hrest', ownNames, ownNames, List.filter_append,
      List.filter_append, List.filter_cons_of_neg (by simp [hfree])]
  have hspare := h.spareNames_eq hmaster hpaired (fun x hx => by simp [hrest, hrest', hx])
    (Or.inl hfree)
  have htaken : s.takenNames c = leftOver (s.freeName c) before ++
      logicalName i.iname :: leftOver (s.freeName c) after := by
    rw [takenNames, hrest, leftOver, List.filter_append, List.filter_cons_of_pos (by simp [hfree])]
    rfl
  have htaken' : s'.takenNames c =
      leftOver (s.freeName c) before ++ leftOver (s.freeName c) after := by
    rw [takenNames, hfree', hrest', leftOver, List.filter_append]
    rfl
  have hnot : logicalName i.iname ∉ leftOver (s.freeName c) after :=
    fun hmem => hafter (List.mem_of_mem_filter hmem)
  refine ⟨?_, howned⟩
  rw [final_of_rest hcards, final_of_rest hcards', howned, hspare, htaken, htaken',
    mem_drop_last hnot]
  constructor
  · intro hsame
    by_contra hlt
    exact Links.bindAll_zip_remove (s.owned c) hnot (nodup_eraseDups _)
      (fun _ hname => owned_ne_spare _ hname) (not_le.mp hlt) (congrFun hsame.logical _)
  · intro hle
    rw [← zip_take, ← zip_take (leftOver (s.freeName c) before ++ leftOver (s.freeName c) after),
      List.take_append_of_le_length hle, List.take_append_of_le_length hle]
    exact SameLinks.refl _

end Unnamed

section Alias

theorem WithoutAlias.preseed_iff (h : s.WithoutAlias s' i) (hmaster : i.isMaster = false) :
    s.SameRun (mapInterfaces c s.link s.nics s.interfaces)
      (mapInterfaces c s'.link s'.nics s'.interfaces) ↔
    s.Leaks ∨ s.SameLinks (s.final c) (s'.final c) := by
  by_cases hleaks : s.Leaks
  · rw [mapInterfaces_leaks hleaks, mapInterfaces_leaks ((h.leaks_iff hmaster).mpr hleaks)]
    exact iff_of_true trivial (Or.inl hleaks)
  · have hleaks' : ¬ s'.Leaks := fun hin => hleaks ((h.leaks_iff hmaster).mp hin)
    rw [mapInterfaces_final hleaks, mapInterfaces_final hleaks', or_iff_right hleaks]
    exact Iff.rfl

/-- What the preseed script stores, when its run comes so far. -/
theorem WithoutAlias.sameLinks_iff (h : s.WithoutAlias s' i) (hmaster : i.isMaster = false)
    (hleaks : ¬ s.Leaks) :
    s.SameLinks (s.final c) (s'.final c) ↔ s.Harmless s' c (logicalName i.iname) := by
  rw [Harmless, if_neg hleaks]
  by_cases hunset : s.named.toRight (logicalName i.iname) = ""
  · rw [if_neg (not_not.mpr hunset)]
    rcases h.paired_cases hmaster hunset (c := c) with
      ⟨hset, hset', hne, hrest, hrest', -⟩ | ⟨hpaired, hcards, hcards', before, after, hrest,
        hrest', hafter⟩
    · have hdiffer : ¬ s.SameLinks (s.final c) (s'.final c) := by
        intro hsame
        apply hne
        rw [← final_right_of_set hrest hset, ← final_right_of_set hrest' hset', hsame.logical]
      apply iff_of_false hdiffer
      split
      next => exact hrest'
      next => exact fun hmem => hrest (List.mem_of_mem_filter (List.mem_of_mem_drop hmem))
    · cases hfree : s.freeName c (logicalName i.iname) with
      | true =>
        rw [if_pos rfl]
        exact (h.sameLinks_iff_of_free hmaster hpaired hcards hcards' hrest hrest' hfree).1
      | false =>
        rw [if_neg Bool.false_ne_true]
        exact (h.sameLinks_iff_of_taken hmaster hpaired hcards hcards' hrest hrest' hafter hfree).1
  · rw [if_pos hunset]
    exact h.sameLinks_iff_of_named hmaster hunset

/-- What the SUSE script stores, when its loop ends. -/
theorem WithoutAlias.suse_sameLinks (h : s.WithoutAlias s' i) (hmaster : i.isMaster = false)
    (hends : s.SuseEnds c) (hharmless : s.Harmless s' c (logicalName i.iname)) :
    s.SameLinks (s.suseFinal c) (s'.suseFinal c) := by
  by_cases hunset : s.named.toRight (logicalName i.iname) = ""
  · obtain ⟨sorted, rest, hsorted', hsorted, -⟩ := h.sortedLogical_split hmaster hunset (c := c)
    have hlen : 2 ≤ (s.sortedLogical c).length := by
      rw [hsorted, List.length_append, List.length_cons, List.length_cons]
      omega
    rcases h.paired_cases hmaster hunset (c := c) with
      ⟨-, -, -, -, -, hcards⟩ | ⟨hpaired, hcards, hcards', before, after, hrest, hrest', hafter⟩
    · exact absurd ⟨hcards, hlen⟩ hends
    · rw [suseFinal_of_rest hcards, suseFinal_of_rest hcards']
      cases hfree : s.freeName c (logicalName i.iname) with
      | true =>
        rw [(h.sameLinks_iff_of_free hmaster hpaired hcards hcards' hrest hrest' hfree).2]
        rw [Harmless, if_neg (not_not.mpr hunset), if_pos hfree] at hharmless
        split at hharmless
        next hleaks =>
          -- without a card to pair, all of the names are left over
          have hnone : s'.sortedPhysical c = [] := by
            rw [h.sortedPhysical_eq hmaster, sortedPhysical, hleaks.2.1, Collation.sort_nil]
          rw [restLogical, hnone, List.length_nil, List.drop_zero, hsorted']
          exact List.mem_append_right _ List.mem_cons_self
        next => exact hharmless
      | false =>
        rw [(h.sameLinks_iff_of_taken hmaster hpaired hcards hcards' hrest hrest' hafter hfree).2]
        exact SameLinks.refl _
  · rw [(h.final_eq_of_named hmaster hunset).2]
    exact SameLinks.refl _

theorem WithoutAlias.countersApart (h : s.WithoutAlias s' i) (hmaster : i.isMaster = false)
    (hapart : s.CountersApart) : s'.CountersApart := by
  rintro x (hx | hx)
  · exact hapart x (Or.inl (by rwa [physical, ← h.nics]))
  · exact hapart x (Or.inr ((h.mem_logical_iff hmaster).mpr hx))

/-- The scripts store the same without the alias just when it is harmless. -/
theorem sameMapping_iff (h : s.WithoutAlias s' i) (hapart : s.CountersApart) :
    s.SameMapping s' c ↔ i.isMaster = true ∨ s.Harmless s' c (logicalName i.iname) := by
  cases hmaster : i.isMaster with
  | true =>
    have hentries := h.entries_of_master hmaster
    have hpreseed : mapInterfaces c s'.link s'.nics s'.interfaces =
        mapInterfaces c s.link s.nics s.interfaces := by
      rw [mapInterfaces, mapInterfaces, mapPhases, mapPhases, h.link, h.nics, hentries]
    have hsuse (fuel : ℕ) : Suse.mapInterfaces c fuel s'.nics s'.interfaces =
        Suse.mapInterfaces c fuel s.nics s.interfaces := by
      rw [Suse.mapInterfaces, Suse.mapInterfaces, h.nics]
      simp only [Suse.mapCards, hentries]
    refine iff_of_true ⟨?_, ?_⟩ (Or.inl rfl)
    · rw [hpreseed]
      cases mapInterfaces c s.link s.nics s.interfaces with
      | none => exact trivial
      | some k => exact SameLinks.refl k
    · intro fuel k k' hk hk'
      rw [hsuse, hk] at hk'
      obtain rfl := Option.some.inj hk'
      exact SameLinks.refl k
  | false =>
    rw [or_iff_right Bool.false_ne_true]
    have hharmless : s.Leaks ∨ s.SameLinks (s.final c) (s'.final c) ↔
        s.Harmless s' c (logicalName i.iname) := by
      by_cases hleaks : s.Leaks
      · rw [Harmless, if_pos hleaks]
        exact iff_of_true (Or.inl hleaks) trivial
      · rw [or_iff_right hleaks, h.sameLinks_iff hmaster hleaks]
    constructor
    · intro hsame
      exact hharmless.mp ((h.preseed_iff hmaster).mp hsame.preseed)
    · intro hsame
      refine ⟨(h.preseed_iff hmaster).mpr (hharmless.mpr hsame), ?_⟩
      intro fuel k k' hk hk'
      obtain ⟨hends, rfl⟩ := suse_mapInterfaces_eq_some hapart hk
      obtain ⟨-, rfl⟩ := suse_mapInterfaces_eq_some (h.countersApart hmaster hapart) hk'
      exact h.suse_sameLinks hmaster hends hsame

/-- Two cards and one interface without an address. -/
def oneName : Site where
  nics := [⟨"eth0", "52:54:00:00:00:1a"⟩, ⟨"eth1", "52:54:00:00:00:1b"⟩]
  interfaces := [⟨"em1", "", ""⟩]
  link _ := ⟨2, "BROADCAST,MULTICAST,UP,LOWER_UP", ["mtu", "1500"]⟩
  nics_nodup := by decide
  nic_ne := by decide
  nic_plain := by decide
  nic_address := by decide
  entry_ne := by decide
  entry_plain := by decide
  entry_address := by decide

/-- The same cards, where the interface has the address of one of them. -/
def boundName : Site where
  nics := oneName.nics
  interfaces := [⟨"em1", "52:54:00:00:00:1b", ""⟩]
  link := oneName.link
  nics_nodup := oneName.nics_nodup
  nic_ne := oneName.nic_ne
  nic_plain := oneName.nic_plain
  nic_address := oneName.nic_address
  entry_ne := by decide
  entry_plain := by decide
  entry_address := by decide

/-- An alias of the interface. -/
def em1Alias : Interface := ⟨"em1:1", "", ""⟩

/-- A site with the alias in front of its other entries. -/
def withAlias (s : Site) : Site where
  nics := s.nics
  interfaces := em1Alias :: s.interfaces
  link := s.link
  nics_nodup := s.nics_nodup
  nic_ne := s.nic_ne
  nic_plain := s.nic_plain
  nic_address := s.nic_address
  entry_ne := List.forall_mem_cons.mpr ⟨by decide, s.entry_ne⟩
  entry_plain := List.forall_mem_cons.mpr ⟨by decide, s.entry_plain⟩
  entry_address := List.forall_mem_cons.mpr ⟨by decide, s.entry_address⟩

theorem withAlias_spec (s : Site) (h : "em1" ∈ s.logical) :
    s.withAlias.WithoutAlias s em1Alias where
  nics := rfl
  link := rfl
  interfaces := ⟨[], s.interfaces, rfl, rfl⟩
  pattern := by decide
  mac := rfl
  other := h

theorem boundName_same : boundName.withAlias.SameMapping boundName Collation.plain := by
  have hapart : boundName.withAlias.CountersApart := by
    intro x hx
    rw [← List.mem_append] at hx
    exact (show ∀ x ∈ boundName.withAlias.physical ++ boundName.withAlias.logical,
      x ≠ "num" ∧ x ≠ "offset" by decide +kernel) x hx
  refine (sameMapping_iff (withAlias_spec boundName (by decide)) hapart).mpr (Or.inr ?_)
  have hleaks : ¬ boundName.withAlias.Leaks := by decide +kernel
  have hset : boundName.withAlias.named.toRight (logicalName em1Alias.iname) ≠ "" := by
    decide +kernel
  have hnone : boundName.withAlias.takenNames Collation.plain = [] := by decide +kernel
  rw [Harmless, if_neg hleaks, if_pos hset]
  intro before l after hsplit
  rw [hnone, List.take_nil] at hsplit
  exact absurd hsplit.symm (by simp)

/-- The alias takes the second card from its own base name. -/
theorem oneName_alias_takes_card :
    (mapInterfaces Collation.plain oneName.link oneName.nics oneName.interfaces).map
      (fun k => (k.toRight "em1", k.toLeft "eth1")) = some ("eth0", "eth1") ∧
    (mapInterfaces Collation.plain oneName.withAlias.link oneName.withAlias.nics
      oneName.withAlias.interfaces).map
      (fun k => (k.toRight "em1", k.toLeft "eth1")) = some ("eth1", "em1") ∧
    ¬ oneName.withAlias.SameMapping oneName Collation.plain := by
  have hbefore : (mapInterfaces Collation.plain oneName.link oneName.nics oneName.interfaces).map
      (fun k => (k.toRight "em1", k.toLeft "eth1")) = some ("eth0", "eth1") := by
    decide +kernel
  have hafter : (mapInterfaces Collation.plain oneName.withAlias.link oneName.withAlias.nics
      oneName.withAlias.interfaces).map
      (fun k => (k.toRight "em1", k.toLeft "eth1")) = some ("eth1", "em1") := by
    decide +kernel
  refine ⟨hbefore, hafter, ?_⟩
  rintro ⟨hsame, -⟩
  obtain ⟨k, hk, hkey⟩ := Option.map_eq_some_iff.mp hbefore
  obtain ⟨k', hk', hkey'⟩ := Option.map_eq_some_iff.mp hafter
  rw [hk, hk'] at hsame
  obtain ⟨hright, -⟩ := Prod.ext_iff.mp hkey
  obtain ⟨hright', -⟩ := Prod.ext_iff.mp hkey'
  have heq := hright'.symm.trans ((congrFun hsame.logical "em1").trans hright)
  exact absurd heq (by decide)

end Alias

end CompassAdapters.Network.Site
