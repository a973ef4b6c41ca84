import CompassAdapters.Network.SuseAgreement

/-! What the mapping scripts store when the entry of a VLAN or of an alias is left out. -/
namespace CompassAdapters.Network.Site
open Shell Matching Preseed

/-- `s'` is `s` without the entry of a VLAN or of an alias that declares no address, while another
logical interface has its base name. -/
structure WithoutAlias (s s' : Site) (i : Interface) : Prop where
  nics : s'.nics = s.nics
  link : s'.link = s.link
  interfaces : ∃ before after,
    s.interfaces = before ++ i :: after ∧ s'.interfaces = before ++ after
  pattern : (patternGroup '.' i.iname).isSome ∨ (patternGroup ':' i.iname).isSome
  mac : i.mac_address = ""
  other : logicalName i.iname ∈ s'.logical

variable {s s' : Site} {i : Interface} {c : Collation}

section Entries

/-- The two lists of entries. -/
theorem WithoutAlias.entries_eq (h : s.WithoutAlias s' i) (hmaster : i.isMaster = false) :
    ∃ before after, entries s.interfaces = before ++ (logicalName i.iname, "") :: after ∧
      entries s'.interfaces = before ++ after := by
  obtain ⟨before, after, hs, hs'⟩ := h.interfaces
  refine ⟨entries before, entries after, ?_, ?_⟩
  · rw [hs, Network.entries, List.filter_append, List.filter_cons_of_pos (by simp [hmaster]),
      List.map_append, List.map_cons, h.mac]
    rfl
  · rw [hs', Network.entries, List.filter_append, List.map_append]
    rfl

/-- An entry of a bond or a bridge is no entry for the scripts. -/
theorem WithoutAlias.entries_of_master (h : s.WithoutAlias s' i) (hmaster : i.isMaster = true) :
    entries s.interfaces = entries s'.interfaces := by
  obtain ⟨before, after, hs, hs'⟩ := h.interfaces
  rw [hs, hs', Network.entries, Network.entries, List.filter_append, List.filter_append,
    List.filter_cons_of_neg (by simp [hmaster])]

theorem WithoutAlias.physical_eq (h : s.WithoutAlias s' i) : s'.physical = s.physical := by
  rw [Site.physical, h.nics]
  rfl

theorem WithoutAlias.mem_logical_iff (h : s.WithoutAlias s' i) (hmaster : i.isMaster = false)
    {x : String} : x ∈ s.logical ↔ x ∈ s'.logical := by
  obtain ⟨before, after, hs, hs'⟩ := h.entries_eq hmaster
  have hother := h.other
  rw [logical, hs'] at hother
  rw [logical, logical, hs, hs', List.map_append, List.map_cons, List.map_append]
  rw [List.map_append] at hother
  constructor
  · intro hx
    rw [List.mem_append, List.mem_cons] at hx
    rcases hx with hx | rfl | hx
    · exact List.mem_append_left _ hx
    · exact hother
    · exact List.mem_append_right _ hx
  · intro hx
    rw [List.mem_append] at hx
    rcases hx with hx | hx
    · exact List.mem_append_left _ hx
    · exact List.mem_append_right _ (List.mem_cons_of_mem _ hx)

/-- An entry without an address links nothing. -/
theorem WithoutAlias.named_eq (h : s.WithoutAlias s' i) (hmaster : i.isMaster = false) :
    s'.named = s.named := by
  obtain ⟨before, after, hs, hs'⟩ := h.entries_eq hmaster
  have hcard : s'.card = s.card := by
    funext mac
    rw [card, card, h.nics]
  have hbound : s'.boundTo = s.boundTo := by
    funext l
    rw [boundTo, boundTo, hs, hs', hcard, lastMatch_remove _ _ (by simp)]
  have howner : s'.owner = s.owner := by
    funext p
    rw [owner, owner, hs, hs', hcard, lastMatch_remove _ _ (by simp)]
  have hsame (x : String) : s'.SameName x ↔ s.SameName x := by
    rw [SameName, SameName, h.mem_logical_iff hmaster, h.physical_eq, hbound, howner]
  apply Links.ext
  · funext l
    simp only [Site.named, hsame, hbound]
  · funext p
    simp only [Site.named, hsame, howner]

/-- The two lists of base names. -/
theorem WithoutAlias.logical_eq (h : s.WithoutAlias s' i) (hmaster : i.isMaster = false) :
    ∃ before after, s.logical = before ++ logicalName i.iname :: after ∧
      s'.logical = before ++ after := by
  obtain ⟨before, after, hs, hs'⟩ := h.entries_eq hmaster
  refine ⟨before.map Prod.fst, after.map Prod.fst, ?_, ?_⟩
  · rw [logical, hs, List.map_append, List.map_cons]
  · rw [logical, hs', List.map_append]

theorem WithoutAlias.sortedPhysical_eq (h : s.WithoutAlias s' i) (hmaster : i.isMaster = false) :
    s'.sortedPhysical c = s.sortedPhysical c := by
  rw [sortedPhysical, sortedPhysical, unsetPhysical, unsetPhysical, h.physical_eq,
    h.named_eq hmaster]

/-- A base name with a card is not among the names to be paired. -/
theorem WithoutAlias.sortedLogical_eq (h : s.WithoutAlias s' i) (hmaster : i.isMaster = false)
    (hset : s.named.toRight (logicalName i.iname) ≠ "") :
    s'.sortedLogical c = s.sortedLogical c := by
  obtain ⟨before, after, hs, hs'⟩ := h.logical_eq hmaster
  rw [sortedLogical, sortedLogical, unsetLogical, unsetLogical, h.named_eq hmaster, hs, hs',
    List.filter_append, List.filter_append, List.filter_cons_of_neg (by simpa using hset)]

/-- Without a card it comes once more among them. -/
theorem WithoutAlias.sortedLogical_split (h : s.WithoutAlias s' i) (hmaster : i.isMaster = false)
    (hunset : s.named.toRight (logicalName i.iname) = "") :
    ∃ before after, s'.sortedLogical c = before ++ logicalName i.iname :: after ∧
      s.sortedLogical c = before ++ logicalName i.iname :: logicalName i.iname :: after ∧
      logicalName i.iname ∉ after := by
  obtain ⟨before, after, hs, hs'⟩ := h.logical_eq hmaster
  have hmem : logicalName i.iname ∈ s'.sortedLogical c := by
    rw [sortedLogical, c.mem_sort, unsetLogical, List.mem_filter, h.named_eq hmaster, beq_iff_eq]
    exact ⟨h.other, hunset⟩
  obtain ⟨sorted, rest, hsplit, hnot⟩ := exists_last hmem
  refine ⟨sorted, rest, hsplit, ?_, hnot⟩
  rw [sortedLogical] at hsplit
  rw [← c.sort_cons_of_eq hsplit, sortedLogical]
  apply c.sort_eq_of_perm
  rw [unsetLogical, unsetLogical, h.named_eq hmaster, hs, hs', List.filter_append,
    List.filter_append, List.filter_cons_of_pos (by simpa using hunset)]
  exact List.perm_middle

theorem WithoutAlias.leaks_iff (h : s.WithoutAlias s' i) (hmaster : i.isMaster = false) :
    s'.Leaks ↔ s.Leaks := by
  have hphysical : s'.unsetPhysical = s.unsetPhysical := by
    rw [unsetPhysical, unsetPhysical, h.physical_eq, h.named_eq hmaster]
  have hlogical : s'.unsetLogical = [] ↔ s.unsetLogical = [] := by
    rw [unsetLogical, unsetLogical, List.filter_eq_nil_iff, List.filter_eq_nil_iff,
      h.named_eq hmaster]
    simp only [h.mem_logical_iff hmaster]
  rw [Leaks, Leaks, h.physical_eq, hphysical, Ne, Ne, hlogical]

end Entries

section Outcome

/-- Each logical interface has the same card, and each card the same logical interface. -/
structure SameLinks (s : Site) (k k' : Links String) : Prop where
  logical : k.toRight = k'.toRight
  physical : ∀ p ∈ s.physical, k.toLeft p = k'.toLeft p

/-- Both runs end before the mapping is done, or they end with the same links. -/
def SameRun (s : Site) : Option (Links String) → Option (Links String) → Prop
  | some k, some k' => s.SameLinks k k'
  | none, none => True
  | _, _ => False

/-- Neither script stores anything else without the alias. -/
structure SameMapping (s s' : Site) (c : Collation) : Prop where
  preseed : s.SameRun (mapInterfaces c s.link s.nics s.interfaces)
    (mapInterfaces c s'.link s'.nics s'.interfaces)
  suse : ∀ fuel k k', Suse.mapInterfaces c fuel s.nics s.interfaces = some k →
    Suse.mapInterfaces c fuel s'.nics s'.interfaces = some k' → s.SameLinks k k'

/-- At the last place of each name that takes another one, the names to be taken are the same. -/
def SameSpares (s s' : Site) (c : Collation) : Prop :=
  ∀ before l after, (s.takenNames c).take (s.spareNames c).length = before ++ l :: after →
    l ∉ after → (s.spareNames c)[before.length]? = (s'.spareNames c)[before.length]?

/-- The base name has a card by its address or its name and the names to be taken are the same at
the places that count; or it has none and, left over, takes its own name anyway; or it takes
another one, and the alias comes too late for it. -/
def Harmless (s s' : Site) (c : Collation) (l : String) : Prop :=
  if s.Leaks then True
  else if s.named.toRight l ≠ "" then s.SameSpares s' c
  else if s.freeName c l then l ∈ s'.restLogical c
  else l ∈ (s.takenNames c).drop (s.spareNames c).length

theorem SameLinks.refl (k : Links String) : s.SameLinks k k := ⟨rfl, fun _ _ => rfl⟩

end Outcome

section Final

theorem final_eq_owned : s.final c =
    ((s.owned c).bindAll ((s.takenNames c).zip (s.spareNames c))).bindAll
      ((s.physicalPairs c).map Prod.swap) := by
  rw [final, logicalPairs, repeatedPairs, Links.bindAll_append]
  rfl

/-- Once the names are paired, a card left over has no name left over beside it. -/
theorem final_of_rest (h : s.restPhysical c = []) :
    s.final c = (s.owned c).bindAll ((s.takenNames c).zip (s.spareNames c)) := by
  rw [final_eq_owned, physicalPairs, h]
  rfl

theorem suseFinal_of_rest (h : s.restPhysical c = []) : s.suseFinal c = s.owned c := by
  rw [suseFinal, suseCardPairs, takenCards, h]
  rfl

/-- The names that are taken are no cards. -/
theorem not_physical_of_spare (hrest : s.restPhysical c = []) {p : String}
    (hp : p ∈ s.spareNames c) : p ∉ s.physical := by
  intro hphysical
  obtain ⟨-, hfree, -⟩ := mem_spareNames hp
  have hne : ∀ x ∈ ((s.sortedLogical c).zip (s.sortedPhysical c)).map Prod.swap, x.2 ≠ "" := by
    intro x hx
    obtain ⟨y, hy, rfl⟩ := List.mem_map.mp hx
    exact ne_empty_of_mem_logical (List.mem_of_mem_filter (c.mem_sort.mp (List.of_mem_zip hy).1))
  have hright : ((s.named.swap).bindAll
      (((s.sortedLogical c).zip (s.sortedPhysical c)).map Prod.swap)).toRight p = "" := by
    rw [← Links.swap_bindAll]
    exact hfree
  rw [Links.bindAll_right_eq_unset _ hne, List.zip_swap, map_fst_zip] at hright
  obtain ⟨hnot, hunset⟩ := hright
  have hmem : p ∈ s.sortedPhysical c := by
    rw [sortedPhysical, c.mem_sort, unsetPhysical, List.mem_filter, beq_iff_eq]
    exact ⟨hphysical, hunset⟩
  rw [restPhysical, List.drop_eq_nil_iff] at hrest
  rw [List.take_of_length_le hrest] at hnot
  exact hnot hmem

theorem length_spareNames_eq (hfree : s'.freeName c = s.freeName c)
    (hrest : ∀ x, x ∈ s'.restLogical c ↔ x ∈ s.restLogical c)
    (hlogical : ∀ x, x ∈ s.logical ↔ x ∈ s'.logical) :
    (s'.spareNames c).length = (s.spareNames c).length := by
  have hmem (x : String) : x ∈ s'.spareNames c ↔ x ∈ s.spareNames c := by
    simp only [spareNames, available, List.mem_eraseDups, List.mem_filter, hfree, hrest, hlogical]
  exact ((List.perm_ext_iff_of_nodup (nodup_eraseDups _) (nodup_eraseDups _)).mpr hmem).length_eq

end Final

section Named
variable (h : s.WithoutAlias s' i) (hmaster : i.isMaster = false)
  (hset : s.named.toRight (logicalName i.iname) ≠ "")
include h hmaster hset

theorem WithoutAlias.paired_eq_of_named : s'.paired c = s.paired c := by
  rw [paired, paired, h.named_eq hmaster, h.sortedLogical_eq hmaster hset,
    h.sortedPhysical_eq hmaster]

theorem WithoutAlias.rest_eq_of_named : s'.restLogical c = s.restLogical c ∧
    s'.restPhysical c = s.restPhysical c := by
  rw [restLogical, restLogical, restPhysical, restPhysical, h.sortedLogical_eq hmaster hset,
    h.sortedPhysical_eq hmaster]
  exact ⟨rfl, rfl⟩

/-- Only the order of the names to be taken may change. -/
theorem WithoutAlias.final_eq_of_named :
    s'.final c = ((s.owned c).bindAll ((s.takenNames c).zip (s'.spareNames c))).bindAll
      ((s.physicalPairs c).map Prod.swap) ∧ s'.suseFinal c = s.suseFinal c := by
  have hpaired := h.paired_eq_of_named hmaster hset (c := c)
  obtain ⟨hlogical, hphysical⟩ := h.rest_eq_of_named hmaster hset (c := c)
  have hfree : s'.freeName c = s.freeName c := by
    funext x
    rw [freeName, freeName, hpaired]
  have hcard : s'.freeCard c = s.freeCard c := by
    funext x
    rw [freeCard, freeCard, hpaired]
  constructor
  · rw [final_eq_owned, owned, owned, takenNames, takenNames, physicalPairs, physicalPairs,
      hpaired, hlogical, hphysical, hfree, hcard, h.physical_eq]
  · rw [suseFinal, suseFinal, suseCardPairs, suseCardPairs, takenCards, takenCards, hpaired,
      hlogical, hphysical, hfree, hcard, h.physical_eq]

theorem WithoutAlias.sameLinks_iff_of_named :
    s.SameLinks (s.final c) (s'.final c) ↔ s.SameSpares s' c := by
  obtain ⟨hlogical, -⟩ := h.rest_eq_of_named hmaster hset (c := c)
  obtain ⟨hfinal, -⟩ := h.final_eq_of_named hmaster hset (c := c)
  by_cases hrest : s.restLogical c = []
  · have hnone : s.takenNames c = [] := by
      rw [takenNames, hrest]
      rfl
    have hsame : s'.final c = s.final c := by
      rw [hfinal, final_eq_owned, hnone]
      rfl
    rw [hsame]
    apply iff_of_true (SameLinks.refl _)
    intro before l after hsplit
    rw [hnone, List.take_nil] at hsplit
    exact absurd hsplit.symm (by simp)
  · have hcards := restPhysical_eq_nil hrest
    have hcards' := restPhysical_eq_nil (hlogical ▸ hrest : s'.restLogical c ≠ [])
    have hfree : s'.freeName c = s.freeName c := by
      funext x
      rw [freeName, freeName, h.paired_eq_of_named hmaster hset]
    have hlen := length_spareNames_eq hfree (fun x => by rw [hlogical])
      fun x => h.mem_logical_iff hmaster
    have hfinal' : s'.final c = (s.owned c).bindAll ((s.takenNames c).zip (s'.spareNames c)) := by
      rw [hfinal, physicalPairs, hcards]
      rfl
    rw [final_of_rest hcards, hfinal']
    have hright : ((s.owned c).bindAll ((s.takenNames c).zip (s.spareNames c))).toRight =
        ((s.owned c).bindAll ((s.takenNames c).zip (s'.spareNames c))).toRight ↔
          s.SameSpares s' c := Links.bindAll_zip_right_eq_iff _ hlen.symm
    have hkeep (names : List String) {p : String} (hp : p ∉ names) :
        ((s.owned c).bindAll ((s.takenNames c).zip names)).toLeft p = (s.owned c).toLeft p := by
      apply Links.bindAll_left_of_not_mem
      rw [map_snd_zip]
      exact fun hmem => hp (List.mem_of_mem_take hmem)
    constructor
    · intro hlinks
      exact hright.mp hlinks.logical
    · intro hspares
      refine ⟨hright.mpr hspares, fun p hp => ?_⟩
      have hspare : p ∉ s.spareNames c := fun hmem => not_physical_of_spare hcards hmem hp
      have hspare' : p ∉ s'.spareNames c :=
        fun hmem => not_physical_of_spare hcards' hmem (h.physical_eq ▸ hp)
      rw [hkeep _ hspare, hkeep _ hspare']

end Named

end CompassAdapters.Network.Site
