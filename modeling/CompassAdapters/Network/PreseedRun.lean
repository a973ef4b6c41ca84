import CompassAdapters.Network.Site

/-! The run of the preseed script at a site. -/
namespace CompassAdapters.Network.Site
open Shell Matching Preseed

variable {s : Site} {c : Collation}

section Named

theorem get_mac_interface {mac : String} (hmac : IsAddress mac) :
    (readCards s.link s.nics).physical_mac_interface (macName mac) = s.card mac := by
  have hloop := Family.foldl_update_eq (fun nic : Nic => macName (upper nic.mac)) Nic.name s.nics
    Family.unset (macName mac)
  refine hloop.trans (lastMatch_congr "" (fun nic hnic => ?_) fun _ _ _ => rfl)
  rw [Bool.eq_iff_iff, beq_iff_eq, beq_iff_eq]
  exact ⟨macName_inj (s.nic_address nic hnic) hmac, congrArg macName⟩

theorem physical_interface_eq (x : String) :
    (readCards s.link s.nics).physical_interface x = "" ↔ x ∉ s.physical := by
  obtain ⟨hin, hout⟩ := Family.foldl_update_spec Nic.name Nic.name s.nics_nodup Family.unset
  constructor
  · intro he hx
    obtain ⟨nic, hnic, rfl⟩ := List.mem_map.mp hx
    exact s.nic_ne nic hnic ((hin nic hnic).symm.trans he)
  · exact hout x

/-- What one entry stores, under its base name and under its card. -/
theorem bindEntry_eq {e : String × String} (he : IsAddress e.2) (k : Links String) :
    bindEntry (readCards s.link s.nics).physical_mac_interface k e =
      ⟨if e.2 ≠ "" then Function.update k.toRight e.1 (s.card e.2) else k.toRight,
        if e.2 ≠ "" ∧ s.card e.2 ≠ "" then Function.update k.toLeft (s.card e.2) e.1
          else k.toLeft⟩ := by
  have hcard := get_mac_interface (s := s) he
  obtain ⟨l, mac⟩ := e
  simp only at hcard
  unfold bindEntry
  simp only [hcard]
  by_cases hmac : mac = ""
  · simp only [hmac, ne_eq, not_true_eq_false, if_false, false_and]
    split
    next hset =>
      rw [← hset, Function.update_eq_self]
    next => rfl
  · by_cases hc : s.card mac = ""
    · simp [hmac, hc]
    · simp [hmac, hc]

/-- The code generated from the configuration stores the links by address. -/
theorem foldl_bindEntry :
    (entries s.interfaces).foldl (bindEntry (readCards s.link s.nics).physical_mac_interface)
      (Links.unset "") = ⟨s.boundTo, s.owner⟩ := by
  have hloop (es : List (String × String)) (haddress : ∀ e ∈ es, IsAddress e.2)
      (k : Links String) :
      es.foldl (bindEntry (readCards s.link s.nics).physical_mac_interface) k =
        ⟨fun l => lastMatch (fun e => e.1 == l && e.2 != "") (fun e => s.card e.2) (k.toRight l) es,
          fun p => lastMatch (fun e => e.2 != "" && s.card e.2 == p && p != "") Prod.fst
            (k.toLeft p) es⟩ := by
    induction es generalizing k with
    | nil => rfl
    | cons e es ih =>
      obtain ⟨he, haddress⟩ := List.forall_mem_cons.mp haddress
      rw [List.foldl_cons, ih haddress, bindEntry_eq he]
      apply Links.ext
      · funext l
        simp only [lastMatch_cons]
        congr 1
        by_cases hmac : e.2 = ""
        · simp [hmac]
        · by_cases hl : e.1 = l
          · simp [hmac, hl]
          · simp [hmac, hl, Function.update_of_ne (Ne.symm hl)]
      · funext p
        simp only [lastMatch_cons]
        congr 1
        by_cases hmac : e.2 = ""
        · simp [hmac]
        · by_cases hp : s.card e.2 = p
          · subst hp
            by_cases hc : s.card e.2 = ""
            · simp [hmac, hc]
            · simp [hmac, hc]
          · by_cases hc : s.card e.2 = ""
            · simp [hmac, hc]
            · simp [hmac, hp, hc, Function.update_of_ne (Ne.symm hp)]
  exact hloop _ s.entry_address _

theorem bindSameName_eq (k : Links String) (x : String) :
    bindSameName (readCards s.link s.nics).physical_interface k x =
      if x ∈ s.physical ∧ k.toRight x = "" ∧ k.toLeft x = "" then k.bind x x else k := by
  have hphysical := physical_interface_eq (s := s) x
  rw [bindSameName]
  by_cases hr : k.toRight x = ""
  · by_cases hl : k.toLeft x = ""
    · rw [if_neg (not_not.mpr hr), if_neg (not_not.mpr hl)]
      by_cases hmem : x ∈ s.physical
      · rw [if_neg fun he => hphysical.mp he hmem, if_pos ⟨hmem, hr, hl⟩]
      · rw [if_pos (hphysical.mpr hmem), if_neg fun h => hmem h.1]
    · rw [if_neg (not_not.mpr hr), if_pos hl, if_neg fun h => hl h.2.2]
  · rw [if_pos hr, if_neg fun h => hr h.2.1]

/-- The loop over equal names, in which a name may come again. -/
theorem foldl_bindSameName {xs : List String} (hne : ∀ x ∈ xs, x ≠ "") (k : Links String) :
    xs.foldl (bindSameName (readCards s.link s.nics).physical_interface) k =
      ⟨fun x => if x ∈ xs ∧ x ∈ s.physical ∧ k.toRight x = "" ∧ k.toLeft x = "" then x
          else k.toRight x,
        fun x => if x ∈ xs ∧ x ∈ s.physical ∧ k.toRight x = "" ∧ k.toLeft x = "" then x
          else k.toLeft x⟩ := by
  induction xs generalizing k with
  | nil => simp
  | cons x xs ih =>
    obtain ⟨hx, hne⟩ := List.forall_mem_cons.mp hne
    rw [List.foldl_cons, ih hne, bindSameName_eq]
    by_cases htest : x ∈ s.physical ∧ k.toRight x = "" ∧ k.toLeft x = ""
    · rw [if_pos htest]
      obtain ⟨hmem, hr, hl⟩ := htest
      apply Links.ext
      · funext y
        by_cases hy : y = x
        · subst hy
          simp [Links.bind, hx, hmem, hr, hl]
        · simp [Links.bind, hy]
      · funext y
        by_cases hy : y = x
        · subst hy
          simp [Links.bind, hx, hmem, hr, hl]
        · simp [Links.bind, hy]
    · have hcond (y : String) : (y ∈ xs ∧ y ∈ s.physical ∧ k.toRight y = "" ∧ k.toLeft y = "") ↔
          (y ∈ x :: xs ∧ y ∈ s.physical ∧ k.toRight y = "" ∧ k.toLeft y = "") := by
        rw [List.mem_cons]
        constructor
        · exact fun hy => ⟨Or.inr hy.1, hy.2⟩
        · rintro ⟨rfl | hy, hrest⟩
          · exact absurd hrest htest
          · exact ⟨hy, hrest⟩
      rw [if_neg htest]
      simp only [hcond]

/-- The links after the loop over equal names. -/
theorem foldl_named :
    s.logical.foldl (bindSameName (readCards s.link s.nics).physical_interface)
      ((entries s.interfaces).foldl (bindEntry (readCards s.link s.nics).physical_mac_interface)
        (Links.unset "")) = s.named := by
  rw [foldl_bindEntry, foldl_bindSameName fun _ hx => ne_empty_of_mem_logical hx]
  rfl

end Named

section Run

/-- The words of `ip link show` are taken for cards. -/
def Leaks (s : Site) : Prop := s.physical ≠ [] ∧ s.unsetPhysical = [] ∧ s.unsetLogical ≠ []

instance decidableLeaks (s : Site) : Decidable s.Leaks := by
  unfold Leaks
  infer_instance

theorem sort_eq_nil {xs : List String} (h : c.sort xs = []) : xs = [] :=
  List.Perm.eq_nil (h ▸ (c.sort_perm xs).symm)

theorem isName_sortedLogical {l : String} (hl : l ∈ s.sortedLogical c) : isName l = true :=
  isName_of_mem_logical (List.mem_of_mem_filter (c.mem_sort.mp hl))

theorem isName_sortedPhysical {p : String} (hp : p ∈ s.sortedPhysical c) : isName p = true :=
  isName_of_mem_physical (List.mem_of_mem_filter (c.mem_sort.mp hp))

theorem mem_logical_of_mem_rest {l : String} (hl : l ∈ s.restLogical c) : l ∈ s.logical :=
  List.mem_of_mem_filter (c.mem_sort.mp (List.mem_of_mem_drop hl))

theorem mem_physical_of_mem_rest {p : String} (hp : p ∈ s.restPhysical c) : p ∈ s.physical :=
  List.mem_of_mem_filter (c.mem_sort.mp (List.mem_of_mem_drop hp))

/-- A spare name is free, and nothing takes it for its own. -/
theorem mem_spareNames {l : String} (h : l ∈ s.spareNames c) :
    l ∈ s.logical ∧ (s.paired c).toLeft l = "" ∧ l ∉ s.restLogical c := by
  simpa [spareNames, available, freeName] using h

theorem mem_spareCards {p : String} (h : p ∈ s.spareCards c) :
    p ∈ s.physical ∧ (s.paired c).toRight p = "" ∧ p ∉ s.restPhysical c := by
  simpa [spareCards, available, freeCard] using h

/-- Only one side has names left over. -/
theorem restPhysical_eq_nil (h : s.restLogical c ≠ []) : s.restPhysical c = [] := by
  rw [restLogical, Ne, List.drop_eq_nil_iff, not_le] at h
  rw [restPhysical, List.drop_eq_nil_iff]
  omega

/-- The run from the links by equal names on. -/
theorem mapPhases_named : mapPhases c s.link s.nics s.interfaces =
    ((s.sortedLogical c).foldlM pair
      ⟨(readCards s.link s.nics).params, s.sortedPhysical c, [], s.named⟩).bind fun t =>
    (mapPhysical (mapLogical s.logical s.physical t.unset_logical_interfaces t.links).1
      t.sorted_unset_physical_interfaces
      (mapLogical s.logical s.physical t.unset_logical_interfaces t.links).2).map fun k =>
    (s.logical ++ addedLogical
      (mapLogical s.logical s.physical t.unset_logical_interfaces t.links).1
      t.sorted_unset_physical_interfaces
      (mapLogical s.logical s.physical t.unset_logical_interfaces t.links).2, k) := by
  unfold sortedLogical sortedPhysical unsetLogical unsetPhysical
  rw [← foldl_named]
  rfl

theorem mapPhases_leaks (h : s.Leaks) : mapPhases c s.link s.nics s.interfaces = none := by
  obtain ⟨hcards, hall, hleft⟩ := h
  obtain ⟨nic, hnic, hparams⟩ := (foldl_params s.link s.nics).2 hcards
  have hls : ∀ l ∈ s.sortedLogical c, isName l = true := fun l hl => isName_sortedLogical hl
  have hleak := foldlM_pair_leak hls
    (fun he => hleft (sort_eq_nil he)) (s.link nic.name) (s.nic_plain nic hnic).isName s.named
    (fun t => (mapLogical s.logical s.physical t.unset_logical_interfaces t.links).1)
    (fun t => (mapLogical s.logical s.physical t.unset_logical_interfaces t.links).2)
  rw [← @Option.map_eq_none_iff _ _ _ Prod.snd, mapPhases_named, Option.map_bind]
  simp only [Function.comp_def, Option.map_map, Option.map_id']
  rw [hparams, sortedPhysical, hall, Collation.sort_nil]
  exact hleak

theorem mapPhases_final (h : ¬ s.Leaks) :
    mapPhases c s.link s.nics s.interfaces = some (s.finalNames c, s.final c) := by
  have hset : s.sortedLogical c = [] ∨ s.sortedPhysical c ≠ [] ∨
      (readCards s.link s.nics).params = [] := by
    by_cases hleft : s.unsetLogical = []
    · left
      rw [sortedLogical, hleft]
      rfl
    · by_cases hall : s.unsetPhysical = []
      · by_cases hcards : s.physical = []
        · exact Or.inr (Or.inr ((foldl_params s.link s.nics).1 hcards))
        · exact absurd ⟨hcards, hall, hleft⟩ h
      · exact Or.inr (Or.inl fun he => hall (sort_eq_nil he))
  obtain ⟨params, hpair⟩ := foldlM_pair (fun l hl => isName_sortedLogical hl)
    (fun p hp => isName_sortedPhysical hp) (readCards s.link s.nics).params [] s.named hset
  rw [mapPhases_named, hpair, Option.bind_some, List.nil_append]
  show (mapPhysical (mapLogical s.logical s.physical (s.restLogical c) (s.paired c)).1
    (s.restPhysical c) (mapLogical s.logical s.physical (s.restLogical c) (s.paired c)).2).map
      (fun k => (s.logical ++ addedLogical
        (mapLogical s.logical s.physical (s.restLogical c) (s.paired c)).1 (s.restPhysical c)
        (mapLogical s.logical s.physical (s.restLogical c) (s.paired c)).2, k)) = _
  by_cases hrest : s.restLogical c = []
  · have hlogical : s.logicalPairs c = [] := by
      rw [logicalPairs, hrest]
      rfl
    have hnodup : s.physical.Nodup := s.nics_nodup
    rw [hrest, mapLogical_nil]
    simp only
    rw [mapPhysical_eq hnodup (fun _ hp => ne_empty_of_mem_physical hp)
      (fun _ hp => mem_physical_of_mem_rest hp)
      (fun _ hp => isName_of_mem_physical (mem_physical_of_mem_rest hp)), Links.swap_bindAll,
      Links.swap_swap, final, hlogical]
    rfl
  · have hphysical : s.physicalPairs c = [] := by
      rw [physicalPairs, restPhysical_eq_nil hrest]
      rfl
    have hnames : s.finalNames c = s.logical := by
      rw [finalNames, restPhysical_eq_nil hrest]
      exact List.append_nil _
    rw [restPhysical_eq_nil hrest, mapPhysical_nil, mapLogical_repeated s.physical
      (fun _ hl => ne_empty_of_mem_logical hl) (fun _ hl => mem_logical_of_mem_rest hl), final,
      hphysical, hnames, addedLogical, if_neg (not_not.mpr rfl), List.append_nil]
    rfl

theorem mapInterfaces_leaks (h : s.Leaks) : mapInterfaces c s.link s.nics s.interfaces = none := by
  rw [mapInterfaces, mapPhases_leaks h, Option.map_none]

theorem mapInterfaces_final (h : ¬ s.Leaks) :
    mapInterfaces c s.link s.nics s.interfaces = some (s.final c) := by
  rw [mapInterfaces, mapPhases_final h, Option.map_some]

end Run

end CompassAdapters.Network.Site
