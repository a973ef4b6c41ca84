import CompassAdapters.Network.KickstartPhases

/-! When the mapping of `kickstart_post_install_network_config` keeps the bindings by address, up
to the udev rules that it writes. -/
namespace CompassAdapters.Network.Kickstart
open Shell Matching Machine

variable {b : Bash} {m : Machine}

section Rules

/-- The case of an ASCII letter is what it was set to last. -/
private theorem toLower_toUpper (c : Char) : c.toUpper.toLower = c.toLower := by
  apply Char.ext
  apply UInt32.toNat_inj.mp
  delta Char.toUpper Char.toLower
  simp only [ge_iff_le, UInt32.le_iff_toNat_le, Char.reduceVal, UInt32.reduceToNat,
    UInt32.reduceSub]
  repeat' split
  all_goals simp only [UInt32.toNat_add, UInt32.reduceToNat] at *
  all_goals omega

private theorem toUpper_toLower (c : Char) : c.toLower.toUpper = c.toUpper := by
  apply Char.ext
  apply UInt32.toNat_inj.mp
  delta Char.toUpper Char.toLower
  simp only [ge_iff_le, UInt32.le_iff_toNat_le, Char.reduceVal, UInt32.reduceToNat,
    UInt32.reduceSub]
  repeat' split
  all_goals simp only [UInt32.toNat_add, UInt32.reduceToNat] at *
  all_goals omega

theorem lower_upper (s : String) : lower (upper s) = lower s := by
  rw [lower, lower, upper, String.toList_ofList, List.map_map]
  exact congrArg String.ofList (List.map_congr_left fun c _ => toLower_toUpper c)

theorem upper_lower (s : String) : upper (lower s) = upper s := by
  rw [upper, upper, lower, String.toList_ofList, List.map_map]
  exact congrArg String.ofList (List.map_congr_left fun c _ => toUpper_toLower c)

theorem lower_eq_iff {s t : String} : lower s = lower t ↔ upper s = upper t := by
  constructor
  · intro h
    rw [← upper_lower s, h, upper_lower]
  · intro h
    rw [← lower_upper s, h, lower_upper]

/-- The rule that the loop writes for one key. -/
def ruleOf (b : Bash) (nics : List Nic) (maps : Maps) (key : String) : Option Rule :=
  let physical_interface := maps.logical_interface_mapping.get key
  let physical_mac := if physical_interface ≠ "" then
    (readCards b nics).physical_interface_mac.get physical_interface else ""
  if physical_mac ≠ "" then some ⟨lower physical_mac, key⟩ else none

theorem ruleOf_card {maps : Maps} {key : String} {nic : Nic} (hnic : nic ∈ m.nics)
    (hkey : maps.logical_interface_mapping.get key = nic.name) :
    ruleOf b m.nics maps key = some ⟨lower nic.mac, key⟩ := by
  have hmac : upper nic.mac ≠ "" := fun h => m.nic_mac nic hnic (upper_eq_empty.mp h)
  unfold ruleOf
  simp only [hkey]
  rw [if_pos (m.nic_word nic hnic).ne_empty, (get_interface_mac b m).1 nic hnic, if_pos hmac,
    lower_upper]

theorem ruleOf_eq_some {maps : Maps} {key : String} {r : Rule}
    (h : ruleOf b m.nics maps key = some r) :
    ∃ nic ∈ m.nics, maps.logical_interface_mapping.get key = nic.name := by
  by_cases hmem : maps.logical_interface_mapping.get key ∈ m.physical
  · obtain ⟨nic, hnic, hname⟩ := List.mem_map.mp hmem
    exact ⟨nic, hnic, hname.symm⟩
  · unfold ruleOf at h
    simp only [(get_interface_mac b m).2 _ hmem, ite_self] at h
    cases h

theorem udevRules_of_card {maps : Maps} {l : String} {nic : Nic} (hnic : nic ∈ m.nics)
    (hl : maps.logical_interface_mapping.get l = nic.name)
    (honly : ∀ l', maps.logical_interface_mapping.get l' = nic.name → l' = l) :
    (udevRules b m.nics maps).filter (fun r => decide (r.address = lower nic.mac)) =
      [⟨lower nic.mac, l⟩] := by
  have hrule (key : String) : (ruleOf b m.nics maps key).filter
      (fun r => decide (r.address = lower nic.mac)) =
      if key = l then some ⟨lower nic.mac, l⟩ else none := by
    by_cases hkey : key = l
    · subst hkey
      rw [ruleOf_card hnic hl, if_pos rfl, Option.filter_some, if_pos (decide_eq_true rfl)]
    · rw [if_neg hkey, Option.filter_eq_none_iff]
      intro r hr haddress
      obtain ⟨nic', hnic', hname⟩ := ruleOf_eq_some hr
      rw [ruleOf_card hnic' hname, Option.some.injEq] at hr
      subst hr
      have hmac := lower_eq_iff.mp (of_decide_eq_true haddress)
      have hsame : nic' = nic := List.inj_on_of_nodup_map m.macs_nodup hnic' hnic hmac
      exact hkey (honly key (hsame ▸ hname))
  have hmem : l ∈ b.keys 378 maps.logical_interface_mapping := by
    rw [b.mem_keys]
    by_contra hnot
    exact (m.nic_word nic hnic).ne_empty (hl.symm.trans (AssocArray.get_of_not_mem hnot))
  have hcount := List.count_eq_one_of_mem (b.keys_nodup 378 maps.logical_interface_mapping) hmem
  calc (udevRules b m.nics maps).filter (fun r => decide (r.address = lower nic.mac))
      = (b.keys 378 maps.logical_interface_mapping).filterMap
          (fun key => if key = l then some ⟨lower nic.mac, l⟩ else none) := by
        rw [← funext hrule]
        exact List.filter_filterMap
    _ = ((b.keys 378 maps.logical_interface_mapping).filter (· = l)).map
          (fun _ => ⟨lower nic.mac, l⟩) := by
        induction b.keys 378 maps.logical_interface_mapping with
        | nil => rfl
        | cons key ks ih =>
          by_cases hkey : key = l
          · simp [hkey, ih]
          · simp [hkey, ih]
    _ = [⟨lower nic.mac, l⟩] := by
        rw [List.filter_eq, hcount]
        rfl

end Rules

section Outcome

/-- The bindings by address in the final maps and in the udev rules. -/
def Bindings (b : Bash) (m : Machine) (final : Maps) : Prop :=
  ∀ l p, m.Declares l p →
    final.logical_interface_mapping.get l = p ∧
    (∀ l', final.logical_interface_mapping.get l' = p → l' = l) ∧
    ∀ nic ∈ m.nics, nic.name = p →
      (udevRules b m.nics final).filter (fun r => decide (r.address = lower nic.mac)) =
        [⟨lower nic.mac, l⟩]

/-- The mapping comes to an end and keeps the bindings. -/
def KeepsBindings (b : Bash) (m : Machine) : Prop :=
  ∃ fuel final, mapInterfaces b fuel m.nics m.interfaces = some final ∧ Bindings b m final

theorem bindings_of_kept {final : Maps} (h : m.Kept final.links) : Bindings b m final := by
  intro l p hdecl
  obtain ⟨hp, rfl⟩ := declares_iff.mp hdecl
  have hl : final.logical_interface_mapping.get l = m.boundTo l := h.kept l hp
  have honly : ∀ l', final.logical_interface_mapping.get l' = m.boundTo l → l' = l := by
    intro l' hl'
    have hne : l' ≠ "" := by
      rintro rfl
      exact hp (hl'.symm.trans h.right_empty)
    have hlne : l ≠ "" := by
      rintro rfl
      exact hp (hl.symm.trans h.right_empty)
    exact h.inverse.injective hne hlne (fun he => hp (hl'.symm.trans he)) (hl'.trans hl.symm)
  refine ⟨hl, honly, ?_⟩
  intro nic hnic hname
  exact udevRules_of_card hnic (hl.trans hname.symm) (hname.symm ▸ honly)

/-- The condition: no card left over has the name of a logical interface; or for the first one
that has, the first of the other card names is the card that the logical interface of its name is
bound to. -/
def BindingsStay (b : Bash) (m : Machine) : Prop :=
  ∀ p ∈ (b.sort ((restPhysical b m).filter fun p => decide (p ∈ m.logical))).head?,
    (b.sort (m.physical.filter fun p' =>
      decide (p' ∉ m.logical ∧ p' ∉ restPhysical b m))).head? = some (m.boundTo p)

theorem overflowPairs_nil (free : String → Bool) (names : List String) :
    overflowPairs b free names [] = [] := by
  simp [overflowPairs, ownNames, leftOver]

/-- A card left over whose name is that of a logical interface is so because that one is bound to
another card. -/
theorem boundTo_ne_empty {p : String} (hp : p ∈ restPhysical b m) (hl : p ∈ m.logical) :
    m.boundTo p ≠ "" := by
  have hunset := b.mem_sort.mp (List.mem_of_mem_drop hp)
  rw [unsetPhysical, List.mem_filter, decide_eq_true_eq] at hunset
  intro hb
  exact hunset.2.2 ⟨hl, hunset.1, hb, hunset.2.1⟩

theorem logicalLinks_kept : m.Kept (logicalLinks b m) := by
  let free := freeLogical (pairedLinks b m)
  have hfresh : (pairedLinks b m).Fresh "" (((ownNames free (restLogical b m)).map fun x => (x, x)) ++
      (b.sort (leftOver free (restLogical b m))).zip
        (b.sort (available free m.logical (restLogical b m)))) :=
    overflow_fresh restLogical_spec.1 (b.sort_perm _) logical_nodup (b.sort_perm _)
      (fun l hl => (mem_restLogical.mp hl).2) fun l hl => beq_iff_eq.mp hl
  apply pairedLinks_matched.toKept.bindAll
  · exact hfresh.sublist ((List.take_sublist _ _).append_left _)
  · intro x hx
    rw [overflowPairs, List.mem_append] at hx
    rcases hx with hx | hx
    · obtain ⟨l, hl, rfl⟩ := List.mem_map.mp hx
      exact ne_empty_of_mem_logical (restLogical_spec.2 l (List.mem_of_mem_filter hl))
    · have hl := b.mem_sort.mp (List.of_mem_zip (List.mem_of_mem_take hx)).1
      exact ne_empty_of_mem_logical (restLogical_spec.2 x.1 (List.mem_of_mem_filter hl))

/-- The links after the loop in which cards left over keep their names. -/
def ownLinks (b : Bash) (m : Machine) : Links String :=
  (pairedLinks b m).bindAll
    ((ownNames (freePhysical (pairedLinks b m)) (restPhysical b m)).map fun p => (p, p))

theorem ownLinks_kept : m.Kept (ownLinks b m) := by
  have hown : ∀ p ∈ ownNames (freePhysical (pairedLinks b m)) (restPhysical b m),
      p ∈ restPhysical b m ∧ (pairedLinks b m).toRight p = "" := by
    intro p hp
    obtain ⟨hrest, hfree⟩ := List.mem_filter.mp hp
    exact ⟨hrest, beq_iff_eq.mp hfree⟩
  apply pairedLinks_matched.toKept.bindAll
  · apply Links.self_fresh (restPhysical_spec.1.filter _)
    intro p hp
    exact ⟨(hown p hp).2, (mem_restPhysical.mp (hown p hp).1).2⟩
  · intro x hx
    obtain ⟨p, hp, rfl⟩ := List.mem_map.mp hx
    exact ne_empty_of_mem_physical (restPhysical_spec.2 p (hown p hp).1)

section Physical

variable (hnone : restLogical b m = [])
include hnone

theorem logicalLinks_eq : logicalLinks b m = pairedLinks b m := by
  rw [logicalLinks, hnone, overflowPairs_nil]
  rfl

theorem right_ne_empty {l : String} (hl : l ∈ m.logical) : (pairedLinks b m).toRight l ≠ "" := by
  intro he
  have hmem := (mem_restLogical (c := b)).mpr ⟨hl, he⟩
  rw [hnone] at hmem
  cases hmem

theorem freePhysical_eq (p : String) :
    freePhysical (pairedLinks b m) p = decide (p ∉ m.logical) := by
  rw [Bool.eq_iff_iff, decide_eq_true_eq, freePhysical, beq_iff_eq]
  constructor
  · intro he hl
    exact right_ne_empty hnone hl he
  · intro hl
    by_contra he
    exact hl (pairedLinks_matched.right_mem p he).1

theorem leftOver_physical : leftOver (freePhysical (pairedLinks b m)) (restPhysical b m) =
    (restPhysical b m).filter fun p => decide (p ∈ m.logical) := by
  apply List.filter_congr
  intro p _
  rw [freePhysical_eq hnone, decide_not, Bool.not_not]

theorem available_physical :
    available (freePhysical (pairedLinks b m)) m.physical (restPhysical b m) =
      m.physical.filter fun p => decide (p ∉ m.logical ∧ p ∉ restPhysical b m) := by
  apply List.filter_congr
  intro p _
  rw [freePhysical_eq hnone, Bool.decide_and]

theorem leftOver_physical_le :
    (leftOver (freePhysical (pairedLinks b m)) (restPhysical b m)).length ≤
      (available (freePhysical (pairedLinks b m)) m.physical (restPhysical b m)).length := by
  apply pairedLinks_matched.physical_leftOver_le restPhysical_spec.1 (fun p => mem_restPhysical)
  · intro p _
    exact beq_iff_eq
  · intro l hl
    exact right_ne_empty hnone hl

theorem physicalLinks_eq : physicalLinks b m = (ownLinks b m).bindAll
    (((b.sort ((restPhysical b m).filter fun p => decide (p ∈ m.logical))).zip
      (b.sort (m.physical.filter fun p =>
        decide (p ∉ m.logical ∧ p ∉ restPhysical b m)))).take 1) := by
  rw [physicalLinks, logicalLinks_eq hnone, overflowPairs, Links.bindAll_append,
    leftOver_physical hnone, available_physical hnone]
  rfl

/-- The first card left over that cannot keep its name is stored under the first card
available, and the loop is left after that. -/
theorem exists_available {p : String}
    (hp : (b.sort ((restPhysical b m).filter fun p => decide (p ∈ m.logical))).head? = some p) :
    ∃ v, (b.sort (m.physical.filter fun p' =>
        decide (p' ∉ m.logical ∧ p' ∉ restPhysical b m))).head? = some v ∧
      physicalLinks b m = (ownLinks b m).bind p v := by
  have hle := leftOver_physical_le (b := b) hnone
  rw [leftOver_physical hnone, available_physical hnone, ← (b.sort_perm _).length_eq,
    ← (b.sort_perm (m.physical.filter _)).length_eq] at hle
  have hlinks := physicalLinks_eq (b := b) hnone
  obtain ⟨ps, hps⟩ := List.head?_eq_some_iff.mp hp
  rw [hps] at hlinks hle
  cases hsort : b.sort (m.physical.filter fun p' =>
      decide (p' ∉ m.logical ∧ p' ∉ restPhysical b m)) with
  | nil =>
    rw [hsort] at hle
    exact absurd hle (by simp)
  | cons v vs =>
    rw [hsort] at hlinks
    exact ⟨v, rfl, hlinks⟩

theorem bindings_physical_iff {final : Maps} (hlinks : final.links = physicalLinks b m) :
    Bindings b m final ↔ BindingsStay b m := by
  constructor
  · intro hbind p hp
    obtain ⟨v, hv, heq⟩ := exists_available hnone hp
    obtain ⟨hrest, hl⟩ := List.mem_filter.mp (b.mem_sort.mp (List.mem_of_mem_head? hp))
    have hl := of_decide_eq_true hl
    have hdecl : m.Declares p (m.boundTo p) := declares_iff.mpr ⟨boundTo_ne_empty hrest hl, rfl⟩
    have hfinal : final.links.toRight p = m.boundTo p := (hbind p _ hdecl).1
    rw [hlinks, heq, Links.bind_toRight] at hfinal
    rw [hv, hfinal]
  · intro hstay
    apply bindings_of_kept
    rw [hlinks]
    cases hhead : (b.sort ((restPhysical b m).filter fun p => decide (p ∈ m.logical))).head? with
    | some p =>
      obtain ⟨v, hv, heq⟩ := exists_available hnone hhead
      obtain ⟨hrest, hl⟩ := List.mem_filter.mp (b.mem_sort.mp (List.mem_of_mem_head? hhead))
      have hl := of_decide_eq_true hl
      rw [hstay p hhead, Option.some.injEq] at hv
      subst hv
      have hkept := ownLinks_kept (b := b) (m := m)
      have hb := boundTo_ne_empty hrest hl
      have hright := hkept.kept p hb
      have hleft := (hkept.inverse p (m.boundTo p) (ne_empty_of_mem_logical hl) hb).mp hright
      rw [heq, Links.bind_eq_self hright hleft]
      exact hkept
    | none =>
      rw [physicalLinks_eq hnone, List.head?_eq_none_iff.mp hhead]
      exact ownLinks_kept

end Physical

/-- Where logical interfaces are left over, no card is, and the bindings stay. -/
theorem bindings_logical (hnone : restPhysical b m = []) {final : Maps}
    (hlinks : final.links = physicalLinks b m) : Bindings b m final := by
  apply bindings_of_kept
  rw [hlinks, physicalLinks, hnone, overflowPairs_nil]
  exact logicalLinks_kept

theorem keepsBindings_iff
    (hpair : ¬ (2 ≤ m.unsetLogical.length ∧ 2 ≤ m.unsetPhysical.length)) :
    KeepsBindings b m ↔ BindingsStay b m := by
  have hiff {final : Maps} (hlinks : final.links = physicalLinks b m) :
      Bindings b m final ↔ BindingsStay b m := by
    by_cases hnone : restLogical b m = []
    · exact bindings_physical_iff hnone hlinks
    · have hnil := restPhysical_eq_nil (c := b) hnone
      refine iff_of_true (bindings_logical hnil hlinks) fun p hp => ?_
      have hmem := List.mem_of_mem_filter (b.mem_sort.mp (List.mem_of_mem_head? hp))
      rw [hnil] at hmem
      cases hmem
  constructor
  · rintro ⟨fuel, final, hrun, hbind⟩
    exact (hiff (mapInterfaces_eq_some hpair hrun)).mp hbind
  · intro hstay
    obtain ⟨final, hrun⟩ := mapInterfaces_isSome (b := b) hpair
    exact ⟨3, final, hrun, (hiff (mapInterfaces_eq_some hpair hrun)).mpr hstay⟩

/-- Two cards, each declared under the name of the other. -/
def crossed : Machine where
  nics := [⟨"eth0", "52:54:00:00:00:0a"⟩, ⟨"eth1", "52:54:00:00:00:0b"⟩]
  interfaces := [⟨"eth0", "52:54:00:00:00:0b", ""⟩, ⟨"eth1", "52:54:00:00:00:0a", ""⟩]
  nic_word := by decide
  nic_mac := by decide
  nics_nodup := by decide
  macs_nodup := by decide
  entry_word := by decide
  entries_nodup := by decide
  declared_nodup := by decide

theorem keepsBindings_crossed : KeepsBindings Bash.plain crossed :=
  (keepsBindings_iff (by decide +kernel)).mpr (by unfold BindingsStay; decide +kernel)

/-- Three cards, where each of the first two names is declared for the next card. -/
def shifted : Machine where
  nics := [⟨"eth0", "52:54:00:00:00:0a"⟩, ⟨"eth1", "52:54:00:00:00:0b"⟩,
    ⟨"eth2", "52:54:00:00:00:0c"⟩]
  interfaces := [⟨"eth0", "52:54:00:00:00:0b", ""⟩, ⟨"eth1", "52:54:00:00:00:0c", ""⟩]
  nic_word := by decide
  nic_mac := by decide
  nics_nodup := by decide
  macs_nodup := by decide
  entry_word := by decide
  entries_nodup := by decide
  declared_nodup := by decide

/-- `eth0` declares the address of `eth1` and ends up with the card `eth2`. -/
theorem shifted_loses_binding :
    ¬ (2 ≤ shifted.unsetLogical.length ∧ 2 ≤ shifted.unsetPhysical.length) ∧
    shifted.Declares "eth0" "eth1" ∧
    (mapInterfaces Bash.plain 3 shifted.nics shifted.interfaces).map
      (fun final => final.logical_interface_mapping.get "eth0") = some "eth2" ∧
    ¬ KeepsBindings Bash.plain shifted := by
  have hdecl : shifted.Declares "eth0" "eth1" :=
    ⟨"52:54:00:00:00:0B", by decide, ⟨"eth1", "52:54:00:00:00:0b"⟩, by decide, rfl, by decide⟩
  refine ⟨by decide +kernel, hdecl, by decide +kernel, ?_⟩
  rintro ⟨fuel, final, hrun, hbind⟩
  have hfinal : final.links.toRight "eth0" = "eth1" := (hbind _ _ hdecl).1
  rw [mapInterfaces_eq_some (by decide +kernel) hrun] at hfinal
  exact absurd hfinal (by decide +kernel)

end Outcome

end CompassAdapters.Network.Kickstart
