import CompassAdapters.Network.KickstartMapping
import CompassAdapters.Network.Leftover

/-! The arrays of `kickstart_post_install_network_config` seen as links, phase by phase. -/
namespace CompassAdapters.Network.Kickstart
open Shell Matching Machine

def Maps.links (maps : Maps) : Links String :=
  ⟨maps.logical_interface_mapping.get, maps.physical_interface_mapping.get⟩

theorem Maps.links_bind (maps : Maps) {l p : String} (hl : l ≠ "") (hp : p ≠ "") :
    (maps.bind l p).links = maps.links.bind l p := by
  apply Links.ext
  · exact AssocArray.get_assign _ hl p
  · exact AssocArray.get_assign _ hp l

theorem Maps.links_foldl_bind (maps : Maps) {ps : List (String × String)}
    (h : ∀ x ∈ ps, x.1 ≠ "" ∧ x.2 ≠ "") :
    (ps.foldl (fun maps x => maps.bind x.1 x.2) maps).links = maps.links.bindAll ps := by
  induction ps generalizing maps with
  | nil => rfl
  | cons x ps ih =>
    obtain ⟨⟨hl, hp⟩, h⟩ := List.forall_mem_cons.mp h
    rw [List.foldl_cons, ih _ h, maps.links_bind hl hp]
    rfl

section Cards

variable (b : Bash) (m : Machine)

theorem sysAddress_name {nic : Nic} (h : nic ∈ m.nics) : sysAddress m.nics nic.name = nic.mac := by
  rw [sysAddress]
  cases hfind : m.nics.find? fun n => n.name == nic.name with
  | none =>
    rw [List.find?_eq_none] at hfind
    exact absurd (beq_self_eq_true _) (hfind nic h)
  | some n =>
    have hname : n.name = nic.name := by simpa using List.find?_some hfind
    rw [List.inj_on_of_nodup_map m.nics_nodup (List.mem_of_find?_eq_some hfind) h hname]
    rfl

theorem physical_interfaces_spec : (readCards b m.nics).physical_interfaces.IsSet ∧
    ∀ x, x ∈ (readCards b m.nics).physical_interfaces.keys ↔ x ∈ m.physical :=
  AssocArray.ofNames_spec fun _ hx => ne_empty_of_mem_physical (m := m) hx

/-- The cards in the order of the loop that reads their addresses. -/
theorem listed_perm : (b.values 77 (readCards b m.nics).physical_interfaces).Perm m.physical :=
  b.values_ofNames_perm 77 m.physical_nodup fun _ hx => ne_empty_of_mem_physical hx

theorem listed_macs : ((b.values 77 (readCards b m.nics).physical_interfaces).map
    fun p => upper (sysAddress m.nics p)).Perm (m.nics.map fun nic => upper nic.mac) := by
  have hmap : m.physical.map (fun p => upper (sysAddress m.nics p)) =
      m.nics.map fun nic => upper nic.mac := by
    rw [Machine.physical, List.map_map]
    apply List.map_congr_left
    intro nic hnic
    exact congrArg upper (sysAddress_name m hnic)
  rw [← hmap]
  exact (listed_perm b m).map _

theorem get_mac_interface (mac : String) :
    (readCards b m.nics).physical_mac_interface.get mac = m.card mac := by
  have hmacs := listed_macs b m
  have hne : ∀ p ∈ b.values 77 (readCards b m.nics).physical_interfaces,
      upper (sysAddress m.nics p) ≠ "" := by
    intro p hp he
    obtain ⟨nic, hnic, hmac⟩ := List.mem_map.mp (hmacs.mem_iff.mp (List.mem_map_of_mem hp))
    exact m.nic_mac nic hnic (upper_eq_empty.mp (hmac.trans he))
  obtain ⟨hin, hout⟩ := AssocArray.get_foldl_assign (fun p => upper (sysAddress m.nics p))
    (fun p => p) hne (hmacs.nodup_iff.mpr m.macs_nodup) ∅
  by_cases hex : ∃ nic ∈ m.nics, upper nic.mac = mac
  · obtain ⟨nic, hnic, rfl⟩ := hex
    have h := hin nic.name ((listed_perm b m).mem_iff.mpr (List.mem_map_of_mem hnic))
    rw [sysAddress_name m hnic] at h
    exact h.trans (card_eq hnic).symm
  · have hempty : m.card mac = "" := by
      by_contra hcard
      obtain ⟨-, nic, hnic, -, hmac⟩ := exists_of_card hcard
      exact hex ⟨nic, hnic, hmac⟩
    rw [hempty]
    apply hout
    intro hmem
    obtain ⟨nic, hnic, hmac⟩ := List.mem_map.mp (hmacs.mem_iff.mp hmem)
    exact hex ⟨nic, hnic, hmac⟩

theorem get_interface_mac : (∀ nic ∈ m.nics,
      (readCards b m.nics).physical_interface_mac.get nic.name = upper nic.mac) ∧
    ∀ p, p ∉ m.physical → (readCards b m.nics).physical_interface_mac.get p = "" := by
  have hperm := listed_perm b m
  have hnodup : ((b.values 77 (readCards b m.nics).physical_interfaces).map fun p => p).Nodup := by
    rw [List.map_id']
    exact hperm.nodup_iff.mpr m.physical_nodup
  obtain ⟨hin, hout⟩ := AssocArray.get_foldl_assign (fun p => p)
    (fun p => upper (sysAddress m.nics p))
    (fun p hp => ne_empty_of_mem_physical (hperm.mem_iff.mp hp)) hnodup ∅
  constructor
  · intro nic hnic
    have h := hin nic.name (hperm.mem_iff.mpr (List.mem_map_of_mem hnic))
    rw [sysAddress_name m hnic] at h
    exact h
  · intro p hp
    apply hout
    rw [List.map_id', hperm.mem_iff]
    exact hp

end Cards

section Declared

variable {b : Bash} {m : Machine}

theorem bindEntry_links {pmi : AssocArray} (hpmi : ∀ mac, pmi.get mac = m.card mac) {maps : Maps}
    {e : String × String} (he : e.1 ≠ "") (hunset : maps.links.toRight e.1 = "") :
    (bindEntry pmi maps e).links =
      if m.card e.2 ≠ "" then maps.links.bind e.1 (m.card e.2) else maps.links := by
  have hsame : Function.update maps.logical_interface_mapping.get e.1 "" =
      maps.logical_interface_mapping.get := by
    rw [← hunset]
    exact Function.update_eq_self _ _
  obtain ⟨l, mac⟩ := e
  unfold bindEntry
  simp only [hpmi]
  split
  next hmac =>
    split
    next hcard =>
      apply Links.ext
      · exact AssocArray.get_assign _ he _
      · exact AssocArray.get_assign _ hcard _
    next hcard =>
      rw [not_not] at hcard
      apply Links.ext
      · show AssocArray.get (AssocArray.assign _ _ _) = _
        rw [AssocArray.get_assign _ he, hcard]
        exact hsame
      · rfl
  next hmac =>
    rw [not_not] at hmac
    subst hmac
    rw [if_neg (not_not.mpr card_empty)]
    split
    next =>
      apply Links.ext
      · show AssocArray.get (AssocArray.assign _ _ _) = _
        rw [AssocArray.get_assign _ he]
        exact hsame
      · rfl
    next => rfl

theorem bindEntry_keys (pmi : AssocArray) (maps : Maps) {e : String × String} (he : e.1 ≠ "")
    (x : String) : x ∈ (bindEntry pmi maps e).logical_interface_mapping.keys ↔
      x = e.1 ∨ x ∈ maps.logical_interface_mapping.keys := by
  obtain ⟨l, mac⟩ := e
  unfold bindEntry
  simp only
  split
  next =>
    split
    next => exact AssocArray.mem_keys_assign _ he _ _
    next => exact AssocArray.mem_keys_assign _ he _ _
  next =>
    split
    next => exact AssocArray.mem_keys_assign _ he _ _
    next hset =>
      have hmem : l ∈ maps.logical_interface_mapping.keys := by
        by_contra hnot
        exact hset (AssocArray.get_of_not_mem hnot)
      constructor
      · exact Or.inr
      · rintro (rfl | hx)
        · exact hmem
        · exact hx

/-- The code generated from the configuration stores the declared links. -/
theorem bindDeclared_spec {pmi : AssocArray} (hpmi : ∀ mac, pmi.get mac = m.card mac) :
    (bindDeclared pmi (entries m.interfaces)).links = m.declared ∧
    ∀ x, x ∈ (bindDeclared pmi (entries m.interfaces)).logical_interface_mapping.keys ↔
      x ∈ m.logical := by
  constructor
  · refine foldl_declared Maps.links (bindEntry pmi) (fun maps e he hunset => ?_) ⟨∅, ∅⟩ rfl
    exact bindEntry_links hpmi (m.entry_word e he).ne_empty hunset
  · have hkeys (es : List (String × String)) (hne : ∀ e ∈ es, e.1 ≠ "") (maps : Maps)
        (x : String) : x ∈ (es.foldl (bindEntry pmi) maps).logical_interface_mapping.keys ↔
          x ∈ es.map Prod.fst ∨ x ∈ maps.logical_interface_mapping.keys := by
      induction es generalizing maps with
      | nil => simp
      | cons e es ih =>
        obtain ⟨he, hne⟩ := List.forall_mem_cons.mp hne
        rw [List.foldl_cons, ih hne, bindEntry_keys pmi maps he, List.map_cons, List.mem_cons]
        tauto
    intro x
    refine (hkeys _ (fun e he => (m.entry_word e he).ne_empty) ⟨∅, ∅⟩ x).trans ?_
    show x ∈ m.logical ∨ x ∈ (∅ : AssocArray).keys ↔ x ∈ m.logical
    simp

theorem bindSameName_links {maps : Maps} {l : String} (hl : l ≠ "") :
    (bindSameName (readCards b m.nics).physical_interfaces maps l).links =
      if m.sameNameTest maps.links l then maps.links.bind l l else maps.links := by
  obtain ⟨hset, hmem⟩ := physical_interfaces_spec b m
  have hget : (readCards b m.nics).physical_interfaces.get l ≠ "" ↔ l ∈ m.physical := by
    rw [hset.get_eq, ← hmem]
    split
    next h => exact ⟨fun _ => h, fun _ => hl⟩
    next h => exact ⟨fun he => absurd rfl he, fun h' => absurd h' h⟩
  rw [sameNameTest]
  by_cases htest : maps.links.toRight l = "" ∧ maps.links.toLeft l = "" ∧ l ∈ m.physical
  · obtain ⟨hr, hp, hin⟩ := id htest
    rw [if_pos (decide_eq_true htest), ← maps.links_bind hl hl, bindSameName]
    exact congrArg Maps.links ((if_pos hr).trans ((if_pos hp).trans (if_pos (hget.mpr hin))))
  · rw [decide_eq_false htest, if_neg Bool.false_ne_true, bindSameName]
    split
    next hr =>
      split
      next hp =>
        rw [if_neg fun hin => htest ⟨hr, hp, hget.mp hin⟩]
      next => rfl
    next => rfl

/-- The links after the loop over equal names. -/
theorem foldl_bindSameName {ks : List String} (hks : ks.Perm m.logical) {maps : Maps}
    (hmaps : maps.links = m.declared) :
    (ks.foldl (bindSameName (readCards b m.nics).physical_interfaces) maps).links = m.named := by
  have hne : ∀ l ∈ ks, l ≠ "" := fun l hl => ne_empty_of_mem_logical (hks.mem_iff.mp hl)
  rw [← foldl_sameName hks, ← hmaps]
  clear hks hmaps
  induction ks generalizing maps with
  | nil => rfl
  | cons l ks ih =>
    obtain ⟨hl, hne⟩ := List.forall_mem_cons.mp hne
    rw [List.foldl_cons, ih hne, bindSameName_links hl]
    rfl

end Declared

section Strike

variable (assign : Maps → String → String → Maps)

theorem strike_foldl (ps : List (String × String)) (v : Vars) :
    (ps.foldl (fun v x => strike assign x.1 x.2 v) v).maps =
      ps.foldl (fun maps x => assign maps x.1 x.2) v.maps := by
  induction ps generalizing v with
  | nil => rfl
  | cons x ps ih => exact ih _

theorem strike_foldl_left (ps : List (String × String)) {v : Vars} (h : v.left.IsSet) :
    (ps.foldl (fun v x => strike assign x.1 x.2 v) v).left.IsSet ∧
    ∀ x, x ∈ (ps.foldl (fun v x => strike assign x.1 x.2 v) v).left.keys ↔
      x ∈ v.left.keys ∧ x ∉ ps.map Prod.fst := by
  induction ps generalizing v with
  | nil => simpa using h
  | cons y ps ih =>
    obtain ⟨hset, hmem⟩ := ih (v := strike assign y.1 y.2 v) (h.unset y.1)
    refine ⟨hset, fun x => (hmem x).trans ?_⟩
    show x ∈ (v.left.unset y.1).keys ∧ x ∉ ps.map Prod.fst ↔ _
    rw [AssocArray.mem_keys_unset, List.map_cons, List.mem_cons]
    tauto

theorem strike_foldl_right (ps : List (String × String)) {v : Vars} (h : v.right.IsSet) :
    (ps.foldl (fun v x => strike assign x.1 x.2 v) v).right.IsSet ∧
    ∀ x, x ∈ (ps.foldl (fun v x => strike assign x.1 x.2 v) v).right.keys ↔
      x ∈ v.right.keys ∧ x ∉ ps.map Prod.snd := by
  induction ps generalizing v with
  | nil => simpa using h
  | cons y ps ih =>
    obtain ⟨hset, hmem⟩ := ih (v := strike assign y.1 y.2 v) (h.unset y.2)
    refine ⟨hset, fun x => (hmem x).trans ?_⟩
    show x ∈ (v.right.unset y.2).keys ∧ x ∉ ps.map Prod.snd ↔ _
    rw [AssocArray.mem_keys_unset, List.map_cons, List.mem_cons]
    tauto

/-- The loop of a phase for names left over in which a free name is taken by itself. -/
theorem foldl_own {xs : List String} (hxs : xs.Nodup) (hne : ∀ x ∈ xs, x ≠ "") {v : Vars}
    (hv : v.right.IsSet) :
    xs.foldl (fun (v : Vars) x =>
      let name := v.right.get x
      if name ≠ "" then strike assign x name v else v) v =
    ((xs.filter fun x => decide (x ∈ v.right.keys)).map fun x => (x, x)).foldl
      (fun v x => strike assign x.1 x.2 v) v := by
  induction xs generalizing v with
  | nil => rfl
  | cons x xs ih =>
    obtain ⟨hx, hxs⟩ := List.nodup_cons.mp hxs
    obtain ⟨hxne, hne⟩ := List.forall_mem_cons.mp hne
    rw [List.foldl_cons]
    by_cases hin : x ∈ v.right.keys
    · have hsame : xs.filter (fun y => decide (y ∈ (v.right.unset x).keys)) =
          xs.filter fun y => decide (y ∈ v.right.keys) := by
        apply List.filter_congr
        intro y hy
        have hyx : y ≠ x := fun he => hx (he ▸ hy)
        rw [decide_eq_decide, AssocArray.mem_keys_unset]
        exact and_iff_right hyx
      have hget : v.right.get x = x := hv x hin
      simp only [hget]
      rw [if_pos hxne, ih hxs hne (hv.unset x), List.filter_cons, if_pos (decide_eq_true hin),
        List.map_cons, List.foldl_cons]
      exact congrArg _ (congrArg _ hsame)
    · have hget : v.right.get x = "" := AssocArray.get_of_not_mem hin
      simp only [hget]
      rw [if_neg (not_not.mpr rfl), List.filter_cons, decide_eq_false hin,
        if_neg Bool.false_ne_true, ih hxs hne hv]

end Strike

/-- The pairs that a phase for names left over stores: its last loop has a single round. -/
def overflowPairs (b : Bash) (free : String → Bool) (names rest : List String) :
    List (String × String) :=
  ((ownNames free rest).map fun x => (x, x)) ++
    ((b.sort (leftOver free rest)).zip (b.sort (available free names rest))).take 1

section Spread

variable (b : Bash) (places : ℕ × ℕ × ℕ) (free : Maps → String → Bool)
variable (same other : Maps → String → String → Maps) (maps : Maps) {names unset : AssocArray}
variable {ns : List String} {rest : IndexedArray}
variable (hnames : names.IsSet) (hns : ns.Nodup) (hmem : ∀ x, x ∈ names.keys ↔ x ∈ ns)
variable (hns_ne : ∀ x ∈ ns, x ≠ "") (hrest : rest.values.Nodup) (hsub : ∀ x ∈ rest.values, x ∈ ns)
variable (hunset : unset.IsSet) (hunset_mem : ∀ x, x ∈ unset.keys ↔ x ∈ rest.values)
include hnames hns hmem hns_ne hrest hsub hunset hunset_mem

/-- The phase comes down to its pairing loop over the names left over and those available. -/
theorem spread_eq (fuel : ℕ) (hpos : 0 < rest.count) : ∃ v : Vars,
    v.maps = (ownNames (free maps) rest.values).foldl (fun maps x => same maps x x) maps ∧
    spread b fuel places free same other names rest unset maps =
      (Pairing.loop (tryStrike other) fuel
        (Pairing.ofWords (b.sort (leftOver (free maps) rest.values))
          (b.sort (available (free maps) ns rest.values)) v)).map fun p => p.vars.maps := by
  obtain ⟨hset, hkeys⟩ := b.collect_values_spec places.1 (free maps) hnames
    (fun x hx => hns_ne x ((hmem x).mp hx))
  have hown : rest.values.filter (fun x => decide (x ∈ (AssocArray.collect (free maps)
      (b.values places.1 names)).keys)) = ownNames (free maps) rest.values := by
    apply List.filter_congr
    intro x hx
    rw [Bool.eq_iff_iff, decide_eq_true_eq, hkeys, hmem]
    exact and_iff_right (hsub x hx)
  have hfst : ((ownNames (free maps) rest.values).map fun x => (x, x)).map Prod.fst =
      ownNames (free maps) rest.values := by
    simp [Function.comp_def]
  have hsnd : ((ownNames (free maps) rest.values).map fun x => (x, x)).map Prod.snd =
      ownNames (free maps) rest.values := by
    simp [Function.comp_def]
  let v : Vars := ⟨maps, unset, AssocArray.collect (free maps) (b.values places.1 names)⟩
  let own := (ownNames (free maps) rest.values).map fun x => (x, x)
  obtain ⟨hleft, hleft_mem⟩ := strike_foldl_left same own (v := v) hunset
  obtain ⟨hright, hright_mem⟩ := strike_foldl_right same own (v := v) hset
  refine ⟨own.foldl (fun v x => strike same x.1 x.2 v) v, ?_, ?_⟩
  · rw [strike_foldl, List.foldl_map]
  · rw [spread, if_pos hpos]
    simp only
    rw [foldl_own same hrest (fun x hx => hns_ne x (hsub x hx)) hset, hown]
    rw [b.sort_values places.2.1 hleft (hrest.filter fun x => !free maps x),
      b.sort_values places.2.2 hright (hns.filter fun x => free maps x && decide (x ∉ rest.values))]
    · rfl
    · intro x
      rw [hright_mem, hsnd, hkeys, hmem]
      simp only [ownNames, List.mem_filter, Bool.and_eq_true, decide_eq_true_eq]
      tauto
    · intro x
      rw [hleft_mem, hfst, hunset_mem]
      simp only [ownNames, List.mem_filter, Bool.not_eq_true']
      cases free maps x <;> simp

omit hnames hns hmem hrest hunset hunset_mem in
theorem sort_rest_ne : (∀ x ∈ b.sort (leftOver (free maps) rest.values), x ≠ "") ∧
    ∀ y ∈ b.sort (available (free maps) ns rest.values), y ≠ "" :=
  ⟨fun _ hx => hns_ne _ (hsub _ (List.mem_of_mem_filter (b.mem_sort.mp hx))),
    fun _ hy => hns_ne _ (List.mem_of_mem_filter (b.mem_sort.mp hy))⟩

variable (hsame : ∀ maps x, same maps x x = maps.bind x x)
variable (hother : ∀ maps x y, other maps x y = maps.bind x y)

theorem spread_isSome : ∃ maps',
    spread b 3 places free same other names rest unset maps = some maps' := by
  by_cases hpos : 0 < rest.count
  · obtain ⟨v, -, heq⟩ := spread_eq b places free same other maps hnames hns hmem hns_ne
      hrest hsub hunset hunset_mem 3 hpos
    obtain ⟨hleft, hright⟩ := sort_rest_ne b free maps hns_ne hsub
    rw [heq, Pairing.loop_breaks (tryStrike_does _ hleft hright) (tryStrike_empty other) 0]
    exact ⟨_, rfl⟩
  · rw [spread, if_neg hpos]
    exact ⟨maps, rfl⟩

include hsame hother

theorem spread_eq_some {fuel : ℕ} {maps' : Maps}
    (h : spread b fuel places free same other names rest unset maps = some maps') :
    maps'.links = maps.links.bindAll (overflowPairs b (free maps) ns rest.values) := by
  by_cases hpos : 0 < rest.count
  · obtain ⟨v, hv, heq⟩ := spread_eq b places free same other maps hnames hns hmem hns_ne
      hrest hsub hunset hunset_mem fuel hpos
    rw [heq, Option.map_eq_some_iff] at h
    obtain ⟨p, hp, rfl⟩ := h
    obtain ⟨hleft, hright⟩ := sort_rest_ne b free maps hns_ne hsub
    obtain rfl := Pairing.loop_eq_some hp
      (Pairing.loop_breaks (tryStrike_does _ hleft hright) (tryStrike_empty other) 0)
    rw [Pairing.result_vars, strike_foldl, hv, overflowPairs, Links.bindAll_append]
    simp only [hsame, hother]
    have hown : (ownNames (free maps) rest.values).foldl (fun maps x => maps.bind x x) maps =
        ((ownNames (free maps) rest.values).map fun x => (x, x)).foldl
          (fun maps x => maps.bind x.1 x.2) maps := by
      rw [List.foldl_map]
    rw [hown, Maps.links_foldl_bind, Maps.links_foldl_bind]
    · intro x hx
      obtain ⟨y, hy, rfl⟩ := List.mem_map.mp hx
      have hne := hns_ne y (hsub y (List.mem_of_mem_filter hy))
      exact ⟨hne, hne⟩
    · intro x hx
      obtain ⟨hl, hr⟩ := List.of_mem_zip (List.mem_of_mem_take hx)
      exact ⟨hleft _ hl, hright _ hr⟩
  · have hnil : rest.values = [] := List.length_eq_zero_iff.mp (Nat.eq_zero_of_not_pos hpos)
    rw [spread, if_neg hpos] at h
    cases h
    simp [overflowPairs, hnil, ownNames, leftOver]

end Spread

section Phases

variable (b : Bash) (m : Machine)

/-- Names of logical interfaces that no logical interface is linked to. -/
def freeLogical (k : Links String) (l : String) : Bool := k.toLeft l == ""

/-- Names of cards that are not linked to a card. -/
def freePhysical (k : Links String) (p : String) : Bool := k.toRight p == ""

def logicalLinks : Links String :=
  (pairedLinks b m).bindAll
    (overflowPairs b (freeLogical (pairedLinks b m)) m.logical (restLogical b m))

def physicalLinks : Links String :=
  (logicalLinks b m).bindAll
    (overflowPairs b (freePhysical (logicalLinks b m)) m.physical (restPhysical b m))

theorem logical_interfaces_spec : (AssocArray.ofNames m.logical).IsSet ∧
    ∀ x, x ∈ (AssocArray.ofNames m.logical).keys ↔ x ∈ m.logical :=
  AssocArray.ofNames_spec fun _ hx => ne_empty_of_mem_logical hx

/-- The phases after the loop over equal names. -/
def mapLeftOver (fuel : ℕ) (maps : Maps) (unset_logical unset_physical : AssocArray) :
    Option Maps :=
  (Pairing.loop (tryStrike fun maps p l => maps.bind l p) fuel
    (Pairing.ofWords (b.sort m.unsetPhysical) (b.sort m.unsetLogical)
      ⟨maps, unset_physical, unset_logical⟩)).bind fun paired =>
  (spreadLogical b fuel (AssocArray.ofNames m.logical)
    paired.right paired.vars.right paired.vars.maps).bind fun maps =>
  spreadPhysical b fuel (readCards b m.nics).physical_interfaces paired.left paired.vars.left maps

theorem unset_logical_spec {maps : Maps} (h : maps.links = m.named) :
    (AssocArray.collect (fun l => maps.logical_interface_mapping.get l == "")
      (b.values 180 (AssocArray.ofNames m.logical))).IsSet ∧
    ∀ x, x ∈ (AssocArray.collect (fun l => maps.logical_interface_mapping.get l == "")
      (b.values 180 (AssocArray.ofNames m.logical))).keys ↔ x ∈ m.unsetLogical := by
  obtain ⟨hset, hmem⟩ := logical_interfaces_spec m
  obtain ⟨hset', hmem'⟩ := b.collect_values_spec 180
    (fun l => maps.logical_interface_mapping.get l == "") hset
    (fun x hx => ne_empty_of_mem_logical ((hmem x).mp hx))
  refine ⟨hset', fun x => (hmem' x).trans ?_⟩
  rw [hmem, ← filter_named_right, List.mem_filter, ← h]
  rfl

theorem unset_physical_spec {maps : Maps} (h : maps.links = m.named) :
    (AssocArray.collect (fun p => maps.physical_interface_mapping.get p == "")
      (b.values 191 (readCards b m.nics).physical_interfaces)).IsSet ∧
    ∀ x, x ∈ (AssocArray.collect (fun p => maps.physical_interface_mapping.get p == "")
      (b.values 191 (readCards b m.nics).physical_interfaces)).keys ↔ x ∈ m.unsetPhysical := by
  obtain ⟨hset, hmem⟩ := physical_interfaces_spec b m
  obtain ⟨hset', hmem'⟩ := b.collect_values_spec 191
    (fun p => maps.physical_interface_mapping.get p == "") hset
    (fun x hx => ne_empty_of_mem_physical ((hmem x).mp hx))
  refine ⟨hset', fun x => (hmem' x).trans ?_⟩
  rw [hmem, ← filter_named_left, List.mem_filter, ← h]
  rfl

theorem mapInterfaces_eq : ∃ maps unset_logical unset_physical,
    maps.links = m.named ∧
    (unset_logical.IsSet ∧ ∀ x, x ∈ unset_logical.keys ↔ x ∈ m.unsetLogical) ∧
    (unset_physical.IsSet ∧ ∀ x, x ∈ unset_physical.keys ↔ x ∈ m.unsetPhysical) ∧
    ∀ fuel, mapInterfaces b fuel m.nics m.interfaces =
      mapLeftOver b m fuel maps unset_logical unset_physical := by
  obtain ⟨hdeclared, hkeys⟩ := bindDeclared_spec (m := m) (get_mac_interface b m)
  have hks : (b.keys 146 (bindDeclared (readCards b m.nics).physical_mac_interface
      (entries m.interfaces)).logical_interface_mapping).Perm m.logical := by
    rw [List.perm_ext_iff_of_nodup (b.keys_nodup _ _) logical_nodup]
    intro x
    rw [b.mem_keys, hkeys]
  have hlinks := foldl_bindSameName (b := b) hks hdeclared
  have hlogical := unset_logical_spec b m hlinks
  have hphysical := unset_physical_spec b m hlinks
  refine ⟨_, _, _, hlinks, hlogical, hphysical, fun fuel => ?_⟩
  rw [mapLeftOver, ← b.sort_values 203 hlogical.1 unsetLogical_nodup hlogical.2,
    ← b.sort_values 201 hphysical.1 unsetPhysical_nodup hphysical.2]
  rfl

variable {b m}

theorem sort_unset_ne : (∀ l ∈ b.sort m.unsetLogical, l ≠ "") ∧
    ∀ p ∈ b.sort m.unsetPhysical, p ≠ "" := by
  constructor
  · intro l hl
    exact ne_empty_of_mem_logical (List.mem_of_mem_filter (b.mem_sort.mp hl))
  · intro p hp
    exact ne_empty_of_mem_physical (List.mem_of_mem_filter (b.mem_sort.mp hp))

/-- The first pairing loop leaves the paired links, and in all its arrays the names without a
partner. -/
theorem paired_spec {maps : Maps} {unset_logical unset_physical : AssocArray}
    (hmaps : maps.links = m.named)
    (hlogical : unset_logical.IsSet ∧ ∀ x, x ∈ unset_logical.keys ↔ x ∈ m.unsetLogical)
    (hphysical : unset_physical.IsSet ∧ ∀ x, x ∈ unset_physical.keys ↔ x ∈ m.unsetPhysical)
    {p : Pairing Vars}
    (hpair : ¬ (2 ≤ m.unsetLogical.length ∧ 2 ≤ m.unsetPhysical.length))
    (hp : p = Pairing.result (strike fun maps p l => maps.bind l p) (b.sort m.unsetPhysical)
      (b.sort m.unsetLogical) ⟨maps, unset_physical, unset_logical⟩) :
    p.vars.maps.links = pairedLinks b m ∧
    (p.right.values = restLogical b m ∧ p.vars.right.IsSet ∧
      ∀ x, x ∈ p.vars.right.keys ↔ x ∈ p.right.values) ∧
    (p.left.values = restPhysical b m ∧ p.vars.left.IsSet ∧
      ∀ x, x ∈ p.vars.left.keys ↔ x ∈ p.left.values) := by
  subst hp
  have hlen : ¬ (2 ≤ (b.sort m.unsetPhysical).length ∧ 2 ≤ (b.sort m.unsetLogical).length) := by
    rw [(b.sort_perm _).length_eq, (b.sort_perm _).length_eq]
    exact fun h => hpair h.symm
  obtain ⟨hvars, hleft, hright⟩ := Pairing.result_spec
    (strike fun maps p l => maps.bind l p) ⟨maps, unset_physical, unset_logical⟩ hlen
  rw [hvars, hleft, hright]
  refine ⟨?_, ⟨rfl, ?_⟩, ⟨rfl, ?_⟩⟩
  · have hswap : ((b.sort m.unsetPhysical).zip (b.sort m.unsetLogical)).foldl
        (fun maps x => maps.bind x.2 x.1) maps =
        ((b.sort m.unsetLogical).zip (b.sort m.unsetPhysical)).foldl
          (fun maps x => maps.bind x.1 x.2) maps := by
      rw [← List.zip_swap (b.sort m.unsetPhysical), List.foldl_map]
      rfl
    rw [strike_foldl, hswap, Maps.links_foldl_bind, hmaps]
    · rfl
    · intro x hx
      obtain ⟨hl, hr⟩ := List.of_mem_zip hx
      exact ⟨sort_unset_ne.1 _ hl, sort_unset_ne.2 _ hr⟩
  · obtain ⟨hset, hmem⟩ := strike_foldl_right (fun maps p l => maps.bind l p)
      ((b.sort m.unsetPhysical).zip (b.sort m.unsetLogical))
      (v := ⟨maps, unset_physical, unset_logical⟩) hlogical.1
    refine ⟨hset, fun x => (hmem x).trans ?_⟩
    rw [map_snd_zip, mem_drop_iff ((b.sort_perm _).nodup_iff.mpr unsetLogical_nodup), b.mem_sort]
    exact and_congr_left' (hlogical.2 x)
  · obtain ⟨hset, hmem⟩ := strike_foldl_left (fun maps p l => maps.bind l p)
      ((b.sort m.unsetPhysical).zip (b.sort m.unsetLogical))
      (v := ⟨maps, unset_physical, unset_logical⟩) hphysical.1
    refine ⟨hset, fun x => (hmem x).trans ?_⟩
    rw [map_fst_zip, mem_drop_iff ((b.sort_perm _).nodup_iff.mpr unsetPhysical_nodup), b.mem_sort]
    exact and_congr_left' (hphysical.2 x)

section Steps

variable {rest : IndexedArray} {unset : AssocArray} {maps : Maps}
variable (hunset : unset.IsSet) (hunset_mem : ∀ x, x ∈ unset.keys ↔ x ∈ rest.values)
include hunset hunset_mem

theorem spreadLogical_eq_some (hrest : rest.values = restLogical b m) {fuel : ℕ} {maps' : Maps}
    (h : spreadLogical b fuel (AssocArray.ofNames m.logical) rest unset maps =
      some maps') :
    maps'.links =
      maps.links.bindAll (overflowPairs b (freeLogical maps.links) m.logical (restLogical b m)) := by
  obtain ⟨hset, hmem⟩ := logical_interfaces_spec m
  have hnodup : rest.values.Nodup := hrest.symm ▸ restLogical_spec.1
  have hsub : ∀ x ∈ rest.values, x ∈ m.logical := hrest.symm ▸ restLogical_spec.2
  unfold spreadLogical at h
  rw [← hrest]
  refine spread_eq_some _ _ _ _ _ _ hset logical_nodup hmem (fun _ hl => ne_empty_of_mem_logical hl)
    hnodup hsub hunset hunset_mem ?_ ?_ h
  · intro maps x
    rfl
  · intro maps x y
    rfl

theorem spreadLogical_isSome (hrest : rest.values = restLogical b m) :
    ∃ maps', spreadLogical b 3 (AssocArray.ofNames m.logical) rest unset maps =
      some maps' := by
  obtain ⟨hset, hmem⟩ := logical_interfaces_spec m
  have hnodup : rest.values.Nodup := hrest.symm ▸ restLogical_spec.1
  have hsub : ∀ x ∈ rest.values, x ∈ m.logical := hrest.symm ▸ restLogical_spec.2
  unfold spreadLogical
  exact spread_isSome _ _ _ _ _ _ hset logical_nodup hmem (fun _ hl => ne_empty_of_mem_logical hl)
    hnodup hsub hunset hunset_mem

theorem spreadPhysical_eq_some (hrest : rest.values = restPhysical b m) {fuel : ℕ} {maps' : Maps}
    (h : spreadPhysical b fuel (readCards b m.nics).physical_interfaces rest unset maps =
      some maps') :
    maps'.links =
      maps.links.bindAll
        (overflowPairs b (freePhysical maps.links) m.physical (restPhysical b m)) := by
  obtain ⟨hset, hmem⟩ := physical_interfaces_spec b m
  have hnodup : rest.values.Nodup := hrest.symm ▸ restPhysical_spec.1
  have hsub : ∀ x ∈ rest.values, x ∈ m.physical := hrest.symm ▸ restPhysical_spec.2
  unfold spreadPhysical at h
  rw [← hrest]
  refine spread_eq_some _ _ _ _ _ _ hset physical_nodup hmem
    (fun _ hp => ne_empty_of_mem_physical hp) hnodup hsub hunset hunset_mem ?_ ?_ h
  · intro maps x
    rfl
  · intro maps x y
    rfl

theorem spreadPhysical_isSome (hrest : rest.values = restPhysical b m) :
    ∃ maps', spreadPhysical b 3 (readCards b m.nics).physical_interfaces rest unset maps =
      some maps' := by
  obtain ⟨hset, hmem⟩ := physical_interfaces_spec b m
  have hnodup : rest.values.Nodup := hrest.symm ▸ restPhysical_spec.1
  have hsub : ∀ x ∈ rest.values, x ∈ m.physical := hrest.symm ▸ restPhysical_spec.2
  unfold spreadPhysical
  exact spread_isSome _ _ _ _ _ _ hset physical_nodup hmem
    (fun _ hp => ne_empty_of_mem_physical hp) hnodup hsub hunset hunset_mem

end Steps

section Runs

variable (hpair : ¬ (2 ≤ m.unsetLogical.length ∧ 2 ≤ m.unsetPhysical.length))
include hpair

/-- The loop over the names without a partner ends, and nothing else comes of it. -/
theorem pairing_ends (vars : Vars) (fuel : ℕ) :
    Pairing.loop (tryStrike fun maps p l => maps.bind l p) (fuel + 2)
      (Pairing.ofWords (b.sort m.unsetPhysical) (b.sort m.unsetLogical) vars) =
      some (Pairing.result (strike fun maps p l => maps.bind l p) (b.sort m.unsetPhysical)
        (b.sort m.unsetLogical) vars) := by
  apply Pairing.loop_ends (tryStrike_does _ sort_unset_ne.2 sort_unset_ne.1)
  rw [(b.sort_perm _).length_eq, (b.sort_perm _).length_eq]
  exact fun h => hpair h.symm

/-- Whatever the run comes to, the links are these. -/
theorem mapInterfaces_eq_some {fuel : ℕ} {final : Maps}
    (h : mapInterfaces b fuel m.nics m.interfaces = some final) :
    final.links = physicalLinks b m := by
  obtain ⟨maps, unset_logical, unset_physical, hmaps, hlogical, hphysical, heq⟩ :=
    mapInterfaces_eq b m
  rw [heq, mapLeftOver, Option.bind_eq_some_iff] at h
  obtain ⟨p, hp, h⟩ := h
  rw [Option.bind_eq_some_iff] at h
  obtain ⟨maps', hlog, hphys⟩ := h
  obtain ⟨hlinks, ⟨hright, hrset, hrmem⟩, hleft, hlset, hlmem⟩ :=
    paired_spec hmaps hlogical hphysical hpair
      (Pairing.loop_eq_some hp (pairing_ends hpair _ 0))
  have hlinks' := spreadLogical_eq_some hrset hrmem hright hlog
  have hlinks'' := spreadPhysical_eq_some hlset hlmem hleft hphys
  rw [hlinks] at hlinks'
  have hlogicalLinks : maps'.links = logicalLinks b m := hlinks'
  rw [hlogicalLinks] at hlinks''
  exact hlinks''

theorem mapInterfaces_isSome : ∃ final, mapInterfaces b 3 m.nics m.interfaces = some final := by
  obtain ⟨maps, unset_logical, unset_physical, hmaps, hlogical, hphysical, heq⟩ :=
    mapInterfaces_eq b m
  obtain ⟨-, ⟨hright, hrset, hrmem⟩, hleft, hlset, hlmem⟩ :=
    paired_spec hmaps hlogical hphysical hpair rfl
  obtain ⟨maps', hlog⟩ := spreadLogical_isSome hrset hrmem hright
  obtain ⟨final, hphys⟩ := spreadPhysical_isSome hlset hlmem hleft
  refine ⟨final, ?_⟩
  rw [heq, mapLeftOver, pairing_ends hpair _ 1, Option.bind_some, hlog, Option.bind_some, hphys]

end Runs

end Phases

end CompassAdapters.Network.Kickstart
