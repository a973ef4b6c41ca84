import CompassAdapters.Network.KickstartMapping
import CompassAdapters.Network.PreseedRun

/-! The stanzas that `preseed_post_install_network_config` writes to `/etc/network/interfaces`, and
the addresses in them. Of a stanza the name and the `hwaddress` line are kept. -/
namespace CompassAdapters.Network
open Shell Matching Preseed

namespace Preseed

structure Stanza where
  iface : String
  hwaddress : Option String
  deriving DecidableEq, Repr

/-- The line is written unless the variable is empty. -/
def hwaddressLine (mac : String) : Option String := if mac ≠ "" then some mac else none

/-- `physical_interface_mac_$physical_interface=$mac`, for each card. -/
def readMacs (nics : List Nic) : Family :=
  nics.foldl (fun f nic => Function.update f nic.name nic.mac) Family.unset

section
variable (physical_interface_mac : Family) (k : Links String)

/-- The loop for the udev rules, with the value of `physical_mac` that it leaves. -/
def udevRules (logical_interfaces : List String) : List Kickstart.Rule × String :=
  logical_interfaces.foldl (fun s key =>
    let physical_interface := k.toRight key
    let physical_mac := if physical_interface ≠ "" then physical_interface_mac physical_interface
      else ""
    if physical_mac ≠ "" then (s.1 ++ [⟨lower physical_mac, key⟩], lower physical_mac)
    else (s.1, physical_mac)) ([], "")

/-- The code generated for one interface, from the value of `physical_mac` to the next. -/
def stanza (physical_mac : String) (i : Interface) : Stanza × String :=
  if i.isMaster then (⟨i.iname, none⟩, physical_mac)
  else if (patternGroup '.' i.iname).isSome then (⟨i.iname, none⟩, physical_mac)
  else
    let logical_interface := (patternGroup ':' i.iname).getD i.iname
    let physical_interface := k.toRight logical_interface
    let physical_mac := if physical_interface ≠ "" then physical_interface_mac physical_interface
      else physical_mac
    (⟨i.iname, hwaddressLine physical_mac⟩, physical_mac)

def stanzas (physical_mac : String) : List Interface → List Stanza
  | [] => []
  | i :: interfaces =>
    let s := stanza physical_interface_mac k physical_mac i
    s.1 :: stanzas s.2 interfaces

/-- The stanzas for the logical interfaces that the configuration has no entry of this name for. -/
def addedStanzas (used_logical_interface : Family) (logical_interfaces : List String) :
    List Stanza :=
  logical_interfaces.filterMap fun logical_interface =>
    if used_logical_interface logical_interface ≠ "" then none
    else
      let physical_interface := k.toRight logical_interface
      if physical_interface ≠ "" then
        some ⟨logical_interface, hwaddressLine (physical_interface_mac physical_interface)⟩
      else none

end

/-- `used_logical_interface_$iname=$iname`, which is no assignment for other names. -/
def usedNames (interfaces : List Interface) : Family :=
  interfaces.foldl (fun f i => if isName i.iname then Function.update f i.iname i.iname else f)
    Family.unset

/-- The script from the end of the mapping phases on. -/
def rewriteInterfaces (nics : List Nic) (interfaces : List Interface)
    (logical_interfaces : List String) (k : Links String) : List Kickstart.Rule × List Stanza :=
  let physical_interface_mac := readMacs nics
  let (rules, physical_mac) := udevRules physical_interface_mac k logical_interfaces
  (rules, stanzas physical_interface_mac k physical_mac interfaces ++
    addedStanzas physical_interface_mac k (usedNames interfaces) logical_interfaces)

def postInstallNetworkConfig (c : Collation) (link : String → LinkShow) (nics : List Nic)
    (interfaces : List Interface) : Option (List Kickstart.Rule × List Stanza) :=
  (mapPhases c link nics interfaces).map fun (logical_interfaces, k) =>
    rewriteInterfaces nics interfaces logical_interfaces k

end Preseed

/-- No bond, bridge or master, and no VLAN. -/
def Interface.isPlain (i : Interface) : Bool :=
  !i.isMaster && !(patternGroup '.' i.iname).isSome

section Leftover

variable (mac : Family) (k : Links String)

/-- The value of `physical_mac` once the stanzas of some interfaces are written: the address of the
last interface that is mapped. -/
def leftoverMac (physical_mac : String) (interfaces : List Interface) : String :=
  lastMatch (fun i => i.isPlain && k.toRight (logicalName i.iname) != "")
    (fun i => mac (k.toRight (logicalName i.iname))) physical_mac interfaces

variable {mac k}

theorem logicalName_of_isPlain {i : Interface} (h : i.isPlain = true) :
    (patternGroup ':' i.iname).getD i.iname = logicalName i.iname := by
  rw [Interface.isPlain, Bool.and_eq_true, Bool.not_eq_true', Bool.not_eq_true',
    Option.isSome_eq_false_iff, Option.isNone_iff_eq_none] at h
  rw [logicalName, h.2]
  rfl

/-- What the stanza of an interface makes of `physical_mac`. -/
theorem stanza_snd (physical_mac : String) (i : Interface) :
    (stanza mac k physical_mac i).2 = leftoverMac mac k physical_mac [i] := by
  rw [leftoverMac, lastMatch_cons, lastMatch_nil]
  cases hplain : i.isPlain with
  | true =>
    have hname := logicalName_of_isPlain hplain
    rw [Interface.isPlain, Bool.and_eq_true, Bool.not_eq_true', Bool.not_eq_true'] at hplain
    rw [stanza, hplain.1, hplain.2, if_neg Bool.false_ne_true, if_neg Bool.false_ne_true, hname]
    simp
  | false =>
    rw [Bool.false_and, if_neg Bool.false_ne_true, stanza]
    rw [Interface.isPlain, Bool.and_eq_false_iff, Bool.not_eq_false', Bool.not_eq_false'] at hplain
    rcases hplain with hplain | hplain
    · rw [if_pos hplain]
    · rw [if_pos hplain, ite_self]

theorem stanza_hwaddress (physical_mac : String) {i : Interface} (h : i.isPlain = true) :
    (stanza mac k physical_mac i).1.hwaddress =
      hwaddressLine (leftoverMac mac k physical_mac [i]) := by
  rw [← stanza_snd]
  rw [Interface.isPlain, Bool.and_eq_true, Bool.not_eq_true', Bool.not_eq_true'] at h
  rw [stanza, h.1, h.2, if_neg Bool.false_ne_true, if_neg Bool.false_ne_true]

/-- The stanza of an interface is written with what the interfaces before it leave. -/
theorem mem_zip_stanzas (physical_mac : String) (interfaces : List Interface)
    (added : List Stanza) (x : Interface × Stanza) :
    x ∈ interfaces.zip (stanzas mac k physical_mac interfaces ++ added) ↔
      ∃ before after, interfaces = before ++ x.1 :: after ∧
        x.2 = (stanza mac k (leftoverMac mac k physical_mac before) x.1).1 := by
  induction interfaces generalizing physical_mac with
  | nil => simp
  | cons i interfaces ih =>
    rw [stanzas, List.cons_append, List.zip_cons_cons, List.mem_cons, ih, stanza_snd]
    have hstep (before : List Interface) :
        leftoverMac mac k (leftoverMac mac k physical_mac [i]) before =
          leftoverMac mac k physical_mac (i :: before) := by
      simp only [leftoverMac, lastMatch_cons, lastMatch_nil]
    constructor
    · rintro (rfl | ⟨before, after, rfl, hx⟩)
      · exact ⟨[], interfaces, rfl, rfl⟩
      · exact ⟨i :: before, after, rfl, by rw [hx, hstep]⟩
    · rintro ⟨before, after, hsplit, hx⟩
      cases before with
      | nil =>
        obtain ⟨rfl, -⟩ := List.cons.inj hsplit
        exact Or.inl (Prod.ext rfl hx)
      | cons j before =>
        obtain ⟨rfl, rfl⟩ := List.cons.inj hsplit
        exact Or.inr ⟨before, after, rfl, by rw [hx, hstep]⟩

theorem length_stanzas (mac : Family) (k : Links String) (physical_mac : String)
    (interfaces : List Interface) :
    (stanzas mac k physical_mac interfaces).length = interfaces.length := by
  induction interfaces generalizing physical_mac with
  | nil => rfl
  | cons i interfaces ih => rw [stanzas, List.length_cons, ih, List.length_cons]

theorem addedStanzas_hwaddress {used : Family} {ls : List String} {x : Stanza}
    (hx : x ∈ addedStanzas mac k used ls) :
    x.hwaddress = hwaddressLine (mac (k.toRight x.iface)) := by
  obtain ⟨l, -, hl⟩ := List.mem_filterMap.mp hx
  simp only at hl
  split at hl
  next => cases hl
  next =>
    split at hl
    next =>
      obtain rfl := Option.some.inj hl
      rfl
    next => cases hl

theorem hwaddressLine_eq_none {m : String} : hwaddressLine m = none ↔ m = "" := by
  simp [hwaddressLine]

end Leftover

namespace Site

variable {s : Site} {c : Collation}

section Stranded

variable (s c)

/-- A logical interface left over that cannot take its own name, and comes too late for another
one. -/
def Stranded (l : String) : Prop :=
  l ∈ s.takenNames c ∧ l ∉ (s.sortedLogical c).take (s.sortedPhysical c).length ∧
    l ∉ (s.takenNames c).take (s.spareNames c).length

instance decidableStranded : DecidablePred (s.Stranded c) := fun l => by
  unfold Stranded
  infer_instance

variable {s c}

theorem paired_right_eq_empty {l : String} (hl : l ∈ s.logical) :
    (s.paired c).toRight l = "" ↔
      l ∈ s.restLogical c ∧ l ∉ (s.sortedLogical c).take (s.sortedPhysical c).length := by
  have hne : ∀ x ∈ (s.sortedLogical c).zip (s.sortedPhysical c), x.2 ≠ "" := fun x hx =>
    ne_empty_of_mem_physical (List.mem_of_mem_filter (c.mem_sort.mp (List.of_mem_zip hx).2))
  have hsorted : l ∈ s.sortedLogical c ↔ s.named.toRight l = "" := by
    rw [sortedLogical, c.mem_sort, unsetLogical, List.mem_filter, beq_iff_eq, and_iff_right hl]
  rw [paired, Links.bindAll_right_eq_unset _ hne, map_fst_zip, ← hsorted, restLogical, and_comm]
  apply and_congr_left
  intro htake
  have hsplit := List.mem_append (a := l) (s := (s.sortedLogical c).take
    (s.sortedPhysical c).length) (t := (s.sortedLogical c).drop (s.sortedPhysical c).length)
  rw [List.take_append_drop] at hsplit
  rw [hsplit, or_iff_right htake]

/-- The logical interfaces that are mapped to nothing. -/
theorem final_right_eq_empty {l : String} (hl : l ∈ s.logical) :
    (s.final c).toRight l = "" ↔ s.Stranded c l := by
  have hphysical : ∀ x ∈ (s.physicalPairs c).map Prod.swap, x.2 ≠ "" := by
    intro x hx
    obtain ⟨y, hy, rfl⟩ := List.mem_map.mp hx
    exact ne_empty_of_mem_physical (mem_physical_of_mem_rest
      (mem_overflowPairs (fun _ hp => mem_physical_of_mem_rest hp) hy).1)
  have hlogical : ∀ x ∈ s.logicalPairs c, x.2 ≠ "" := by
    intro x hx
    rw [logicalPairs, repeatedPairs, List.mem_append] at hx
    rcases hx with hx | hx
    · obtain ⟨y, hy, rfl⟩ := List.mem_map.mp hx
      exact ne_empty_of_mem_logical (mem_logical_of_mem_rest (List.mem_of_mem_filter hy))
    · exact ne_empty_of_mem_logical (mem_spareNames (List.of_mem_zip hx).2).1
  have hkeys : l ∉ (s.logicalPairs c).map Prod.fst ↔
      l ∉ ownNames (s.freeName c) (s.restLogical c) ∧
        l ∉ (s.takenNames c).take (s.spareNames c).length := by
    rw [logicalPairs, repeatedPairs, List.map_append, List.mem_append, not_or, map_fst_zip,
      List.map_map]
    simp [Function.comp_def, takenNames, spareNames]
  have hrest : l ∈ s.restLogical c ∧ l ∉ ownNames (s.freeName c) (s.restLogical c) ↔
      l ∈ s.takenNames c := by
    simp only [ownNames, takenNames, leftOver, List.mem_filter]
    cases s.freeName c l <;> simp
  have hnone : l ∈ s.restLogical c → l ∉ ((s.physicalPairs c).map Prod.swap).map Prod.fst := by
    intro hmem
    rw [physicalPairs, restPhysical_eq_nil (List.ne_nil_of_mem hmem)]
    exact List.not_mem_nil
  rw [final, Links.bindAll_right_eq_unset _ hphysical, Links.bindAll_right_eq_unset _ hlogical,
    hkeys, paired_right_eq_empty hl, Stranded, ← hrest]
  constructor
  · rintro ⟨-, ⟨hown, hspare⟩, hmem, htake⟩
    exact ⟨⟨hmem, hown⟩, htake, hspare⟩
  · rintro ⟨⟨hmem, hown⟩, htake, hspare⟩
    exact ⟨hnone hmem, ⟨hown, hspare⟩, hmem, htake⟩

end Stranded

section Addresses

variable (s c)

/-- The address of a card. -/
def address (p : String) : String := lastMatch (fun nic => nic.name == p) Nic.mac "" s.nics

/-- The address that the loop for the udev rules leaves: that of the last logical interface. -/
def udevMac : String :=
  lower (s.address ((((s.finalNames c).getLast?).map (s.final c).toRight).getD ""))

/-- The address that the stanzas of some interfaces leave: that of the last one of them with a
card. -/
def staleMac (before : List Interface) : String :=
  lastMatch (fun i => i.isPlain && !decide (s.Stranded c (logicalName i.iname)))
    (fun i => s.address ((s.final c).toRight (logicalName i.iname))) (s.udevMac c) before

variable {s c}

theorem readMacs_eq : readMacs s.nics = s.address := by
  funext p
  exact Family.foldl_update_eq Nic.name Nic.mac s.nics Family.unset p

theorem address_empty : s.address "" = "" := by
  rcases lastMatch_cases (fun nic : Nic => nic.name == "") Nic.mac "" s.nics with h | hex
  · exact h
  · obtain ⟨nic, hnic, hname, -⟩ := hex
    exact absurd (beq_iff_eq.mp hname) (s.nic_ne nic hnic)

theorem udevRules_snd (k : Links String) (ls : List String) :
    (udevRules s.address k ls).2 = lower (s.address (((ls.getLast?).map k.toRight).getD "")) := by
  let step (t : List Kickstart.Rule × String) (key : String) : List Kickstart.Rule × String :=
    let physical_interface := k.toRight key
    let physical_mac := if physical_interface ≠ "" then s.address physical_interface else ""
    if physical_mac ≠ "" then (t.1 ++ [⟨lower physical_mac, key⟩], lower physical_mac)
    else (t.1, physical_mac)
  have hstep (t : List Kickstart.Rule × String) (key : String) :
      (step t key).2 = lower (s.address (k.toRight key)) := by
    by_cases hright : k.toRight key = ""
    · simp only [step, hright, ne_eq, not_true_eq_false, if_false, address_empty]
      rfl
    · by_cases haddress : s.address (k.toRight key) = ""
      · simp only [step, hright, haddress, ne_eq, not_true_eq_false, not_false_eq_true, if_true,
          if_false]
        rfl
      · simp [step, hright, haddress]
  have hloop (t : List Kickstart.Rule × String) : (ls.foldl step t).2 =
      ((ls.getLast?).map fun key => lower (s.address (k.toRight key))).getD t.2 := by
    induction ls generalizing t with
    | nil => rfl
    | cons key ls ih =>
      rw [List.foldl_cons, ih, hstep, List.getLast?_cons]
      cases ls.getLast? <;> rfl
  refine (hloop ([], "")).trans ?_
  cases ls.getLast? with
  | none =>
    simp only [Option.map_none, Option.getD_none, address_empty]
    rfl
  | some l => rfl

theorem mem_logical_of_isPlain {i : Interface} (hi : i ∈ s.interfaces) (h : i.isPlain = true) :
    logicalName i.iname ∈ s.logical := by
  rw [Interface.isPlain, Bool.and_eq_true] at h
  rw [logical, entries, List.map_map]
  exact List.mem_map.mpr ⟨i, List.mem_filter.mpr ⟨hi, h.1⟩, rfl⟩

theorem leftoverMac_final {before : List Interface} (hsub : ∀ i ∈ before, i ∈ s.interfaces) :
    leftoverMac s.address (s.final c) (s.udevMac c) before = s.staleMac c before := by
  refine lastMatch_congr _ (fun i hi => ?_) fun _ _ _ => rfl
  cases hplain : i.isPlain with
  | false => rw [Bool.false_and, Bool.false_and]
  | true =>
    have hempty := final_right_eq_empty (c := c) (mem_logical_of_isPlain (hsub i hi) hplain)
    rw [Bool.true_and, Bool.true_and, Bool.eq_iff_iff, bne_iff_ne, Bool.not_eq_true',
      decide_eq_false_iff_not, Ne, hempty]

/-- What the stanza of an interface is written with. -/
theorem stanza_final {before : List Interface} {i : Interface} {after : List Interface}
    (hsplit : s.interfaces = before ++ i :: after) (hplain : i.isPlain = true) :
    (stanza s.address (s.final c) (leftoverMac s.address (s.final c) (s.udevMac c) before)
      i).1.hwaddress = hwaddressLine (if s.Stranded c (logicalName i.iname)
        then s.staleMac c before else s.address ((s.final c).toRight (logicalName i.iname))) := by
  have hi : i ∈ s.interfaces := hsplit ▸ List.mem_append_right _ List.mem_cons_self
  have hempty := final_right_eq_empty (c := c) (mem_logical_of_isPlain hi hplain)
  rw [stanza_hwaddress _ hplain,
    leftoverMac_final fun j hj => hsplit ▸ List.mem_append_left _ hj, leftoverMac,
    lastMatch_cons, lastMatch_nil, hplain, Bool.true_and]
  by_cases hstranded : s.Stranded c (logicalName i.iname)
  · rw [if_pos hstranded, hempty.mpr hstranded]
    rfl
  · rw [if_neg hstranded, if_pos (bne_iff_ne.mpr fun h => hstranded (hempty.mp h))]

theorem rewriteInterfaces_final :
    (rewriteInterfaces s.nics s.interfaces (s.finalNames c) (s.final c)).2 =
      stanzas s.address (s.final c) (s.udevMac c) s.interfaces ++
        addedStanzas s.address (s.final c) (usedNames s.interfaces) (s.finalNames c) := by
  show stanzas (readMacs s.nics) (s.final c) (udevRules (readMacs s.nics) (s.final c)
    (s.finalNames c)).2 s.interfaces ++ addedStanzas (readMacs s.nics) _ _ _ = _
  rw [readMacs_eq, udevRules_snd]
  rfl

/-- In a file with links `k` the stanza of each interface that is no VLAN, bond or bridge has the
address of its card, and no other. -/
structure RightAddresses (s : Site) (k : Links String) (file : List Stanza) : Prop where
  configured : ∀ x ∈ s.interfaces.zip file, x.1.isPlain = true →
    x.2.hwaddress = hwaddressLine (s.address (k.toRight (logicalName x.1.iname)))
  added : ∀ x ∈ file.drop s.interfaces.length,
    x.hwaddress = hwaddressLine (s.address (k.toRight x.iface))

/-- The stanzas have the right addresses just when no interface without a card comes after one that
leaves an address. -/
theorem rightAddresses_iff {k : Links String} {rules : List Kickstart.Rule} {file : List Stanza}
    (hmap : mapInterfaces c s.link s.nics s.interfaces = some k)
    (hfile : postInstallNetworkConfig c s.link s.nics s.interfaces = some (rules, file)) :
    s.RightAddresses k file ↔ ∀ before i after, s.interfaces = before ++ i :: after →
      i.isPlain = true → s.Stranded c (logicalName i.iname) → s.staleMac c before = "" := by
  have hleaks : ¬ s.Leaks := by
    intro h
    rw [mapInterfaces_leaks h] at hmap
    cases hmap
  rw [postInstallNetworkConfig, mapPhases_final hleaks, Option.map_some] at hfile
  rw [mapInterfaces_final hleaks] at hmap
  obtain rfl := Option.some.inj hmap
  have hfile : rewriteInterfaces s.nics s.interfaces (s.finalNames c) (s.final c) =
      (rules, file) := Option.some.inj hfile
  have hwritten : file = stanzas s.address (s.final c) (s.udevMac c) s.interfaces ++
      addedStanzas s.address (s.final c) (usedNames s.interfaces) (s.finalNames c) := by
    rw [← rewriteInterfaces_final, hfile]
  subst hwritten
  have hempty (before : List Interface) (i : Interface) (after : List Interface)
      (hsplit : s.interfaces = before ++ i :: after) (hplain : i.isPlain = true) :=
    final_right_eq_empty (c := c) (mem_logical_of_isPlain
      (hsplit ▸ List.mem_append_right before List.mem_cons_self) hplain)
  constructor
  · intro h before i after hsplit hplain hstranded
    have hright := h.configured (i, (stanza s.address (s.final c)
        (leftoverMac s.address (s.final c) (s.udevMac c) before) i).1)
      ((mem_zip_stanzas _ _ _ _).mpr ⟨before, after, hsplit, rfl⟩) hplain
    simp only at hright
    rw [stanza_final hsplit hplain, if_pos hstranded,
      (hempty before i after hsplit hplain).mpr hstranded, address_empty] at hright
    exact hwaddressLine_eq_none.mp hright
  · intro h
    refine ⟨?_, ?_⟩
    · intro x hx hplain
      obtain ⟨before, after, hsplit, hline⟩ := (mem_zip_stanzas _ _ _ _).mp hx
      rw [hline, stanza_final hsplit hplain]
      split
      next hstranded =>
        rw [h before x.1 after hsplit hplain hstranded,
          (hempty before x.1 after hsplit hplain).mpr hstranded, address_empty]
      next => rfl
    · intro x hx
      rw [← length_stanzas s.address (s.final c) (s.udevMac c) s.interfaces,
        List.drop_left] at hx
      exact addedStanzas_hwaddress hx

/-- Four cards, and an interface with two aliases that have the addresses of three of them. -/
def fourCards : Site where
  nics := [⟨"eth0", "52:54:00:00:00:0a"⟩, ⟨"eth1", "52:54:00:00:00:0b"⟩,
    ⟨"eth2", "52:54:00:00:00:0c"⟩, ⟨"eth3", "52:54:00:00:00:0d"⟩]
  interfaces := [⟨"eth0", "52:54:00:00:00:0b", ""⟩, ⟨"eth0:1", "52:54:00:00:00:0c", ""⟩,
    ⟨"eth0:2", "52:54:00:00:00:0a", ""⟩, ⟨"eth1", "", ""⟩, ⟨"eth2", "", ""⟩]
  link _ := ⟨2, "BROADCAST,MULTICAST,UP,LOWER_UP", ["mtu", "1500"]⟩
  nics_nodup := by decide
  nic_ne := by decide
  nic_plain := by decide
  nic_address := by decide
  entry_ne := by decide
  entry_plain := by decide
  entry_address := by decide

/-- The same cards, with the addresses of two of them exchanged. -/
def exchangedCards : Site where
  nics := fourCards.nics
  interfaces := [⟨"eth0", "52:54:00:00:00:0b", ""⟩, ⟨"eth1", "", ""⟩, ⟨"eth1:1", "", ""⟩]
  link := fourCards.link
  nics_nodup := fourCards.nics_nodup
  nic_ne := fourCards.nic_ne
  nic_plain := fourCards.nic_plain
  nic_address := fourCards.nic_address
  entry_ne := by decide
  entry_plain := by decide
  entry_address := by decide

theorem exchangedCards_rightAddresses : ∃ k rules file,
    mapInterfaces Collation.plain exchangedCards.link exchangedCards.nics
      exchangedCards.interfaces = some k ∧
    postInstallNetworkConfig Collation.plain exchangedCards.link exchangedCards.nics
      exchangedCards.interfaces = some (rules, file) ∧
    exchangedCards.RightAddresses k file := by
  have hleaks : ¬ exchangedCards.Leaks := by decide +kernel
  have hmap := mapInterfaces_final (c := Collation.plain) hleaks
  have hfile : postInstallNetworkConfig Collation.plain exchangedCards.link exchangedCards.nics
      exchangedCards.interfaces = some (rewriteInterfaces exchangedCards.nics
        exchangedCards.interfaces (exchangedCards.finalNames Collation.plain)
        (exchangedCards.final Collation.plain)) := by
    rw [postInstallNetworkConfig, mapPhases_final hleaks, Option.map_some]
  refine ⟨_, _, _, hmap, hfile, (rightAddresses_iff hmap hfile).mpr ?_⟩
  intro before i after hsplit _ hstranded
  have hnone : ∀ i ∈ exchangedCards.interfaces,
      ¬ exchangedCards.Stranded Collation.plain (logicalName i.iname) := by
    decide +kernel
  exact absurd hstranded (hnone i (hsplit ▸ List.mem_append_right _ List.mem_cons_self))

/-- `eth2` is mapped to nothing and gets the address of `eth3`, the card of `eth1`. -/
theorem fourCards_wrongAddress :
    (mapInterfaces Collation.plain fourCards.link fourCards.nics fourCards.interfaces).map
      (fun k => k.toRight "eth2") = some "" ∧
    (postInstallNetworkConfig Collation.plain fourCards.link fourCards.nics
      fourCards.interfaces).map (fun file => file.2.drop 3) =
        some [⟨"eth1", some "52:54:00:00:00:0d"⟩, ⟨"eth2", some "52:54:00:00:00:0d"⟩] ∧
    ¬ ∀ k rules file,
      mapInterfaces Collation.plain fourCards.link fourCards.nics fourCards.interfaces =
        some k →
      postInstallNetworkConfig Collation.plain fourCards.link fourCards.nics
        fourCards.interfaces = some (rules, file) → fourCards.RightAddresses k file := by
  have hleaks : ¬ fourCards.Leaks := by decide +kernel
  have hmap := mapInterfaces_final (c := Collation.plain) hleaks
  have hfile : postInstallNetworkConfig Collation.plain fourCards.link fourCards.nics
      fourCards.interfaces = some (rewriteInterfaces fourCards.nics fourCards.interfaces
        (fourCards.finalNames Collation.plain) (fourCards.final Collation.plain)) := by
    rw [postInstallNetworkConfig, mapPhases_final hleaks, Option.map_some]
  refine ⟨by decide +kernel, by decide +kernel, ?_⟩
  intro hright
  have hconfigured := (hright _ _ _ hmap hfile).configured
  exact absurd hconfigured (by decide +kernel)

end Addresses

end Site

end CompassAdapters.Network
