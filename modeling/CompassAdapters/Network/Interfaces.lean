import CompassAdapters.Matching.Inverse
import CompassAdapters.Shell.Words
import Mathlib.Data.List.Nodup

/-! The network cards of a machine and its interface configuration, as the post-install network
scripts read them. -/
namespace CompassAdapters.Network
open Shell Matching

/-- A card as `ip -o link` lists it, with the address in `/sys/class/net`. -/
structure Nic where
  name : String
  mac : String
  deriving DecidableEq, Repr

/-- An element of `$interfaces`. -/
structure Interface where
  iname : String
  mac_address : String
  interface_type : String
  deriving DecidableEq, Repr

def upper (s : String) : String := String.ofList (s.toList.map Char.toUpper)

def lower (s : String) : String := String.ofList (s.toList.map Char.toLower)

/-- Group 1 of `([a-zA-Z0-9]+)S[0-9]+` at the start of the name. -/
def patternGroup (sep : Char) (iname : String) : Option String :=
  match iname.toList.takeWhile Char.isAlphanum, iname.toList.dropWhile Char.isAlphanum with
  | g :: group, c :: d :: _ =>
    if c = sep ∧ d.isDigit then some (String.ofList (g :: group)) else none
  | _, _ => none

/-- The base name of a VLAN or of a subinterface, else the name itself. -/
def logicalName (iname : String) : String :=
  ((patternGroup '.' iname).or (patternGroup ':' iname)).getD iname

def Interface.isMaster (i : Interface) : Bool :=
  decide (lower i.interface_type ∈ ["master", "bond", "bridge", "bonded_bridge_slave"])

/-- The logical interfaces in the order of `$interfaces.keys()`, each with its declared address
in upper case. -/
def entries (interfaces : List Interface) : List (String × String) :=
  (interfaces.filter fun i => !i.isMaster).map fun i => (logicalName i.iname, upper i.mac_address)

/-- A machine and its configuration: cards with different names and addresses, logical
interfaces with different names and different declared addresses. -/
structure Machine where
  nics : List Nic
  interfaces : List Interface
  nic_word : ∀ nic ∈ nics, IsWord nic.name
  nic_mac : ∀ nic ∈ nics, nic.mac ≠ ""
  nics_nodup : (nics.map Nic.name).Nodup
  macs_nodup : (nics.map fun nic => upper nic.mac).Nodup
  entry_word : ∀ e ∈ entries interfaces, IsWord e.1
  entries_nodup : ((entries interfaces).map Prod.fst).Nodup
  declared_nodup : (((entries interfaces).map Prod.snd).filter (· ≠ "")).Nodup

namespace Machine

variable (m : Machine)

def logical : List String := (entries m.interfaces).map Prod.fst

def physical : List String := m.nics.map Nic.name

/-- The logical interface `l` declares the address of the card `p`. -/
def Declares (l p : String) : Prop :=
  ∃ mac, (l, mac) ∈ entries m.interfaces ∧ ∃ nic ∈ m.nics, nic.name = p ∧ upper nic.mac = mac

/-- The card with an address in upper case. -/
def card (mac : String) : String :=
  ((m.nics.find? fun nic => upper nic.mac == mac).map Nic.name).getD ""

/-- The card whose address `l` declares. -/
def boundTo (l : String) : String :=
  (((entries m.interfaces).find? fun e => e.1 == l).map fun e => m.card e.2).getD ""

/-- The logical interface that declares the address of `p`. -/
def owner (p : String) : String :=
  (((entries m.interfaces).find? fun e => p ≠ "" ∧ m.card e.2 = p).map Prod.fst).getD ""

variable {m}

theorem upper_eq_empty {s : String} : upper s = "" ↔ s = "" := by
  rw [upper, ← String.toList_eq_nil_iff, String.toList_ofList, List.map_eq_nil_iff,
    String.toList_eq_nil_iff]

theorem card_eq {nic : Nic} (h : nic ∈ m.nics) : m.card (upper nic.mac) = nic.name := by
  have hsome : (m.nics.find? fun n => upper n.mac == upper nic.mac).isSome := by
    rw [List.find?_isSome]
    exact ⟨nic, h, beq_self_eq_true _⟩
  obtain ⟨n, hn⟩ := Option.isSome_iff_exists.mp hsome
  have hmac : upper n.mac = upper nic.mac := by simpa using List.find?_some hn
  rw [card, hn, List.inj_on_of_nodup_map m.macs_nodup (List.mem_of_find?_eq_some hn) h hmac]
  rfl

/-- What an address leads to is a card with that address. -/
theorem exists_of_card {mac : String} (h : m.card mac ≠ "") :
    mac ≠ "" ∧ ∃ nic ∈ m.nics, nic.name = m.card mac ∧ upper nic.mac = mac := by
  rw [card] at h ⊢
  cases hfind : m.nics.find? fun nic => upper nic.mac == mac with
  | none =>
    rw [hfind] at h
    exact absurd rfl h
  | some nic =>
    have hmem := List.mem_of_find?_eq_some hfind
    have hmac : upper nic.mac = mac := by simpa using List.find?_some hfind
    refine ⟨?_, nic, hmem, rfl, hmac⟩
    rw [← hmac, Ne, upper_eq_empty]
    exact m.nic_mac nic hmem

theorem card_mem {mac : String} (h : m.card mac ≠ "") : m.card mac ∈ m.physical := by
  obtain ⟨-, nic, hnic, hname, -⟩ := exists_of_card h
  exact hname ▸ List.mem_map_of_mem hnic

/-- Two entries do not lead to one card. -/
theorem entry_eq_of_card {e e' : String × String} (he : e ∈ entries m.interfaces)
    (he' : e' ∈ entries m.interfaces) (hne : m.card e.2 ≠ "") (h : m.card e.2 = m.card e'.2) :
    e = e' := by
  obtain ⟨hmac, nic, hnic, hname, hup⟩ := exists_of_card hne
  obtain ⟨-, nic', hnic', hname', hup'⟩ := exists_of_card (h ▸ hne)
  have hsame : nic = nic' :=
    List.inj_on_of_nodup_map m.nics_nodup hnic hnic' (hname.trans (h.trans hname'.symm))
  have hsnd : e.2 = e'.2 := by rw [← hup, ← hup', hsame]
  have hnodup := m.declared_nodup
  rw [List.filter_map] at hnodup
  exact List.inj_on_of_nodup_map hnodup (List.mem_filter.mpr ⟨he, by simpa using hmac⟩)
    (List.mem_filter.mpr ⟨he', by simpa [← hsnd] using hmac⟩) hsnd

theorem boundTo_entry {e : String × String} (h : e ∈ entries m.interfaces) :
    m.boundTo e.1 = m.card e.2 := by
  have hsome : ((entries m.interfaces).find? fun e' => e'.1 == e.1).isSome := by
    rw [List.find?_isSome]
    exact ⟨e, h, beq_self_eq_true _⟩
  obtain ⟨e', he'⟩ := Option.isSome_iff_exists.mp hsome
  have hname : e'.1 = e.1 := by simpa using List.find?_some he'
  rw [boundTo, he', List.inj_on_of_nodup_map m.entries_nodup (List.mem_of_find?_eq_some he') h
    hname]
  rfl

theorem boundTo_of_not_mem {l : String} (h : l ∉ m.logical) : m.boundTo l = "" := by
  have hnone : (entries m.interfaces).find? (fun e => e.1 == l) = none := by
    rw [List.find?_eq_none]
    intro e he hl
    exact h (List.mem_map.mpr ⟨e, he, by simpa using hl⟩)
  rw [boundTo, hnone]
  rfl

theorem owner_card {e : String × String} (h : e ∈ entries m.interfaces) (hne : m.card e.2 ≠ "") :
    m.owner (m.card e.2) = e.1 := by
  rw [owner]
  cases hfind : (entries m.interfaces).find? fun e' =>
      decide (m.card e.2 ≠ "" ∧ m.card e'.2 = m.card e.2) with
  | none =>
    rw [List.find?_eq_none] at hfind
    exact absurd (decide_eq_true ⟨hne, rfl⟩) (hfind e h)
  | some e' =>
    have hcard : m.card e'.2 = m.card e.2 := by
      have hsome := List.find?_some hfind
      rw [decide_eq_true_eq] at hsome
      exact hsome.2
    rw [entry_eq_of_card h (List.mem_of_find?_eq_some hfind) hne hcard.symm]
    rfl

theorem owner_eq_empty {p : String} (h : ∀ e ∈ entries m.interfaces, p ≠ "" → m.card e.2 ≠ p) :
    m.owner p = "" := by
  have hnone : (entries m.interfaces).find? (fun e => p ≠ "" ∧ m.card e.2 = p) = none := by
    rw [List.find?_eq_none]
    intro e he hl
    rw [decide_eq_true_eq] at hl
    exact h e he hl.1 hl.2
  rw [owner, hnone]
  rfl

theorem boundTo_inverse : Inverse "" m.boundTo m.owner := by
  intro l p hl hp
  constructor
  · rintro rfl
    have hmem : l ∈ m.logical := by
      by_contra h
      exact hp (boundTo_of_not_mem h)
    obtain ⟨e, he, rfl⟩ := List.mem_map.mp hmem
    rw [boundTo_entry he] at hp ⊢
    exact owner_card he hp
  · intro h
    have hex : ∃ e ∈ entries m.interfaces, m.card e.2 = p := by
      by_contra hnone
      apply hl
      rw [← h]
      apply owner_eq_empty
      intro e he _ hcard
      exact hnone ⟨e, he, hcard⟩
    obtain ⟨e, he, rfl⟩ := hex
    rw [← h, owner_card he hp, boundTo_entry he]

theorem ne_empty_of_mem_logical {l : String} (h : l ∈ m.logical) : l ≠ "" := by
  obtain ⟨e, he, rfl⟩ := List.mem_map.mp h
  exact (m.entry_word e he).ne_empty

theorem ne_empty_of_mem_physical {p : String} (h : p ∈ m.physical) : p ≠ "" := by
  obtain ⟨nic, hnic, rfl⟩ := List.mem_map.mp h
  exact (m.nic_word nic hnic).ne_empty

/-- Declaring the address of a card is being bound to it. -/
theorem declares_iff {l p : String} : m.Declares l p ↔ p ≠ "" ∧ m.boundTo l = p := by
  constructor
  · rintro ⟨mac, he, nic, hnic, rfl, rfl⟩
    exact ⟨(m.nic_word nic hnic).ne_empty, (boundTo_entry he).trans (card_eq hnic)⟩
  · rintro ⟨hp, rfl⟩
    have hmem : l ∈ m.logical := by
      by_contra h
      exact hp (boundTo_of_not_mem h)
    obtain ⟨e, he, rfl⟩ := List.mem_map.mp hmem
    rw [boundTo_entry he] at hp ⊢
    obtain ⟨-, nic, hnic, hname, hup⟩ := exists_of_card hp
    exact ⟨e.2, he, nic, hnic, hname, hup⟩

theorem boundTo_mem {l : String} (h : m.boundTo l ≠ "") :
    l ∈ m.logical ∧ m.boundTo l ∈ m.physical := by
  have hmem : l ∈ m.logical := by
    by_contra hnot
    exact h (boundTo_of_not_mem hnot)
  obtain ⟨e, he, rfl⟩ := List.mem_map.mp hmem
  rw [boundTo_entry he] at h ⊢
  exact ⟨hmem, card_mem h⟩

theorem owner_mem {p : String} (h : m.owner p ≠ "") :
    p ∈ m.physical ∧ m.owner p ∈ m.logical := by
  have hp : p ≠ "" := by
    rintro rfl
    exact h (owner_eq_empty fun _ _ hne => absurd rfl hne)
  have hb : m.boundTo (m.owner p) = p := (boundTo_inverse (m.owner p) p h hp).mpr rfl
  have hmem := boundTo_mem (m := m) (l := m.owner p) (hb.symm ▸ hp)
  exact ⟨hb ▸ hmem.2, hmem.1⟩

end Machine

end CompassAdapters.Network
