import CompassAdapters.Network.PreseedPhases

/-! Machines and configurations in which base names and addresses may come more than once, as
VLANs and aliases have them: what the preseed script stores for them in the end. -/
namespace CompassAdapters.Network
open Shell Matching Preseed

/-- A machine and its configuration. The names of the cards differ; names may stand in the names
of variables, addresses are made of letters, digits and colons. -/
structure Site where
  nics : List Nic
  interfaces : List Interface
  link : String → LinkShow
  nics_nodup : (nics.map Nic.name).Nodup
  nic_ne : ∀ nic ∈ nics, nic.name ≠ ""
  nic_plain : ∀ nic ∈ nics, IsPlain nic.name
  nic_address : ∀ nic ∈ nics, IsAddress (upper nic.mac)
  entry_ne : ∀ e ∈ entries interfaces, e.1 ≠ ""
  entry_plain : ∀ e ∈ entries interfaces, IsPlain e.1
  entry_address : ∀ e ∈ entries interfaces, IsAddress e.2

namespace Site

variable (s : Site)

def logical : List String := (entries s.interfaces).map Prod.fst

def physical : List String := s.nics.map Nic.name

/-- The last card with an address in upper case. -/
def card (mac : String) : String :=
  lastMatch (fun nic => upper nic.mac == mac) Nic.name "" s.nics

/-- The card of the last address that an entry with the base name `l` declares. -/
def boundTo (l : String) : String :=
  lastMatch (fun e => e.1 == l && e.2 != "") (fun e => s.card e.2) "" (entries s.interfaces)

/-- The base name of the last entry that declares the address of `p`. -/
def owner (p : String) : String :=
  lastMatch (fun e => e.2 != "" && s.card e.2 == p && p != "") Prod.fst "" (entries s.interfaces)

/-- A logical interface and a card have the name `x`, and neither is bound by an address. -/
def SameName (x : String) : Prop :=
  x ∈ s.logical ∧ x ∈ s.physical ∧ s.boundTo x = "" ∧ s.owner x = ""

instance decidableSameName : DecidablePred s.SameName := fun x => by
  unfold SameName
  infer_instance

/-- The links by address and by equal names. -/
def named : Links String where
  toRight l := if s.SameName l then l else s.boundTo l
  toLeft p := if s.SameName p then p else s.owner p

/-- The base names without a card, each as often as it comes. -/
def unsetLogical : List String := s.logical.filter fun l => s.named.toRight l == ""

def unsetPhysical : List String := s.physical.filter fun p => s.named.toLeft p == ""

section Sorted
variable (c : Collation)

def sortedLogical : List String := c.sort s.unsetLogical

def sortedPhysical : List String := c.sort s.unsetPhysical

/-- The links after the sorted names without a partner are paired. -/
def paired : Links String := s.named.bindAll ((s.sortedLogical c).zip (s.sortedPhysical c))

def restLogical : List String := (s.sortedLogical c).drop (s.sortedPhysical c).length

def restPhysical : List String := (s.sortedPhysical c).drop (s.sortedLogical c).length

/-- Nothing is mapped to a card of this name. -/
def freeName (l : String) : Bool := (s.paired c).toLeft l == ""

/-- The logical interface of this name is mapped to nothing. -/
def freeCard (p : String) : Bool := (s.paired c).toRight p == ""

/-- What the phase for the logical interfaces left over stores. -/
def logicalPairs : List (String × String) :=
  repeatedPairs (s.freeName c) s.logical (s.restLogical c)

/-- What the phase for the cards left over stores, the cards first. -/
def physicalPairs : List (String × String) :=
  overflowPairs (s.freeCard c) s.physical (s.restPhysical c)

/-- The logical interfaces left over that cannot take their own names. -/
def takenNames : List String := leftOver (s.freeName c) (s.restLogical c)

/-- The names that they may take. -/
def spareNames : List String :=
  (available (s.freeName c) s.logical (s.restLogical c)).eraseDups

/-- The cards left over that cannot take their own names. -/
def takenCards : List String := leftOver (s.freeCard c) (s.restPhysical c)

/-- The names that they may take. -/
def spareCards : List String := available (s.freeCard c) s.physical (s.restPhysical c)

def final : Links String :=
  ((s.paired c).bindAll (s.logicalPairs c)).bindAll ((s.physicalPairs c).map Prod.swap)

/-- The logical interfaces in the end: with the free card names where cards are left over. -/
def finalNames : List String :=
  s.logical ++ if s.restPhysical c ≠ [] then s.physical.filter (s.freeCard c) else []

end Sorted

variable {s}

theorem isName_of_mem_logical {l : String} (hl : l ∈ s.logical) : isName l = true := by
  obtain ⟨e, he, rfl⟩ := List.mem_map.mp hl
  exact (s.entry_plain e he).isName

theorem isName_of_mem_physical {p : String} (hp : p ∈ s.physical) : isName p = true := by
  obtain ⟨nic, hnic, rfl⟩ := List.mem_map.mp hp
  exact (s.nic_plain nic hnic).isName

theorem ne_empty_of_mem_logical {l : String} (hl : l ∈ s.logical) : l ≠ "" := by
  obtain ⟨e, he, rfl⟩ := List.mem_map.mp hl
  exact s.entry_ne e he

theorem ne_empty_of_mem_physical {p : String} (hp : p ∈ s.physical) : p ≠ "" := by
  obtain ⟨nic, hnic, rfl⟩ := List.mem_map.mp hp
  exact s.nic_ne nic hnic

/-- A card that a logical interface is bound to has an owner. -/
theorem owner_boundTo {l : String} (h : s.boundTo l ≠ "") : s.owner (s.boundTo l) ≠ "" := by
  rcases lastMatch_cases (fun e : String × String => e.1 == l && e.2 != "")
    (fun e => s.card e.2) "" (entries s.interfaces) with hnone | hex
  · exact absurd hnone h
  obtain ⟨e, he, htest, heq⟩ := hex
  rw [Bool.and_eq_true] at htest
  have hcard : s.boundTo l = s.card e.2 := heq
  rw [hcard] at h ⊢
  rw [owner, lastMatch]
  cases hfind : (entries s.interfaces).reverse.find? fun e' : String × String =>
      e'.2 != "" && s.card e'.2 == s.card e.2 && s.card e.2 != "" with
  | none =>
    rw [List.find?_eq_none] at hfind
    exact absurd (by simp [htest.2, h]) (hfind e (List.mem_reverse.mpr he))
  | some e' => exact s.entry_ne e' (List.mem_reverse.mp (List.mem_of_find?_eq_some hfind))

/-- Whatever a name is mapped to is taken. -/
theorem named_linked : s.named.Linked "" := by
  intro l h
  by_cases hsame : s.SameName l
  · simpa [named, hsame] using ne_empty_of_mem_logical hsame.1
  · simp only [named, hsame, if_false] at h ⊢
    split
    next hsame' => exact h
    next => exact owner_boundTo h

end Site

end CompassAdapters.Network
