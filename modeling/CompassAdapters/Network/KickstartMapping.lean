import CompassAdapters.Network.Interfaces
import CompassAdapters.Shell.Assoc
import CompassAdapters.Shell.Loops

/-! The mapping phases of `kickstart_post_install_network_config`. `fuel` bounds the rounds of
its `while` loops; the numbers are the places of the loops that list an associative array. -/
namespace CompassAdapters.Network.Kickstart
open Shell

structure Maps where
  logical_interface_mapping : AssocArray
  physical_interface_mapping : AssocArray

/-- `logical_interface_mapping[l]=p` and `physical_interface_mapping[p]=l`. -/
def Maps.bind (maps : Maps) (l p : String) : Maps :=
  ⟨maps.logical_interface_mapping.assign l p, maps.physical_interface_mapping.assign p l⟩

/-- The arrays read from the machine. -/
structure Cards where
  physical_interfaces : AssocArray
  physical_interface_mac : AssocArray
  physical_mac_interface : AssocArray

section
variable (b : Bash) (fuel : ℕ)

/-- `/sys/class/net/NAME/address`. -/
def sysAddress (nics : List Nic) (name : String) : String :=
  ((nics.find? fun nic => nic.name == name).map Nic.mac).getD ""

def readCards (nics : List Nic) : Cards :=
  let physical_interfaces := AssocArray.ofNames (nics.map Nic.name)
  let listed := b.values 77 physical_interfaces
  { physical_interfaces
    physical_interface_mac :=
      listed.foldl (fun a p => a.assign p (upper (sysAddress nics p))) ∅
    physical_mac_interface :=
      listed.foldl (fun a p => a.assign (upper (sysAddress nics p)) p) ∅ }

/-- The code generated for one entry of the configuration. -/
def bindEntry (physical_mac_interface : AssocArray) (maps : Maps) (e : String × String) : Maps :=
  let (logical_interface, mac) := e
  if mac ≠ "" then
    let physical_interface := physical_mac_interface.get mac
    let maps := { maps with logical_interface_mapping :=
      maps.logical_interface_mapping.assign logical_interface physical_interface }
    if physical_interface ≠ "" then
      { maps with physical_interface_mapping :=
        maps.physical_interface_mapping.assign physical_interface logical_interface }
    else maps
  else if maps.logical_interface_mapping.get logical_interface = "" then
    { maps with logical_interface_mapping :=
      maps.logical_interface_mapping.assign logical_interface "" }
  else maps

def bindDeclared (physical_mac_interface : AssocArray) (es : List (String × String)) : Maps :=
  es.foldl (bindEntry physical_mac_interface) ⟨∅, ∅⟩

/-- The body of the loop that looks for a card of the same name. -/
def bindSameName (physical_interfaces : AssocArray) (maps : Maps) (l : String) : Maps :=
  if maps.logical_interface_mapping.get l = "" then
    if maps.physical_interface_mapping.get l = "" then
      if physical_interfaces.get l ≠ "" then maps.bind l l else maps
    else maps
  else maps

/-- The maps and the two arrays that a pairing loop strikes its elements from. -/
structure Vars where
  maps : Maps
  left : AssocArray
  right : AssocArray

/-- The body of the loops, where `assign` sets the maps. -/
def strike (assign : Maps → String → String → Maps) (x y : String) (v : Vars) : Vars :=
  ⟨assign v.maps x y, v.left.unset x, v.right.unset y⟩

/-- The body of a pairing loop. Both elements are gone after the same round: the empty names are
then bad subscripts, before anything is stored, and bash leaves the `while` and the `if` around
it and goes on with the next command. -/
def tryStrike (assign : Maps → String → String → Maps) (x y : String) (v : Vars) :
    Except Vars Vars :=
  if x = "" ∨ y = "" then .error v else .ok (strike assign x y v)

theorem tryStrike_does (assign : Maps → String → String → Maps) {xs ys : List String}
    (hxs : ∀ x ∈ xs, x ≠ "") (hys : ∀ y ∈ ys, y ≠ "") :
    Pairing.Does (tryStrike assign) (strike assign) xs ys := by
  intro x hx y hy v
  rw [tryStrike, if_neg (by simp [hxs x hx, hys y hy])]

theorem tryStrike_empty (assign : Maps → String → String → Maps) (v : Vars) :
    tryStrike assign "" "" v = .error v := by simp [tryStrike]

/-- What the phases for the names left over have in common: the names that are `free`, the loop
that takes a name of its own if it is free, and the loop that pairs the rest. -/
def spread (places : ℕ × ℕ × ℕ) (free : Maps → String → Bool)
    (same other : Maps → String → String → Maps) (names : AssocArray) (rest : IndexedArray)
    (unset : AssocArray) (maps : Maps) : Option Maps :=
  if 0 < rest.count then
    let available := AssocArray.collect (free maps) (b.values places.1 names)
    let v := rest.values.foldl (fun (v : Vars) x =>
      let name := v.right.get x
      if name ≠ "" then strike same x name v else v) ⟨maps, unset, available⟩
    let sorted_unset := b.sort (b.values places.2.1 v.left)
    let sorted_available := b.sort (b.values places.2.2 v.right)
    (Pairing.loop (tryStrike other) fuel (Pairing.ofWords sorted_unset sorted_available v)).map
      fun p => p.vars.maps
  else some maps

/-- The logical interfaces left over take names of logical interfaces. -/
def spreadLogical := spread b fuel (236, 269, 271)
  (fun maps l => maps.physical_interface_mapping.get l == "")
  (fun maps l available => maps.bind l available)
  (fun maps l available => maps.bind l available)

/-- The cards left over take names of cards; the second loop sets
`physical_interface_mapping[available]` and `logical_interface_mapping[physical]`. -/
def spreadPhysical := spread b fuel (303, 335, 337)
  (fun maps p => maps.logical_interface_mapping.get p == "")
  (fun maps p available => maps.bind available p)
  (fun maps p available => maps.bind p available)

def mapInterfaces (nics : List Nic) (interfaces : List Interface) : Option Maps :=
  let cards := readCards b nics
  let es := entries interfaces
  let logical_interfaces := AssocArray.ofNames (es.map Prod.fst)
  let declared := bindDeclared cards.physical_mac_interface es
  let maps := (b.keys 146 declared.logical_interface_mapping).foldl
    (bindSameName cards.physical_interfaces) declared
  let unset_logical := AssocArray.collect (fun l => maps.logical_interface_mapping.get l == "")
    (b.values 180 logical_interfaces)
  let unset_physical := AssocArray.collect (fun p => maps.physical_interface_mapping.get p == "")
    (b.values 191 cards.physical_interfaces)
  let sorted_physical := b.sort (b.values 201 unset_physical)
  let sorted_logical := b.sort (b.values 203 unset_logical)
  (Pairing.loop (tryStrike fun maps p l => maps.bind l p) fuel
    (Pairing.ofWords sorted_physical sorted_logical
      ⟨maps, unset_physical, unset_logical⟩)).bind fun paired =>
  (spreadLogical b fuel logical_interfaces paired.right paired.vars.right
    paired.vars.maps).bind fun maps =>
  spreadPhysical b fuel cards.physical_interfaces paired.left paired.vars.left maps

/-- A line of the udev rules. -/
structure Rule where
  address : String
  name : String
  deriving DecidableEq, Repr

def udevRules (nics : List Nic) (maps : Maps) : List Rule :=
  (b.keys 378 maps.logical_interface_mapping).filterMap fun key =>
    let physical_interface := maps.logical_interface_mapping.get key
    let physical_mac := if physical_interface ≠ "" then
      (readCards b nics).physical_interface_mac.get physical_interface else ""
    if physical_mac ≠ "" then some ⟨lower physical_mac, key⟩ else none

end

end CompassAdapters.Network.Kickstart
