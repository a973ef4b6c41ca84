import CompassAdapters.Matching.Links
import CompassAdapters.Network.Interfaces
import CompassAdapters.Shell.Collation
import CompassAdapters.Shell.Families

/-! The mapping phases of `preseed_post_install_network_config`, which dash runs. Names of
interfaces may stand in the names of variables; only the words that `set` leaves in the positional
parameters may have other characters. Lists of names are kept as the lists of their words. -/
namespace CompassAdapters.Network.Preseed
open Shell Matching

/-- What `ip link show` prints for a card besides its name. -/
structure LinkShow where
  index : ℕ
  flags : String
  more : List String

/-- The words of `ip link show NAME`. -/
def LinkShow.words (s : LinkShow) (name : String) : List String :=
  (toString s.index ++ ":") :: (name ++ ":") :: ("<" ++ s.flags ++ ">") :: s.more

/-- `tr ':' '_'`. -/
def macName (mac : String) : String := translate ':' '_' mac

/-- What the loops over the cards set, and the positional parameters that they leave. -/
structure Cards where
  physical_interfaces : List String
  physical_interface : Family
  physical_mac_interface : Family
  params : List String

def readCards (link : String → LinkShow) (nics : List Nic) : Cards where
  physical_interfaces := nics.map Nic.name
  physical_interface := nics.foldl (fun f nic => Function.update f nic.name nic.name) Family.unset
  physical_mac_interface := nics.foldl
    (fun f nic => Function.update f (macName (upper nic.mac)) nic.name) Family.unset
  params := nics.foldl (fun params nic => setParams params ((link nic.name).words nic.name)) []

/-- The code generated for one entry of the configuration. To the right of a name is its
`logical_interface_mapping_`, to the left its `physical_interface_mapping_`. -/
def bindEntry (physical_mac_interface : Family) (k : Links String) (e : String × String) :
    Links String :=
  let (logical_interface, mac) := e
  if mac ≠ "" then
    let physical_interface := physical_mac_interface (macName mac)
    let k := { k with toRight := Function.update k.toRight logical_interface physical_interface }
    if physical_interface ≠ "" then
      { k with toLeft := Function.update k.toLeft physical_interface logical_interface }
    else k
  else if k.toRight logical_interface = "" then
    { k with toRight := Function.update k.toRight logical_interface "" }
  else k

/-- The body of the loop that looks for a card of the same name. -/
def bindSameName (physical_interface : Family) (k : Links String) (l : String) : Links String :=
  if k.toRight l ≠ "" then k
  else if k.toLeft l ≠ "" then k
  else if physical_interface l = "" then k
  else k.bind l l

/-- `eval "physical_interface_mapping_$p=$l"` and `eval "logical_interface_mapping_$l=$p"`. -/
def evalBind (k : Links String) (l p : String) : Option (Links String) :=
  (Family.evalAssign k.toLeft p l).bind fun toLeft =>
  (Family.evalAssign k.toRight l p).map fun toRight => ⟨toRight, toLeft⟩

/-- The variables of the loop that pairs the names without a partner. -/
structure Pairs where
  params : List String
  sorted_unset_physical_interfaces : List String
  unset_logical_interfaces : List String
  links : Links String

/-- The body of that loop, from `set ${sorted_unset_physical_interfaces}` on. -/
def pair (s : Pairs) (logical_interface : String) : Option Pairs :=
  match setParams s.params s.sorted_unset_physical_interfaces with
  | physical_interface :: params =>
    (evalBind s.links logical_interface physical_interface).map fun links =>
      { s with params, sorted_unset_physical_interfaces := params, links }
  | [] =>
    some { s with
      params := []
      unset_logical_interfaces := s.unset_logical_interfaces ++ [logical_interface] }

/-- `FAMILY_$name=$name` for each name of a list. -/
def markAll (names : List String) : Family :=
  names.foldl (fun f name => Function.update f name name) Family.unset

/-- The phase for the logical interfaces left over; it appends the names that are available to
`physical_interfaces`. -/
def mapLogical (logical_interfaces physical_interfaces sorted_unset : List String)
    (k : Links String) : List String × Links String :=
  if sorted_unset ≠ [] then
    let available := logical_interfaces.filter fun l => k.toLeft l == ""
    let available_logical_interface := markAll available
    let (k, unset) := sorted_unset.foldl (fun (s : Links String × List String) l =>
      let name := available_logical_interface l
      if name ≠ "" then (s.1.bind l name, s.2) else (s.1, s.2 ++ [l])) (k, [])
    (physical_interfaces ++ available, unset.foldl (Links.bindFirst "" available) k)
  else (physical_interfaces, k)

/-- The phase for the cards left over. -/
def mapPhysical (physical_interfaces sorted_unset : List String) (k : Links String) :
    Option (Links String) :=
  if sorted_unset ≠ [] then
    let available := physical_interfaces.filter fun p => k.toRight p == ""
    let available_physical_interface := markAll available
    (sorted_unset.foldlM (fun (s : Links String × List String) p =>
      (available_physical_interface.evalGet p).map fun name =>
        if name ≠ "" then (s.1.bind name p, s.2) else (s.1, s.2 ++ [p])) (k, [])).map
    fun (k, unset) => (unset.foldl (Links.bindFirst "" available) k.swap).swap
  else some k

/-- The names that this phase appends to `logical_interfaces`. -/
def addedLogical (physical_interfaces sorted_unset : List String) (k : Links String) :
    List String :=
  if sorted_unset ≠ [] then physical_interfaces.filter fun p => k.toRight p == "" else []

/-- All the phases, with the `logical_interfaces` that they leave: `none` when the script ends
before the mapping is done. -/
def mapPhases (c : Collation) (link : String → LinkShow) (nics : List Nic)
    (interfaces : List Interface) : Option (List String × Links String) :=
  let cards := readCards link nics
  let es := entries interfaces
  let logical_interfaces := es.map Prod.fst
  let declared := es.foldl (bindEntry cards.physical_mac_interface) (Links.unset "")
  let k := logical_interfaces.foldl (bindSameName cards.physical_interface) declared
  let unset_physical := cards.physical_interfaces.filter fun p => k.toLeft p == ""
  let unset_logical := logical_interfaces.filter fun l => k.toRight l == ""
  ((c.sort unset_logical).foldlM pair ⟨cards.params, c.sort unset_physical, [], k⟩).bind fun s =>
  let (physical_interfaces, k) := mapLogical logical_interfaces cards.physical_interfaces
    s.unset_logical_interfaces s.links
  (mapPhysical physical_interfaces s.sorted_unset_physical_interfaces k).map fun k' =>
    (logical_interfaces ++
      addedLogical physical_interfaces s.sorted_unset_physical_interfaces k, k')

def mapInterfaces (c : Collation) (link : String → LinkShow) (nics : List Nic)
    (interfaces : List Interface) : Option (Links String) :=
  (mapPhases c link nics interfaces).map Prod.snd

end CompassAdapters.Network.Preseed
