import CompassAdapters.Network.PreseedMapping
import CompassAdapters.Shell.Loops

/-! The mapping phases of `suse_pre_install_network`, which bash runs: the phases of the preseed
script with indexed arrays in the place of lists of words. `fuel` bounds the rounds of its `while`
loops. -/
namespace CompassAdapters.Network.Suse
open Shell Matching

/-- What the loops over the cards set. -/
structure Cards where
  physical_interfaces : List String
  physical_interface : Family
  physical_mac_interface : Family

/-- The variables of the loop over the positional parameters. `physical_interface_num` and
`physical_interface_offset` are also what `eval` assigns for cards of the names `num` and `offset`:
the first is `none` when it is such a name, the second is `let` to a number again. -/
structure Recording where
  params : List Nic
  physical_interfaces : List Nic
  physical_interface : Family
  physical_interface_num : Option ℕ
  physical_interface_offset : ℕ

/-- `[ $physical_interface_offset -lt $physical_interface_num ]`, which fails on a name. -/
def Recording.more (r : Recording) : Bool :=
  r.physical_interface_num.any fun num => decide (r.physical_interface_offset < num)

/-- The body of the loop. When the parameters are used up it only counts on, and `let` takes the
word `offset` for a variable that is not set. -/
def Recording.record (r : Recording) : Recording :=
  match r.params with
  | [] => { r with physical_interface_offset := r.physical_interface_offset + 1 }
  | nic :: params =>
    { params
      physical_interfaces := r.physical_interfaces ++ [nic]
      physical_interface := Function.update r.physical_interface nic.name nic.name
      physical_interface_num :=
        if nic.name = "num" then none else r.physical_interface_num
      physical_interface_offset :=
        (if nic.name = "offset" then 0 else r.physical_interface_offset) + 1 }

/-- What `${physical_interface_x}` is after the loop. -/
def Recording.read (r : Recording) (x : String) : String :=
  if x = "num" then r.physical_interface_num.elim "num" toString
  else if x = "offset" then toString r.physical_interface_offset
  else r.physical_interface x

/-- The two loops; the second goes over the cards that the first has recorded. `none` when the
first does not end within `fuel` tests. -/
def readCards (fuel : ℕ) (nics : List Nic) : Option Cards :=
  (whileLoop Recording.more Recording.record fuel
    ⟨nics, [], Family.unset, some nics.length, 0⟩).map fun r =>
  { physical_interfaces := r.physical_interfaces.map Nic.name
    physical_interface := r.read
    physical_mac_interface := r.physical_interfaces.foldl
      (fun f nic => Function.update f (Preseed.macName (upper nic.mac)) nic.name) Family.unset }

/-- The code generated for one entry of the configuration is that of the preseed script. -/
def bindEntry : Family → Links String → String × String → Links String := Preseed.bindEntry

/-- The body of the loop that looks for a card of the same name, also the same. -/
def bindSameName : Family → Links String → String → Links String := Preseed.bindSameName

/-- The loop over the two sorted arrays, the cards to the left. An empty name only gives `eval`
a variable without one. -/
def pairUnset (fuel : ℕ) (sorted_physical sorted_logical : List String) (k : Links String) :
    Option (Pairing (Links String)) :=
  Pairing.loop (fun p l k => .ok (k.bind l p)) fuel
    (Pairing.ofWords sorted_physical sorted_logical k)

/-- The loop in which an available name is taken by itself; the rest is kept in an array. -/
def takeOwn (available rest : List String) (k : Links String) : Links String × IndexedArray :=
  let available_interface := Preseed.markAll available
  let (k, unset) := rest.foldl (fun (s : Links String × List String) x =>
    let name := available_interface x
    if name ≠ "" then (s.1.bind x name, s.2) else (s.1, s.2 ++ [x])) (k, [])
  (k, IndexedArray.ofWords unset)

/-- The phase for the logical interfaces left over; it appends the names that are available to
`physical_interfaces`. Its last loop goes over `${available_logical_interfaces[@}}`. -/
def mapLogical (logical_interfaces physical_interfaces : List String)
    (sorted_unset : IndexedArray) (k : Links String) : List String × Links String :=
  if 0 < sorted_unset.count then
    let available := logical_interfaces.filter fun l => k.toLeft l == ""
    let (k, unset) := takeOwn available sorted_unset.values k
    (physical_interfaces ++ available,
      unset.values.foldl (Links.bindFirst "" (IndexedArray.ofWords available).malformed) k)
  else (physical_interfaces, k)

/-- The phase for the cards left over. Its last loops go over `${sorted_unset_physical_interfaces}`
and `${available_physical_interfaces}`. -/
def mapPhysical (physical_interfaces : List String) (sorted_unset : IndexedArray)
    (k : Links String) : Links String :=
  if 0 < sorted_unset.count then
    let available := physical_interfaces.filter fun p => k.toRight p == ""
    let (k, unset) := takeOwn available sorted_unset.values k.swap
    (unset.scalar.foldl (Links.bindFirst "" (IndexedArray.ofWords available).scalar) k).swap
  else k

/-- The phases once the cards are read. -/
def mapCards (c : Collation) (fuel : ℕ) (cards : Cards) (interfaces : List Interface) :
    Option (Links String) :=
  let es := entries interfaces
  let logical_interfaces := es.map Prod.fst
  let declared := es.foldl (bindEntry cards.physical_mac_interface) (Links.unset "")
  let k := logical_interfaces.foldl (bindSameName cards.physical_interface) declared
  let unset_logical := logical_interfaces.filter fun l => k.toRight l == ""
  let unset_physical := cards.physical_interfaces.filter fun p => k.toLeft p == ""
  (pairUnset fuel (c.sort unset_physical) (c.sort unset_logical) k).map fun paired =>
    let (physical_interfaces, k) := mapLogical logical_interfaces cards.physical_interfaces
      paired.right paired.vars
    mapPhysical physical_interfaces paired.left k

/-- `none` when one of the `while` loops does not end within `fuel` tests. -/
def mapInterfaces (c : Collation) (fuel : ℕ) (nics : List Nic) (interfaces : List Interface) :
    Option (Links String) :=
  (readCards fuel nics).bind fun cards => mapCards c fuel cards interfaces

end CompassAdapters.Network.Suse
