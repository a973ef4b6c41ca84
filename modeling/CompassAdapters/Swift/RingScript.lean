import CompassAdapters.Ruby.Hash

/-! `ring_script.rb`: the script that adds disks to the rings and removes disks from them. -/
namespace CompassAdapters.Swift
open Ruby

inductive Which
  | account
  | container
  | object
  deriving DecidableEq, Repr

namespace Which

def name : Which → String
  | account => "account"
  | container => "container"
  | object => "object"

def capitalize : Which → String
  | account => "Account"
  | container => "Container"
  | object => "Object"

def port : Which → String
  | account => "6002"
  | container => "6001"
  | object => "6000"

end Which

section Inventory

/-- What a storage node publishes of a disk. -/
structure Disk where
  device : String
  uuid : String
  ip : String
  size : ℕ
  deriving DecidableEq

/-- `info['uuid'].split('-').join('')`. -/
def Disk.mountpoint (v : Disk) : String := String.ofList (v.uuid.toList.filter (· ≠ '-'))

/-- A node that the search finds; `devs` is a hash with the UUIDs as keys. -/
structure StorageNode where
  hostname : String
  ring_zone : Which → Option String
  zone : Option String
  devs : List Disk
  nodup : (devs.map Disk.uuid).Nodup

/-- A disk as it is collected, with the zone of its node. -/
structure ZonedDisk extends Disk where
  zone : String

structure DiskData where
  disks : Hash String (Hash String ZonedDisk)
  available : Hash String String

def StorageNode.zoneFor (swiftnode : StorageNode) (which : Which) : Except String String :=
  match swiftnode.ring_zone which with
  | some zone => .ok zone
  | none =>
    match swiftnode.zone with
    | some zone => .ok zone
    | none => .error ("Node " ++ swiftnode.hostname ++ " has no zone assigned")

def collectDisk (which : Which) (swiftnode : StorageNode) (data : DiskData) (v : Disk) :
    Except String DiskData := do
  let zone ← swiftnode.zoneFor which
  return ⟨data.disks.store2 v.ip v.uuid ⟨v, zone⟩, data.available.store v.mountpoint v.ip⟩

def collectDisks (which : Which) (disk_state : List StorageNode) : Except String DiskData :=
  disk_state.foldlM (fun data swiftnode => swiftnode.devs.foldlM (collectDisk which swiftnode) data)
    ⟨Hash.empty, Hash.empty⟩

end Inventory

section Rings

/-- A device line of `swift-ring-builder`. -/
structure RingDevice where
  id : String
  zone : String
  ip : String
  port : String
  device : String
  deriving DecidableEq

structure Ring where
  devices : List RingDevice
  nodup : (devices.map RingDevice.id).Nodup

/-- `parse_ring_output(...)[:hosts]`. -/
def Ring.hosts (ring : Ring) : Hash String (Hash String RingDevice) :=
  ring.devices.foldl (fun hosts d => hosts.store2 d.ip d.device d) Hash.empty

def inUse (hosts : Hash String (Hash String RingDevice)) : Hash String String :=
  hosts.entries.foldl (fun in_use host =>
    host.2.entries.foldl (fun in_use dev => in_use.store dev.2.device dev.2.id) in_use) Hash.empty

end Rings

section Script

inductive Command
  | add (which : Which) (zone ip device : String) (size : ℕ)
  | remove (which : Which) (id : String)
  | rebalance (which : Which)
  deriving DecidableEq

def Command.text (ring_path : String) : Command → String
  | add which zone ip device size =>
    "swift-ring-builder " ++ ring_path ++ "/" ++ which.name ++ ".builder add z" ++ zone ++ "-" ++
      ip ++ ":" ++ which.port ++ "/" ++ device ++ " " ++ toString size ++ "\n"
  | remove which id =>
    "swift-ring-builder " ++ ring_path ++ "/" ++ which.name ++ ".builder remove d" ++ id ++ "\n"
  | rebalance which =>
    "swift-ring-builder " ++ ring_path ++ "/" ++ which.name ++ ".builder rebalance\n\n\n"

def Command.ring : Command → Which
  | add which _ _ _ _ => which
  | remove which _ => which
  | rebalance which => which

/-- Whether a command adds or removes a device. -/
def Command.isChange : Command → Bool
  | add .. => true
  | remove .. => true
  | rebalance _ => false

inductive Piece
  | text (s : String)
  | command (c : Command)

def Piece.render (ring_path : String) : Piece → String
  | text s => s
  | command c => c.text ring_path

/-- What the loop over the rings carries along; `s` in pieces. -/
structure Run where
  s : List Piece
  new_servers : List String
  must_rebalance : Bool

namespace Run

def put (r : Run) (text : String) : Run := { r with s := r.s ++ [.text text] }

def emit (r : Run) (c : Command) : Run := { r with s := r.s ++ [.command c] }

def commands (r : Run) : List Command :=
  r.s.filterMap fun
    | .text _ => none
    | .command c => some c

/-- The text of the script. -/
def render (r : Run) (ring_path : String) : String := String.join (r.s.map (Piece.render ring_path))

end Run

/-- The comments that list the disks, and the servers with new ones. -/
def listDisk (new_disks : Hash String String) (ip : String) (r : Run) (v : ZonedDisk) : Run :=
  let r := r.put ("#  " ++ v.device ++ ", " ++ v.ip ++ ", " ++ v.uuid)
  let r :=
    if v.mountpoint ∈ new_disks.keys then
      let r := r.put " (NEW!)"
      if ip ∈ r.new_servers then r else { r with new_servers := r.new_servers ++ [ip] }
    else r
  r.put "\n"

def listDisks (disks : Hash String (Hash String ZonedDisk)) (new_disks : Hash String String)
    (r : Run) : Run :=
  disks.sorted.foldl (fun r host =>
    host.2.sorted.foldl (fun r dev => listDisk new_disks host.1 r dev.2)
      (r.put ("# " ++ host.1 ++ "\n"))) r

def addDisk (which : Which) (new_disks : Hash String String) (r : Run) (v : ZonedDisk) : Run :=
  if v.mountpoint ∈ new_disks.keys then
    { r.emit (.add which v.zone v.ip v.mountpoint v.size) with must_rebalance := true }
  else r

def addDisks (which : Which) (disks : Hash String (Hash String ZonedDisk))
    (new_disks : Hash String String) (r : Run) : Run :=
  disks.sorted.foldl (fun r host =>
    host.2.sorted.foldl (fun r dev => addDisk which new_disks r dev.2) r) r

/-- The first device of that name. -/
def diskinfo (hosts : Hash String (Hash String RingDevice)) (mountpoint : String) :
    Option RingDevice :=
  hosts.entries.findSome? fun host => host.2.get? mountpoint

def description (d : RingDevice) : String :=
  "zone: " ++ d.zone ++ ", ip: " ++ d.ip ++ ", device: " ++ d.device

def removeDisk (which : Which) (hosts : Hash String (Hash String RingDevice)) (r : Run)
    (disk : String × String) : Run :=
  let r := r.put ("# " ++ ((diskinfo hosts disk.1).map description).getD "" ++ "\n")
  { r.emit (.remove which disk.2) with must_rebalance := true }

def removeDisks (which : Which) (hosts : Hash String (Hash String RingDevice))
    (missing_disks : Hash String String) (r : Run) : Run :=
  missing_disks.sorted.foldl (removeDisk which hosts) r

/-- The nodes that the search finds for the role of each ring, and the attributes of the node that
writes the script. -/
structure Cluster where
  nodes : Which → List StorageNode
  auto_rebuild_rings : Bool
  wait_for : Option ℤ

/-- Whether a rebalance is allowed after some servers with new disks. -/
def Cluster.enough (c : Cluster) (new_servers : List String) : Bool :=
  match c.wait_for with
  | some wait_for => !decide (wait_for > new_servers.length)
  | none => true

/-- The available disks that are not in the ring. -/
def newDisks (available in_use : Hash String String) : Hash String String :=
  available.select fun k _ => decide (k ∉ in_use.keys)

/-- The disks in the ring that are not in the cluster. -/
def missingDisks (available in_use : Hash String String) : Hash String String :=
  in_use.select fun k _ => decide (k ∉ available.keys)

/-- The part of the script for a ring, up to the rebalance. -/
def changeRing (hosts : Hash String (Hash String RingDevice)) (data : DiskData) (r : Run)
    (which : Which) : Run :=
  let in_use := inUse hosts
  let new_disks := newDisks data.available in_use
  let missing_disks := missingDisks data.available in_use
  let r := r.put ("\n# -- " ++ which.capitalize ++ " Servers --\n\n")
  let r := (listDisks data.disks new_disks r).put "\n"
  let r := addDisks which data.disks new_disks r
  (removeDisks which hosts missing_disks r).put "\n"

/-- The body of the loop over the rings. -/
def scriptRing (c : Cluster) (rings : Which → Ring) (disk_data : Which → DiskData) (r : Run)
    (which : Which) : Run :=
  let r := changeRing (rings which).hosts (disk_data which) r which
  let r :=
    if r.must_rebalance then r.emit (.rebalance which)
    else r.put ("# " ++ which.capitalize ++ " ring has no outstanding changes!\n\n")
  { r with must_rebalance := r.must_rebalance && c.enough r.new_servers }

def preamble (c : Cluster) : List Piece :=
  [.text "#!/bin/bash\n\n# This script is automatically generated.\n",
    .text "# Running it will likely blow up your system if you don't review it carefully.\n",
    .text "# You have been warned.\n\n"] ++
  if c.auto_rebuild_rings then []
  else
    [.text "if [ \"$1\" != \"--force\" ]; then\n",
      .text "  echo \"Auto rebuild rings is disabled, so you must use --force to generate rings\"\n",
      .text "  exit 0\n",
      .text "fi\n\n"]

/-- The script and `must_rebalance`. -/
def generateScript (c : Cluster) (rings : Which → Ring) : Except String Run := do
  let account ← collectDisks .account (c.nodes .account)
  let container ← collectDisks .container (c.nodes .container)
  let object ← collectDisks .object (c.nodes .object)
  let disk_data : Which → DiskData
    | .account => account
    | .container => container
    | .object => object
  return [Which.account, .container, .object].foldl (scriptRing c rings disk_data)
    ⟨preamble c, [], false⟩

end Script

end CompassAdapters.Swift
