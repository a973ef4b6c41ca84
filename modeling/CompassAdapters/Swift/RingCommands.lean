import CompassAdapters.Effects.Results
import CompassAdapters.Swift.RingScript

/-! What `generate_script` collects, and the commands it writes for a ring. -/
namespace CompassAdapters.Swift
open Effects Ruby

variable {which : Which} {c : Cluster} {rings : Which → Ring} {r : Run}

section Inventory

/-- All disks that some nodes publish. -/
def published (nodes : List StorageNode) : List Disk := nodes.flatMap StorageNode.devs

def DiskData.put (data : DiskData) (v : ZonedDisk) : DiskData :=
  ⟨data.disks.store2 v.ip v.uuid v, data.available.store v.mountpoint v.ip⟩

theorem collectDisk_ok {swiftnode : StorageNode} {data data' : DiskData} {v : Disk}
    (h : collectDisk which swiftnode data v = .ok data') :
    ∃ zone, data' = data.put ⟨v, zone⟩ := by
  rw [collectDisk] at h
  obtain ⟨zone, -, h⟩ := bind_eq_ok.mp h
  cases h
  exact ⟨zone, rfl⟩

theorem collectNode_ok {swiftnode : StorageNode} {devs : List Disk} {data data' : DiskData}
    (h : devs.foldlM (collectDisk which swiftnode) data = .ok data') :
    ∃ zoned : List ZonedDisk, zoned.map ZonedDisk.toDisk = devs ∧
      data' = zoned.foldl DiskData.put data := by
  induction devs generalizing data with
  | nil =>
    cases h
    exact ⟨[], rfl, rfl⟩
  | cons v devs ih =>
    rw [List.foldlM_cons] at h
    obtain ⟨data₁, hv, h⟩ := bind_eq_ok.mp h
    obtain ⟨zone, rfl⟩ := collectDisk_ok hv
    obtain ⟨zoned, rfl, rfl⟩ := ih h
    exact ⟨⟨v, zone⟩ :: zoned, rfl, rfl⟩

theorem collectNodes_ok {nodes : List StorageNode} {data data' : DiskData}
    (h : nodes.foldlM (fun data swiftnode => swiftnode.devs.foldlM (collectDisk which swiftnode)
      data) data = .ok data') :
    ∃ zoned : List ZonedDisk, zoned.map ZonedDisk.toDisk = published nodes ∧
      data' = zoned.foldl DiskData.put data := by
  induction nodes generalizing data with
  | nil =>
    cases h
    exact ⟨[], rfl, rfl⟩
  | cons swiftnode nodes ih =>
    rw [List.foldlM_cons] at h
    obtain ⟨data₁, hnode, h⟩ := bind_eq_ok.mp h
    obtain ⟨zoned, hzoned, rfl⟩ := collectNode_ok hnode
    obtain ⟨more, hmore, rfl⟩ := ih h
    refine ⟨zoned ++ more, ?_, List.foldl_append.symm⟩
    rw [List.map_append, hzoned, hmore, published, published, List.flatMap_cons]

/-- What is collected of some disks: their mountpoints, and each of them under its address. -/
structure Collected (disks : List Disk) (data : DiskData) : Prop where
  available : ∀ k, k ∈ data.available.keys ↔ ∃ v ∈ disks, v.mountpoint = k
  of_disks : ∀ ip k v, data.disks.get2? ip k = some v → v.toDisk ∈ disks ∧ v.ip = ip
  disks : ∀ v ∈ disks, ∃ v', data.disks.get2? v.ip v.uuid = some v' ∧ v'.uuid = v.uuid

theorem collectDisks_ok {nodes : List StorageNode} {data : DiskData}
    (h : collectDisks which nodes = .ok data) : Collected (published nodes) data := by
  obtain ⟨zoned, hzoned, rfl⟩ := collectNodes_ok h
  have hdisks : (zoned.foldl DiskData.put ⟨Hash.empty, Hash.empty⟩).disks =
      zoned.foldl (fun h v => h.store2 v.ip v.uuid v) Hash.empty :=
    (List.foldl_hom DiskData.disks fun _ _ => rfl).symm
  have havailable : (zoned.foldl DiskData.put ⟨Hash.empty, Hash.empty⟩).available =
      zoned.foldl (fun h v => h.store v.mountpoint v.ip) Hash.empty :=
    (List.foldl_hom DiskData.available fun _ _ => rfl).symm
  refine ⟨fun k => ?_, fun ip k v hget => ?_, fun v hv => ?_⟩
  · rw [havailable, Hash.mem_keys_foldl_store, ← hzoned]
    constructor
    · rintro ⟨v, hv, hk⟩
      exact ⟨v.toDisk, List.mem_map_of_mem hv, hk⟩
    · rintro ⟨v, hv, hk⟩
      obtain ⟨zv, hzv, rfl⟩ := List.mem_map.mp hv
      exact ⟨zv, hzv, hk⟩
  · rw [hdisks] at hget
    obtain ⟨v, hv, hip, -, rfl⟩ := Hash.of_get2?_foldl_store2 hget
    exact ⟨hzoned ▸ List.mem_map_of_mem hv, hip⟩
  · rw [← hzoned] at hv
    obtain ⟨zv, hzv, rfl⟩ := List.mem_map.mp hv
    rw [hdisks]
    obtain ⟨stored, hget⟩ := Hash.exists_get2?_foldl_store2 (fun v : ZonedDisk => v.ip)
      (fun v : ZonedDisk => v.uuid) (fun v => v) hzv
    obtain ⟨v', -, -, huuid, rfl⟩ := Hash.of_get2?_foldl_store2 hget
    exact ⟨v', hget, huuid⟩

/-- Something for each ring. -/
def Which.choose {α : Type} (account container object : α) : Which → α
  | .account => account
  | .container => container
  | .object => object

/-- The disks do not depend on the rings. -/
theorem generateScript_ok (h : generateScript c rings = .ok r) :
    ∃ disk_data : Which → DiskData, (∀ which, Collected (published (c.nodes which))
      (disk_data which)) ∧ ∀ rings, generateScript c rings =
        .ok ([Which.account, .container, .object].foldl (scriptRing c rings disk_data)
          ⟨preamble c, [], false⟩) := by
  rw [generateScript] at h
  obtain ⟨account, haccount, h⟩ := bind_eq_ok.mp h
  obtain ⟨container, hcontainer, h⟩ := bind_eq_ok.mp h
  obtain ⟨object, hobject, -⟩ := bind_eq_ok.mp h
  refine ⟨Which.choose account container object, ?_, ?_⟩
  · intro which
    cases which with
    | account => exact collectDisks_ok haccount
    | container => exact collectDisks_ok hcontainer
    | object => exact collectDisks_ok hobject
  · intro rings
    rw [generateScript, haccount, hcontainer, hobject]
    rfl

end Inventory

section Rings

theorem of_hosts {ring : Ring} {ip device : String} {d : RingDevice}
    (h : ring.hosts.get2? ip device = some d) : d ∈ ring.devices := by
  obtain ⟨d, hd, -, -, rfl⟩ := Hash.of_get2?_foldl_store2 h
  exact hd

theorem inUse_eq (hosts : Hash String (Hash String RingDevice)) :
    inUse hosts = hosts.values2.foldl (fun h d => h.store d.device d.id) Hash.empty := by
  rw [inUse, Hash.values2, List.foldl_flatMap]
  simp only [List.foldl_map]

theorem mem_keys_inUse {ring : Ring} {k : String} :
    k ∈ (inUse ring.hosts).keys ↔ ∃ d ∈ ring.devices, d.device = k := by
  rw [inUse_eq, Hash.mem_keys_foldl_store]
  constructor
  · rintro ⟨d, hd, hk⟩
    obtain ⟨ip, device, hget⟩ := Hash.mem_values2.mp hd
    exact ⟨d, of_hosts hget, hk⟩
  · rintro ⟨d, hd, rfl⟩
    obtain ⟨stored, hget⟩ := Hash.exists_get2?_foldl_store2 RingDevice.ip RingDevice.device
      (fun d => d) hd
    obtain ⟨d', -, -, hdevice, rfl⟩ := Hash.of_get2?_foldl_store2 hget
    exact ⟨d', Hash.mem_values2.mpr ⟨_, _, hget⟩, hdevice⟩

theorem of_inUse {ring : Ring} {k id : String} (h : (inUse ring.hosts).get? k = some id) :
    ∃ d ∈ ring.devices, d.device = k ∧ d.id = id := by
  rw [inUse_eq] at h
  obtain ⟨d, hd, hk, hid⟩ := Hash.of_get?_foldl_store h
  obtain ⟨ip, device, hget⟩ := Hash.mem_values2.mp hd
  exact ⟨d, of_hosts hget, hk, hid⟩

/-- What is missing has a line of the ring to describe it. -/
theorem exists_diskinfo {ring : Ring} {k : String} (h : k ∈ (inUse ring.hosts).keys) :
    ∃ d, diskinfo ring.hosts k = some d := by
  obtain ⟨d, hd, rfl⟩ := mem_keys_inUse.mp h
  obtain ⟨stored, hget⟩ := Hash.exists_get2?_foldl_store2 RingDevice.ip RingDevice.device
    (fun d => d) hd
  obtain ⟨host, hhost, hdevice⟩ := Option.bind_eq_some_iff.mp hget
  rw [diskinfo, ← Option.isSome_iff_exists, List.findSome?_isSome_iff]
  exact ⟨(d.ip, host), Hash.mem_entries.mpr hhost, by rw [hdevice]; rfl⟩

end Rings

section Script

namespace Run

@[simp] theorem commands_put (r : Run) (text : String) : (r.put text).commands = r.commands := by
  simp [put, commands]

@[simp] theorem commands_emit (r : Run) (c : Command) :
    (r.emit c).commands = r.commands ++ [c] := by
  simp [emit, commands]

@[simp] theorem new_servers_put (r : Run) (text : String) :
    (r.put text).new_servers = r.new_servers := rfl

@[simp] theorem new_servers_emit (r : Run) (c : Command) :
    (r.emit c).new_servers = r.new_servers := rfl

@[simp] theorem must_rebalance_put (r : Run) (text : String) :
    (r.put text).must_rebalance = r.must_rebalance := rfl

@[simp] theorem must_rebalance_emit (r : Run) (c : Command) :
    (r.emit c).must_rebalance = r.must_rebalance := rfl

end Run

/-- A part of the script without commands that lists some disks. -/
structure Lists (new_disks : Hash String String) (disks : List (String × ZonedDisk))
    (r r' : Run) : Prop where
  commands : r'.commands = r.commands
  must_rebalance : r'.must_rebalance = r.must_rebalance
  nodup : r.new_servers.Nodup → r'.new_servers.Nodup
  new_servers : ∀ ip, ip ∈ r'.new_servers ↔
    ip ∈ r.new_servers ∨ ∃ v, (ip, v) ∈ disks ∧ v.mountpoint ∈ new_disks.keys

namespace Lists

variable {new_disks : Hash String String} {disks disks' : List (String × ZonedDisk)} {r' r'' : Run}

theorem put (r : Run) (text : String) : Lists new_disks [] r (r.put text) where
  commands := r.commands_put text
  must_rebalance := rfl
  nodup h := h
  new_servers ip := by simp

theorem trans (h : Lists new_disks disks r r') (h' : Lists new_disks disks' r' r'') :
    Lists new_disks (disks ++ disks') r r'' where
  commands := h'.commands.trans h.commands
  must_rebalance := h'.must_rebalance.trans h.must_rebalance
  nodup hr := h'.nodup (h.nodup hr)
  new_servers ip := by
    rw [h'.new_servers, h.new_servers, or_assoc, ← exists_or]
    simp only [List.mem_append, or_and_right]

theorem listDisk (ip : String) (r : Run) (v : ZonedDisk) :
    Lists new_disks [(ip, v)] r (listDisk new_disks ip r v) := by
  have hparts : (Swift.listDisk new_disks ip r v).commands = r.commands ∧
      (Swift.listDisk new_disks ip r v).must_rebalance = r.must_rebalance ∧
      (Swift.listDisk new_disks ip r v).new_servers =
        if v.mountpoint ∈ new_disks.keys ∧ ip ∉ r.new_servers then r.new_servers ++ [ip]
        else r.new_servers := by
    by_cases hnew : v.mountpoint ∈ new_disks.keys
    · by_cases hip : ip ∈ r.new_servers
      · simp [Swift.listDisk, hnew, hip]
      · simp [Swift.listDisk, hnew, hip, Run.commands, Run.put]
    · simp [Swift.listDisk, hnew]
  obtain ⟨hcommands, hmust, hservers⟩ := hparts
  refine ⟨hcommands, hmust, fun hr => ?_, fun ip' => ?_⟩
  · rw [hservers]
    split
    next h =>
      rw [← List.concat_eq_append]
      exact hr.concat h.2
    next => exact hr
  · rw [hservers]
    by_cases hnew : v.mountpoint ∈ new_disks.keys
    · by_cases hip : ip ∈ r.new_servers
      · simp only [hnew, hip, not_true, and_false, if_false]
        constructor
        · exact Or.inl
        · rintro (h | ⟨v', hv', -⟩)
          · exact h
          · cases List.mem_singleton.mp hv'
            exact hip
      · simp [hnew, hip]
    · simp [hnew]

theorem listHost (ip : String) (devs : List (String × ZonedDisk)) (r : Run) :
    Lists new_disks (devs.map fun dev => (ip, dev.2)) r
      (devs.foldl (fun r dev => Swift.listDisk new_disks ip r dev.2) r) := by
  induction devs generalizing r with
  | nil => exact ⟨rfl, rfl, id, fun ip => by simp⟩
  | cons dev devs ih => exact (Lists.listDisk ip r dev.2).trans (ih _)

theorem listDisks (new_disks : Hash String String) (disks : Hash String (Hash String ZonedDisk))
    (r : Run) : Lists new_disks disks.sortedValues2 r (listDisks disks new_disks r) := by
  rw [Swift.listDisks, Hash.sortedValues2]
  induction disks.sorted generalizing r with
  | nil => exact ⟨rfl, rfl, id, fun ip => by simp⟩
  | cons host hosts ih =>
    rw [List.foldl_cons, List.flatMap_cons]
    exact ((Lists.put r _).trans (Lists.listHost host.1 host.2.sorted _)).trans (ih _)

end Lists

/-- A part of the script with some commands that change a ring. -/
structure Emits (cs : List Command) (r r' : Run) : Prop where
  commands : r'.commands = r.commands ++ cs
  must_rebalance : r'.must_rebalance = (r.must_rebalance || !cs.isEmpty)
  new_servers : r'.new_servers = r.new_servers

namespace Emits

variable {cs cs' : List Command} {r' r'' : Run}

theorem refl (r : Run) : Emits [] r r := ⟨by simp, by simp, rfl⟩

theorem put (r : Run) (text : String) : Emits [] r (r.put text) := ⟨by simp, by simp, rfl⟩

theorem trans (h : Emits cs r r') (h' : Emits cs' r' r'') : Emits (cs ++ cs') r r'' where
  commands := by rw [h'.commands, h.commands, List.append_assoc]
  must_rebalance := by
    rw [h'.must_rebalance, h.must_rebalance, Bool.or_assoc]
    cases cs <;> rfl
  new_servers := h'.new_servers.trans h.new_servers

end Emits

def addCommand (which : Which) (new_disks : Hash String String) (v : ZonedDisk) : Option Command :=
  if v.mountpoint ∈ new_disks.keys then some (.add which v.zone v.ip v.mountpoint v.size) else none

def addCommands (which : Which) (new_disks : Hash String String)
    (disks : List (String × ZonedDisk)) : List Command :=
  disks.filterMap fun v => addCommand which new_disks v.2

theorem addDisks_emits (which : Which) (disks : Hash String (Hash String ZonedDisk))
    (new_disks : Hash String String) (r : Run) :
    Emits (addCommands which new_disks disks.sortedValues2) r
      (addDisks which disks new_disks r) := by
  have hflat : addDisks which disks new_disks r =
      disks.sortedValues2.foldl (fun r v => addDisk which new_disks r v.2) r := by
    rw [addDisks, Hash.sortedValues2, List.foldl_flatMap]
    simp only [List.foldl_map]
  rw [hflat]
  clear hflat
  induction disks.sortedValues2 generalizing r with
  | nil => exact Emits.refl r
  | cons v vs ih =>
    have hstep : Emits (addCommand which new_disks v.2).toList r
        (addDisk which new_disks r v.2) := by
      rw [addCommand, addDisk]
      split
      next => exact ⟨r.commands_emit _, (Bool.or_true _).symm, rfl⟩
      next => exact Emits.refl r
    have hcons : addCommands which new_disks (v :: vs) =
        (addCommand which new_disks v.2).toList ++ addCommands which new_disks vs := by
      rw [addCommands, List.filterMap_cons]
      cases addCommand which new_disks v.2 <;> rfl
    rw [hcons, List.foldl_cons]
    exact hstep.trans (ih _)

def removeCommands (which : Which) (missing_disks : Hash String String) : List Command :=
  missing_disks.sorted.map fun disk => .remove which disk.2

theorem removeDisks_emits (which : Which) (hosts : Hash String (Hash String RingDevice))
    (missing_disks : Hash String String) (r : Run) :
    Emits (removeCommands which missing_disks) r (removeDisks which hosts missing_disks r) := by
  rw [removeDisks, removeCommands]
  induction missing_disks.sorted generalizing r with
  | nil => exact Emits.refl r
  | cons disk disks ih =>
    have hstep : Emits [.remove which disk.2] r (removeDisk which hosts r disk) := by
      refine ⟨?_, (Bool.or_true _).symm, rfl⟩
      rw [← Run.commands_put r]
      exact Run.commands_emit _ _
    exact hstep.trans (ih _)

/-- The changes of a ring that the script writes. -/
def changes (which : Which) (ring : Ring) (data : DiskData) : List Command :=
  addCommands which (newDisks data.available (inUse ring.hosts)) data.disks.sortedValues2 ++
    removeCommands which (missingDisks data.available (inUse ring.hosts))

/-- A server with a disk that is not in the ring. -/
def NewServer (ring : Ring) (disks : List Disk) (ip : String) : Prop :=
  ∃ v ∈ disks, v.ip = ip ∧ ∀ d ∈ ring.devices, d.device ≠ v.mountpoint

theorem ring_of_changes {ring : Ring} {data : DiskData} {cmd : Command}
    (h : cmd ∈ changes which ring data) : cmd.ring = which ∧ cmd.isChange = true := by
  rcases List.mem_append.mp h with h | h
  · obtain ⟨v, -, hv⟩ := List.mem_filterMap.mp h
    rw [addCommand] at hv
    split at hv
    next =>
      cases hv
      exact ⟨rfl, rfl⟩
    next => cases hv
  · obtain ⟨disk, -, rfl⟩ := List.mem_map.mp h
    exact ⟨rfl, rfl⟩

/-- What the body of the loop writes for a ring, and what it leaves behind. -/
structure Writes (c : Cluster) (which : Which) (cs : List Command) (new : String → Prop)
    (r r' : Run) : Prop where
  commands : r'.commands = r.commands ++ cs ++
    if (r.must_rebalance || !cs.isEmpty) = true then [.rebalance which] else []
  must_rebalance : r'.must_rebalance =
    ((r.must_rebalance || !cs.isEmpty) && c.enough r'.new_servers)
  nodup : r.new_servers.Nodup → r'.new_servers.Nodup
  new_servers : ∀ ip, ip ∈ r'.new_servers ↔ ip ∈ r.new_servers ∨ new ip

variable {ring : Ring} {data : DiskData} {disks : List Disk}

theorem mem_newDisks (h : Collected disks data) {k : String} :
    k ∈ (newDisks data.available (inUse ring.hosts)).keys ↔
      (∃ v ∈ disks, v.mountpoint = k) ∧ ∀ d ∈ ring.devices, d.device ≠ k := by
  rw [newDisks, Hash.mem_keys_select, h.available, decide_eq_true_iff, mem_keys_inUse]
  simp

theorem mem_missingDisks (h : Collected disks data) {k : String} :
    k ∈ (missingDisks data.available (inUse ring.hosts)).keys ↔
      (∃ d ∈ ring.devices, d.device = k) ∧ ∀ v ∈ disks, v.mountpoint ≠ k := by
  rw [missingDisks, Hash.mem_keys_select, mem_keys_inUse, decide_eq_true_iff, h.available]
  simp

theorem changeRing_emits (which : Which) (ring : Ring) (data : DiskData) (r : Run) :
    ∃ r', Lists (newDisks data.available (inUse ring.hosts)) data.disks.sortedValues2 r r' ∧
      Emits (changes which ring data) r' (changeRing ring.hosts data r which) := by
  have hlist (new_disks : Hash String String) (r : Run) (title : String) :
      Lists new_disks data.disks.sortedValues2 r
        ((listDisks data.disks new_disks (r.put title)).put "\n") := by
    have hall := (Lists.put r title).trans
      ((Lists.listDisks new_disks data.disks _).trans (Lists.put _ "\n"))
    rwa [List.append_nil, List.nil_append] at hall
  have hemit (new_disks missing_disks : Hash String String) (r : Run) :
      Emits (addCommands which new_disks data.disks.sortedValues2 ++
          removeCommands which missing_disks) r
        ((removeDisks which ring.hosts missing_disks
          (addDisks which data.disks new_disks r)).put "\n") := by
    have hall := (addDisks_emits which data.disks new_disks r).trans
      ((removeDisks_emits which ring.hosts missing_disks _).trans (Emits.put _ "\n"))
    rwa [List.append_nil] at hall
  exact ⟨_, hlist _ r _, hemit _ _ _⟩

theorem exists_new_iff (h : Collected disks data) {ip : String} :
    (∃ v, (ip, v) ∈ data.disks.sortedValues2 ∧
      v.mountpoint ∈ (newDisks data.available (inUse ring.hosts)).keys) ↔
    NewServer ring disks ip := by
  simp only [Hash.mem_sortedValues2, mem_newDisks h]
  constructor
  · rintro ⟨v, ⟨uuid, hget⟩, -, hnew⟩
    obtain ⟨hv, hip⟩ := h.of_disks ip uuid v hget
    exact ⟨v.toDisk, hv, hip, hnew⟩
  · rintro ⟨v, hv, rfl, hnew⟩
    obtain ⟨v', hget, huuid⟩ := h.disks v hv
    have hmount : v'.mountpoint = v.mountpoint := by
      rw [Disk.mountpoint, huuid, Disk.mountpoint]
    exact ⟨v', ⟨v.uuid, hget⟩, ⟨v, hv, hmount.symm⟩, hmount ▸ hnew⟩

theorem scriptRing_writes {disk_data : Which → DiskData} (h : Collected disks (disk_data which))
    (r : Run) : Writes c which (changes which (rings which) (disk_data which))
      (NewServer (rings which) disks) r (scriptRing c rings disk_data r which) := by
  obtain ⟨r', hlist, hemit⟩ := changeRing_emits which (rings which) (disk_data which) r
  have hcommands := hemit.commands
  have hmust := hemit.must_rebalance
  have hservers := hemit.new_servers
  rw [hlist.commands] at hcommands
  rw [hlist.must_rebalance] at hmust
  rw [scriptRing]
  generalize changeRing (rings which).hosts (disk_data which) r which = r'' at *
  have hmem (ip : String) : ip ∈ r''.new_servers ↔
      ip ∈ r.new_servers ∨ NewServer (rings which) disks ip := by
    rw [hservers, hlist.new_servers, exists_new_iff h]
  have hnodup : r.new_servers.Nodup → r''.new_servers.Nodup := by
    rw [hservers]
    exact hlist.nodup
  by_cases hchanged : r''.must_rebalance = true
  · simp only [if_pos hchanged]
    refine ⟨?_, ?_, hnodup, hmem⟩
    · rw [if_pos (hmust ▸ hchanged), ← hcommands]
      exact r''.commands_emit _
    · rw [← hmust]
      rfl
  · simp only [if_neg hchanged]
    refine ⟨?_, ?_, hnodup, hmem⟩
    · rw [if_neg (hmust ▸ hchanged), ← hcommands, List.append_nil]
      exact r''.commands_put _
    · rw [← hmust]
      rfl

/-- A ring with a device that is in no node, or without one that is. -/
def Pending (ring : Ring) (disks : List Disk) : Prop :=
  (∃ v ∈ disks, ∀ d ∈ ring.devices, d.device ≠ v.mountpoint) ∨
    ∃ d ∈ ring.devices, ∀ v ∈ disks, v.mountpoint ≠ d.device

instance instDecidablePending (ring : Ring) (disks : List Disk) : Decidable (Pending ring disks) :=
  inferInstanceAs (Decidable (_ ∨ _))

theorem mem_addCommands (h : Collected disks data) {cmd : Command} :
    cmd ∈ addCommands which (newDisks data.available (inUse ring.hosts)) data.disks.sortedValues2 ↔
      ∃ v : ZonedDisk, (∃ k, data.disks.get2? v.ip k = some v) ∧
        (∀ d ∈ ring.devices, d.device ≠ v.mountpoint) ∧
        cmd = .add which v.zone v.ip v.mountpoint v.size := by
  simp only [addCommands, List.mem_filterMap, Prod.exists, Hash.mem_sortedValues2]
  constructor
  · rintro ⟨ip, v, ⟨k, hget⟩, hv⟩
    rw [addCommand] at hv
    split at hv
    next hnew =>
      obtain ⟨-, hip⟩ := h.of_disks ip k v hget
      exact ⟨v, ⟨k, hip.symm ▸ hget⟩, ((mem_newDisks h).mp hnew).2, (Option.some.inj hv).symm⟩
    next => cases hv
  · rintro ⟨v, ⟨k, hget⟩, hnew, rfl⟩
    have hkey : v.mountpoint ∈ (newDisks data.available (inUse ring.hosts)).keys :=
      (mem_newDisks h).mpr ⟨⟨v.toDisk, (h.of_disks _ k v hget).1, rfl⟩, hnew⟩
    exact ⟨v.ip, v, ⟨k, hget⟩, if_pos hkey⟩

/-- The disks that are added. -/
theorem exists_add_iff (which : Which) (h : Collected disks data) {ip device : String} :
    (∃ zone size, Command.add which zone ip device size ∈
      addCommands which (newDisks data.available (inUse ring.hosts)) data.disks.sortedValues2) ↔
      ∃ v ∈ disks, v.ip = ip ∧ v.mountpoint = device ∧ ∀ d ∈ ring.devices, d.device ≠ device := by
  simp only [mem_addCommands h]
  constructor
  · rintro ⟨zone, size, v, ⟨k, hget⟩, hnew, hcmd⟩
    cases hcmd
    exact ⟨v.toDisk, (h.of_disks _ k v hget).1, rfl, rfl, hnew⟩
  · rintro ⟨v, hv, rfl, rfl, hnew⟩
    obtain ⟨v', hget, huuid⟩ := h.disks v hv
    obtain ⟨-, hip⟩ := h.of_disks _ _ _ hget
    have hmount : v'.mountpoint = v.mountpoint := by
      rw [Disk.mountpoint, huuid, Disk.mountpoint]
    rw [← hmount] at hnew ⊢
    rw [← hip] at hget ⊢
    exact ⟨v'.zone, v'.size, v', ⟨v.uuid, hget⟩, hnew, rfl⟩

/-- The identifiers that are removed. -/
theorem mem_removeCommands (h : Collected disks data) {cmd : Command} :
    cmd ∈ removeCommands which (missingDisks data.available (inUse ring.hosts)) ↔
      ∃ k id, (inUse ring.hosts).get? k = some id ∧ (∀ v ∈ disks, v.mountpoint ≠ k) ∧
        cmd = .remove which id := by
  simp only [removeCommands, List.mem_map, Prod.exists, Hash.mem_sorted]
  constructor
  · rintro ⟨k, id, hget, rfl⟩
    have hmissing := (mem_missingDisks h).mp (Hash.mem_keys.mpr ⟨id, hget⟩)
    refine ⟨k, id, ?_, hmissing.2, rfl⟩
    rw [missingDisks, Hash.get?_select] at hget
    · exact hget
    · rw [decide_eq_true_iff, h.available]
      rintro ⟨v, hv, hk⟩
      exact hmissing.2 v hv hk
  · rintro ⟨k, id, hget, hmissing, rfl⟩
    refine ⟨k, id, ?_, rfl⟩
    rw [missingDisks, Hash.get?_select]
    · exact hget
    · rw [decide_eq_true_iff, h.available]
      rintro ⟨v, hv, hk⟩
      exact hmissing v hv hk

theorem changes_isEmpty (which : Which) (h : Collected disks data) :
    (!(changes which ring data).isEmpty) = true ↔ Pending ring disks := by
  rw [Bool.not_eq_true', List.isEmpty_eq_false_iff_exists_mem]
  constructor
  · rintro ⟨cmd, hcmd⟩
    rcases List.mem_append.mp hcmd with hcmd | hcmd
    · obtain ⟨v, ⟨k, hget⟩, hnew, -⟩ := (mem_addCommands h).mp hcmd
      exact Or.inl ⟨v.toDisk, (h.of_disks _ k v hget).1, hnew⟩
    · obtain ⟨k, id, hget, hmissing, -⟩ := (mem_removeCommands h).mp hcmd
      obtain ⟨d, hd, rfl, -⟩ := of_inUse hget
      exact Or.inr ⟨d, hd, hmissing⟩
  · rintro (⟨v, hv, hnew⟩ | ⟨d, hd, hmissing⟩)
    · obtain ⟨zone, size, hcmd⟩ :=
        (exists_add_iff which h).mpr ⟨v, hv, rfl, rfl, hnew⟩
      exact ⟨_, List.mem_append_left _ hcmd⟩
    · obtain ⟨id, hget⟩ := Hash.mem_keys.mp (mem_keys_inUse.mpr ⟨d, hd, rfl⟩)
      exact ⟨.remove which id, List.mem_append_right _
        ((mem_removeCommands h).mpr ⟨d.device, id, hget, hmissing, rfl⟩)⟩

theorem commands_preamble (c : Cluster) : Run.commands ⟨preamble c, [], false⟩ = [] := by
  rw [Run.commands, preamble]
  split <;> rfl

/-- The script for the rings one after another. -/
theorem generateScript_writes (h : generateScript c rings = .ok r) :
    ∃ (data : Which → DiskData) (r₁ r₂ : Run),
      (∀ which, Collected (published (c.nodes which)) (data which)) ∧
      Writes c .account (changes .account (rings .account) (data .account))
        (NewServer (rings .account) (published (c.nodes .account))) ⟨preamble c, [], false⟩ r₁ ∧
      Writes c .container (changes .container (rings .container) (data .container))
        (NewServer (rings .container) (published (c.nodes .container))) r₁ r₂ ∧
      Writes c .object (changes .object (rings .object) (data .object))
        (NewServer (rings .object) (published (c.nodes .object))) r₂ r := by
  obtain ⟨data, hdata, hscript⟩ := generateScript_ok h
  rw [hscript] at h
  cases h
  exact ⟨data, _, _, hdata, scriptRing_writes (hdata .account) _,
    scriptRing_writes (hdata .container) _, scriptRing_writes (hdata .object) _⟩

theorem filter_changes {which' : Which} :
    (changes which ring data).filter (fun cmd => decide (cmd.ring = which')) =
      if which = which' then changes which ring data else [] := by
  split
  next heq =>
    rw [List.filter_eq_self]
    intro cmd hcmd
    exact decide_eq_true ((ring_of_changes hcmd).1.trans heq)
  next hne =>
    rw [List.filter_eq_nil_iff]
    intro cmd hcmd
    rw [(ring_of_changes hcmd).1, decide_eq_true_iff]
    exact hne

theorem filter_rebalance {which' : Which} (p : Bool) :
    (if p = true then [Command.rebalance which] else []).filter
        (fun cmd => decide (cmd.ring = which')) =
      if which = which' ∧ p = true then [.rebalance which] else [] := by
  by_cases hw : which = which'
  · cases p <;> simp [Command.ring, hw]
  · cases p <;> simp [Command.ring, hw]

/-- The rings that are handled up to one. -/
def Which.upTo : Which → List Which
  | .account => [.account]
  | .container => [.account, .container]
  | .object => [.account, .container, .object]

/-- The script as a whole: for each ring its changes and perhaps a rebalance, which depends on the
rings before it. -/
structure Written (c : Cluster) (rings : Which → Ring) (r : Run) (data : Which → DiskData)
    (flag : Which → Bool) (servers : Which → List String) : Prop where
  collected : ∀ which, Collected (published (c.nodes which)) (data which)
  filter : ∀ which, r.commands.filter (fun cmd => decide (cmd.ring = which)) =
    changes which (rings which) (data which) ++
      if flag which = true then [.rebalance which] else []
  account : flag .account = !(changes .account (rings .account) (data .account)).isEmpty
  container : flag .container = (flag .account && c.enough (servers .account) ||
    !(changes .container (rings .container) (data .container)).isEmpty)
  object : flag .object = (flag .container && c.enough (servers .container) ||
    !(changes .object (rings .object) (data .object)).isEmpty)
  must_rebalance : r.must_rebalance = (flag .object && c.enough (servers .object))
  nodup : ∀ which, (servers which).Nodup
  servers : ∀ which ip, ip ∈ servers which ↔
    ∃ w ∈ which.upTo, NewServer (rings w) (published (c.nodes w)) ip

theorem generateScript_written (h : generateScript c rings = .ok r) :
    ∃ data flag servers, Written c rings r data flag servers := by
  obtain ⟨data, r₁, r₂, hdata, haccount, hcontainer, hobject⟩ := generateScript_writes h
  have hnodup₁ := haccount.nodup List.nodup_nil
  have hnodup₂ := hcontainer.nodup hnodup₁
  refine ⟨data, fun
    | .account => !(changes .account (rings .account) (data .account)).isEmpty
    | .container =>
      r₁.must_rebalance || !(changes .container (rings .container) (data .container)).isEmpty
    | .object => r₂.must_rebalance || !(changes .object (rings .object) (data .object)).isEmpty,
    fun
    | .account => r₁.new_servers
    | .container => r₂.new_servers
    | .object => r.new_servers, hdata, fun which => ?_, rfl, ?_, ?_, hobject.must_rebalance,
    fun which => ?_, fun which ip => ?_⟩
  · rw [hobject.commands, hcontainer.commands, haccount.commands, commands_preamble]
    cases which with
    | account =>
      simp only [List.filter_append, filter_changes, filter_rebalance, reduceCtorEq, if_false,
        false_and, true_and, if_true, List.append_nil, List.nil_append, Bool.false_or]
    | container =>
      simp only [List.filter_append, filter_changes, filter_rebalance, reduceCtorEq, if_false,
        false_and, true_and, if_true, List.append_nil, List.nil_append]
    | object =>
      simp only [List.filter_append, filter_changes, filter_rebalance, reduceCtorEq, if_false,
        false_and, true_and, if_true, List.append_nil, List.nil_append]
  · simp only [haccount.must_rebalance, Bool.false_or]
  · simp only [hcontainer.must_rebalance]
  · cases which with
    | account => exact hnodup₁
    | container => exact hnodup₂
    | object => exact hobject.nodup hnodup₂
  · cases which with
    | account => simp [haccount.new_servers, Which.upTo]
    | container => simp [haccount.new_servers, hcontainer.new_servers, Which.upTo]
    | object =>
      simp [haccount.new_servers, hcontainer.new_servers, hobject.new_servers, Which.upTo, or_assoc]

end Script

section Zones

/-- Every node with disks has a zone for each ring. -/
def Zoned (c : Cluster) : Prop :=
  ∀ which, ∀ swiftnode ∈ c.nodes which, swiftnode.devs ≠ [] →
    swiftnode.ring_zone which ≠ none ∨ swiftnode.zone ≠ none

theorem exists_collectNode {swiftnode : StorageNode} {devs : List Disk}
    (h : devs ≠ [] → swiftnode.ring_zone which ≠ none ∨ swiftnode.zone ≠ none) (data : DiskData) :
    ∃ data', devs.foldlM (collectDisk which swiftnode) data = .ok data' := by
  induction devs generalizing data with
  | nil => exact ⟨data, rfl⟩
  | cons v devs ih =>
    have hzone : ∃ zone, swiftnode.zoneFor which = .ok zone := by
      rw [StorageNode.zoneFor]
      have hsome := h (List.cons_ne_nil v devs)
      cases hring : swiftnode.ring_zone which with
      | some zone => exact ⟨zone, rfl⟩
      | none =>
        obtain ⟨zone, hzone⟩ := Option.ne_none_iff_exists'.mp (hsome.resolve_left (· hring))
        exact ⟨zone, by rw [hzone]⟩
    obtain ⟨zone, hzone⟩ := hzone
    obtain ⟨data', hdata'⟩ := ih (fun _ => h (List.cons_ne_nil v devs)) (data.put ⟨v, zone⟩)
    refine ⟨data', ?_⟩
    rw [List.foldlM_cons, collectDisk, hzone]
    exact hdata'

theorem exists_collectDisks {nodes : List StorageNode}
    (h : ∀ swiftnode ∈ nodes, swiftnode.devs ≠ [] →
      swiftnode.ring_zone which ≠ none ∨ swiftnode.zone ≠ none) :
    ∃ data, collectDisks which nodes = .ok data := by
  rw [collectDisks]
  generalize (⟨Hash.empty, Hash.empty⟩ : DiskData) = data
  induction nodes generalizing data with
  | nil => exact ⟨data, rfl⟩
  | cons swiftnode nodes ih =>
    obtain ⟨hnode, hnodes⟩ := List.forall_mem_cons.mp h
    obtain ⟨data₁, hdata₁⟩ := exists_collectNode hnode data
    obtain ⟨data', hdata'⟩ := ih hnodes data₁
    refine ⟨data', ?_⟩
    rw [List.foldlM_cons, hdata₁]
    exact hdata'

/-- A script is written when every node with disks has a zone. -/
theorem exists_generateScript (h : Zoned c) (rings : Which → Ring) :
    ∃ r, generateScript c rings = .ok r := by
  obtain ⟨account, haccount⟩ := exists_collectDisks (h .account)
  obtain ⟨container, hcontainer⟩ := exists_collectDisks (h .container)
  obtain ⟨object, hobject⟩ := exists_collectDisks (h .object)
  rw [generateScript, haccount, hcontainer, hobject]
  exact ⟨_, rfl⟩

end Zones

end CompassAdapters.Swift
