import CompassAdapters.Swift.RingCommands
import CompassAdapters.Shell.Words
import Mathlib.Data.Finset.Preimage
import Mathlib.Data.Fintype.EquivFin
import Mathlib.Data.Nat.Find

/-! When the script makes a ring hold the disks of the cluster. -/
namespace CompassAdapters.Swift
open Ruby

/-- `swift-ring-builder`, which finds an identifier for what is added. -/
structure Builder where
  nextId : Ring → String
  fresh : ∀ ring, nextId ring ∉ ring.devices.map RingDevice.id

namespace Builder

variable (b : Builder)

/-- A device that is in the ring already is not added again. -/
def add (ring : Ring) (zone ip port device : String) : Ring :=
  if ∃ d ∈ ring.devices, d.ip = ip ∧ d.port = port ∧ d.device = device then ring
  else
    { devices := ring.devices ++ [⟨b.nextId ring, zone, ip, port, device⟩]
      nodup := by
        rw [List.map_append, List.map_singleton, ← List.concat_eq_append]
        exact ring.nodup.concat (b.fresh ring) }

def remove (ring : Ring) (id : String) : Ring where
  devices := ring.devices.filter fun d => decide (d.id ≠ id)
  nodup := ring.nodup.sublist (List.filter_sublist.map RingDevice.id)

def apply (ring : Ring) : Command → Ring
  | .add which zone ip device _ => b.add ring zone ip which.port device
  | .remove _ id => remove ring id
  | .rebalance _ => ring

/-- Each command changes its own ring. -/
def run (cs : List Command) (rings : Which → Ring) : Which → Ring :=
  cs.foldl (fun rings cmd =>
    Function.update rings cmd.ring (b.apply (rings cmd.ring) cmd)) rings

variable {b}

theorem run_apply (cs : List Command) (rings : Which → Ring) (which : Which) :
    b.run cs rings which =
      (cs.filter fun cmd => decide (cmd.ring = which)).foldl b.apply (rings which) := by
  induction cs generalizing rings with
  | nil => rfl
  | cons cmd cs ih =>
    rw [run, List.foldl_cons]
    refine (ih _).trans ?_
    by_cases hring : cmd.ring = which
    · rw [List.filter_cons_of_pos (by simpa using hring), List.foldl_cons, hring,
        Function.update_self]
    · rw [List.filter_cons_of_neg (by simpa using hring),
        Function.update_of_ne (Ne.symm hring)]

/-- What is in the ring after some devices are added. -/
theorem devices_add (ring : Ring) (zone ip port device : String) :
    ∃ new, (b.add ring zone ip port device).devices = ring.devices ++ new ∧
      (∀ d ∈ new, d.id ∉ ring.devices.map RingDevice.id ∧ d.ip = ip ∧ d.device = device) ∧
      ∃ d ∈ ring.devices ++ new, d.ip = ip ∧ d.device = device := by
  rw [add]
  split
  next h =>
    obtain ⟨d, hd, hip, -, hdevice⟩ := h
    refine ⟨[], (List.append_nil _).symm, fun d hd => ?_, d, ?_, hip, hdevice⟩
    · cases hd
    · rwa [List.append_nil]
  next =>
    refine ⟨_, rfl, fun d hd => ?_, _, List.mem_append_right _ (List.mem_singleton_self _), rfl,
      rfl⟩
    obtain rfl := List.mem_singleton.mp hd
    exact ⟨b.fresh ring, rfl, rfl⟩

theorem devices_adds {which : Which} {cs : List Command}
    (h : ∀ cmd ∈ cs, ∃ zone ip device size, cmd = .add which zone ip device size) (ring : Ring) :
    ∃ new, (cs.foldl b.apply ring).devices = ring.devices ++ new ∧
      (∀ d ∈ new, d.id ∉ ring.devices.map RingDevice.id ∧
        ∃ zone size, Command.add which zone d.ip d.device size ∈ cs) ∧
      ∀ zone ip device size, Command.add which zone ip device size ∈ cs →
        ∃ d ∈ ring.devices ++ new, d.ip = ip ∧ d.device = device := by
  induction cs generalizing ring with
  | nil =>
    refine ⟨[], (List.append_nil _).symm, fun d hd => ?_, fun zone ip device size hmem => ?_⟩
    · cases hd
    · cases hmem
  | cons cmd cs ih =>
    obtain ⟨⟨zone, ip, device, size, rfl⟩, hcs⟩ := List.forall_mem_cons.mp h
    obtain ⟨first, hfirst, hnew, hin⟩ := devices_add (b := b) ring zone ip which.port device
    obtain ⟨rest, hrest, hnews, hins⟩ := ih hcs (b.add ring zone ip which.port device)
    rw [hfirst] at hrest hnews hins
    refine ⟨first ++ rest, ?_, ?_, ?_⟩
    · rw [← List.append_assoc, ← hrest]
      rfl
    · intro d hd
      rcases List.mem_append.mp hd with hd | hd
      · obtain ⟨hid, rfl, rfl⟩ := hnew d hd
        exact ⟨hid, zone, size, List.mem_cons_self⟩
      · obtain ⟨hid, zone', size', hcmd⟩ := hnews d hd
        rw [List.map_append, List.mem_append, not_or] at hid
        exact ⟨hid.1, zone', size', List.mem_cons_of_mem _ hcmd⟩
    · intro zone' ip' device' size' hmem
      rw [← List.append_assoc]
      rcases List.mem_cons.mp hmem with heq | hmem
      · cases heq
        obtain ⟨d, hd, hpair⟩ := hin
        exact ⟨d, List.mem_append_left _ hd, hpair⟩
      · exact hins zone' ip' device' size' hmem

theorem devices_removes {which : Which} {cs : List Command}
    (h : ∀ cmd ∈ cs, ∃ id, cmd = .remove which id) (ring : Ring) :
    (cs.foldl b.apply ring).devices =
      ring.devices.filter fun d => decide (Command.remove which d.id ∉ cs) := by
  induction cs generalizing ring with
  | nil => simp
  | cons cmd cs ih =>
    obtain ⟨⟨id, rfl⟩, hcs⟩ := List.forall_mem_cons.mp h
    rw [List.foldl_cons, ih hcs]
    show (ring.devices.filter _).filter _ = _
    rw [List.filter_filter]
    apply List.filter_congr
    intro d _
    simp [Bool.and_comm]

end Builder

/-- The ring has a device of that name at that address. -/
def Ring.Holds (ring : Ring) (ip device : String) : Prop :=
  ∃ d ∈ ring.devices, d.ip = ip ∧ d.device = device

theorem exists_free (ids : List String) : ∃ n : ℕ, Nat.repr n ∉ ids := by
  have repr_injective : Function.Injective Nat.repr := fun _ _ h => Shell.toString_injective h
  obtain ⟨n, hn⟩ := Infinite.exists_notMem_finset
    (ids.toFinset.preimage Nat.repr repr_injective.injOn)
  exact ⟨n, fun h => hn (Finset.mem_preimage.mpr (List.mem_toFinset.mpr h))⟩

/-- The first number that is no identifier yet. -/
def firstFree : Builder where
  nextId ring := Nat.repr (Nat.find (exists_free (ring.devices.map RingDevice.id)))
  fresh ring := Nat.find_spec (exists_free (ring.devices.map RingDevice.id))

section Changes

variable {b : Builder} {which : Which} {ring : Ring} {disks : List Disk} {data : DiskData}

theorem holds_changes (h : Collected disks data) {ip device : String} :
    ((changes which ring data).foldl b.apply ring).Holds ip device ↔
      (∃ d ∈ ring.devices, d.ip = ip ∧ d.device = device ∧
        Command.remove which d.id ∉
          removeCommands which (missingDisks data.available (inUse ring.hosts))) ∨
      ∃ v ∈ disks, v.ip = ip ∧ v.mountpoint = device ∧ ∀ d ∈ ring.devices, d.device ≠ device := by
  have hadds : ∀ cmd ∈ addCommands which (newDisks data.available (inUse ring.hosts))
      data.disks.sortedValues2, ∃ zone ip device size, cmd = .add which zone ip device size := by
    intro cmd hcmd
    obtain ⟨v, -, -, rfl⟩ := (mem_addCommands h).mp hcmd
    exact ⟨_, _, _, _, rfl⟩
  have hremoves : ∀ cmd ∈ removeCommands which (missingDisks data.available (inUse ring.hosts)),
      ∃ id, cmd = .remove which id := by
    intro cmd hcmd
    obtain ⟨-, id, -, -, rfl⟩ := (mem_removeCommands h).mp hcmd
    exact ⟨id, rfl⟩
  obtain ⟨new, hdevices, hnew, hin⟩ := Builder.devices_adds (b := b) hadds ring
  rw [changes, List.foldl_append, Ring.Holds, Builder.devices_removes hremoves, hdevices]
  simp only [List.mem_filter, decide_eq_true_iff, List.mem_append]
  constructor
  · rintro ⟨d, ⟨hd | hd, hkeep⟩, rfl, rfl⟩
    · exact Or.inl ⟨d, hd, rfl, rfl, hkeep⟩
    · exact Or.inr ((exists_add_iff which h).mp (hnew d hd).2)
  · rintro (⟨d, hd, hip, hdevice, hkeep⟩ | hadd)
    · exact ⟨d, ⟨Or.inl hd, hkeep⟩, hip, hdevice⟩
    · obtain ⟨-, -, -, -, hnone⟩ := id hadd
      obtain ⟨zone, size, hcmd⟩ := (exists_add_iff which h).mpr hadd
      obtain ⟨d, hd, hip, hdevice⟩ := hin _ _ _ _ hcmd
      have hd : d ∈ new := (List.mem_append.mp hd).resolve_left fun hd => hnone d hd hdevice
      refine ⟨d, ⟨Or.inr hd, fun hremove => ?_⟩, hip, hdevice⟩
      obtain ⟨k, id, hget, -, heq⟩ := (mem_removeCommands h).mp hremove
      obtain ⟨d', hd', -, hid⟩ := of_inUse hget
      cases heq
      exact (hnew d hd).1 (hid ▸ List.mem_map_of_mem hd')

/-- A device is removed when no node has it and it is the one that its name stands for. -/
theorem remove_mem_iff (h : Collected disks data) {d : RingDevice} (hd : d ∈ ring.devices) :
    Command.remove which d.id ∈
        removeCommands which (missingDisks data.available (inUse ring.hosts)) ↔
      (inUse ring.hosts).get? d.device = some d.id ∧ ∀ v ∈ disks, v.mountpoint ≠ d.device := by
  rw [mem_removeCommands h]
  constructor
  · rintro ⟨k, id, hget, hmissing, heq⟩
    cases heq
    obtain ⟨d', hd', rfl, hid⟩ := of_inUse hget
    obtain rfl : d' = d := List.inj_on_of_nodup_map ring.nodup hd' hd hid
    exact ⟨hget, hmissing⟩
  · rintro ⟨hget, hmissing⟩
    exact ⟨d.device, d.id, hget, hmissing, rfl⟩

end Changes

section Converges

variable {c : Cluster} {rings : Which → Ring} {r : Run}

/-- A ring holds the disks that are published for it. -/
def Ring.Matches (ring : Ring) (disks : List Disk) : Prop :=
  ∀ ip device, ring.Holds ip device ↔ ∃ v ∈ disks, v.ip = ip ∧ v.mountpoint = device

section Changed

variable {b : Builder} {which : Which} {ring : Ring} {disks : List Disk} {data : DiskData}

/-- A device that is not removed is a disk. -/
theorem exists_disk_of_matches (h : Collected disks data)
    (hmatch : ((changes which ring data).foldl b.apply ring).Matches disks) {d : RingDevice}
    (hd : d ∈ ring.devices)
    (hkept : ¬ ((inUse ring.hosts).get? d.device = some d.id ∧
      ∀ v ∈ disks, v.mountpoint ≠ d.device)) :
    ∃ v ∈ disks, v.ip = d.ip ∧ v.mountpoint = d.device := by
  refine (hmatch d.ip d.device).mp ((holds_changes h).mpr (Or.inl ⟨d, hd, rfl, rfl, ?_⟩))
  exact fun hremove => hkept ((remove_mem_iff h hd).mp hremove)

theorem address_of_matches (h : Collected disks data)
    (hunique : (disks.map Disk.mountpoint).Nodup)
    (hmatch : ((changes which ring data).foldl b.apply ring).Matches disks) {d : RingDevice}
    (hd : d ∈ ring.devices) {v : Disk} (hv : v ∈ disks) (hname : v.mountpoint = d.device) :
    v.ip = d.ip := by
  obtain ⟨v', hv', hip, hname'⟩ :=
    exists_disk_of_matches h hmatch hd fun hremove => hremove.2 v hv hname
  obtain rfl : v = v' := List.inj_on_of_nodup_map hunique hv hv' (hname.trans hname'.symm)
  exact hip

/-- The name of a device that no node has stands for one device only. -/
theorem once_of_matches (h : Collected disks data)
    (hmatch : ((changes which ring data).foldl b.apply ring).Matches disks) {d d' : RingDevice}
    (hd : d ∈ ring.devices) (hd' : d' ∈ ring.devices) (hname : d.device = d'.device)
    (hmissing : ∀ v ∈ disks, v.mountpoint ≠ d.device) : d = d' := by
  have hremoved {e : RingDevice} (he : e ∈ ring.devices) (hname : e.device = d.device) :
      (inUse ring.hosts).get? d.device = some e.id := by
    by_contra hnot
    obtain ⟨v, hv, -, hv'⟩ :=
      exists_disk_of_matches h hmatch he fun hremove => hnot (hname ▸ hremove.1)
    exact hmissing v hv (hv'.trans hname)
  have hid : d.id = d'.id :=
    Option.some.inj ((hremoved hd rfl).symm.trans (hremoved hd' hname.symm))
  exact List.inj_on_of_nodup_map ring.nodup hd hd' hid

theorem matches_of_address (h : Collected disks data)
    (haddress : ∀ d ∈ ring.devices, ∀ v ∈ disks, v.mountpoint = d.device → v.ip = d.ip)
    (honce : ∀ d ∈ ring.devices, ∀ d' ∈ ring.devices, d.device = d'.device →
      (∀ v ∈ disks, v.mountpoint ≠ d.device) → d = d') :
    ((changes which ring data).foldl b.apply ring).Matches disks := by
  intro ip device
  rw [holds_changes h]
  constructor
  · rintro (⟨d, hd, rfl, rfl, hkept⟩ | ⟨v, hv, hip, hname, -⟩)
    · by_contra hnot
      have hmissing : ∀ v ∈ disks, v.mountpoint ≠ d.device := fun v hv hname =>
        hnot ⟨v, hv, haddress d hd v hv hname, hname⟩
      obtain ⟨id, hget⟩ := Hash.mem_keys.mp (mem_keys_inUse.mpr ⟨d, hd, rfl⟩)
      obtain ⟨d', hd', hname, hid⟩ := of_inUse hget
      obtain rfl := honce d hd d' hd' hname.symm hmissing
      exact hkept ((remove_mem_iff h hd).mpr ⟨hid ▸ hget, hmissing⟩)
    · exact ⟨v, hv, hip, hname⟩
  · rintro ⟨v, hv, rfl, rfl⟩
    by_cases hin : ∃ d ∈ ring.devices, d.device = v.mountpoint
    · obtain ⟨d, hd, hname⟩ := hin
      refine Or.inl ⟨d, hd, (haddress d hd v hv hname.symm).symm, hname, fun hremove => ?_⟩
      exact ((remove_mem_iff h hd).mp hremove).2 v hv hname.symm
    · push Not at hin
      exact Or.inr ⟨v, hv, rfl, rfl, hin⟩

end Changed

theorem matches_iff {b : Builder} (which : Which) {ring : Ring} {disks : List Disk}
    {data : DiskData} (h : Collected disks data) (hunique : (disks.map Disk.mountpoint).Nodup) :
    ((changes which ring data).foldl b.apply ring).Matches disks ↔
      (∀ d ∈ ring.devices, ∀ v ∈ disks, v.mountpoint = d.device → v.ip = d.ip) ∧
      ∀ d ∈ ring.devices, ∀ d' ∈ ring.devices, d.device = d'.device →
        (∀ v ∈ disks, v.mountpoint ≠ d.device) → d = d' := by
  constructor
  · exact fun hmatch => ⟨fun _ hd _ hv => address_of_matches h hunique hmatch hd hv,
      fun _ hd _ hd' => once_of_matches h hmatch hd hd'⟩
  · exact fun ⟨haddress, honce⟩ => matches_of_address h haddress honce

/-- For a ring that holds its disks nothing is written. -/
theorem Ring.Matches.not_pending {ring : Ring} {disks : List Disk} (h : ring.Matches disks) :
    ¬ Pending ring disks := by
  rintro (⟨v, hv, hnew⟩ | ⟨d, hd, hmissing⟩)
  · obtain ⟨d, hd, -, hname⟩ := (h v.ip v.mountpoint).mpr ⟨v, hv, rfl, rfl⟩
    exact hnew d hd hname
  · obtain ⟨v, hv, -, hname⟩ := (h d.ip d.device).mp ⟨d, hd, rfl, rfl⟩
    exact hmissing v hv hname

theorem filter_isChange (h : generateScript c rings = .ok r) (which : Which) :
    (∀ cmd ∈ r.commands, cmd.ring = which → cmd.isChange = false) ↔
      ¬ Pending (rings which) (published (c.nodes which)) := by
  obtain ⟨data, flag, servers, hw⟩ := generateScript_written h
  have hfilter := hw.filter which
  have hmem (cmd : Command) (hring : cmd.ring = which) : cmd ∈ r.commands ↔
      cmd ∈ r.commands.filter fun cmd => decide (cmd.ring = which) := by
    simp [hring]
  rw [← changes_isEmpty which (hw.collected which), Bool.not_eq_true', Bool.not_eq_false,
    List.isEmpty_iff]
  constructor
  · intro hnone
    apply List.eq_nil_iff_forall_not_mem.mpr
    intro cmd hcmd
    obtain ⟨hring, hchange⟩ := ring_of_changes hcmd
    have hin : cmd ∈ r.commands := by
      rw [hmem cmd hring, hfilter]
      exact List.mem_append_left _ hcmd
    rw [hnone cmd hin hring] at hchange
    cases hchange
  · intro hnil cmd hcmd hring
    rw [hmem cmd hring, hfilter, hnil, List.nil_append] at hcmd
    split at hcmd
    next =>
      obtain rfl := List.mem_singleton.mp hcmd
      rfl
    next => cases hcmd

theorem run_eq_changes {b : Builder} (h : generateScript c rings = .ok r) (which : Which) :
    ∃ data, Collected (published (c.nodes which)) data ∧
      b.run r.commands rings which =
        (changes which (rings which) data).foldl b.apply (rings which) := by
  obtain ⟨data, flag, servers, hw⟩ := generateScript_written h
  refine ⟨data which, hw.collected which, ?_⟩
  rw [Builder.run_apply, hw.filter, List.foldl_append]
  split <;> rfl

/-- The script makes a ring hold the disks of its role, and has no changes left the next time, just
when each device with the name of a disk is at the address of the disk, and no name without a disk
comes twice. -/
theorem ring_converges_iff (b : Builder) (h : generateScript c rings = .ok r)
    (hunique : ∀ which, ((published (c.nodes which)).map Disk.mountpoint).Nodup) (which : Which) :
    ((b.run r.commands rings which).Matches (published (c.nodes which)) ∧
      ∃ r', generateScript c (b.run r.commands rings) = .ok r' ∧
        ∀ cmd ∈ r'.commands, cmd.ring = which → cmd.isChange = false) ↔
    (∀ d ∈ (rings which).devices, ∀ v ∈ published (c.nodes which),
      v.mountpoint = d.device → v.ip = d.ip) ∧
    ∀ d ∈ (rings which).devices, ∀ d' ∈ (rings which).devices, d.device = d'.device →
      (∀ v ∈ published (c.nodes which), v.mountpoint ≠ d.device) → d = d' := by
  obtain ⟨data, hdata, hrun⟩ := run_eq_changes (b := b) h which
  rw [← matches_iff (b := b) which hdata (hunique which), ← hrun]
  constructor
  · exact And.left
  · intro hmatch
    obtain ⟨disk_data, -, hscript⟩ := generateScript_ok h
    exact ⟨hmatch, _, hscript _, (filter_isChange (hscript _) which).mpr hmatch.not_pending⟩

/-- One node with one disk, in every role. -/
def oneDisk : Cluster where
  nodes _ := [⟨"swift2", fun _ => none, some "1", [⟨"sdb", "ab-12", "10.0.0.2", 100⟩], by decide⟩]
  auto_rebuild_rings := true
  wait_for := none

theorem oneDisk_zoned : Zoned oneDisk := by
  intro which swiftnode hnode _
  obtain rfl := List.mem_singleton.mp hnode
  exact Or.inr (Option.some_ne_none _)

/-- Rings with one device. -/
def oneDevice (ip device : String) : Which → Ring := fun _ =>
  ⟨[⟨"0", "1", ip, "6002", device⟩], by simp⟩

/-- A device that is gone is replaced by the disk that is there. -/
theorem replacedDisk_converges : ∃ r, generateScript oneDisk (oneDevice "10.0.0.1" "cd34") = .ok r ∧
    (firstFree.run r.commands (oneDevice "10.0.0.1" "cd34") .account).Matches
      (published (oneDisk.nodes .account)) := by
  obtain ⟨r, hr⟩ := exists_generateScript oneDisk_zoned (oneDevice "10.0.0.1" "cd34")
  have hiff := ring_converges_iff firstFree hr (fun _ => List.nodup_singleton _) .account
  refine ⟨r, hr, (hiff.mpr ⟨?_, ?_⟩).1⟩
  · decide
  · decide

/-- A disk that came to another node keeps its old address in the ring. -/
theorem movedDisk_not_matches :
    ∃ r, generateScript oneDisk (oneDevice "10.0.0.1" "ab12") = .ok r ∧
      ¬ (firstFree.run r.commands (oneDevice "10.0.0.1" "ab12") .account).Matches
        (published (oneDisk.nodes .account)) := by
  obtain ⟨r, hr⟩ := exists_generateScript oneDisk_zoned (oneDevice "10.0.0.1" "ab12")
  refine ⟨r, hr, fun hmatch => ?_⟩
  obtain ⟨data, hdata, hrun⟩ := run_eq_changes (b := firstFree) hr .account
  rw [hrun, matches_iff .account hdata (by decide)] at hmatch
  exact absurd hmatch.1 (by decide)

end Converges

end CompassAdapters.Swift
