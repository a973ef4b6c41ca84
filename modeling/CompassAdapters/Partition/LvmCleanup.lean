import CompassAdapters.Partition.Disks
import CompassAdapters.Partition.Lvm
import CompassAdapters.Shell.Regex
import Mathlib.Data.List.Nodup

/-! The cleanup of the pre-partition scripts: every physical volume, as far as its name is
shown, is held against every disk of `remove_disks`, and what is marked is removed together with
its volume group. -/
namespace CompassAdapters.Partition
open Shell

/-- `remove_vg` and `remove_partition`. -/
structure Mark where
  remove_vg : String
  remove_partition : String
  deriving DecidableEq, Repr

/-- `remove_disk` and `remove_disk_path` of an element of `remove_disks`. -/
def resolve (s : Script) (partition_by_path : Bool) (t : DiskTables) (remove_disk : String) :
    String × String :=
  if partition_by_path then (t.disk_path_mapping (s.key (basename remove_disk)), remove_disk)
  else (remove_disk, t.disk_mapping (basename remove_disk))

/-- The body of the loop over `remove_disks`. -/
def markDisk (vgname disk_partition vg : String) (m : Mark) (disk : String × String) : Mark :=
  let (remove_disk, remove_disk_path) := disk
  if remove_disk = "" then m
  else if remove_disk_path = "" then m
  else
    let m := if exprMatch disk_partition (remove_disk_path ++ ".*") then
      ⟨vg, disk_partition⟩ else m
    let m := if exprMatch disk_partition (remove_disk ++ ".*") then ⟨vg, disk_partition⟩ else m
    if vg = vgname then ⟨vg, disk_partition⟩ else m

/-- A word is appended to a list of words unless it is empty or already there. -/
def addOnce (ws w : String) : String :=
  if w = "" then ws
  else if ws = "" then w
  else if (words ws).any (· == w) then ws
  else ws ++ " " ++ w

structure Removals where
  remove_vgs : String
  remove_partitions : String

/-- `pvs --noheadings --separator : PV | cut -d: -f2` for a name without a colon; `pvs` prints
nothing for a name that is no physical volume. -/
def volumeGroup (rows : List PhysicalVolume) (pv : String) : String :=
  ((rows.find? fun row => row.pv == pv).map PhysicalVolume.vg).getD ""

section Scripts
variable (s : Script) (partition_by_path : Bool) (vgname : String) (t : DiskTables)
  (remove_disks : List String) (rows : List PhysicalVolume)

def markPartition (disk_partition : String) : Mark :=
  let vg := volumeGroup rows disk_partition
  remove_disks.foldl (fun m remove_disk =>
    markDisk vgname disk_partition vg m (resolve s partition_by_path t remove_disk)) ⟨"", ""⟩

def collectRemovals : Removals :=
  (rows.map PhysicalVolume.shown).foldl (fun acc disk_partition =>
    let m := markPartition s partition_by_path vgname t remove_disks rows disk_partition
    ⟨addOnce acc.remove_vgs m.remove_vg, addOnce acc.remove_partitions m.remove_partition⟩)
    ⟨"", ""⟩

def lvmCleanup : List Command :=
  let removals := collectRemovals s partition_by_path vgname t remove_disks rows
  (words removals.remove_vgs).map Command.vgremove ++
    (words removals.remove_partitions).map Command.pvremove

end Scripts

/-- `remove_disks` is an associative array there, in whatever order it is gone through. -/
def kickstartLvmCleanup := lvmCleanup kickstart

def preseedLvmCleanup := lvmCleanup preseed

def suseLvmCleanup := lvmCleanup suse

/-! ### The accumulated words -/

theorem words_addOnce (ws : String) {w : String} (hw : w = "" ∨ IsWord w) :
    words (addOnce ws w) =
      if w = "" ∨ w ∈ words ws then words ws else words ws ++ [w] := by
  unfold addOnce
  by_cases he : w = ""
  · simp [he]
  · have hword : IsWord w := hw.resolve_left he
    by_cases hws : ws = ""
    · simp [he, hws, words_of_isWord hword]
    · by_cases hmem : w ∈ words ws
      · simp [he, hws, hmem]
      · simp [he, hws, hmem, words_append_space, words_of_isWord hword]

theorem words_foldl_addOnce {xs : List String} (hxs : ∀ x ∈ xs, x = "" ∨ IsWord x) (acc : String)
    (hacc : (words acc).Nodup) :
    (words (xs.foldl addOnce acc)).Nodup ∧
      ∀ w, w ∈ words (xs.foldl addOnce acc) ↔ w ∈ words acc ∨ (w ∈ xs ∧ w ≠ "") := by
  induction xs generalizing acc with
  | nil => simp [hacc]
  | cons x xs ih =>
    obtain ⟨hx, hxs⟩ := List.forall_mem_cons.mp hxs
    have hstep := words_addOnce acc hx
    have hnodup : (words (addOnce acc x)).Nodup := by
      rw [hstep]
      split
      · exact hacc
      next h =>
        rw [not_or] at h
        rw [← List.concat_eq_append]
        exact hacc.concat h.2
    obtain ⟨hfinal, hmem⟩ := ih hxs (addOnce acc x) hnodup
    refine ⟨hfinal, fun w => ?_⟩
    rw [List.foldl_cons, hmem, hstep]
    split <;> grind

theorem collectRemovals_eq (s : Script) (partition_by_path : Bool) (vgname : String)
    (t : DiskTables) (remove_disks : List String) (rows : List PhysicalVolume) :
    let marks := (rows.map PhysicalVolume.shown).map
      (markPartition s partition_by_path vgname t remove_disks rows)
    collectRemovals s partition_by_path vgname t remove_disks rows =
      ⟨(marks.map Mark.remove_vg).foldl addOnce "",
        (marks.map Mark.remove_partition).foldl addOnce ""⟩ := by
  have hfold (ms : List Mark) (acc : Removals) :
      ms.foldl (fun acc m => (⟨addOnce acc.remove_vgs m.remove_vg,
        addOnce acc.remove_partitions m.remove_partition⟩ : Removals)) acc =
      ⟨(ms.map Mark.remove_vg).foldl addOnce acc.remove_vgs,
        (ms.map Mark.remove_partition).foldl addOnce acc.remove_partitions⟩ := by
    induction ms generalizing acc with
    | nil => rfl
    | cons m ms ih => exact ih _
  intro marks
  rw [← hfold marks ⟨"", ""⟩, List.foldl_map]
  rfl

/-! ### What is marked -/

/-- The tests of the loop body, for a disk given by its device path and its link. -/
def Matches (vgname pv vg : String) (disk : String × String) : Prop :=
  DotPrefix disk.2.toList pv.toList ∨ DotPrefix disk.1.toList pv.toList ∨ vg = vgname

theorem markDisk_eq (vgname pv vg : String) (m : Mark) {disk : String × String}
    (hne : disk.1 ≠ "" ∧ disk.2 ≠ "") (hstar : '*' ∉ disk.1.toList ∧ '*' ∉ disk.2.toList) :
    (Matches vgname pv vg disk → markDisk vgname pv vg m disk = ⟨vg, pv⟩) ∧
    (¬ Matches vgname pv vg disk → markDisk vgname pv vg m disk = m) := by
  obtain ⟨remove_disk, remove_disk_path⟩ := disk
  have hd := exprMatch_dotStar (s := pv) hstar.1
  have hp := exprMatch_dotStar (s := pv) hstar.2
  simp only [markDisk, if_neg hne.1, if_neg hne.2, Matches]
  constructor
  · rintro (h | h | h)
    · simp [hp.mpr h]
    · simp [hd.mpr h]
    · simp [h]
  · intro h
    rw [not_or, not_or] at h
    rw [if_neg h.2.2, if_neg (mt hd.mp h.2.1), if_neg (mt hp.mp h.1)]

theorem foldl_markDisk (vgname pv vg : String) (disks : List (String × String))
    (hne : ∀ d ∈ disks, d.1 ≠ "" ∧ d.2 ≠ "")
    (hstar : ∀ d ∈ disks, '*' ∉ d.1.toList ∧ '*' ∉ d.2.toList) (m : Mark) :
    ((∃ d ∈ disks, Matches vgname pv vg d) →
      disks.foldl (markDisk vgname pv vg) m = ⟨vg, pv⟩) ∧
    ((¬ ∃ d ∈ disks, Matches vgname pv vg d) → disks.foldl (markDisk vgname pv vg) m = m) := by
  induction disks generalizing m with
  | nil => simp
  | cons d ds ih =>
    obtain ⟨hd, hne⟩ := List.forall_mem_cons.mp hne
    obtain ⟨hs, hstar⟩ := List.forall_mem_cons.mp hstar
    obtain ⟨hyes, hno⟩ := markDisk_eq vgname pv vg m hd hs
    obtain ⟨ihyes, ihno⟩ := ih hne hstar (markDisk vgname pv vg m d)
    rw [List.foldl_cons]
    constructor
    · intro h
      by_cases hrest : ∃ d ∈ ds, Matches vgname pv vg d
      · exact ihyes hrest
      · -- the mark set by `d` is kept by the disks after it
        obtain ⟨d', hd', hm⟩ := h
        rcases List.mem_cons.mp hd' with rfl | hd'
        · rw [ihno hrest, hyes hm]
        · exact absurd ⟨d', hd', hm⟩ hrest
    · intro h
      have hrest : ¬ ∃ d ∈ ds, Matches vgname pv vg d := fun ⟨d', hd', hm⟩ =>
        h ⟨d', List.mem_cons_of_mem _ hd', hm⟩
      rw [ihno hrest, hno fun hm => h ⟨d, List.mem_cons_self, hm⟩]

/-! ### A cleanup of a machine -/

/-- What the scripts work on. The table names each physical volume once, and `remove_disks` is
taken from the disks of the scan. -/
structure Cleanup (s : Script) where
  inventory : Inventory s
  partition_by_path : Bool
  vgname : String
  volumes : List PhysicalVolume
  volumes_nodup : (volumes.map PhysicalVolume.pv).Nodup
  remove_disks : List String
  remove_ne_nil : remove_disks ≠ []
  remove_scanned : remove_disks ⊆ (inventory.scan partition_by_path).disks

/-- The partition suffix of a device has a `p` in it when the name of the disk ends in a digit. -/
def IsPartition (device pv : String) : Prop :=
  ∃ n : ℕ, 1 ≤ n ∧
    pv = device ++ (if device.toList.getLast?.any Char.isDigit then "p" else "") ++ n.repr

/-- The drive `n` itself or a partition of it, by its device path or its by-path link. -/
def OnDisk {s : Script} (inv : Inventory s) (n pv : String) : Prop :=
  pv = devicePath n ∨ IsPartition (devicePath n) pv ∨
    ∃ p, byPathLink inv.links n = some p ∧
      (pv = linkPath p ∨ ∃ k : ℕ, 1 ≤ k ∧ pv = linkPath p ++ "-part" ++ k.repr)

namespace Cleanup

variable {s : Script} (c : Cleanup s)

def tables : DiskTables := (c.inventory.scan c.partition_by_path).tables

def commands : List Command :=
  lvmCleanup s c.partition_by_path c.vgname c.tables c.remove_disks c.volumes

/-- The drives whose entry is in `remove_disks`. -/
def Removed (n : String) : Prop :=
  n ∈ c.inventory.drives ∧ diskEntry s c.partition_by_path c.tables n ∈ c.remove_disks

def Target (row : PhysicalVolume) : Prop :=
  (∃ n, c.Removed n ∧ OnDisk c.inventory n row.pv) ∨ (row.vg ≠ "" ∧ row.vg = c.vgname)

/-- The targets are removed, each once, with their groups, each once, and nothing else is. -/
structure RemovesExactly (cs : List Command) : Prop where
  pvs_once : (pvremoves cs).Nodup
  pvs : ∀ pv, pv ∈ pvremoves cs ↔ ∃ row ∈ c.volumes, c.Target row ∧ row.pv = pv
  vgs_once : (vgremoves cs).Nodup
  vgs : ∀ vg, vg ∈ vgremoves cs ↔ vg ≠ "" ∧ ∃ row ∈ c.volumes, c.Target row ∧ row.vg = vg

/-- The name is that of a target. -/
def Hits (pv : String) : Prop := ∃ row ∈ c.volumes, c.Target row ∧ row.pv = pv

/-- No target has a colon in its name. No name that is shown, other than a target's, begins with
the device path or the link of a removed drive, and none that stands for a volume in no group,
or for nothing, is taken for a member of a group with an empty name. -/
structure Separated : Prop where
  plain : ∀ row ∈ c.volumes, c.Target row → ':' ∉ row.pv.toList
  names : ∀ row ∈ c.volumes, ¬ c.Hits row.shown → ∀ n, c.Removed n →
    ¬ DotPrefix (devicePath n).toList row.shown.toList ∧
    ¬ DotPrefix (c.inventory.diskPath n).toList row.shown.toList
  orphans : c.vgname = "" → ∀ row ∈ c.volumes, volumeGroup c.volumes row.shown = "" →
    c.Hits row.shown

/-- What the loops mark. -/
def Marked (pv : String) : Prop :=
  ∃ n, c.Removed n ∧
    Matches c.vgname pv (volumeGroup c.volumes pv) (devicePath n, c.inventory.diskPath n)

variable {c}

theorem exists_removed {e : String} (he : e ∈ c.remove_disks) :
    ∃ n, c.Removed n ∧ diskEntry s c.partition_by_path c.tables n = e := by
  have hscan := c.remove_scanned he
  rw [Inventory.scan_disks] at hscan
  obtain ⟨n, hn, rfl⟩ := List.mem_map.mp hscan
  exact ⟨n, ⟨hn, he⟩, rfl⟩

theorem resolve_entry {n : String} (hn : n ∈ c.inventory.drives) :
    resolve s c.partition_by_path c.tables (diskEntry s c.partition_by_path c.tables n) =
      (devicePath n, c.inventory.diskPath n) := by
  obtain ⟨hm, hp⟩ := Inventory.tables_drive c.partition_by_path hn
  have hkey := Inventory.tables_diskPath c.partition_by_path hn
  have hslash := (c.inventory.disk_plain n (List.mem_filter.mp hn).1).1.no_slash
  unfold resolve diskEntry tables
  rw [hm, hp, s.entry_device]
  by_cases hpath : c.partition_by_path = true
  · rw [if_pos hpath, if_pos hpath, hkey]
  · rw [if_neg hpath, if_neg hpath, basename_devicePath hslash, hm]

theorem volumeGroup_row {row : PhysicalVolume} (hrow : row ∈ c.volumes) :
    volumeGroup c.volumes row.pv = row.vg := by
  have hfind : c.volumes.find? (fun r => r.pv == row.pv) = some row := by
    have hsome : (c.volumes.find? fun r => r.pv == row.pv).isSome := by
      rw [List.find?_isSome]
      exact ⟨row, hrow, beq_self_eq_true _⟩
    obtain ⟨r, hr⟩ := Option.isSome_iff_exists.mp hsome
    have hpv : r.pv = row.pv := by simpa using List.find?_some hr
    rw [hr, List.inj_on_of_nodup_map c.volumes_nodup (List.mem_of_find?_eq_some hr) hrow hpv]
  rw [volumeGroup, hfind]
  rfl

theorem exists_row_of_volumeGroup {pv : String} (h : volumeGroup c.volumes pv ≠ "") :
    ∃ row ∈ c.volumes, row.pv = pv ∧ row.vg = volumeGroup c.volumes pv := by
  cases hfind : c.volumes.find? (fun row => row.pv == pv) with
  | none => simp [volumeGroup, hfind] at h
  | some row =>
    exact ⟨row, List.mem_of_find?_eq_some hfind, by simpa using List.find?_some hfind,
      by simp [volumeGroup, hfind]⟩

theorem volumeGroup_word (pv : String) :
    volumeGroup c.volumes pv = "" ∨ IsWord (volumeGroup c.volumes pv) := by
  by_cases h : volumeGroup c.volumes pv = ""
  · exact Or.inl h
  · obtain ⟨row, -, -, hvg⟩ := exists_row_of_volumeGroup h
    exact Or.inr ⟨h, hvg ▸ row.vg_blank⟩

theorem diskPath_no_star {n : String} (hn : n ∈ c.inventory.drives) :
    '*' ∉ (c.inventory.diskPath n).toList := by
  rw [Inventory.diskPath]
  cases hlink : byPathLink c.inventory.links n with
  | none => exact (c.inventory.disk_plain n (List.mem_filter.mp hn).1).1.devicePath_no_star
  | some p =>
    obtain ⟨l, hl, -, -, rfl⟩ := byPathLink_mem hlink
    exact (c.inventory.link_plain l hl).1.linkPath_no_star

theorem diskPath_ne_empty (n : String) : c.inventory.diskPath n ≠ "" := by
  rw [Inventory.diskPath]
  cases byPathLink c.inventory.links n with
  | none => exact devicePath_ne_empty n
  | some p => exact linkPath_ne_empty p

theorem markPartition_name (pv : String) :
    (c.Marked pv → markPartition s c.partition_by_path c.vgname c.tables c.remove_disks c.volumes
      pv = ⟨volumeGroup c.volumes pv, pv⟩) ∧
    (¬ c.Marked pv → markPartition s c.partition_by_path c.vgname c.tables c.remove_disks
      c.volumes pv = ⟨"", ""⟩) := by
  have hresolved : ∀ d ∈ c.remove_disks.map (resolve s c.partition_by_path c.tables),
      ∃ n, c.Removed n ∧ (devicePath n, c.inventory.diskPath n) = d := by
    intro d hd
    obtain ⟨e, he, rfl⟩ := List.mem_map.mp hd
    obtain ⟨n, hn, rfl⟩ := exists_removed he
    exact ⟨n, hn, (resolve_entry hn.1).symm⟩
  have hmarked : (∃ d ∈ c.remove_disks.map (resolve s c.partition_by_path c.tables),
      Matches c.vgname pv (volumeGroup c.volumes pv) d) ↔ c.Marked pv := by
    constructor
    · rintro ⟨d, hd, hm⟩
      obtain ⟨n, hn, rfl⟩ := hresolved d hd
      exact ⟨n, hn, hm⟩
    · rintro ⟨n, hn, hm⟩
      refine ⟨_, List.mem_map_of_mem hn.2, ?_⟩
      rw [resolve_entry hn.1]
      exact hm
  have hfold := foldl_markDisk c.vgname pv (volumeGroup c.volumes pv)
    (c.remove_disks.map (resolve s c.partition_by_path c.tables)) ?_ ?_ ⟨"", ""⟩
  · rw [List.foldl_map] at hfold
    rw [hmarked] at hfold
    exact hfold
  · intro d hd
    obtain ⟨n, -, rfl⟩ := hresolved d hd
    exact ⟨devicePath_ne_empty n, diskPath_ne_empty n⟩
  · intro d hd
    obtain ⟨n, hn, rfl⟩ := hresolved d hd
    exact ⟨(c.inventory.disk_plain n (List.mem_filter.mp hn.1).1).1.devicePath_no_star,
      diskPath_no_star hn.1⟩

theorem matches_of_onDisk {n pv vg : String} (h : OnDisk c.inventory n pv) :
    Matches c.vgname pv vg (devicePath n, c.inventory.diskPath n) := by
  have hbegins (a b : String) : DotPrefix a.toList (a ++ b).toList := by
    rw [String.toList_append]
    exact dotPrefix_append _ _
  rcases h with rfl | ⟨k, -, rfl⟩ | ⟨p, hlink, h⟩
  · have hself := hbegins (devicePath n) ""
    rw [String.append_empty] at hself
    exact Or.inr (Or.inl hself)
  · rw [String.append_assoc]
    exact Or.inr (Or.inl (hbegins _ _))
  · have hpath : c.inventory.diskPath n = linkPath p := by
      rw [Inventory.diskPath, hlink]
      rfl
    left
    rw [hpath]
    rcases h with rfl | ⟨k, -, rfl⟩
    · have hself := hbegins (linkPath p) ""
      rw [String.append_empty] at hself
      exact hself
    · rw [String.append_assoc]
      exact hbegins _ _

theorem marked_of_target {row : PhysicalVolume} (hrow : row ∈ c.volumes) (h : c.Target row) :
    c.Marked row.pv := by
  rcases h with ⟨n, hn, hdisk⟩ | ⟨-, hvg⟩
  · exact ⟨n, hn, matches_of_onDisk hdisk⟩
  · obtain ⟨e, he⟩ := List.exists_mem_of_ne_nil _ c.remove_ne_nil
    obtain ⟨n, hn, -⟩ := exists_removed he
    exact ⟨n, hn, Or.inr (Or.inr ((volumeGroup_row hrow).trans hvg))⟩

theorem separated_iff : c.Separated ↔
    (∀ row ∈ c.volumes, c.Target row → ':' ∉ row.pv.toList) ∧
      ∀ row ∈ c.volumes, c.Marked row.shown → c.Hits row.shown := by
  constructor
  · rintro h
    refine ⟨h.plain, fun row hrow ⟨n, hn, hm⟩ => ?_⟩
    by_contra hhits
    obtain ⟨hdev, hpath⟩ := h.names row hrow hhits n hn
    rcases hm with hm | hm | hvg
    · exact hpath hm
    · exact hdev hm
    · -- a member of the group is a target, so the name stands for a volume in no group
      have hempty : volumeGroup c.volumes row.shown = "" := by
        by_contra hne
        obtain ⟨row', hrow', hpv, hvg'⟩ := exists_row_of_volumeGroup hne
        exact hhits ⟨row', hrow', Or.inr ⟨hvg' ▸ hne, hvg'.trans hvg⟩, hpv⟩
      exact hhits (h.orphans (hvg ▸ hempty) row hrow hempty)
  · rintro ⟨hplain, h⟩
    refine ⟨hplain, fun row hrow hhits n hn => ⟨fun hm => ?_, fun hm => ?_⟩,
      fun hvgname row hrow hvg => ?_⟩
    · exact hhits (h row hrow ⟨n, hn, Or.inr (Or.inl hm)⟩)
    · exact hhits (h row hrow ⟨n, hn, Or.inl hm⟩)
    · obtain ⟨e, he⟩ := List.exists_mem_of_ne_nil _ c.remove_ne_nil
      obtain ⟨n, hn, -⟩ := exists_removed he
      exact h row hrow ⟨n, hn, Or.inr (Or.inr (hvg.trans hvgname.symm))⟩

variable (c)

private theorem marks_word {f : Mark → String}
    (hf : ∀ row ∈ c.volumes, f ⟨volumeGroup c.volumes row.shown, row.shown⟩ = "" ∨
      IsWord (f ⟨volumeGroup c.volumes row.shown, row.shown⟩))
    (hempty : f ⟨"", ""⟩ = "") :
    let marks := (c.volumes.map PhysicalVolume.shown).map
      (markPartition s c.partition_by_path c.vgname c.tables c.remove_disks c.volumes)
    (words ((marks.map f).foldl addOnce "")).Nodup ∧
      ∀ w, w ∈ words ((marks.map f).foldl addOnce "") ↔
        w ≠ "" ∧ ∃ row ∈ c.volumes, c.Marked row.shown ∧
          f ⟨volumeGroup c.volumes row.shown, row.shown⟩ = w := by
  intro marks
  have hmarks : ∀ w, w ∈ marks.map f ↔ ∃ row ∈ c.volumes,
      (c.Marked row.shown ∧ f ⟨volumeGroup c.volumes row.shown, row.shown⟩ = w) ∨
        (¬ c.Marked row.shown ∧ w = "") := by
    intro w
    simp only [marks, List.map_map, List.mem_map, Function.comp_apply]
    apply exists_congr
    intro row
    apply and_congr_right
    intro _
    obtain ⟨hyes, hno⟩ := markPartition_name (c := c) row.shown
    by_cases hm : c.Marked row.shown
    · simp [hyes hm, hm]
    · simp [hno hm, hm, hempty, eq_comm]
  have hwords : ∀ w ∈ marks.map f, w = "" ∨ IsWord w := by
    intro w hw
    obtain ⟨row, hrow, ⟨-, rfl⟩ | ⟨-, rfl⟩⟩ := (hmarks w).mp hw
    · exact hf row hrow
    · exact Or.inl rfl
  obtain ⟨hnodup, hmem⟩ := words_foldl_addOnce hwords "" (by simp)
  refine ⟨hnodup, fun w => ?_⟩
  rw [hmem, hmarks]
  simp only [words_empty, List.not_mem_nil, false_or]
  constructor
  · rintro ⟨⟨row, hrow, hm | hm⟩, hw⟩
    · exact ⟨hw, row, hrow, hm⟩
    · exact absurd hm.2 hw
  · rintro ⟨hw, row, hrow, hm⟩
    exact ⟨⟨row, hrow, Or.inl hm⟩, hw⟩

theorem pvremoves_commands : (pvremoves c.commands).Nodup ∧
    ∀ pv, pv ∈ pvremoves c.commands ↔
      ∃ row ∈ c.volumes, c.Marked row.shown ∧ row.shown = pv := by
  have hmarks := c.marks_word (f := Mark.remove_partition)
    (fun row _ => Or.inr row.shown_word) rfl
  rw [commands, lvmCleanup, pvremoves_map, collectRemovals_eq]
  refine ⟨hmarks.1, fun pv => (hmarks.2 pv).trans ⟨fun h => h.2, fun h => ⟨?_, h⟩⟩⟩
  obtain ⟨row, -, -, rfl⟩ := h
  exact row.shown_word.ne_empty

theorem vgremoves_commands : (vgremoves c.commands).Nodup ∧
    ∀ vg, vg ∈ vgremoves c.commands ↔
      vg ≠ "" ∧ ∃ row ∈ c.volumes, c.Marked row.shown ∧
        volumeGroup c.volumes row.shown = vg := by
  have hmarks := c.marks_word (f := Mark.remove_vg)
    (fun row _ => volumeGroup_word row.shown) rfl
  rw [commands, lvmCleanup, vgremoves_map, collectRemovals_eq]
  exact hmarks

theorem removesExactly_iff : c.RemovesExactly c.commands ↔ c.Separated := by
  obtain ⟨hpvs_once, hpvs⟩ := c.pvremoves_commands
  obtain ⟨hvgs_once, hvgs⟩ := c.vgremoves_commands
  rw [separated_iff]
  constructor
  · intro h
    refine ⟨fun row hrow htarget => ?_, fun row hrow hmarked => ?_⟩
    · obtain ⟨row', -, -, hpv⟩ := (hpvs row.pv).mp ((h.pvs row.pv).mpr ⟨row, hrow, htarget, rfl⟩)
      rw [← hpv]
      exact row'.shown_plain
    · exact (h.pvs row.shown).mp ((hpvs row.shown).mpr ⟨row, hrow, hmarked, rfl⟩)
  · rintro ⟨hplain, h⟩
    have hshown {row : PhysicalVolume} (hrow : row ∈ c.volumes) (ht : c.Target row) :
        row.shown = row.pv := row.shown_of_plain (hplain row hrow ht)
    refine ⟨hpvs_once, fun pv => (hpvs pv).trans ⟨?_, ?_⟩, hvgs_once,
      fun vg => (hvgs vg).trans (and_congr_right fun _ => ⟨?_, ?_⟩)⟩
    · rintro ⟨row, hrow, hmarked, rfl⟩
      exact h row hrow hmarked
    · rintro ⟨row, hrow, htarget, rfl⟩
      have hpv := hshown hrow htarget
      exact ⟨row, hrow, hpv ▸ marked_of_target hrow htarget, hpv⟩
    · rintro ⟨row, hrow, hmarked, rfl⟩
      obtain ⟨row', hrow', htarget, hpv⟩ := h row hrow hmarked
      exact ⟨row', hrow', htarget, by rw [← hpv, volumeGroup_row hrow']⟩
    · rintro ⟨row, hrow, htarget, rfl⟩
      have hpv := hshown hrow htarget
      exact ⟨row, hrow, by rw [hpv]; exact marked_of_target hrow htarget,
        by rw [hpv, volumeGroup_row hrow]⟩

end Cleanup

/-- Only `sda` of a machine with `sda` and `sdaa` is to be removed; `sdaa1` holds the group
`data`. -/
def sdaAndSdaa : Cleanup kickstart where
  inventory :=
    { links := []
      disk_names := ["sda", "sdaa"]
      link_plain := by simp
      disk_plain := by decide
      keys_nodup := by simp
      keys_apart := by simp }
  partition_by_path := false
  vgname := "VolGroup00"
  volumes := [⟨"/dev/sdaa1", "data", by decide, by decide, by decide, by decide⟩]
  volumes_nodup := by simp
  remove_disks := ["/dev/sda"]
  remove_ne_nil := by simp
  remove_scanned := by decide

end CompassAdapters.Partition
