import CompassAdapters.Shell.Words
import Mathlib.Data.List.Induction
import Mathlib.Logic.Function.Basic

/-! The disks of a machine as the pre-partition scripts find them: the links below
`/dev/disk/by-path`, the detected drives, and the two tables that translate between them. -/
namespace CompassAdapters.Partition
open Shell

/-- `found_disk_type` is false for a link that `disk_type_only` leaves out. -/
structure Link where
  path_name : String
  disk_name : String
  found_disk_type : Bool
  deriving DecidableEq, Repr

def byPathDir : String := "/dev/disk/by-path"

def linkPath (path_name : String) : String := byPathDir ++ "/" ++ path_name

def devicePath (disk_name : String) : String := "/dev/" ++ disk_name

structure DiskTables where
  disk_mapping : String → String
  disk_path_mapping : String → String
  ignore_disk_mapping : String → String

/-- What differs between the scripts: the `key` under which a by-path name is stored, and the
`entry` of the disk lists when `partition_by_path` is off, from the name of a drive and its row
of `disk_path_mapping`. -/
structure Script where
  key : String → String
  entry : String → String → String
  entry_device : ∀ disk_name, entry disk_name (devicePath disk_name) = devicePath disk_name

/-- `tr '-' '_' | tr ':' '_' | tr '.' '_'`. -/
def diskPathName (path_name : String) : String :=
  translate '.' '_' (translate ':' '_' (translate '-' '_' path_name))

/-- Associative arrays; `list-harddrives` prints device paths. -/
def kickstart : Script := ⟨id, fun disk_name _ => devicePath disk_name, fun _ => rfl⟩

/-- Variables `disk_…` and `disk_path_…`, set by `eval`. -/
def preseed : Script :=
  ⟨diskPathName, fun disk_name _ => devicePath disk_name, fun _ => rfl⟩

def suse : Script := ⟨diskPathName, fun _ disk => disk, fun _ => rfl⟩

namespace DiskTables

def empty : DiskTables := ⟨fun _ => "", fun _ => "", fun _ => ""⟩

def addLink (s : Script) (t : DiskTables) (l : Link) : DiskTables :=
  let both (table : String → String) (v : String) : String → String :=
    Function.update (Function.update table l.disk_name v) (s.key l.path_name) v
  if l.found_disk_type then
    { t with
      disk_mapping := both t.disk_mapping (linkPath l.path_name)
      disk_path_mapping := both t.disk_path_mapping (devicePath l.disk_name) }
  else
    { t with ignore_disk_mapping := both t.ignore_disk_mapping (linkPath l.path_name) }

def isIgnored (t : DiskTables) (disk_name : String) : Bool :=
  t.disk_mapping disk_name == "" && t.ignore_disk_mapping disk_name != ""

/-- A drive without any link is entered under its own name. -/
def addDisk (t : DiskTables) (disk_name : String) : DiskTables :=
  if t.disk_mapping disk_name = "" ∧ t.ignore_disk_mapping disk_name = "" then
    { t with
      disk_mapping := Function.update t.disk_mapping disk_name (devicePath disk_name)
      disk_path_mapping := Function.update t.disk_path_mapping disk_name (devicePath disk_name) }
  else t

end DiskTables

/-- The tables and `disks`. -/
structure Scan where
  tables : DiskTables
  disks : List String

def diskEntry (s : Script) (partition_by_path : Bool) (t : DiskTables) (disk_name : String) :
    String :=
  if partition_by_path then t.disk_mapping disk_name
  else s.entry disk_name (t.disk_path_mapping disk_name)

def scanDisk (s : Script) (partition_by_path : Bool) (sc : Scan) (disk_name : String) : Scan :=
  if sc.tables.isIgnored disk_name then sc
  else
    let tables := sc.tables.addDisk disk_name
    ⟨tables, sc.disks ++ [diskEntry s partition_by_path tables disk_name]⟩

def scan (s : Script) (partition_by_path : Bool) (links : List Link) (disk_names : List String) :
    Scan :=
  disk_names.foldl (scanDisk s partition_by_path) ⟨links.foldl (DiskTables.addLink s) .empty, []⟩

/-! ### The tables of a well-formed inventory -/

/-- Neither a slash nor a blank, nor what a shell or a basic regular expression treats
specially, the dot of the by-path names apart. -/
structure IsPlain (name : String) : Prop where
  word : IsWord name
  chars : ∀ c ∈ name.toList, c ∉ ['/', '*', '?', '[', ']', '\\', '^', '$']

instance (name : String) : Decidable (IsPlain name) :=
  decidable_of_iff (IsWord name ∧ ∀ c ∈ name.toList, c ∉ ['/', '*', '?', '[', ']', '\\', '^', '$'])
    ⟨fun h => ⟨h.1, h.2⟩, fun h => ⟨h.1, h.2⟩⟩

theorem IsPlain.no_slash {name : String} (h : IsPlain name) : '/' ∉ name.toList := by
  intro hc
  exact h.chars '/' hc (by decide)

theorem IsPlain.no_star {name : String} (h : IsPlain name) : '*' ∉ name.toList := by
  intro hc
  exact h.chars '*' hc (by decide)

theorem IsPlain.linkPath_no_star {name : String} (h : IsPlain name) :
    '*' ∉ (linkPath name).toList := by
  rw [linkPath, String.toList_append, List.mem_append, not_or]
  exact ⟨by decide +kernel, h.no_star⟩

theorem IsPlain.devicePath_no_star {name : String} (h : IsPlain name) :
    '*' ∉ (devicePath name).toList := by
  rw [devicePath, String.toList_append, List.mem_append, not_or]
  exact ⟨by decide +kernel, h.no_star⟩

theorem linkPath_ne_empty (name : String) : linkPath name ≠ "" := by
  intro h
  exact absurd (String.append_eq_empty_iff.mp h).1 (by decide +kernel)

theorem devicePath_ne_empty (name : String) : devicePath name ≠ "" := by
  intro h
  exact absurd (String.append_eq_empty_iff.mp h).1 (by decide +kernel)

theorem basename_linkPath {name : String} (h : '/' ∉ name.toList) :
    basename (linkPath name) = name := by
  rw [linkPath, basename_append _ h]

theorem basename_devicePath {name : String} (h : '/' ∉ name.toList) :
    basename (devicePath name) = name := by
  have hdir : "/dev/" = "/dev" ++ "/" := by decide +kernel
  have hbase := basename_append "/dev" h
  rw [← hdir] at hbase
  exact hbase

/-- The links and drives of a machine. No two links are stored under one key, and none under
the name of a device. -/
structure Inventory (s : Script) where
  links : List Link
  disk_names : List String
  link_plain : ∀ l ∈ links, IsPlain l.path_name ∧ IsPlain l.disk_name
  disk_plain : ∀ n ∈ disk_names, IsPlain n ∧ s.key n = n
  keys_nodup : (links.map fun l => s.key l.path_name).Nodup
  keys_apart : ∀ l ∈ links, s.key l.path_name ∉ disk_names ++ links.map Link.disk_name

/-- The last of the links to the device that are not left out. -/
def byPathLink (links : List Link) (disk_name : String) : Option String :=
  ((links.filter fun l => l.found_disk_type && l.disk_name == disk_name).getLast?).map
    Link.path_name

theorem byPathLink_concat (links : List Link) (l : Link) (n : String) :
    byPathLink (links ++ [l]) n =
      if l.found_disk_type ∧ l.disk_name = n then some l.path_name else byPathLink links n := by
  by_cases h : l.found_disk_type ∧ l.disk_name = n
  · obtain ⟨hf, rfl⟩ := h
    simp [byPathLink, hf]
  · rw [if_neg h]
    have hl : (l.found_disk_type && l.disk_name == n) = false := by
      rw [Bool.eq_false_iff]
      simpa using h
    simp [byPathLink, hl]

theorem byPathLink_mem {links : List Link} {n p : String} (h : byPathLink links n = some p) :
    ∃ l ∈ links, l.found_disk_type = true ∧ l.disk_name = n ∧ l.path_name = p := by
  obtain ⟨l, hl, rfl⟩ := Option.map_eq_some_iff.mp h
  have hmem := List.mem_filter.mp (List.mem_of_getLast? hl)
  simp only [Bool.and_eq_true, beq_iff_eq] at hmem
  exact ⟨l, hmem.1, hmem.2.1, hmem.2.2, rfl⟩

namespace DiskTables

def ofLinks (s : Script) (links : List Link) : DiskTables := links.foldl (addLink s) empty

variable {s : Script}

theorem ofLinks_concat (links : List Link) (l : Link) :
    ofLinks s (links ++ [l]) = addLink s (ofLinks s links) l := by
  simp [ofLinks]

theorem addLink_disk_mapping (t : DiskTables) (l : Link) (k : String) :
    (addLink s t l).disk_mapping k =
      if l.found_disk_type ∧ (k = s.key l.path_name ∨ k = l.disk_name) then linkPath l.path_name
      else t.disk_mapping k := by
  cases hl : l.found_disk_type <;> simp [addLink, hl, Function.update_apply]
  grind

theorem addLink_disk_path_mapping (t : DiskTables) (l : Link) (k : String) :
    (addLink s t l).disk_path_mapping k =
      if l.found_disk_type ∧ (k = s.key l.path_name ∨ k = l.disk_name) then devicePath l.disk_name
      else t.disk_path_mapping k := by
  cases hl : l.found_disk_type <;> simp [addLink, hl, Function.update_apply]
  grind

/-- Under the name of a device the tables hold its last link and its device path. -/
theorem ofLinks_name {links : List Link} {n : String}
    (hn : ∀ l ∈ links, s.key l.path_name ≠ n) :
    (ofLinks s links).disk_mapping n = ((byPathLink links n).map linkPath).getD "" ∧
    (ofLinks s links).disk_path_mapping n =
      ((byPathLink links n).map fun _ => devicePath n).getD "" := by
  induction links using List.reverseRecOn with
  | nil => exact ⟨rfl, rfl⟩
  | append_singleton links l ih =>
    have hl : n ≠ s.key l.path_name := fun he => hn l (by simp) he.symm
    obtain ⟨hm, hp⟩ := ih fun l' hl' => hn l' (by simp [hl'])
    rw [ofLinks_concat, addLink_disk_mapping, addLink_disk_path_mapping, byPathLink_concat, hm, hp]
    by_cases h : l.found_disk_type ∧ l.disk_name = n
    · simp [h.1, h.2]
    · have h' : ¬ (l.found_disk_type ∧ (n = s.key l.path_name ∨ n = l.disk_name)) := by
        rintro ⟨hf, he | he⟩
        · exact hl he
        · exact h ⟨hf, he.symm⟩
      rw [if_neg h', if_neg h', if_neg h]
      exact ⟨rfl, rfl⟩

/-- Under the key of a link they hold the device that it points to. -/
theorem ofLinks_key {links : List Link} (hkeys : (links.map fun l => s.key l.path_name).Nodup)
    (hapart : ∀ l ∈ links, s.key l.path_name ∉ links.map Link.disk_name)
    {l : Link} (hl : l ∈ links) (hf : l.found_disk_type = true) :
    (ofLinks s links).disk_path_mapping (s.key l.path_name) = devicePath l.disk_name := by
  induction links using List.reverseRecOn with
  | nil => cases hl
  | append_singleton links l' ih =>
    rw [ofLinks_concat, addLink_disk_path_mapping]
    rw [List.map_append, List.nodup_append] at hkeys
    rcases List.mem_append.mp hl with hl | hl
    · have hne : s.key l.path_name ≠ s.key l'.path_name :=
        hkeys.2.2 _ (List.mem_map_of_mem hl) _ (by simp)
      have hne' : s.key l.path_name ≠ l'.disk_name := by
        intro he
        exact hapart l (by simp [hl]) (by simp [he])
      rw [if_neg (by simp [hne, hne'])]
      refine ih hkeys.1 (fun m hm => ?_) hl
      have hm' := hapart m (by simp [hm])
      rw [List.map_append, List.mem_append, not_or] at hm'
      exact hm'.1
    · rw [List.mem_singleton] at hl
      subst hl
      rw [if_pos ⟨hf, Or.inl rfl⟩]

/-- A drive is entered only where the links have left its row empty. -/
theorem foldl_addDisk (names : List String) (t : DiskTables) (k : String) :
    (names.foldl addDisk t).disk_mapping k =
      (if k ∈ names ∧ t.disk_mapping k = "" ∧ t.ignore_disk_mapping k = "" then devicePath k
      else t.disk_mapping k) ∧
    (names.foldl addDisk t).disk_path_mapping k =
      (if k ∈ names ∧ t.disk_mapping k = "" ∧ t.ignore_disk_mapping k = "" then devicePath k
      else t.disk_path_mapping k) := by
  induction names generalizing t with
  | nil => simp
  | cons n names ih =>
    rw [List.foldl_cons]
    obtain ⟨hm, hp⟩ := ih (t.addDisk n)
    rw [hm, hp]
    unfold addDisk
    by_cases hn : t.disk_mapping n = "" ∧ t.ignore_disk_mapping n = ""
    · rw [if_pos hn]
      by_cases hk : k = n
      · subst hk
        simp [devicePath_ne_empty, hn]
      · simp [hk]
    · rw [if_neg hn]
      by_cases hk : k = n
      · subst hk
        simp [hn]
      · simp [hk]

theorem addDisk_entered (t : DiskTables) (n : String) :
    ¬ ((t.addDisk n).disk_mapping n = "" ∧ (t.addDisk n).ignore_disk_mapping n = "") := by
  unfold addDisk
  split
  · simp [devicePath_ne_empty]
  next h => exact h

theorem addDisk_isIgnored (t : DiskTables) (n k : String) :
    (t.addDisk n).isIgnored k = t.isIgnored k := by
  unfold addDisk
  split
  next h =>
    by_cases hk : k = n
    · subst hk
      simp [isIgnored, h]
    · simp [isIgnored, hk]
  next => rfl

theorem addDisk_of_isIgnored {t : DiskTables} {n : String} (h : t.isIgnored n = true) :
    t.addDisk n = t := by
  simp only [isIgnored, Bool.and_eq_true, beq_iff_eq, bne_iff_ne] at h
  rw [addDisk, if_neg fun hn => h.2 hn.2]

end DiskTables

open DiskTables

variable {s : Script}

/-- Later drives leave the row of a drive as it is. -/
theorem diskEntry_foldl_addDisk (partition_by_path : Bool) (names : List String) (t : DiskTables)
    (n : String) : diskEntry s partition_by_path (names.foldl addDisk (t.addDisk n)) n =
      diskEntry s partition_by_path (t.addDisk n) n := by
  have hfinal := foldl_addDisk names (t.addDisk n) n
  have hentered := t.addDisk_entered n
  rw [if_neg fun h => hentered h.2, if_neg fun h => hentered h.2] at hfinal
  simp [diskEntry, hfinal]

theorem foldl_scanDisk (partition_by_path : Bool) (names : List String) (sc : Scan) :
    names.foldl (scanDisk s partition_by_path) sc =
      ⟨names.foldl addDisk sc.tables, sc.disks ++
        (names.filter fun n => !sc.tables.isIgnored n).map
          (diskEntry s partition_by_path (names.foldl addDisk sc.tables))⟩ := by
  induction names generalizing sc with
  | nil => simp
  | cons n names ih =>
    rw [List.foldl_cons, List.foldl_cons, ih, scanDisk]
    by_cases hn : sc.tables.isIgnored n = true
    · simp [hn, addDisk_of_isIgnored hn]
    · simp [hn, addDisk_isIgnored, diskEntry_foldl_addDisk]

namespace Inventory

variable (inv : Inventory s)

def scan (partition_by_path : Bool) : Scan :=
  Partition.scan s partition_by_path inv.links inv.disk_names

/-- The drives that `disk_type_only` does not leave out. -/
def drives : List String := inv.disk_names.filter fun n => !(ofLinks s inv.links).isIgnored n

/-- The by-path link of a drive; a drive without one goes by its device path. -/
def diskPath (n : String) : String := ((byPathLink inv.links n).map linkPath).getD (devicePath n)

theorem scan_tables (partition_by_path : Bool) :
    (inv.scan partition_by_path).tables = inv.disk_names.foldl addDisk (ofLinks s inv.links) := by
  rw [scan, Partition.scan, foldl_scanDisk]
  rfl

theorem scan_disks (partition_by_path : Bool) :
    (inv.scan partition_by_path).disks =
      inv.drives.map (diskEntry s partition_by_path (inv.scan partition_by_path).tables) := by
  rw [scan_tables, scan, Partition.scan, foldl_scanDisk]
  rfl

variable {inv} {n : String}

theorem key_ne (hn : n ∈ inv.disk_names) : ∀ l ∈ inv.links, s.key l.path_name ≠ n := by
  rintro l hl rfl
  exact inv.keys_apart l hl (List.mem_append_left _ hn)

/-- The rows of a drive in the final tables. -/
theorem tables_drive (partition_by_path : Bool) (hn : n ∈ inv.drives) :
    (inv.scan partition_by_path).tables.disk_mapping n = inv.diskPath n ∧
    (inv.scan partition_by_path).tables.disk_path_mapping n = devicePath n := by
  obtain ⟨hmem, hignored⟩ := List.mem_filter.mp hn
  obtain ⟨hm, hp⟩ := ofLinks_name (key_ne hmem)
  obtain ⟨hfm, hfp⟩ := foldl_addDisk inv.disk_names (ofLinks s inv.links) n
  rw [scan_tables, hfm, hfp, diskPath]
  cases hlink : byPathLink inv.links n with
  | some p =>
    rw [hlink] at hm hp
    have hne : (ofLinks s inv.links).disk_mapping n ≠ "" := by
      rw [hm]
      exact linkPath_ne_empty p
    rw [if_neg fun h => hne h.2.1, if_neg fun h => hne h.2.1]
    exact ⟨hm, hp⟩
  | none =>
    rw [hlink] at hm
    have hempty : (ofLinks s inv.links).disk_mapping n = "" := hm
    have hign : (ofLinks s inv.links).ignore_disk_mapping n = "" := by
      simpa [isIgnored, hempty] using hignored
    rw [if_pos ⟨hmem, hempty, hign⟩, if_pos ⟨hmem, hempty, hign⟩]
    exact ⟨rfl, rfl⟩

/-- The row of `disk_path_mapping` that the by-path entry of a drive leads to. -/
theorem tables_diskPath (partition_by_path : Bool) (hn : n ∈ inv.drives) :
    (inv.scan partition_by_path).tables.disk_path_mapping
      (s.key (basename (inv.diskPath n))) = devicePath n := by
  have hmem := (List.mem_filter.mp hn).1
  cases hlink : byPathLink inv.links n with
  | some p =>
    obtain ⟨l, hl, hfound, rfl, rfl⟩ := byPathLink_mem hlink
    have hbase : basename (inv.diskPath l.disk_name) = l.path_name := by
      rw [diskPath, hlink]
      exact basename_linkPath (inv.link_plain l hl).1.no_slash
    have hnot : s.key l.path_name ∉ inv.disk_names := fun h =>
      inv.keys_apart l hl (List.mem_append_left _ h)
    have hapart : ∀ l ∈ inv.links, s.key l.path_name ∉ inv.links.map Link.disk_name :=
      fun l hl h => inv.keys_apart l hl (List.mem_append_right _ h)
    rw [hbase, scan_tables, (foldl_addDisk _ _ _).2, if_neg fun h => hnot h.1]
    exact ofLinks_key inv.keys_nodup hapart hl hfound
  | none =>
    have hbase : basename (inv.diskPath n) = n := by
      rw [diskPath, hlink]
      exact basename_devicePath (inv.disk_plain n hmem).1.no_slash
    rw [hbase, (inv.disk_plain n hmem).2]
    exact (tables_drive partition_by_path hn).2

end Inventory

end CompassAdapters.Partition
