import CompassAdapters.Shell.Assoc
import CompassAdapters.Shell.Words
import CompassAdapters.Template.Python
import Mathlib.Data.List.Count

/-! The part of `kickstart_pre_partition_disks` that writes `/tmp/part-include`, from the
partition options on. `none` stands for an option that the template fails on. -/
namespace CompassAdapters.Partition.KickstartLayout
open Shell Python

/-- The options that the template reads, with its defaults. -/
structure Options where
  vgname : String
  os_version : String
  partition : Option String
  partition_size : Option String
  partition_maxsize : Option String
  disk_reserve_size : Option String
  disk_max_size : Option String
  default_disk_reserve_size : String
  default_disk_max_size : String
  default_partition : String
  partition_fstype : String

/-- `[part.strip() for part in $option.split(';') if part.strip()]`. -/
def fields (option : Option String) : List String :=
  ((split ';' (option.getD "")).map strip).filter (· ≠ "")

/-- A size in units of `M`. -/
def megabytes (size : String) : Option ℤ :=
  if endsWith size 'K' then (int (dropLast size)).map (· / 1000)
  else if endsWith size 'M' then int (dropLast size)
  else if endsWith size 'G' then (int (dropLast size)).map (· * 1000)
  else if endsWith size 'T' then (int (dropLast size)).map (· * 1000000)
  else int size

/-- The name of a volume; other mount points are skipped. -/
def volname (vol : String) : Option String :=
  if vol = "/" then some "root"
  else if vol = "swap" then some "swap"
  else match vol.toList with
    | '/' :: path => some (translate '/' '_' (String.ofList path))
    | _ => none

/-- The arrays of the script that are filled from the options. -/
structure Arrays where
  partitions_percentage : AssocArray
  partitions_name : AssocArray
  partitions_size : AssocArray
  partitions_maxsize : AssocArray

/-- `unset NAME` for the name of a variable. -/
def Arrays.unset (arrays : Arrays) (name : String) : Arrays :=
  if name = "partitions_percentage" then { arrays with partitions_percentage := ∅ }
  else if name = "partitions_name" then { arrays with partitions_name := ∅ }
  else if name = "partitions_size" then { arrays with partitions_size := ∅ }
  else if name = "partitions_maxsize" then { arrays with partitions_maxsize := ∅ }
  else arrays

/-- The code generated for one field of `partition`. -/
def setVolume (arrays : Arrays) (vol_and_size : String) : Option Arrays :=
  (splitOnce ' ' vol_and_size).bind fun (vol, vol_size) =>
    let vol := strip vol
    match volname vol with
    | none => some arrays
    | some volname =>
      let arrays := { arrays with partitions_name := arrays.partitions_name.assign vol volname }
      let vol_size := strip vol_size
      if endsWith vol_size '%' then
        some { arrays with
          partitions_percentage := arrays.partitions_percentage.assign vol (dropLast vol_size) }
      else (megabytes vol_size).map fun vol_min_size =>
        { arrays with
          partitions_size := arrays.partitions_size.assign vol (toString vol_min_size) }

/-- The code generated for one field of an option that lists names with sizes. -/
def setSize (table : AssocArray) (name_and_size : String) : Option AssocArray :=
  (splitOnce ' ' name_and_size).bind fun (name, size) =>
    (megabytes size).map fun size => table.assign (strip name) (toString size)

def readArrays (o : Options) : Option Arrays :=
  ((fields o.partition).foldlM setVolume ⟨∅, ∅, ∅, ∅⟩).bind fun arrays =>
  ((fields o.partition_size).foldlM setSize arrays.partitions_size).bind fun partitions_size =>
  ((fields o.partition_maxsize).foldlM setSize ∅).map fun partitions_maxsize =>
    { arrays with partitions_size, partitions_maxsize }

/-- The sizes of the parts of each disk. -/
structure DiskSizes where
  reserve_disks_size : AssocArray
  default_reserve_disk_size : String
  max_disks_size : AssocArray
  default_max_disk_size : String

def readDiskSizes (o : Options) : Option DiskSizes :=
  ((fields o.disk_reserve_size).foldlM setSize ∅).bind fun reserve_disks_size =>
  (megabytes o.default_disk_reserve_size).bind fun default_reserve =>
  ((fields o.disk_max_size).foldlM setSize ∅).bind fun max_disks_size =>
  (megabytes o.default_disk_max_size).map fun default_max =>
    ⟨reserve_disks_size, toString default_reserve, max_disks_size, toString default_max⟩

/-- A line of `/tmp/part-include`: the command, its first argument and the rest. -/
structure Line where
  command : String
  name : String
  options : List String
  deriving DecidableEq, Repr

/-- `[ $n -gt 0 ]`. -/
def isPositive (n : String) : Bool := (int n).any (0 < ·)

/-- `${v:-w}`. -/
def orDefault (v w : String) : String := if v = "" then w else v

/-- The options of a command that are not empty. -/
def options (os : List String) : List String := os.filter (· ≠ "")

/-- The lines for one disk, which is counted from 1. -/
def diskLines (sizes : DiskSizes) (disk : String) (pv_id : ℕ) : List Line :=
  let max_disk_size := orDefault (sizes.max_disks_size.get disk) sizes.default_max_disk_size
  let maxsize_param := if isPositive max_disk_size then "--maxsize=" ++ max_disk_size else ""
  let reserve_disk_size :=
    orDefault (sizes.reserve_disks_size.get disk) sizes.default_reserve_disk_size
  ⟨"part", "pv.0" ++ toString pv_id,
    options ["--size=1", "--grow", maxsize_param, "--ondisk=" ++ disk]⟩ ::
  if isPositive reserve_disk_size then
    [⟨"part", "pv.1" ++ toString pv_id, ["--size=" ++ reserve_disk_size, "--ondisk=" ++ disk]⟩]
  else []

/-- The names of the parts that begin with `pre`. -/
def members (pre : String) (lines : List Line) : List String :=
  (lines.map Line.name).filter fun name => pre.toList.isPrefixOf name.toList

def volgroupLine (name : String) (parts : List String) : List Line :=
  if parts ≠ [] then [⟨"volgroup", name, parts⟩] else []

/-- The boot loader, `/boot` and `swap` on the first disk. -/
def bootLines (o : Options) (arrays : Arrays) (disk : String) : List Line :=
  let boot_size := orDefault (arrays.partitions_size.get "/boot") "500"
  let swap_size := orDefault (arrays.partitions_size.get "swap") "0"
  let swap_maxsize := orDefault (arrays.partitions_maxsize.get "swap") "128000"
  let drive := if o.os_version = "rhel7" then "--boot-drive=" else "--driveorder="
  [⟨"bootloader", "--location=mbr", [drive ++ disk]⟩,
    ⟨"zerombr", "", []⟩,
    ⟨"part", "biosboot", ["--fstype=biosboot", "--size=1", "--ondisk=" ++ disk, "--asprimary"]⟩,
    ⟨"part", "/boot", ["--fstype=" ++ o.partition_fstype, "--size=" ++ boot_size,
      "--ondisk=" ++ disk, "--asprimary"]⟩,
    ⟨"part", "swap", if swap_size = "0" then ["--recommended", "--maxsize=" ++ swap_maxsize,
      "--ondisk=" ++ disk, "--asprimary"] else ["--size=" ++ swap_size, "--ondisk=" ++ disk]⟩]

section
variable (b : Bash)

/-- `sorted_partitions`: the default partition, then the other keys of `partitions_name`. -/
def sortedPartitions (default_partition : String) (partitions_name : AssocArray) : AssocArray :=
  ((b.keys 508 partitions_name).foldl (fun (s : AssocArray × ℕ) key =>
    if key ≠ default_partition then (s.1.assign (toString s.2) key, s.2 + 1) else s)
    (AssocArray.assign ∅ "0" default_partition, 1)).1

def logvolLine (o : Options) (arrays : Arrays) (key : String) : Line :=
  let percentage := arrays.partitions_percentage.get key
  let maxsize := arrays.partitions_maxsize.get key
  ⟨"logvol", key, options ["--fstype=" ++ o.partition_fstype, "--vgname=" ++ o.vgname,
    if percentage ≠ "" then "--percent=" ++ percentage else "",
    "--size=" ++ orDefault (arrays.partitions_size.get key) "1",
    if maxsize ≠ "" then "--maxsize=" ++ maxsize else "",
    if percentage ≠ "" ∨ key = o.default_partition then "--grow" else "",
    "--name=" ++ arrays.partitions_name.get key ++ "vol"]⟩

/-- `unset ${partitions_name[key]}`: what is unset are the variables that the value names. -/
def unsetNamed (arrays : Arrays) (key : String) : Arrays :=
  (words (arrays.partitions_name.get key)).foldl Arrays.unset arrays

def partInclude (o : Options) (sorted_disks : List String) : Option (List Line) :=
  (readDiskSizes o).bind fun sizes =>
  (readArrays o).map fun arrays =>
    let first_disk := sorted_disks.headD ""
    let arrays := unsetNamed arrays "/boot"
    let boot := bootLines o arrays first_disk
    let arrays := unsetNamed arrays "swap"
    let arrays := if arrays.partitions_name.get "/" = "" then
      { arrays with partitions_name := arrays.partitions_name.assign "/" "root" } else arrays
    let disks := (sorted_disks.zipIdx 1).flatMap fun (disk, pv_id) => diskLines sizes disk pv_id
    let sorted_partitions := sortedPartitions b o.default_partition arrays.partitions_name
    ⟨"clearpart", "--all", ["--initlabel"]⟩ :: boot ++ disks ++
      volgroupLine o.vgname (members "pv.0" disks) ++
      volgroupLine "reserved" (members "pv.1" disks) ++
      ((b.values 515 sorted_partitions).flatMap words).map (logvolLine o arrays)

end

end CompassAdapters.Partition.KickstartLayout
