import CompassAdapters.Partition.DiskSelection
import CompassAdapters.Partition.Sizes

/-! The parts of each selected disk in the recipe of `preseed_pre_partition_disks` and in the
profile of `suse_pre_partition_disks`; those of `kickstart_pre_partition_disks` are in
`KickstartLayout.diskLines`. -/
namespace CompassAdapters.Partition
open Shell Python KickstartLayout

/-- A field of an option that lists disks with sizes. -/
structure DiskField where
  disk_name : String
  size : String
  deriving DecidableEq

/-- `#for disk_and_size in $disk_sizes`, with what is made of a field. -/
def eachDisk {σ : Type} (body : σ → DiskField → Option σ) (option : Option String) (st : σ) :
    Option σ :=
  (fields option).foldlM (fun st disk_and_size =>
    (splitOnce ' ' disk_and_size).bind fun (disk_name, size) => body st ⟨strip disk_name, size⟩) st

/-- The variables `reserve_disk_size_NAME` and `max_disk_size_NAME` with their defaults. -/
structure DiskVariables where
  reserve_disk_size : Table
  default_reserve_disk_size : String
  max_disk_size : Table
  default_max_disk_size : String

namespace Preseed

/-- The code generated for one field of `disk_reserve_size` or `disk_max_size`. -/
def setDisk (t : Table) (f : DiskField) : Option Table :=
  (megabytes f.size).map fun disk_size => t.assign f.disk_name (toString disk_size)

def diskVariables (o : Options) : Option DiskVariables :=
  (eachDisk setDisk o.disk_reserve_size Table.unset).bind fun reserve_disk_size =>
  (megabytes o.default_disk_reserve_size).bind fun default_reserve_disk_size =>
  (eachDisk setDisk o.disk_max_size Table.unset).bind fun max_disk_size =>
  (megabytes o.default_disk_max_size).map fun default_max_disk_size =>
    ⟨reserve_disk_size, toString default_reserve_disk_size,
      max_disk_size, toString default_max_disk_size⟩

/-- What is written for a disk: the `512 512+100% maxsize` of the volume group, and the size of the
reserved part. -/
structure DiskParts where
  device : String
  maxsize_param : String
  reserve : Option String
  deriving DecidableEq

section
variable (partition_by_path : Bool) (t : DiskTables)

/-- `disk_name`, which is looked up under the name of the link where the disks go by their links. -/
def diskName (disk : String) : String :=
  if partition_by_path then basename (t.disk_path_mapping (diskPathName (basename disk)))
  else basename disk

/-- The body of the loop over `sorted_disks`. -/
def diskParts (v : DiskVariables) (disk : String) : Option DiskParts :=
  let disk_name := diskName partition_by_path t disk
  (v.max_disk_size.expand disk_name).bind fun max_disk_size =>
  (v.reserve_disk_size.expand disk_name).map fun reserve_disk_size =>
    let max_disk_size := orDefault max_disk_size v.default_max_disk_size
    let reserve_disk_size := orDefault reserve_disk_size v.default_reserve_disk_size
    { device := disk
      maxsize_param := if isGreater max_disk_size "0" then max_disk_size else "-1"
      reserve := if isGreater reserve_disk_size "0" then some reserve_disk_size else none }

def diskRecipe (o : Options) (sorted_disks : List String) : Option (List DiskParts) :=
  (diskVariables o).bind fun v => sorted_disks.mapM (diskParts partition_by_path t v)

end

end Preseed

namespace Suse

/-- The code generated for one field of `disk_reserve_size` or `disk_max_size`. -/
def setDisk (t : Table) (f : DiskField) : Option Table := some (t.assign f.disk_name f.size)

def diskVariables (o : Options) : Option DiskVariables :=
  (eachDisk setDisk o.disk_reserve_size Table.unset).bind fun reserve_disk_size =>
  (eachDisk setDisk o.disk_max_size Table.unset).map fun max_disk_size =>
    -- `default_reserve_disk_size` and `default_max_disk_size`
    let default := (Table.unset.assign "reserve_disk_size" o.default_disk_reserve_size).assign
      "max_disk_size" o.default_disk_max_size
    ⟨reserve_disk_size, default.get "reserve_disk_size",
      max_disk_size, default.get "max_disk_size"⟩

/-- The partition for the space that is kept free. -/
structure Reserved where
  mount : String
  label : String
  size : String
  deriving DecidableEq

/-- What is written for a disk, with the `<size>` of its partition in the volume group. -/
structure Drive where
  device : String
  size : String
  reserved : Option Reserved
  deriving DecidableEq

/-- The variables of the loop over the disks. An `eval` with a bad substitution leaves them as they
are. -/
structure DriveVariables where
  max_disk_size : String
  reserve_disk_size : String

/-- `[[ ! -z "$size" ]] && [[ "$size" != "0" ]]`. -/
def given (size : String) : Option String := if size ≠ "" ∧ size ≠ "0" then some size else none

/-- The line with the size stands in single quotes, so that the variable is not replaced. -/
def maxElement (max_disk_size : String) : String :=
  if given max_disk_size = none then "max" else "${max_disk_size}"

/-- The body of the loop over `sorted_disks`. -/
def writeDrive (v : DiskVariables) (s : DriveVariables × List Drive) (disk : String) :
    DriveVariables × List Drive :=
  let disk_name := basename disk
  let max_disk_size := orDefault ((v.max_disk_size.expand disk_name).getD s.1.max_disk_size)
    v.default_max_disk_size
  let reserve_disk_size :=
    orDefault ((v.reserve_disk_size.expand disk_name).getD s.1.reserve_disk_size)
      v.default_reserve_disk_size
  (⟨max_disk_size, reserve_disk_size⟩, s.2 ++
    [⟨disk, maxElement max_disk_size, (given reserve_disk_size).map fun size =>
      ⟨"/reserved_" ++ disk_name, "reserved_" ++ disk_name, size⟩⟩])

/-- The drives, from what the code before has left in the variables of the loop. -/
def drives (before : DriveVariables) (o : Options) (sorted_disks : List String) :
    Option (List Drive) :=
  (diskVariables o).map fun v => (sorted_disks.foldl (writeDrive v) (before, [])).2

end Suse

section Fields

def diskFieldOf (disk_and_size : String) : Option DiskField :=
  (splitOnce ' ' disk_and_size).map fun (disk_name, size) => ⟨strip disk_name, size⟩

def diskFields (option : Option String) : List DiskField := (fields option).filterMap diskFieldOf

theorem eachDisk_eq_some {σ : Type} {body : σ → DiskField → Option σ} {option : Option String}
    {st st' : σ} (h : eachDisk body option st = some st') :
    (diskFields option).foldlM body st = some st' := by
  rw [eachDisk] at h
  rw [diskFields]
  generalize fields option = fs at h ⊢
  induction fs generalizing st with
  | nil => exact h
  | cons f fs ih =>
    rw [List.foldlM_cons] at h
    obtain ⟨mid, hmid, hrest⟩ := Option.bind_eq_some_iff.mp h
    obtain ⟨⟨disk_name, size⟩, hsplit, hbody⟩ := Option.bind_eq_some_iff.mp hmid
    have hfield : diskFieldOf f = some ⟨strip disk_name, size⟩ := by
      rw [diskFieldOf, hsplit, Option.map_some]
    have hbody : body st ⟨strip disk_name, size⟩ = some mid := hbody
    rw [List.filterMap_cons_some hfield, List.foldlM_cons, hbody]
    exact ih hrest

/-- The size that is configured for a disk, as it is written; without one it is the default. -/
def sizeFor (option : Option String) (default disk_name : String) : String :=
  lastMatch (fun f => f.disk_name == disk_name) DiskField.size default (diskFields option)

def maxFor (o : Options) (disk_name : String) : String :=
  sizeFor o.disk_max_size o.default_disk_max_size disk_name

def reserveFor (o : Options) (disk_name : String) : String :=
  sizeFor o.disk_reserve_size o.default_disk_reserve_size disk_name

/-- A size in one word, of a number of megabytes that the shells compare. -/
structure IsSize (s : String) : Prop where
  no_blank : ∀ c ∈ s.toList, isBlank c = false
  megabytes : ∃ m : ℤ, megabytes s = some m ∧ -2 ^ 63 ≤ m ∧ m < 2 ^ 63

/-- An option that lists kernel names of disks with sizes, and its default. -/
structure ListsDisks (option : Option String) (default : String) : Prop where
  names : ∀ f ∈ diskFields option, isName f.disk_name = true
  sizes : ∀ f ∈ diskFields option, IsSize f.size
  default : IsSize default

instance (s : String) : Decidable (IsSize s) :=
  decidable_of_iff ((∀ c ∈ s.toList, isBlank c = false) ∧
      ∃ m ∈ KickstartLayout.megabytes s, -2 ^ 63 ≤ m ∧ m < 2 ^ 63)
    ⟨fun ⟨h, hm⟩ => ⟨h, hm⟩, fun ⟨h, hm⟩ => ⟨h, hm⟩⟩

instance (option : Option String) (default : String) : Decidable (ListsDisks option default) :=
  decidable_of_iff ((∀ f ∈ diskFields option, isName f.disk_name = true) ∧
      (∀ f ∈ diskFields option, IsSize f.size) ∧ IsSize default)
    ⟨fun ⟨h, h', h''⟩ => ⟨h, h', h''⟩, fun ⟨h, h', h''⟩ => ⟨h, h', h''⟩⟩

variable {option : Option String} {default n : String}

theorem IsSize.ne_empty {s : String} (h : IsSize s) : s ≠ "" := by
  rintro rfl
  obtain ⟨m, hm, -⟩ := h.megabytes
  rw [show KickstartLayout.megabytes "" = none from by decide +kernel] at hm
  cases hm

theorem ListsDisks.isSize (h : ListsDisks option default) (n : String) :
    IsSize (sizeFor option default n) := by
  rcases lastMatch_cases (fun f : DiskField => f.disk_name == n) DiskField.size default
    (diskFields option) with hlast | ⟨f, hf, -, hlast⟩
  · rw [sizeFor, hlast]
    exact h.default
  · rw [sizeFor, hlast]
    exact h.sizes f hf

/-- What a loop over the fields leaves in the variable of a disk. -/
theorem get_foldl_diskFields {value : DiskField → String} {fs : List DiskField}
    (hnames : ∀ f ∈ fs, isName f.disk_name = true)
    (hvalues : ∀ f ∈ fs, ∀ c ∈ (value f).toList, isBlank c = false) (t : Table) (n : String) :
    (fs.foldl (fun t f => t.assign f.disk_name (value f)) t).get n =
      lastMatch (fun f => f.disk_name == n) value (t.get n) fs := by
  induction fs generalizing t with
  | nil => rfl
  | cons f fs ih =>
    obtain ⟨hname, hnames⟩ := List.forall_mem_cons.mp hnames
    obtain ⟨hvalue, hvalues⟩ := List.forall_mem_cons.mp hvalues
    rw [List.foldl_cons, ih hnames hvalues, lastMatch_cons, Table.assign_of_isName t hname hvalue,
      Table.get_update]
    by_cases hn : n = f.disk_name
    · rw [if_pos hn, if_pos (beq_iff_eq.mpr hn.symm)]
    · rw [if_neg hn, if_neg (by simpa using Ne.symm hn)]

/-- An empty value is replaced by the default. -/
theorem orDefault_lastMatch {ι : Type} {test : ι → Bool} {value : ι → String} {xs : List ι}
    (hvalues : ∀ x ∈ xs, value x ≠ "") (default : String) :
    orDefault (lastMatch test value "" xs) default = lastMatch test value default xs := by
  rw [lastMatch, lastMatch]
  cases hfind : xs.reverse.find? test with
  | none => rfl
  | some x =>
    have hx := List.mem_reverse.mp (List.mem_of_find?_eq_some hfind)
    exact if_neg (hvalues x hx)

theorem map_lastMatch {ι : Type} (g : String → String) (test : ι → Bool) (value : ι → String)
    (otherwise : String) (xs : List ι) : g (lastMatch test value otherwise xs) =
      lastMatch test (fun x => g (value x)) (g otherwise) xs := by
  rw [lastMatch, lastMatch]
  cases xs.reverse.find? test with
  | none => rfl
  | some x => rfl

end Fields

end CompassAdapters.Partition
