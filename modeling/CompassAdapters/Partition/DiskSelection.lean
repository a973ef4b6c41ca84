import CompassAdapters.Partition.Disks
import CompassAdapters.Shell.Slices
import CompassAdapters.Template.Python

/-! The disks that `kickstart_pre_partition_disks` and `suse_pre_partition_disks` select, and those
that they zero. -/
namespace CompassAdapters.Partition
open Shell

/-- The options that select disks. -/
structure Selection where
  partition_by_path : Bool
  partitions_only : String
  sort_disks : Bool
  start_from_disk : Option ℤ
  disk_num : Option ℕ
  keep_old_partitions : Bool

section Search

variable (expr_match : String → String → Bool) (o : Selection)

/-- `found_disk`, where `expr_match` is `expr match` as a condition. -/
def foundDisk (disk_name : String) : Bool :=
  if o.partitions_only = "" then true
  else ((Python.split ',' o.partitions_only).filter (· ≠ "")).any fun partition_only =>
    expr_match disk_name partition_only

/-- The state of the loop over the drives. -/
structure Search (α : Type*) where
  scan : Scan
  partition_disks : α

variable {α : Type*} (s : Script) (store : α → String → α)

/-- The body of the loop; `store` enters a disk into `partition_disks`. -/
def searchDisk (sc : Search α) (disk_name : String) : Search α :=
  if sc.scan.tables.isIgnored disk_name then sc
  else
    let scan := scanDisk s o.partition_by_path sc.scan disk_name
    let disk := diskEntry s o.partition_by_path scan.tables disk_name
    ⟨scan, if foundDisk expr_match o disk_name then store sc.partition_disks disk
      else sc.partition_disks⟩

/-- `partition_disks[${found_disk_offset}]=$disk`, with the offset counted up. -/
def storeAtOffset (partition_disks : AssocArray × ℕ) (disk : String) : AssocArray × ℕ :=
  (partition_disks.1.assign (toString partition_disks.2) disk, partition_disks.2 + 1)

def kickstartSearch (inv : Inventory kickstart) : Search (AssocArray × ℕ) :=
  inv.disk_names.foldl (searchDisk expr_match o kickstart storeAtOffset)
    ⟨⟨inv.links.foldl (DiskTables.addLink kickstart) .empty, []⟩, (∅, 0)⟩

/-- `partition_disks+=($disk)`. -/
def suseSearch (inv : Inventory suse) : Search (List String) :=
  inv.disk_names.foldl (searchDisk expr_match o suse fun partition_disks disk =>
    partition_disks ++ [disk]) ⟨⟨inv.links.foldl (DiskTables.addLink suse) .empty, []⟩, []⟩

end Search

section Select
variable (b : Bash) (o : Selection)

/-- `disk_start_offset`. -/
def Selection.offset : ℕ :=
  match o.start_from_disk with
  | none => 0
  | some start_from_disk => if start_from_disk > 0 then (start_from_disk - 1).toNat else 0

/-- From `sort_disks` on. The loops before have shifted all the parameters away. -/
def sortedDisks (partition_disks : List String) : List String :=
  let params := []
  let sorted_disks := if o.sort_disks then b.sort partition_disks else partition_disks
  let (params, sorted_disks) :=
    if o.start_from_disk.isSome then
      let params := shift o.offset (setParams params sorted_disks)
      (params, params)
    else (params, sorted_disks)
  match o.disk_num with
  | none => sorted_disks
  | some disk_num => head (some disk_num) (setParams params sorted_disks)

/-- The selected disks, and those that `dd` is run on. -/
structure Outcome where
  sorted_disks : List String
  zeroed : List String
  deriving DecidableEq

variable (expr_match : String → String → Bool)

def kickstartSelect (inv : Inventory kickstart) : Outcome :=
  let search := kickstartSearch expr_match o inv
  let sorted_disks :=
    sortedDisks b o (b.values (if o.sort_disks then 118 else 120) search.partition_disks.1)
  ⟨sorted_disks, if o.keep_old_partitions then sorted_disks else search.scan.disks⟩

def suseSelect (inv : Inventory suse) : Outcome :=
  let search := suseSearch expr_match o inv
  let sorted_disks := sortedDisks b o search.partition_disks
  ⟨sorted_disks, if o.keep_old_partitions then sorted_disks else search.scan.disks⟩

end Select

section Slice

variable {expr_match : String → String → Bool} {o : Selection} {s : Script}

/-- The loop over the drives stores the entries of those that are found. -/
theorem foldl_searchDisk {α : Type*} (store : α → String → α) (names : List String)
    (sc : Search α) : names.foldl (searchDisk expr_match o s store) sc =
      ⟨names.foldl (scanDisk s o.partition_by_path) sc.scan,
        ((names.filter fun n => !sc.scan.tables.isIgnored n && foundDisk expr_match o n).map
          (diskEntry s o.partition_by_path
            (names.foldl DiskTables.addDisk sc.scan.tables))).foldl store sc.partition_disks⟩ := by
  induction names generalizing sc with
  | nil => rfl
  | cons n names ih =>
    rw [List.foldl_cons, List.foldl_cons, List.foldl_cons, ih, searchDisk, List.filter_cons]
    by_cases hn : sc.scan.tables.isIgnored n = true
    · have hscan : scanDisk s o.partition_by_path sc.scan n = sc.scan := if_pos hn
      have hadd := DiskTables.addDisk_of_isIgnored hn
      rw [if_pos hn, hscan, hadd, hn]
      rfl
    · have hscan : (scanDisk s o.partition_by_path sc.scan n).tables =
          sc.scan.tables.addDisk n := by
        rw [scanDisk, if_neg hn]
      rw [if_neg hn, Bool.eq_false_iff.mpr hn, Bool.not_false, Bool.true_and]
      simp only [hscan, DiskTables.addDisk_isIgnored]
      cases foundDisk expr_match o n with
      | false => rfl
      | true =>
        rw [if_pos rfl, if_pos rfl, List.map_cons, List.foldl_cons, diskEntry_foldl_addDisk]

/-- The device of a drive, or its link. -/
def Inventory.device (inv : Inventory s) (partition_by_path : Bool) (disk_name : String) : String :=
  if partition_by_path then inv.diskPath disk_name else devicePath disk_name

variable (expr_match o) in
/-- The disks that are detected, not ignored and matched by the filter, in hardware order. -/
def Inventory.matching (inv : Inventory s) : List String :=
  (inv.drives.filter (foundDisk expr_match o)).map (inv.device o.partition_by_path)

variable (inv : Inventory s)

theorem foldl_searchDisk_inventory {α : Type*} (store : α → String → α) (x : α) :
    (inv.disk_names.foldl (searchDisk expr_match o s store)
      ⟨⟨DiskTables.ofLinks s inv.links, []⟩, x⟩).partition_disks =
        (inv.matching expr_match o).foldl store x := by
  have hfilter : inv.drives.filter (foundDisk expr_match o) = inv.disk_names.filter fun n =>
      !(DiskTables.ofLinks s inv.links).isIgnored n && foundDisk expr_match o n := by
    rw [Inventory.drives, List.filter_filter]
    exact List.filter_congr fun n _ => Bool.and_comm _ _
  rw [foldl_searchDisk, Inventory.matching, hfilter]
  show List.foldl store x _ = List.foldl store x _
  congr 1
  apply List.map_congr_left
  intro n hn
  have hdrive : n ∈ inv.drives := by
    rw [List.mem_filter, Bool.and_eq_true] at hn
    exact List.mem_filter.mpr ⟨hn.1, hn.2.1⟩
  obtain ⟨hmapping, hpath⟩ := Inventory.tables_drive o.partition_by_path hdrive
  rw [Inventory.scan_tables] at hmapping hpath
  rw [diskEntry, Inventory.device, hmapping, hpath, s.entry_device]

theorem foldl_storeAtOffset (disks : List String) (a : AssocArray) (i : ℕ) :
    (disks.foldl storeAtOffset (a, i)).1 =
      (disks.zipIdx i).foldl (fun a x => a.assign (toString x.2) x.1) a := by
  induction disks generalizing a i with
  | nil => rfl
  | cons disk disks ih => exact ih _ _

/-- The array has the disks that are found, in any order. -/
theorem kickstartSearch_values_perm (b : Bash) (place : ℕ) (inv : Inventory kickstart) :
    (b.values place (kickstartSearch expr_match o inv).partition_disks.1).Perm
      (inv.matching expr_match o) := by
  have hkeys :
      ((inv.matching expr_match o).zipIdx.map fun x : String × ℕ => toString x.2).Nodup := by
    rw [← Function.comp_def toString Prod.snd, ← List.map_map, List.zipIdx_map_snd]
    exact List.Nodup.map (fun _ _ => toString_injective) List.nodup_range'
  have hperm := b.values_foldl_assign_perm place (fun x : String × ℕ => toString x.2)
    (fun x => x.1) (fun x _ => Nat.repr_ne_empty) hkeys
  rw [List.zipIdx_map_fst] at hperm
  rw [kickstartSearch, ← DiskTables.ofLinks, foldl_searchDisk_inventory, foldl_storeAtOffset]
  exact hperm

theorem suseSearch_eq (inv : Inventory suse) :
    (suseSearch expr_match o inv).partition_disks = inv.matching expr_match o := by
  rw [suseSearch, ← DiskTables.ofLinks, foldl_searchDisk_inventory]
  generalize inv.matching expr_match o = disks
  induction disks using List.reverseRecOn with
  | nil => rfl
  | append_singleton disks disk ih => rw [List.foldl_append, ih]; rfl

/-- The parameters never differ from the disks in question: `set` without a word keeps none. -/
theorem sortedDisks_eq (b : Bash) (disks : List String) : sortedDisks b o disks =
    head o.disk_num (shift o.offset (if o.sort_disks then b.sort disks else disks)) := by
  rw [sortedDisks]
  generalize (if o.sort_disks then b.sort disks else disks) = sorted_disks
  cases hstart : o.start_from_disk with
  | none =>
    have hoffset : o.offset = 0 := by rw [Selection.offset, hstart]
    have hshift : shift 0 sorted_disks = sorted_disks := if_pos (Nat.zero_le _)
    rw [hoffset, hshift]
    cases o.disk_num with
    | none => rfl
    | some disk_num => exact congrArg _ (setParams_nil _)
  | some start_from_disk =>
    rw [setParams_nil]
    cases o.disk_num with
    | none => rfl
    | some disk_num => exact congrArg _ (setParams_self _)

/-- The slice of some disks that the options ask for. -/
def Selection.slice (o : Selection) (b : Bash) (disks : List String) : List String :=
  head o.disk_num ((if o.sort_disks then b.sort disks else disks).drop o.offset)

/-- The slice is selected, and with `keep_old_partitions` nothing else is zeroed. -/
def SelectsSlice (b : Bash) (o : Selection) (disks : List String) (outcome : Outcome) : Prop :=
  outcome.sorted_disks = o.slice b disks ∧
    (o.keep_old_partitions = true → outcome.zeroed = o.slice b disks)

theorem kickstart_selectsSlice_iff {b : Bash} {inv : Inventory kickstart} {disks : List String} :
    SelectsSlice b o disks (kickstartSelect b o expr_match inv) ↔
      sortedDisks b o (b.values (if o.sort_disks then 118 else 120)
        (kickstartSearch expr_match o inv).partition_disks.1) = o.slice b disks := by
  rw [SelectsSlice, kickstartSelect]
  refine and_iff_left_of_imp fun h hkeep => ?_
  exact (if_pos hkeep).trans h

theorem suse_selectsSlice_iff {b : Bash} {inv : Inventory suse} {disks : List String} :
    SelectsSlice b o disks (suseSelect b o expr_match inv) ↔
      sortedDisks b o (suseSearch expr_match o inv).partition_disks = o.slice b disks := by
  rw [SelectsSlice, suseSelect]
  refine and_iff_left_of_imp fun h hkeep => ?_
  exact (if_pos hkeep).trans h

variable (o) in
/-- There are as many disks as are to be left out, or none at all, or none is wanted. -/
def Selection.Reaches (disks : List String) : Prop :=
  o.offset ≤ disks.length ∨ disks = [] ∨ o.disk_num = some 0

theorem sortedDisks_eq_slice_iff (b : Bash) (disks : List String) :
    sortedDisks b o disks = o.slice b disks ↔ o.Reaches disks := by
  rw [sortedDisks_eq, Selection.slice, head_shift_eq_iff, Selection.Reaches]
  cases o.sort_disks with
  | false => rfl
  | true =>
    have hperm := b.sort_perm disks
    show _ ≤ (b.sort disks).length ∨ b.sort disks = [] ∨ _ ↔ _
    rw [hperm.length_eq, ← List.length_eq_zero_iff (l := b.sort disks), hperm.length_eq,
      List.length_eq_zero_iff]

/-- The same for disks that come out of an associative array. -/
theorem forall_values_iff (o : Selection) {place : ℕ} {a : AssocArray} {disks : List String}
    (hperm : ∀ b : Bash, (b.values place a).Perm disks) :
    (∀ b : Bash, sortedDisks b o (b.values place a) = o.slice b disks) ↔
      o.Reaches disks ∧ (o.sort_disks = true ∨ (∀ x ∈ disks, ∀ y ∈ disks, x = y) ∨
        o.offset = disks.length ∨ o.disk_num = some 0) := by
  cases hsort : o.sort_disks with
  | true =>
    have hsame (b : Bash) : sortedDisks b o (b.values place a) = sortedDisks b o disks := by
      rw [sortedDisks_eq, sortedDisks_eq, hsort, if_pos rfl, if_pos rfl,
        b.sort_eq_of_perm (hperm b)]
    simp only [hsame, sortedDisks_eq_slice_iff, true_or, and_true]
    exact ⟨fun h => h Bash.plain, fun h _ => h⟩
  | false =>
    have hlength (b : Bash) : (b.values place a).length = disks.length := (hperm b).length_eq
    simp only [sortedDisks_eq, Selection.slice, hsort, Bool.false_eq_true, if_false, false_or]
    by_cases hk : o.offset ≤ disks.length
    · have hshift (b : Bash) :
          shift o.offset (b.values place a) = (b.values place a).drop o.offset :=
        if_pos (by rw [hlength]; exact hk)
      simp only [hshift, Selection.Reaches]
      rw [and_iff_right (Or.inl hk)]
      constructor
      · intro h
        exact (Bash.plain.forall_head_drop_values_iff hperm hk).mp fun b _ => h b
      · intro h b
        exact (b.forall_head_drop_values_iff hperm hk).mpr h b rfl
    · have hshift (b : Bash) : shift o.offset (b.values place a) = b.values place a :=
        if_neg (by rw [hlength]; exact hk)
      have hslice : head o.disk_num (disks.drop o.offset) = [] :=
        head_eq_nil_iff.mpr (Or.inl (List.drop_eq_nil_of_le (by omega)))
      have hnil (b : Bash) : b.values place a = [] ↔ disks = [] := by
        rw [← List.length_eq_zero_iff, hlength, List.length_eq_zero_iff]
      simp only [hshift, hslice, head_eq_nil_iff, hnil, Selection.Reaches]
      rw [or_iff_right hk]
      constructor
      · intro h
        refine ⟨h Bash.plain, (h Bash.plain).elim (fun hnone => Or.inl ?_) fun hnum => ?_⟩
        · rw [hnone]
          exact fun x hx => absurd hx List.not_mem_nil
        · exact Or.inr (Or.inr hnum)
      · exact fun h _ => h.1

/-- The scripts select the slice just when there are as many disks as are to be left out, or none
at all, or none is wanted; the kickstart script, whose array has no order, moreover just when it
sorts the disks, or there is only one, or the slice is empty. -/
theorem disk_selection_iff (expr_match : String → String → Bool) (o : Selection)
    (kinv : Inventory kickstart) (sinv : Inventory suse) :
    ((∀ b, SelectsSlice b o (kinv.matching expr_match o) (kickstartSelect b o expr_match kinv)) ↔
      o.Reaches (kinv.matching expr_match o) ∧
      (o.sort_disks = true ∨
        (∀ x ∈ kinv.matching expr_match o, ∀ y ∈ kinv.matching expr_match o, x = y) ∨
        o.offset = (kinv.matching expr_match o).length ∨ o.disk_num = some 0)) ∧
    ((∀ b, SelectsSlice b o (sinv.matching expr_match o) (suseSelect b o expr_match sinv)) ↔
      o.Reaches (sinv.matching expr_match o)) := by
  constructor
  · simp only [kickstart_selectsSlice_iff]
    have hperm (b : Bash) : (b.values (if o.sort_disks then 118 else 120)
        (kickstartSearch expr_match o kinv).partition_disks.1).Perm (kinv.matching expr_match o) :=
      kickstartSearch_values_perm b _ kinv
    exact forall_values_iff o hperm
  · simp only [suse_selectsSlice_iff, suseSearch_eq, sortedDisks_eq_slice_iff]
    exact ⟨fun h => h Bash.plain, fun h _ => h⟩

theorem plain_of_no_link : ∀ l ∈ ([] : List Link), IsPlain l.path_name ∧ IsPlain l.disk_name :=
  nofun

/-- Drives without links. -/
def plainDrives (s : Script) (disk_names : List String)
    (h : ∀ n ∈ disk_names, IsPlain n ∧ s.key n = n) : Inventory s :=
  ⟨[], disk_names, plain_of_no_link, h, List.nodup_nil, nofun⟩

/-- All disks but the first two, which are to be kept. -/
def fromThird : Selection := ⟨false, "", false, some 3, none, true⟩

/-- The first disk only. -/
def firstOnly : Selection := ⟨false, "", false, none, some 1, true⟩

def oneDrive : Inventory kickstart := plainDrives kickstart ["vda"] (by decide)

def oneSuseDrive : Inventory suse := plainDrives suse ["vda"] (by decide)

def twoDrives : Inventory kickstart := plainDrives kickstart ["vda", "vdb"] (by decide)

/-- Both scripts zero the only disk, which they should leave alone, and the kickstart script takes
the second one for the first. -/
theorem drives_not_sliced :
    ¬ SelectsSlice Bash.plain fromThird (oneDrive.matching (fun _ _ => true) fromThird)
      (kickstartSelect Bash.plain fromThird (fun _ _ => true) oneDrive) ∧
    ¬ SelectsSlice Bash.plain fromThird (oneSuseDrive.matching (fun _ _ => true) fromThird)
      (suseSelect Bash.plain fromThird (fun _ _ => true) oneSuseDrive) ∧
    ¬ SelectsSlice (Bash.plain.moveKey "1" 0) firstOnly
      (twoDrives.matching (fun _ _ => true) firstOnly)
      (kickstartSelect (Bash.plain.moveKey "1" 0) firstOnly (fun _ _ => true) twoDrives) := by
  refine ⟨fun h => ?_, fun h => ?_, fun h => ?_⟩
  · exact absurd h.1 (by decide +kernel)
  · exact absurd h.1 (by decide +kernel)
  · exact absurd h.1 (by decide +kernel)

end Slice

end CompassAdapters.Partition
