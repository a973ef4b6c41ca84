import CompassAdapters.Partition.Lvm
import CompassAdapters.Shell.Arrays
import CompassAdapters.Shell.Regex
import CompassAdapters.Shell.Words
import Mathlib.Data.List.Nodup
import Mathlib.Data.List.Perm.Basic

/-! The post-partition scripts: the space that was held back by the volume group `reserved`
(kickstart, preseed) or under a label `reserved_*` (SUSE) is given back. -/
namespace CompassAdapters.Partition
open Shell

/-- `sed -e 's/^\(.*\)\([0-9]\+\)$/\1 \2/g'`. -/
def sedSplit (partition : String) : String :=
  match greedySplit Char.isDigit partition.toList with
  | some (disk, number) => String.ofList disk ++ " " ++ String.ofList number
  | none => partition

/-- `set $(echo P | sed …)` and the `parted` call. A partition is never blank, so `set`
replaces whatever parameters there were. -/
def rmPartition (partition : String) : List Command :=
  let params := setParams [] (words (sedSplit partition))
  let partition_disk := param params 1
  let partition_number := param params 2
  if partition_disk = "" ∨ partition_number = "" then []
  else [.partedRm partition_disk partition_number]

/-! ### Kickstart and preseed -/

structure Removal where
  remove_partitions : String
  vg_remove : Bool

/-- The first loop; `split` cuts a field of the table into `partition` and `vg`. -/
def selectReserved (split : String → String × String) (partitions : List String) : Removal :=
  partitions.foldl (fun acc partition =>
    let (partition, vg) := split partition
    if vg = "reserved" then ⟨acc.remove_partitions ++ " " ++ partition, true⟩ else acc)
    ⟨"", false⟩

def removeReserved (split : String → String × String) (partitions : List String) :
    List Command :=
  let removal := selectReserved split partitions
  (if removal.vg_remove then [.vgremove "reserved"] else []) ++
    (words removal.remove_partitions).flatMap fun partition =>
      .pvremove partition :: rmPartition partition

/-- `partition_vg=(${partition//:/ })`. -/
def kickstartSplit (partition : String) : String × String :=
  let partition_vg := IndexedArray.ofWords (words (translate ':' ' ' partition))
  (partition_vg.elem 0, partition_vg.elem 1)

def kickstartPostPartitionDisks (rows : List PvRow) : List Command :=
  removeReserved kickstartSplit (rows.map PvRow.field)

/-- `set $(echo $partition | tr ':' ' ')`. -/
def preseedSplit (partition : String) : String × String :=
  let params := setParams [] (words (translate ':' ' ' partition))
  (param params 1, param params 2)

def preseedPostPartitionDisks (rows : List PvRow) : List Command :=
  removeReserved preseedSplit (rows.map PvRow.field)

/-! ### SUSE -/

/-- Variable names joined by `-`, as in `sda5` and `system-root`. -/
def isSubscript (name : String) : Bool :=
  (name.toList.splitOnP (· == '-')).all fun part =>
    part.all (fun c => c.isAlphanum || c == '_') && part.head?.any (fun c => !c.isDigit)

/-- A row of `lsblk -n -r -o NAME,LABEL`; the raw format escapes blanks in a label. -/
structure LsblkRow where
  name : String
  label : String
  name_word : IsWord name
  name_subscript : isSubscript name = true
  label_blank : ∀ c ∈ label.toList, isBlank c = false

def LsblkRow.line (row : LsblkRow) : String := row.name ++ " " ++ row.label

/-- `grep 'reserved_.*'`. -/
def grepReserved (line : String) : Bool := grep "reserved_" line

/-- `cut -d' ' -f1`. -/
def cutFirst (line : String) : String := String.ofList (line.toList.takeWhile (· != ' '))

/-- No shell variable has the name of a partition. -/
def suseRemovePartitions (params : List String) : IndexedArray :=
  params.foldl (fun remove_partitions partition_name =>
    remove_partitions.assign (IndexedArray.subscript IndexedArray.unsetVars partition_name).toNat
      ("/dev/" ++ partition_name)) []

def susePostPartitionDisks (rows : List LsblkRow) : List Command :=
  let params := setParams []
    (((rows.map LsblkRow.line).filter grepReserved).flatMap fun line => words (cutFirst line))
  (suseRemovePartitions params).values.flatMap fun partition =>
    if partition = "" then [] else .umount partition :: rmPartition partition

/-! ### The split of a device name -/

/-- A partition that holds reserved space: the name of its disk and its number. -/
structure ReservedPartition where
  disk : String
  number : ℕ
  disk_word : IsWord disk
  disk_end : ∀ c, disk.toList.getLast? = some c → c.isDigit = false
  number_pos : 1 ≤ number

namespace ReservedPartition

def device (p : ReservedPartition) : String := p.disk ++ p.number.repr

/-- The call that deletes it. -/
def call (p : ReservedPartition) : String × String := (p.disk, p.number.repr)

@[simp] theorem call_snd (p : ReservedPartition) : p.call.2 = p.number.repr := rfl

end ReservedPartition

theorem repr_length_eq_one_iff (n : ℕ) : n.repr.toList.length = 1 ↔ n < 10 := by
  have hne : n.repr.toList ≠ [] := by
    rw [Nat.toList_repr]
    exact Nat.toDigits_ne_nil
  have hpos := List.length_pos_iff.mpr hne
  have hle : n.repr.toList.length ≤ 1 ↔ n < 10 := by
    rw [Nat.toList_repr]
    simpa using Nat.length_toDigits_le_iff (b := 10) (k := 1) (n := n) (by omega) (by omega)
  omega

theorem isDigit_of_mem_repr {n : ℕ} {c : Char} (hc : c ∈ n.repr.toList) : c.isDigit = true := by
  rw [Nat.toList_repr] at hc
  exact Nat.isDigit_of_mem_toDigits (by omega) (by omega) hc

theorem isDigit_not_blank {c : Char} (hc : c.isDigit = true) : isBlank c = false := by
  rw [Bool.eq_false_iff]
  intro hb
  simp only [isBlank, Bool.or_eq_true, beq_iff_eq] at hb
  rcases hb with (rfl | rfl) | rfl <;> exact absurd hc (by decide)

/-- The greedy first group leaves one digit to the second. -/
theorem sedSplit_concat (name : String) (cs : List Char) (c : Char)
    (h : name.toList = cs ++ [c]) :
    sedSplit name = if c.isDigit then String.ofList cs ++ " " ++ String.ofList [c] else name := by
  rw [sedSplit, h, greedySplit_concat]
  split <;> simp_all

theorem partedCalls_rmPartition {name : String} (hname : IsWord name) {cs : List Char} {c : Char}
    (h : name.toList = cs ++ [c]) (hcs : cs ≠ []) :
    partedCalls (rmPartition name) =
      if c.isDigit then [(String.ofList cs, String.ofList [c])] else [] := by
  by_cases hc : c.isDigit = true
  · have hdisk : IsWord (String.ofList cs) := by
      refine ⟨by simpa using hcs, fun d hd => hname.no_blank d ?_⟩
      rw [h]
      exact List.mem_append_left _ (by simpa using hd)
    have hnumber : IsWord (String.ofList [c]) := by
      refine ⟨by simp, fun d hd => hname.no_blank d ?_⟩
      rw [h]
      exact List.mem_append_right _ (by simpa using hd)
    have hwords : words (sedSplit name) = [String.ofList cs, String.ofList [c]] := by
      rw [sedSplit_concat name cs c h, if_pos hc, words_append_space, words_of_isWord hdisk,
        words_of_isWord hnumber]
      rfl
    simp [rmPartition, hwords, setParams, param, hcs, hc, partedCalls, Command.partedRm?]
  · have hwords : words (sedSplit name) = [name] := by
      rw [sedSplit_concat name cs c h, if_neg hc, words_of_isWord hname]
    simp [rmPartition, hwords, setParams, param, hc, partedCalls]

namespace ReservedPartition

theorem device_word (p : ReservedPartition) : IsWord p.device :=
  isWord_append p.disk_word fun _ hc => isDigit_not_blank (isDigit_of_mem_repr hc)

/-- The last digit of the number is all that the split hands to `parted`. -/
theorem exists_lastDigit (p : ReservedPartition) : ∃ ds c, c.isDigit = true ∧
    p.number.repr.toList = ds ++ [c] ∧
    partedCalls (rmPartition p.device) =
      [(String.ofList (p.disk.toList ++ ds), String.ofList [c])] := by
  obtain ⟨ds, c, hrepr⟩ : ∃ ds c, p.number.repr.toList = ds ++ [c] := by
    refine ⟨_, _, (List.dropLast_append_getLast ?_).symm⟩
    rw [Nat.toList_repr]
    exact Nat.toDigits_ne_nil
  have hc : c.isDigit = true := isDigit_of_mem_repr (by rw [hrepr]; simp)
  have hdisk : p.disk.toList ≠ [] := fun he => p.disk_word.ne_empty (String.toList_eq_nil_iff.mp he)
  have hdevice : p.device.toList = p.disk.toList ++ ds ++ [c] := by
    simp [device, hrepr]
  refine ⟨ds, c, hc, hrepr, ?_⟩
  rw [partedCalls_rmPartition p.device_word hdevice (by simp [hdisk]), if_pos hc]

theorem partedCalls_device {p : ReservedPartition} (h : p.number < 10) :
    partedCalls (rmPartition p.device) = [p.call] := by
  obtain ⟨ds, c, -, hrepr, hcalls⟩ := p.exists_lastDigit
  have hlen := (repr_length_eq_one_iff p.number).mpr h
  obtain rfl : ds = [] := by
    rw [hrepr] at hlen
    simpa using hlen
  have hnum : p.number.repr = String.ofList [c] := by
    rw [← String.ofList_toList (s := p.number.repr), hrepr]
    rfl
  simp [hcalls, call, hnum, String.ofList_toList]

theorem number_length_of_mem_calls {p : ReservedPartition} {call : String × String}
    (h : call ∈ partedCalls (rmPartition p.device)) : call.2.toList.length = 1 := by
  obtain ⟨ds, c, -, -, hcalls⟩ := p.exists_lastDigit
  rw [hcalls, List.mem_singleton] at h
  simp [h]

end ReservedPartition

/-- Exactly the partitions of the list are deleted, each of them once. -/
def DeletesExactly (cs : List Command) (parts : List ReservedPartition) : Prop :=
  (partedCalls cs).Perm (parts.map ReservedPartition.call)

def OneDigit (parts : List ReservedPartition) : Prop := ∀ p ∈ parts, p.number < 10

theorem flatMap_partedCalls_perm_iff (parts : List ReservedPartition) :
    (parts.flatMap fun p => partedCalls (rmPartition p.device)).Perm
      (parts.map ReservedPartition.call) ↔ OneDigit parts := by
  constructor
  · intro hperm p hp
    have hmem : p.call ∈ parts.flatMap fun p => partedCalls (rmPartition p.device) :=
      hperm.mem_iff.mpr (List.mem_map_of_mem hp)
    obtain ⟨q, -, hq⟩ := List.mem_flatMap.mp hmem
    have hlen := ReservedPartition.number_length_of_mem_calls hq
    rw [ReservedPartition.call_snd] at hlen
    exact (repr_length_eq_one_iff p.number).mp hlen
  · intro hdigit
    apply List.Perm.of_eq
    rw [List.map_eq_flatMap]
    apply List.flatMap_congr
    intro p hp
    exact ReservedPartition.partedCalls_device (hdigit p hp)

/-! ### The scripts -/

namespace PvRow

def reserved (row : PvRow) : Bool := row.vg == "reserved"

theorem translate_field (row : PvRow) : translate ':' ' ' row.field = row.pv ++ " " ++ row.vg := by
  have hcolon : translate ':' ' ' ":" = " " := by decide
  rw [field, translate_append, translate_append, translate_of_not_mem _ row.pv_colon,
    translate_of_not_mem _ row.vg_colon, hcolon]

theorem words_translate_field (row : PvRow) :
    words (translate ':' ' ' row.field) = row.pv :: if row.vg = "" then [] else [row.vg] := by
  rw [translate_field, words_append_space, words_of_isWord row.pv_word,
    words_of_no_blank row.vg_blank]
  rfl

theorem kickstartSplit_field (row : PvRow) : kickstartSplit row.field = (row.pv, row.vg) := by
  rw [kickstartSplit, words_translate_field]
  split <;> simp_all [IndexedArray.ofWords, IndexedArray.elem]

theorem preseedSplit_field (row : PvRow) : preseedSplit row.field = (row.pv, row.vg) := by
  rw [preseedSplit, words_translate_field]
  split <;> simp_all [setParams, param]

end PvRow

section Volumes
variable {split : String → String × String}
  (hsplit : ∀ row : PvRow, split row.field = (row.pv, row.vg))
include hsplit

theorem words_selectReserved (rows : List PvRow) :
    words (selectReserved split (rows.map PvRow.field)).remove_partitions =
      (rows.filter PvRow.reserved).map PvRow.pv := by
  have hloop (acc : Removal) :
      words ((rows.map PvRow.field).foldl (fun acc partition =>
        let (partition, vg) := split partition
        if vg = "reserved" then ⟨acc.remove_partitions ++ " " ++ partition, true⟩ else acc)
        acc).remove_partitions =
      words acc.remove_partitions ++ (rows.filter PvRow.reserved).map PvRow.pv := by
    induction rows generalizing acc with
    | nil => simp
    | cons row rows ih =>
      rw [List.map_cons, List.foldl_cons, ih]
      by_cases hvg : row.vg = "reserved"
      · simp [hsplit, hvg, PvRow.reserved, words_append_space, words_of_isWord row.pv_word]
      · simp [hsplit, hvg, PvRow.reserved]
  rw [selectReserved, hloop]
  simp

theorem removeReserved_deletesExactly_iff {rows : List PvRow} {parts : List ReservedPartition}
    (hparts : (rows.filter PvRow.reserved).map PvRow.pv = parts.map ReservedPartition.device) :
    DeletesExactly (removeReserved split (rows.map PvRow.field)) parts ↔ OneDigit parts := by
  have hcalls : partedCalls (removeReserved split (rows.map PvRow.field)) =
      parts.flatMap fun p => partedCalls (rmPartition p.device) := by
    rw [removeReserved, partedCalls_append, partedCalls_flatMap, words_selectReserved hsplit,
      hparts, List.flatMap_map]
    have hvg (b : Bool) : partedCalls (if b then [.vgremove "reserved"] else []) = [] := by
      cases b <;> rfl
    rw [hvg, List.nil_append]
    simp only [partedCalls_pvremove]
  rw [DeletesExactly, hcalls]
  exact flatMap_partedCalls_perm_iff parts

end Volumes

namespace LsblkRow

def path (row : LsblkRow) : String := "/dev/" ++ row.name

/-- Labelled `reserved_*`. -/
def reserved (row : LsblkRow) : Bool := decide ("reserved_".toList <+: row.label.toList)

def endsInDigit (row : LsblkRow) : Bool := row.name.toList.getLast?.any Char.isDigit

/-- The row that the last line let through by `grep` comes from. -/
def lastSelected (rows : List LsblkRow) : Option LsblkRow :=
  (rows.filter fun row => grepReserved row.line).getLast?

theorem grepReserved_of_reserved {row : LsblkRow} (h : row.reserved = true) :
    grepReserved row.line = true := by
  exact grep_append (row.name ++ " ") (of_decide_eq_true h)

theorem words_cutFirst (row : LsblkRow) : words (cutFirst row.line) = [row.name] := by
  have hname : ∀ c ∈ row.name.toList, (c != ' ') = true := by
    intro c hc
    rw [bne_iff_ne]
    rintro rfl
    exact absurd (row.name_word.no_blank ' ' hc) (by decide)
  have hcut : cutFirst row.line = row.name := by
    rw [cutFirst, line]
    simp [List.takeWhile_append_of_pos hname, String.ofList_toList]
  rw [hcut, words_of_isWord row.name_word]

theorem path_word (row : LsblkRow) : IsWord row.path :=
  isWord_append (by decide) row.name_word.no_blank

theorem lastSelected_mem {rows : List LsblkRow} {row : LsblkRow}
    (h : lastSelected rows = some row) : row ∈ rows :=
  (List.mem_filter.mp (List.mem_of_getLast? h)).1

/-- `reserved_*` labels are among what `grep` lets through. -/
theorem lastSelected_eq_none {rows : List LsblkRow} (h : lastSelected rows = none) :
    rows.filter reserved = [] := by
  rw [lastSelected, List.getLast?_eq_none_iff, List.filter_eq_nil_iff] at h
  rw [List.filter_eq_nil_iff]
  intro row hrow hres
  exact h row hrow (grepReserved_of_reserved hres)

end LsblkRow

theorem params_suse (rows : List LsblkRow) :
    setParams [] (((rows.map LsblkRow.line).filter grepReserved).flatMap
      fun line => words (cutFirst line)) =
      (rows.filter fun row => grepReserved row.line).map LsblkRow.name := by
  have hset (ws : List String) : setParams [] ws = ws := by
    unfold setParams
    split <;> simp_all
  rw [hset, List.filter_map, List.flatMap_map, List.map_eq_flatMap]
  apply List.flatMap_congr
  intro row _
  exact row.words_cutFirst

/-- Every partition is stored under the subscript 0, so the last one alone is left. -/
theorem susePostPartitionDisks_eq (rows : List LsblkRow) :
    susePostPartitionDisks rows = (LsblkRow.lastSelected rows).toList.flatMap fun row =>
      .umount row.path :: rmPartition row.path := by
  have hvalues : (suseRemovePartitions ((rows.filter fun row => grepReserved row.line).map
      LsblkRow.name)).values = (LsblkRow.lastSelected rows).toList.map LsblkRow.path := by
    have hzero : (0 : ℤ).toNat = 0 := rfl
    simp only [suseRemovePartitions, IndexedArray.subscript_unsetVars, hzero]
    rw [← List.foldl_map (g := fun a w => IndexedArray.assign a 0 w), List.map_map,
      IndexedArray.values_foldl_assign_zero, LsblkRow.lastSelected, List.getLast?_map]
    cases (rows.filter fun row => grepReserved row.line).getLast? <;> rfl
  rw [susePostPartitionDisks, params_suse, hvalues, List.flatMap_map]
  apply List.flatMap_congr
  intro row _
  rw [if_neg row.path_word.ne_empty]

theorem partedCalls_suse_none {rows : List LsblkRow} (h : LsblkRow.lastSelected rows = none) :
    partedCalls (susePostPartitionDisks rows) = [] := by
  rw [susePostPartitionDisks_eq, h]
  rfl

theorem partedCalls_suse_some {rows : List LsblkRow} {row : LsblkRow}
    (h : LsblkRow.lastSelected rows = some row) :
    partedCalls (susePostPartitionDisks rows) = partedCalls (rmPartition row.path) := by
  rw [susePostPartitionDisks_eq, h]
  simp

/-- What is handed to `parted` is the path again, cut before its last digit. -/
theorem LsblkRow.partedCalls_path (row : LsblkRow) :
    (row.endsInDigit = false ∧ partedCalls (rmPartition row.path) = []) ∨
    (row.endsInDigit = true ∧ ∃ call, partedCalls (rmPartition row.path) = [call] ∧
      call.1 ++ call.2 = row.path ∧ call.2.toList.length = 1) := by
  obtain ⟨ds, c, hname⟩ : ∃ ds c, row.name.toList = ds ++ [c] := by
    refine ⟨_, _, (List.dropLast_append_getLast ?_).symm⟩
    exact fun he => row.name_word.ne_empty (String.toList_eq_nil_iff.mp he)
  have hpath : row.path.toList = "/dev/".toList ++ ds ++ [c] := by simp [path, hname]
  have hcalls := partedCalls_rmPartition row.path_word hpath (by simp)
  have hend : row.endsInDigit = c.isDigit := by simp [endsInDigit, hname]
  by_cases hc : c.isDigit = true
  · right
    refine ⟨hend.trans hc, _, hcalls.trans (if_pos hc), ?_, by simp⟩
    rw [← String.ofList_append, ← hpath, String.ofList_toList]
  · left
    exact ⟨hend.trans (Bool.eq_false_iff.mpr hc), hcalls.trans (if_neg hc)⟩

/-- At most one partition is labelled, and if `grep` lets through a line after the labelled
ones (a label with `reserved_` inside it), nothing is labelled and that line names no partition. -/
structure LoneLabel (rows : List LsblkRow) (parts : List ReservedPartition) : Prop where
  digit : OneDigit parts
  length : parts.length ≤ 1
  last : ∀ row, LsblkRow.lastSelected rows = some row → row.reserved = false →
    parts = [] ∧ row.endsInDigit = false

section Labels
variable {rows : List LsblkRow} {parts : List ReservedPartition}
  (hnames : (rows.map LsblkRow.name).Nodup)
  (hparts : (rows.filter LsblkRow.reserved).map LsblkRow.path =
    parts.map ReservedPartition.device)
include hparts

theorem suse_deletesExactly_of_loneLabel (h : LoneLabel rows parts) :
    DeletesExactly (susePostPartitionDisks rows) parts := by
  rw [DeletesExactly]
  cases hlast : LsblkRow.lastSelected rows with
  | none =>
    rw [LsblkRow.lastSelected_eq_none hlast, List.map_nil, eq_comm, List.map_eq_nil_iff] at hparts
    rw [partedCalls_suse_none hlast, hparts]
    exact List.Perm.nil
  | some row =>
    rw [partedCalls_suse_some hlast]
    by_cases hres : row.reserved = true
    · have hmem : row.path ∈ parts.map ReservedPartition.device := by
        rw [← hparts]
        exact List.mem_map_of_mem
          (List.mem_filter.mpr ⟨LsblkRow.lastSelected_mem hlast, hres⟩)
      obtain ⟨p, hp, hdevice⟩ := List.mem_map.mp hmem
      obtain rfl : parts = [p] := by
        obtain ⟨q, rfl⟩ := List.length_eq_one_iff.mp
          (Nat.le_antisymm h.length (List.length_pos_of_mem hp))
        rw [List.mem_singleton] at hp
        rw [hp]
      rw [← hdevice, ReservedPartition.partedCalls_device (h.digit p hp)]
      exact List.Perm.refl _
    · obtain ⟨rfl, hend⟩ := h.last row hlast (Bool.eq_false_iff.mpr hres)
      rcases row.partedCalls_path with ⟨-, hcalls⟩ | ⟨hd, -⟩
      · rw [hcalls]
        exact List.Perm.nil
      · rw [hend] at hd
        cases hd

include hnames in
theorem loneLabel_of_suse_deletesExactly
    (h : DeletesExactly (susePostPartitionDisks rows) parts) : LoneLabel rows parts := by
  rw [DeletesExactly] at h
  cases hlast : LsblkRow.lastSelected rows with
  | none =>
    rw [partedCalls_suse_none hlast, List.nil_perm, List.map_eq_nil_iff] at h
    subst h
    exact ⟨by simp [OneDigit], by simp, by simp [hlast]⟩
  | some row =>
    rw [partedCalls_suse_some hlast] at h
    rcases row.partedCalls_path with ⟨hend, hcalls⟩ | ⟨-, call, hcalls, hpath, hlen⟩
    · rw [hcalls, List.nil_perm, List.map_eq_nil_iff] at h
      subst h
      refine ⟨by simp [OneDigit], by simp, fun r hr _ => ⟨rfl, ?_⟩⟩
      rw [hlast, Option.some.injEq] at hr
      rw [← hr, hend]
    · rw [hcalls, List.singleton_perm, eq_comm, List.map_eq_singleton_iff] at h
      obtain ⟨p, rfl, rfl⟩ := h
      refine ⟨?_, by simp, fun r hr hres => ?_⟩
      · intro q hq
        rw [List.mem_singleton] at hq
        rw [hq]
        exact (repr_length_eq_one_iff p.number).mp hlen
      · -- the labelled row has the same name, so it is the last one
        obtain ⟨r', hr', hr'p⟩ : ∃ r' ∈ rows.filter LsblkRow.reserved, r'.path = p.device := by
          have hmem : p.device ∈ (rows.filter LsblkRow.reserved).map LsblkRow.path := by
            rw [hparts]
            simp
          exact List.mem_map.mp hmem
        rw [List.mem_filter] at hr'
        rw [hlast, Option.some.injEq] at hr
        subst hr
        have hname : r'.name = row.name := by
          have hdev : "/dev/" ++ r'.name = "/dev/" ++ row.name := hr'p.trans hpath
          exact String.append_right_inj _ |>.mp hdev
        have heq : r' = row :=
          List.inj_on_of_nodup_map hnames hr'.1 (LsblkRow.lastSelected_mem hlast) hname
        rw [heq, hres] at hr'
        cases hr'.2

end Labels

/-- The reserved space of a machine as the three scripts find it: the group `reserved` in the
table of `pvs`, or the labels in that of `lsblk`, which names each device once. -/
theorem postPartitionDisks_exact_iff (pvs : List PvRow) (lsblk : List LsblkRow)
    (volumes labels : List ReservedPartition)
    (hvolumes : (pvs.filter PvRow.reserved).map PvRow.pv =
      volumes.map ReservedPartition.device)
    (hlabels : (lsblk.filter LsblkRow.reserved).map LsblkRow.path =
      labels.map ReservedPartition.device)
    (hnames : (lsblk.map LsblkRow.name).Nodup) :
    (DeletesExactly (kickstartPostPartitionDisks pvs) volumes ↔ OneDigit volumes) ∧
    (DeletesExactly (preseedPostPartitionDisks pvs) volumes ↔ OneDigit volumes) ∧
    (DeletesExactly (susePostPartitionDisks lsblk) labels ↔ LoneLabel lsblk labels) :=
  ⟨removeReserved_deletesExactly_iff PvRow.kickstartSplit_field hvolumes,
    removeReserved_deletesExactly_iff PvRow.preseedSplit_field hvolumes,
    loneLabel_of_suse_deletesExactly hnames hlabels, suse_deletesExactly_of_loneLabel hlabels⟩

private def pvSda12 : PvRow := ⟨"/dev/sda12", "reserved", by decide, by decide, by decide, by decide⟩
private def pvSda5 : PvRow := ⟨"/dev/sda5", "reserved", by decide, by decide, by decide, by decide⟩
private def pvSda6 : PvRow := ⟨"/dev/sda6", "reserved", by decide, by decide, by decide, by decide⟩
private def pvSdb1 : PvRow := ⟨"/dev/sdb1", "", by decide, by decide, by decide, by decide⟩
private def sda5Row : LsblkRow := ⟨"sda5", "reserved_1", by decide, by decide, by decide⟩
private def sda6Row : LsblkRow := ⟨"sda6", "reserved_2", by decide, by decide, by decide⟩
private def rootRow : LsblkRow := ⟨"system-root", "", by decide, by decide, by decide⟩

/-- Partition `number` of `/dev/sda`. -/
private def onSda (number : ℕ) (h : 1 ≤ number) : ReservedPartition :=
  ⟨"/dev/sda", number, by decide, by rintro _ ⟨⟩; rfl, h⟩

/-- Partition 12 of `sda` is cut into `/dev/sda1` and 2; of two labels one is left out. -/
theorem sda12_and_twoLabels_missed :
    (([pvSda12].filter PvRow.reserved).map PvRow.pv =
        [onSda 12 (by decide)].map ReservedPartition.device ∧
      partedCalls (kickstartPostPartitionDisks [pvSda12]) = [("/dev/sda1", "2")] ∧
      ¬ DeletesExactly (kickstartPostPartitionDisks [pvSda12]) [onSda 12 (by decide)]) ∧
    ([sda5Row, sda6Row].filter LsblkRow.reserved).map LsblkRow.path =
        [onSda 5 (by decide), onSda 6 (by decide)].map ReservedPartition.device ∧
      ¬ DeletesExactly (susePostPartitionDisks [sda5Row, sda6Row])
        [onSda 5 (by decide), onSda 6 (by decide)] := by
  have hsda : partedCalls (kickstartPostPartitionDisks [pvSda12]) = [("/dev/sda1", "2")] := by
    decide
  have hsuse : partedCalls (susePostPartitionDisks [sda5Row, sda6Row]) = [("/dev/sda", "6")] := by
    decide
  refine ⟨⟨by decide, hsda, ?_⟩, by decide, ?_⟩
  · rw [DeletesExactly, hsda]
    decide
  · rw [DeletesExactly, hsuse]
    decide

/-- Two partitions are deleted by the first two scripts, and one of them by the third. -/
theorem postPartitionDisks_exact_iff_twoPartitions :
    DeletesExactly (kickstartPostPartitionDisks [pvSda5, pvSdb1, pvSda6])
      [onSda 5 (by decide), onSda 6 (by decide)] ∧
    DeletesExactly (preseedPostPartitionDisks [pvSda5, pvSdb1, pvSda6])
      [onSda 5 (by decide), onSda 6 (by decide)] ∧
    (DeletesExactly (susePostPartitionDisks [sda5Row, rootRow, sda6Row])
      [onSda 5 (by decide), onSda 6 (by decide)] ↔
        LoneLabel [sda5Row, rootRow, sda6Row] [onSda 5 (by decide), onSda 6 (by decide)]) := by
  have hdigits : OneDigit [onSda 5 (by decide), onSda 6 (by decide)] := by
    rw [OneDigit]
    decide
  obtain ⟨hkickstart, hpreseed, hsuse⟩ := postPartitionDisks_exact_iff [pvSda5, pvSdb1, pvSda6]
    [sda5Row, rootRow, sda6Row] [onSda 5 (by decide), onSda 6 (by decide)]
    [onSda 5 (by decide), onSda 6 (by decide)] (by decide) (by decide) (by decide)
  exact ⟨hkickstart.mpr hdigits, hpreseed.mpr hdigits, hsuse⟩

end CompassAdapters.Partition
