import CompassAdapters.Partition.KickstartLayout

/-! How often the layout of the kickstart script defines a mount point. -/
namespace CompassAdapters.Partition.KickstartLayout
open Shell Python

/-- The mount point of a field of `partition`, if it is accepted. -/
def mountPoint (vol_and_size : String) : Option String :=
  (splitOnce ' ' vol_and_size).bind fun (vol, _) =>
    if (volname (strip vol)).isSome then some (strip vol) else none

/-- The accepted mount points of the option. -/
def mountPoints (o : Options) : List String := (fields o.partition).filterMap mountPoint

def Line.defines (mount : String) (line : Line) : Bool :=
  (line.command == "part" || line.command == "logvol") && line.name == mount

/-- How many lines define the mount point. -/
def definitions (mount : String) (lines : List Line) : ℕ := lines.countP (Line.defines mount)

/-- The mount points of a layout: the listed ones, the root and the two hard-wired ones. -/
def layoutMounts (o : Options) : List String := "/" :: "/boot" :: "swap" :: mountPoints o

/-- Options that list each mount point once, with the default partition among them. -/
structure Request extends Options where
  mounts_nodup : (mountPoints toOptions).Nodup
  mounts_word : ∀ m ∈ mountPoints toOptions, IsWord m
  default_mem : default_partition ∈ "/" :: mountPoints toOptions

section Arrays

theorem volname_eq_none : volname "" = none := rfl

/-- What is stored for a mount point is the name of its volume. -/
def Named (names : AssocArray) : Prop := ∀ x ∈ names.keys, volname x = some (names.get x)

theorem setVolume_names {arrays arrays' : Arrays} {f : String}
    (h : setVolume arrays f = some arrays') (hnamed : Named arrays.partitions_name) :
    Named arrays'.partitions_name ∧ ∀ x, x ∈ arrays'.partitions_name.keys ↔
      x ∈ arrays.partitions_name.keys ∨ mountPoint f = some x := by
  unfold setVolume at h
  unfold mountPoint
  cases hsplit : splitOnce ' ' f with
  | none =>
    rw [hsplit] at h
    cases h
  | some pair =>
    obtain ⟨vol, size⟩ := pair
    rw [hsplit] at h
    simp only [Option.bind_some] at h ⊢
    split at h
    next hnone =>
      cases h
      refine ⟨hnamed, fun x => ?_⟩
      simp [hnone]
    next name hname =>
      have hvol : strip vol ≠ "" := by
        intro he
        rw [he, volname_eq_none] at hname
        cases hname
      have hnames : arrays'.partitions_name = arrays.partitions_name.assign (strip vol) name := by
        split at h
        next => rw [← Option.some.inj h]
        next =>
          obtain ⟨size', -, harrays⟩ := Option.map_eq_some_iff.mp h
          rw [← harrays]
      rw [hnames]
      constructor
      · intro x hx
        rw [AssocArray.mem_keys_assign _ hvol] at hx
        rw [AssocArray.get_assign _ hvol]
        by_cases he : x = strip vol
        · rw [he, Function.update_self, hname]
        · rw [Function.update_of_ne he]
          exact hnamed x (hx.resolve_left he)
      · intro x
        rw [AssocArray.mem_keys_assign _ hvol, hname, Option.isSome_some, if_pos rfl,
          Option.some_inj, or_comm, eq_comm]

theorem readArrays_names {o : Options} {arrays : Arrays} (h : readArrays o = some arrays) :
    Named arrays.partitions_name ∧ ∀ x, x ∈ arrays.partitions_name.keys ↔ x ∈ mountPoints o := by
  have hloop (fs : List String) (arrays arrays' : Arrays)
      (h : fs.foldlM setVolume arrays = some arrays') (hnamed : Named arrays.partitions_name) :
      Named arrays'.partitions_name ∧ ∀ x, x ∈ arrays'.partitions_name.keys ↔
        x ∈ arrays.partitions_name.keys ∨ x ∈ fs.filterMap mountPoint := by
    induction fs generalizing arrays with
    | nil =>
      cases h
      simpa using hnamed
    | cons f fs ih =>
      rw [List.foldlM_cons] at h
      obtain ⟨next, hnext, hrest⟩ := Option.bind_eq_some_iff.mp h
      obtain ⟨hnamed', hkeys⟩ := setVolume_names hnext hnamed
      obtain ⟨hnamed'', hkeys'⟩ := ih next hrest hnamed'
      refine ⟨hnamed'', fun x => ?_⟩
      rw [hkeys', hkeys, or_assoc, List.mem_filterMap, List.mem_filterMap, List.exists_mem_cons_iff]
  unfold readArrays at h
  obtain ⟨volumes, hvolumes, h⟩ := Option.bind_eq_some_iff.mp h
  obtain ⟨sizes, -, h⟩ := Option.bind_eq_some_iff.mp h
  obtain ⟨maxsizes, -, rfl⟩ := Option.map_eq_some_iff.mp h
  obtain ⟨hnamed, hkeys⟩ := hloop _ _ _ hvolumes (by intro x hx; cases hx)
  refine ⟨hnamed, fun x => (hkeys x).trans ?_⟩
  show x ∈ (∅ : AssocArray).keys ∨ x ∈ mountPoints o ↔ x ∈ mountPoints o
  simp

/-- `boot` and `swap` are not the names of variables that the script uses, so that the two
`unset` commands leave the array as it is. -/
theorem unsetNamed_eq {arrays : Arrays} {key name : String} (hnamed : Named arrays.partitions_name)
    (hname : volname key = some name) (hword : IsWord name)
    (hunset : ∀ arrays : Arrays, arrays.unset name = arrays) : unsetNamed arrays key = arrays := by
  unfold unsetNamed
  by_cases hkey : key ∈ arrays.partitions_name.keys
  · have hget : arrays.partitions_name.get key = name :=
      Option.some.inj ((hnamed key hkey).symm.trans hname)
    rw [hget, words_of_isWord hword]
    exact hunset arrays
  · rw [AssocArray.get_of_not_mem hkey, words_empty]
    rfl

end Arrays

section Sorted

variable (b : Bash)

/-- The loop stores the keys other than the default partition under the next numbers. -/
theorem foldl_sorted (default : String) (ks : List String) (a : AssocArray) (n : ℕ) :
    (ks.foldl (fun (s : AssocArray × ℕ) key =>
      if key ≠ default then (s.1.assign (toString s.2) key, s.2 + 1) else s) (a, n)).1 =
    ((ks.filter (· ≠ default)).zipIdx n).foldl (fun a x => a.assign (toString x.2) x.1) a := by
  induction ks generalizing a n with
  | nil => rfl
  | cons key ks ih =>
    rw [List.foldl_cons]
    by_cases hkey : key = default
    · simp only [hkey, ne_eq, not_true_eq_false, if_false]
      rw [List.filter_cons_of_neg (by simp)]
      exact ih a n
    · simp only [ne_eq, hkey, not_false_eq_true, if_true]
      rw [List.filter_cons_of_pos (by simp [hkey]), List.zipIdx_cons, List.foldl_cons]
      exact ih _ _

theorem values_sortedPartitions (default : String) (names : AssocArray) :
    (b.values 515 (sortedPartitions b default names)).Perm
      (default :: (b.keys 508 names).filter (· ≠ default)) := by
  have hloop : sortedPartitions b default names =
      ((default :: (b.keys 508 names).filter (· ≠ default)).zipIdx).foldl
        (fun a x => a.assign (toString x.2) x.1) ∅ := by
    have hzero : toString 0 = "0" := by decide
    rw [sortedPartitions, foldl_sorted, List.zipIdx_cons, List.foldl_cons, hzero]
  have hnodup : (((default :: (b.keys 508 names).filter (· ≠ default)).zipIdx).map
      fun x => toString x.2).Nodup := by
    have hsnd : ((default :: (b.keys 508 names).filter (· ≠ default)).zipIdx).map
        (fun x => toString x.2) = (List.range' 0
          (default :: (b.keys 508 names).filter (· ≠ default)).length).map toString := by
      rw [← List.zipIdx_map_snd, List.map_map]
      rfl
    rw [hsnd]
    exact List.Nodup.map (fun _ _ => toString_injective) List.nodup_range'
  have hperm := b.values_foldl_assign_perm 515 (fun x : String × ℕ => toString x.2) Prod.fst
    (fun x _ => Nat.repr_ne_empty) hnodup
  rw [hloop]
  rwa [List.zipIdx_map_fst] at hperm

end Sorted

section Count

theorem definitions_append (mount : String) (xs ys : List Line) :
    definitions mount (xs ++ ys) = definitions mount xs + definitions mount ys :=
  List.countP_append

theorem definitions_cons (mount : String) (x : Line) (xs : List Line) :
    definitions mount (x :: xs) = definitions mount xs + if x.defines mount then 1 else 0 :=
  List.countP_cons

theorem definitions_logvol (o : Options) (arrays : Arrays) (mount : String) (keys : List String) :
    definitions mount (keys.map (logvolLine o arrays)) = keys.count mount := by
  rw [definitions, List.countP_map, List.count]
  apply List.countP_congr
  intro key _
  simp [Line.defines, logvolLine]

theorem definitions_volgroup (mount name : String) (parts : List String) :
    definitions mount (volgroupLine name parts) = 0 := by
  unfold volgroupLine
  split
  · rfl
  · rfl

/-- No mount point is called like a physical volume. -/
theorem definitions_disk {mount : String} (h : mount.toList.head? ≠ some 'p') (sizes : DiskSizes)
    (disks : List String) :
    definitions mount ((disks.zipIdx 1).flatMap fun x => diskLines sizes x.1 x.2) = 0 := by
  have hname (pre w : String) (hpre : pre.toList.head? = some 'p') : pre ++ w ≠ mount := by
    rintro rfl
    apply h
    rw [String.toList_append, List.head?_append, hpre]
    rfl
  rw [definitions, List.countP_eq_zero]
  intro line hline
  obtain ⟨x, -, hline⟩ := List.mem_flatMap.mp hline
  rw [diskLines, List.mem_cons] at hline
  rcases hline with rfl | hline
  · simpa [Line.defines] using hname "pv.0" _ rfl
  · split at hline
    · rw [List.mem_singleton.mp hline]
      simpa [Line.defines] using hname "pv.1" _ rfl
    · cases hline

theorem definitions_boot (o : Options) (arrays : Arrays) {disk mount : String}
    (h : mount ≠ "biosboot") : definitions mount (bootLines o arrays disk) =
      (if mount = "/boot" then 1 else 0) + if mount = "swap" then 1 else 0 := by
  have hnil : definitions mount [] = 0 := rfl
  have hother : ("biosboot" == mount) = false := beq_false_of_ne h.symm
  have hboot : ("/boot" == mount) = decide (mount = "/boot") := by grind
  have hswap : ("swap" == mount) = decide (mount = "swap") := by grind
  unfold bootLines
  simp [definitions_cons, Line.defines, hnil, hother, hboot, hswap, Nat.add_comm]

theorem head_of_mem_mounts {o : Options} {m : String} (h : m ∈ layoutMounts o) :
    m.toList.head? = some '/' ∨ m = "swap" := by
  rw [layoutMounts, List.mem_cons, List.mem_cons, List.mem_cons] at h
  rcases h with rfl | rfl | rfl | h
  · exact Or.inl rfl
  · exact Or.inl rfl
  · exact Or.inr rfl
  obtain ⟨f, -, hf⟩ := List.mem_filterMap.mp h
  obtain ⟨pair, -, hpair⟩ := Option.bind_eq_some_iff.mp hf
  simp only at hpair
  split at hpair
  next hsome =>
    rw [Option.some_inj] at hpair
    rw [hpair] at hsome
    unfold volname at hsome
    split at hsome
    next hroot => exact Or.inl (hroot ▸ rfl)
    next =>
      split at hsome
      next hswap => exact Or.inr hswap
      next =>
        split at hsome
        next path hpath =>
          rw [hpath]
          exact Or.inl rfl
        next => cases hsome
  next => cases hpair

end Count

section Main

variable {b : Bash} {r : Request}

/-- The keys of the array once the root is added. -/
theorem mem_keys_rooted {o : Options} {arrays : Arrays}
    (hkeys : ∀ x, x ∈ arrays.partitions_name.keys ↔ x ∈ mountPoints o) {names : AssocArray}
    (hnames : names = if arrays.partitions_name.get "/" = "" then
      arrays.partitions_name.assign "/" "root" else arrays.partitions_name) (x : String) :
    x ∈ names.keys ↔ x ∈ "/" :: mountPoints o := by
  rw [hnames, List.mem_cons, ← hkeys]
  split
  next => exact AssocArray.mem_keys_assign _ (by decide) _ _
  next hset =>
    have hmem : "/" ∈ arrays.partitions_name.keys := by
      by_contra hnot
      exact hset (AssocArray.get_of_not_mem hnot)
    constructor
    · exact Or.inr
    · rintro (rfl | hx)
      · exact hmem
      · exact hx

theorem Named.rooted {names : AssocArray} (hnamed : Named names) :
    Named (if names.get "/" = "" then names.assign "/" "root" else names) := by
  split
  next =>
    intro x hx
    rw [AssocArray.mem_keys_assign _ (by decide)] at hx
    rw [AssocArray.get_assign _ (by decide), Function.update_apply]
    split
    next hroot =>
      rw [hroot]
      rfl
    next hroot => exact hnamed x (hx.resolve_left hroot)
  next => exact hnamed

/-- The layout: lines for the first disk, for each disk, and for each of the sorted partitions,
which are the listed mount points and the root. -/
theorem partInclude_eq {o : Options} {disks : List String} {lines : List Line}
    (h : partInclude b o disks = some lines) :
    ∃ sizes arrays names, readDiskSizes o = some sizes ∧ readArrays o = some arrays ∧
      Named names ∧ (∀ x, x ∈ names.keys ↔ x ∈ "/" :: mountPoints o) ∧
      ∃ parts reserved, lines =
        ⟨"clearpart", "--all", ["--initlabel"]⟩ :: bootLines o arrays (disks.headD "") ++
          ((disks.zipIdx 1).flatMap fun (disk, pv_id) => diskLines sizes disk pv_id) ++
          volgroupLine o.vgname parts ++ volgroupLine "reserved" reserved ++
          ((b.values 515 (sortedPartitions b o.default_partition names)).flatMap words).map
            (logvolLine o { arrays with partitions_name := names }) := by
  obtain ⟨sizes, hsizes, h⟩ := Option.bind_eq_some_iff.mp h
  obtain ⟨arrays, harrays, rfl⟩ := Option.map_eq_some_iff.mp h
  obtain ⟨hnamed, hkeys⟩ := readArrays_names harrays
  have hboot : unsetNamed arrays "/boot" = arrays :=
    @unsetNamed_eq arrays "/boot" "boot" hnamed (by decide) (by decide) fun _ => rfl
  have hswap : unsetNamed arrays "swap" = arrays :=
    @unsetNamed_eq arrays "swap" "swap" hnamed (by decide) (by decide) fun _ => rfl
  have hrooted : (if arrays.partitions_name.get "/" = "" then
      { arrays with partitions_name := arrays.partitions_name.assign "/" "root" } else arrays) =
        { arrays with partitions_name := if arrays.partitions_name.get "/" = "" then
          arrays.partitions_name.assign "/" "root" else arrays.partitions_name } := by
    split
    · rfl
    · rfl
  simp only [hboot, hswap, hrooted]
  exact ⟨sizes, arrays, _, hsizes, harrays, hnamed.rooted, mem_keys_rooted hkeys rfl, _, _, rfl⟩

/-- The sorted partitions are the keys, each once. -/
theorem sortedPartitions_spec {names : AssocArray}
    (hnames : ∀ x, x ∈ names.keys ↔ x ∈ "/" :: mountPoints r.toOptions) :
    ((b.values 515 (sortedPartitions b r.default_partition names)).flatMap words).Nodup ∧
      ∀ m, m ∈ (b.values 515 (sortedPartitions b r.default_partition names)).flatMap words ↔
        m ∈ "/" :: mountPoints r.toOptions := by
  have hperm := values_sortedPartitions b r.default_partition names
  have hmem (x : String) : x ∈ r.default_partition :: (b.keys 508 names).filter
      (· ≠ r.default_partition) ↔ x ∈ "/" :: mountPoints r.toOptions := by
    rw [List.mem_cons, List.mem_filter, b.mem_keys, hnames, decide_eq_true_eq]
    by_cases hx : x = r.default_partition
    · rw [hx]
      exact iff_of_true (Or.inl rfl) r.default_mem
    · tauto
  have hword : ∀ x ∈ b.values 515 (sortedPartitions b r.default_partition names),
      words x = [x] := by
    intro x hx
    apply words_of_isWord
    have hx := (hmem x).mp (hperm.mem_iff.mp hx)
    rcases List.mem_cons.mp hx with rfl | hx
    · decide
    · exact r.mounts_word x hx
  have hnodup : (r.default_partition :: (b.keys 508 names).filter
      (· ≠ r.default_partition)).Nodup := by
    rw [List.nodup_cons]
    exact ⟨by simp, (b.keys_nodup 508 names).filter _⟩
  have hsame : (b.values 515 (sortedPartitions b r.default_partition names)).flatMap words =
      b.values 515 (sortedPartitions b r.default_partition names) := by
    rw [List.flatMap_congr hword]
    exact List.flatMap_singleton' _
  rw [hsame]
  exact ⟨hperm.nodup_iff.mpr hnodup, fun m => hperm.mem_iff.trans (hmem m)⟩

/-- The sorted partitions name each of them once. -/
theorem count_sortedPartitions {names : AssocArray}
    (hnames : ∀ x, x ∈ names.keys ↔ x ∈ "/" :: mountPoints r.toOptions) (m : String) :
    ((b.values 515 (sortedPartitions b r.default_partition names)).flatMap words).count m =
      if m ∈ "/" :: mountPoints r.toOptions then 1 else 0 := by
  obtain ⟨hnodup, hmem⟩ := sortedPartitions_spec (b := b) hnames
  rw [hnodup.count]
  exact if_congr (hmem m) rfl rfl

/-- A mount point is defined by a hard-wired line, and by a logical volume if it is listed or the
root. -/
theorem definitions_partInclude {disks : List String} {lines : List Line}
    (h : partInclude b r.toOptions disks = some lines) {m : String}
    (hm : m ∈ layoutMounts r.toOptions) : definitions m lines =
      ((if m = "/boot" then 1 else 0) + if m = "swap" then 1 else 0) +
        if m ∈ "/" :: mountPoints r.toOptions then 1 else 0 := by
  obtain ⟨sizes, arrays, names, -, -, -, hkeys, parts, reserved, rfl⟩ := partInclude_eq h
  have hhead : m.toList.head? ≠ some 'p' ∧ m ≠ "biosboot" := by
    rcases head_of_mem_mounts hm with hslash | rfl
    · constructor
      · rw [hslash]
        decide
      · rintro rfl
        exact absurd hslash (by decide)
    · decide
  rw [definitions_append, definitions_append, definitions_append, definitions_volgroup,
    definitions_volgroup, List.cons_append, definitions_cons, definitions_append,
    definitions_boot _ _ hhead.2, definitions_disk hhead.1, definitions_logvol,
    count_sortedPartitions hkeys]
  simp [Line.defines]

/-- The layout defines each mount point once if and only if `/boot` and `swap` are not listed:
`unset ${partitions_name[/boot]}` unsets a variable `boot`, not the element. -/
theorem definesOnce_iff {disks : List String} {lines : List Line}
    (h : partInclude b r.toOptions disks = some lines) :
    (∀ m ∈ layoutMounts r.toOptions, definitions m lines = 1) ↔
      "/boot" ∉ mountPoints r.toOptions ∧ "swap" ∉ mountPoints r.toOptions := by
  have hboot : "/boot" ∈ layoutMounts r.toOptions := by simp [layoutMounts]
  have hswap : "swap" ∈ layoutMounts r.toOptions := by simp [layoutMounts]
  constructor
  · intro honce
    have h1 := (definitions_partInclude h hboot).symm.trans (honce _ hboot)
    have h2 := (definitions_partInclude h hswap).symm.trans (honce _ hswap)
    constructor
    · intro hmem
      simp [hmem] at h1
    · intro hmem
      simp [hmem] at h2
  · rintro ⟨hnb, hns⟩ m hm
    rw [definitions_partInclude h hm]
    by_cases h1 : m = "/boot"
    · subst h1
      simp [hnb]
    · by_cases h2 : m = "swap"
      · subst h2
        simp [hns]
      · have hlisted : m ∈ "/" :: mountPoints r.toOptions := by
          rw [layoutMounts] at hm
          simp only [List.mem_cons] at hm ⊢
          tauto
        simp [h1, h2, hlisted]

end Main

/-- The default options, with one option that lists mount points. -/
def listing (partition : String) : Options where
  vgname := "VolGroup00"
  os_version := ""
  partition := some partition
  partition_size := none
  partition_maxsize := none
  disk_reserve_size := none
  disk_max_size := none
  default_disk_reserve_size := "0"
  default_disk_max_size := "0"
  default_partition := "/"
  partition_fstype := "ext3"

def homeAndVar : Request where
  toOptions := listing "/home 20%; /var/log 10G"
  mounts_nodup := by decide +kernel
  mounts_word := by decide +kernel
  default_mem := by decide +kernel

theorem definesOnce_homeAndVar : ∃ lines,
    partInclude Bash.plain homeAndVar.toOptions ["/dev/sda"] = some lines ∧
    ∀ m ∈ layoutMounts homeAndVar.toOptions, definitions m lines = 1 := by
  obtain ⟨lines, h⟩ : ∃ lines, partInclude Bash.plain homeAndVar.toOptions ["/dev/sda"] =
      some lines := Option.isSome_iff_exists.mp (by decide +kernel)
  exact ⟨lines, h, (definesOnce_iff h).mpr (by decide +kernel)⟩

def bootAndSwap : Request where
  toOptions := listing "/boot 500M; swap 2G; /home 20%"
  mounts_nodup := by decide +kernel
  mounts_word := by decide +kernel
  default_mem := by decide +kernel

/-- Both are parts and logical volumes. -/
theorem bootAndSwap_defined_twice : ∃ lines,
    partInclude Bash.plain bootAndSwap.toOptions ["/dev/sda"] = some lines ∧
    definitions "/boot" lines = 2 ∧ definitions "swap" lines = 2 ∧
    ¬ ∀ m ∈ layoutMounts bootAndSwap.toOptions, definitions m lines = 1 := by
  have hsome : (partInclude Bash.plain bootAndSwap.toOptions ["/dev/sda"]).map
      (fun lines => (definitions "/boot" lines, definitions "swap" lines)) = some (2, 2) := by
    decide +kernel
  obtain ⟨lines, h, hcount⟩ := Option.map_eq_some_iff.mp hsome
  obtain ⟨hboot, hswap⟩ := Prod.mk.inj hcount
  refine ⟨lines, h, hboot, hswap, fun honce => ?_⟩
  have hone := honce "/boot" (by decide +kernel)
  rw [hboot] at hone
  cases hone

end CompassAdapters.Partition.KickstartLayout
