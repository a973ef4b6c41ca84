import CompassAdapters.Partition.DiskParts

/-! The limits and the reserved sizes that the three scripts write for each selected disk, against
those that the options give it. -/
namespace CompassAdapters.Partition
open Shell Python KickstartLayout

/-- A size in units of `M`; there is none below 1. -/
def capacity (size : String) : ℕ := ((megabytes size).getD 0).toNat

section Kickstart

/-- A line for a part of a disk that is given to a volume group. -/
def isDiskPart (line : Line) : Bool :=
  line.command == "part" && "pv.".toList.isPrefixOf line.name.toList

/-- The lines for a disk with a limit and a reserve, of which 0 is none. -/
def sizedLines (max reserve : ℕ) (disk : String) (pv_id : ℕ) : List Line :=
  ⟨"part", "pv.0" ++ toString pv_id, ["--size=1", "--grow"] ++
    (if max = 0 then [] else ["--maxsize=" ++ toString max]) ++ ["--ondisk=" ++ disk]⟩ ::
  if reserve = 0 then []
  else [⟨"part", "pv.1" ++ toString pv_id,
    ["--size=" ++ toString reserve, "--ondisk=" ++ disk]⟩]

/-- The lines for some disks, counted from `first`. -/
def sizedParts (max reserve : String → ℕ) (device : String → String) (selected : List String)
    (first : ℕ) : List Line :=
  (selected.zipIdx first).flatMap fun (n, pv_id) =>
    sizedLines (max n) (reserve n) (device n) pv_id

/-- Each selected disk has the limit and the reserve that the options give it. -/
def KickstartSizes (o : Options) (device : String → String) (selected : List String)
    (lines : List Line) : Prop :=
  lines.filter isDiskPart = sizedParts (fun n => capacity (maxFor o n))
    (fun n => capacity (reserveFor o n)) device selected 1

theorem toString_toNat {z : ℤ} (h : 0 < z) : toString z.toNat = toString z := by
  cases z with
  | ofNat n => rfl
  | negSucc n => exact absurd h (by omega)

theorem isPositive_toString (z : ℤ) : isPositive (toString z) = decide (0 < z) := by
  rw [isPositive, int_toString_int]
  rfl

/-- The limit of a disk is written only where it is not empty. -/
theorem diskOptions (param disk : String) :
    options ["--size=1", "--grow", param, "--ondisk=" ++ disk] =
      ["--size=1", "--grow"] ++ (if param = "" then [] else [param]) ++ ["--ondisk=" ++ disk] := by
  have hsingle (w : String) : options [w] = if w = "" then [] else [w] := by
    by_cases hw : w = ""
    · simp [options, hw]
    · simp [options, hw]
  have hondisk : "--ondisk=" ++ disk ≠ "" := fun h =>
    absurd (String.append_eq_empty_iff.mp h).1 (by decide)
  have hsplit : options ["--size=1", "--grow", param, "--ondisk=" ++ disk] =
      ["--size=1", "--grow"] ++ (options [param] ++ options ["--ondisk=" ++ disk]) := by
    rw [options, options, options, ← List.filter_append]
    rfl
  rw [hsplit, hsingle, hsingle, if_neg hondisk, List.append_assoc]

/-- A disk without a size of its own. -/
theorem diskLines_default {sizes : DiskSizes} {disk : String} {max reserve : ℤ}
    (hmax : sizes.max_disks_size.get disk = "")
    (hreserve : sizes.reserve_disks_size.get disk = "")
    (hdefault : sizes.default_max_disk_size = toString max)
    (hdefault' : sizes.default_reserve_disk_size = toString reserve) (pv_id : ℕ) :
    diskLines sizes disk pv_id = sizedLines max.toNat reserve.toNat disk pv_id := by
  have hmaxsize (w : String) : "--maxsize=" ++ w ≠ "" := fun h =>
    absurd (String.append_eq_empty_iff.mp h).1 (by decide)
  rw [diskLines, hmax, hreserve, hdefault, hdefault', sizedLines]
  simp only [orDefault, if_true, isPositive_toString, decide_eq_true_eq, diskOptions]
  congr 1
  · congr 3
    by_cases h : 0 < max
    · rw [if_pos h, if_neg (hmaxsize _), if_neg (by omega), toString_toNat h]
    · rw [if_neg h, if_pos rfl, if_pos (by omega)]
  · by_cases h : 0 < reserve
    · rw [if_pos h, if_neg (by omega), toString_toNat h]
    · rw [if_neg h, if_pos (by omega)]

theorem isDiskPart_diskLines {sizes : DiskSizes} {disk : String} {pv_id : ℕ} {line : Line}
    (h : line ∈ diskLines sizes disk pv_id) : isDiskPart line = true := by
  have hprefix {w x : String} (hw : "pv.".toList <+: w.toList) :
      "pv.".toList.isPrefixOf (w ++ x).toList = true := by
    rw [List.isPrefixOf_iff_prefix, String.toList_append]
    exact hw.trans (List.prefix_append _ _)
  rw [diskLines] at h
  rcases List.mem_cons.mp h with rfl | h
  · exact hprefix (by decide)
  · split at h
    · rw [List.mem_singleton.mp h]
      exact hprefix (by decide)
    · cases h

/-- The lines for the disks are as the loop writes them. -/
theorem filter_partInclude {b : Bash} {o : Options} {disks : List String} {lines : List Line}
    (h : partInclude b o disks = some lines) :
    ∃ sizes, readDiskSizes o = some sizes ∧ lines.filter isDiskPart =
      (disks.zipIdx 1).flatMap fun (disk, pv_id) => diskLines sizes disk pv_id := by
  obtain ⟨sizes, arrays, names, hsizes, -, -, -, parts, reserved, rfl⟩ := partInclude_eq h
  refine ⟨sizes, hsizes, ?_⟩
  have hdisks : ((disks.zipIdx 1).flatMap fun (disk, pv_id) =>
      diskLines sizes disk pv_id).filter isDiskPart =
        (disks.zipIdx 1).flatMap fun (disk, pv_id) => diskLines sizes disk pv_id := by
    rw [List.filter_eq_self]
    intro line hline
    obtain ⟨⟨disk, pv_id⟩, -, hline⟩ := List.mem_flatMap.mp hline
    exact isDiskPart_diskLines hline
  have hboot (arrays : Arrays) (disk : String) :
      (bootLines o arrays disk).filter isDiskPart = [] := by
    have hnames : (bootLines o arrays disk).map Line.name =
        ["--location=mbr", "", "biosboot", "/boot", "swap"] := rfl
    have hother : ∀ name ∈ ["--location=mbr", "", "biosboot", "/boot", "swap"],
        "pv.".toList.isPrefixOf name.toList = false := by decide +kernel
    rw [List.filter_eq_nil_iff]
    intro line hline
    have hname : line.name ∈ (bootLines o arrays disk).map Line.name := List.mem_map_of_mem hline
    rw [hnames] at hname
    rw [isDiskPart, hother _ hname, Bool.and_false]
    exact Bool.false_ne_true
  have hvolgroup (name : String) (parts : List String) :
      (volgroupLine name parts).filter isDiskPart = [] := by
    rw [volgroupLine]
    split
    · rfl
    · rfl
  have hlogvol (arrays : Arrays) (keys : List String) :
      (keys.map (logvolLine o arrays)).filter isDiskPart = [] := by
    rw [List.filter_eq_nil_iff]
    intro line hline
    obtain ⟨key, -, rfl⟩ := List.mem_map.mp hline
    exact Bool.false_ne_true
  rw [List.filter_append, List.filter_append, List.filter_append, List.filter_append, hdisks,
    hvolgroup, hvolgroup, hlogvol, List.append_nil, List.append_nil, List.append_nil,
    List.filter_cons_of_neg Bool.false_ne_true, hboot, List.nil_append]

/-- The options list names, and the sizes are looked up under paths. -/
theorem get_of_mem_slash {option : Option String} {default : String}
    (hlists : ListsDisks option default) {table : AssocArray}
    (htable : (fields option).foldlM setSize ∅ = some table) {disk : String}
    (hdisk : '/' ∈ disk.toList) : table.get disk = "" := by
  have hne : disk ≠ "" := by
    rintro rfl
    cases hdisk
  rw [(foldlM_setSize htable).1, get_foldl_pairs _ _ hne]
  refine lastMatch_of_forall _ _ fun p hp => beq_false_of_ne fun hkey => ?_
  obtain ⟨f, hf, hp⟩ := List.mem_filterMap.mp hp
  obtain ⟨⟨disk_name, size⟩, hsplit, hp⟩ := Option.bind_eq_some_iff.mp hp
  obtain ⟨m, -, rfl⟩ := Option.map_eq_some_iff.mp hp
  have hfield : (⟨strip disk_name, size⟩ : DiskField) ∈ diskFields option :=
    List.mem_filterMap.mpr ⟨f, hf, by rw [diskFieldOf, hsplit, Option.map_some]⟩
  have hslash : '/' ∈ (strip disk_name).toList := by
    rw [show strip disk_name = disk from hkey]
    exact hdisk
  exact absurd (List.all_eq_true.mp (hlists.names _ hfield) '/' hslash) (by decide)

/-- So each disk gets the defaults. -/
theorem diskLines_eq {o : Options} {sizes : DiskSizes} (h : readDiskSizes o = some sizes)
    (hreserve : ListsDisks o.disk_reserve_size o.default_disk_reserve_size)
    (hmax : ListsDisks o.disk_max_size o.default_disk_max_size) {disk : String}
    (hdisk : '/' ∈ disk.toList) (pv_id : ℕ) : diskLines sizes disk pv_id =
      sizedLines (capacity o.default_disk_max_size) (capacity o.default_disk_reserve_size) disk
        pv_id := by
  obtain ⟨reserves, hreserves, h⟩ := Option.bind_eq_some_iff.mp h
  obtain ⟨reserve, hreserve_default, h⟩ := Option.bind_eq_some_iff.mp h
  obtain ⟨maxes, hmaxes, h⟩ := Option.bind_eq_some_iff.mp h
  obtain ⟨max, hmax_default, rfl⟩ := Option.map_eq_some_iff.mp h
  rw [capacity, capacity, hreserve_default, hmax_default]
  exact diskLines_default (get_of_mem_slash hmax hmaxes hdisk)
    (get_of_mem_slash hreserve hreserves hdisk) rfl rfl pv_id

section Injectivity
variable {max max' reserve reserve' : String → ℕ} {device : String → String}

theorem sizedParts_cons (max reserve : String → ℕ) (device : String → String) (n : String)
    (selected : List String) (first : ℕ) :
    sizedParts max reserve device (n :: selected) first =
      sizedLines (max n) (reserve n) (device n) first ++
        sizedParts max reserve device selected (first + 1) := rfl

/-- The lines for further disks do not begin with a reserved part. -/
theorem sizedParts_ne_reserved {selected : List String} {first : ℕ} {x : String} {line : Line}
    {lines : List Line} (hname : line.name = "pv.1" ++ x) :
    sizedParts max reserve device selected first ≠ line :: lines := by
  cases selected with
  | nil => exact (List.cons_ne_nil _ _).symm
  | cons n selected =>
    rw [sizedParts_cons, sizedLines, List.cons_append]
    intro h
    have heq : "pv.0" ++ toString first = "pv.1" ++ x := by
      rw [← hname, ← (List.cons.inj h).1]
    have hchar := congrArg (fun s : String => s.toList[3]?) heq
    rw [String.toList_append, String.toList_append, List.getElem?_append_left (by decide),
      List.getElem?_append_left (by decide)] at hchar
    exact absurd hchar (by decide)

theorem maxsize_inj {m m' : ℕ} {last : List String}
    (h : ["--size=1", "--grow"] ++ (if m = 0 then [] else ["--maxsize=" ++ toString m]) ++ last =
      ["--size=1", "--grow"] ++ (if m' = 0 then [] else ["--maxsize=" ++ toString m']) ++ last) :
    m = m' := by
  have h := List.append_cancel_left (List.append_cancel_right h)
  split at h <;> split at h
  next hm hm' => exact hm.trans hm'.symm
  next hm hm' => exact absurd h.symm (List.cons_ne_nil _ _)
  next hm hm' => exact absurd h (List.cons_ne_nil _ _)
  next hm hm' => exact toString_injective ((String.append_right_inj _).mp (List.cons.inj h).1)

/-- The sizes can be read off the lines. -/
theorem sizedParts_inj {selected : List String} {first : ℕ} :
    sizedParts max reserve device selected first = sizedParts max' reserve' device selected first ↔
      ∀ n ∈ selected, max n = max' n ∧ reserve n = reserve' n := by
  induction selected generalizing first with
  | nil => exact iff_of_true rfl fun n hn => absurd hn List.not_mem_nil
  | cons n selected ih =>
    rw [List.forall_mem_cons, ← ih, sizedParts_cons, sizedParts_cons]
    constructor
    · intro h
      unfold sizedLines at h
      rw [List.cons_append, List.cons_append] at h
      obtain ⟨hline, hrest⟩ := List.cons.inj h
      have hmax := maxsize_inj (congrArg Line.options hline)
      split at hrest <;> split at hrest
      next hr hr' => exact ⟨⟨hmax, hr.trans hr'.symm⟩, hrest⟩
      next hr hr' => exact absurd hrest (sizedParts_ne_reserved rfl)
      next hr hr' => exact absurd hrest.symm (sizedParts_ne_reserved rfl)
      next hr hr' =>
        obtain ⟨hreserved, hrest⟩ := List.cons.inj hrest
        have hsize := (List.cons.inj (congrArg Line.options hreserved)).1
        exact ⟨⟨hmax, toString_injective ((String.append_right_inj _).mp hsize)⟩, hrest⟩
    · rintro ⟨⟨hmax, hreserve⟩, hrest⟩
      rw [hmax, hreserve, hrest]

end Injectivity

/-- The kickstart script gives each disk the defaults. -/
theorem kickstartSizes_iff {b : Bash} {o : Options} {device : String → String}
    {selected : List String} {lines : List Line}
    (hreserve : ListsDisks o.disk_reserve_size o.default_disk_reserve_size)
    (hmax : ListsDisks o.disk_max_size o.default_disk_max_size)
    (hdevice : ∀ n ∈ selected, '/' ∈ (device n).toList)
    (h : partInclude b o (selected.map device) = some lines) :
    KickstartSizes o device selected lines ↔
      ∀ n ∈ selected, capacity o.default_disk_max_size = capacity (maxFor o n) ∧
        capacity o.default_disk_reserve_size = capacity (reserveFor o n) := by
  obtain ⟨sizes, hsizes, hlines⟩ := filter_partInclude h
  have hparts : lines.filter isDiskPart =
      sizedParts (fun _ => capacity o.default_disk_max_size)
        (fun _ => capacity o.default_disk_reserve_size) device selected 1 := by
    rw [hlines, sizedParts, List.zipIdx_map, List.flatMap_map]
    refine List.flatMap_congr fun p hp => ?_
    exact diskLines_eq hsizes hreserve hmax (hdevice p.1 (List.fst_mem_of_mem_zipIdx hp)) p.2
  rw [KickstartSizes, hparts, sizedParts_inj]

end Kickstart

section Preseed
variable {o : Options} {device : String → String} {selected : List String} {n : String}

/-- The entries for a disk with a limit and a reserve, of which 0 is none. -/
def Preseed.sizedParts (max reserve : ℕ) (disk : String) : Preseed.DiskParts where
  device := disk
  maxsize_param := if max = 0 then "-1" else toString max
  reserve := if reserve = 0 then none else some (toString reserve)

/-- Each selected disk has the limit and the reserve that the options give it. -/
def PreseedSizes (o : Options) (device : String → String) (selected : List String)
    (parts : List Preseed.DiskParts) : Prop :=
  parts = selected.map fun n =>
    Preseed.sizedParts (capacity (maxFor o n)) (capacity (reserveFor o n)) (device n)

/-- A size in units of `M`, as the variables hold it. -/
def inMegabytes (size : String) : String := ((megabytes size).map fun m => toString m).getD ""

theorem inMegabytes_eq {size : String} {m : ℤ} (h : megabytes size = some m) :
    inMegabytes size = toString m := by
  rw [inMegabytes, h, Option.map_some, Option.getD_some]

/-- The size is written where it is positive. -/
theorem IsSize.isGreater {size : String} (h : IsSize size) :
    isGreater (inMegabytes size) "0" = decide (capacity size ≠ 0) ∧
      (capacity size ≠ 0 → inMegabytes size = toString (capacity size)) := by
  obtain ⟨m, hm, hlow, hhigh⟩ := h.megabytes
  rw [inMegabytes_eq hm, capacity, hm, Option.getD_some, isGreater_toString_zero hlow hhigh]
  refine ⟨by simp, fun hpos => (toString_toNat ?_).symm⟩
  omega

theorem foldlM_setDisk {fs : List DiskField} {t t' : Table}
    (h : fs.foldlM Preseed.setDisk t = some t') :
    t' = fs.foldl (fun t f => t.assign f.disk_name (inMegabytes f.size)) t := by
  refine foldlM_eq_foldl (fun t f t' hstep => ?_) h
  obtain ⟨m, hm, rfl⟩ := Option.map_eq_some_iff.mp hstep
  rw [inMegabytes_eq hm]

/-- Under its kernel name the size of a disk is found. -/
theorem preseed_variable {option : Option String} {default : String} {t : Table} {m : ℤ}
    (hlists : ListsDisks option default)
    (ht : eachDisk Preseed.setDisk option Table.unset = some t)
    (hdefault : megabytes default = some m) (n : String) :
    orDefault (t.get n) (toString m) = inMegabytes (sizeFor option default n) := by
  have hvalues : ∀ f ∈ diskFields option, inMegabytes f.size ≠ "" ∧
      ∀ c ∈ (inMegabytes f.size).toList, isBlank c = false := by
    intro f hf
    obtain ⟨m, hm, -⟩ := (hlists.sizes f hf).megabytes
    rw [inMegabytes_eq hm]
    exact ⟨toString_int_ne_empty m, no_blank_toString_int m⟩
  rw [foldlM_setDisk (eachDisk_eq_some ht),
    get_foldl_diskFields hlists.names fun f hf => (hvalues f hf).2]
  rw [sizeFor, map_lastMatch inMegabytes, inMegabytes_eq hdefault]
  exact orDefault_lastMatch (fun f hf => (hvalues f hf).1) _

/-- In both modes the script comes back to the kernel name. -/
theorem diskName_device {inv : Inventory preseed} (partition_by_path : Bool)
    (hn : n ∈ inv.drives) :
    Preseed.diskName partition_by_path (inv.scan partition_by_path).tables
      (inv.device partition_by_path n) = n := by
  have hslash := (inv.disk_plain n (List.mem_filter.mp hn).1).1.no_slash
  cases partition_by_path with
  | false => exact basename_devicePath hslash
  | true =>
    have htables := Inventory.tables_diskPath true hn
    have hname : Preseed.diskName true (inv.scan true).tables (inv.diskPath n) =
        basename ((inv.scan true).tables.disk_path_mapping
          (preseed.key (basename (inv.diskPath n)))) := rfl
    rw [Inventory.device, if_pos rfl, hname, htables, basename_devicePath hslash]

/-- The variables of a disk, with the defaults, hold the sizes that the options give it. -/
theorem preseed_diskVariables {v : DiskVariables} (hv : Preseed.diskVariables o = some v)
    (hreserve : ListsDisks o.disk_reserve_size o.default_disk_reserve_size)
    (hmax : ListsDisks o.disk_max_size o.default_disk_max_size) (n : String) :
    orDefault (v.max_disk_size.get n) v.default_max_disk_size = inMegabytes (maxFor o n) ∧
    orDefault (v.reserve_disk_size.get n) v.default_reserve_disk_size =
      inMegabytes (reserveFor o n) := by
  obtain ⟨reserves, hreserves, hv⟩ := Option.bind_eq_some_iff.mp hv
  obtain ⟨reserve, hreserve_default, hv⟩ := Option.bind_eq_some_iff.mp hv
  obtain ⟨maxes, hmaxes, hv⟩ := Option.bind_eq_some_iff.mp hv
  obtain ⟨max, hmax_default, rfl⟩ := Option.map_eq_some_iff.mp hv
  exact ⟨preseed_variable hmax hmaxes hmax_default n,
    preseed_variable hreserve hreserves hreserve_default n⟩

theorem diskParts_eq {v : DiskVariables} {inv : Inventory preseed} {partition_by_path : Bool}
    (hv : Preseed.diskVariables o = some v)
    (hreserve : ListsDisks o.disk_reserve_size o.default_disk_reserve_size)
    (hmax : ListsDisks o.disk_max_size o.default_disk_max_size)
    (hn : n ∈ inv.drives) (hname : isName n = true) :
    Preseed.diskParts partition_by_path (inv.scan partition_by_path).tables v
      (inv.device partition_by_path n) = some (Preseed.sizedParts (capacity (maxFor o n))
        (capacity (reserveFor o n)) (inv.device partition_by_path n)) := by
  obtain ⟨hmaxsize, hreserved⟩ := preseed_diskVariables hv hreserve hmax n
  obtain ⟨hgreater, htext⟩ := (hmax.isSize n).isGreater
  obtain ⟨hgreater', htext'⟩ := (hreserve.isSize n).isGreater
  rw [← maxFor] at hgreater htext
  rw [← reserveFor] at hgreater' htext'
  generalize capacity (maxFor o n) = max at hgreater htext ⊢
  generalize capacity (reserveFor o n) = reserve at hgreater' htext' ⊢
  have hmaxsize_param : (if max = 0 then "-1" else inMegabytes (maxFor o n)) =
      if max = 0 then "-1" else toString max := by
    split
    next => rfl
    next h => exact htext h
  have hreserve_param : (if reserve = 0 then none else some (inMegabytes (reserveFor o n))) =
      if reserve = 0 then none else some (toString reserve) := by
    split
    next => rfl
    next h => rw [htext' h]
  rw [Preseed.diskParts, diskName_device partition_by_path hn]
  simp only [Table.expand_of_isName _ hname, Option.bind_some, Option.map_some, hmaxsize,
    hreserved, hgreater, hgreater', decide_eq_true_eq, ite_not, Preseed.sizedParts, hmaxsize_param,
    hreserve_param]

/-- The preseed script writes the sizes that the options give. -/
theorem preseedSizes {inv : Inventory preseed} {partition_by_path : Bool}
    {parts : List Preseed.DiskParts}
    (hreserve : ListsDisks o.disk_reserve_size o.default_disk_reserve_size)
    (hmax : ListsDisks o.disk_max_size o.default_disk_max_size)
    (hselected : ∀ n ∈ selected, n ∈ inv.drives) (hnames : ∀ n ∈ selected, isName n = true)
    (h : Preseed.diskRecipe partition_by_path (inv.scan partition_by_path).tables o
      (selected.map (inv.device partition_by_path)) = some parts) :
    PreseedSizes o (inv.device partition_by_path) selected parts := by
  obtain ⟨v, hv, hparts⟩ := Option.bind_eq_some_iff.mp h
  have hall : (selected.map (inv.device partition_by_path)).mapM (Preseed.diskParts
      partition_by_path (inv.scan partition_by_path).tables v) = some (selected.map fun n =>
        Preseed.sizedParts (capacity (maxFor o n)) (capacity (reserveFor o n))
          (inv.device partition_by_path n)) := by
    rw [List.mapM_map]
    exact mapM_eq_map fun n hn => diskParts_eq hv hreserve hmax (hselected n hn) (hnames n hn)
  rw [hall] at hparts
  exact (Option.some.inj hparts).symm

end Preseed

section Suse
variable {o : Options} {selected : List String} {n : String} {inv : Inventory suse}
  {partition_by_path : Bool}

/-- The name of a link up to the dash. -/
def bus (path_name : String) : String := String.ofList (path_name.toList.takeWhile isNameChar)

/-- The name of a link from the dash on. -/
def address (path_name : String) : String :=
  String.ofList (path_name.toList.dropWhile isNameChar).tail

/-- The links are named by a bus, a dash and an address, and no disk is named as a bus. -/
structure BusLinks (o : Options) (links : List Link) : Prop where
  dash : ∀ l ∈ links, (l.path_name.toList.dropWhile isNameChar).head? = some '-'
  reserve_apart : ∀ l ∈ links, ∀ f ∈ diskFields o.disk_reserve_size, f.disk_name ≠ bus l.path_name
  max_apart : ∀ l ∈ links, ∀ f ∈ diskFields o.disk_max_size, f.disk_name ≠ bus l.path_name

/-- What is read for the size of a disk. Where the disk goes by its link, that is the address, or
the default in place of an empty one. -/
def Inventory.sizeRead (inv : Inventory suse) (partition_by_path : Bool) (option : Option String)
    (default n : String) : String :=
  match if partition_by_path then byPathLink inv.links n else none with
  | some path_name => orDefault (address path_name) default
  | none => sizeFor option default n

/-- Each selected disk has the limit and the reserve that the options give it. -/
def SuseSizes (o : Options) (device : String → String) (selected : List String)
    (ds : List Suse.Drive) : Prop :=
  ds.map (fun d => (d.device, d.size, d.reserved.map Suse.Reserved.size)) = selected.map fun n =>
    (device n, Suse.sizeElement (maxFor o n), Suse.given (reserveFor o n))

theorem expand_link {t : Table} {path_name : String}
    (hdash : (path_name.toList.dropWhile isNameChar).head? = some '-')
    (hbus : t (bus path_name) = none) : t.expand path_name = some (address path_name) := by
  obtain ⟨rest, hrest⟩ := List.head?_eq_some_iff.mp hdash
  rw [address, hrest, Table.expand, hrest]
  have hname : t (String.ofList (path_name.toList.takeWhile isNameChar)) = none := hbus
  simp only [hname, Option.getD_none, List.tail_cons]

theorem foldl_assign_of_ne {fs : List DiskField} {x : String} (h : ∀ f ∈ fs, f.disk_name ≠ x)
    (t : Table) : (fs.foldl (fun t f => t.assign f.disk_name f.size) t) x = t x := by
  induction fs generalizing t with
  | nil => rfl
  | cons f fs ih =>
    obtain ⟨hf, hfs⟩ := List.forall_mem_cons.mp h
    rw [List.foldl_cons, ih hfs, Table.assign_of_ne t (Ne.symm hf)]

/-- The name under which a disk is looked up is its kernel name or the name of its link. -/
theorem basename_device (hn : n ∈ inv.drives) : basename (inv.device partition_by_path n) =
    (if partition_by_path then byPathLink inv.links n else none).getD n := by
  have hslash := (inv.disk_plain n (List.mem_filter.mp hn).1).1.no_slash
  cases partition_by_path with
  | false => exact basename_devicePath hslash
  | true =>
    rw [Inventory.device, if_pos rfl, if_pos rfl, Inventory.diskPath]
    cases hlink : byPathLink inv.links n with
    | none => exact basename_devicePath hslash
    | some path_name =>
      obtain ⟨l, hl, -, -, rfl⟩ := byPathLink_mem hlink
      exact basename_linkPath (inv.link_plain l hl).1.no_slash

theorem suse_variable {option : Option String} {default : String} {t : Table}
    (hlists : ListsDisks option default)
    (ht : eachDisk Suse.setDisk option Table.unset = some t)
    (hdash : ∀ l ∈ inv.links, (l.path_name.toList.dropWhile isNameChar).head? = some '-')
    (hapart : ∀ l ∈ inv.links, ∀ f ∈ diskFields option, f.disk_name ≠ bus l.path_name)
    (hn : n ∈ inv.drives) (hname : isName n = true) (before : String) :
    orDefault ((t.expand (basename (inv.device partition_by_path n))).getD before) default =
      inv.sizeRead partition_by_path option default n := by
  have htable : t = (diskFields option).foldl (fun t f => t.assign f.disk_name f.size)
      Table.unset :=
    foldlM_eq_foldl (fun _ _ _ hstep => (Option.some.inj hstep).symm) (eachDisk_eq_some ht)
  rw [basename_device hn, Inventory.sizeRead]
  cases hlink : if partition_by_path then byPathLink inv.links n else none with
  | some path_name =>
    obtain ⟨l, hl, rfl⟩ : ∃ l ∈ inv.links, l.path_name = path_name := by
      split at hlink
      · obtain ⟨l, hl, -, -, hpath⟩ := byPathLink_mem hlink
        exact ⟨l, hl, hpath⟩
      · cases hlink
    have hbus : t (bus l.path_name) = none := by
      rw [htable, foldl_assign_of_ne (hapart l hl)]
      rfl
    rw [Option.getD_some, expand_link (hdash l hl) hbus, Option.getD_some]
  | none =>
    rw [Option.getD_none, Table.expand_of_isName t hname, Option.getD_some, htable,
      get_foldl_diskFields hlists.names fun f hf => (hlists.sizes f hf).no_blank]
    exact orDefault_lastMatch (fun f hf => (hlists.sizes f hf).ne_empty) default

/-- A size as it is written is no mark of the script. -/
theorem maxElement_eq_iff {text size : String} (h : IsSize size) :
    Suse.maxElement text = Suse.sizeElement size ↔
      Suse.given text = none ∧ Suse.given size = none := by
  obtain ⟨m, hm, -⟩ := h.megabytes
  have hno {w : String} (hw : megabytes w = none) : size ≠ w := by
    rintro rfl
    rw [hm] at hw
    cases hw
  have hmax : size ≠ "max" := hno (by decide +kernel)
  have hmark : size ≠ "${max_disk_size}" := hno (by decide +kernel)
  have hsize : Suse.sizeElement size = (Suse.given size).getD "max" := by
    rw [Suse.sizeElement, Suse.given]
    split
    · rfl
    · rfl
  rw [hsize, Suse.maxElement]
  cases hgiven : Suse.given size with
  | none =>
    rw [Option.getD_none, and_iff_left rfl]
    split
    next htext => exact iff_of_true rfl htext
    next htext => exact iff_of_false (by decide) htext
  | some w =>
    have hw : w = size := by
      rw [Suse.given] at hgiven
      split at hgiven
      · exact (Option.some.inj hgiven).symm
      · cases hgiven
    rw [Option.getD_some, hw]
    refine iff_of_false (fun heq => ?_) fun hnone => ?_
    · split at heq
      · exact hmax heq.symm
      · exact hmark heq.symm
    · cases hnone.2

/-- The variables of the script, where the sizes are in one word. -/
theorem suse_diskVariables {v : DiskVariables} (hv : Suse.diskVariables o = some v)
    (hreserve : ListsDisks o.disk_reserve_size o.default_disk_reserve_size)
    (hmax : ListsDisks o.disk_max_size o.default_disk_max_size) :
    eachDisk Suse.setDisk o.disk_reserve_size Table.unset = some v.reserve_disk_size ∧
    eachDisk Suse.setDisk o.disk_max_size Table.unset = some v.max_disk_size ∧
    v.default_reserve_disk_size = o.default_disk_reserve_size ∧
    v.default_max_disk_size = o.default_disk_max_size := by
  obtain ⟨reserves, hreserves, hv⟩ := Option.bind_eq_some_iff.mp hv
  obtain ⟨maxes, hmaxes, rfl⟩ := Option.map_eq_some_iff.mp hv
  refine ⟨hreserves, hmaxes, ?_, ?_⟩
  · dsimp only
    rw [Table.assign_of_isName _ (by decide) hreserve.default.no_blank,
      Table.assign_of_isName _ (by decide) hmax.default.no_blank, Table.get_update,
      Table.get_update]
    rfl
  · dsimp only
    rw [Table.assign_of_isName _ (by decide) hmax.default.no_blank, Table.get_update, if_pos rfl]

/-- The drives that the loop writes, from what it reads for each disk. -/
theorem foldl_writeDrive {v : DiskVariables} {device : String → String}
    {max reserve : String → String}
    (hmax : ∀ n ∈ selected, ∀ before,
      orDefault ((v.max_disk_size.expand (basename (device n))).getD before)
        v.default_max_disk_size = max n)
    (hreserve : ∀ n ∈ selected, ∀ before,
      orDefault ((v.reserve_disk_size.expand (basename (device n))).getD before)
        v.default_reserve_disk_size = reserve n)
    (s : Suse.DriveVariables × List Suse.Drive) :
    (((selected.map device).foldl (Suse.writeDrive v) s).2.map fun d =>
        (d.device, d.size, d.reserved.map Suse.Reserved.size)) =
      (s.2.map fun d => (d.device, d.size, d.reserved.map Suse.Reserved.size)) ++
        selected.map fun n => (device n, Suse.maxElement (max n), Suse.given (reserve n)) := by
  induction selected generalizing s with
  | nil => exact (List.append_nil _).symm
  | cons n selected ih =>
    obtain ⟨hn, hmax⟩ := List.forall_mem_cons.mp hmax
    obtain ⟨hn', hreserve⟩ := List.forall_mem_cons.mp hreserve
    rw [List.map_cons, List.foldl_cons, ih hmax hreserve, Suse.writeDrive, hn, hn', List.map_append,
      List.append_assoc, List.map_cons, List.map_nil, List.map_cons, List.singleton_append,
      Option.map_map]
    rw [show Suse.Reserved.size ∘ (fun size => ⟨"/reserved_" ++ basename (device n),
      "reserved_" ++ basename (device n), size⟩) = id from rfl, Option.map_id_fun, id]

/-- The SUSE script never writes a limit, and in place of a size it reads a part of the name of a
link. -/
theorem suseSizes_iff {before : Suse.DriveVariables} {ds : List Suse.Drive}
    (hreserve : ListsDisks o.disk_reserve_size o.default_disk_reserve_size)
    (hmax : ListsDisks o.disk_max_size o.default_disk_max_size)
    (hlinks : BusLinks o inv.links) (hselected : ∀ n ∈ selected, n ∈ inv.drives)
    (hnames : ∀ n ∈ selected, isName n = true)
    (h : Suse.drives before o (selected.map (inv.device partition_by_path)) = some ds) :
    SuseSizes o (inv.device partition_by_path) selected ds ↔
      ∀ n ∈ selected, (Suse.given (inv.sizeRead partition_by_path o.disk_max_size
          o.default_disk_max_size n) = none ∧ Suse.given (maxFor o n) = none) ∧
        Suse.given (inv.sizeRead partition_by_path o.disk_reserve_size
          o.default_disk_reserve_size n) = Suse.given (reserveFor o n) := by
  obtain ⟨v, hv, rfl⟩ := Option.map_eq_some_iff.mp h
  obtain ⟨hreserves, hmaxes, hdefault, hdefault'⟩ := suse_diskVariables hv hreserve hmax
  have hread : ∀ n ∈ selected, ∀ before,
      orDefault ((v.max_disk_size.expand (basename (inv.device partition_by_path n))).getD before)
        v.default_max_disk_size =
          inv.sizeRead partition_by_path o.disk_max_size o.default_disk_max_size n := by
    intro n hn
    rw [hdefault']
    exact suse_variable hmax hmaxes hlinks.dash hlinks.max_apart (hselected n hn) (hnames n hn)
  have hread' : ∀ n ∈ selected, ∀ before,
      orDefault ((v.reserve_disk_size.expand (basename (inv.device partition_by_path n))).getD
        before) v.default_reserve_disk_size =
          inv.sizeRead partition_by_path o.disk_reserve_size o.default_disk_reserve_size n := by
    intro n hn
    rw [hdefault]
    exact suse_variable hreserve hreserves hlinks.dash hlinks.reserve_apart (hselected n hn)
      (hnames n hn)
  rw [SuseSizes, foldl_writeDrive hread hread', List.map_nil, List.nil_append, List.map_inj_left]
  refine forall₂_congr fun n hn => ?_
  rw [Prod.mk.injEq, Prod.mk.injEq, eq_self_iff_true, true_and]
  exact and_congr_left' (maxElement_eq_iff (hmax.isSize n))

end Suse

section Main
variable {o : Options} {selected : List String}

/-- The options give the selected disks the defaults. -/
def OnlyDefaults (o : Options) (selected : List String) : Prop :=
  ∀ n ∈ selected, capacity o.default_disk_max_size = capacity (maxFor o n) ∧
    capacity o.default_disk_reserve_size = capacity (reserveFor o n)

/-- The options limit none of the selected disks, and where a disk goes by its link, the address
stands for no limit and for the reserve that the options give the disk. -/
def AddressesFit (o : Options) (inv : Inventory suse) (partition_by_path : Bool)
    (selected : List String) : Prop :=
  ∀ n ∈ selected, (Suse.given (inv.sizeRead partition_by_path o.disk_max_size
      o.default_disk_max_size n) = none ∧ Suse.given (maxFor o n) = none) ∧
    Suse.given (inv.sizeRead partition_by_path o.disk_reserve_size o.default_disk_reserve_size n) =
      Suse.given (reserveFor o n)

theorem slash_mem_device {s : Script} (inv : Inventory s) (partition_by_path : Bool) (n : String) :
    '/' ∈ (inv.device partition_by_path n).toList := by
  have hdevice : '/' ∈ (devicePath n).toList := by
    rw [devicePath, String.toList_append]
    exact List.mem_append_left _ (by decide)
  have hlink (path_name : String) : '/' ∈ (linkPath path_name).toList := by
    rw [linkPath, String.toList_append, String.toList_append]
    exact List.mem_append_left _ (List.mem_append_right _ (by decide))
  rw [Inventory.device]
  split
  · rw [Inventory.diskPath]
    cases byPathLink inv.links n with
    | none => exact hdevice
    | some path_name => exact hlink path_name
  · exact hdevice

/-- The preseed script finds the sizes of each disk. The kickstart script looks them up under paths
and the SUSE script under the names of links, so that they write the right ones only where the
defaults, or the addresses in the names, happen to be right. -/
theorem disk_sizes_iff (hreserve : ListsDisks o.disk_reserve_size o.default_disk_reserve_size)
    (hmax : ListsDisks o.disk_max_size o.default_disk_max_size) (kinv : Inventory kickstart)
    (pinv : Inventory preseed) (sinv : Inventory suse) (hnames : ∀ n ∈ selected, isName n = true)
    (hpreseed : ∀ n ∈ selected, n ∈ pinv.drives) (hsuse : ∀ n ∈ selected, n ∈ sinv.drives)
    (hlinks : BusLinks o sinv.links) (partition_by_path : Bool) :
    (∀ b lines, partInclude b o (selected.map (kinv.device partition_by_path)) = some lines →
      (KickstartSizes o (kinv.device partition_by_path) selected lines ↔
        OnlyDefaults o selected)) ∧
    (∀ parts, Preseed.diskRecipe partition_by_path (pinv.scan partition_by_path).tables o
        (selected.map (pinv.device partition_by_path)) = some parts →
      PreseedSizes o (pinv.device partition_by_path) selected parts) ∧
    (∀ before ds, Suse.drives before o (selected.map (sinv.device partition_by_path)) = some ds →
      (SuseSizes o (sinv.device partition_by_path) selected ds ↔
        AddressesFit o sinv partition_by_path selected)) :=
  ⟨fun _ _ h => kickstartSizes_iff hreserve hmax
      (fun n _ => slash_mem_device kinv partition_by_path n) h,
    fun _ h => preseedSizes hreserve hmax hpreseed hnames h,
    fun _ _ h => suseSizes_iff hreserve hmax hlinks hsuse hnames h⟩

/-- A disk with a link. -/
def linkedDisk (s : Script) (hname : s.key "sda" = "sda")
    (hpath : s.key "pci-0000:00:1f.2-ata-1" ≠ "sda") : Inventory s where
  links := [⟨"pci-0000:00:1f.2-ata-1", "sda", true⟩]
  disk_names := ["sda"]
  link_plain := by decide
  disk_plain n hn := by
    rw [List.mem_singleton.mp hn]
    exact ⟨by decide, hname⟩
  keys_nodup := List.nodup_singleton _
  keys_apart l hl := by
    rw [List.mem_singleton.mp hl]
    simpa using hpath

def kickstartDisk : Inventory kickstart := linkedDisk kickstart rfl (by decide)

def preseedDisk : Inventory preseed :=
  linkedDisk preseed (by decide +kernel) (by decide +kernel)

def suseDisk : Inventory suse := linkedDisk suse (by decide +kernel) (by decide +kernel)

/-- A reserve as on all the other disks. -/
def reserving : Options :=
  { listing "/home 20%" with
    disk_reserve_size := some "sda 20G", default_disk_reserve_size := "20G" }

/-- A limit on one disk. -/
def limiting : Options := { listing "/home 20%" with disk_max_size := some "sda 100G" }

theorem busLinks_suseDisk (o : Options)
    (hreserve : ∀ f ∈ diskFields o.disk_reserve_size, f.disk_name = "sda")
    (hmax : ∀ f ∈ diskFields o.disk_max_size, f.disk_name = "sda") :
    BusLinks o suseDisk.links := by
  have hlink : ∀ l ∈ suseDisk.links, l.path_name = "pci-0000:00:1f.2-ata-1" := by decide
  have hbus : "sda" ≠ bus "pci-0000:00:1f.2-ata-1" := by decide +kernel
  refine ⟨by decide +kernel, fun l hl f hf => ?_, fun l hl f hf => ?_⟩
  · rw [hreserve f hf, hlink l hl]
    exact hbus
  · rw [hmax f hf, hlink l hl]
    exact hbus

theorem reserving_lists :
    ListsDisks reserving.disk_reserve_size reserving.default_disk_reserve_size ∧
    ListsDisks reserving.disk_max_size reserving.default_disk_max_size := by decide +kernel

theorem limiting_lists :
    ListsDisks limiting.disk_reserve_size limiting.default_disk_reserve_size ∧
    ListsDisks limiting.disk_max_size limiting.default_disk_max_size := by decide +kernel

theorem reserving_links : BusLinks reserving suseDisk.links :=
  busLinks_suseDisk reserving (by decide +kernel) (by decide +kernel)

theorem selected_sda : (∀ n ∈ ["sda"], isName n = true) ∧ (∀ n ∈ ["sda"], n ∈ preseedDisk.drives) ∧
    ∀ n ∈ ["sda"], n ∈ suseDisk.drives := by decide +kernel

/-- By its kernel name the disk gets its reserve from all three scripts. -/
theorem reserving_sized :
    (∃ lines, partInclude Bash.plain reserving (["sda"].map (kickstartDisk.device false)) =
        some lines ∧ KickstartSizes reserving (kickstartDisk.device false) ["sda"] lines) ∧
    (∃ parts, Preseed.diskRecipe false (preseedDisk.scan false).tables reserving
        (["sda"].map (preseedDisk.device false)) = some parts ∧
      PreseedSizes reserving (preseedDisk.device false) ["sda"] parts) ∧
    ∃ ds, Suse.drives ⟨"", ""⟩ reserving (["sda"].map (suseDisk.device false)) = some ds ∧
      SuseSizes reserving (suseDisk.device false) ["sda"] ds := by
  obtain ⟨hnames, hpreseed, hsuse⟩ := selected_sda
  have hall := disk_sizes_iff reserving_lists.1 reserving_lists.2 kickstartDisk preseedDisk suseDisk
    hnames hpreseed hsuse reserving_links false
  obtain ⟨lines, hlines⟩ := Option.isSome_iff_exists.mp
    (show (partInclude Bash.plain reserving (["sda"].map (kickstartDisk.device false))).isSome =
      true by decide +kernel)
  obtain ⟨parts, hparts⟩ := Option.isSome_iff_exists.mp
    (show (Preseed.diskRecipe false (preseedDisk.scan false).tables reserving
      (["sda"].map (preseedDisk.device false))).isSome = true by decide +kernel)
  obtain ⟨ds, hds⟩ := Option.isSome_iff_exists.mp
    (show (Suse.drives ⟨"", ""⟩ reserving (["sda"].map (suseDisk.device false))).isSome = true by
      decide +kernel)
  have hdefaults : OnlyDefaults reserving ["sda"] := by
    unfold OnlyDefaults
    decide +kernel
  have haddresses : AddressesFit reserving suseDisk false ["sda"] := by
    unfold AddressesFit
    decide +kernel
  exact ⟨⟨lines, hlines, (hall.1 _ lines hlines).mpr hdefaults⟩,
    ⟨parts, hparts, hall.2.1 parts hparts⟩, ds, hds, (hall.2.2 _ ds hds).mpr haddresses⟩

/-- The kickstart script leaves out the limit, and by the link of the disk the SUSE script reserves
`0000:00:1f.2-ata-1` and not 20G. -/
theorem linkedDisk_not_sized :
    (∃ lines, partInclude Bash.plain limiting (["sda"].map (kickstartDisk.device false)) =
        some lines ∧ ¬ KickstartSizes limiting (kickstartDisk.device false) ["sda"] lines) ∧
    ∃ ds, Suse.drives ⟨"", ""⟩ reserving (["sda"].map (suseDisk.device true)) = some ds ∧
      ¬ SuseSizes reserving (suseDisk.device true) ["sda"] ds := by
  obtain ⟨hnames, -, hsuse⟩ := selected_sda
  obtain ⟨lines, hlines⟩ := Option.isSome_iff_exists.mp
    (show (partInclude Bash.plain limiting (["sda"].map (kickstartDisk.device false))).isSome =
      true by decide +kernel)
  obtain ⟨ds, hds⟩ := Option.isSome_iff_exists.mp
    (show (Suse.drives ⟨"", ""⟩ reserving (["sda"].map (suseDisk.device true))).isSome = true by
      decide +kernel)
  refine ⟨⟨lines, hlines, fun h => ?_⟩, ds, hds, fun h => ?_⟩
  · rw [kickstartSizes_iff limiting_lists.1 limiting_lists.2
      (fun n _ => slash_mem_device kickstartDisk false n) hlines] at h
    exact absurd h (by decide +kernel)
  · rw [suseSizes_iff reserving_lists.1 reserving_lists.2 reserving_links hsuse hnames hds] at h
    exact absurd h (by decide +kernel)

end Main

end CompassAdapters.Partition
