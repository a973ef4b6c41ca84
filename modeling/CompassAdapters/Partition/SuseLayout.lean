import CompassAdapters.Partition.Volumes

/-! The logical volumes that `suse_pre_partition_disks` writes into the profile. -/
namespace CompassAdapters.Partition.Suse
open Shell Python KickstartLayout

/-- The variables that the template sets from the options. -/
structure Variables where
  partition_names : List String := []
  default_partition_name : String := ""
  partition_point : Table := Table.unset
  partition_percentage : Table := Table.unset
  partition_size : Table := Table.unset
  partitions_size : Table := Table.unset
  partition_maxsize : Table := Table.unset

/-- The code generated for one field of `partition`. -/
def setVolume (default_partition : String) (st : Variables) (v : Volume) : Option Variables :=
  let st := { st with
    partition_names := st.partition_names ++ words v.name
    default_partition_name :=
      if v.mount = default_partition then v.name else st.default_partition_name
    partition_point := st.partition_point.assign v.name v.mount }
  let vol_size := strip v.size
  if endsWith vol_size '%' then
    some { st with partition_percentage := st.partition_percentage.assign v.name vol_size }
  else some { st with partition_size := st.partition_size.assign v.name vol_size }

/-- The code generated for one field of `partition_size`. -/
def setSize (st : Variables) (v : Volume) : Option Variables :=
  some { st with partitions_size := st.partitions_size.assign v.name v.size }

/-- The code generated for one field of `partition_maxsize`. -/
def setMaxsize (st : Variables) (v : Volume) : Option Variables :=
  some { st with partition_maxsize := st.partition_maxsize.assign v.name v.size }

def render (o : Options) : Option Variables :=
  (eachVolume (setVolume o.default_partition) o.partition {}).bind fun st =>
  (eachVolume setSize o.partition_size st).bind fun st =>
  eachVolume setMaxsize o.partition_maxsize st

/-- The root and the default partition are added where they have no mount point. -/
def addDefaults (st : Variables) : Variables :=
  let default_partition_name := orDefault st.default_partition_name "root"
  let st :=
    if st.partition_point.get "root" = "" then
      { st with
        partition_names := st.partition_names ++ ["root"]
        partition_point := Function.update st.partition_point "root" (some "/") }
    else st
  if (st.partition_point.expand default_partition_name).getD "" = "" then
    { st with
      partition_names := st.partition_names ++ words default_partition_name
      partition_point :=
        st.partition_point.assign default_partition_name ("/" ++ default_partition_name) }
  else st

/-- The variables of the loop over the volumes. An `eval` with a bad substitution leaves them as
they are. -/
structure LoopVariables where
  used_partition : String
  partition : String
  percentage : String
  size : String

/-- What is written for a volume. -/
structure Entry where
  lv_name : String
  mount : String
  size : String
  deriving DecidableEq

/-- `/boot` and `swap` are on the first disk. -/
def usedPartition : Table := fun name =>
  if name = "boot" then some "/boot" else if name = "swap" then some "swap" else none

/-- `<size>`. -/
def sizeElement (size : String) : String := if size ≠ "" ∧ size ≠ "0" then size else "max"

/-- The body of the loop over `partition_names`. -/
def writeVolume (st : Variables) (s : LoopVariables × List Entry) (partition_name : String) :
    LoopVariables × List Entry :=
  let used_partition := (usedPartition.expand partition_name).getD s.1.used_partition
  if used_partition ≠ "" then ({ s.1 with used_partition }, s.2)
  else
    let partition := (st.partition_point.expand partition_name).getD s.1.partition
    let percentage := (st.partition_percentage.expand partition_name).getD s.1.percentage
    let size :=
      if percentage ≠ "" ∧ percentage ≠ "0" then percentage
      else (st.partition_size.expand partition_name).getD s.1.size
    (⟨used_partition, partition, percentage, size⟩,
      s.2 ++ [⟨partition_name ++ "vol", partition, sizeElement size⟩])

/-- The volumes of the group, from what the code before has left in the variables of the loop. -/
def volumeGroup (before : LoopVariables) (st : Variables) : List Entry :=
  ((addDefaults st).partition_names.foldl (writeVolume (addDefaults st)) (before, [])).2

def profile (before : LoopVariables) (o : Options) : Option (List Entry) :=
  (render o).map (volumeGroup before)

section Render

/-- The percentage of a field of `partition`. -/
def percentText (v : Volume) : Option String :=
  if endsWith (strip v.size) '%' then some (strip v.size) else none

/-- The size of a field of `partition` without a percentage. -/
def sizeText (v : Volume) : Option String :=
  if endsWith (strip v.size) '%' then none else some (strip v.size)

/-- What the template makes of the options, for the variables that are read again. -/
structure Rendered (o : Options) (st : Variables) : Prop where
  names : st.partition_names = (volumes o.partition).flatMap fun v => words v.name
  default : st.default_partition_name = "" ∨
    st.default_partition_name ∈ (volumes o.partition).map Volume.name
  point : st.partition_point =
    Table.unset.fill Volume.name (fun v => some v.mount) (volumes o.partition)
  percentage : st.partition_percentage =
    Table.unset.fill Volume.name percentText (volumes o.partition)
  size : st.partition_size = Table.unset.fill Volume.name sizeText (volumes o.partition)

variable {o : Options} {st st' : Variables}

/-- What one volume adds to the variables. -/
theorem setVolume_spec {d : String} {v : Volume} (h : setVolume d st v = some st') :
    st'.partition_names = st.partition_names ++ words v.name ∧
    (st'.default_partition_name = st.default_partition_name ∨
      st'.default_partition_name = v.name) ∧
    st'.partition_point = st.partition_point.assign v.name v.mount ∧
    st'.partition_percentage = (percentText v).elim st.partition_percentage
      (st.partition_percentage.assign v.name) ∧
    st'.partition_size = (sizeText v).elim st.partition_size (st.partition_size.assign v.name) := by
  rw [setVolume] at h
  rw [percentText, sizeText]
  split at h
  next hpercent =>
    obtain rfl := Option.some.inj h
    rw [if_pos hpercent, if_pos hpercent]
    exact ⟨rfl, (ite_eq_or_eq _ _ _).symm, rfl, rfl, rfl⟩
  next hpercent =>
    obtain rfl := Option.some.inj h
    rw [if_neg hpercent, if_neg hpercent]
    exact ⟨rfl, (ite_eq_or_eq _ _ _).symm, rfl, rfl, rfl⟩

theorem foldlM_setVolume {d : String} {vs : List Volume}
    (h : vs.foldlM (setVolume d) st = some st') :
    st'.partition_names = st.partition_names ++ vs.flatMap (fun v => words v.name) ∧
    (st'.default_partition_name = st.default_partition_name ∨
      st'.default_partition_name ∈ vs.map Volume.name) ∧
    st'.partition_point = st.partition_point.fill Volume.name (fun v => some v.mount) vs ∧
    st'.partition_percentage = st.partition_percentage.fill Volume.name percentText vs ∧
    st'.partition_size = st.partition_size.fill Volume.name sizeText vs := by
  induction vs generalizing st with
  | nil =>
    obtain rfl : st = st' := Option.some.inj h
    exact ⟨(List.append_nil _).symm, Or.inl rfl, rfl, rfl, rfl⟩
  | cons v vs ih =>
    rw [List.foldlM_cons] at h
    obtain ⟨mid, hmid, hrest⟩ := Option.bind_eq_some_iff.mp h
    obtain ⟨hnames, hdefault, hpoint, hpercentage, hsize⟩ := ih hrest
    obtain ⟨hnames', hdefault', hpoint', hpercentage', hsize'⟩ := setVolume_spec hmid
    refine ⟨?_, ?_, ?_, ?_, ?_⟩
    · rw [hnames, hnames', List.flatMap_cons, List.append_assoc]
    · rw [List.map_cons, List.mem_cons]
      rcases hdefault with h | h
      · rw [h]
        exact hdefault'.imp_right Or.inl
      · exact Or.inr (Or.inr h)
    · rw [hpoint, hpoint', Table.fill_cons]
      rfl
    · rw [hpercentage, hpercentage', Table.fill_cons]
    · rw [hsize, hsize', Table.fill_cons]

theorem render_spec (h : render o = some st) : Rendered o st := by
  obtain ⟨first, hfirst, h⟩ := Option.bind_eq_some_iff.mp h
  obtain ⟨second, hsecond, hthird⟩ := Option.bind_eq_some_iff.mp h
  obtain ⟨hnames, hdefault, hpoint, hpercentage, hsize⟩ :=
    foldlM_setVolume (eachVolume_eq_some hfirst)
  have hrendered : Rendered o first := ⟨hnames, hdefault, hpoint, hpercentage, hsize⟩
  -- the loops over the other two options leave these variables as they are
  have hrendered : Rendered o second := by
    refine eachVolume_preserves (fun st v st' hst' hst => ?_) hsecond hrendered
    obtain rfl := Option.some.inj hst'
    exact ⟨hst.names, hst.default, hst.point, hst.percentage, hst.size⟩
  refine eachVolume_preserves (fun st v st' hst' hst => ?_) hthird hrendered
  obtain rfl := Option.some.inj hst'
  exact ⟨hst.names, hst.default, hst.point, hst.percentage, hst.size⟩

end Render

section Group

variable {o : Options} {st : Variables}

theorem addDefaults_tables (st : Variables) :
    (addDefaults st).partition_percentage = st.partition_percentage ∧
      (addDefaults st).partition_size = st.partition_size := by
  unfold addDefaults
  dsimp only
  split <;> split <;> exact ⟨rfl, rfl⟩

/-- The root and the default partition may come behind the listed volumes. -/
theorem mem_addDefaults (st : Variables) (n : String) :
    (n ∈ st.partition_names → n ∈ (addDefaults st).partition_names) ∧
      (n ∈ (addDefaults st).partition_names → n ∈ st.partition_names ∨ n = "root" ∨
        n ∈ words (orDefault st.default_partition_name "root")) := by
  unfold addDefaults
  dsimp only
  split <;> split
  · simp only [List.mem_append, List.mem_singleton]
    tauto
  · simp only [List.mem_append, List.mem_singleton]
    tauto
  · simp only [List.mem_append]
    tauto
  · exact ⟨id, Or.inl⟩

/-- The volumes that are added have names as the listed ones do. -/
theorem addDefaults_spec (h : Rendered o st)
    (hnames : ∀ v ∈ volumes o.partition, isName v.name = true) :
    (∀ n ∈ (addDefaults st).partition_names, isName n = true) ∧
    ∀ v ∈ volumes o.partition, v.name ∈ (addDefaults st).partition_names := by
  have hword : ∀ v ∈ volumes o.partition, words v.name = [v.name] := fun v hv =>
    words_of_isWord (isWord_of_isName (volname_volumes hv) (hnames v hv))
  have hlisted (n : String) : n ∈ st.partition_names ↔ ∃ v ∈ volumes o.partition, v.name = n := by
    rw [h.names, List.mem_flatMap]
    constructor
    · rintro ⟨v, hv, hn⟩
      rw [hword v hv, List.mem_singleton] at hn
      exact ⟨v, hv, hn.symm⟩
    · rintro ⟨v, hv, rfl⟩
      exact ⟨v, hv, by rw [hword v hv]; exact List.mem_singleton_self _⟩
  have hdefault : ∀ n ∈ words (orDefault st.default_partition_name "root"), isName n = true := by
    rw [orDefault]
    rcases h.default with hempty | hmem
    · rw [if_pos hempty]
      decide +kernel
    · obtain ⟨v, hv, hname⟩ := List.mem_map.mp hmem
      rw [← hname, if_neg (volname_ne_empty (volname_volumes hv)), hword v hv]
      intro n hn
      rw [List.mem_singleton.mp hn]
      exact hnames v hv
  refine ⟨fun n hn => ?_, fun v hv => (mem_addDefaults st _).1 ((hlisted _).mpr ⟨v, hv, rfl⟩)⟩
  rcases (mem_addDefaults st n).2 hn with hn | rfl | hn
  · obtain ⟨v, hv, rfl⟩ := (hlisted n).mp hn
    exact hnames v hv
  · decide
  · exact hdefault n hn

/-- The entry of a volume whose name can be part of the name of a variable. -/
def entryOf (st : Variables) (name : String) : Entry where
  lv_name := name ++ "vol"
  mount := st.partition_point.get name
  size := sizeElement
    (if st.partition_percentage.get name ≠ "" ∧ st.partition_percentage.get name ≠ "0" then
      st.partition_percentage.get name
    else st.partition_size.get name)

theorem usedPartition_get (name : String) :
    usedPartition.get name ≠ "" ↔ name = "boot" ∨ name = "swap" := by
  rw [Table.get, usedPartition]
  split
  next h => exact iff_of_true (by decide) (Or.inl h)
  next hboot =>
    split
    next h => exact iff_of_true (by decide) (Or.inr h)
    next hswap => exact iff_of_false (fun h => h rfl) (not_or.mpr ⟨hboot, hswap⟩)

theorem foldl_writeVolume {names : List String} (hnames : ∀ n ∈ names, isName n = true)
    (s : LoopVariables × List Entry) : (names.foldl (writeVolume st) s).2 =
      s.2 ++ (names.filter fun n => n ≠ "boot" ∧ n ≠ "swap").map (entryOf st) := by
  induction names generalizing s with
  | nil => exact (List.append_nil _).symm
  | cons n names ih =>
    obtain ⟨hn, hnames⟩ := List.forall_mem_cons.mp hnames
    rw [List.foldl_cons, ih hnames]
    by_cases hused : n = "boot" ∨ n = "swap"
    · rw [List.filter_cons_of_neg (by simpa [or_iff_not_imp_left] using hused)]
      rw [writeVolume]
      simp only [Table.expand_of_isName _ hn, Option.getD_some]
      rw [if_pos ((usedPartition_get n).mpr hused)]
    · have hkept : n ≠ "boot" ∧ n ≠ "swap" := not_or.mp hused
      rw [List.filter_cons_of_pos (by simpa using hkept), List.map_cons]
      rw [writeVolume]
      simp only [Table.expand_of_isName _ hn, Option.getD_some]
      rw [if_neg fun h => hused ((usedPartition_get n).mp h), List.append_assoc]
      rfl

end Group

end CompassAdapters.Partition.Suse
