import CompassAdapters.Partition.Volumes

/-! The recipe for the volumes that `preseed_pre_partition_disks` writes. `none` stands for an
option that the template fails on, or an error at which the shell ends the script. -/
namespace CompassAdapters.Partition.Preseed
open Shell Python KickstartLayout

/-- The variables that the template sets from the options. -/
structure Variables where
  partition_names : String := ""
  default_partition_name : String := ""
  partition_point : Table := Table.unset
  partition_percentage : Table := Table.unset
  partition_size : Table := Table.unset
  partitions_size : Table := Table.unset
  partition_maxsize : Table := Table.unset

def appendName (partition_names name : String) : String :=
  if partition_names = "" then name else partition_names ++ " " ++ name

/-- The code generated for one field of `partition`. -/
def setVolume (default_partition : String) (st : Variables) (v : Volume) : Option Variables :=
  let st := { st with
    partition_names := appendName st.partition_names v.name
    default_partition_name :=
      if v.mount = default_partition then v.name else st.default_partition_name
    partition_point := st.partition_point.assign v.name v.mount }
  let vol_size := strip v.size
  if endsWith vol_size '%' then
    some { st with
      partition_percentage := st.partition_percentage.assign v.name (dropLast vol_size) }
  else (megabytes vol_size).map fun vol_min_size =>
    { st with partition_size := st.partition_size.assign v.name (toString vol_min_size) }

/-- The code generated for one field of `partition_size`. -/
def setSize (st : Variables) (v : Volume) : Option Variables :=
  (megabytes v.size).map fun vol_min_size =>
    { st with partitions_size := st.partitions_size.assign v.name (toString vol_min_size) }

/-- The code generated for one field of `partition_maxsize`. -/
def setMaxsize (st : Variables) (v : Volume) : Option Variables :=
  (megabytes v.size).map fun vol_max_size =>
    { st with partition_maxsize := st.partition_maxsize.assign v.name (toString vol_max_size) }

def render (o : Options) : Option Variables :=
  (eachVolume (setVolume o.default_partition) o.partition {}).bind fun st =>
  (eachVolume setSize o.partition_size st).bind fun st =>
  eachVolume setMaxsize o.partition_maxsize st

/-- `default_partition_name`, once it is no longer empty. -/
def Variables.defaultName (st : Variables) : String := orDefault st.default_partition_name "root"

/-- The body of the loop that leaves the rest of the percentages to the default partition. -/
def subtractPercentage (st : Variables) (default_partition_percentage key : String) :
    Option String :=
  if key = st.defaultName then some default_partition_percentage
  else if key = "swap" then some default_partition_percentage
  else (st.partition_percentage.expand key).bind fun partition_percentage =>
    if partition_percentage = "" then some default_partition_percentage
    else if isGreater default_partition_percentage partition_percentage then
      (arithmetic default_partition_percentage).bind fun a =>
        (arithmetic partition_percentage).map fun b => toString (a - b)
    else some "0"

/-- A volume is added where its `partition_point_…` is empty. -/
def Variables.addVolume (st : Variables) (name mount : String) : Variables :=
  if st.partition_point.get name = "" then
    { st with
      partition_point := Function.update st.partition_point name (some mount)
      partition_names := appendName st.partition_names name }
  else st

/-- `boot`, `swap` and `root`, with the settings of the first two. -/
def Variables.addImplicit (st : Variables) : Variables :=
  let st := st.addVolume "boot" "/boot"
  let partition_size := st.partition_size.setDefault "boot" "500"
  let partition_maxsize := st.partition_maxsize.setDefault "boot" (partition_size.get "boot")
  let st := st.addVolume "swap" "swap"
  Variables.addVolume { st with
    partition_size := partition_size.setDefault "swap" "256"
    partition_percentage := st.partition_percentage.setDefault "swap" "10"
    partition_maxsize := partition_maxsize.setDefault "swap" "200%" } "root" "/"

/-- The parameters `partition_param_boot` and `partition_param_swap`, of which it matters only that
they are there. -/
def partitionParam : Table := fun name =>
  if name = "boot" ∨ name = "swap" then some "primary" else none

/-- What is written for a volume: `lv_name` only where it has no parameters of its own. -/
structure Entry where
  key : String
  partition : String
  partition_percentage : String
  partition_size : String
  partition_maxsize : String
  lv_name : Option String
  deriving DecidableEq

/-- The priority of the volume, with its percentage unless that is zero or no number. -/
def Entry.partition_factor (e : Entry) : String :=
  if isNonzero e.partition_percentage then e.partition_size ++ "+" ++ e.partition_percentage ++ "%"
  else e.partition_size

/-- The percentage that is written. -/
def Entry.percentage (e : Entry) : ℤ := (number e.partition_percentage).getD 0

/-- The body of the loop over `partition_names`. -/
def entry (st : Variables) (key : String) : Option Entry :=
  (st.partition_point.expand key).bind fun partition =>
  (st.partition_percentage.expand key).bind fun partition_percentage =>
  (st.partition_size.expand key).bind fun partition_size =>
  (st.partition_maxsize.expand key).bind fun partition_maxsize =>
  (partitionParam.expand key).map fun partition_param =>
    { key, partition
      partition_percentage := orDefault partition_percentage "0"
      partition_size := orDefault partition_size "1"
      partition_maxsize := orDefault partition_maxsize "-1"
      lv_name := if partition_param = "" then some (key ++ "vol") else none }

/-- The variables that the recipe is written from, with the rest of the percentages. -/
def finalVariables (st : Variables) (percentage : String) : Variables :=
  Variables.addImplicit { st with
    partition_percentage := st.partition_percentage.assign st.defaultName percentage }

/-- The script from the variables on. -/
def recipeOf (st : Variables) : Option (List Entry) :=
  ((words st.partition_names).foldlM (subtractPercentage st) "100").bind fun percentage =>
    let st := finalVariables st percentage
    (words st.partition_names).mapM (entry st)

def recipe (o : Options) : Option (List Entry) := (render o).bind recipeOf

section Render

/-- The percentage of a field of `partition`. -/
def percentText (v : Volume) : Option String :=
  if endsWith (strip v.size) '%' then some (dropLast (strip v.size)) else none

/-- The size of a field of `partition` without a percentage. -/
def sizeText (v : Volume) : Option String :=
  if endsWith (strip v.size) '%' then none
  else (megabytes (strip v.size)).map fun vol_min_size => toString vol_min_size

/-- What the template makes of the options, for the variables that are read again. -/
structure Rendered (o : Options) (st : Variables) : Prop where
  names : st.partition_names =
    (volumes o.partition).foldl (fun names v => appendName names v.name) ""
  default : st.default_partition_name = (volumes o.partition).foldl
    (fun name v => if v.mount = o.default_partition then v.name else name) ""
  point : st.partition_point =
    Table.unset.fill Volume.name (fun v => some v.mount) (volumes o.partition)
  percentage : st.partition_percentage =
    Table.unset.fill Volume.name percentText (volumes o.partition)
  size : st.partition_size = Table.unset.fill Volume.name sizeText (volumes o.partition)
  sizes : ∀ v ∈ volumes o.partition, endsWith (strip v.size) '%' = false →
    (megabytes (strip v.size)).isSome = true

variable {o : Options} {st st' : Variables}

theorem foldlM_setVolume {d : String} {vs : List Volume}
    (h : vs.foldlM (setVolume d) st = some st') :
    st'.partition_names = vs.foldl (fun names v => appendName names v.name) st.partition_names ∧
    st'.default_partition_name =
      vs.foldl (fun name v => if v.mount = d then v.name else name) st.default_partition_name ∧
    st'.partition_point = st.partition_point.fill Volume.name (fun v => some v.mount) vs ∧
    st'.partition_percentage = st.partition_percentage.fill Volume.name percentText vs ∧
    st'.partition_size = st.partition_size.fill Volume.name sizeText vs ∧
    ∀ v ∈ vs, endsWith (strip v.size) '%' = false →
      (megabytes (strip v.size)).isSome = true := by
  induction vs generalizing st with
  | nil =>
    obtain rfl : st = st' := Option.some.inj h
    exact ⟨rfl, rfl, rfl, rfl, rfl, fun v hv => absurd hv List.not_mem_nil⟩
  | cons v vs ih =>
    rw [List.foldlM_cons] at h
    obtain ⟨mid, hmid, hrest⟩ := Option.bind_eq_some_iff.mp h
    obtain ⟨hnames, hdefault, hpoint, hpercentage, hsize, hsizes⟩ := ih hrest
    rw [hnames, hdefault, hpoint, hpercentage, hsize]
    simp only [List.foldl_cons, Table.fill_cons, percentText, sizeText]
    rw [setVolume] at hmid
    split at hmid
    next hpercent =>
      obtain rfl := Option.some.inj hmid
      rw [if_pos hpercent, if_pos hpercent]
      refine ⟨rfl, rfl, rfl, rfl, rfl, List.forall_mem_cons.mpr ⟨fun hfixed => ?_, hsizes⟩⟩
      rw [hpercent] at hfixed
      cases hfixed
    next hpercent =>
      obtain ⟨n, hn, rfl⟩ := Option.map_eq_some_iff.mp hmid
      rw [if_neg hpercent, if_neg hpercent, hn]
      exact ⟨rfl, rfl, rfl, rfl, rfl, List.forall_mem_cons.mpr ⟨fun _ => by rw [hn]; rfl, hsizes⟩⟩

theorem render_spec (h : render o = some st) : Rendered o st := by
  obtain ⟨first, hfirst, h⟩ := Option.bind_eq_some_iff.mp h
  obtain ⟨second, hsecond, hthird⟩ := Option.bind_eq_some_iff.mp h
  obtain ⟨hnames, hdefault, hpoint, hpercentage, hsize, hsizes⟩ :=
    foldlM_setVolume (eachVolume_eq_some hfirst)
  have hrendered : Rendered o first := ⟨hnames, hdefault, hpoint, hpercentage, hsize, hsizes⟩
  -- the loops over the other two options leave these variables as they are
  have hrendered : Rendered o second := by
    refine eachVolume_preserves (fun st v st' hst' hst => ?_) hsecond hrendered
    obtain ⟨n, -, rfl⟩ := Option.map_eq_some_iff.mp hst'
    exact ⟨hst.names, hst.default, hst.point, hst.percentage, hst.size, hst.sizes⟩
  refine eachVolume_preserves (fun st v st' hst' hst => ?_) hthird hrendered
  obtain ⟨n, -, rfl⟩ := Option.map_eq_some_iff.mp hst'
  exact ⟨hst.names, hst.default, hst.point, hst.percentage, hst.size, hst.sizes⟩

end Render

section Names

variable {o : Options} {st : Variables} {name : String}

theorem words_appendName (names : String) (h : IsWord name) :
    words (appendName names name) = words names ++ [name] := by
  rw [appendName]
  split
  next hnames => rw [hnames, words_empty, words_of_isWord h, List.nil_append]
  next => rw [words_append_space, words_of_isWord h]

theorem words_foldl_appendName {vs : List Volume} (h : ∀ v ∈ vs, IsWord v.name) (names : String) :
    words (vs.foldl (fun names v => appendName names v.name) names) =
      words names ++ vs.map Volume.name := by
  induction vs generalizing names with
  | nil => exact (List.append_nil _).symm
  | cons v vs ih =>
    obtain ⟨hv, hvs⟩ := List.forall_mem_cons.mp h
    rw [List.foldl_cons, ih hvs, words_appendName _ hv, List.map_cons, List.append_assoc,
      List.singleton_append]

/-- The default volume: that of the default partition if it is listed, else the root. -/
def defaultVolume (o : Options) : String :=
  if o.default_partition ∈ mountPoints o then (volname o.default_partition).getD "root" else "root"

theorem Rendered.defaultName (h : Rendered o st) : st.defaultName = defaultVolume o := by
  have hlast (vs : List Volume) (hvs : ∀ v ∈ vs, volname v.mount = some v.name) (name : String) :
      vs.foldl (fun name v => if v.mount = o.default_partition then v.name else name) name =
        if o.default_partition ∈ vs.map Volume.mount then (volname o.default_partition).getD "root"
        else name := by
    induction vs generalizing name with
    | nil => rfl
    | cons v vs ih =>
      obtain ⟨hv, hvs⟩ := List.forall_mem_cons.mp hvs
      rw [List.foldl_cons, ih hvs, List.map_cons]
      by_cases hmount : v.mount = o.default_partition
      · have hname : (volname o.default_partition).getD "root" = v.name := by
          rw [← hmount, hv]
          rfl
        rw [if_pos hmount, hname, if_pos (List.mem_cons.mpr (Or.inl hmount.symm)), ite_self]
      · simp [hmount, Ne.symm hmount]
  rw [Variables.defaultName, h.default, hlast _ fun v hv => volname_volumes hv, map_mount_volumes,
    defaultVolume]
  split
  next hmem =>
    rw [← map_mount_volumes] at hmem
    obtain ⟨v, hv, hmount⟩ := List.mem_map.mp hmem
    rw [← hmount, volname_volumes hv, Option.getD_some, orDefault, if_neg]
    exact volname_ne_empty (volname_volumes hv)
  next => rfl

theorem defaultVolume_cases (o : Options) :
    defaultVolume o ∈ (volumes o.partition).map Volume.name ∨ defaultVolume o = "root" := by
  rw [defaultVolume]
  split
  next hmem =>
    rw [← map_mount_volumes] at hmem
    obtain ⟨v, hv, hmount⟩ := List.mem_map.mp hmem
    left
    rw [← hmount, volname_volumes hv]
    exact List.mem_map_of_mem hv
  next => exact Or.inr rfl

end Names

section Recipe

variable {o : Options} {st : Variables} {ns : List String}

/-- The names of the volumes, just those whose `partition_point_…` is not empty. -/
structure Listed (st : Variables) (ns : List String) : Prop where
  words : words st.partition_names = ns
  point : ∀ x, st.partition_point.get x ≠ "" ↔ x ∈ ns

/-- A name at the end of a list, if it is not there. -/
def addName (ns : List String) (name : String) : List String :=
  if name ∈ ns then ns else ns ++ [name]

theorem mem_addName {name x : String} : x ∈ addName ns name ↔ x ∈ ns ∨ x = name := by
  rw [addName]
  split
  next h => exact ⟨Or.inl, fun hx => hx.elim id fun hx => hx ▸ h⟩
  next => rw [List.mem_append, List.mem_singleton]

theorem nodup_addName {name : String} (h : ns.Nodup) : (addName ns name).Nodup := by
  rw [addName]
  split
  next => exact h
  next hmem =>
    refine List.nodup_append.mpr ⟨h, List.nodup_singleton name, fun x hx y hy hxy => ?_⟩
    rw [List.mem_singleton] at hy
    exact hmem (hy ▸ hxy ▸ hx)

theorem Listed.addVolume (h : Listed st ns) {name mount : String} (hname : IsWord name)
    (hmount : mount ≠ "") : Listed (st.addVolume name mount) (addName ns name) := by
  rw [Variables.addVolume, addName]
  split
  next hempty =>
    rw [if_neg fun hmem => (h.point name).mpr hmem hempty]
    refine ⟨?_, fun x => ?_⟩
    · rw [words_appendName _ hname, h.words]
    · rw [Table.get_update, List.mem_append, List.mem_singleton]
      split
      next hx => exact ⟨fun _ => Or.inr hx, fun _ => hmount⟩
      next hx => rw [h.point, or_iff_left hx]
  next hset =>
    rw [if_pos ((h.point name).mp hset)]
    exact h

/-- The settings that are no part of `Listed` may change. -/
theorem Listed.congr {st' : Variables} (h : Listed st ns)
    (hnames : st'.partition_names = st.partition_names)
    (hpoint : st'.partition_point = st.partition_point) : Listed st' ns :=
  ⟨hnames ▸ h.words, fun x => hpoint ▸ h.point x⟩

/-- The names in the recipe. -/
def allNames (ns : List String) : List String :=
  addName (addName (addName ns "boot") "swap") "root"

theorem Listed.addImplicit (h : Listed st ns) : Listed st.addImplicit (allNames ns) := by
  have hboot : Listed (st.addVolume "boot" "/boot") (addName ns "boot") :=
    h.addVolume (by decide) (by decide)
  have hswap : Listed ((st.addVolume "boot" "/boot").addVolume "swap" "swap")
      (addName (addName ns "boot") "swap") := hboot.addVolume (by decide) (by decide)
  have hroot : IsWord "root" := by decide
  have hslash : "/" ≠ "" := by decide
  rw [Variables.addImplicit, allNames]
  refine Listed.addVolume ?_ hroot hslash
  exact hswap.congr rfl rfl

theorem addVolume_partition_percentage (st : Variables) (name mount : String) :
    (st.addVolume name mount).partition_percentage = st.partition_percentage := by
  rw [Variables.addVolume]
  split
  next => rfl
  next => rfl

theorem addVolume_partition_size (st : Variables) (name mount : String) :
    (st.addVolume name mount).partition_size = st.partition_size := by
  rw [Variables.addVolume]
  split
  next => rfl
  next => rfl

theorem addImplicit_partition_percentage (st : Variables) :
    st.addImplicit.partition_percentage = st.partition_percentage.setDefault "swap" "10" := by
  rw [Variables.addImplicit]
  simp only [addVolume_partition_percentage]

theorem addImplicit_partition_size (st : Variables) : st.addImplicit.partition_size =
    (st.partition_size.setDefault "boot" "500").setDefault "swap" "256" := by
  rw [Variables.addImplicit]
  simp only [addVolume_partition_size]

/-- The entry of a volume whose name can be part of the name of a variable. -/
def entryOf (st : Variables) (key : String) : Entry where
  key := key
  partition := st.partition_point.get key
  partition_percentage := orDefault (st.partition_percentage.get key) "0"
  partition_size := orDefault (st.partition_size.get key) "1"
  partition_maxsize := orDefault (st.partition_maxsize.get key) "-1"
  lv_name := if partitionParam.get key = "" then some (key ++ "vol") else none

theorem mapM_entry (st : Variables) {keys : List String} (h : ∀ key ∈ keys, isName key = true) :
    keys.mapM (entry st) = some (keys.map (entryOf st)) := by
  refine mapM_eq_map fun key hkey => ?_
  simp only [entry, Table.expand_of_isName _ (h key hkey), Option.bind_some, Option.map_some]
  rfl

theorem Listed.finalVariables (h : Listed st ns) (percentage : String) :
    Listed (finalVariables st percentage) (allNames ns) := by
  have hassign : Listed { st with
      partition_percentage := st.partition_percentage.assign st.defaultName percentage } ns :=
    h.congr rfl rfl
  exact hassign.addImplicit

theorem recipeOf_eq (h : Listed st ns) (hns : ∀ n ∈ ns, isName n = true) :
    recipeOf st = (ns.foldlM (subtractPercentage st) "100").map fun percentage =>
      (allNames ns).map (entryOf (finalVariables st percentage)) := by
  have hall : ∀ n ∈ allNames ns, isName n = true := by
    intro n hn
    rw [allNames, mem_addName, mem_addName, mem_addName] at hn
    rcases hn with ((hn | rfl) | rfl) | rfl
    · exact hns n hn
    · decide
    · decide
    · decide
  rw [recipeOf, h.words]
  cases ns.foldlM (subtractPercentage st) "100" with
  | none => rfl
  | some percentage =>
    rw [Option.bind_some, Option.map_some]
    dsimp only
    rw [(h.finalVariables percentage).words, mapM_entry _ hall]

/-- The names can be part of the names of variables, and no two volumes have the same one. -/
theorem Rendered.listed (h : Rendered o st)
    (hnodup : ((volumes o.partition).map Volume.name).Nodup)
    (hnames : ∀ v ∈ volumes o.partition, isName v.name = true) :
    Listed st ((volumes o.partition).map Volume.name) := by
  constructor
  · rw [h.names, words_foldl_appendName (fun v hv =>
      isWord_of_isName (volname_volumes hv) (hnames v hv)), words_empty, List.nil_append]
  · obtain ⟨hin, hout⟩ := Table.unset.fill_spec Volume.name (fun v => some v.mount) hnodup
    intro x
    rw [h.point, Table.get]
    constructor
    · intro hne
      by_contra hx
      rw [hout x hx] at hne
      exact hne rfl
    · intro hx
      obtain ⟨v, hv, rfl⟩ := List.mem_map.mp hx
      rw [hin v hv (hnames v hv) fun w hw => ?_]
      swap
      · obtain rfl := Option.some.inj hw
        exact mount_no_blank (volname_volumes hv) (hnames v hv)
      intro hempty
      have hname := volname_volumes hv
      rw [show v.mount = "" from hempty] at hname
      cases hname

end Recipe

end CompassAdapters.Partition.Preseed
