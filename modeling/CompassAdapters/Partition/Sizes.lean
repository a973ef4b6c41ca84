import CompassAdapters.Partition.PreseedLayout
import CompassAdapters.Partition.SuseLayout

/-! The fixed sizes that the three scripts write for the listed volumes, against those that the
options give. -/
namespace CompassAdapters.Partition
open Shell Python KickstartLayout

/-- A listed volume without a percentage, neither `/boot` nor `swap`. -/
def Fixed (v : Volume) : Prop :=
  v.name ≠ "boot" ∧ v.name ≠ "swap" ∧ endsWith (strip v.size) '%' = false

/-- The field of `partition_size` for a volume. -/
def override (o : Options) (v : Volume) : Option Volume :=
  (volumes o.partition_size).find? fun w => w.mount = v.mount

/-- The size that the options give a volume, in `M`. -/
def wanted (o : Options) (v : Volume) : Option ℤ :=
  (override o v).elim (megabytes (strip v.size)) fun w => megabytes w.size

/-- The size that the options give a volume, as it is written in them. -/
def wantedText (o : Options) (v : Volume) : String :=
  (override o v).elim (strip v.size) fun w => strip w.size

/-- There is an element with the property, and the value of each one is `b`. -/
def Writes {α : Type} (p : α → Prop) (value : α → String → Prop) (xs : List α) (b : String) :
    Prop :=
  (∃ x ∈ xs, p x) ∧ ∀ x ∈ xs, p x → ∀ s, value x s ↔ s = b

def KickstartLayout.Line.HasSize (line : Line) (size : String) : Prop :=
  "--size=" ++ size ∈ line.options

theorem Writes.unique {α : Type} {p : α → Prop} {value : α → String → Prop} {xs : List α}
    {a b : String} (ha : Writes p value xs a) (hb : Writes p value xs b) : a = b := by
  obtain ⟨x, hx, hp⟩ := ha.1
  exact (hb.2 x hx hp a).mp ((ha.2 x hx hp a).mpr rfl)

/-- No two listed volumes have the same name, nor two volumes in `partition_size`. -/
structure DistinctNames (o : Options) : Prop where
  partition : ((volumes o.partition).map Volume.name).Nodup
  partition_size : ((volumes o.partition_size).map Volume.name).Nodup

section Overrides

variable {o : Options} {v w : Volume}

theorem volume_eq {option : Option String} (h : ((volumes option).map Volume.name).Nodup)
    (hv : v ∈ volumes option) (hw : w ∈ volumes option) (hmount : v.mount = w.mount) : v = w := by
  refine List.inj_on_of_nodup_map h hv hw ?_
  have hname :=
    (volname_volumes hv).symm.trans ((congrArg volname hmount).trans (volname_volumes hw))
  exact Option.some.inj hname

theorem mem_of_override (h : override o v = some w) :
    w ∈ volumes o.partition_size ∧ w.mount = v.mount := by
  have hmount := List.find?_some (p := fun w : Volume => decide (w.mount = v.mount)) h
  exact ⟨List.mem_of_find?_eq_some h, of_decide_eq_true hmount⟩

theorem override_eq_some (h : DistinctNames o) :
    override o v = some w ↔ w ∈ volumes o.partition_size ∧ w.mount = v.mount := by
  constructor
  · exact mem_of_override
  · rintro ⟨hw, hmount⟩
    cases hfind : override o v with
    | none =>
      have hnone := List.find?_eq_none.mp hfind w hw
      exact absurd (decide_eq_true hmount) hnone
    | some w' =>
      obtain ⟨hw', hmount'⟩ := mem_of_override hfind
      rw [volume_eq h.partition_size hw' hw (hmount'.trans hmount.symm)]

theorem override_eq_none :
    override o v = none ↔ ∀ w ∈ volumes o.partition_size, w.mount ≠ v.mount := by
  rw [override, List.find?_eq_none]
  simp

end Overrides

section Kickstart

variable {o : Options} {arrays arrays' : Arrays}

/-- What a loop over some pairs stores under a key. -/
theorem get_foldl_pairs (pairs : List (String × String)) (a : AssocArray) {x : String}
    (hx : x ≠ "") : (pairs.foldl (fun a p => a.assign p.1 p.2) a).get x =
      lastMatch (fun p => p.1 == x) Prod.snd (a.get x) pairs := by
  induction pairs generalizing a with
  | nil => rfl
  | cons p pairs ih =>
    rw [List.foldl_cons, ih, lastMatch_cons]
    congr 1
    by_cases hp : p.1 = ""
    · have hne : (p.1 == x) = false := beq_false_of_ne (hp ▸ Ne.symm hx)
      rw [hne, if_neg Bool.false_ne_true, AssocArray.assign, if_pos hp]
    · rw [AssocArray.get_assign a hp, Function.update_apply]
      by_cases hkey : x = p.1
      · rw [if_pos hkey, if_pos (beq_iff_eq.mpr hkey.symm)]
      · rw [if_neg hkey, if_neg (by simpa using Ne.symm hkey)]

/-- The name and the size of a field. -/
def sizePair (name_and_size : String) : Option (String × String) :=
  (splitOnce ' ' name_and_size).bind fun (name, size) =>
    (megabytes size).map fun size => (strip name, toString size)

theorem foldlM_setSize {fs : List String} {table table' : AssocArray}
    (h : fs.foldlM setSize table = some table') :
    table' = (fs.filterMap sizePair).foldl (fun a p => a.assign p.1 p.2) table ∧
      ∀ f ∈ fs, (sizePair f).isSome = true := by
  induction fs generalizing table with
  | nil =>
    obtain rfl : table = table' := Option.some.inj h
    exact ⟨rfl, fun f hf => absurd hf List.not_mem_nil⟩
  | cons f fs ih =>
    rw [List.foldlM_cons] at h
    obtain ⟨mid, hmid, hrest⟩ := Option.bind_eq_some_iff.mp h
    obtain ⟨⟨name, size⟩, hsplit, hmid⟩ := Option.bind_eq_some_iff.mp hmid
    obtain ⟨n, hn, rfl⟩ := Option.map_eq_some_iff.mp hmid
    have hpair : sizePair f = some (strip name, toString n) := by
      simp only [sizePair, hsplit, Option.bind_some, hn, Option.map_some]
    obtain ⟨htable, hall⟩ := ih hrest
    refine ⟨?_, List.forall_mem_cons.mpr ⟨by rw [hpair]; rfl, hall⟩⟩
    rw [List.filterMap_cons_some hpair, List.foldl_cons]
    exact htable

/-- The mount point and the size of a volume without a percentage. -/
def volumePair (v : Volume) : Option (String × String) :=
  (Preseed.sizeText v).map fun size => (v.mount, size)

/-- What the code for a field of `partition` does with the sizes. -/
theorem setVolume_sizes {f : String} (h : setVolume arrays f = some arrays') :
    arrays'.partitions_size =
      ((volumeOf f).bind volumePair).elim arrays.partitions_size
        (fun p => arrays.partitions_size.assign p.1 p.2) ∧
      ∀ v ∈ volumeOf f, endsWith (strip v.size) '%' = false →
        (megabytes (strip v.size)).isSome = true := by
  obtain ⟨⟨vol, vol_size⟩, hsplit, h⟩ := Option.bind_eq_some_iff.mp h
  have hvolume :
      volumeOf f = (volname (strip vol)).map fun name => ⟨strip vol, name, vol_size⟩ := by
    simp only [volumeOf, hsplit, Option.bind_some]
  rw [hvolume]
  dsimp only at h
  split at h
  next hname =>
    obtain rfl := Option.some.inj h
    rw [hname]
    exact ⟨rfl, fun v hv => by cases hv⟩
  next name hname =>
    rw [hname, Option.map_some, Option.bind_some, volumePair, Preseed.sizeText]
    dsimp only
    split at h
    next hpercent =>
      obtain rfl := Option.some.inj h
      rw [if_pos hpercent]
      refine ⟨rfl, fun v hv hfixed => ?_⟩
      obtain rfl := Option.some.inj hv
      rw [hpercent] at hfixed
      cases hfixed
    next hpercent =>
      obtain ⟨n, hn, rfl⟩ := Option.map_eq_some_iff.mp h
      rw [if_neg hpercent, hn]
      simp only [Option.map_some, Option.elim_some]
      refine ⟨trivial, fun v hv _ => ?_⟩
      obtain rfl := Option.some.inj hv
      rw [hn]
      rfl

theorem foldlM_setVolume {fs : List String} (h : fs.foldlM setVolume arrays = some arrays') :
    arrays'.partitions_size = ((fs.filterMap volumeOf).filterMap volumePair).foldl
      (fun a p => a.assign p.1 p.2) arrays.partitions_size ∧
      ∀ v ∈ fs.filterMap volumeOf, endsWith (strip v.size) '%' = false →
        (megabytes (strip v.size)).isSome = true := by
  induction fs generalizing arrays with
  | nil =>
    obtain rfl : arrays = arrays' := Option.some.inj h
    exact ⟨rfl, fun v hv => absurd hv List.not_mem_nil⟩
  | cons f fs ih =>
    rw [List.foldlM_cons] at h
    obtain ⟨mid, hmid, hrest⟩ := Option.bind_eq_some_iff.mp h
    obtain ⟨hsizes, hsome⟩ := setVolume_sizes hmid
    obtain ⟨hloop, hall⟩ := ih hrest
    cases hvolume : volumeOf f with
    | none =>
      rw [hvolume] at hsizes
      rw [List.filterMap_cons_none hvolume]
      rw [hsizes] at hloop
      exact ⟨hloop, hall⟩
    | some v =>
      rw [hvolume, Option.bind_some] at hsizes
      rw [List.filterMap_cons_some hvolume]
      refine ⟨?_, List.forall_mem_cons.mpr ⟨hsome v hvolume, hall⟩⟩
      rw [hloop, hsizes]
      cases hpair : volumePair v with
      | none =>
        rw [List.filterMap_cons_none hpair]
        rfl
      | some p =>
        rw [List.filterMap_cons_some hpair]
        rfl

theorem mount_ne_empty {option : Option String} {v : Volume} (hv : v ∈ volumes option) :
    v.mount ≠ "" := by
  intro hempty
  have hname := volname_volumes hv
  rw [hempty, volname_eq_none] at hname
  cases hname

/-- A pair that is stored under an accepted mount point is that of its field. -/
theorem sizePair_volume {f : String} {p : String × String} {name : String}
    (hpair : sizePair f = some p) (hname : volname p.1 = some name) :
    ∃ w, volumeOf f = some w ∧ w.mount = p.1 ∧ (megabytes w.size).map toString = some p.2 := by
  obtain ⟨⟨vol, vol_size⟩, hsplit, hpair⟩ := Option.bind_eq_some_iff.mp hpair
  obtain ⟨n, hn, rfl⟩ := Option.map_eq_some_iff.mp hpair
  refine ⟨⟨strip vol, name, vol_size⟩, ?_, rfl, ?_⟩
  · simp only [volumeOf, hsplit, Option.bind_some, hname, Option.map_some]
  · rw [hn, Option.map_some]

/-- The last pair of `partition_size` for a volume is that of its field. -/
theorem lastMatch_override (hdistinct : DistinctNames o) {v w : Volume}
    (hv : v ∈ volumes o.partition) (hoverride : override o v = some w)
    (hall : ∀ f ∈ fields o.partition_size, (sizePair f).isSome = true) (otherwise : String) :
    ∃ n, megabytes w.size = some n ∧ lastMatch (fun p => p.1 == v.mount) Prod.snd otherwise
      ((fields o.partition_size).filterMap sizePair) = toString n := by
  have hname := volname_volumes hv
  obtain ⟨hw, hmount⟩ := mem_of_override hoverride
  obtain ⟨f, hf, hvolume⟩ := List.mem_filterMap.mp hw
  obtain ⟨p, hp⟩ := Option.isSome_iff_exists.mp (hall f hf)
  have hkey : p.1 = v.mount := by
    obtain ⟨⟨vol, vol_size⟩, hsplit, hp'⟩ := Option.bind_eq_some_iff.mp hp
    obtain ⟨n, -, rfl⟩ := Option.map_eq_some_iff.mp hp'
    simp only [volumeOf, hsplit, Option.bind_some] at hvolume
    obtain ⟨name, -, rfl⟩ := Option.map_eq_some_iff.mp hvolume
    exact hmount
  have hvalue : ∀ q ∈ (fields o.partition_size).filterMap sizePair, (q.1 == v.mount) = true →
      (megabytes w.size).map toString = some q.2 := by
    intro q hq hqkey
    obtain ⟨f', hf', hq⟩ := List.mem_filterMap.mp hq
    have hqname : volname q.1 = some v.name := (beq_iff_eq.mp hqkey) ▸ hname
    obtain ⟨w', hvolume', hmount', hsize⟩ := sizePair_volume hq hqname
    have hw' : w' ∈ volumes o.partition_size := List.mem_filterMap.mpr ⟨f', hf', hvolume'⟩
    have hsame := volume_eq hdistinct.partition_size hw hw'
      (hmount.trans ((beq_iff_eq.mp hqkey).symm.trans hmount'.symm))
    rw [hsame]
    exact hsize
  have hmem : p ∈ (fields o.partition_size).filterMap sizePair :=
    List.mem_filterMap.mpr ⟨f, hf, hp⟩
  have htest : (p.1 == v.mount) = true := beq_iff_eq.mpr hkey
  obtain ⟨n, hn, hnp⟩ := Option.map_eq_some_iff.mp (hvalue p hmem htest)
  refine ⟨n, hn, lastMatch_eq _ hmem htest fun q hq hqkey => ?_⟩
  have hq' := hvalue q hq hqkey
  rw [hn, Option.map_some] at hq'
  exact (Option.some.inj hq').symm

theorem lastMatch_no_override {v : Volume} (hv : v ∈ volumes o.partition)
    (hoverride : override o v = none) (otherwise : String) :
    lastMatch (fun p => p.1 == v.mount) Prod.snd otherwise
      ((fields o.partition_size).filterMap sizePair) = otherwise := by
  rw [override_eq_none] at hoverride
  refine lastMatch_of_forall _ _ fun q hq => beq_false_of_ne fun hqkey => ?_
  obtain ⟨f, hf, hq⟩ := List.mem_filterMap.mp hq
  have hqname : volname q.1 = some v.name := hqkey ▸ volname_volumes hv
  obtain ⟨w, hvolume, hmount, -⟩ := sizePair_volume hq hqname
  exact hoverride w (List.mem_filterMap.mpr ⟨f, hf, hvolume⟩) (hmount.trans hqkey)

/-- The last pair of `partition` for a volume is its own. -/
theorem lastMatch_volumePair (hdistinct : DistinctNames o) {v : Volume}
    (hv : v ∈ volumes o.partition) (hfixed : Fixed v) {n : ℤ}
    (hn : megabytes (strip v.size) = some n) (otherwise : String) :
    lastMatch (fun p => p.1 == v.mount) Prod.snd otherwise
      ((volumes o.partition).filterMap volumePair) = toString n := by
  have hown : volumePair v = some (v.mount, toString n) := by
    rw [volumePair, Preseed.sizeText, hfixed.2.2, if_neg Bool.false_ne_true, hn]
    rfl
  have hpair {w : Volume} {p : String × String} (hw : w ∈ volumes o.partition)
      (hp : volumePair w = some p) (hkey : p.1 = v.mount) : p = (v.mount, toString n) := by
    have hmount : w.mount = v.mount := by
      obtain ⟨size, -, rfl⟩ := Option.map_eq_some_iff.mp hp
      exact hkey
    rw [volume_eq hdistinct.partition hw hv hmount, hown] at hp
    exact (Option.some.inj hp).symm
  refine lastMatch_eq (x := (v.mount, toString n)) _ (List.mem_filterMap.mpr ⟨v, hv, hown⟩)
    (beq_self_eq_true v.mount) fun q hq hqkey => ?_
  obtain ⟨w, hw, hq⟩ := List.mem_filterMap.mp hq
  rw [hpair hw hq (beq_iff_eq.mp hqkey)]

/-- The array holds the size that the options give. -/
theorem partitions_size_get (h : readArrays o = some arrays) (hdistinct : DistinctNames o)
    {v : Volume} (hv : v ∈ volumes o.partition) (hfixed : Fixed v) :
    ∃ n, wanted o v = some n ∧ arrays.partitions_size.get v.mount = toString n := by
  obtain ⟨first, hfirst, h⟩ := Option.bind_eq_some_iff.mp h
  obtain ⟨table, htable, h⟩ := Option.bind_eq_some_iff.mp h
  obtain ⟨maxsizes, -, rfl⟩ := Option.map_eq_some_iff.mp h
  obtain ⟨hsizes, hsome⟩ := foldlM_setVolume hfirst
  obtain ⟨htable, hall⟩ := foldlM_setSize htable
  have hget := get_foldl_pairs ((fields o.partition_size).filterMap sizePair)
    first.partitions_size (mount_ne_empty hv)
  rw [← htable] at hget
  dsimp only
  rw [hget, wanted]
  cases hoverride : override o v with
  | some w => exact lastMatch_override hdistinct hv hoverride hall _
  | none =>
    rw [Option.elim_none]
    obtain ⟨n, hn⟩ := Option.isSome_iff_exists.mp (hsome v hv hfixed.2.2)
    refine ⟨n, hn, ?_⟩
    rw [lastMatch_no_override hv hoverride, hsizes, get_foldl_pairs _ _ (mount_ne_empty hv)]
    exact lastMatch_volumePair hdistinct hv hfixed hn _

/-- The one option for the size. -/
theorem hasSize_logvolLine (key size : String) : (logvolLine o arrays key).HasSize size ↔
    size = orDefault (arrays.partitions_size.get key) "1" := by
  have hother {w x : String} (h : w.toList[2]? ≠ some 's' ∧ w.toList[2]?.isSome = true) :
      "--size=" ++ size ≠ w ++ x := by
    intro heq
    have hchar := congrArg (fun s : String => s.toList[2]?) heq
    have hlength : 2 < w.toList.length := by
      by_contra hle
      rw [List.getElem?_eq_none (Nat.le_of_not_lt hle)] at h
      cases h.2
    rw [String.toList_append, String.toList_append, List.getElem?_append_left hlength] at hchar
    exact h.1 hchar.symm
  have hshort {w : String} (h : w.toList[2]? ≠ some 's') : "--size=" ++ size ≠ w := by
    rintro rfl
    rw [String.toList_append] at h
    exact h rfl
  rw [KickstartLayout.Line.HasSize, logvolLine, options, List.mem_filter, decide_eq_true_eq,
    and_iff_left]
  · simp only [List.mem_cons, List.not_mem_nil, or_false]
    constructor
    · intro hmem
      rcases hmem with h | h | h | h | h | h | h
      · exact absurd h (hother (by decide))
      · exact absurd h (hother (by decide))
      · split at h
        · exact absurd h (hother (by decide))
        · exact absurd h (hshort (by decide))
      · exact (String.append_right_inj _).mp h
      · split at h
        · exact absurd h (hother (by decide))
        · exact absurd h (hshort (by decide))
      · split at h
        · exact absurd h (hshort (by decide))
        · exact absurd h (hshort (by decide))
      · rw [String.append_assoc] at h
        exact absurd h (hother (by decide))
    · rintro rfl
      exact Or.inr (Or.inr (Or.inr (Or.inl rfl)))
  · exact hshort (by decide)

theorem Fixed.mount_cases {v : Volume} (hfixed : Fixed v) (hname : volname v.mount = some v.name) :
    v.mount.toList.head? = some '/' ∧ v.mount ≠ "/boot" := by
  rcases volname_cases hname with ⟨hmount, -⟩ | ⟨-, hswap⟩ | ⟨c, path, hmount, -⟩
  · rw [hmount]
    decide
  · exact absurd hswap hfixed.2.1
  · refine ⟨by rw [hmount]; rfl, fun hboot => ?_⟩
    have hbootname : volname "/boot" = some "boot" := by decide
    rw [hboot, hbootname] at hname
    exact hfixed.1 (Option.some.inj hname).symm

/-- The lines that define a fixed volume are those of its logical volume. -/
theorem eq_logvolLine {b : Bash} {disks : List String} {lines : List Line}
    (h : partInclude b o disks = some lines) {v : Volume} (hv : v ∈ volumes o.partition)
    (hfixed : Fixed v) (hword : IsWord v.mount) :
    ∃ arrays names, readArrays o = some arrays ∧
      (∃ line ∈ lines, Line.defines v.mount line = true) ∧
      ∀ line ∈ lines, Line.defines v.mount line = true →
        line = logvolLine o { arrays with partitions_name := names } v.mount := by
  obtain ⟨sizes, arrays, names, -, harrays, -, hmem, parts, reserved, rfl⟩ := partInclude_eq h
  obtain ⟨hhead, hnotboot⟩ := hfixed.mount_cases (volname_volumes hv)
  refine ⟨arrays, names, harrays, ?_, ?_⟩
  · refine ⟨logvolLine o { arrays with partitions_name := names } v.mount,
      List.mem_append_right _ (List.mem_map_of_mem (List.mem_flatMap.mpr ⟨v.mount, ?_, ?_⟩)), ?_⟩
    · refine (values_sortedPartitions b o.default_partition names).mem_iff.mpr ?_
      rw [List.mem_cons, List.mem_filter, b.mem_keys, hmem, decide_eq_true_eq]
      have hlisted : v.mount ∈ "/" :: mountPoints o := by
        rw [← map_mount_volumes]
        exact List.mem_cons_of_mem _ (List.mem_map_of_mem hv)
      by_cases hdefault : v.mount = o.default_partition
      · exact Or.inl hdefault
      · exact Or.inr ⟨hlisted, hdefault⟩
    · rw [words_of_isWord hword, List.mem_singleton]
    · simp [Line.defines, logvolLine]
  · intro line hline hdefines
    -- no other line defines the mount point
    have hnone {xs : List Line} (hxs : definitions v.mount xs = 0) : line ∉ xs := fun hmem =>
      List.countP_eq_zero.mp hxs line hmem hdefines
    have hnotp : v.mount.toList.head? ≠ some 'p' := by
      rw [hhead]
      decide
    have hnotswap : v.mount ≠ "swap" := by
      rintro hswap
      rw [hswap] at hhead
      exact absurd hhead (by decide)
    have hnotbios : v.mount ≠ "biosboot" := by
      rintro hbios
      rw [hbios] at hhead
      exact absurd hhead (by decide)
    rw [List.mem_append, List.mem_append, List.mem_append, List.mem_append, List.mem_cons] at hline
    rcases hline with ((((rfl | hline) | hline) | hline) | hline) | hline
    · rw [Line.defines] at hdefines
      exact absurd hdefines (by simp)
    · refine absurd hline (hnone ?_)
      rw [definitions_boot _ _ hnotbios, if_neg hnotboot, if_neg hnotswap]
    · exact absurd hline (hnone (definitions_disk hnotp _ _))
    · exact absurd hline (hnone (definitions_volgroup _ _ _))
    · exact absurd hline (hnone (definitions_volgroup _ _ _))
    · obtain ⟨key, -, rfl⟩ := List.mem_map.mp hline
      have hkey : key = v.mount := by simpa [Line.defines, logvolLine] using hdefines
      rw [hkey]

/-- The kickstart script writes the size that the options give. -/
theorem kickstart_writes {b : Bash} {disks : List String} {lines : List Line}
    (h : partInclude b o disks = some lines) (hdistinct : DistinctNames o) {v : Volume}
    (hv : v ∈ volumes o.partition) (hfixed : Fixed v) (hword : IsWord v.mount) :
    ∃ n, wanted o v = some n ∧
      Writes (fun line => Line.defines v.mount line = true) Line.HasSize lines (toString n) := by
  obtain ⟨arrays, names, harrays, hexists, hall⟩ := eq_logvolLine h hv hfixed hword
  obtain ⟨n, hn, hget⟩ := partitions_size_get harrays hdistinct hv hfixed
  refine ⟨n, hn, hexists, fun line hline hdefines size => ?_⟩
  rw [hall line hline hdefines, hasSize_logvolLine, hget, orDefault,
    if_neg (toString_int_ne_empty n)]

end Kickstart

section Preseed

variable {o : Options} {st : Preseed.Variables}

/-- The preseed script writes the size of the `partition` option. -/
theorem preseed_writes (hrender : Preseed.render o = some st) (hdistinct : DistinctNames o)
    (hnames : ∀ v ∈ volumes o.partition, isName v.name = true) {es : List Preseed.Entry}
    (h : Preseed.recipe o = some es) {v : Volume} (hv : v ∈ volumes o.partition)
    (hfixed : Fixed v) : ∃ n, megabytes (strip v.size) = some n ∧
      Writes (fun e => e.key = v.name) (fun e s => e.partition_size = s) es (toString n) := by
  have hrendered := Preseed.render_spec hrender
  have hlisted := hrendered.listed hdistinct.partition hnames
  have hns : ∀ n ∈ (volumes o.partition).map Volume.name, isName n = true := by
    intro n hn
    obtain ⟨w, hw, rfl⟩ := List.mem_map.mp hn
    exact hnames w hw
  rw [Preseed.recipe, hrender, Option.bind_some, Preseed.recipeOf_eq hlisted hns] at h
  obtain ⟨percentage, -, rfl⟩ := Option.map_eq_some_iff.mp h
  obtain ⟨n, hn⟩ := Option.isSome_iff_exists.mp (hrendered.sizes v hv hfixed.2.2)
  have htext : Preseed.sizeText v = some (toString n) := by
    rw [Preseed.sizeText, hfixed.2.2, if_neg Bool.false_ne_true, hn]
    rfl
  have hget : st.partition_size.get v.name = toString n := by
    rw [hrendered.size, Table.get_fill_unset Volume.name Preseed.sizeText hdistinct.partition hv
      (hnames v hv), htext, Option.getD_some]
    intro w hw
    rw [htext, Option.mem_some] at hw
    rw [← hw]
    exact no_blank_toString_int n
  have hsize : (Preseed.entryOf (Preseed.finalVariables st percentage) v.name).partition_size =
      toString n := by
    rw [Preseed.entryOf]
    dsimp only
    rw [Preseed.finalVariables, Preseed.addImplicit_partition_size, Table.get_setDefault,
      if_neg fun h => hfixed.2.1 h.1, Table.get_setDefault, if_neg fun h => hfixed.1 h.1, hget,
      orDefault, if_neg (toString_int_ne_empty n)]
  refine ⟨n, hn, ⟨_, List.mem_map_of_mem ?_, rfl⟩, fun e he hkey s => ?_⟩
  · rw [Preseed.allNames, Preseed.mem_addName, Preseed.mem_addName, Preseed.mem_addName]
    exact Or.inl (Or.inl (Or.inl (List.mem_map_of_mem hv)))
  · obtain ⟨key, -, rfl⟩ := List.mem_map.mp he
    obtain rfl : key = v.name := hkey
    dsimp only
    rw [hsize]
    exact eq_comm

end Preseed

section Suse

variable {o : Options} {st : Suse.Variables}

/-- The SUSE script writes the size of the `partition` option. -/
theorem suse_writes (hrender : Suse.render o = some st) (hdistinct : DistinctNames o)
    (hnames : ∀ v ∈ volumes o.partition, isName v.name = true) (before : Suse.LoopVariables)
    {v : Volume} (hv : v ∈ volumes o.partition) (hfixed : Fixed v)
    (hword : ∀ c ∈ (strip v.size).toList, isBlank c = false) :
    Writes (fun e => e.lv_name = v.name ++ "vol") (fun e s => e.size = s)
      (Suse.volumeGroup before st) (Suse.sizeElement (strip v.size)) := by
  have hrendered := Suse.render_spec hrender
  obtain ⟨hall, hmem⟩ := Suse.addDefaults_spec hrendered hnames
  obtain ⟨hpercentage, hsize⟩ := Suse.addDefaults_tables st
  have hnone : Suse.percentText v = none := by
    rw [Suse.percentText, hfixed.2.2]
    rfl
  have htext : Suse.sizeText v = some (strip v.size) := by
    rw [Suse.sizeText, hfixed.2.2]
    rfl
  have hgetpercentage : st.partition_percentage.get v.name = "" := by
    rw [hrendered.percentage, Table.get_fill_unset Volume.name Suse.percentText
      hdistinct.partition hv (hnames v hv), hnone, Option.getD_none]
    intro w hw
    rw [hnone] at hw
    cases hw
  have hgetsize : st.partition_size.get v.name = strip v.size := by
    rw [hrendered.size, Table.get_fill_unset Volume.name Suse.sizeText hdistinct.partition hv
      (hnames v hv), htext, Option.getD_some]
    intro w hw
    rw [htext, Option.mem_some] at hw
    rw [← hw]
    exact hword
  have hentry : (Suse.entryOf (Suse.addDefaults st) v.name).size =
      Suse.sizeElement (strip v.size) := by
    rw [Suse.entryOf]
    dsimp only
    rw [hpercentage, hsize, hgetpercentage, hgetsize, if_neg fun h => h.1 rfl]
  rw [Suse.volumeGroup, Suse.foldl_writeVolume hall, List.nil_append]
  refine ⟨⟨_, List.mem_map_of_mem (List.mem_filter.mpr ⟨hmem v hv, ?_⟩), rfl⟩,
    fun e he hkey s => ?_⟩
  · exact decide_eq_true ⟨hfixed.1, hfixed.2.1⟩
  · obtain ⟨key, -, rfl⟩ := List.mem_map.mp he
    obtain rfl : key = v.name := (String.append_left_inj "vol").mp hkey
    dsimp only
    rw [hentry]
    exact eq_comm

end Suse

section Main

def KickstartGives (o : Options) (lines : List Line) : Prop :=
  ∀ v ∈ volumes o.partition, Fixed v → ∃ n, wanted o v = some n ∧
    Writes (fun line => Line.defines v.mount line = true) Line.HasSize lines (toString n)

def PreseedGives (o : Options) (es : List Preseed.Entry) : Prop :=
  ∀ v ∈ volumes o.partition, Fixed v → ∃ n, wanted o v = some n ∧
    Writes (fun e => e.key = v.name) (fun e s => e.partition_size = s) es (toString n)

def SuseGives (o : Options) (es : List Suse.Entry) : Prop :=
  ∀ v ∈ volumes o.partition, Fixed v →
    Writes (fun e => e.lv_name = v.name ++ "vol") (fun e s => e.size = s) es
      (Suse.sizeElement (wantedText o v))

/-- Each size in `partition_size` is that of the `partition` option again. -/
def SameMegabytes (o : Options) : Prop :=
  ∀ v ∈ volumes o.partition, Fixed v → ∀ w ∈ volumes o.partition_size, w.mount = v.mount →
    megabytes w.size = megabytes (strip v.size)

def SameElement (o : Options) : Prop :=
  ∀ v ∈ volumes o.partition, Fixed v → ∀ w ∈ volumes o.partition_size, w.mount = v.mount →
    Suse.sizeElement (strip w.size) = Suse.sizeElement (strip v.size)

variable {o : Options}

theorem preseedGives_iff (hdistinct : DistinctNames o)
    (hnames : ∀ v ∈ volumes o.partition, isName v.name = true) {es : List Preseed.Entry}
    (h : Preseed.recipe o = some es) : PreseedGives o es ↔ SameMegabytes o := by
  obtain ⟨st, hrender, -⟩ := Option.bind_eq_some_iff.mp h
  constructor
  · intro hgives v hv hfixed w hw hmount
    obtain ⟨n, hn, hwrites⟩ := hgives v hv hfixed
    obtain ⟨m, hm, hwrites'⟩ := preseed_writes hrender hdistinct hnames h hv hfixed
    have heq : n = m := toString_int_injective (hwrites.unique hwrites')
    rw [wanted, (override_eq_some hdistinct).mpr ⟨hw, hmount⟩, Option.elim_some] at hn
    rw [hn, hm, heq]
  · intro hsame v hv hfixed
    obtain ⟨m, hm, hwrites⟩ := preseed_writes hrender hdistinct hnames h hv hfixed
    refine ⟨m, ?_, hwrites⟩
    rw [wanted]
    cases hoverride : override o v with
    | none =>
      rw [Option.elim_none]
      exact hm
    | some w =>
      obtain ⟨hw, hmount⟩ := mem_of_override hoverride
      exact (hsame v hv hfixed w hw hmount).trans hm

theorem suseGives_iff (hdistinct : DistinctNames o)
    (hnames : ∀ v ∈ volumes o.partition, isName v.name = true)
    (hwords : ∀ v ∈ volumes o.partition, Fixed v →
      ∀ c ∈ (strip v.size).toList, isBlank c = false)
    {before : Suse.LoopVariables} {es : List Suse.Entry} (h : Suse.profile before o = some es) :
    SuseGives o es ↔ SameElement o := by
  obtain ⟨st, hrender, rfl⟩ := Option.map_eq_some_iff.mp h
  constructor
  · intro hgives v hv hfixed w hw hmount
    have hwrites := hgives v hv hfixed
    have hwrites' := suse_writes hrender hdistinct hnames before hv hfixed (hwords v hv hfixed)
    have heq := hwrites.unique hwrites'
    rw [wantedText, (override_eq_some hdistinct).mpr ⟨hw, hmount⟩, Option.elim_some] at heq
    exact heq
  · intro hsame v hv hfixed
    have hwrites := suse_writes hrender hdistinct hnames before hv hfixed (hwords v hv hfixed)
    rw [wantedText]
    cases hoverride : override o v with
    | none => exact hwrites
    | some w =>
      obtain ⟨hw, hmount⟩ := mem_of_override hoverride
      rw [Option.elim_some, hsame v hv hfixed w hw hmount]
      exact hwrites

/-- The kickstart script writes the sizes that the options give; the other two store those of
`partition_size` in variables that are never read, and write them only where they repeat the
`partition` option. -/
theorem sizes_given_iff (hdistinct : DistinctNames o)
    (hnames : ∀ v ∈ volumes o.partition, isName v.name = true)
    (hwords : ∀ v ∈ volumes o.partition, Fixed v →
      ∀ c ∈ (strip v.size).toList, isBlank c = false) :
    (∀ b disks lines, partInclude b o disks = some lines → KickstartGives o lines) ∧
    (∀ es, Preseed.recipe o = some es → (PreseedGives o es ↔ SameMegabytes o)) ∧
    (∀ before es, Suse.profile before o = some es → (SuseGives o es ↔ SameElement o)) := by
  refine ⟨fun b disks lines h v hv hfixed => ?_, fun es h => preseedGives_iff hdistinct hnames h,
    fun before es h => suseGives_iff hdistinct hnames hwords h⟩
  have hword : IsWord v.mount :=
    ⟨mount_ne_empty hv, mount_no_blank (volname_volumes hv) (hnames v hv)⟩
  exact kickstart_writes h hdistinct hv hfixed hword

/-- The default options, with the two that give sizes. -/
def sized (partition partition_size : String) : Options :=
  { listing partition with partition_size := some partition_size }

def repeated : Options := sized "/home 20%; /var 5G; /tmp 900M" "/var 5G"

theorem distinctNames_repeated : DistinctNames repeated :=
  ⟨by decide +kernel, by decide +kernel⟩

theorem sizes_given_repeated :
    (∀ b disks lines, partInclude b repeated disks = some lines → KickstartGives repeated lines) ∧
    (∃ es, Preseed.recipe repeated = some es ∧ PreseedGives repeated es) ∧
    ∃ es, Suse.profile ⟨"", "", "", ""⟩ repeated = some es ∧ SuseGives repeated es := by
  have hvolumes : volumes repeated.partition =
      [⟨"/home", "home", "20%"⟩, ⟨"/var", "var", "5G"⟩, ⟨"/tmp", "tmp", "900M"⟩] := by
    decide +kernel
  have hoverrides : volumes repeated.partition_size = [⟨"/var", "var", "5G"⟩] := by decide +kernel
  have hwords : ∀ v ∈ volumes repeated.partition, Fixed v →
      ∀ c ∈ (strip v.size).toList, isBlank c = false := by
    rw [hvolumes]
    intro v hv _
    simp only [List.mem_cons, List.not_mem_nil, or_false] at hv
    rcases hv with rfl | rfl | rfl
    · decide +kernel
    · decide +kernel
    · decide +kernel
  have hsame : ∀ v ∈ volumes repeated.partition, ∀ w ∈ volumes repeated.partition_size,
      w.mount = v.mount → w.size = strip v.size := by
    rw [hvolumes, hoverrides]
    decide +kernel
  obtain ⟨hkickstart, hpreseed, hsuse⟩ :=
    sizes_given_iff distinctNames_repeated (by decide +kernel) hwords
  obtain ⟨es, hes⟩ : ∃ es, Preseed.recipe repeated = some es :=
    Option.isSome_iff_exists.mp (by decide +kernel)
  obtain ⟨es', hes'⟩ : ∃ es, Suse.profile ⟨"", "", "", ""⟩ repeated = some es :=
    Option.isSome_iff_exists.mp (by decide +kernel)
  have hstrip : ∀ w ∈ volumes repeated.partition_size, strip w.size = w.size := by decide +kernel
  refine ⟨hkickstart, ⟨es, hes, (hpreseed es hes).mpr fun v hv _ w hw hmount => ?_⟩, es', hes',
    (hsuse _ es' hes').mpr fun v hv _ w hw hmount => ?_⟩
  · rw [hsame v hv w hw hmount]
  · rw [hstrip w hw, hsame v hv w hw hmount]

/-- The kickstart script makes `/var` 8000 large here, the preseed script 5000. -/
theorem partition_size_ignored :
    ¬ ∀ o : Options, DistinctNames o →
      (∀ b disks lines, partInclude b o disks = some lines → KickstartGives o lines) ∧
      (∀ es, Preseed.recipe o = some es → PreseedGives o es) ∧
      ∀ before es, Suse.profile before o = some es → SuseGives o es := by
  intro hclaim
  have hdistinct : DistinctNames (sized "/var 5G" "/var 8G") :=
    ⟨by decide +kernel, by decide +kernel⟩
  obtain ⟨es, hes⟩ : ∃ es, Preseed.recipe (sized "/var 5G" "/var 8G") = some es :=
    Option.isSome_iff_exists.mp (by decide +kernel)
  have hgives := (hclaim _ hdistinct).2.1 es hes
  rw [preseedGives_iff hdistinct (by decide +kernel) hes] at hgives
  have hvolume :
      (⟨"/var", "var", "5G"⟩ : Volume) ∈ volumes (sized "/var 5G" "/var 8G").partition := by
    decide +kernel
  have hoverride : (⟨"/var", "var", "8G"⟩ : Volume) ∈
      volumes (sized "/var 5G" "/var 8G").partition_size := by decide +kernel
  have hfixed : Fixed ⟨"/var", "var", "5G"⟩ := by
    refine ⟨by decide, by decide, ?_⟩
    decide +kernel
  have hsame := hgives _ hvolume hfixed _ hoverride rfl
  exact absurd hsame (by decide +kernel)

end Main

end CompassAdapters.Partition
