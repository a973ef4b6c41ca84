import CompassAdapters.Partition.PreseedLayout
import CompassAdapters.Partition.SuseLayout

/-! When the names of the volumes are as different as their mount points. -/
namespace CompassAdapters.Partition
open Shell Python KickstartLayout

/-- Characters that the name of a volume does not tell apart. -/
def Alike (c d : Char) : Prop := c = d ∨ (c = '/' ∧ d = '_') ∨ (c = '_' ∧ d = '/')

/-- Two mount points collide if they are the root and `/root`, or `swap` and `/swap`, or paths that
differ only in slashes and underscores. -/
def Collides (x y : String) : Prop :=
  (x = "/" ∧ y = "/root") ∨ (x = "/root" ∧ y = "/") ∨
  (x = "swap" ∧ y = "/swap") ∨ (x = "/swap" ∧ y = "swap") ∨
  List.Forall₂ Alike x.toList y.toList

/-- No two different mount points of the list collide. -/
def NoCollision (mounts : List String) : Prop :=
  ∀ x ∈ mounts, ∀ y ∈ mounts, x ≠ y → ¬ Collides x y

instance decidableNoCollision (mounts : List String) [∀ x y, Decidable (Collides x y)] :
    Decidable (NoCollision mounts) :=
  inferInstanceAs (Decidable (∀ x ∈ mounts, ∀ y ∈ mounts, x ≠ y → ¬ Collides x y))

section Names

variable {x y n m : String}

/-- What becomes of a character of a path in its name. -/
def nameChar (c : Char) : Char := if c = '/' then '_' else c

theorem alike_iff {c d : Char} : Alike c d ↔ nameChar c = nameChar d := by
  rw [Alike, nameChar, nameChar]
  by_cases hc : c = '/'
  · by_cases hd : d = '/'
    · simp [hc, hd]
    · simp [hc, hd, eq_comm]
  · by_cases hd : d = '/'
    · simp [hc, hd]
    · simp [hc, hd]

theorem forall₂_alike_iff {u v : List Char} :
    List.Forall₂ Alike u v ↔ u.map nameChar = v.map nameChar := by
  rw [← List.forall₂_eq_eq_eq, List.forall₂_map_left_iff, List.forall₂_map_right_iff]
  exact ⟨List.Forall₂.imp fun _ _ => alike_iff.mp, List.Forall₂.imp fun _ _ => alike_iff.mpr⟩

/-- A path whose name has no underscore. -/
theorem map_nameChar_eq_iff {u v : List Char} (hv : ∀ c ∈ v, c ≠ '_' ∧ c ≠ '/') :
    u.map nameChar = v ↔ u = v := by
  have hself : v.map nameChar = v := by
    conv_rhs => rw [← List.map_id v]
    exact List.map_congr_left fun c hc => if_neg (hv c hc).2
  constructor
  · intro h
    rw [← h]
    conv_lhs => rw [← List.map_id u]
    refine List.map_congr_left fun c hc => ?_
    have hmem : nameChar c ∈ v := h ▸ List.mem_map_of_mem hc
    by_cases hslash : c = '/'
    · rw [hslash] at hmem
      exact absurd rfl (hv _ hmem).1
    · rw [nameChar, if_neg hslash]
      rfl
  · rintro rfl
    exact hself

instance decidableCollides (x y : String) : Decidable (Collides x y) :=
  decidable_of_iff ((x = "/" ∧ y = "/root") ∨ (x = "/root" ∧ y = "/") ∨
    (x = "swap" ∧ y = "/swap") ∨ (x = "/swap" ∧ y = "swap") ∨
    x.toList.map nameChar = y.toList.map nameChar) (by rw [Collides, forall₂_alike_iff])

theorem Collides.symm (h : Collides x y) : Collides y x := by
  rcases h with ⟨hx, hy⟩ | ⟨hx, hy⟩ | ⟨hx, hy⟩ | ⟨hx, hy⟩ | halike
  · exact Or.inr (Or.inl ⟨hy, hx⟩)
  · exact Or.inl ⟨hy, hx⟩
  · exact Or.inr (Or.inr (Or.inr (Or.inl ⟨hy, hx⟩)))
  · exact Or.inr (Or.inr (Or.inl ⟨hy, hx⟩))
  · rw [forall₂_alike_iff] at halike
    exact Or.inr (Or.inr (Or.inr (Or.inr (forall₂_alike_iff.mpr halike.symm))))

theorem collides_comm : Collides x y ↔ Collides y x := ⟨Collides.symm, Collides.symm⟩

/-- A slash and something behind it. -/
structure IsPath (x : String) (c : Char) (path : List Char) : Prop where
  toList : x.toList = '/' :: c :: path

theorem IsPath.ne_root {c : Char} {path : List Char} (h : IsPath x c path) : x ≠ "/" := by
  rintro rfl
  cases h.toList

theorem IsPath.ne_swap {c : Char} {path : List Char} (h : IsPath x c path) : x ≠ "swap" := by
  rintro rfl
  cases h.toList

/-- A path has the name of a word only if it is that word behind a slash. -/
theorem IsPath.name_eq_iff {c : Char} {path : List Char} (h : IsPath x c path)
    (hn : n.toList = (c :: path).map nameChar) (w : String)
    (hw : ∀ c ∈ w.toList, c ≠ '_' ∧ c ≠ '/') : n = w ↔ x = "/" ++ w := by
  rw [← String.toList_inj, hn, map_nameChar_eq_iff hw, ← String.toList_inj, h.toList,
    String.toList_append]
  exact ⟨fun h => congrArg (List.cons '/') h, fun h => (List.cons.inj h).2⟩

theorem collides_root {c : Char} {path : List Char} (h : IsPath y c path) :
    Collides "/" y ↔ y = "/root" := by
  have hlength : ¬ List.Forall₂ Alike "/".toList y.toList := by
    rw [h.toList]
    intro hall
    cases hall with
    | cons _ hrest => cases hrest
  rw [Collides]
  constructor
  · rintro (⟨-, hroot⟩ | ⟨hroot, -⟩ | ⟨hswap, -⟩ | ⟨hswap, -⟩ | hall)
    · exact hroot
    · exact absurd hroot (by decide)
    · exact absurd hswap (by decide)
    · exact absurd hswap (by decide)
    · exact absurd hall hlength
  · exact fun hroot => Or.inl ⟨rfl, hroot⟩

theorem collides_swap {c : Char} {path : List Char} (h : IsPath y c path) :
    Collides "swap" y ↔ y = "/swap" := by
  have hhead : ¬ List.Forall₂ Alike "swap".toList y.toList := by
    rw [h.toList]
    intro hall
    cases hall with
    | cons halike _ => exact absurd (alike_iff.mp halike) (by decide)
  rw [Collides]
  constructor
  · rintro (⟨hroot, -⟩ | ⟨hroot, -⟩ | ⟨-, hswap⟩ | ⟨hswap, -⟩ | hall)
    · exact absurd hroot (by decide)
    · exact absurd hroot (by decide)
    · exact hswap
    · exact absurd hswap (by decide)
    · exact absurd hall hhead
  · exact fun hswap => Or.inr (Or.inr (Or.inl ⟨rfl, hswap⟩))

theorem collides_path {c d : Char} {path path' : List Char} (hx : IsPath x c path)
    (hy : IsPath y d path') :
    Collides x y ↔ (c :: path).map nameChar = (d :: path').map nameChar := by
  have hlists : List.Forall₂ Alike x.toList y.toList ↔
      (c :: path).map nameChar = (d :: path').map nameChar := by
    rw [forall₂_alike_iff, hx.toList, hy.toList, List.map_cons, List.map_cons (a := '/'),
      List.cons.injEq, and_iff_right rfl]
  rw [Collides, hlists]
  constructor
  · rintro (⟨hroot, -⟩ | ⟨-, hroot⟩ | ⟨hswap, -⟩ | ⟨-, hswap⟩ | hmap)
    · exact absurd hroot hx.ne_root
    · exact absurd hroot hy.ne_root
    · exact absurd hswap hx.ne_swap
    · exact absurd hswap hy.ne_swap
    · exact hmap
  · exact fun hmap => Or.inr (Or.inr (Or.inr (Or.inr hmap)))

/-- Two names are the same just when the mount points collide or are the same. -/
theorem name_eq_iff (hx : volname x = some n) (hy : volname y = some m) :
    n = m ↔ x = y ∨ Collides x y := by
  have hroot : ∀ c ∈ "root".toList, c ≠ '_' ∧ c ≠ '/' := by decide
  have hswap : ∀ c ∈ "swap".toList, c ≠ '_' ∧ c ≠ '/' := by decide
  rcases volname_cases hx with ⟨rfl, rfl⟩ | ⟨rfl, rfl⟩ | ⟨c, path, hxl, hn⟩
  · rcases volname_cases hy with ⟨rfl, rfl⟩ | ⟨rfl, rfl⟩ | ⟨d, path', hyl, hm⟩
    · exact iff_of_true rfl (Or.inl rfl)
    · decide +kernel
    · have hpath : IsPath y d path' := ⟨hyl⟩
      rw [collides_root hpath, or_iff_right hpath.ne_root.symm, eq_comm]
      exact hpath.name_eq_iff hm "root" hroot
  · rcases volname_cases hy with ⟨rfl, rfl⟩ | ⟨rfl, rfl⟩ | ⟨d, path', hyl, hm⟩
    · decide +kernel
    · exact iff_of_true rfl (Or.inl rfl)
    · have hpath : IsPath y d path' := ⟨hyl⟩
      rw [collides_swap hpath, or_iff_right hpath.ne_swap.symm, eq_comm]
      exact hpath.name_eq_iff hm "swap" hswap
  · have hpath : IsPath x c path := ⟨hxl⟩
    rcases volname_cases hy with ⟨rfl, rfl⟩ | ⟨rfl, rfl⟩ | ⟨d, path', hyl, hm⟩
    · rw [collides_comm, collides_root hpath, or_iff_right hpath.ne_root]
      exact hpath.name_eq_iff hn "root" hroot
    · rw [collides_comm, collides_swap hpath, or_iff_right hpath.ne_swap]
      exact hpath.name_eq_iff hn "swap" hswap
    · have hpath' : IsPath y d path' := ⟨hyl⟩
      rw [collides_path hpath hpath', ← String.toList_inj, hn, hm]
      refine (or_iff_right_of_imp fun hxy => ?_).symm
      rw [hxy, hyl] at hxl
      rw [(List.cons.inj hxl).2]

end Names

section Lists

variable {o : Options}

/-- Of a list of mount points, those that do not collide have names of their own. -/
theorem nodup_map_iff {mounts : List String} (hmounts : mounts.Nodup) {f : String → String}
    (hf : ∀ x ∈ mounts, volname x = some (f x)) :
    (mounts.map f).Nodup ↔ NoCollision mounts := by
  rw [List.nodup_map_iff_inj_on hmounts]
  constructor
  · intro hinj x hx y hy hne hcollides
    exact hne (hinj x hx y hy ((name_eq_iff (hf x hx) (hf y hy)).mpr (Or.inr hcollides)))
  · intro hno x hx y hy hname
    by_contra hne
    rcases (name_eq_iff (hf x hx) (hf y hy)).mp hname with heq | hcollides
    · exact hne heq
    · exact hno x hx y hy hne hcollides

theorem names_nodup_iff (hmounts : (mountPoints o).Nodup) :
    ((volumes o.partition).map Volume.name).Nodup ↔ NoCollision (mountPoints o) := by
  have hf : ∀ x ∈ mountPoints o, volname x = some ((volname x).getD "") := by
    intro x hx
    rw [← map_mount_volumes] at hx
    obtain ⟨v, hv, rfl⟩ := List.mem_map.mp hx
    rw [volname_volumes hv]
    rfl
  have hnames : (volumes o.partition).map Volume.name =
      (mountPoints o).map fun x => (volname x).getD "" := by
    rw [← map_mount_volumes, List.map_map]
    refine List.map_congr_left fun v hv => ?_
    rw [Function.comp_apply, volname_volumes hv]
    rfl
  rw [hnames]
  exact nodup_map_iff hmounts hf

end Lists

section Settings

variable {o : Options}

/-- The variable of each listed volume holds what the volume would set if it were listed alone. -/
def Kept (option : Option String) (value : Volume → Option String) (table : Table) : Prop :=
  ∀ v ∈ volumes option,
    table v.name = Table.unset.fill Volume.name value [v] v.name

theorem kept_of_nodup {option : Option String} (h : ((volumes option).map Volume.name).Nodup)
    (value : Volume → Option String) :
    Kept option value (Table.unset.fill Volume.name value (volumes option)) :=
  (Table.unset.fill_alone Volume.name value h).1

/-- The mount points show which volume has set the variables of a name. -/
theorem nodup_of_kept {option : Option String} {table : Table}
    (hmounts : ((volumes option).map Volume.mount).Nodup)
    (hnames : ∀ v ∈ volumes option, isName v.name = true)
    (h : Kept option (fun v => some v.mount) table) :
    ((volumes option).map Volume.name).Nodup := by
  have hself : ∀ v ∈ volumes option, table v.name = some v.mount := by
    intro v hv
    have hblank := mount_no_blank (volname_volumes hv) (hnames v hv)
    rw [h v hv, Table.fill_cons, Option.elim_some, Table.assign_of_isName _ (hnames v hv) hblank]
    exact Function.update_self v.name (some v.mount) Table.unset
  refine (List.nodup_map_iff_inj_on (List.Nodup.of_map _ hmounts)).mpr fun v hv w hw hname => ?_
  have hmount := (hself v hv).symm.trans ((congrArg table hname).trans (hself w hw))
  exact List.inj_on_of_nodup_map hmounts hv hw (Option.some.inj hmount)

/-- The settings that the preseed script reads. -/
def PreseedKept (o : Options) (st : Preseed.Variables) : Prop :=
  Kept o.partition (fun v => some v.mount) st.partition_point ∧
  Kept o.partition Preseed.percentText st.partition_percentage ∧
  Kept o.partition Preseed.sizeText st.partition_size

def SuseKept (o : Options) (st : Suse.Variables) : Prop :=
  Kept o.partition (fun v => some v.mount) st.partition_point ∧
  Kept o.partition Suse.percentText st.partition_percentage ∧
  Kept o.partition Suse.sizeText st.partition_size

/-- Volumes with names of their own keep what is set for them. -/
theorem preseedKept_of_noCollision (hmounts : (mountPoints o).Nodup) {st : Preseed.Variables}
    (h : Preseed.render o = some st) (hno : NoCollision (mountPoints o)) : PreseedKept o st := by
  have hrendered := Preseed.render_spec h
  have hnodup := (names_nodup_iff hmounts).mpr hno
  rw [PreseedKept, hrendered.point, hrendered.percentage, hrendered.size]
  exact ⟨kept_of_nodup hnodup _, kept_of_nodup hnodup _, kept_of_nodup hnodup _⟩

theorem suseKept_of_noCollision (hmounts : (mountPoints o).Nodup) {st : Suse.Variables}
    (h : Suse.render o = some st) (hno : NoCollision (mountPoints o)) : SuseKept o st := by
  have hrendered := Suse.render_spec h
  have hnodup := (names_nodup_iff hmounts).mpr hno
  rw [SuseKept, hrendered.point, hrendered.percentage, hrendered.size]
  exact ⟨kept_of_nodup hnodup _, kept_of_nodup hnodup _, kept_of_nodup hnodup _⟩

/-- The variables of a name that can be stored show a collision. -/
theorem noCollision_of_kept (hmounts : (mountPoints o).Nodup)
    (hnames : ∀ v ∈ volumes o.partition, isName v.name = true) {table : Table}
    (h : Kept o.partition (fun v => some v.mount) table) : NoCollision (mountPoints o) := by
  rw [← names_nodup_iff hmounts]
  rw [← map_mount_volumes] at hmounts
  exact nodup_of_kept hmounts hnames h

end Settings

section Layout

variable {b : Bash} {r : Request}

/-- The names of the logical volumes of a layout: the last option of each. -/
def lvNames (lines : List Line) : List String :=
  (lines.filter fun line => line.command = "logvol").filterMap fun line => line.options.getLast?

theorem getLast?_logvolLine (o : Options) (arrays : Arrays) (key : String) :
    (logvolLine o arrays key).options.getLast? =
      some ("--name=" ++ arrays.partitions_name.get key ++ "vol") := by
  have hne : "--name=" ++ arrays.partitions_name.get key ++ "vol" ≠ "" := by
    rw [String.append_assoc]
    intro hempty
    exact absurd (String.append_eq_empty_iff.mp hempty).1 (by decide)
  have hlast (a b c d e f x : String) (hx : x ≠ "") :
      (options [a, b, c, d, e, f, x]).getLast? = some x := by
    have hsplit : [a, b, c, d, e, f, x] = [a, b, c, d, e, f] ++ [x] := rfl
    have hself : [x].filter (fun x => decide (x ≠ "")) = [x] :=
      List.filter_eq_self.mpr fun y hy => decide_eq_true (List.mem_singleton.mp hy ▸ hx)
    rw [options, hsplit, List.filter_append, hself, List.getLast?_concat]
  rw [logvolLine]
  dsimp only
  rw [hlast _ _ _ _ _ _ _ hne]

theorem lvNames_append (xs ys : List Line) : lvNames (xs ++ ys) = lvNames xs ++ lvNames ys := by
  rw [lvNames, List.filter_append, List.filterMap_append]
  rfl

theorem lvNames_eq_nil {xs : List Line} (h : ∀ line ∈ xs, line.command ≠ "logvol") :
    lvNames xs = [] := by
  have hnone : xs.filter (fun line => decide (line.command = "logvol")) = [] :=
    List.filter_eq_nil_iff.mpr fun line hline => by simpa using h line hline
  rw [lvNames, hnone]
  rfl

theorem lvNames_map_logvolLine (o : Options) (arrays : Arrays) (keys : List String) :
    lvNames (keys.map (logvolLine o arrays)) =
      keys.map fun key => "--name=" ++ arrays.partitions_name.get key ++ "vol" := by
  induction keys with
  | nil => rfl
  | cons key keys ih =>
    have hcommand : decide ((logvolLine o arrays key).command = "logvol") = true := by
      rw [decide_eq_true_eq]
      rfl
    rw [lvNames] at ih
    rw [List.map_cons, lvNames,
      List.filter_cons_of_pos (p := fun line : Line => decide (line.command = "logvol")) hcommand,
      List.filterMap_cons_some (f := fun line : Line => line.options.getLast?)
        (getLast?_logvolLine o arrays key), ih, List.map_cons]

theorem lvNames_diskLines (sizes : DiskSizes) (disk : String) (pv_id : ℕ) :
    lvNames (diskLines sizes disk pv_id) = [] := by
  have hpart : "part" ≠ "logvol" := by decide
  refine lvNames_eq_nil fun line hline => ?_
  rw [diskLines, List.mem_cons] at hline
  rcases hline with rfl | hline
  · exact hpart
  · split at hline
    · rw [List.mem_singleton.mp hline]
      exact hpart
    · cases hline

theorem lvNames_volgroupLine (name : String) (parts : List String) :
    lvNames (volgroupLine name parts) = [] := by
  have hvolgroup : "volgroup" ≠ "logvol" := by decide
  refine lvNames_eq_nil fun line hline => ?_
  rw [volgroupLine] at hline
  split at hline
  · rw [List.mem_singleton.mp hline]
    exact hvolgroup
  · cases hline

theorem lvNames_bootLines (o : Options) (arrays : Arrays) (disk : String) :
    lvNames (⟨"clearpart", "--all", ["--initlabel"]⟩ :: bootLines o arrays disk) = [] := by
  have hpart : "part" ≠ "logvol" := by decide
  refine lvNames_eq_nil fun line hline => ?_
  rw [bootLines] at hline
  simp only [List.mem_cons, List.not_mem_nil, or_false] at hline
  rcases hline with rfl | rfl | rfl | rfl | rfl | rfl
  · decide
  · simp
  · decide
  · exact hpart
  · exact hpart
  · exact hpart

/-- The layout has one logical volume for each listed mount point and the root. -/
theorem lvNames_partInclude {disks : List String} {lines : List Line}
    (h : partInclude b r.toOptions disks = some lines) :
    ∃ keys : List String, keys.Nodup ∧ (∀ m, m ∈ keys ↔ m ∈ "/" :: mountPoints r.toOptions) ∧
      lvNames lines = keys.map fun m => "--name=" ++ (volname m).getD "" ++ "vol" := by
  obtain ⟨sizes, arrays, names, -, -, hnamed, hmem, parts, reserved, rfl⟩ := partInclude_eq h
  obtain ⟨hnodup, hmounts⟩ := sortedPartitions_spec (b := b) hmem
  refine ⟨_, hnodup, hmounts, ?_⟩
  have hdisks : lvNames ((disks.zipIdx 1).flatMap fun x => diskLines sizes x.1 x.2) = [] := by
    generalize disks.zipIdx 1 = xs
    induction xs with
    | nil => rfl
    | cons x xs ih => rw [List.flatMap_cons, lvNames_append, lvNames_diskLines, ih]; rfl
  rw [lvNames_append, lvNames_append, lvNames_append, lvNames_append, lvNames_bootLines, hdisks,
    lvNames_volgroupLine, lvNames_volgroupLine, lvNames_map_logvolLine]
  simp only [List.nil_append]
  refine List.map_congr_left fun m hm => ?_
  rw [hnamed m ((hmem m).mpr ((hmounts m).mp hm))]
  rfl

theorem lvNames_nodup_iff {disks : List String} {lines : List Line}
    (h : partInclude b r.toOptions disks = some lines) :
    (lvNames lines).Nodup ↔ NoCollision ("/" :: mountPoints r.toOptions) := by
  obtain ⟨keys, hnodup, hmem, hnames⟩ := lvNames_partInclude h
  have hvolname : ∀ m ∈ keys, volname m = some ((volname m).getD "") := by
    intro m hm
    rcases List.mem_cons.mp ((hmem m).mp hm) with rfl | hm
    · rfl
    · rw [← map_mount_volumes] at hm
      obtain ⟨v, hv, rfl⟩ := List.mem_map.mp hm
      rw [volname_volumes hv]
      rfl
  have hinj : Function.Injective fun name : String => "--name=" ++ name ++ "vol" :=
    fun _ _ h => (String.append_right_inj _).mp ((String.append_left_inj _).mp h)
  have hcomp : (keys.map fun m => "--name=" ++ (volname m).getD "" ++ "vol") =
      (keys.map fun m => (volname m).getD "").map fun name => "--name=" ++ name ++ "vol" := by
    rw [List.map_map]
    rfl
  rw [hnames, hcomp, List.nodup_map_iff hinj, nodup_map_iff hnodup hvolname]
  simp only [NoCollision, hmem]

end Layout

section Main

variable {o : Options}

def optAndSrv : Options := listing "/opt/data 20%; /opt 30%; /srv 5G"

end Main

end CompassAdapters.Partition
