import CompassAdapters.Ruby.Hash
import CompassAdapters.Ruby.Text
import CompassAdapters.Ruby.Words

/-! `mounts.rb`: what is mounted below a directory without standing for a device is taken away. -/
namespace CompassAdapters.Storage
open Ruby

section Provider

/-- A proposed device: whether it is there, and the UUID that `blkid` prints. -/
structure Device where
  present : Bool
  uuid : List Char

/-- `uuid.split('-').join('')`. -/
def Device.mountpoint (d : Device) : List Char := (Text.split '-' d.uuid).flatten

/-- The mount points of the devices, under their UUIDs. -/
def devInfo (devices : List Device) : Hash (List Char) (List Char) :=
  devices.foldl (fun dev_info d =>
    if d.present = true ∧ d.uuid ≠ [] then dev_info.store d.uuid d.mountpoint else dev_info)
    Hash.empty

/-- The mount point and the device of a line; `none` is an exception, for a line of `#` only. -/
def fstabEntry (line : List Char) : Option (Option (List Char) × Option (List Char)) :=
  (Text.split '#' line).head?.map fun entry =>
    ((Text.words entry)[1]?, (Text.words entry)[0]?)

/-- The characters by which a text is more than itself to a regular expression or to the shell,
besides blanks, tabs and the point. -/
def special : List Char :=
  ['\\', '^', '$', '*', '+', '?', '(', ')', '[', ']', '\x7b', '\x7d', '|', '&', ';', '<', '>', '\x60',
    '\x22', '\x27', '#', '~', '%', '!', '\n', '\r', '\x0b', '\x0c']

def IsPlain (s : List Char) : Prop := ∀ c ∈ s, c ∉ special

instance (s : List Char) : Decidable (IsPlain s) :=
  decidable_of_iff (s.all fun c => !special.contains c) (by simp [IsPlain])

def item (c : Char) : Item := if c = '.' then .char (· != '\n') else .char (· == c)

/-- A pattern that is made of a plain text, after `^` perhaps: a point is any character. -/
def pattern (bol : Bool) (s l : List Char) : Bool := (Regex.search ⟨bol, s.map item⟩ l).isSome

/-- The directory, the devices for it, the mount points in `node['filesystem']` and the lines of
`/etc/fstab`. The texts of which patterns and commands are made are plain: the directory, and the
mount points that begin with it. -/
structure MountHost where
  path : List Char
  devices : List Device
  filesystem : List (Option (List Char))
  fstab : List (List Char)
  path_plain : IsPlain path
  filesystem_plain : ∀ place ∈ filesystem, ∀ m ∈ place, pattern true path m = true → IsPlain m
  fstab_plain : ∀ line ∈ fstab, ∀ e ∈ fstabEntry line, ∀ m ∈ e.1,
    path.isPrefixOf m = true → IsPlain m

variable (host : MountHost)

def MountHost.validMounts : List (List Char) :=
  (devInfo host.devices).entries.map fun e => host.path ++ '/' :: e.2

/-- `mounts.keys` without `nil`. -/
def MountHost.mounts : List (List Char) :=
  (host.filesystem.foldl (fun mounts m => mounts.store m ()) Hash.empty).keys.filterMap id

def fstabs (fstab : List (List Char)) : Option (Hash (Option (List Char)) (Option (List Char))) :=
  (fstab.foldlM (fun hash line => (fstabEntry line).map fun e => hash.store e.1 e.2)
    Hash.empty).map fun hash => hash.select fun k v => k.isSome && v.isSome

/-- The mount points for which `umount` is called. -/
def MountHost.unmounts : List (List Char) :=
  host.mounts.filter fun x => pattern true host.path x && decide (x ∉ host.validMounts)

/-- The mount points in `/etc/fstab` that are not needed. -/
def MountHost.leftover (fstabs : Hash (Option (List Char)) (Option (List Char))) :
    List (List Char) :=
  (fstabs.keys.filterMap id).filter fun k =>
    host.path.isPrefixOf k && decide (k ∉ host.validMounts)

/-- `search_file_delete_line` for one mount point after the other. -/
def deleteLines (devs fstab : List (List Char)) : List (List Char) :=
  devs.foldl (fun fstab dev => fstab.filter fun line => !pattern false dev line) fstab

/-- What has been unmounted, and the lines that are left. -/
structure Cleanup where
  unmounted : List (List Char)
  fstab : List (List Char)
  deriving DecidableEq

variable (umount : List (List Char) → List (List Char))

/-- The action up to the removal of directories. `umount` gets the words of a mount point, and
answers the mount points that these arguments ask it to take away: it resolves paths, takes devices
and has options. -/
def ensureExists : Cleanup :=
  match fstabs host.fstab with
  | none => ⟨[], host.fstab⟩
  | some fstabs =>
    ⟨host.unmounts.flatMap fun dev => umount (Text.words dev),
      deleteLines (host.leftover fstabs) host.fstab⟩

end Provider

section Frame

/-- A mount point directly below a directory. -/
def Below (path m : List Char) : Prop := ∃ name, m = path ++ '/' :: name ∧ name ≠ [] ∧ '/' ∉ name

/-- A mount point below the directory that stands for no device. -/
def Stale (host : MountHost) (m : List Char) : Prop := Below host.path m ∧ m ∉ host.validMounts

/-- A line of `/etc/fstab` for a stale mount point. -/
def StaleLine (host : MountHost) (line : List Char) : Prop :=
  ∃ e, fstabEntry line = some e ∧ ∃ m, e.1 = some m ∧ Stale host m

/-- Only what is stale is unmounted, and only its lines are removed. -/
structure Reconciles (host : MountHost) (out : Cleanup) : Prop where
  unmounted : ∀ m ∈ out.unmounted, Stale host m
  fstab : out.fstab.Sublist host.fstab
  removed : ∀ line ∈ host.fstab, line ∉ out.fstab → StaleLine host line

variable (umount : List (List Char) → List (List Char)) (host : MountHost)

/-- What is mounted at a place that begins as the directory does stands for a device or is below
it, where the place is one word; else `umount` reads its words as stale mount points only. And a
line with the text of a mount point that is not needed is one for a stale mount point. -/
def Separate : Prop :=
  ∀ entries, fstabs host.fstab = some entries →
    (∀ m ∈ host.mounts, pattern true host.path m = true → m ∉ host.validMounts →
      if Text.words m = [m] then Below host.path m
      else ∀ x ∈ umount (Text.words m), Stale host x) ∧
    ∀ dev ∈ host.leftover entries, ∀ line ∈ host.fstab, pattern false dev line = true →
      StaleLine host line

variable {umount host}

theorem mem_deleteLines {devs fstab : List (List Char)} {line : List Char} :
    line ∈ deleteLines devs fstab ↔
      line ∈ fstab ∧ ∀ dev ∈ devs, pattern false dev line = false := by
  rw [deleteLines]
  induction devs generalizing fstab with
  | nil => simp
  | cons dev devs ih =>
    rw [List.foldl_cons, ih, List.mem_filter, Bool.not_eq_true', List.forall_mem_cons, and_assoc]

theorem deleteLines_sublist (devs fstab : List (List Char)) :
    (deleteLines devs fstab).Sublist fstab := by
  rw [deleteLines]
  induction devs generalizing fstab with
  | nil => exact List.Sublist.refl fstab
  | cons dev devs ih => exact (ih _).trans List.filter_sublist

/-- Where there is an exception before anything is done, nothing is. -/
theorem reconciles_of_nothing : Reconciles host ⟨[], host.fstab⟩ :=
  ⟨nofun, List.Sublist.refl _, fun _ hline hnot => absurd hline hnot⟩

theorem mem_unmounts {m : List Char} : m ∈ host.unmounts ↔
    m ∈ host.mounts ∧ pattern true host.path m = true ∧ m ∉ host.validMounts := by
  rw [MountHost.unmounts, List.mem_filter, Bool.and_eq_true, decide_eq_true_iff]

/-- One place is taken away rightly just when its words are. -/
theorem words_stale_iff (humount : ∀ m ∈ host.mounts, umount [m] = [m]) {m : List Char}
    (hm : m ∈ host.mounts) (hvalid : m ∉ host.validMounts) :
    (∀ x ∈ umount (Text.words m), Stale host x) ↔
      if Text.words m = [m] then Below host.path m
      else ∀ x ∈ umount (Text.words m), Stale host x := by
  split
  next hword =>
    rw [hword, humount m hm, List.forall_mem_singleton]
    exact and_iff_left hvalid
  next => exact Iff.rfl

/-- The action stays below its directory if and only if the places are separate. -/
theorem ensureExists_reconciles_iff (humount : ∀ m ∈ host.mounts, umount [m] = [m]) :
    Reconciles host (ensureExists host umount) ↔ Separate umount host := by
  rw [ensureExists]
  cases hentries : fstabs host.fstab with
  | none =>
    refine iff_of_true reconciles_of_nothing ?_
    intro entries heq
    rw [hentries] at heq
    cases heq
  | some entries =>
    dsimp only
    constructor
    · rintro ⟨hstale, -, hremoved⟩ entries' heq
      obtain rfl := Option.some.inj (hentries.symm.trans heq)
      refine ⟨?_, ?_⟩
      · intro m hm hbegin hvalid
        rw [← words_stale_iff humount hm hvalid]
        intro x hx
        exact hstale x (List.mem_flatMap.mpr ⟨m, mem_unmounts.mpr ⟨hm, hbegin, hvalid⟩, hx⟩)
      · intro dev hdev line hline hhit
        apply hremoved line hline
        intro hmem
        have hmiss := (mem_deleteLines.mp hmem).2 dev hdev
        rw [hhit] at hmiss
        cases hmiss
    · intro hseparate
      obtain ⟨hmounts, hlines⟩ := hseparate entries hentries
      refine ⟨?_, deleteLines_sublist _ _, ?_⟩
      · intro x hx
        obtain ⟨m, hmem, hx⟩ := List.mem_flatMap.mp hx
        obtain ⟨hm, hbegin, hvalid⟩ := mem_unmounts.mp hmem
        exact (words_stale_iff humount hm hvalid).mpr (hmounts m hm hbegin hvalid) x hx
      · intro line hline hnot
        by_contra hfresh
        apply hnot
        refine mem_deleteLines.mpr ⟨hline, ?_⟩
        intro dev hdev
        by_contra hhit
        exact hfresh (hlines dev hdev line hline (by simpa using hhit))

end Frame

section Patterns

variable {umount : List (List Char) → List (List Char)} {host : MountHost}

/-- Characters that fit a text in which a point is any character of a line. -/
def Fits (s w : List Char) : Prop :=
  List.Forall₂ (fun c d => if c = '.' then d ≠ '\n' else d = c) s w

theorem accepts_item {s w : List Char} : Regex.Accepts (s.map item) w ↔ Fits s w := by
  induction s generalizing w with
  | nil =>
    rw [Fits, List.forall₂_nil_left_iff]
    exact Iff.rfl
  | cons c s ih =>
    have htest (d : Char) : (item c = .char fun d => d != '\n') ∧ c = '.' ∨
        (item c = .char fun d => d == c) ∧ c ≠ '.' := by
      rw [item]
      by_cases hc : c = '.'
      · exact Or.inl ⟨if_pos hc, hc⟩
      · exact Or.inr ⟨if_neg hc, hc⟩
    rw [Fits, List.forall₂_cons_left_iff, List.map_cons]
    rcases htest c with ⟨hitem, hc⟩ | ⟨hitem, hc⟩
    · rw [hitem]
      constructor
      · rintro ⟨d, v, rfl, hd, hv⟩
        exact ⟨d, v, by simpa [hc] using hd, ih.mp hv, rfl⟩
      · rintro ⟨d, v, hd, hv, rfl⟩
        exact ⟨d, v, rfl, by simpa [hc] using hd, ih.mpr hv⟩
    · rw [hitem]
      constructor
      · rintro ⟨d, v, rfl, hd, hv⟩
        exact ⟨d, v, by simpa [hc] using hd, ih.mp hv, rfl⟩
      · rintro ⟨d, v, hd, hv, rfl⟩
        exact ⟨d, v, rfl, by simpa [hc] using hd, ih.mpr hv⟩

theorem fits_self {s : List Char} (hs : '\n' ∉ s) : Fits s s := by
  rw [Fits, List.forall₂_same]
  rintro c hc
  split
  next =>
    rintro rfl
    exact hs hc
  next => rfl

/-- A text is found where some text fits it. -/
theorem pattern_iff {bol : Bool} {s l : List Char} (hne : s ≠ []) (hl : l ≠ []) :
    pattern bol s l = true ↔ ∃ u w v, l = u ++ w ++ v ∧ Regex.Place bol true u ∧ Fits s w := by
  have hitems : ∀ i ∈ s.map item, ∃ p : Char → Bool, i = .char p ∨ i = .plus p := by
    refine List.forall_mem_map.mpr fun c _ => ?_
    rw [item]
    split <;> exact ⟨_, Or.inl rfl⟩
  have hmap : s.map item ≠ [] := fun hnil => hne (List.map_eq_nil_iff.mp hnil)
  rw [pattern, Regex.search_isSome_iff hitems hmap hl]
  simp only [accepts_item]

theorem IsPlain.fits {s : List Char} (hs : IsPlain s) : Fits s s :=
  fits_self fun hmem => hs '\n' hmem (by decide)

/-- Whatever is mounted at a place that begins with the characters of the directory is unmounted,
unless it stands for a device. -/
theorem unmounted_of_isPrefix (humount : ∀ m ∈ host.mounts, umount [m] = [m])
    (hne : host.path ≠ []) (hfstab : (fstabs host.fstab).isSome) {m : List Char}
    (hm : m ∈ host.mounts) (hword : Text.words m = [m]) (hbegin : host.path <+: m)
    (hvalid : m ∉ host.validMounts) : m ∈ (ensureExists host umount).unmounted := by
  obtain ⟨entries, hentries⟩ := Option.isSome_iff_exists.mp hfstab
  have hmatch : pattern true host.path m = true := by
    obtain ⟨rest, rfl⟩ := hbegin
    rw [pattern_iff hne (List.append_ne_nil_of_left_ne_nil hne rest)]
    exact ⟨[], host.path, rest, rfl, fun _ => Or.inl ⟨rfl, rfl⟩, host.path_plain.fits⟩
  rw [ensureExists, hentries]
  refine List.mem_flatMap.mpr ⟨m, mem_unmounts.mpr ⟨hm, hmatch, hvalid⟩, ?_⟩
  rw [hword, humount m hm]
  exact List.mem_singleton_self m

/-- A line goes if it has the text of a mount point that is not needed anywhere in it. -/
theorem deleted_of_isInfix {devs fstab : List (List Char)} {dev line : List Char}
    (hdev : dev ∈ devs) (hplain : IsPlain dev) (hne : dev ≠ []) (hin : dev <:+: line) :
    line ∉ deleteLines devs fstab := by
  obtain ⟨u, v, rfl⟩ := hin
  have hhit : pattern false dev (u ++ dev ++ v) = true := by
    rw [pattern_iff hne (by simp [hne])]
    exact ⟨u, dev, v, rfl, nofun, hplain.fits⟩
  intro hmem
  have hmiss := (mem_deleteLines.mp hmem).2 dev hdev
  rw [hhit] at hmiss
  cases hmiss

/-- A mount and a line that are stale, next to those of the device and of another directory. -/
def reconciledHost : MountHost where
  path := "/srv/node".toList
  devices := [⟨true, "ab1".toList⟩]
  filesystem := [some "/".toList, some "/srv/node/old".toList, some "/srv/node/ab1".toList]
  fstab := ["UUID=cd /srv/node/old xfs\n".toList, "UUID=ab1 /srv/node/ab1 xfs\n".toList]
  path_plain := by decide
  filesystem_plain := by decide
  fstab_plain := by decide

theorem reconciledHost_reconciles : ensureExists reconciledHost id =
      ⟨["/srv/node/old".toList], ["UUID=ab1 /srv/node/ab1 xfs\n".toList]⟩ ∧
    Reconciles reconciledHost (ensureExists reconciledHost id) := by
  refine ⟨by decide, (ensureExists_reconciles_iff fun _ _ => rfl).mpr ?_⟩
  have hold : Stale reconciledHost "/srv/node/old".toList :=
    ⟨⟨"old".toList, by decide, by decide, by decide⟩, by decide⟩
  intro entries hentries
  refine ⟨?_, ?_⟩
  · intro m hm hbegin hvalid
    have hmem : m ∈ reconciledHost.unmounts := mem_unmounts.mpr ⟨hm, hbegin, hvalid⟩
    have hunmounts : reconciledHost.unmounts = ["/srv/node/old".toList] := by decide
    rw [hunmounts, List.mem_singleton] at hmem
    rw [hmem, if_pos (by decide)]
    exact hold.1
  · intro dev hdev line hline hhit
    have hleft : ∀ entries ∈ fstabs reconciledHost.fstab,
        reconciledHost.leftover entries = ["/srv/node/old".toList] := by
      decide
    rw [hleft entries hentries, List.mem_singleton] at hdev
    subst hdev
    have hlines : reconciledHost.fstab.filter (pattern false "/srv/node/old".toList) =
        ["UUID=cd /srv/node/old xfs\n".toList] := by
      decide
    have hmem : line ∈ reconciledHost.fstab.filter (pattern false "/srv/node/old".toList) :=
      List.mem_filter.mpr ⟨hline, hhit⟩
    rw [hlines, List.mem_singleton] at hmem
    subst hmem
    exact ⟨_, rfl, _, rfl, hold⟩

/-- A host with a mount next to the directory, with one whose name has the mount point of the device
for a word, and with a line for a device whose mount point begins as one does that is not needed. -/
def siblingHost : MountHost where
  path := "/srv/node".toList
  devices := [⟨true, "ab1".toList⟩]
  filesystem := [some "/srv/node2".toList, some "/srv/node/ab1".toList,
    some "/srv/node/ab1 old".toList]
  fstab := ["UUID=ab /srv/node/ab xfs\n".toList, "UUID=ab1 /srv/node/ab1 xfs\n".toList]
  path_plain := by decide
  filesystem_plain := by decide
  fstab_plain := by decide

theorem siblingHost_not_reconciles :
    ensureExists siblingHost id =
      ⟨["/srv/node2".toList, "/srv/node/ab1".toList, "old".toList], []⟩ ∧
      ¬ Reconciles siblingHost (ensureExists siblingHost id) := by
  have hout : ensureExists siblingHost id =
      ⟨["/srv/node2".toList, "/srv/node/ab1".toList, "old".toList], []⟩ := by
    decide
  refine ⟨hout, ?_⟩
  rw [hout]
  rintro ⟨hunmounted, -, -⟩
  obtain ⟨⟨name, hname, -, -⟩, -⟩ := hunmounted _ List.mem_cons_self
  have hprefix : siblingHost.path ++ ['/'] <+: "/srv/node2".toList :=
    ⟨name, (List.append_assoc ..).trans hname.symm⟩
  exact absurd hprefix (by decide)

end Patterns

end CompassAdapters.Storage
