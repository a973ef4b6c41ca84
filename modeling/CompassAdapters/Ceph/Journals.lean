import CompassAdapters.Transition.Runs
import Mathlib.Order.Basic

/-! `osd.rb`: the journals of the rotational disks are made on the SSDs. -/
namespace CompassAdapters.Ceph
open Transition

section Layout

/-- An SSD as `parted` prints it, in MB, with the journals that were made on it. -/
structure Ssd where
  device : String
  total_size : ℕ
  last_end : ℕ
  partitions : List String
  journals : List String

/-- `osd journal size` from the section of the osds, else from the global one. -/
def osdJournalSize (osd global : Option ℕ) : ℕ := osd.getD (global.getD 5120)

/-- A free rotational disk, and what `parted` leaves on an SSD when it is its turn: the numbers of
the partitions and the end of the last one. The end it is given is `none` for `100%`. -/
structure Turn where
  device_name : String
  parted : Ssd → ℕ → Option ℕ → List String × ℕ

/-- What stands as a journal: a partition, or what `Chef::Log.error` returns. -/
inductive Journal
  | partition (name : String)
  | loggers
  deriving DecidableEq

structure Osd where
  device : String
  journal : Option Journal

variable (osd_journal_size : ℕ)

/-- The space that `mkpart` leaves free before a partition. -/
def Ssd.startSize (ssd : Ssd) : ℕ := ssd.last_end + 100

def Ssd.HasRoom (ssd : Ssd) : Prop := ssd.startSize < ssd.total_size

instance Ssd.instDecidableHasRoom (ssd : Ssd) : Decidable ssd.HasRoom :=
  inferInstanceAs (Decidable (_ < _))

/-- What is on the SSD after `parted mkpart`. -/
def Turn.after (turn : Turn) (ssd : Ssd) : List String × ℕ :=
  let end_size := ssd.startSize + osd_journal_size
  turn.parted ssd ssd.startSize (if end_size < ssd.total_size then some end_size else none)

/-- `(p_num_new - p_num_old)[0]`. -/
def Turn.number (turn : Turn) (ssd : Ssd) : Option String :=
  ((turn.after osd_journal_size ssd).1.filter fun n => decide (n ∉ ssd.partitions)).head?

/-- `mkpart`, which is `nil` without room. -/
def mkpart (turn : Turn) (ssd : Ssd) : Ssd × Option Journal :=
  if ssd.HasRoom then
    let (partitions, last_end) := turn.after osd_journal_size ssd
    match turn.number osd_journal_size ssd with
    | none => (⟨ssd.device, ssd.total_size, last_end, partitions, ssd.journals⟩, some .loggers)
    | some p_num =>
      let name := ssd.device ++ p_num
      (⟨ssd.device, ssd.total_size, last_end, partitions, ssd.journals ++ [name]⟩,
        some (.partition name))
  else (ssd, none)

/-- The loop over the SSDs from an index on, until there is a partition. It ends with the index
after the last SSD that was tried. -/
def searchFrom (turn : Turn) : List Ssd → ℕ → List Ssd × ℕ × Option Journal
  | [], ssd_index => ([], ssd_index, none)
  | ssd :: ssds, ssd_index =>
    match mkpart osd_journal_size turn ssd with
    | (ssd, none) =>
      let (ssds, ssd_index, ssd_partion) := searchFrom turn ssds (ssd_index + 1)
      (ssd :: ssds, ssd_index, ssd_partion)
    | (ssd, some ssd_partion) => (ssd :: ssds, ssd_index + 1, some ssd_partion)

/-- The SSDs, the index for the next disk and the disks so far. -/
structure State where
  ssd_disk : List Ssd
  ssd_index : ℕ
  osd_device : List Osd

/-- The index from which the SSDs are searched. -/
def State.wrapped (s : State) : ℕ := if s.ssd_disk.length ≤ s.ssd_index then 0 else s.ssd_index

/-- The body of the loop over the devices, for a free rotational disk. -/
def assign (s : State) (turn : Turn) : State :=
  if s.ssd_disk.isEmpty then
    { s with osd_device := s.osd_device ++ [⟨"/dev/" ++ turn.device_name, none⟩] }
  else
    let (ssds, ssd_index, ssd_partion) :=
      searchFrom osd_journal_size turn (s.ssd_disk.drop s.wrapped) s.wrapped
    ⟨s.ssd_disk.take s.wrapped ++ ssds, ssd_index + 1,
      s.osd_device ++ [⟨"/dev/" ++ turn.device_name, ssd_partion⟩]⟩

def step (s : State) (turn : Turn) : Option State := some (assign osd_journal_size s turn)

/-- The recipe before the first disk, with SSDs on which nothing has been made. -/
structure Start where
  ssd_disk : List Ssd
  no_journals : ∀ ssd ∈ ssd_disk, ssd.journals = []
  ne_nil : ssd_disk ≠ []

def Start.state (start : Start) : State := ⟨start.ssd_disk, 0, []⟩

end Layout

section Spreading

/-- Every journal that is recorded is a partition that was made on an SSD. -/
def Sound (s : State) : Prop :=
  ∀ osd ∈ s.osd_device, ∀ j ∈ osd.journal,
    ∃ ssd ∈ s.ssd_disk, ∃ name ∈ ssd.journals, j = .partition name

/-- SSDs with room have had as many journals as each other, but for one. -/
def Balanced (s : State) : Prop :=
  ∀ x ∈ s.ssd_disk, ∀ y ∈ s.ssd_disk, x.HasRoom → y.HasRoom →
    x.journals.length ≤ y.journals.length + 1

instance instDecidableBalanced (s : State) : Decidable (Balanced s) :=
  inferInstanceAs (Decidable (∀ x ∈ s.ssd_disk, ∀ y ∈ s.ssd_disk, _ → _ → _))

variable (size : ℕ)

/-- A disk gets a journal if some SSD has room; journals are sound and balanced after that. -/
def Spreads (s : State) (turn : Turn) : Prop :=
  ((∃ ssd ∈ s.ssd_disk, ssd.HasRoom) →
      ∃ osd j, (assign size s turn).osd_device = s.osd_device ++ [osd] ∧ osd.journal = some j) ∧
    Sound (assign size s turn) ∧ Balanced (assign size s turn)

/-- If some SSD has room, so has one from the index on; `parted` makes a partition on the first of
these, and unless that leaves it without room, no SSD with room has fewer journals. -/
def Fair (s : State) (turn : Turn) : Prop :=
  (∃ ssd ∈ s.ssd_disk, ssd.HasRoom) →
    ∃ before ssd after, s.ssd_disk = before ++ ssd :: after ∧ s.wrapped ≤ before.length ∧
      (∀ x ∈ before.drop s.wrapped, ¬ x.HasRoom) ∧ ssd.HasRoom ∧
      (turn.number size ssd).isSome ∧
      ((turn.after size ssd).2 + 100 < ssd.total_size →
        ∀ y ∈ before ++ after, y.HasRoom → ssd.journals.length ≤ y.journals.length)

section Search

variable {size : ℕ} {turn : Turn} {s : State} {ssd : Ssd}

theorem mkpart_full (h : ¬ ssd.HasRoom) : mkpart size turn ssd = (ssd, none) := if_neg h

theorem mkpart_failed (h : ssd.HasRoom) (hnumber : turn.number size ssd = none) :
    (mkpart size turn ssd).2 = some .loggers := by
  rw [mkpart, if_pos h, hnumber]

/-- The SSD with another journal. -/
def Ssd.made (ssd : Ssd) (left : List String × ℕ) (p_num : String) : Ssd :=
  ⟨ssd.device, ssd.total_size, left.2, left.1, ssd.journals ++ [ssd.device ++ p_num]⟩

theorem mkpart_made (h : ssd.HasRoom) {p_num : String}
    (hnumber : turn.number size ssd = some p_num) :
    mkpart size turn ssd =
      (ssd.made (turn.after size ssd) p_num, some (.partition (ssd.device ++ p_num))) := by
  rw [mkpart, if_pos h, hnumber]
  rfl

variable (size turn) in
/-- With room something is recorded. -/
theorem exists_mkpart (h : ssd.HasRoom) : ∃ j, (mkpart size turn ssd).2 = some j := by
  cases hnumber : turn.number size ssd with
  | none => exact ⟨_, mkpart_failed h hnumber⟩
  | some p_num => exact ⟨_, by rw [mkpart_made h hnumber]⟩

theorem searchFrom_full {ssds : List Ssd} (h : ∀ x ∈ ssds, ¬ x.HasRoom) (i : ℕ) :
    searchFrom size turn ssds i = (ssds, i + ssds.length, none) := by
  induction ssds generalizing i with
  | nil => rfl
  | cons x ssds ih =>
    obtain ⟨hx, hssds⟩ := List.forall_mem_cons.mp h
    rw [searchFrom, mkpart_full hx]
    dsimp only
    rw [ih hssds, List.length_cons, Nat.add_assoc, Nat.add_comm 1]

/-- The first SSD with room is taken. -/
theorem searchFrom_room {before : List Ssd} (h : ∀ x ∈ before, ¬ x.HasRoom) (hroom : ssd.HasRoom)
    (after : List Ssd) (i : ℕ) :
    searchFrom size turn (before ++ ssd :: after) i =
      (before ++ (mkpart size turn ssd).1 :: after, i + before.length + 1,
        (mkpart size turn ssd).2) := by
  induction before generalizing i with
  | nil =>
    obtain ⟨j, hj⟩ := exists_mkpart size turn hroom
    rw [List.nil_append, searchFrom]
    rcases hmk : mkpart size turn ssd with ⟨ssd', _ | j'⟩
    · rw [hmk] at hj
      cases hj
    · rfl
  | cons x before ih =>
    obtain ⟨hx, hbefore⟩ := List.forall_mem_cons.mp h
    rw [List.cons_append, searchFrom, mkpart_full hx]
    dsimp only
    rw [ih hbefore, List.length_cons, Nat.add_assoc i 1, Nat.add_comm 1]
    rfl

variable (size turn) in
theorem assign_full (hne : s.ssd_disk ≠ [])
    (h : ∀ x ∈ s.ssd_disk.drop s.wrapped, ¬ x.HasRoom) :
    (assign size s turn).ssd_disk = s.ssd_disk ∧
      (assign size s turn).osd_device = s.osd_device ++ [⟨"/dev/" ++ turn.device_name, none⟩] := by
  rw [assign, if_neg (by simpa using hne), searchFrom_full h]
  exact ⟨List.take_append_drop _ _, rfl⟩

variable (size turn) in
theorem assign_room {before after : List Ssd} (hssds : s.ssd_disk = before ++ ssd :: after)
    (hle : s.wrapped ≤ before.length) (h : ∀ x ∈ before.drop s.wrapped, ¬ x.HasRoom)
    (hroom : ssd.HasRoom) :
    (assign size s turn).ssd_disk = before ++ (mkpart size turn ssd).1 :: after ∧
      (assign size s turn).osd_device =
        s.osd_device ++ [⟨"/dev/" ++ turn.device_name, (mkpart size turn ssd).2⟩] := by
  rw [assign, if_neg (by simp [hssds]), hssds, List.drop_append_of_le_length hle,
    searchFrom_room h hroom]
  refine ⟨?_, rfl⟩
  dsimp only
  rw [List.take_append_of_le_length hle, ← List.append_assoc, List.take_append_drop]

/-- The SSDs from the index on are full, or there is a first one with room. -/
theorem full_or_room (s : State) : (∀ x ∈ s.ssd_disk.drop s.wrapped, ¬ x.HasRoom) ∨
    ∃ before ssd after, s.ssd_disk = before ++ ssd :: after ∧ s.wrapped ≤ before.length ∧
      (∀ x ∈ before.drop s.wrapped, ¬ x.HasRoom) ∧ ssd.HasRoom := by
  cases hfind : (s.ssd_disk.drop s.wrapped).find? fun x => decide x.HasRoom with
  | none => exact Or.inl (by simpa using hfind)
  | some ssd =>
    rw [List.find?_eq_some_iff_append, decide_eq_true_iff] at hfind
    obtain ⟨hroom, before, after, heq, hbefore⟩ := hfind
    have hle : s.wrapped ≤ s.ssd_disk.length := by
      by_contra hlt
      rw [List.drop_of_length_le (by omega)] at heq
      simp at heq
    have hlen : (s.ssd_disk.take s.wrapped).length = s.wrapped := by
      rw [List.length_take, Nat.min_eq_left hle]
    refine Or.inr ⟨s.ssd_disk.take s.wrapped ++ before, ssd, after, ?_, ?_, ?_, hroom⟩
    · rw [List.append_assoc, ← heq, List.take_append_drop]
    · rw [List.length_append, hlen]
      exact Nat.le_add_right _ _
    · rw [List.drop_append_of_le_length (Nat.le_of_eq hlen.symm),
        List.drop_of_length_le (Nat.le_of_eq hlen), List.nil_append]
      intro x hx
      simpa using hbefore x hx

/-- There is only one first. -/
theorem first_unique {α : Type*} {p : α → Prop} {before before' after after' : List α} {x x' : α}
    (heq : before ++ x :: after = before' ++ x' :: after') (h : ∀ y ∈ before, ¬ p y) (hx : p x)
    (h' : ∀ y ∈ before', ¬ p y) (hx' : p x') : before = before' ∧ x = x' ∧ after = after' := by
  induction before generalizing before' with
  | nil =>
    cases before' with
    | nil => exact ⟨rfl, List.cons.inj heq⟩
    | cons y before' =>
      obtain ⟨rfl, -⟩ := List.cons.inj heq
      exact absurd hx (h' x List.mem_cons_self)
  | cons y before ih =>
    cases before' with
    | nil =>
      obtain ⟨rfl, -⟩ := List.cons.inj heq
      exact absurd hx' (h y List.mem_cons_self)
    | cons y' before' =>
      obtain ⟨rfl, htail⟩ := List.cons.inj heq
      obtain ⟨rfl, hrest⟩ := ih htail (List.forall_mem_cons.mp h).2 (List.forall_mem_cons.mp h').2
      exact ⟨rfl, hrest⟩

/-- The place of the first SSD with room from an index on. -/
structure First (ssds : List Ssd) (i : ℕ) (before : List Ssd) (ssd : Ssd) (after : List Ssd) :
    Prop where
  eq : ssds = before ++ ssd :: after
  le : i ≤ before.length
  full : ∀ x ∈ before.drop i, ¬ x.HasRoom
  room : ssd.HasRoom

theorem First.unique {ssds before before' after after' : List Ssd} {i : ℕ} {ssd ssd' : Ssd}
    (h : First ssds i before ssd after) (h' : First ssds i before' ssd' after') :
    before = before' ∧ ssd = ssd' ∧ after = after' := by
  have heq := h.eq.symm.trans h'.eq
  have hdrop := congrArg (List.drop i) heq
  rw [List.drop_append_of_le_length h.le, List.drop_append_of_le_length h'.le] at hdrop
  obtain ⟨-, rfl, rfl⟩ := first_unique hdrop h.full h.room h'.full h'.room
  exact ⟨List.append_cancel_right heq, rfl, rfl⟩

end Search

section Exact

variable {size : ℕ} {turn : Turn} {s : State}

theorem spreads_of_no_room (hne : s.ssd_disk ≠ []) (hsound : Sound s)
    (h : ∀ x ∈ s.ssd_disk, ¬ x.HasRoom) : Spreads size s turn := by
  obtain ⟨hdisk, hosd⟩ := assign_full size turn hne
    fun x hx => h x (List.mem_of_mem_drop hx)
  refine ⟨?_, ?_, ?_⟩
  · rintro ⟨ssd, hssd, hroom⟩
    exact absurd hroom (h ssd hssd)
  · intro osd hmem j hj
    rw [hosd, List.mem_append, List.mem_singleton] at hmem
    rw [hdisk]
    rcases hmem with hmem | rfl
    · exact hsound osd hmem j hj
    · cases hj
  · intro x hx _ _ hroom _
    rw [hdisk] at hx
    exact absurd hroom (h x hx)

theorem not_spreads_of_full (hne : s.ssd_disk ≠ []) (hroom : ∃ ssd ∈ s.ssd_disk, ssd.HasRoom)
    (h : ∀ x ∈ s.ssd_disk.drop s.wrapped, ¬ x.HasRoom) : ¬ Spreads size s turn := by
  rintro ⟨hserved, -, -⟩
  obtain ⟨osd, j, hosd, hj⟩ := hserved hroom
  rw [(assign_full _ _ hne h).2] at hosd
  obtain rfl := List.singleton_inj.mp (List.append_cancel_left hosd)
  cases hj

variable {before after : List Ssd} {ssd : Ssd}

theorem not_spreads_of_failed (h : First s.ssd_disk s.wrapped before ssd after)
    (hnumber : turn.number size ssd = none) : ¬ Spreads size s turn := by
  rintro ⟨-, hsound, -⟩
  have hosd := (assign_room size turn h.eq h.le h.full h.room).2
  rw [mkpart_failed h.room hnumber] at hosd
  obtain ⟨_, _, _, _, hj⟩ := hsound ⟨"/dev/" ++ turn.device_name, some .loggers⟩
    (by rw [hosd]; exact List.mem_append_right _ (List.mem_singleton_self _)) .loggers rfl
  cases hj

/-- A journal on the first SSD with room is sound. -/
theorem sound_of_made (h : First s.ssd_disk s.wrapped before ssd after) (hsound : Sound s)
    {p_num : String} (hnumber : turn.number size ssd = some p_num) :
    Sound (assign size s turn) := by
  obtain ⟨hdisk, hosd⟩ := assign_room size turn h.eq h.le h.full h.room
  rw [mkpart_made h.room hnumber] at hdisk hosd
  intro osd hmem j hj
  rw [hosd, List.mem_append, List.mem_singleton] at hmem
  rw [hdisk]
  rcases hmem with hmem | rfl
  · obtain ⟨x, hx, name, hname, rfl⟩ := hsound osd hmem j hj
    rw [h.eq, List.mem_append, List.mem_cons] at hx
    rcases hx with hx | rfl | hx
    · exact ⟨x, List.mem_append_left _ hx, name, hname, rfl⟩
    · exact ⟨_, List.mem_append_right _ List.mem_cons_self, name, List.mem_append_left _ hname, rfl⟩
    · exact ⟨x, List.mem_append_right _ (List.mem_cons_of_mem _ hx), name, hname, rfl⟩
  · obtain rfl := Option.some.inj hj
    exact ⟨_, List.mem_append_right _ List.mem_cons_self, _,
      List.mem_append_right _ (List.mem_singleton_self _), rfl⟩

/-- One journal more on an SSD keeps the balance if and only if that SSD had as few as any other
with room, or is full after that. -/
theorem balanced_of_made (h : First s.ssd_disk s.wrapped before ssd after) (hbalanced : Balanced s)
    {p_num : String} (hnumber : turn.number size ssd = some p_num) :
    Balanced (assign size s turn) ↔ ((turn.after size ssd).2 + 100 < ssd.total_size →
      ∀ y ∈ before ++ after, y.HasRoom → ssd.journals.length ≤ y.journals.length) := by
  obtain ⟨hdisk, -⟩ := assign_room size turn h.eq h.le h.full h.room
  rw [mkpart_made h.room hnumber] at hdisk
  have hlen : (ssd.made (turn.after size ssd) p_num).journals.length =
      ssd.journals.length + 1 := by
    rw [Ssd.made, List.length_append, List.length_singleton]
  have hold : ∀ x ∈ before ++ after, x ∈ s.ssd_disk := by
    intro x hx
    rw [h.eq]
    rcases List.mem_append.mp hx with hx | hx
    · exact List.mem_append_left _ hx
    · exact List.mem_append_right _ (List.mem_cons_of_mem _ hx)
  have hssd : ssd ∈ s.ssd_disk := by
    rw [h.eq]
    exact List.mem_append_right _ List.mem_cons_self
  have hnew (x : Ssd) : x ∈ (assign size s turn).ssd_disk ↔
      x = ssd.made (turn.after size ssd) p_num ∨ x ∈ before ++ after := by
    rw [hdisk, List.mem_append, List.mem_cons, List.mem_append]
    exact or_left_comm
  constructor
  · intro hbal hroom y hy hyroom
    have hle := hbal _ ((hnew _).mpr (Or.inl rfl)) y ((hnew y).mpr (Or.inr hy)) hroom hyroom
    rw [hlen] at hle
    exact Nat.le_of_succ_le_succ hle
  · intro hfew x hx y hy hxroom hyroom
    rcases (hnew x).mp hx with rfl | hx <;> rcases (hnew y).mp hy with rfl | hy
    · exact Nat.le_succ _
    · have hle := hfew hxroom y hy hyroom
      rw [hlen]
      omega
    · have hle := hbalanced x (hold x hx) ssd hssd hxroom h.room
      rw [hlen]
      omega
    · exact hbalanced x (hold x hx) y (hold y hy) hxroom hyroom

/-- One disk. -/
theorem spreads_iff_fair (hne : s.ssd_disk ≠ []) (hsound : Sound s) (hbalanced : Balanced s) :
    Spreads size s turn ↔ Fair size s turn := by
  by_cases hroom : ∃ ssd ∈ s.ssd_disk, ssd.HasRoom
  · rcases full_or_room s with hfull | ⟨before, ssd, after, heq, hle, hfull, hssd⟩
    · refine iff_of_false (not_spreads_of_full hne hroom hfull) ?_
      intro hfair
      obtain ⟨before, ssd, after, heq, hle, -, hssd, -⟩ := hfair hroom
      rw [heq, List.drop_append_of_le_length hle] at hfull
      exact hfull ssd (List.mem_append_right _ List.mem_cons_self) hssd
    · have hfirst : First s.ssd_disk s.wrapped before ssd after := ⟨heq, hle, hfull, hssd⟩
      cases hnumber : turn.number size ssd with
      | none =>
        refine iff_of_false (not_spreads_of_failed hfirst hnumber) ?_
        intro hfair
        obtain ⟨before', ssd', after', heq', hle', hfull', hssd', hsome, -⟩ := hfair hroom
        obtain ⟨-, rfl, -⟩ := hfirst.unique ⟨heq', hle', hfull', hssd'⟩
        rw [hnumber] at hsome
        cases hsome
      | some p_num =>
        have hserved : ∃ osd j, (assign size s turn).osd_device = s.osd_device ++ [osd] ∧
            osd.journal = some j := by
          obtain ⟨j, hj⟩ := exists_mkpart size turn hssd
          exact ⟨_, j, (assign_room _ _ heq hle hfull hssd).2, hj⟩
        rw [Spreads, and_iff_right fun _ => hserved,
          and_iff_right (sound_of_made hfirst hsound hnumber),
          balanced_of_made hfirst hbalanced hnumber]
        constructor
        · intro hfew _
          exact ⟨before, ssd, after, heq, hle, hfull, hssd, by rw [hnumber]; rfl, hfew⟩
        · intro hfair
          obtain ⟨before', ssd', after', heq', hle', hfull', hssd', -, hfew⟩ := hfair hroom
          obtain ⟨rfl, rfl, rfl⟩ := hfirst.unique ⟨heq', hle', hfull', hssd'⟩
          exact hfew
  · refine iff_of_true (spreads_of_no_room hne hsound ?_) fun h => absurd h hroom
    intro x hx hxroom
    exact hroom ⟨x, hx, hxroom⟩

theorem assign_ne_nil (hne : s.ssd_disk ≠ []) : (assign size s turn).ssd_disk ≠ [] := by
  rcases full_or_room s with hfull | ⟨before, ssd, after, heq, hle, hfull, hssd⟩
  · rw [(assign_full _ _ hne hfull).1]
    exact hne
  · rw [(assign_room _ _ heq hle hfull hssd).1]
    simp

end Exact

/-- Over all disks, one after the other: the journals are spread if and only if each disk meets the
condition in the state in which it has its turn. -/
theorem journals_spread_iff (size : ℕ) (start : Start) (turns : List Turn) :
    Guarded (step size) (Spreads size) start.state turns ↔
      Guarded (step size) (Fair size) start.state turns := by
  apply Guarded.congr (I := fun s => s.ssd_disk ≠ [] ∧ Sound s ∧ Balanced s)
  · rintro s turn t ⟨hne, -, -⟩ ⟨-, hsound, hbalanced⟩ hstep
    obtain rfl := Option.some.inj hstep
    exact ⟨assign_ne_nil hne, hsound, hbalanced⟩
  · rintro s turn t ⟨hne, hsound, hbalanced⟩ -
    exact spreads_iff_fair hne hsound hbalanced
  · refine ⟨start.ne_nil, nofun, ?_⟩
    intro x hx y hy _ _
    rw [start.no_journals x hx]
    exact Nat.zero_le _

theorem assign_single (size : ℕ) (turn : Turn) {s : State} {ssd : Ssd} (h : s.ssd_disk = [ssd]) :
    ∃ ssd', (assign size s turn).ssd_disk = [ssd'] := by
  have hlen : (assign size s turn).ssd_disk.length = 1 := by
    rcases full_or_room s with hfull | ⟨before, ssd', after, heq, hle, hfull, hroom⟩
    · rw [(assign_full _ _ (by simp [h]) hfull).1, h, List.length_singleton]
    · rw [(assign_room _ _ heq hle hfull hroom).1]
      have hone := congrArg List.length (heq.symm.trans h)
      simpa using hone
  exact List.length_eq_one_iff.mp hlen

/-- On a single SSD the journals are spread if `parted` does not fail. -/
theorem fair_of_single {size : ℕ} {s : State} {ssd : Ssd} (h : s.ssd_disk = [ssd])
    {turns : List Turn} (hmade : ∀ turn ∈ turns, ∀ ssd, (turn.number size ssd).isSome) :
    Guarded (step size) (Fair size) s turns := by
  induction turns generalizing s ssd with
  | nil => trivial
  | cons turn turns ih =>
    obtain ⟨hturn, hturns⟩ := List.forall_mem_cons.mp hmade
    intro t ht
    obtain rfl := Option.some.inj ht
    have hwrapped : s.wrapped = 0 := by
      rw [State.wrapped, h, List.length_singleton]
      split <;> omega
    refine ⟨?_, ?_⟩
    · rintro ⟨x, hx, hroom⟩
      rw [h, List.mem_singleton] at hx
      subst hx
      have hnil : ∀ y ∈ ([] : List Ssd), ¬ y.HasRoom := fun y hy => absurd hy List.not_mem_nil
      refine ⟨[], x, [], h, Nat.le_of_eq hwrapped, by rwa [List.drop_nil], hroom, hturn x, ?_⟩
      intro _ y hy
      exact absurd hy List.not_mem_nil
    · obtain ⟨ssd', h'⟩ := assign_single size turn h
      exact ih h' hturns

def emptySsd (device : String) : Ssd := ⟨device, 100000, 0, [], []⟩

/-- Two SSDs with room for many journals. -/
def twoSsds : Start where
  ssd_disk := [emptySsd "/dev/sda", emptySsd "/dev/sdb"]
  no_journals ssd hssd := by
    rcases List.mem_cons.mp hssd with rfl | hssd
    · rfl
    · rw [List.mem_singleton.mp hssd]
      rfl
  ne_nil := List.cons_ne_nil _ _

/-- A disk for which `parted` makes the next partition. -/
def plainTurn (device_name : String) : Turn where
  device_name := device_name
  parted ssd _ end_size :=
    (ssd.partitions ++ [toString (ssd.partitions.length + 1)], end_size.getD ssd.total_size)

theorem twoSsds_not_spread : ¬ Guarded (step (osdJournalSize none none))
    (Spreads (osdJournalSize none none)) twoSsds.state [plainTurn "sdc", plainTurn "sdd"] := by
  intro h
  obtain ⟨-, hsecond⟩ := h _ rfl
  obtain ⟨⟨-, -, hbalanced⟩, -⟩ := hsecond _ rfl
  exact absurd hbalanced (by decide)

end Spreading

end CompassAdapters.Ceph
