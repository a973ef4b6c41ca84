import CompassAdapters.Postgresql.Sizes

/-! The recipe `config_pgtune`: settings of the server from the memory of the node, the number of
connections and the kind of database. -/
namespace CompassAdapters.Postgresql

inductive DbType
  | dw
  | oltp
  | web
  | mixed
  | desktop
  deriving DecidableEq, Repr

def DbType.ofString : String → Option DbType
  | "dw" => some .dw
  | "oltp" => some .oltp
  | "web" => some .web
  | "mixed" => some .mixed
  | "desktop" => some .desktop
  | _ => none

/-- The attributes that the recipe reads; `none` for one that is not set. -/
structure Attributes where
  db_type : Option String
  max_connections : Option String
  total_memory : Option String
  memory_total : String
  machine : String
  before_9_1 : Bool

structure Memory where
  shared_buffers : String
  effective_cache_size : String
  work_mem : String
  maintenance_work_mem : String

structure Config where
  max_connections : ℕ
  memory : Option Memory
  checkpoint_segments : ℕ
  checkpoint_completion_target : String
  wal_buffers : String
  default_statistics_target : ℕ

section Attributes

/-- `\Z` is the end, or the place before a newline there. -/
def beforeEnd (s : List Char) : List Char := if s.getLast? = some '\n' then s.dropLast else s

/-- `[1-9]\d*` -/
def nonZeroInteger : List Char → Bool
  | [] => false
  | c :: cs => '1' ≤ c && c ≤ '9' && cs.all Char.isDigit

def matchesConnections (s : String) : Bool := nonZeroInteger (beforeEnd s.toList)

def matchesMemory (s : String) : Bool :=
  let text := beforeEnd s.toList
  ['k', 'B'].isSuffixOf text && nonZeroInteger (text.dropLast.dropLast)

/-- `to_i` of a text that begins with a digit or is no number. -/
def toI (s : String) : ℕ := Nat.ofDigitChars 10 (s.toList.takeWhile Char.isDigit) 0

def badValue (value name valid : String) : String :=
  "Bad value (" ++ value ++ ") for node['postgresql']['config_pgtune']['" ++ name ++
    "'] attribute. Valid values are " ++ valid ++ "."

def dbType (a : Attributes) : Except String DbType :=
  match a.db_type with
  | none => .ok .mixed
  | some db_type =>
    match DbType.ofString db_type with
    | some db_type => .ok db_type
    | none => .error (badValue db_type "db_type" "one of dw, oltp, web, mixed, desktop")

def con (a : Attributes) (db_type : DbType) : Except String ℕ :=
  match a.max_connections with
  | none =>
    .ok (match db_type with
      | .web => 200
      | .oltp => 300
      | .dw => 20
      | .mixed => 80
      | .desktop => 5)
  | some max_connections =>
    if matchesConnections max_connections then .ok (toI max_connections)
    else .error (badValue max_connections "max_connections" "non-zero integers only")

/-- In MB. -/
def mem (a : Attributes) : Except String ℕ :=
  match a.total_memory with
  | none => .ok (toI a.memory_total / 1024)
  | some total_memory =>
    if matchesMemory total_memory then .ok (toI total_memory / 1024)
    else .error (badValue total_memory "total_memory"
      "non-zero integers followed by kB (e.g., 49416564kB)")

end Attributes

section Settings

/-- A number of megabytes, at most `limit`. -/
def limited (limit size : ℕ) : ℕ := if size > limit then limit else size

def sharedBuffers (db_type : DbType) (mem : ℕ) (machine : String) : ℕ :=
  let shared_buffers := if db_type = .desktop then mem / 16 else mem / 4
  match machine with
  | "i386" => limited (2 * 1024) shared_buffers
  | "x86_64" => limited (8 * 1024) shared_buffers
  | _ => shared_buffers

def effectiveCacheSize (db_type : DbType) (mem : ℕ) : ℕ :=
  match db_type with
  | .desktop => mem / 4
  | _ => mem * 3 / 4

def workMem (db_type : DbType) (mem con : ℕ) : ℕ :=
  match db_type with
  | .web | .oltp => mem / con
  | .dw | .mixed => mem / con / 2
  | .desktop => mem / con / 6

def maintenanceWorkMem (db_type : DbType) (mem : ℕ) : ℕ :=
  limited (1 * 1024) (if db_type = .dw then mem / 8 else mem / 16)

def checkpointSegments : DbType → ℕ
  | .web => 8
  | .oltp => 16
  | .dw => 64
  | .mixed => 16
  | .desktop => 3

def checkpointCompletionTarget : DbType → String
  | .web => "0.7"
  | .oltp => "0.9"
  | .dw => "0.9"
  | .mixed => "0.9"
  | .desktop => "0.5"

def defaultStatisticsTarget : DbType → ℕ
  | .dw => 500
  | _ => 100

/-- The settings that depend on the memory, for 256 MB or more. -/
def memorySettings (fuel : ℕ) (db_type : DbType) (con mem : ℕ) (machine : String) :
    Option Memory :=
  (binaryround fuel (sharedBuffers db_type mem machine * 1024 * 1024)).bind fun shared_buffers =>
  (binaryround fuel (effectiveCacheSize db_type mem * 1024 * 1024)).bind
    fun effective_cache_size =>
  (binaryround fuel (workMem db_type mem con * 1024 * 1024)).bind fun work_mem =>
  (binaryround fuel (maintenanceWorkMem db_type mem * 1024 * 1024)).map
    fun maintenance_work_mem =>
  ⟨shared_buffers, effective_cache_size, work_mem, maintenance_work_mem⟩

def walBuffers (fuel : ℕ) (db_type : DbType) (before_9_1 : Bool) : Option String :=
  if before_9_1 then binaryround fuel (512 * checkpointSegments db_type * 1024) else some "-1"

/-- What the recipe sets; `none` when a loop is not done after `fuel` tests of its condition. -/
def settings (fuel : ℕ) (db_type : DbType) (con mem : ℕ) (a : Attributes) : Option Config :=
  (if mem ≥ 256 then (memorySettings fuel db_type con mem a.machine).map some
    else some none).bind fun memory =>
  (walBuffers fuel db_type a.before_9_1).map fun wal_buffers =>
  ⟨con, memory, checkpointSegments db_type, checkpointCompletionTarget db_type, wal_buffers,
    defaultStatisticsTarget db_type⟩

/-- The recipe: a message when an attribute is refused, and the settings otherwise. -/
def configPgtune (fuel : ℕ) (a : Attributes) : Except String (Option Config) := do
  let db_type ← dbType a
  let con ← con a db_type
  let mem ← mem a
  return settings fuel db_type con mem a

end Settings

section Connections

theorem le_ofDigitChars (cs : List Char) (init : ℕ) : init ≤ Nat.ofDigitChars 10 cs init := by
  induction cs generalizing init with
  | nil => exact le_rfl
  | cons c cs ih =>
    rw [Nat.ofDigitChars_cons]
    exact le_trans (by omega) (ih _)

theorem toI_pos {s : String} (h : matchesConnections s = true) : 0 < toI s := by
  rw [matchesConnections] at h
  obtain ⟨c, cs, hs, hlow, hhigh⟩ : ∃ c cs, s.toList = c :: cs ∧ '1' ≤ c ∧ c ≤ '9' := by
    cases hs : s.toList with
    | nil =>
      rw [hs] at h
      cases h
    | cons c cs =>
      refine ⟨c, cs, rfl, ?_⟩
      rw [hs, beforeEnd] at h
      split at h
      next =>
        cases cs with
        | nil => cases h
        | cons d ds =>
          rw [List.dropLast_cons_cons, nonZeroInteger, Bool.and_eq_true, Bool.and_eq_true,
            decide_eq_true_eq, decide_eq_true_eq] at h
          exact h.1
      next =>
        rw [nonZeroInteger, Bool.and_eq_true, Bool.and_eq_true, decide_eq_true_eq,
          decide_eq_true_eq] at h
        exact h.1
  have hlow' : 49 ≤ c.toNat := hlow
  have hhigh' : c.toNat ≤ 57 := hhigh
  have hdigit : c.isDigit = true := by
    have hzero : 48 ≤ c.toNat := by omega
    rw [Char.isDigit, Bool.and_eq_true, decide_eq_true_eq, decide_eq_true_eq]
    exact ⟨hzero, hhigh'⟩
  rw [toI, hs, List.takeWhile_cons_of_pos hdigit, Nat.ofDigitChars_cons]
  refine lt_of_lt_of_le ?_ (le_ofDigitChars _ _)
  have hzero : '0'.toNat = 48 := rfl
  omega

/-- The number of connections is never 0. -/
theorem con_pos {a : Attributes} {db_type : DbType} {n : ℕ} (h : con a db_type = .ok n) :
    0 < n := by
  unfold con at h
  split at h
  next =>
    obtain rfl := Except.ok.inj h
    cases db_type <;> decide
  next max_connections _ =>
    split at h
    next hmatch =>
      obtain rfl := Except.ok.inj h
      exact toI_pos hmatch
    next => cases h

end Connections

section Results

/-- How many times the connections go into the memory before nothing is left for one. -/
def share : DbType → ℕ
  | .web | .oltp => 1
  | .dw | .mixed => 2
  | .desktop => 6

theorem workMem_eq (db_type : DbType) (mem con : ℕ) :
    workMem db_type mem con = mem / (con * share db_type) := by
  cases db_type with
  | dw => exact Nat.div_div_eq_div_mul mem con 2
  | oltp => rw [share, Nat.mul_one]; rfl
  | web => rw [share, Nat.mul_one]; rfl
  | mixed => exact Nat.div_div_eq_div_mul mem con 2
  | desktop => exact Nat.div_div_eq_div_mul mem con 6

theorem limited_le (limit size : ℕ) : limited limit size ≤ size ∧ limited limit size ≤ limit := by
  rw [limited]
  split <;> omega

theorem limited_pos {limit size : ℕ} (hlimit : 0 < limit) (hsize : 0 < size) :
    0 < limited limit size := by
  rw [limited]
  split <;> assumption

theorem sharedBuffers_le (db_type : DbType) (mem : ℕ) (machine : String) :
    sharedBuffers db_type mem machine ≤ mem / 4 := by
  have hplain : (if db_type = .desktop then mem / 16 else mem / 4) ≤ mem / 4 := by
    split <;> omega
  simp only [sharedBuffers]
  generalize (if db_type = .desktop then mem / 16 else mem / 4) = n at hplain ⊢
  split
  next => exact (limited_le _ _).1.trans hplain
  next => exact (limited_le _ _).1.trans hplain
  next => exact hplain

theorem sharedBuffers_pos {db_type : DbType} {mem : ℕ} (machine : String) (h : 256 ≤ mem) :
    0 < sharedBuffers db_type mem machine := by
  have hplain : 0 < (if db_type = .desktop then mem / 16 else mem / 4) := by
    split <;> omega
  simp only [sharedBuffers]
  generalize (if db_type = .desktop then mem / 16 else mem / 4) = n at hplain ⊢
  split
  next => exact limited_pos (by decide) hplain
  next => exact limited_pos (by decide) hplain
  next => exact hplain

theorem effectiveCacheSize_le (db_type : DbType) (mem : ℕ) :
    effectiveCacheSize db_type mem ≤ mem * 3 / 4 := by
  cases db_type <;> simp only [effectiveCacheSize] <;> omega

theorem effectiveCacheSize_pos {db_type : DbType} {mem : ℕ} (h : 256 ≤ mem) :
    0 < effectiveCacheSize db_type mem := by
  cases db_type <;> simp only [effectiveCacheSize] <;> omega

theorem maintenanceWorkMem_le (db_type : DbType) (mem : ℕ) :
    maintenanceWorkMem db_type mem ≤ mem / 8 ∧ maintenanceWorkMem db_type mem ≤ 1024 := by
  have hplain : (if db_type = .dw then mem / 8 else mem / 16) ≤ mem / 8 := by
    split <;> omega
  exact ⟨(limited_le _ _).1.trans hplain, (limited_le _ _).2⟩

theorem maintenanceWorkMem_pos {db_type : DbType} {mem : ℕ} (h : 256 ≤ mem) :
    0 < maintenanceWorkMem db_type mem := by
  refine limited_pos (by decide) ?_
  split <;> omega

theorem workMem_le (db_type : DbType) (mem con : ℕ) : con * workMem db_type mem con ≤ mem := by
  have hshare : 0 < share db_type := by cases db_type <;> decide
  rw [workMem_eq]
  calc con * (mem / (con * share db_type))
      ≤ con * share db_type * (mem / (con * share db_type)) :=
        Nat.mul_le_mul_right _ (Nat.le_mul_of_pos_right con hshare)
    _ ≤ mem := Nat.mul_div_le _ _

theorem configPgtune_eq_ok {fuel : ℕ} {a : Attributes} {c : Config} :
    configPgtune fuel a = .ok (some c) ↔ ∃ db_type con' mem', dbType a = .ok db_type ∧
      con a db_type = .ok con' ∧ mem a = .ok mem' ∧
      settings fuel db_type con' mem' a = some c := by
  rw [configPgtune]
  cases hdb : dbType a with
  | error e => simp [bind, Except.bind]
  | ok db_type =>
    cases hcon : con a db_type with
    | error e => simp [bind, Except.bind, hcon]
    | ok con' =>
      cases hmem : mem a with
      | error e => simp [bind, Except.bind, hcon]
      | ok mem' => simp [bind, Except.bind, hcon, pure, Except.pure]

theorem walBuffers_isSome (db_type : DbType) (before_9_1 : Bool) :
    ∃ w, ∀ fuel > 30, walBuffers fuel db_type before_9_1 = some w := by
  cases before_9_1 with
  | false => exact ⟨_, fun _ _ => rfl⟩
  | true =>
    have hpos : 0 < 512 * checkpointSegments db_type * 1024 := by cases db_type <;> decide
    have hlog : (512 * checkpointSegments db_type * 1024).log2 ≤ 25 := by
      cases db_type <;> decide
    exact ⟨_, fun fuel hfuel => binaryround_eq hpos (by omega)⟩

/-- The recipe comes to an end just when it accepts the attributes, and leaves the memory settings
out or has a megabyte for each connection, two where the kind of database is `dw` or `mixed`, six
where it is `desktop`. -/
theorem configPgtune_ends_iff (a : Attributes) :
    (∃ fuel c, configPgtune fuel a = .ok (some c)) ↔
      ∃ db_type con' mem', dbType a = .ok db_type ∧ con a db_type = .ok con' ∧
        mem a = .ok mem' ∧ (mem' < 256 ∨ con' * share db_type ≤ mem') := by
  simp only [configPgtune_eq_ok]
  constructor
  · rintro ⟨fuel, c, db_type, con', mem', hdb, hcon, hmem, hc⟩
    refine ⟨db_type, con', mem', hdb, hcon, hmem, ?_⟩
    by_contra hnot
    push Not at hnot
    have hzero : workMem db_type mem' con' * 1024 * 1024 = 0 := by
      rw [workMem_eq, Nat.div_eq_of_lt hnot.2]
    rw [settings, if_pos (show mem' ≥ 256 from hnot.1), memorySettings, hzero,
      binaryround_zero] at hc
    simp at hc
  · rintro ⟨db_type, con', mem', hdb, hcon, hmem, hfits⟩
    suffices hends : ∃ fuel, (settings fuel db_type con' mem' a).isSome by
      obtain ⟨fuel, hends⟩ := hends
      obtain ⟨c, hc⟩ := Option.isSome_iff_exists.mp hends
      exact ⟨fuel, c, db_type, con', mem', hdb, hcon, hmem, hc⟩
    obtain ⟨wal_buffers, hwal⟩ := walBuffers_isSome db_type a.before_9_1
    by_cases hlow : mem' < 256
    · refine ⟨31, ?_⟩
      rw [settings, if_neg (not_le.mpr hlow), Option.bind_some, hwal 31 (by decide)]
      rfl
    · have hmore : 256 ≤ mem' := not_lt.mp hlow
      have hwork : 0 < workMem db_type mem' con' := by
        have hshare : 0 < share db_type := by cases db_type <;> decide
        rw [workMem_eq]
        exact Nat.div_pos (hfits.resolve_left hlow) (Nat.mul_pos (con_pos hcon) hshare)
      -- every size is at most that of the memory, so one bound will do for all loops
      obtain ⟨fuel, hfuel⟩ : ∃ fuel, ∀ n, 0 < n → n ≤ mem' →
          binaryround fuel (n * 1024 * 1024) = some (sizeText (rounded (n * 1024 * 1024))) ∧
            30 < fuel := by
        refine ⟨(mem' * 1024 * 1024).log2 + 31, fun n hn hle => ⟨?_, by omega⟩⟩
        refine binaryround_eq (by omega) ?_
        have hlog : (n * 1024 * 1024).log2 ≤ (mem' * 1024 * 1024).log2 :=
          (Nat.le_log2 (by omega)).mpr ((Nat.log2_self_le (by omega)).trans (by omega))
        omega
      have hshared := sharedBuffers_le db_type mem' a.machine
      have hcache := effectiveCacheSize_le db_type mem'
      have hmaintenance := (maintenanceWorkMem_le db_type mem').1
      have hworkLe : workMem db_type mem' con' ≤ mem' := by
        rw [workMem_eq]
        exact Nat.div_le_self _ _
      refine ⟨fuel, ?_⟩
      rw [settings, if_pos (show mem' ≥ 256 from hmore), memorySettings,
        (hfuel _ (sharedBuffers_pos a.machine hmore) (by omega)).1, Option.bind_some,
        (hfuel _ (effectiveCacheSize_pos hmore) (by omega)).1, Option.bind_some,
        (hfuel _ hwork hworkLe).1, Option.bind_some,
        (hfuel _ (maintenanceWorkMem_pos hmore) (by omega)).1, Option.map_some, Option.map_some,
        Option.bind_some, hwal fuel (hfuel 1 (by decide) (by omega)).2]
      rfl

/-- The sizes that some settings stand for, in bytes, against the memory in MB. -/
structure Memory.Fits (m : Memory) (con mem : ℕ) : Prop where
  shared_buffers : ∃ n, readSize m.shared_buffers = some n ∧ 0 < n ∧ 4 * n ≤ mem * 2 ^ 20
  effective_cache_size : ∃ n, readSize m.effective_cache_size = some n ∧ 0 < n ∧
    4 * n ≤ 3 * (mem * 2 ^ 20)
  work_mem : ∃ n, readSize m.work_mem = some n ∧ 0 < n ∧ con * n ≤ mem * 2 ^ 20
  maintenance_work_mem : ∃ n, readSize m.maintenance_work_mem = some n ∧ 0 < n ∧
    8 * n ≤ mem * 2 ^ 20 ∧ n ≤ 2 ^ 30

theorem size_of_binaryround {fuel value : ℕ} {text : String}
    (h : binaryround fuel value = some text) :
    ∃ size, readSize text = some size ∧ 0 < size ∧ size ≤ value := by
  obtain ⟨size, hsize, hle, hlt, -⟩ := (binaryround_spec value).2 fuel text h
  exact ⟨size, hsize, by omega, hle⟩

theorem work_fits {con work mem n unit : ℕ} (hwork : con * work ≤ mem) (hn : n ≤ work * unit) :
    con * n ≤ mem * unit :=
  calc con * n ≤ con * (work * unit) := Nat.mul_le_mul_left con hn
    _ = con * work * unit := (Nat.mul_assoc con work unit).symm
    _ ≤ mem * unit := Nat.mul_le_mul_right unit hwork

/-- The memory settings fit into the memory: a quarter for the shared buffers, three quarters for
the cache, the whole for the work memory of all connections, an eighth and at most 1 GB for
maintenance. -/
theorem configPgtune_fits {fuel : ℕ} {a : Attributes} {c : Config}
    (h : configPgtune fuel a = .ok (some c)) : ∃ mem', mem a = .ok mem' ∧
      (c.memory.isSome ↔ 256 ≤ mem') ∧ ∀ m ∈ c.memory, m.Fits c.max_connections mem' := by
  obtain ⟨db_type, con', mem', -, -, hmem, hc⟩ := configPgtune_eq_ok.mp h
  refine ⟨mem', hmem, ?_⟩
  obtain ⟨memory, hmemory, hc⟩ := Option.bind_eq_some_iff.mp hc
  obtain ⟨wal_buffers, -, rfl⟩ := Option.map_eq_some_iff.mp hc
  split at hmemory
  next hmore =>
    obtain ⟨m, hm, rfl⟩ := Option.map_eq_some_iff.mp hmemory
    refine ⟨iff_of_true rfl hmore, fun m' hm' => ?_⟩
    obtain rfl := Option.some.inj hm'
    obtain ⟨s₁, h₁, hm⟩ := Option.bind_eq_some_iff.mp hm
    obtain ⟨s₂, h₂, hm⟩ := Option.bind_eq_some_iff.mp hm
    obtain ⟨s₃, h₃, hm⟩ := Option.bind_eq_some_iff.mp hm
    obtain ⟨s₄, h₄, rfl⟩ := Option.map_eq_some_iff.mp hm
    refine ⟨?_, ?_, ?_, ?_⟩
    · obtain ⟨n, hn, hpos, hle⟩ := size_of_binaryround h₁
      have hbound := sharedBuffers_le db_type mem' a.machine
      exact ⟨n, hn, hpos, by omega⟩
    · obtain ⟨n, hn, hpos, hle⟩ := size_of_binaryround h₂
      have hbound := effectiveCacheSize_le db_type mem'
      exact ⟨n, hn, hpos, by omega⟩
    · obtain ⟨n, hn, hpos, hle⟩ := size_of_binaryround h₃
      have hmb : 1024 * 1024 = 2 ^ 20 := rfl
      rw [Nat.mul_assoc, hmb] at hle
      exact ⟨n, hn, hpos, work_fits (workMem_le db_type mem' con') hle⟩
    · obtain ⟨n, hn, hpos, hle⟩ := size_of_binaryround h₄
      have hbound := maintenanceWorkMem_le db_type mem'
      exact ⟨n, hn, hpos, by omega, by omega⟩
  next hless =>
    obtain rfl := Option.some.inj hmemory
    exact ⟨iff_of_false Bool.false_ne_true hless, fun m hm => absurd hm (by simp)⟩

/-- A node with 4 GB and no attribute set. -/
def plainNode : Attributes := ⟨none, none, none, "4194304kB", "x86_64", false⟩

theorem configPgtune_fits_plainNode :
    Memory.Fits ⟨"1GB", "3GB", "24MB", "256MB"⟩ 80 4096 := by
  obtain ⟨mem', hmem, -, hfits⟩ := @configPgtune_fits 40 plainNode
    ⟨80, some ⟨"1GB", "3GB", "24MB", "256MB"⟩, 16, "0.9", "-1", 100⟩ (by rfl)
  obtain rfl : 4096 = mem' := Except.ok.inj hmem
  exact hfits _ rfl

end Results

end CompassAdapters.Postgresql
