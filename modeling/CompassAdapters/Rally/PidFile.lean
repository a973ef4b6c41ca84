import CompassAdapters.Transition.Runs
import Mathlib.Logic.Function.Basic

/-! The pid file `/tmp/compass_health_check.pid` of the health check. Any number of
processes start, handle task failures, finish their run and end, in any order. -/
namespace CompassAdapters.Rally.PidFile
open Transition

abbrev Pid := ℕ

/-- `running handled` lasts from the start step to the end of `HealthCheck.run`; `handled`
records that `error_handler` was called during it, by whatever worker. `outside` is alive but
in no run. -/
inductive Phase where
  | dead
  | outside
  | running (handled : Bool)
  deriving DecidableEq, Repr

def Phase.isRunning : Phase → Bool
  | .running _ => true
  | _ => false

def Phase.handle : Phase → Phase
  | .running _ => .running true
  | ph => ph

@[simp] theorem Phase.handle_eq_running {ph : Phase} {b : Bool} :
    ph.handle = .running b ↔ ph.isRunning ∧ b = true := by
  cases ph <;> simp [handle, isRunning, eq_comm]

theorem Phase.isRunning_iff {ph : Phase} : ph.isRunning ↔ ∃ b, ph = .running b := by
  cases ph <;> simp [isRunning]

/-- `pidfile` is `none` when the file does not exist. The workers of a killed process are
`orphaned`: they go on with their tasks. -/
structure Host where
  pidfile : Option Pid
  phase : Pid → Phase
  orphaned : Pid → Bool

namespace Host

/-- `os.path.exists('/proc/%s/cmd' % pid)`. -/
def alive (h : Host) (pid : Pid) : Bool := h.phase pid != .dead

def setPhase (h : Host) (pid : Pid) (ph : Phase) : Host :=
  { h with phase := Function.update h.phase pid ph }

def isProcessRunning (h : Host) : Bool × Host :=
  match h.pidfile with
  | none => (false, h)
  | some pid => if h.alive pid then (true, h) else (false, { h with pidfile := none })

def cleanPidfile (h : Host) : Host :=
  match h.isProcessRunning with
  | (false, h') => h'
  | (true, h') => { h' with pidfile := none }

/-- The effect of `error_handler` on the host; its report is not seen here. -/
def errorHandler (h : Host) : Host :=
  { h.cleanPidfile with phase := fun q => (h.phase q).handle }

/-- Some worker of the process, or the process itself, is at a task. -/
def atWork (h : Host) (pid : Pid) : Bool := (h.phase pid).isRunning || h.orphaned pid

/-- `main` up to the construction of the checker, by a process that has just come to life. -/
def main (h : Host) (pid : Pid) : Host :=
  match (h.setPhase pid .outside).isProcessRunning with
  | (true, h') => h'
  | (false, h') => { h' with pidfile := some pid }.setPhase pid (.running false)

def initial (stale : Option Pid) : Host := ⟨stale, fun _ => .dead, fun _ => false⟩

@[simp] theorem setPhase_self (h : Host) (p : Pid) (ph : Phase) :
    (h.setPhase p ph).phase p = ph := by simp [setPhase]

@[simp] theorem setPhase_ne (h : Host) {p q : Pid} (ph : Phase) (hne : q ≠ p) :
    (h.setPhase p ph).phase q = h.phase q := by simp [setPhase, hne]

@[simp] theorem setPhase_pidfile (h : Host) (p : Pid) (ph : Phase) :
    (h.setPhase p ph).pidfile = h.pidfile := rfl

theorem isProcessRunning_phase (h : Host) : h.isProcessRunning.2.phase = h.phase := by
  unfold isProcessRunning
  split
  · rfl
  · split <;> rfl

theorem isProcessRunning_false {h h' : Host} (hr : h.isProcessRunning = (false, h')) :
    h'.pidfile = none := by
  unfold isProcessRunning at hr
  split at hr
  next hf =>
    cases hr
    exact hf
  next =>
    split at hr <;> cases hr
    rfl

@[simp] theorem cleanPidfile_phase (h : Host) : h.cleanPidfile.phase = h.phase := by
  have hp := h.isProcessRunning_phase
  unfold cleanPidfile
  split <;> simp_all

@[simp] theorem cleanPidfile_pidfile (h : Host) : h.cleanPidfile.pidfile = none := by
  unfold cleanPidfile
  split
  next he => exact isProcessRunning_false he
  next => rfl

/-- The pid file keeps a new process out exactly while the process it names is alive. -/
theorem isProcessRunning_true {h : Host} {pid : Pid} (hf : h.pidfile = some pid)
    (ha : h.phase pid ≠ .dead) : h.isProcessRunning = (true, h) := by
  simp [isProcessRunning, hf, alive, ha]

end Host

inductive Action where
  | start (pid : Pid)
  | taskFailure (pid : Pid)
  | taskCompletion (pid : Pid)
  | endOfRun (pid : Pid)
  | exit (pid : Pid)
  | kill (pid : Pid)
  | workersEnd (pid : Pid)
  deriving DecidableEq, Repr

/-- `exit` in the middle of a run leaves `run` by an exception, before the pool is there or
after it is joined; `kill` leaves the workers of the pool behind. -/
def step (h : Host) : Action → Option Host
  | .start pid =>
    match h.phase pid with
    | .dead => some (h.main pid)
    | _ => none
  | .taskFailure pid => if h.atWork pid then some h.errorHandler else none
  | .taskCompletion pid => if h.atWork pid then some h else none
  | .endOfRun pid =>
    match h.phase pid with
    | .running _ => some (h.cleanPidfile.setPhase pid .outside)
    | _ => none
  | .exit pid =>
    match h.phase pid with
    | .dead => none
    | _ => some (h.setPhase pid .dead)
  | .kill pid =>
    match h.phase pid with
    | .running _ =>
      some { h.setPhase pid .dead with orphaned := Function.update h.orphaned pid true }
    | _ => none
  | .workersEnd pid =>
    if h.orphaned pid then some { h with orphaned := Function.update h.orphaned pid false }
    else none

def InRun (h : Host) (pid : Pid) : Prop := ∃ handled, h.phase pid = .running handled

def AtMostOneRun (h : Host) : Prop := ∀ p q, InRun h p → InRun h q → p = q

/-- No process starts while a run in which a task error was handled is still in progress. -/
def NoStartAfterFailure (h : Host) : Action → Prop
  | .start _ => ∀ q, h.phase q ≠ .running true
  | _ => True

/-- A run without a handled error owns the pid file; one with a handled error has lost it. -/
structure Owned (h : Host) : Prop where
  unique : AtMostOneRun h
  holds : ∀ p, h.phase p = .running false → h.pidfile = some p
  lost : ∀ p, h.phase p = .running true → h.pidfile = none

theorem owned_initial (stale : Option Pid) : Owned (Host.initial stale) where
  unique := by rintro p q ⟨b, hb⟩; cases hb
  holds := by intro p hp; cases hp
  lost := by intro p hp; cases hp

/-- Without a run in progress the newcomer either gets the file or leaves. -/
private theorem main_idle {h : Host} (pid : Pid) (hidle : ∀ q, ¬ InRun h q) :
    Owned (h.main pid) := by
  have hother (q : Pid) (hq : q ≠ pid) (b : Bool) : h.phase q ≠ .running b :=
    fun e => hidle q ⟨b, e⟩
  unfold Host.main
  split
  next h' he =>
    have hph : h'.phase = (h.setPhase pid .outside).phase := by
      simpa only [he] using (h.setPhase pid .outside).isProcessRunning_phase
    have hnone (q : Pid) (b : Bool) : h'.phase q ≠ .running b := by
      rw [hph]
      by_cases hq : q = pid
      · simp [hq]
      · simpa [hq] using hother q hq b
    exact ⟨fun p _ ⟨b, hb⟩ => absurd hb (hnone p b), fun p hp => absurd hp (hnone p _),
      fun p hp => absurd hp (hnone p _)⟩
  next h' he =>
    have hph : h'.phase = (h.setPhase pid .outside).phase := by
      simpa only [he] using (h.setPhase pid .outside).isProcessRunning_phase
    have hrun (q : Pid) (b : Bool)
        (hq : ({ h' with pidfile := some pid }.setPhase pid (.running false)).phase q =
          .running b) : q = pid ∧ b = false := by
      by_cases hqp : q = pid
      · subst hqp
        exact ⟨rfl, by simpa using hq.symm⟩
      · rw [Host.setPhase_ne _ _ hqp] at hq
        change h'.phase q = _ at hq
        rw [hph, Host.setPhase_ne _ _ hqp] at hq
        exact absurd hq (hother q hqp b)
    refine ⟨fun p q ⟨b, hb⟩ ⟨c, hc⟩ => ?_, fun p hp => ?_, fun p hp => ?_⟩
    · rw [(hrun p b hb).1, (hrun q c hc).1]
    · rw [(hrun p _ hp).1]
      rfl
    · exact absurd (hrun p _ hp).2 (by decide)

/-- A run that owns the pid file keeps every newcomer out. -/
private theorem main_busy {h : Host} {pid q : Pid} (ho : Owned h) (hd : h.phase pid = .dead)
    (hq : h.phase q = .running false) : h.main pid = h.setPhase pid .outside := by
  have hne : q ≠ pid := by
    rintro rfl
    rw [hd] at hq
    cases hq
  have hr := Host.isProcessRunning_true (h := h.setPhase pid .outside)
    (by rw [Host.setPhase_pidfile]; exact ho.holds q hq) (by simp [hne, hq])
  simp [Host.main, hr]

private theorem owned_setPhase {h : Host} (ho : Owned h) {pid : Pid} {ph : Phase}
    (hph : ∀ b, ph ≠ .running b) : Owned (h.setPhase pid ph) := by
  have hback (q : Pid) (b : Bool) (hq : (h.setPhase pid ph).phase q = .running b) :
      h.phase q = .running b := by
    by_cases hqp : q = pid
    · subst hqp
      rw [Host.setPhase_self] at hq
      exact absurd hq (hph b)
    · rwa [Host.setPhase_ne _ _ hqp] at hq
  exact ⟨fun p q ⟨b, hb⟩ ⟨c, hc⟩ => ho.unique p q ⟨b, hback p b hb⟩ ⟨c, hback q c hc⟩,
    fun p hp => ho.holds p (hback p _ hp), fun p hp => ho.lost p (hback p _ hp)⟩

/-- Dropping the file is harmless to the invariant once the run in progress is marked. -/
private theorem owned_errorHandler {h : Host} (ho : Owned h) : Owned h.errorHandler := by
  have hback (q : Pid) (b : Bool) (hq : h.errorHandler.phase q = .running b) :
      InRun h q ∧ b = true := by
    obtain ⟨hr, rfl⟩ := Phase.handle_eq_running.mp hq
    exact ⟨Phase.isRunning_iff.mp hr, rfl⟩
  refine ⟨fun p q ⟨b, hb⟩ ⟨c, hc⟩ => ho.unique p q (hback p b hb).1 (hback q c hc).1,
    fun p hp => ?_, fun p _ => h.cleanPidfile_pidfile⟩
  cases (hback p _ hp).2

/-- The end of a run drops the file and leaves no run behind. -/
private theorem owned_endOfRun {h : Host} (ho : Owned h) {pid : Pid} (hr : InRun h pid) :
    Owned (h.cleanPidfile.setPhase pid .outside) := by
  have hnone (q : Pid) (b : Bool) :
      (h.cleanPidfile.setPhase pid .outside).phase q ≠ .running b := by
    intro hq
    by_cases hqp : q = pid
    · simp [hqp] at hq
    · rw [Host.setPhase_ne _ _ hqp, Host.cleanPidfile_phase] at hq
      exact hqp (ho.unique q pid ⟨b, hq⟩ hr)
  exact ⟨fun p _ ⟨b, hb⟩ => absurd hb (hnone p b), fun p hp => absurd hp (hnone p _),
    fun p hp => absurd hp (hnone p _)⟩

private theorem owned_orphaned {h : Host} (ho : Owned h) (orphaned : Pid → Bool) :
    Owned { h with orphaned := orphaned } := ⟨ho.unique, ho.holds, ho.lost⟩

theorem owned_step (h : Host) (a : Action) (t : Host) (ho : Owned h)
    (hok : NoStartAfterFailure h a) (hs : step h a = some t) : Owned t := by
  cases a with
  | start pid =>
    simp only [step] at hs
    split at hs
    next hd =>
      obtain rfl := Option.some.inj hs
      by_cases hrun : ∃ q, InRun h q
      · obtain ⟨q, b, hq⟩ := hrun
        cases b with
        | true => exact absurd hq (hok q)
        | false =>
          rw [main_busy ho hd hq]
          exact owned_setPhase ho (by simp)
      · exact main_idle pid (fun q hq => hrun ⟨q, hq⟩)
    next => cases hs
  | taskFailure pid =>
    simp only [step] at hs
    split at hs
    next =>
      obtain rfl := Option.some.inj hs
      exact owned_errorHandler ho
    next => cases hs
  | taskCompletion pid =>
    simp only [step] at hs
    split at hs
    next => exact Option.some.inj hs ▸ ho
    next => cases hs
  | endOfRun pid =>
    simp only [step] at hs
    split at hs
    next b hb =>
      obtain rfl := Option.some.inj hs
      exact owned_endOfRun ho ⟨b, hb⟩
    next => cases hs
  | exit pid =>
    simp only [step] at hs
    split at hs
    next => cases hs
    next =>
      obtain rfl := Option.some.inj hs
      exact owned_setPhase ho (by simp)
  | kill pid =>
    simp only [step] at hs
    split at hs
    next =>
      obtain rfl := Option.some.inj hs
      exact owned_orphaned (owned_setPhase ho (by simp)) _
    next => cases hs
  | workersEnd pid =>
    simp only [step] at hs
    split at hs
    next =>
      obtain rfl := Option.some.inj hs
      exact owned_orphaned ho _
    next => cases hs

/-- After a handled error the file is gone, so any newcomer joins the run in progress. -/
theorem start_after_failure (h : Host) (a : Action) (t : Host) (ho : Owned h)
    (hbad : ¬ NoStartAfterFailure h a) (hs : step h a = some t) : ¬ AtMostOneRun t := by
  cases a with
  | start pid =>
    simp only [NoStartAfterFailure, not_forall, not_not] at hbad
    obtain ⟨q, hq⟩ := hbad
    simp only [step] at hs
    split at hs
    next hd =>
      obtain rfl := Option.some.inj hs
      have hne : q ≠ pid := by
        rintro rfl
        rw [hd] at hq
        cases hq
      have hr : (h.setPhase pid .outside).isProcessRunning =
          (false, h.setPhase pid .outside) := by
        simp [Host.isProcessRunning, ho.lost q hq]
      have hm : h.main pid =
          { h.setPhase pid .outside with pidfile := some pid }.setPhase pid (.running false) := by
        simp [Host.main, hr]
      intro hone
      refine hne (hone q pid ⟨true, ?_⟩ ⟨false, ?_⟩)
      · rw [hm, Host.setPhase_ne _ _ hne]
        change (h.setPhase pid .outside).phase q = _
        rw [Host.setPhase_ne _ _ hne, hq]
      · rw [hm, Host.setPhase_self]
    next => cases hs
  | taskFailure => exact absurd trivial hbad
  | taskCompletion => exact absurd trivial hbad
  | endOfRun => exact absurd trivial hbad
  | exit => exact absurd trivial hbad
  | kill => exact absurd trivial hbad
  | workersEnd => exact absurd trivial hbad

/-- Runs overlap exactly when a process starts after `error_handler`, called by a task of the
run or by a worker that outlived an earlier one, took the pid file away from a run that goes
on. -/
theorem atMostOneRun_iff (stale : Option Pid) (actions : List Action) :
    Always step AtMostOneRun (Host.initial stale) actions ↔
      Guarded step NoStartAfterFailure (Host.initial stale) actions :=
  always_iff_guarded owned_step (fun _ h => h.unique) start_after_failure (owned_initial stale)

/-- One failed task of process 1 lets process 2 in. -/
theorem overlapping_runs :
    ¬ ∀ actions, Always step AtMostOneRun (Host.initial none) actions := by
  intro h
  have hr : ∃ t, run step (Host.initial none) [.start 1, .taskFailure 1, .start 2] = some t ∧
      InRun t 1 ∧ InRun t 2 := ⟨_, rfl, ⟨true, rfl⟩, ⟨false, rfl⟩⟩
  obtain ⟨t, ht, h1, h2⟩ := hr
  exact absurd ((h _).run_end ht 1 2 h1 h2) (by decide)

end CompassAdapters.Rally.PidFile
