import CompassAdapters.Effects.Results
import CompassAdapters.Rally.CheckHealth
import Mathlib.Data.List.Count
import Mathlib.Tactic.Ring

/-! What Compass is told about a task: how many reports it gets and with which state. -/
namespace CompassAdapters.Rally
open Effects

/-! ## Counting the iterations -/

theorem getTotalErrors_eq_countP (output : Output) (h : output.result ≠ []) :
    getTotalErrors output = output.result.countP (!·.error.isEmpty) := by
  have hfold (rs : List IterationResult) (n : ℤ) :
      rs.foldl (fun total result => if result.error.isEmpty then total else total + 1) n =
        n + rs.countP (!·.error.isEmpty) := by
    induction rs generalizing n with
    | nil => simp
    | cons r rs ih =>
      rw [List.foldl_cons, ih, List.countP_cons]
      cases r.error.isEmpty <;> simp [add_assoc, add_comm]
  rw [getTotalErrors, if_neg (by simpa using h), hfold, zero_add]

theorem getTotalErrors_nil {output : Output} (h : output.result = []) :
    getTotalErrors output = 1 := by simp [getTotalErrors, h]

/-- The number of iterations counted as failures of the action, and of those without it. -/
def failures (output : Output) (action : String) : ℕ :=
  output.result.countP fun r => !r.lacks action && r.failed action

def missing (output : Output) (action : String) : ℕ :=
  output.result.countP (·.lacks action)

theorem durationStep_counts (action : String) (rs : List IterationResult)
    (st : DurationState) :
    (rs.foldl (durationStep action) st).errors.count =
      st.errors.count + rs.countP (fun r => !r.lacks action && r.failed action) ∧
    (rs.foldl (durationStep action) st).noAction = st.noAction + rs.countP (·.lacks action) := by
  induction rs generalizing st with
  | nil => simp
  | cons r rs ih =>
    rw [List.foldl_cons, List.countP_cons, List.countP_cons, (ih _).1, (ih _).2]
    unfold durationStep
    cases hl : r.lacks action <;> cases hf : r.failed action <;> simp [add_assoc, add_comm]

/-- The average of an action can be computed unless every requested iteration either failed
or lacked the action, and some did lack it. -/
def Averageable (output : Output) (times : ℤ) (action : String) : Prop :=
  missing output action = 0 ∨ (failures output action + missing output action : ℤ) ≠ times

theorem getActionDurReport_ok_iff {output : Output} {times : ℤ} (ht : output.times = some times)
    (action : String) :
    (∃ report, getActionDurReport action output = .ok report) ↔
      Averageable output times action := by
  have hc := durationStep_counts action output.result {}
  set st := output.result.foldl (durationStep action) {} with hst
  have he : st.errors.count = failures output action := by simpa [failures] using hc.1
  have hm : st.noAction = missing output action := by simpa [missing] using hc.2
  have hx : output.totalExec = .ok times := by simp [Output.totalExec, ht]
  by_cases hr : output.result = []
  · refine iff_of_true ?_ (.inl (by simp [missing, hr]))
    simp [getActionDurReport, hx, hr, Except.bind]
  · have hlen : ((output.result.length : ℕ) : ℤ) ≠ 0 := by simpa using hr
    have hemp : output.result.isEmpty = false := by simpa using hr
    simp only [getActionDurReport, ← hst, hx, hemp, Except.bind, Bool.false_eq_true, if_false,
      pyDiv, if_neg hlen, he, hm, Averageable]
    by_cases hall : times = failures output action
    · simp only [if_pos hall]
      refine iff_of_true ⟨_, rfl⟩ ?_
      by_cases hz : missing output action = 0
      · exact .inl hz
      · exact .inr (by omega)
    · rw [if_neg hall]
      by_cases hz : times - failures output action - missing output action = 0
      · simp only [if_pos hz, Except.map]
        exact iff_of_false (by simp) (by omega)
      · simp only [if_neg hz, Except.map]
        exact iff_of_true ⟨_, rfl⟩ (.inr (by omega))

theorem reportedActions_ne_nil (output : Output) (reportName : String) :
    reportedActions output reportName ≠ [] := by
  intro h
  unfold reportedActions at h
  split at h
  next => cases h
  next he => exact he (by rw [h]; rfl)

theorem makeReport_rawOutput {output : Output} {reportName : String} {report : FinalReport}
    (h : makeReport output reportName = .ok report) : report.rawOutput = output := by
  obtain ⟨actions, _, rfl⟩ := map_eq_ok.mp h
  rfl

/-- Without a number of iterations the first action already raises. -/
theorem times_of_makeReport {output : Output} {reportName : String} {report : FinalReport}
    (h : makeReport output reportName = .ok report) : ∃ times, output.times = some times := by
  obtain ⟨actions, ha, _⟩ := map_eq_ok.mp h
  obtain ⟨action, hmem⟩ := List.exists_mem_of_ne_nil _ (reportedActions_ne_nil output reportName)
  obtain ⟨y, hy⟩ := exists_mapM_ok.mp ⟨actions, ha⟩ action hmem
  obtain ⟨r, hr, _⟩ := map_eq_ok.mp hy
  cases ht : output.times with
  | some times => exact ⟨times, rfl⟩
  | none => simp [getActionDurReport, Output.totalExec, ht, Except.bind] at hr

theorem makeReport_ok_iff (output : Output) (reportName : String) :
    (∃ report, makeReport output reportName = .ok report) ↔
      ∃ times, output.times = some times ∧
        ∀ action ∈ reportedActions output reportName, Averageable output times action := by
  have hiff {times : ℤ} (ht : output.times = some times) :
      (∃ report, makeReport output reportName = .ok report) ↔
        ∀ action ∈ reportedActions output reportName, Averageable output times action := by
    simp only [← getActionDurReport_ok_iff ht]
    have hmap {α β : Type} (x : Except PyError α) (f : α → β) :
        (∃ y, x.map f = .ok y) ↔ ∃ y, x = .ok y := by cases x <;> simp [Except.map]
    simp only [makeReport, hmap, exists_mapM_ok]
  constructor
  · rintro ⟨report, h⟩
    obtain ⟨times, ht⟩ := times_of_makeReport h
    exact ⟨times, ht, (hiff ht).mp ⟨report, h⟩⟩
  · rintro ⟨times, ht, h⟩
    exact (hiff ht).mpr h

/-! ## One report per task -/

def putsOf (events : List Event) : List (String × Payload) :=
  events.filterMap fun
    | .put url payload => some (url, payload)
    | _ => none

def PyError.isHealth : PyError → Bool
  | .healthException _ _ => true
  | _ => false

/-- A swallowed `HealthException` adds its own PUT, any other exception adds nothing. -/
def errorReports {α : Type} : Except PyError α → List (String × Payload)
  | .error (.healthException exc url) =>
    match exc.asStr with
    | .ok errMsg => [(url, ⟨none, .error, some errMsg⟩)]
    | .error _ => []
  | _ => []

theorem errorReports_error {α : Type} {e : PyError} (h : e.isHealth = false) :
    errorReports (.error e : Except PyError α) = [] := by
  cases e with
  | healthException => cases h
  | zeroDivisionError => rfl
  | keyError => rfl
  | indexError => rfl
  | taskNotFound => rfl
  | osError => rfl
  | unicodeEncodeError => rfl

theorem errorHandlerDecorator_puts {α : Type} (func : Py α) :
    putsOf (errorHandlerDecorator func).events =
      putsOf func.events ++ errorReports func.result := by
  obtain ⟨events, result⟩ := func
  cases result with
  | ok a => simp [errorHandlerDecorator, errorReports]
  | error e =>
    cases e with
    | healthException exc url =>
      cases he : exc.asStr <;>
        simp [errorHandlerDecorator, errorHandler, errorReports, putsOf, he]
    | _ => simp [errorHandlerDecorator, errorReports]

theorem sendReport_puts (copy : Copy) (self : HealthCheck) {report : FinalReport} {times : ℤ}
    (ht : report.rawOutput.times = some times) (reportUrl : Option String) :
    (sendReport copy self report reportUrl).result = .ok () ∧
    ∃ errorMessage, putsOf (sendReport copy self report reportUrl).events =
      [(reportUrl.getD self.url,
        ⟨some report, reportState copy report.results.totalErrors times, errorMessage⟩)] := by
  have hx : report.rawOutput.totalExec = .ok times := by simp [Output.totalExec, ht]
  simp only [sendReport, hx, Traced.lift_ok_bind]
  exact ⟨rfl, _, rfl⟩

private theorem getActionDurReport_error {action : String} {output : Output} {e : PyError}
    (h : getActionDurReport action output = .error e) : e.isHealth = false := by
  unfold getActionDurReport Output.totalExec pyDiv at h
  cases ht : output.times with
  | none =>
    simp only [ht, Except.bind] at h
    cases h
    rfl
  | some times =>
    simp only [ht, Except.bind] at h
    split at h
    · cases h
    · split at h
      next he =>
        split at he
        · cases he
        · split at he <;> cases he
          cases h
          rfl
      next =>
        split at h
        next he =>
          split at he <;> cases he
          cases h
          rfl
        next => cases h

theorem makeReport_error {output : Output} {reportName : String} {e : PyError}
    (h : makeReport output reportName = .error e) : e.isHealth = false := by
  obtain ⟨action, _, ha⟩ := mapM_error (map_eq_error.mp h)
  exact getActionDurReport_error (map_eq_error.mp ha)

/-- The task was started, and it printed no task id, or its task is known to rally and either
failed with a plain message, or its results were had, with a number of iterations and for every
reported action an average. -/
def Reportable (rally : RallyRun) (reportName : String) : Prop :=
  rally.start.returnCode = 0 ∧
  ∀ taskId, searchTaskId rally.start.output.toList = some taskId →
    ∃ taskObj, rally.taskGet (String.ofList taskId) = some taskObj ∧
      (taskObj.status = "failed" ∧ isAscii taskObj.verificationLog ∨
        taskObj.status ≠ "failed" ∧ (rally.taskResults (String.ofList taskId)).returnCode = 0 ∧
          ∃ output rest times,
            (rally.taskResults (String.ofList taskId)).output = output :: rest ∧
            output.times = some times ∧
            ∀ action ∈ reportedActions output reportName, Averageable output times action)

/-- How `collect_and_send_report` can end: with its one PUT, with an exception that the
decorator turns into one, or with an exception that nobody reports. -/
inductive Ending (url : String) : Py Unit → Prop where
  | sent {x : Py Unit} (payload : Payload) (hr : x.result = .ok ())
      (hp : putsOf x.events = [(url, payload)]) (hs : payload.report.isSome) : Ending url x
  | raised {x : Py Unit} {exc : PyText} (errMsg : String) (hs : exc.asStr = .ok errMsg)
      (hr : x.result = .error (.healthException exc url)) (hp : putsOf x.events = []) :
      Ending url x

def Lost (x : Py Unit) : Prop := putsOf x.events = [] ∧ errorReports x.result = []

section ExecCli
variable {α : Type} (command : Command) {proc : CliOutcome α} {f : CliOutcome α → Py Unit}

theorem execCli_zero_bind {β : Type} (h : proc.returnCode = 0) (f : CliOutcome α → Py β) :
    (execCli command proc >>= f) =
      (⟨.execCli command :: (f proc).events, (f proc).result⟩ : Py β) := by
  simp [execCli, h]

theorem execCli_nonzero_bind {β : Type} (h : proc.returnCode ≠ 0) (f : CliOutcome α → Py β) :
    (execCli command proc >>= f) = (⟨[.execCli command], .error .osError⟩ : Py β) := by
  simp [execCli, h]

private theorem Ending.execCli {url : String} (hrc : proc.returnCode = 0)
    (h : Ending url (f proc)) : Ending url (execCli command proc >>= f) := by
  rw [execCli_zero_bind command hrc]
  cases h with
  | sent payload hr hp hs => exact .sent payload hr hp hs
  | raised errMsg hs hr hp => exact .raised errMsg hs hr hp

private theorem Lost.execCli (h : proc.returnCode = 0 → Lost (f proc)) :
    Lost (execCli command proc >>= f) := by
  by_cases hrc : proc.returnCode = 0
  · rw [execCli_zero_bind command hrc]
    exact h hrc
  · rw [execCli_nonzero_bind command hrc]
    exact ⟨rfl, rfl⟩

end ExecCli

section Collect
variable (copy : Copy) (self : HealthCheck) (rally : RallyRun) (taskName : String)

/-- What follows on a successful `rally task results`. -/
private def resultsBody (cli : CliOutcome (List Output)) : Py Unit :=
  if cli.returnCode > 0 then
    Traced.raise (.healthException (.str cli.errMsg) (self.reportUrl (getReportName taskName)))
  else do
    let output ← Traced.lift (firstOutput cli.output)
    let report ← Traced.lift (makeReport output (getReportName taskName))
    sendReport copy self report (some (self.reportUrl (getReportName taskName)))

private theorem resultsBody_cons {cli : CliOutcome (List Output)} {output : Output}
    {rest : List Output} (hrc : cli.returnCode = 0) (ho : cli.output = output :: rest) :
    resultsBody copy self taskName cli =
      Traced.lift (makeReport output (getReportName taskName)) >>= fun report =>
        sendReport copy self report (some (self.reportUrl (getReportName taskName))) := by
  simp [resultsBody, hrc, ho, firstOutput]

private theorem resultsBody_ending {cli : CliOutcome (List Output)} {output : Output}
    {rest : List Output} (hrc : cli.returnCode = 0) (ho : cli.output = output :: rest)
    (h : ∃ report, makeReport output (getReportName taskName) = .ok report) :
    Ending (self.reportUrl (getReportName taskName)) (resultsBody copy self taskName cli) := by
  obtain ⟨times, ht, _⟩ := (makeReport_ok_iff _ _).mp h
  obtain ⟨report, hm⟩ := h
  have htr : report.rawOutput.times = some times := by rw [makeReport_rawOutput hm, ht]
  obtain ⟨hres, msg, hputs⟩ := sendReport_puts copy self htr
    (some (self.reportUrl (getReportName taskName)))
  have hb : resultsBody copy self taskName cli =
      sendReport copy self report (some (self.reportUrl (getReportName taskName))) := by
    rw [resultsBody_cons copy self taskName hrc ho, hm, Traced.lift_ok_bind]
  exact .sent _ (by rw [hb, hres]) (by rw [hb]; exact hputs) rfl

private theorem resultsBody_lost {cli : CliOutcome (List Output)} (hrc : cli.returnCode = 0)
    (h : ∀ output rest, cli.output = output :: rest →
      ¬ ∃ report, makeReport output (getReportName taskName) = .ok report) :
    Lost (resultsBody copy self taskName cli) := by
  cases ho : cli.output with
  | nil =>
    have hb : resultsBody copy self taskName cli = Traced.raise .indexError := by
      simp [resultsBody, hrc, ho, firstOutput]
    rw [hb]
    exact ⟨rfl, rfl⟩
  | cons output rest =>
    rw [resultsBody_cons copy self taskName hrc ho]
    cases hr : makeReport output (getReportName taskName) with
    | ok report => exact absurd ⟨report, hr⟩ (h output rest ho)
    | error e => exact ⟨rfl, errorReports_error (makeReport_error hr)⟩

variable {rally taskName} {taskOutput : String} {taskId : List Char} {taskObj : TaskObj}

private theorem collect_none (hs : searchTaskId taskOutput.toList = none) :
    collectAndSendReport copy self rally taskName taskOutput = Traced.raise (.healthException
      (.str "Unknown rally internel error!") (self.reportUrl (getReportName taskName))) := by
  simp only [collectAndSendReport, hs]

private theorem collect_failed (hs : searchTaskId taskOutput.toList = some taskId)
    (hg : rally.taskGet (String.ofList taskId) = some taskObj) (hf : taskObj.status = "failed") :
    collectAndSendReport copy self rally taskName taskOutput = Traced.raise (.healthException
      (.unicode taskObj.verificationLog) (self.reportUrl (getReportName taskName))) := by
  simp only [collectAndSendReport, hs, RallyRun.dbTaskGet, hg, Traced.lift_ok_bind, if_pos hf]

private theorem collect_results (hs : searchTaskId taskOutput.toList = some taskId)
    (hg : rally.taskGet (String.ofList taskId) = some taskObj) (hf : taskObj.status ≠ "failed") :
    collectAndSendReport copy self rally taskName taskOutput =
      execCli (.taskResults (String.ofList taskId)) (rally.taskResults (String.ofList taskId)) >>=
        resultsBody copy self taskName := by
  simp only [collectAndSendReport, hs, RallyRun.dbTaskGet, hg, Traced.lift_ok_bind, if_neg hf]
  rfl

theorem collectAndSendReport_ending (h : Reportable rally (getReportName taskName)) :
    Ending (self.reportUrl (getReportName taskName))
      (collectAndSendReport copy self rally taskName rally.start.output) := by
  cases hs : searchTaskId rally.start.output.toList with
  | none =>
    rw [collect_none copy self hs]
    exact .raised _ rfl rfl rfl
  | some taskId =>
    obtain ⟨taskObj, hg, ⟨hf, hlog⟩ | ⟨hf, hrc, output, rest, times, ho, hrep⟩⟩ := h.2 taskId hs
    · rw [collect_failed copy self hs hg hf]
      have hstr : PyText.asStr (.unicode taskObj.verificationLog) = .ok _ := if_pos hlog
      exact .raised _ hstr rfl rfl
    · rw [collect_results copy self hs hg hf]
      exact (resultsBody_ending copy self taskName hrc ho
        ((makeReport_ok_iff _ _).mpr ⟨times, hrep⟩)).execCli _ hrc

theorem collectAndSendReport_lost (hstart : rally.start.returnCode = 0)
    (h : ¬ Reportable rally (getReportName taskName)) :
    Lost (collectAndSendReport copy self rally taskName rally.start.output) := by
  rw [Reportable, and_iff_right hstart] at h
  push Not at h
  obtain ⟨taskId, hs, hn⟩ := h
  cases hg : rally.taskGet (String.ofList taskId) with
  | none =>
    have he : collectAndSendReport copy self rally taskName rally.start.output =
        Traced.raise (.taskNotFound (String.ofList taskId)) := by
      simp only [collectAndSendReport, hs, RallyRun.dbTaskGet, hg, Traced.lift_error_bind]
    rw [he]
    exact ⟨rfl, rfl⟩
  | some taskObj =>
    have hn := hn taskObj hg
    by_cases hf : taskObj.status = "failed"
    · rw [collect_failed copy self hs hg hf]
      have hlog : isAscii taskObj.verificationLog = false :=
        Bool.eq_false_iff.mpr (hn.1 hf)
      exact ⟨rfl, by simp [errorReports, PyText.asStr, hlog]⟩
    · rw [collect_results copy self hs hg hf]
      refine Lost.execCli _ fun hrc => resultsBody_lost copy self taskName hrc fun output rest ho
        hrep => ?_
      obtain ⟨times, ht, hall⟩ := (makeReport_ok_iff _ _).mp hrep
      obtain ⟨action, hmem, hbad⟩ := hn.2 hf hrc output rest times ho ht
      exact hbad (hall action hmem)

end Collect

theorem startTask_starts (copy : Copy) (self : HealthCheck) (rally : RallyRun)
    (taskJsonPath : String) :
    .execCli (.taskStart taskJsonPath) ∈ (startTask copy self rally taskJsonPath).events := by
  have hmem {α : Type} {x : Py α} {e : Event} (h : e ∈ x.events) :
      e ∈ (errorHandlerDecorator x).events := by
    obtain ⟨events, result⟩ := x
    cases result with
    | ok a => simpa [errorHandlerDecorator] using h
    | error e' => simp [errorHandlerDecorator, show e ∈ events from h]
  refine hmem ?_
  by_cases hrc : rally.start.returnCode = 0
  · rw [execCli_zero_bind _ hrc]
    exact List.mem_cons_self
  · rw [execCli_nonzero_bind _ hrc]
    exact List.mem_cons_self

/-- Exactly one PUT leaves `start_task`, to the url of the task: the error payload or the
payload with the report. -/
def ReportsOnce (copy : Copy) (self : HealthCheck) (rally : RallyRun) (taskJsonPath : String) :
    Prop :=
  ∃ payload, putsOf (startTask copy self rally taskJsonPath).events =
      [(self.reportUrl (getReportName (getTaskName taskJsonPath)), payload)] ∧
    (payload.report = none ∧ payload.state = .error ∨ payload.report.isSome)

theorem startTask_puts (copy : Copy) (self : HealthCheck) (rally : RallyRun)
    (taskJsonPath : String) :
    (Reportable rally (getReportName (getTaskName taskJsonPath)) →
      ReportsOnce copy self rally taskJsonPath) ∧
    (¬ Reportable rally (getReportName (getTaskName taskJsonPath)) →
      putsOf (startTask copy self rally taskJsonPath).events = []) := by
  set x : Py Unit := execCli (.taskStart taskJsonPath) rally.start >>= fun cli =>
    collectAndSendReport copy self rally (getTaskName taskJsonPath) cli.output with hx
  have hputs : putsOf (startTask copy self rally taskJsonPath).events =
      putsOf x.events ++ errorReports x.result := errorHandlerDecorator_puts x
  unfold ReportsOnce
  rw [hputs]
  constructor
  · intro h
    have hend : Ending (self.reportUrl (getReportName (getTaskName taskJsonPath))) x :=
      (collectAndSendReport_ending copy self h).execCli _ h.1
    cases hend with
    | sent payload hr hp hs => exact ⟨payload, by rw [hr, hp]; rfl, .inr hs⟩
    | raised errMsg hs hr hp =>
      exact ⟨_, by rw [hr, hp, errorReports, hs]; rfl, .inl ⟨rfl, rfl⟩⟩
  · intro h
    have hlost : Lost x := Lost.execCli _ fun hrc => collectAndSendReport_lost copy self hrc h
    rw [hlost.1, hlost.2]
    rfl

theorem startTask_reportsOnce_iff (copy : Copy) (self : HealthCheck) (rally : RallyRun)
    (taskJsonPath : String) :
    ReportsOnce copy self rally taskJsonPath ↔
      Reportable rally (getReportName (getTaskName taskJsonPath)) := by
  obtain ⟨hsent, hlost⟩ := startTask_puts copy self rally taskJsonPath
  refine ⟨fun ⟨payload, hp, _⟩ => ?_, hsent⟩
  by_contra hn
  rw [hlost hn] at hp
  cases hp

/-- Two requested iterations that failed in different actions. -/
def twoFailures : Output :=
  ⟨some 2, [⟨["no valid host"], 0, [("nova.boot_server", none)]⟩,
    ⟨["no such image"], 0, [("glance.list_images", none)]⟩]⟩

def twoFailuresRun : RallyRun :=
  ⟨⟨0, "rally task results 3f-a1\n", ""⟩, fun _ => some ⟨"finished", ""⟩,
    fun _ => ⟨0, [twoFailures], ""⟩⟩

theorem twoFailures_unreported : ¬ ∀ copy self rally path, ReportsOnce copy self rally path := by
  intro h
  obtain ⟨payload, hp, _⟩ := h .docker ⟨"http://compass", "demo"⟩ twoFailuresRun "nova/boot.json"
  have hnone : putsOf (startTask .docker ⟨"http://compass", "demo"⟩ twoFailuresRun
      "nova/boot.json").events = [] := by decide +kernel
  rw [hnone] at hp
  cases hp

/-! ## The state of a report -/

def sentStates (x : Py Unit) : List State := (putsOf x.events).map (·.2.state)

/-- What the two copies are meant to send for the results of `times` requested iterations. -/
structure RightState (output : Output) (times : ℤ) (state : State) : Prop where
  success : state = .success ↔ output.result ≠ [] ∧ ∀ r ∈ output.result, r.error = []
  error : state = .error ↔
    output.result = [] ∨ (output.result.countP (!·.error.isEmpty) : ℤ) = times
  finished : state = .finished ↔
    ¬ (output.result ≠ [] ∧ ∀ r ∈ output.result, r.error = []) ∧
    ¬ (output.result = [] ∨ (output.result.countP (!·.error.isEmpty) : ℤ) = times)

/-- Every copy of `send_report` sends `state` for the report of this output. -/
def AllSend (output : Output) (state : State) : Prop :=
  ∀ copy self actions reportUrl,
    sentStates (sendReport copy self ⟨⟨actions, getTotalErrors output⟩, output⟩ reportUrl) =
      [state]

theorem allSend_iff {output : Output} {times : ℤ} (ht : output.times = some times)
    (state : State) : AllSend output state ↔
      ∀ copy, reportState copy (getTotalErrors output) times = state := by
  have hsent (copy : Copy) (self : HealthCheck) (actions : List (String × DurationReport))
      (reportUrl : Option String) :
      sentStates (sendReport copy self ⟨⟨actions, getTotalErrors output⟩, output⟩ reportUrl) =
        [reportState copy (getTotalErrors output) times] := by
    let report : FinalReport := ⟨⟨actions, getTotalErrors output⟩, output⟩
    have htr : report.rawOutput.times = some times := ht
    obtain ⟨_, msg, hputs⟩ := sendReport_puts copy self htr reportUrl
    rw [sentStates, hputs]
    rfl
  simp only [AllSend, hsent, List.cons.injEq, and_true]
  exact ⟨fun h copy => h copy ⟨"", ""⟩ [] none, fun h copy _ _ _ => h copy⟩

theorem right_nil_iff {output : Output} {times : ℤ} (hpos : 1 ≤ times) (hr : output.result = []) :
    (∃ state, (∀ copy, reportState copy (getTotalErrors output) times = state) ∧
      RightState output times state) ↔ times = 1 := by
  rw [getTotalErrors_nil hr]
  constructor
  · rintro ⟨state, hs, hright⟩
    have he : state = .error := hright.error.mpr (.inl hr)
    have hchef := hs .chef
    rw [he] at hchef
    by_contra hne
    have hlt : ¬ (1 : ℤ) ≥ times := by omega
    simp [reportState, hlt] at hchef
  · rintro rfl
    refine ⟨.error, fun copy => by cases copy <;> rfl, ?_, ?_, ?_⟩ <;> simp [hr]

theorem right_results_iff {output : Output} {times : ℤ} (hpos : 1 ≤ times)
    (hlen : (output.result.length : ℤ) ≤ times) (hr : output.result ≠ []) :
    (∃ state, (∀ copy, reportState copy (getTotalErrors output) times = state) ∧
      RightState output times state) ↔ ∃ r ∈ output.result, r.error ≠ [] := by
  have hcount := getTotalErrors_eq_countP output hr
  have hle : output.result.countP (!·.error.isEmpty) ≤ output.result.length :=
    List.countP_le_length
  set e := output.result.countP (!·.error.isEmpty) with he
  rw [hcount]
  have hsome : (∃ r ∈ output.result, r.error ≠ []) ↔ 0 < e := by
    rw [he, List.countP_pos_iff]
    simp
  have hnone : (∀ r ∈ output.result, r.error = []) ↔ e = 0 := by
    rw [he, List.countP_eq_zero]
    simp
  rw [hsome]
  constructor
  · rintro ⟨state, hs, hright⟩
    by_contra hzero
    have hz : e = 0 := by omega
    have hsucc : state = .success := hright.success.mpr ⟨hr, hnone.mpr hz⟩
    have hdocker := hs .docker
    have htpos : times > 0 := by omega
    simp [reportState, hz, hsucc, htpos] at hdocker
  · intro hpos'
    have hez : ¬ e = 0 := by omega
    by_cases hall : (e : ℤ) = times
    · refine ⟨.error, fun copy => ?_, ?_, ?_, ?_⟩
      · have hge : (e : ℤ) ≥ times := hall.ge
        cases copy <;> simp [reportState, hge]
      · simp [hnone, hez]
      · simp [hr, ← he, hall]
      · simp [hr, ← he, hall]
    · have hge : ¬ (e : ℤ) ≥ times := by omega
      refine ⟨.finished, fun copy => ?_, ?_, ?_, ?_⟩
      · cases copy <;> simp [reportState, hge, hez]
      · simp [hnone, hez]
      · simp [hr, ← he, hall]
      · simp [hr, ← he, hall, hnone, hez]

/-- The copies agree on the right state exactly when some iteration failed, or when there is
no result of a single requested iteration: the docker copy calls a run without any error a
failure, and both copies count an empty list as one error only. -/
theorem allSend_right_iff (output : Output) (times : ℤ) (ht : output.times = some times)
    (hpos : 1 ≤ times) (hlen : (output.result.length : ℤ) ≤ times) :
    (∃ state, AllSend output state ∧ RightState output times state) ↔
      (∃ r ∈ output.result, r.error ≠ []) ∨ (output.result = [] ∧ times = 1) := by
  simp only [allSend_iff ht]
  by_cases hr : output.result = []
  · rw [right_nil_iff hpos hr]
    simp [hr]
  · rw [right_results_iff hpos hlen hr]
    simp [hr]

theorem allSend_right_twoFailures : ∃ state, AllSend twoFailures state ∧
    RightState twoFailures 2 state :=
  (allSend_right_iff twoFailures 2 rfl (by decide) (by decide)).mpr
    (.inl ⟨⟨["no valid host"], 0, [("nova.boot_server", none)]⟩, by decide, by decide⟩)

/-- One requested iteration that succeeded. -/
def oneSuccess : Output := ⟨some 1, [⟨[], 3, [("nova.boot_server", some 3)]⟩]⟩

theorem oneSuccess_misreported : ¬ ∀ output times, output.times = some times → 1 ≤ times →
    (output.result.length : ℤ) ≤ times →
    ∃ state, AllSend output state ∧ RightState output times state := by
  intro h
  obtain ⟨state, hs, _⟩ := h oneSuccess 1 rfl (by decide) (by decide)
  have hd := hs .docker ⟨"", ""⟩ [] none
  have hc := hs .chef ⟨"", ""⟩ [] none
  have hne : sentStates (sendReport .docker ⟨"", ""⟩ ⟨⟨[], getTotalErrors oneSuccess⟩, oneSuccess⟩
      none) ≠ sentStates (sendReport .chef ⟨"", ""⟩ ⟨⟨[], getTotalErrors oneSuccess⟩, oneSuccess⟩
      none) := by decide
  exact hne (hd.trans hc.symm)

end CompassAdapters.Rally
