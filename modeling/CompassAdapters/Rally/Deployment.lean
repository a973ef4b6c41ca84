import CompassAdapters.Rally.Reporting

/-! `HealthCheck.run`: the deployment is created first, then the tasks are started in the
workers of a pool. A worker's exceptions stay in the worker, and the workers' events are listed
one chunk after the other. -/
namespace CompassAdapters.Rally
open Effects

/-- What the deployment commands meet: the config file, the rows of `db.deployment_list`
before and after, the tasks of a deployment, and how the two rally commands end. -/
structure DeploymentEnv where
  configFile : Bool
  deployments : List String
  taskList : String → List String
  destroy : CliOutcome String
  create : CliOutcome String
  created : List String

namespace HealthCheck

def cleanupPreviousTasks (env : DeploymentEnv) (deploymentId : String) : Py Unit :=
  ⟨(env.taskList deploymentId).map .taskDelete, .ok ()⟩

/-- `None` and the empty id both fall back to the first listed deployment. -/
def deleteDeploymentAndTasks (self : HealthCheck) (env : DeploymentEnv)
    (deploymentUuid : Option String) : Py (Option Unit) :=
  errorHandlerDecorator <|
    let chosen := match deploymentUuid with
      | some uuid => if uuid = "" then env.deployments.head? else some uuid
      | none => env.deployments.head?
    match chosen with
    | none => pure ()
    | some uuid => do
      cleanupPreviousTasks env uuid
      let cli ← execCli (.deploymentDestroy self.deploymentName) env.destroy
      if cli.returnCode > 0 then
        Traced.raise (.healthException (.str cli.errMsg) self.url)
      else pure ()

def rallyDeploymentDir : String := "/opt/compass/rally/deployment"

/-- The block `if deployments:` of `create_deployment`. -/
def destroyPrevious (self : HealthCheck) (env : DeploymentEnv) : Py (Option Unit) :=
  match env.deployments with
  | [] => pure none
  | uuid :: _ => self.deleteDeploymentAndTasks env (some uuid)

def createDeployment (self : HealthCheck) (env : DeploymentEnv) : Py (Option String) :=
  errorHandlerDecorator <|
    if env.configFile = false then
      Traced.raise
        (.healthException (.str "Cannot find deployment config file for rally.") self.url)
    else do
      let _ ← self.destroyPrevious env
      let cli ← execCli (.deploymentCreate
        (rallyDeploymentDir ++ "/" ++ self.deploymentName ++ ".json") self.deploymentName) env.create
      if cli.returnCode > 0 then
        Traced.raise (.healthException (.str cli.errMsg) self.url)
      else
        match env.created with
        | [] => Traced.raise .indexError
        | uuid :: _ => pure uuid

def createReports (self : HealthCheck) (tasks : List String) : Py Unit :=
  Traced.emit (.post self.url (tasks.map fun task =>
    (getReportName (getTaskName task), basename (dirname task))))

/-- `cpuNum` is `none` where `cpu_count()` is not implemented. -/
def processNum (cpuNum : Option ℕ) : ℕ := max 2 (cpuNum.getD 2)

/-- The tasks that one worker takes at a time: `map_async` aims at four chunks a worker. -/
def chunksize (processNum taskNum : ℕ) : ℕ :=
  taskNum / (processNum * 4) + if taskNum % (processNum * 4) = 0 then 0 else 1

def chunks (size : ℕ) (tasks : List String) : List (List String) :=
  (List.range ((tasks.length + size - 1) / size)).map fun i => (tasks.drop (i * size)).take size

/-- A worker leaves its chunk at the first exception. -/
def runChunk (copy : Copy) (self : HealthCheck) (rally : String → RallyRun) :
    List String → Py Unit
  | [] => pure ()
  | task :: rest => do
    let _ ← startTask copy self (rally task) task
    runChunk copy self rally rest

/-- `pool.map_async(run_task, ...)` and the wait for the workers. -/
def runTasks (copy : Copy) (self : HealthCheck) (cpuNum : Option ℕ) (rally : String → RallyRun)
    (tasks : List String) : Py Unit :=
  let size := chunksize (processNum cpuNum) tasks.length
  ⟨(chunks size tasks).flatMap fun chunk => (self.runChunk copy rally chunk).events, .ok ()⟩

def run (copy : Copy) (self : HealthCheck) (env : DeploymentEnv) (cpuNum : Option ℕ)
    (rally : String → RallyRun) (tasks : List String) : Py Unit := do
  self.createReports tasks
  let _ ← self.createDeployment env
  self.runTasks copy cpuNum rally tasks
  Traced.emit .cleanPidfile

end HealthCheck

/-! ## Deployment errors and task starts in a trace -/

def Event.isTaskStart : Event → Bool
  | .execCli (.taskStart _) => true
  | _ => false

/-- An error report sent to the url of the whole health check. -/
def Event.isDeploymentError (url : String) : Event → Bool
  | .put url' payload => url' = url && payload.state = .error
  | _ => false

/-- After an error report for the deployment no task starts and no further one is sent. -/
def FailStop (url : String) (events : List Event) : Prop :=
  ∀ before e after, events = before ++ e :: after → e.isDeploymentError url →
    ∀ f ∈ after, f.isTaskStart = false ∧ f.isDeploymentError url = false

def Event.isQuiet (url : String) (e : Event) : Prop :=
  e.isTaskStart = false ∧ e.isDeploymentError url = false

section FailStop
variable {url : String}

theorem failStop_cons {e : Event} {es : List Event} : FailStop url (e :: es) ↔
    (e.isDeploymentError url → ∀ f ∈ es, f.isQuiet url) ∧ FailStop url es := by
  constructor
  · intro h
    refine ⟨fun he f hf => h [] e es rfl he f hf, fun before e' after heq he' f hf => ?_⟩
    exact h (e :: before) e' after (by rw [heq]; rfl) he' f hf
  · rintro ⟨hhead, htail⟩ before e' after heq he' f hf
    cases before with
    | nil =>
      obtain ⟨rfl, rfl⟩ := List.cons.inj heq
      exact hhead he' f hf
    | cons b bs =>
      obtain ⟨rfl, rfl⟩ := List.cons.inj heq
      exact htail bs e' after rfl he' f hf

/-- Before the first deployment error anything may happen. -/
theorem failStop_append {es fs : List Event} (h : ∀ e ∈ es, e.isDeploymentError url = false) :
    FailStop url (es ++ fs) ↔ FailStop url fs := by
  induction es with
  | nil => rfl
  | cons e es ih =>
    rw [List.forall_mem_cons] at h
    rw [List.cons_append, failStop_cons, ih h.2, h.1]
    simp

theorem failStop_neutral_cons {e : Event} {es : List Event}
    (h : e.isDeploymentError url = false) : FailStop url (e :: es) ↔ FailStop url es := by
  rw [failStop_cons, h]
  simp

theorem failStop_of_no_error {es : List Event}
    (h : ∀ e ∈ es, e.isDeploymentError url = false) : FailStop url es := by
  rintro before e after rfl he
  rw [h e (by simp)] at he
  cases he

theorem failStop_error_cons {e : Event} {es : List Event} (he : e.isDeploymentError url = true) :
    FailStop url (e :: es) ↔ ∀ f ∈ es, f.isQuiet url := by
  rw [failStop_cons]
  exact ⟨fun h => h.1 he, fun h => ⟨fun _ => h, failStop_of_no_error fun f hf => (h f hf).2⟩⟩

end FailStop

theorem HealthCheck.reportUrl_ne (self : HealthCheck) (reportName : String) :
    self.reportUrl reportName ≠ self.url := by
  intro h
  have hl := congrArg String.length h
  simp only [reportUrl, String.length_append] at hl
  have : "/".length = 1 := by decide
  omega

/-- Nothing is reported to this url, and nothing is left for a decorator to report. -/
structure Unreported {α : Type} (url : String) (x : Py α) : Prop where
  events : ∀ e ∈ x.events, e.isDeploymentError url = false
  result : ∀ exc url', x.result ≠ .error (.healthException exc url')

namespace Unreported
variable {α β : Type} {url : String} {x : Py α}

theorem pure (a : α) : Unreported url (Pure.pure a : Py α) := ⟨by simp, by simp⟩

theorem bind {f : α → Py β} (hx : Unreported url x)
    (hf : ∀ a, x.result = .ok a → Unreported url (f a)) : Unreported url (x >>= f) := by
  obtain ⟨events, result⟩ := x
  cases result with
  | error e =>
    refine ⟨hx.events, fun exc url' h => ?_⟩
    obtain rfl := Except.error.inj h
    exact hx.result exc url' rfl
  | ok a =>
    rw [Traced.ok_bind]
    exact ⟨List.forall_mem_append.mpr ⟨hx.events, (hf a rfl).events⟩, (hf a rfl).result⟩

theorem decorated (hx : Unreported url x) : Unreported url (errorHandlerDecorator x) := by
  obtain ⟨events, result⟩ := x
  cases result with
  | ok a => exact ⟨by simpa [errorHandlerDecorator] using hx.events, by simp [errorHandlerDecorator]⟩
  | error e =>
    cases e with
    | healthException exc url' => exact absurd rfl (hx.result exc url')
    | _ =>
      exact ⟨by simpa [errorHandlerDecorator] using hx.events, by simp [errorHandlerDecorator]⟩

/-- A command that fails raises before its caller can report it. -/
theorem execCli {command : Command} {proc : CliOutcome α} {f : CliOutcome α → Py β}
    (hf : proc.returnCode = 0 → Unreported url (f proc)) :
    Unreported url (execCli command proc >>= f) := by
  by_cases hrc : proc.returnCode = 0
  · rw [execCli_zero_bind command hrc]
    exact ⟨List.forall_mem_cons.mpr ⟨rfl, (hf hrc).events⟩, (hf hrc).result⟩
  · rw [execCli_nonzero_bind command hrc]
    exact ⟨by simp [Event.isDeploymentError], by simp⟩

end Unreported

section Chunks
variable {size : ℕ}

/-- The first task is the first one of the first chunk. -/
theorem exists_chunk_cons (task : String) (tasks : List String) (hs : 0 < size) :
    ∃ rest, task :: rest ∈ HealthCheck.chunks size (task :: tasks) := by
  obtain ⟨n, rfl⟩ : ∃ n, size = n + 1 := ⟨size - 1, by omega⟩
  refine ⟨tasks.take n, List.mem_map.mpr ⟨0, List.mem_range.mpr ?_, by simp⟩⟩
  exact Nat.div_pos (by simp only [List.length_cons]; omega) (by omega)

theorem chunksize_pos {processNum taskNum : ℕ} (hp : 0 < processNum) (ht : 0 < taskNum) :
    0 < HealthCheck.chunksize processNum taskNum := by
  unfold HealthCheck.chunksize
  split
  next h =>
    have hdvd := Nat.dvd_of_mod_eq_zero h
    have hpos := Nat.div_pos (Nat.le_of_dvd ht hdvd) (by omega)
    omega
  next => exact Nat.lt_of_lt_of_le Nat.one_pos (Nat.le_add_left _ _)

end Chunks

section Trace
variable (copy : Copy) (self : HealthCheck) (env : DeploymentEnv) (cpuNum : Option ℕ)
  (rally : String → RallyRun) (tasks : List String)

theorem startTask_puts_url {path url : String} {payload : Payload}
    (h : (url, payload) ∈ putsOf (startTask copy self (rally path) path).events) :
    url ≠ self.url := by
  by_cases hr : Reportable (rally path) (getReportName (getTaskName path))
  · obtain ⟨p, hp, _⟩ := (startTask_puts copy self (rally path) path).1 hr
    rw [hp, List.mem_singleton] at h
    rw [(Prod.mk.inj h).1]
    exact self.reportUrl_ne _
  · rw [(startTask_puts copy self (rally path) path).2 hr] at h
    cases h

/-- What a worker does is part of what the tasks of its chunk do on their own. -/
theorem runChunk_events {chunk : List String} {e : Event}
    (h : e ∈ (self.runChunk copy rally chunk).events) :
    ∃ path ∈ chunk, e ∈ (startTask copy self (rally path) path).events := by
  induction chunk with
  | nil => cases h
  | cons path rest ih =>
    unfold HealthCheck.runChunk at h
    generalize hx : startTask copy self (rally path) path = x at h
    obtain ⟨events, result⟩ := x
    have hhead (he : e ∈ events) :
        ∃ p ∈ path :: rest, e ∈ (startTask copy self (rally p) p).events :=
      ⟨path, List.mem_cons_self, by rw [hx]; exact he⟩
    cases result with
    | error err => exact hhead h
    | ok r =>
      rw [Traced.ok_bind] at h
      rcases List.mem_append.mp h with he | he
      · exact hhead he
      · obtain ⟨p, hp, he⟩ := ih he
        exact ⟨p, List.mem_cons_of_mem _ hp, he⟩

theorem runChunk_starts (path : String) (rest : List String) :
    .execCli (.taskStart path) ∈ (self.runChunk copy rally (path :: rest)).events := by
  have hmem := startTask_starts copy self (rally path) path
  unfold HealthCheck.runChunk
  generalize startTask copy self (rally path) path = x at hmem ⊢
  obtain ⟨events, result⟩ := x
  cases result with
  | ok r => exact List.mem_append_left _ hmem
  | error e => exact hmem

/-- The workers report to the urls of their tasks only. -/
theorem runTasks_no_error : ∀ e ∈ (self.runTasks copy cpuNum rally tasks).events,
    e.isDeploymentError self.url = false := by
  intro e he
  obtain ⟨chunk, _, he⟩ := List.mem_flatMap.mp he
  obtain ⟨path, _, he⟩ := runChunk_events copy self rally he
  cases e with
  | put url payload =>
    have hne := startTask_puts_url copy self rally
      (List.mem_filterMap.mpr ⟨.put url payload, he, rfl⟩)
    simp [Event.isDeploymentError, hne]
  | execCli => rfl
  | post => rfl
  | taskDelete => rfl
  | cleanPidfile => rfl

/-- Whatever becomes of the others, the first task is started. -/
theorem runTasks_starts (path : String) : .execCli (.taskStart path) ∈
    (self.runTasks copy cpuNum rally (path :: tasks)).events := by
  have hsize : 0 < HealthCheck.chunksize (HealthCheck.processNum cpuNum) (path :: tasks).length :=
    chunksize_pos (by simp [HealthCheck.processNum]) (by simp)
  obtain ⟨rest, hc⟩ := exists_chunk_cons path tasks hsize
  exact List.mem_flatMap.mpr ⟨_, hc, runChunk_starts copy self rally path rest⟩

theorem runTasks_quiet_iff :
    (∀ e ∈ (self.runTasks copy cpuNum rally tasks).events, e.isQuiet self.url) ↔ tasks = [] := by
  constructor
  · intro h
    cases tasks with
    | nil => rfl
    | cons path rest =>
      have hmem := runTasks_starts copy self cpuNum rally rest path
      exact absurd (h _ hmem).1 (by simp [Event.isTaskStart])
  · rintro rfl e he
    simp [HealthCheck.runTasks, HealthCheck.chunks, HealthCheck.chunksize] at he

def errorReport (errMsg : String) : Event := .put self.url ⟨none, .error, some errMsg⟩

theorem errorReport_isDeploymentError (errMsg : String) :
    (errorReport self errMsg).isDeploymentError self.url = true := by
  simp [errorReport, Event.isDeploymentError]

theorem createDeployment_noConfig (h : env.configFile = false) : self.createDeployment env =
    ⟨[.cleanPidfile, errorReport self "Cannot find deployment config file for rally."],
      .ok none⟩ := by
  simp [HealthCheck.createDeployment, h, errorHandlerDecorator, errorHandler, errorReport,
    PyText.asStr, Functor.map, Traced.bind, Traced.raise]

theorem deleteDeploymentAndTasks_unreported (deploymentUuid : Option String) :
    Unreported self.url (self.deleteDeploymentAndTasks env deploymentUuid) := by
  refine Unreported.decorated ?_
  generalize (match deploymentUuid with
    | some uuid => if uuid = "" then env.deployments.head? else some uuid
    | none => env.deployments.head?) = chosen
  cases chosen with
  | none => exact Unreported.pure ()
  | some uuid =>
    have hclean : Unreported self.url (HealthCheck.cleanupPreviousTasks env uuid) :=
      ⟨by simp [HealthCheck.cleanupPreviousTasks, Event.isDeploymentError],
        by simp [HealthCheck.cleanupPreviousTasks]⟩
    refine hclean.bind fun _ _ => Unreported.execCli fun hrc => ?_
    rw [if_neg (by omega)]
    exact Unreported.pure ()

theorem destroyPrevious_unreported : Unreported self.url (self.destroyPrevious env) := by
  unfold HealthCheck.destroyPrevious
  cases env.deployments with
  | nil => exact Unreported.pure none
  | cons uuid rest => exact deleteDeploymentAndTasks_unreported self env (some uuid)

/-- With its config file a deployment is made, or the run ends without a report. -/
theorem createDeployment_unreported (h : env.configFile = true) :
    Unreported self.url (self.createDeployment env) := by
  unfold HealthCheck.createDeployment
  rw [if_neg (by simp [h])]
  refine ((destroyPrevious_unreported self env).bind fun _ _ =>
    Unreported.execCli fun hrc => ?_).decorated
  rw [if_neg (by omega)]
  cases env.created with
  | nil => exact ⟨by simp, by simp⟩
  | cons uuid rest => exact Unreported.pure uuid

theorem createReports_no_error : ∀ e ∈ (self.createReports tasks).events,
    e.isDeploymentError self.url = false := by
  intro e he
  obtain rfl := List.mem_singleton.mp he
  rfl

theorem run_events : (self.run copy env cpuNum rally tasks).events =
    (self.createReports tasks).events ++ ((self.createDeployment env).events ++
      match (self.createDeployment env).result with
      | .ok _ => (self.runTasks copy cpuNum rally tasks).events ++ [.cleanPidfile]
      | .error _ => []) := by
  unfold HealthCheck.run
  generalize self.createDeployment env = x
  obtain ⟨events, result⟩ := x
  cases result with
  | ok a => simp [HealthCheck.createReports, HealthCheck.runTasks]
  | error e => simp [HealthCheck.createReports]

theorem tasks_no_error : ∀ e ∈ (self.runTasks copy cpuNum rally tasks).events ++ [.cleanPidfile],
    e.isDeploymentError self.url = false :=
  List.forall_mem_append.mpr ⟨runTasks_no_error copy self cpuNum rally tasks,
    by simp [Event.isDeploymentError]⟩

/-- Without the config file the tasks come after the report of its absence. -/
theorem run_noConfig_failStop_iff (h : env.configFile = false) :
    FailStop self.url (self.run copy env cpuNum rally tasks).events ↔ tasks = [] := by
  rw [run_events, failStop_append (createReports_no_error self tasks),
    createDeployment_noConfig self env h]
  have hclean : Event.cleanPidfile.isDeploymentError self.url = false := rfl
  simp only [List.cons_append, List.nil_append]
  rw [failStop_neutral_cons hclean, failStop_error_cons (errorReport_isDeploymentError self _),
    List.forall_mem_append, runTasks_quiet_iff]
  simp [Event.isQuiet, Event.isTaskStart, Event.isDeploymentError]

theorem run_config_no_error (h : env.configFile = true) :
    ∀ e ∈ (self.run copy env cpuNum rally tasks).events, e.isDeploymentError self.url = false := by
  rw [run_events]
  refine List.forall_mem_append.mpr ⟨createReports_no_error self tasks,
    List.forall_mem_append.mpr ⟨(createDeployment_unreported self env h).events, ?_⟩⟩
  split
  next => exact tasks_no_error copy self cpuNum rally tasks
  next => simp

end Trace

/-- Only the missing config file is ever reported, and then the run goes on with its tasks: a
failed command ends it without a report. -/
theorem run_failStop_iff (copy : Copy) (self : HealthCheck) (env : DeploymentEnv)
    (cpuNum : Option ℕ) (rally : String → RallyRun) (tasks : List String) :
    FailStop self.url (self.run copy env cpuNum rally tasks).events ↔
      (env.configFile = false → tasks = []) := by
  cases h : env.configFile with
  | false => simp [run_noConfig_failStop_iff copy self env cpuNum rally tasks h]
  | true =>
    exact iff_of_true (failStop_of_no_error (run_config_no_error copy self env cpuNum rally tasks h))
      (by simp)

def noConfigEnv : DeploymentEnv := ⟨false, [], fun _ => [], ⟨0, "", ""⟩, ⟨0, "", ""⟩, []⟩

/-- Without a config file the error is reported, and the task is started all the same. -/
theorem noConfigEnv_goes_on : ¬ ∀ (copy : Copy) (self : HealthCheck) (env : DeploymentEnv)
    (cpuNum : Option ℕ) (rally : String → RallyRun) (tasks : List String),
    FailStop self.url (self.run copy env cpuNum rally tasks).events := by
  intro h
  have hr := h .docker ⟨"http://compass", "demo"⟩ noConfigEnv (some 4) (fun _ => twoFailuresRun)
    ["nova/boot.json"]
  rw [run_noConfig_failStop_iff _ _ _ _ _ _ rfl] at hr
  cases hr

end CompassAdapters.Rally
