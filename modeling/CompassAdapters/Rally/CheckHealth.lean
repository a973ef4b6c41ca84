import CompassAdapters.Effects.Traced
import Mathlib.Data.Rat.Defs
import Mathlib.Algebra.Order.Ring.Unbundled.Rat

/-! The health check `check_health.py`: tasks are run with rally and every result is
reported back to Compass with a PUT. Durations are exact rationals. -/
namespace CompassAdapters.Rally
open Effects

/-- The two deployed copies of the script; they differ in `send_report` only. -/
inductive Copy where
  | docker
  | chef
  deriving DecidableEq, Repr

/-- The two kinds of text of Python 2. -/
inductive PyText where
  | str (s : String)
  | unicode (s : String)
  deriving DecidableEq, Repr

inductive PyError where
  | healthException (errMsg : PyText) (url : String)
  | zeroDivisionError
  | keyError (key : String)
  | indexError
  | taskNotFound (uuid : String)
  | osError
  | unicodeEncodeError
  deriving DecidableEq, Repr

/-- One entry of `output['result']`. A failed atomic action has the duration `null`. -/
structure IterationResult where
  error : List String
  duration : ℚ
  atomicActions : List (String × Option ℚ)
  deriving DecidableEq

/-- One entry of the printed task results; `times` is `output['key']['kw']['runner']['times']`,
missing where the runner has none. -/
structure Output where
  times : Option ℤ
  result : List IterationResult
  deriving DecidableEq

structure Errors where
  count : ℤ
  details : List (List String)
  deriving DecidableEq

structure Summary where
  min : ℚ
  avg : ℚ
  max : ℚ
  success : ℚ
  errors : Errors
  total : ℤ
  deriving DecidableEq

structure DurationReport where
  summary : Summary
  data : List ℚ
  deriving DecidableEq

structure Report where
  actions : List (String × DurationReport)
  totalErrors : ℤ
  deriving DecidableEq

structure FinalReport where
  results : Report
  rawOutput : Output
  deriving DecidableEq

inductive State where
  | success
  | error
  | finished
  deriving DecidableEq, Repr

/-- `report` is `none` for the empty report of an error payload. -/
structure Payload where
  report : Option FinalReport
  state : State
  errorMessage : Option String
  deriving DecidableEq

inductive Command where
  | taskStart (taskJsonPath : String)
  | taskResults (taskUuid : String)
  | deploymentCreate (filename name : String)
  | deploymentDestroy (name : String)
  deriving DecidableEq, Repr

inductive Event where
  | execCli (command : Command)
  | post (url : String) (reportList : List (String × String))
  | put (url : String) (payload : Payload)
  | taskDelete (taskId : String)
  | cleanPidfile
  deriving DecidableEq

abbrev Py := Traced PyError Event

/-! ## Names -/

def basename (path : String) : String :=
  String.ofList (path.toList.reverse.takeWhile (· ≠ '/')).reverse

def dirname (path : String) : String :=
  String.ofList ((path.toList.reverse.dropWhile (· ≠ '/')).dropWhile (· = '/')).reverse

def getTaskName (taskJsonPath : String) : String :=
  String.ofList ((basename taskJsonPath).toList.takeWhile (· ≠ '.'))

def getReportName (taskName : String) : String :=
  String.ofList (taskName.toList.map fun c => if c = '_' then '-' else c)

structure HealthCheck where
  url : String
  deploymentName : String
  deriving DecidableEq, Repr

/-- `'/'.join((self.url, report_name))`. -/
def HealthCheck.reportUrl (self : HealthCheck) (reportName : String) : String :=
  self.url ++ "/" ++ reportName

/-! ## Errors -/

def errorHandler (errMsg url : String) : Py Unit := do
  Traced.emit .cleanPidfile
  Traced.emit (.put url ⟨none, .error, some errMsg⟩)

def isAscii (s : String) : Bool := s.toList.all (·.val < 128)

/-- `str(exc)` of an exception with this message: a unicode text is encoded in ASCII. -/
def PyText.asStr : PyText → Except PyError String
  | .str s => .ok s
  | .unicode s => if isAscii s then .ok s else .error .unicodeEncodeError

/-- A `HealthException` is reported and swallowed, every other exception goes on, and so does
one that the report of a `HealthException` raises. -/
def errorHandlerDecorator {α : Type} (func : Py α) : Py (Option α) :=
  Traced.handle (some <$> func) fun
    | .healthException exc url => do
      let errMsg ← Traced.lift exc.asStr
      errorHandler errMsg url
      pure none
    | e => Traced.raise e

/-! ## Commands -/

/-- How a command ends: its exit status and what it prints, `output` as its caller reads it. -/
structure CliOutcome (α : Type) where
  returnCode : ℤ
  output : α
  errMsg : String
  deriving DecidableEq, Repr

/-- `communicate` has waited for the process, so after a failure `proc.terminate()` signals a
process that is gone and raises: no second round of the loop is ever entered. -/
def execCli {α : Type} (command : Command) (proc : CliOutcome α) : Py (CliOutcome α) := do
  Traced.emit (.execCli command)
  if proc.returnCode = 0 then pure proc
  else Traced.raise .osError

/-! ## The report of one task -/

def isSpace (c : Char) : Bool :=
  c = ' ' || c = '\t' || c = '\n' || c = '\r' || c = '\x0b' || c = '\x0c'

def isIdChar (c : Char) : Bool := c.isDigit || ('a' ≤ c && c ≤ 'f') || c = '-'

/-- `rally task results\s+([\da-f\-]+)` at the head of the text. -/
def matchTaskId (text : List Char) : Option (List Char) :=
  if "rally task results".toList.isPrefixOf text then
    let rest := text.drop "rally task results".length
    let taskId := (rest.dropWhile isSpace).takeWhile isIdChar
    if rest.takeWhile isSpace ≠ [] ∧ taskId ≠ [] then some taskId else none
  else none

def searchTaskId : List Char → Option (List Char)
  | [] => none
  | c :: text => (matchTaskId (c :: text)).or (searchTaskId text)

/-- `x / n`. -/
def pyDiv (x : ℚ) (n : ℤ) : Except PyError ℚ :=
  if n = 0 then .error .zeroDivisionError else .ok (x / n)

/-- `sys.maxint` of a 64-bit Python 2. -/
def maxint : ℚ := 9223372036854775807

structure DurationState where
  errors : Errors := ⟨0, []⟩
  data : List ℚ := []
  minDur : ℚ := maxint
  maxDur : ℚ := 0
  totalDur : ℚ := 0
  noAction : ℤ := 0

/-- `atomic_actions and action not in atomic_actions`. -/
def IterationResult.lacks (result : IterationResult) (action : String) : Bool :=
  !result.atomicActions.isEmpty && (result.atomicActions.lookup action).isNone

/-- The second branch of the loop: `None` and `0` are false. -/
def IterationResult.failed (result : IterationResult) (action : String) : Bool :=
  if result.atomicActions.isEmpty then !result.error.isEmpty
  else match result.atomicActions.lookup action with
    | some (some duration) => duration = 0
    | some none => true
    | none => false

def IterationResult.durationOf (result : IterationResult) (action : String) : ℚ :=
  match result.atomicActions.lookup action with
  | some (some duration) => duration
  | _ => result.duration

def durationStep (action : String) (st : DurationState) (result : IterationResult) :
    DurationState :=
  if result.lacks action then
    { st with noAction := st.noAction + 1, data := st.data ++ [0] }
  else if result.failed action then
    { st with
      errors := ⟨st.errors.count + 1, st.errors.details ++ [result.error]⟩
      data := st.data ++ [0] }
  else
    let duration := result.durationOf action
    { st with
      totalDur := st.totalDur + duration
      minDur := if duration < st.minDur then duration else st.minDur
      maxDur := if st.maxDur < duration then duration else st.maxDur
      data := st.data ++ [duration] }

def Output.totalExec (output : Output) : Except PyError ℤ :=
  match output.times with
  | some times => .ok times
  | none => .error (.keyError "times")

def getActionDurReport (action : String) (output : Output) : Except PyError DurationReport :=
  let st := output.result.foldl (durationStep action) {}
  let errorCount := st.errors.count
  output.totalExec.bind fun totalExec =>
  if output.result.isEmpty then
    .ok ⟨⟨0, 0, 0, 0, ⟨totalExec, [["Unknown error!"]]⟩, 0⟩, st.data⟩
  else
    (if totalExec = errorCount then .ok (0, 0)
      else (pyDiv st.totalDur (totalExec - errorCount - st.noAction)).map
        fun avg => (st.minDur, avg)).bind fun minAvg =>
    (pyDiv ((totalExec - errorCount - st.noAction) * 100) output.result.length).bind
      fun success =>
    .ok ⟨⟨minAvg.1, minAvg.2, st.maxDur, success, st.errors, totalExec⟩, st.data⟩

def getTotalErrors (output : Output) : ℤ :=
  if output.result.isEmpty then 1
  else output.result.foldl (fun total result => if result.error.isEmpty then total else total + 1) 0

/-- The names of the actions come from the first result without an error, or else from the
first result. -/
def actionNames (output : Output) : List String :=
  match output.result.find? (·.error.isEmpty) with
  | some result => result.atomicActions.map Prod.fst
  | none =>
    match output.result with
    | [] => []
    | result :: _ => result.atomicActions.map Prod.fst

def reportedActions (output : Output) (reportName : String) : List String :=
  if (actionNames output).isEmpty then [reportName] else actionNames output

def reportState (copy : Copy) (totalErrors execNum : ℤ) : State :=
  match copy with
  | .docker =>
    if totalErrors ≥ execNum ∨ totalErrors = 0 ∧ execNum > 0 then .error
    else if totalErrors ≠ 0 then .finished
    else .success
  | .chef =>
    if totalErrors ≥ execNum then .error
    else if totalErrors ≠ 0 then .finished
    else .success

def sendReport (copy : Copy) (self : HealthCheck) (report : FinalReport)
    (reportUrl : Option String) : Py Unit := do
  let execNum ← Traced.lift report.rawOutput.totalExec
  let state := reportState copy report.results.totalErrors execNum
  let errorMessage :=
    if state = .error then some "Actions in this scenario are failed." else none
  Traced.emit (.put (reportUrl.getD self.url) ⟨some report, state, errorMessage⟩)

/-- A row of the task table of rally. -/
structure TaskObj where
  status : String
  verificationLog : String
  deriving DecidableEq, Repr

/-- The outcome of the rally run of one task: the command `rally task start`, the row of
`db.task_get`, which is `none` where the call raises, and `rally task results` with its JSON
parsed. -/
structure RallyRun where
  start : CliOutcome String
  taskGet : String → Option TaskObj
  taskResults : String → CliOutcome (List Output)

def RallyRun.dbTaskGet (rally : RallyRun) (uuid : String) : Except PyError TaskObj :=
  match rally.taskGet uuid with
  | some task => .ok task
  | none => .error (.taskNotFound uuid)

/-- `json.loads(task_result)[0]`. -/
def firstOutput (taskResult : List Output) : Except PyError Output :=
  match taskResult with
  | [] => .error .indexError
  | output :: _ => .ok output

def makeReport (output : Output) (reportName : String) : Except PyError FinalReport :=
  ((reportedActions output reportName).mapM fun action =>
    (getActionDurReport action output).map fun report => (action, report)).map
    fun actions => ⟨⟨actions, getTotalErrors output⟩, output⟩

def collectAndSendReport (copy : Copy) (self : HealthCheck) (rally : RallyRun)
    (taskName taskOutput : String) : Py Unit :=
  let reportName := getReportName taskName
  let reportUrl := self.reportUrl reportName
  match searchTaskId taskOutput.toList with
  | none => Traced.raise (.healthException (.str "Unknown rally internel error!") reportUrl)
  | some taskId => do
    let taskUuid := String.ofList taskId
    let taskObj ← Traced.lift (rally.dbTaskGet taskUuid)
    if taskObj.status = "failed" then
      Traced.raise (.healthException (.unicode taskObj.verificationLog) reportUrl)
    else
      let cli ← execCli (.taskResults taskUuid) (rally.taskResults taskUuid)
      if cli.returnCode > 0 then
        Traced.raise (.healthException (.str cli.errMsg) reportUrl)
      else
        let output ← Traced.lift (firstOutput cli.output)
        let report ← Traced.lift (makeReport output reportName)
        sendReport copy self report (some reportUrl)

def startTask (copy : Copy) (self : HealthCheck) (rally : RallyRun) (taskJsonPath : String) :
    Py (Option Unit) :=
  errorHandlerDecorator do
    let cli ← execCli (.taskStart taskJsonPath) rally.start
    collectAndSendReport copy self rally (getTaskName taskJsonPath) cli.output

end CompassAdapters.Rally
