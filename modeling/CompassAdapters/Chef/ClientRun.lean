import CompassAdapters.Transition.Runs
import Mathlib.Data.List.Count
import Mathlib.Data.List.Infix
import Mathlib.Logic.Function.Basic

/-! `/etc/chef/chef_client_run.sh`, which a host runs after its installation and every thirty
minutes. It runs `chef-client` for the nodes of the host until it has succeeded for all of them,
and reports each success to the compass server. Any number of instances run side by side. -/
namespace CompassAdapters.Chef.ClientRun
open Transition

abbrev Pid := ℕ

abbrev Name := List Char

/-- A pattern of letters, digits, dashes and points at the head of a text; a point is any character. -/
def beginsLike : Name → Name → Bool
  | [], _ => true
  | _ :: _, [] => false
  | c :: pattern, d :: text => (c == '.' || c == d) && beginsLike pattern text

/-- `grep $HOSTNAME.`, for a host name of such characters. -/
def grepHost (hostname line : Name) : Bool := line.tails.any (beginsLike (hostname ++ ['.']))

/-- What `for node in $nodes` has yet to do, and `all_nodes_success`. -/
structure Pass where
  nodes : List Name
  all_nodes_success : Bool

/-- `looking` has read the pid in the file, `checked` has found no process of it, and `opened` has
emptied the file to write its own pid there. `chosen` knows whether the node is marked. -/
inductive Phase
  | idle
  | looking (pid : Option Pid)
  | checked
  | opened
  | started
  | searching
  | pass (p : Pass)
  | prepared (node : Name) (p : Pass)
  | chosen (node : Name) (logged : Bool) (p : Pass)
  | running (node : Name) (p : Pass)
  | succeeded (node : Name) (p : Pass)
  | marked (node : Name) (p : Pass)
  | sleeping

/-- What an instance has done. `logged` is a run of `chef-client` that writes the log which is
forwarded to the compass server, `tested` the look at `$node.done` that decides it, and `marked` the
`touch` of that file. -/
inductive Event
  | listed (pid : Pid) (nodes : List Name)
  | tested (pid : Pid) (node : Name) (logged : Bool)
  | client (pid : Pid) (node : Name) (logged : Bool)
  | failed (pid : Pid) (node : Name)
  | succeeded (pid : Pid) (node : Name)
  | marked (pid : Pid) (node : Name)
  | reported (pid : Pid) (node : Name)
  | retries (pid : Pid)
  | converged (pid : Pid)
  deriving DecidableEq

/-- The files of the script, under `/etc/chef` and `/etc/rsyslog.d`, and its instances. `pidfile` is
`none` when there is none, or an empty one. -/
structure Host where
  pidfile : Option Pid
  json : Name → Bool
  pem : Name → Bool
  forwarder : Name → Bool
  done : Name → Bool
  phase : Pid → Phase
  log : List Event

namespace Host

variable (s : Host)

def goto (pid : Pid) (phase : Phase) : Host :=
  { s with phase := Function.update s.phase pid phase }

@[simp] theorem goto_self (pid : Pid) (phase : Phase) : (s.goto pid phase).phase pid = phase :=
  Function.update_self ..

@[simp] theorem goto_of_ne {pid q : Pid} (phase : Phase) (h : q ≠ pid) :
    (s.goto pid phase).phase q = s.phase q := Function.update_of_ne h ..

def emit (e : Event) : Host := { s with log := s.log ++ [e] }

/-- `[ -f /proc/$pid/exe ]` for an instance. -/
def alive (pid : Pid) : Bool :=
  match s.phase pid with
  | .idle => false
  | _ => true

/-- An instance that has got past its look at the pid file and has not ended. -/
def working (pid : Pid) : Bool :=
  match s.phase pid with
  | .idle | .looking _ => false
  | _ => true

end Host

/-- `foreign` is that the pid from the file is the one of another program, `found` that `chef-client`
runs already, and `registered` that a run has left the key of the node. `kill` may come at any time,
also at a shutdown. -/
inductive Action
  | start (pid : Pid)
  | look (pid : Pid) (foreign : Bool)
  | empty (pid : Pid)
  | write (pid : Pid)
  | pgrep (pid : Pid) (found : Bool)
  | list (pid : Pid) (names : List Name)
  | next (pid : Pid)
  | test (pid : Pid)
  | launch (pid : Pid)
  | finish (pid : Pid) (registered ok : Bool)
  | touch (pid : Pid)
  | post (pid : Pid) (delivered : Bool)
  | wake (pid : Pid)
  | kill (pid : Pid)

variable (hostname : Name)

/-- The files that are there before `chef-client` runs for a node. -/
def prepare (s : Host) (node : Name) : Host :=
  { s with
    json := Function.update s.json node true
    forwarder := if s.pem node then s.forwarder else Function.update s.forwarder node true }

def step (s : Host) : Action → Option Host
  | .start pid =>
    match s.phase pid with
    | .idle => some (s.goto pid (.looking s.pidfile))
    | _ => none
  | .look pid foreign =>
    match s.phase pid with
    | .looking found =>
      some (s.goto pid (if found.any fun q => foreign || s.alive q then .idle else .checked))
    | _ => none
  | .empty pid =>
    match s.phase pid with
    | .checked => some { s.goto pid .opened with pidfile := none }
    | _ => none
  | .write pid =>
    match s.phase pid with
    | .opened => some { s.goto pid .started with pidfile := some pid }
    | _ => none
  | .pgrep pid found =>
    match s.phase pid with
    | .started => some (s.goto pid (if found then .idle else .searching))
    | _ => none
  | .list pid names =>
    match s.phase pid with
    | .searching =>
      let nodes := names.filter fun name => grepHost hostname name
      some ((s.emit (.listed pid nodes)).goto pid (.pass ⟨nodes, true⟩))
    | _ => none
  | .next pid =>
    match s.phase pid with
    | .pass ⟨node :: nodes, all_nodes_success⟩ =>
      some ((prepare s node).goto pid (.prepared node ⟨nodes, all_nodes_success⟩))
    | .pass ⟨[], false⟩ => some ((s.emit (.retries pid)).goto pid .sleeping)
    | .pass ⟨[], true⟩ => some ((s.emit (.converged pid)).goto pid .idle)
    | _ => none
  | .test pid =>
    match s.phase pid with
    | .prepared node p =>
      some ((s.emit (.tested pid node !(s.done node))).goto pid (.chosen node (!(s.done node)) p))
    | _ => none
  | .launch pid =>
    match s.phase pid with
    | .chosen node logged p =>
      some ((s.emit (.client pid node logged)).goto pid (.running node p))
    | _ => none
  | .finish pid registered ok =>
    match s.phase pid with
    | .running node p =>
      let s := if registered then { s with pem := Function.update s.pem node true } else s
      if ok then some ((s.emit (.succeeded pid node)).goto pid (.succeeded node p))
      else some ((s.emit (.failed pid node)).goto pid (.pass ⟨p.nodes, false⟩))
    | _ => none
  | .touch pid =>
    match s.phase pid with
    | .succeeded node p =>
      some (({ s with done := Function.update s.done node true }.emit (.marked pid node)).goto pid
        (.marked node p))
    | _ => none
  | .post pid delivered =>
    match s.phase pid with
    | .marked node p =>
      some ((if delivered then s.emit (.reported pid node) else s).goto pid (.pass p))
    | _ => none
  | .wake pid =>
    match s.phase pid with
    | .sleeping => some (s.goto pid .started)
    | _ => none
  | .kill pid =>
    match s.phase pid with
    | .idle => none
    | _ => some (s.goto pid .idle)

/-- A host that has just been installed, with a pid file perhaps. -/
def initial (stale : Option Pid) : Host where
  pidfile := stale
  json _ := false
  pem _ := false
  forwarder _ := false
  done _ := false
  phase _ := .idle
  log := []

section Steps

/-- What one instance does: the phase it goes to, and the events. -/
inductive Advances (s : Host) (pid : Pid) : Phase → List Event → Prop
  | read (h : s.phase pid = .idle) : Advances s pid (.looking s.pidfile) []
  | check (found : Option Pid) (h : s.phase pid = .looking found) : Advances s pid .checked []
  | empty (h : s.phase pid = .checked) : Advances s pid .opened []
  | write (h : s.phase pid = .opened) : Advances s pid .started []
  | stop : Advances s pid .idle []
  | search (h : s.phase pid = .started) : Advances s pid .searching []
  | list (nodes : List Name) (hnodes : ∀ node ∈ nodes, grepHost hostname node = true)
      (h : s.phase pid = .searching) : Advances s pid (.pass ⟨nodes, true⟩) [.listed pid nodes]
  | prepare (node : Name) (p : Pass)
      (h : s.phase pid = .pass ⟨node :: p.nodes, p.all_nodes_success⟩) :
      Advances s pid (.prepared node p) []
  | retry (h : s.phase pid = .pass ⟨[], false⟩) : Advances s pid .sleeping [.retries pid]
  | converge (h : s.phase pid = .pass ⟨[], true⟩) : Advances s pid .idle [.converged pid]
  | test (node : Name) (p : Pass) (h : s.phase pid = .prepared node p) :
      Advances s pid (.chosen node (!(s.done node)) p) [.tested pid node !(s.done node)]
  | launch (node : Name) (logged : Bool) (p : Pass) (h : s.phase pid = .chosen node logged p) :
      Advances s pid (.running node p) [.client pid node logged]
  | fail (node : Name) (p : Pass) (h : s.phase pid = .running node p) :
      Advances s pid (.pass ⟨p.nodes, false⟩) [.failed pid node]
  | succeed (node : Name) (p : Pass) (h : s.phase pid = .running node p) :
      Advances s pid (.succeeded node p) [.succeeded pid node]
  | touch (node : Name) (p : Pass) (h : s.phase pid = .succeeded node p) :
      Advances s pid (.marked node p) [.marked pid node]
  | post (node : Name) (p : Pass) (h : s.phase pid = .marked node p) :
      Advances s pid (.pass p) [.reported pid node]
  | drop (node : Name) (p : Pass) (h : s.phase pid = .marked node p) : Advances s pid (.pass p) []
  | wake (h : s.phase pid = .sleeping) : Advances s pid .started []

/-- What becomes of the files when an instance goes to a phase with these events. -/
structure Files (s : Host) (a : Action) (t : Host) (pid : Pid) (phase : Phase)
    (es : List Event) : Prop where
  checked : phase = .checked → ∃ foreign found, a = .look pid foreign ∧
    s.phase pid = .looking found ∧ (found.any fun q => foreign || s.alive q) = false
  pidfile : t.pidfile = s.pidfile ∨ phase = .opened ∨ s.phase pid = .opened
  written : phase = .started → s.phase pid = .opened → t.pidfile = some pid
  json : ∀ node, s.json node = true → t.json node = true
  forwarder : ∀ node, s.forwarder node = true → t.forwarder node = true
  pem : ∀ node, t.pem node = true → s.pem node = true ∨ ∃ p, s.phase pid = .running node p
  done : ∀ node, t.done node = true ↔ s.done node = true ∨ ∃ q, Event.marked q node ∈ es
  prepared : ∀ node p, phase = .prepared node p →
    t.json node = true ∧ (s.pem node = true ∨ t.forwarder node = true)

variable {hostname} {s t : Host} {a : Action} {pid : Pid} {phase : Phase} {es : List Event}

theorem Files.same (hpidfile : t.pidfile = s.pidfile) (hjson : t.json = s.json)
    (hforwarder : t.forwarder = s.forwarder) (hpem : t.pem = s.pem) (hdone : t.done = s.done)
    (hes : ∀ q node, Event.marked q node ∉ es) (hprepared : ∀ node p, phase ≠ .prepared node p)
    (hwritten : phase = .started → s.phase pid ≠ .opened)
    (hchecked : phase = .checked → ∃ foreign found, a = .look pid foreign ∧
      s.phase pid = .looking found ∧ (found.any fun q => foreign || s.alive q) = false) :
    Files s a t pid phase es where
  checked := hchecked
  pidfile := .inl hpidfile
  written hstarted hopened := absurd hopened (hwritten hstarted)
  json node h := hjson ▸ h
  forwarder node h := hforwarder ▸ h
  pem node h := .inl (hpem ▸ h)
  done node := by simp [hdone, hes]
  prepared node p h := absurd h (hprepared node p)

/-- An instance goes to a phase, with what becomes of the files and the log. -/
def Moves (hostname : Name) (s : Host) (a : Action) (t : Host) : Prop :=
  ∃ pid phase es, Advances hostname s pid phase es ∧ Files s a t pid phase es ∧
    t.phase = Function.update s.phase pid phase ∧ t.log = s.log ++ es

theorem Advances.goto (h : Advances hostname s pid phase [])
    (hprepared : ∀ node p, phase ≠ .prepared node p) (hchecked : phase ≠ .checked)
    (hwritten : phase = .started → s.phase pid ≠ .opened) :
    Moves hostname s a (s.goto pid phase) := by
  have hfiles : Files s a (s.goto pid phase) pid phase [] :=
    .same rfl rfl rfl rfl rfl (by simp) hprepared hwritten fun heq => absurd heq hchecked
  exact ⟨pid, phase, [], h, hfiles, rfl, (List.append_nil s.log).symm⟩

theorem Advances.emit {e : Event} (h : Advances hostname s pid phase [e])
    (hmarked : ∀ q node, e ≠ .marked q node) (hprepared : ∀ node p, phase ≠ .prepared node p)
    (hchecked : phase ≠ .checked) (hstarted : phase ≠ .started) :
    Moves hostname s a ((s.emit e).goto pid phase) := by
  have hnot (q : Pid) (node : Name) : Event.marked q node ∉ [e] := fun hmem =>
    hmarked q node (List.mem_singleton.mp hmem).symm
  have hfiles : Files s a ((s.emit e).goto pid phase) pid phase [e] :=
    .same rfl rfl rfl rfl rfl hnot hprepared (fun heq => absurd heq hstarted)
      fun heq => absurd heq hchecked
  exact ⟨pid, phase, [e], h, hfiles, rfl, rfl⟩

theorem prepare_moves {node : Name} {p : Pass}
    (hphase : s.phase pid = .pass ⟨node :: p.nodes, p.all_nodes_success⟩) :
    Moves hostname s a ((prepare s node).goto pid (.prepared node p)) := by
  refine ⟨pid, _, [], .prepare node p hphase, ?_, rfl, (List.append_nil s.log).symm⟩
  refine ⟨by simp, .inl rfl, by simp, ?_, ?_, fun _ h => .inl h,
    by simp [Host.goto, ClientRun.prepare], ?_⟩
  · intro m hm
    simp [Host.goto, ClientRun.prepare, Function.update_apply, hm]
  · intro m hm
    simp only [Host.goto, ClientRun.prepare]
    split
    next => exact hm
    next => simp [Function.update_apply, hm]
  · intro m p hm
    obtain ⟨rfl, -⟩ := Phase.prepared.inj hm
    refine ⟨by simp [Host.goto, ClientRun.prepare], ?_⟩
    cases hpem : s.pem node <;> simp [Host.goto, ClientRun.prepare, hpem]

/-- A run of `chef-client` may leave the key of its node, and no other file. -/
theorem Advances.finish {e : Event} {node : Name} {p : Pass} (registered : Bool)
    (hphase : s.phase pid = .running node p) (h : Advances hostname s pid phase [e])
    (hmarked : ∀ q node, e ≠ .marked q node) (hprepared : ∀ node p, phase ≠ .prepared node p)
    (hchecked : phase ≠ .checked) (hstarted : phase ≠ .started) :
    Moves hostname s a (((if registered then { s with pem := Function.update s.pem node true }
      else s).emit e).goto pid phase) := by
  cases registered with
  | false => exact h.emit hmarked hprepared hchecked hstarted
  | true =>
    refine ⟨pid, phase, [e], h, ⟨fun heq => absurd heq hchecked, .inl rfl,
      fun heq => absurd heq hstarted, fun _ hm => hm, fun _ hm => hm, fun m hm => ?_, ?_,
      fun m p heq => absurd heq (hprepared m p)⟩, rfl, rfl⟩
    · by_cases hmn : m = node
      · rw [hmn]
        exact .inr ⟨p, hphase⟩
      · have hpem : Function.update s.pem node true m = true := hm
        rw [Function.update_of_ne hmn] at hpem
        exact .inl hpem
    · intro m
      have hnot : ¬ ∃ q, Event.marked q m ∈ [e] := by
        rintro ⟨q, hmem⟩
        exact hmarked q m (List.mem_singleton.mp hmem).symm
      exact (or_iff_left hnot).symm

section Cases
variable {names : List Name} {foreign found registered ok delivered : Bool}

theorem start_moves (h : step hostname s (.start pid) = some t) :
    Moves hostname s (.start pid) t := by
  simp only [step] at h
  split at h
  next hphase =>
    obtain rfl := Option.some.inj h
    exact (Advances.read hphase).goto (by simp) (by simp) (by simp)
  next => cases h

theorem look_moves (h : step hostname s (.look pid foreign) = some t) :
    Moves hostname s (.look pid foreign) t := by
  simp only [step] at h
  split at h
  next found hphase =>
    obtain rfl := Option.some.inj h
    split
    next => exact Advances.stop.goto (by simp) (by simp) (by simp)
    next hfree =>
      refine ⟨pid, _, [], .check found hphase, ?_, rfl, (List.append_nil s.log).symm⟩
      exact .same rfl rfl rfl rfl rfl (by simp) (by simp) (by simp)
        fun _ => ⟨foreign, found, rfl, hphase, Bool.not_eq_true _ ▸ hfree⟩
  next => cases h

theorem empty_moves (h : step hostname s (.empty pid) = some t) :
    Moves hostname s (.empty pid) t := by
  simp only [step] at h
  split at h
  next hphase =>
    obtain rfl := Option.some.inj h
    refine ⟨pid, _, [], .empty hphase, ?_, rfl, (List.append_nil s.log).symm⟩
    exact ⟨by simp, .inr (.inl rfl), by simp, fun _ h => h, fun _ h => h, fun _ h => .inl h,
      by simp [Host.goto], by simp⟩
  next => cases h

theorem write_moves (h : step hostname s (.write pid) = some t) :
    Moves hostname s (.write pid) t := by
  simp only [step] at h
  split at h
  next hphase =>
    obtain rfl := Option.some.inj h
    refine ⟨pid, _, [], .write hphase, ?_, rfl, (List.append_nil s.log).symm⟩
    exact ⟨by simp, .inr (.inr hphase), fun _ _ => rfl, fun _ h => h, fun _ h => h,
      fun _ h => .inl h, by simp [Host.goto], by simp⟩
  next => cases h

theorem pgrep_moves (h : step hostname s (.pgrep pid found) = some t) :
    Moves hostname s (.pgrep pid found) t := by
  simp only [step] at h
  split at h
  next hphase =>
    obtain rfl := Option.some.inj h
    cases found with
    | true => exact Advances.stop.goto (by simp) (by simp) (by simp)
    | false => exact (Advances.search hphase).goto (by simp) (by simp) (by simp)
  next => cases h

theorem list_moves (h : step hostname s (.list pid names) = some t) :
    Moves hostname s (.list pid names) t := by
  simp only [step] at h
  split at h
  next hphase =>
    obtain rfl := Option.some.inj h
    have hnodes : ∀ node ∈ names.filter fun name => grepHost hostname name,
        grepHost hostname node = true := fun _ hnode => (List.mem_filter.mp hnode).2
    exact (Advances.list _ hnodes hphase).emit (by simp) (by simp) (by simp) (by simp)
  next => cases h

theorem next_moves (h : step hostname s (.next pid) = some t) :
    Moves hostname s (.next pid) t := by
  simp only [step] at h
  split at h
  next node nodes success hphase =>
    obtain rfl := Option.some.inj h
    have hpass : s.phase pid = .pass ⟨node :: (Pass.mk nodes success).nodes, success⟩ := hphase
    exact prepare_moves hpass
  next hphase =>
    obtain rfl := Option.some.inj h
    exact (Advances.retry hphase).emit (by simp) (by simp) (by simp) (by simp)
  next hphase =>
    obtain rfl := Option.some.inj h
    exact (Advances.converge hphase).emit (by simp) (by simp) (by simp) (by simp)
  next => cases h

theorem test_moves (h : step hostname s (.test pid) = some t) :
    Moves hostname s (.test pid) t := by
  simp only [step] at h
  split at h
  next node p hphase =>
    obtain rfl := Option.some.inj h
    exact (Advances.test node p hphase).emit (by simp) (by simp) (by simp) (by simp)
  next => cases h

theorem launch_moves (h : step hostname s (.launch pid) = some t) :
    Moves hostname s (.launch pid) t := by
  simp only [step] at h
  split at h
  next node logged p hphase =>
    obtain rfl := Option.some.inj h
    exact (Advances.launch node logged p hphase).emit (by simp) (by simp) (by simp) (by simp)
  next => cases h

theorem finish_moves (h : step hostname s (.finish pid registered ok) = some t) :
    Moves hostname s (.finish pid registered ok) t := by
  simp only [step] at h
  split at h
  next node p hphase =>
    cases ok with
    | true =>
      obtain rfl := Option.some.inj h
      exact (Advances.succeed node p hphase).finish registered hphase (by simp) (by simp)
        (by simp) (by simp)
    | false =>
      obtain rfl := Option.some.inj h
      exact (Advances.fail node p hphase).finish registered hphase (by simp) (by simp)
        (by simp) (by simp)
  next => cases h

theorem touch_moves (h : step hostname s (.touch pid) = some t) :
    Moves hostname s (.touch pid) t := by
  simp only [step] at h
  split at h
  next node p hphase =>
    obtain rfl := Option.some.inj h
    refine ⟨pid, _, _, .touch node p hphase, ?_, rfl, rfl⟩
    refine ⟨by simp, .inl rfl, by simp, fun _ h => h, fun _ h => h, fun _ h => .inl h, ?_, by simp⟩
    intro m
    by_cases hm : m = node <;> simp [Host.goto, Host.emit, hm]
  next => cases h

theorem post_moves (h : step hostname s (.post pid delivered) = some t) :
    Moves hostname s (.post pid delivered) t := by
  simp only [step] at h
  split at h
  next node p hphase =>
    obtain rfl := Option.some.inj h
    cases delivered with
    | true => exact (Advances.post node p hphase).emit (by simp) (by simp) (by simp) (by simp)
    | false => exact (Advances.drop node p hphase).goto (by simp) (by simp) (by simp)
  next => cases h

theorem wake_moves (h : step hostname s (.wake pid) = some t) :
    Moves hostname s (.wake pid) t := by
  simp only [step] at h
  split at h
  next hphase =>
    obtain rfl := Option.some.inj h
    exact (Advances.wake hphase).goto (by simp) (by simp) (by simp [hphase])
  next => cases h

theorem kill_moves (h : step hostname s (.kill pid) = some t) :
    Moves hostname s (.kill pid) t := by
  simp only [step] at h
  split at h
  next => cases h
  next =>
    obtain rfl := Option.some.inj h
    exact Advances.stop.goto (by simp) (by simp) (by simp)

end Cases

/-- What a step can do. -/
theorem step_cases (h : step hostname s a = some t) : Moves hostname s a t := by
  cases a with
  | start pid => exact start_moves h
  | look pid foreign => exact look_moves h
  | empty pid => exact empty_moves h
  | write pid => exact write_moves h
  | pgrep pid found => exact pgrep_moves h
  | list pid names => exact list_moves h
  | next pid => exact next_moves h
  | test pid => exact test_moves h
  | launch pid => exact launch_moves h
  | finish pid registered ok => exact finish_moves h
  | touch pid => exact touch_moves h
  | post pid delivered => exact post_moves h
  | wake pid => exact wake_moves h
  | kill pid => exact kill_moves h

end Steps

section Own

def Event.pid : Event → Pid
  | .listed pid _ | .tested pid _ _ | .client pid _ _ | .failed pid _ | .succeeded pid _ | .marked pid _
  | .reported pid _ | .retries pid | .converged pid => pid

/-- What an instance has done itself. -/
def own (pid : Pid) (log : List Event) : List Event := log.filter fun e => e.pid == pid

/-- The nodes of the last pass, and those that are settled: whether they have been marked, or have
failed. -/
def observe (seen : Option (List Name × List (Name × Bool))) :
    Event → Option (List Name × List (Name × Bool))
  | .listed _ nodes => some (nodes, [])
  | .failed _ node => seen.map fun pass => (pass.1, pass.2 ++ [(node, false)])
  | .marked _ node => seen.map fun pass => (pass.1, pass.2 ++ [(node, true)])
  | _ => seen

def lastPass (events : List Event) : Option (List Name × List (Name × Bool)) :=
  events.foldl observe none

/-- What is yet to be settled of a pass. -/
def Phase.left : Phase → Option Pass
  | .pass p | .marked _ p => some p
  | .prepared node p | .chosen node _ p | .running node p | .succeeded node p =>
    some ⟨node :: p.nodes, p.all_nodes_success⟩
  | _ => none

def Phase.runs (node : Name) : Phase → ℕ
  | .running m _ => if m = node then 1 else 0
  | _ => 0

def Phase.succeeds (node : Name) : Phase → ℕ
  | .succeeded m _ => if m = node then 1 else 0
  | _ => 0

def Phase.marks (node : Name) : Phase → ℕ
  | .marked m _ => if m = node then 1 else 0
  | _ => 0

/-- The nodes of the last pass are those that are settled, in this order, and those of `p`. -/
def Settles (p : Pass) (events : List Event) : Prop :=
  ∃ settled, lastPass events = some (settled.map Prod.fst ++ p.nodes, settled) ∧
    p.all_nodes_success = settled.all Prod.snd

/-- An instance marks and reports what has succeeded, and keeps to the nodes that it has listed. -/
structure Local (pid : Pid) (phase : Phase) (events : List Event) : Prop where
  succeeded : ∀ node, events.count (.succeeded pid node) + phase.runs node ≤
    events.count (.client pid node true) + events.count (.client pid node false)
  marked : ∀ node, events.count (.marked pid node) + phase.succeeds node ≤
    events.count (.succeeded pid node)
  reported : ∀ node, events.count (.reported pid node) + phase.marks node ≤
    events.count (.marked pid node)
  settles : ∀ p, phase.left = some p → Settles p events
  tested : ∀ node logged p, phase = .chosen node logged p →
    events.getLast? = some (.tested pid node logged)

variable {hostname : Name} {s : Host} {pid : Pid} {phase : Phase} {events es : List Event}
  {b : Bool}

theorem Advances.pid_eq (ha : Advances hostname s pid phase es) : ∀ e ∈ es, e.pid = pid := by
  cases ha <;> simp [Event.pid]

theorem lastPass_concat (e : Event) : lastPass (events ++ [e]) = observe (lastPass events) e :=
  List.foldl_concat ..

theorem settles_advance (h : ∀ p, (s.phase pid).left = some p → Settles p events)
    (ha : Advances hostname s pid phase es) {p : Pass} (hp : phase.left = some p) :
    Settles p (events ++ es) := by
  cases ha with
  | read | check | empty | write | stop | search | retry | converge | wake => cases hp
  | list nodes _ _ =>
    obtain rfl := Option.some.inj hp
    exact ⟨[], lastPass_concat _, rfl⟩
  | prepare node p' hphase =>
    obtain rfl := Option.some.inj hp
    rw [List.append_nil]
    exact h _ (by rw [hphase]; rfl)
  | test node p' hphase | launch node _ p' hphase | succeed node p' hphase =>
    obtain rfl := Option.some.inj hp
    obtain ⟨settled, hpass, hall⟩ :=
      h ⟨node :: p'.nodes, p'.all_nodes_success⟩ (by rw [hphase]; rfl)
    exact ⟨settled, (lastPass_concat _).trans hpass, hall⟩
  | fail node p' hphase =>
    obtain rfl := Option.some.inj hp
    obtain ⟨settled, hpass, -⟩ := h ⟨node :: p'.nodes, p'.all_nodes_success⟩ (by rw [hphase]; rfl)
    refine ⟨settled ++ [(node, false)], ?_, by simp⟩
    rw [lastPass_concat, hpass]
    simp [observe]
  | touch node p' hphase =>
    obtain rfl := Option.some.inj hp
    obtain ⟨settled, hpass, hall⟩ :=
      h ⟨node :: p'.nodes, p'.all_nodes_success⟩ (by rw [hphase]; rfl)
    refine ⟨settled ++ [(node, true)], ?_, by simpa using hall⟩
    rw [lastPass_concat, hpass]
    simp [observe]
  | post node p' hphase =>
    obtain rfl := Option.some.inj hp
    obtain ⟨settled, hpass, hall⟩ := h p' (by rw [hphase]; rfl)
    exact ⟨settled, (lastPass_concat _).trans hpass, hall⟩
  | drop node p' hphase =>
    obtain rfl := Option.some.inj hp
    rw [List.append_nil]
    exact h p' (by rw [hphase]; rfl)

theorem Local.advance (h : Local pid (s.phase pid) events)
    (ha : Advances hostname s pid phase es) : Local pid phase (events ++ es) := by
  constructor
  · intro node
    have hnode := h.succeeded node
    cases ha <;> simp_all [Phase.runs, List.count_append, List.count_cons]
    case stop => omega
    case launch _ logged _ _ => cases logged <;> simp_all <;> omega
    case fail => omega
  · intro node
    have hnode := h.marked node
    cases ha <;> simp_all [Phase.succeeds, List.count_append, List.count_cons]
    case stop => omega
  · intro node
    have hnode := h.reported node
    cases ha <;> simp_all [Phase.marks, List.count_append, List.count_cons]
    case stop => omega
    case drop => omega
  · exact fun p hp => settles_advance h.settles ha hp
  · intro node logged p hp
    cases ha with
    | test m p' _ =>
      obtain ⟨rfl, rfl, -⟩ := Phase.chosen.inj hp
      exact List.getLast?_concat ..
    | _ => cases hp

theorem own_append_self (h : ∀ e ∈ es, e.pid = pid) (log : List Event) :
    own pid (log ++ es) = own pid log ++ es := by
  rw [own, List.filter_append, List.filter_eq_self.mpr fun e he => beq_iff_eq.mpr (h e he), own]

theorem own_append_of_ne {q : Pid} (h : ∀ e ∈ es, e.pid = pid) (hq : q ≠ pid) (log : List Event) :
    own q (log ++ es) = own q log := by
  have hnone : es.filter (fun e => e.pid == q) = [] :=
    List.filter_eq_nil_iff.mpr fun e he => by simp [h e he, hq.symm]
  rw [own, List.filter_append, hnone, List.append_nil, own]

theorem count_own (e : Event) (log : List Event) : (own e.pid log).count e = log.count e :=
  List.count_filter (by simp)

/-- What an instance does after what has been done before. -/
def Allowed (hostname : Name) (before : List Event) : Event → Prop
  | .listed _ nodes => ∀ node ∈ nodes, grepHost hostname node = true
  | .tested _ node logged => grepHost hostname node = true ∧
    (logged = false ↔ ∃ q, Event.marked q node ∈ before)
  | .client pid node logged => (own pid before).getLast? = some (.tested pid node logged)
  | .retries pid => ∃ settled,
    lastPass (own pid before) = some (settled.map Prod.fst, settled) ∧ ∃ e ∈ settled, e.2 = false
  | .converged pid => ∃ settled,
    lastPass (own pid before) = some (settled.map Prod.fst, settled) ∧ ∀ e ∈ settled, e.2 = true
  | _ => True

structure Inv (hostname : Name) (s : Host) : Prop where
  locals : ∀ pid, Local pid (s.phase pid) (own pid s.log)
  names : ∀ pid p, (s.phase pid).left = some p → ∀ node ∈ p.nodes, grepHost hostname node = true
  done : ∀ node, s.done node = true ↔ ∃ pid, Event.marked pid node ∈ s.log
  allowed : Past (Allowed hostname) s.log

theorem inv_initial (stale : Option Pid) : Inv hostname (initial stale) where
  locals pid := ⟨by simp [initial, own, Phase.runs], by simp [initial, own, Phase.succeeds],
    by simp [initial, own, Phase.marks], by simp [initial, Phase.left], by simp [initial]⟩
  names pid p hp := by cases hp
  done node := by simp [initial]
  allowed := past_nil

theorem Local.ended (h : Local pid (.pass ⟨[], b⟩) events) : ∃ settled,
    lastPass events = some (settled.map Prod.fst, settled) ∧ b = settled.all Prod.snd := by
  obtain ⟨settled, hpass, hall⟩ := h.settles _ rfl
  rw [List.append_nil] at hpass
  exact ⟨settled, hpass, hall⟩

theorem names_advance (h : ∀ p, (s.phase pid).left = some p → ∀ node ∈ p.nodes,
      grepHost hostname node = true) (ha : Advances hostname s pid phase es) {p : Pass}
    (hp : phase.left = some p) : ∀ node ∈ p.nodes, grepHost hostname node = true := by
  cases ha with
  | read | check | empty | write | stop | search | retry | converge | wake => cases hp
  | list nodes hnodes _ =>
    obtain rfl := Option.some.inj hp
    exact hnodes
  | prepare node p' hphase =>
    obtain rfl := Option.some.inj hp
    exact h _ (by rw [hphase]; rfl)
  | test node p' hphase | launch node _ p' hphase | succeed node p' hphase =>
    exact h p (by rw [hphase, ← hp]; rfl)
  | fail node p' hphase | touch node p' hphase =>
    obtain rfl := Option.some.inj hp
    have hall := h ⟨node :: p'.nodes, p'.all_nodes_success⟩ (by rw [hphase]; rfl)
    exact (List.forall_mem_cons.mp hall).2
  | post node p' hphase | drop node p' hphase =>
    exact h p (by rw [hphase, ← hp]; rfl)

theorem allowed_advance (h : Inv hostname s) (ha : Advances hostname s pid phase es) :
    Past (Allowed hostname) (s.log ++ es) := by
  have hlocal := h.locals pid
  cases ha with
  | read | check | empty | write | stop | search | prepare | drop | wake =>
    rw [List.append_nil]
    exact h.allowed
  | list nodes hnodes _ => exact h.allowed.concat hnodes
  | retry hphase =>
    rw [hphase] at hlocal
    obtain ⟨settled, hpass, hall⟩ := hlocal.ended
    refine h.allowed.concat ⟨settled, hpass, ?_⟩
    simpa using List.all_eq_false.mp hall.symm
  | converge hphase =>
    rw [hphase] at hlocal
    obtain ⟨settled, hpass, hall⟩ := hlocal.ended
    exact h.allowed.concat ⟨settled, hpass, List.all_eq_true.mp hall.symm⟩
  | launch node logged p hphase => exact h.allowed.concat (hlocal.tested node logged p hphase)
  | test node p hphase =>
    have hnames := h.names pid ⟨node :: p.nodes, p.all_nodes_success⟩ (by rw [hphase]; rfl)
    refine h.allowed.concat ⟨hnames node List.mem_cons_self, ?_⟩
    rw [← h.done]
    cases s.done node <;> simp
  | fail | succeed | touch | post => exact h.allowed.concat trivial

theorem inv_step {s t : Host} {a : Action} (h : Inv hostname s)
    (hstep : step hostname s a = some t) : Inv hostname t := by
  obtain ⟨pid, phase, es, ha, hfiles, hphase, hlog⟩ := step_cases hstep
  constructor
  · intro q
    rw [hphase, hlog]
    by_cases hq : q = pid
    · obtain rfl := hq
      rw [Function.update_self, own_append_self ha.pid_eq]
      exact (h.locals q).advance ha
    · rw [Function.update_of_ne hq, own_append_of_ne ha.pid_eq hq]
      exact h.locals q
  · intro q
    rw [hphase]
    by_cases hq : q = pid
    · obtain rfl := hq
      rw [Function.update_self]
      exact fun p hp => names_advance (h.names q) ha hp
    · rw [Function.update_of_ne hq]
      exact h.names q
  · intro node
    rw [hfiles.done, h.done, hlog]
    simp only [List.mem_append, exists_or]
  · rw [hlog]
    exact allowed_advance h ha

theorem inv_run {stale : Option Pid} {as : List Action} {s : Host}
    (hrun : run (step hostname) (initial stale) as = some s) : Inv hostname s :=
  run_keeps (fun _ _ _ h hstep => inv_step h hstep) (inv_initial stale) hrun

end Own

section Prepared

/-- `chef-client` finds the attributes and the forwarder of its node. -/
structure Prepared (s : Host) : Prop where
  pem : ∀ node, s.pem node = true → s.forwarder node = true
  ready : ∀ pid node p, s.phase pid = .prepared node p ∨
      (∃ logged, s.phase pid = .chosen node logged p) ∨ s.phase pid = .running node p →
    s.json node = true ∧ s.forwarder node = true
  ran : ∀ pid node logged, .client pid node logged ∈ s.log →
    s.json node = true ∧ s.forwarder node = true

variable {hostname : Name} {s t : Host} {a : Action} {pid : Pid} {phase : Phase} {es : List Event}

theorem prepared_initial (stale : Option Pid) : Prepared (initial stale) where
  pem _ h := by cases h
  ready _ _ _ h := by rcases h with h | ⟨_, h⟩ | h <;> cases h
  ran _ _ _ h := by cases h

theorem Files.mono (h : Files s a t pid phase es) {node : Name}
    (hnode : s.json node = true ∧ s.forwarder node = true) :
    t.json node = true ∧ t.forwarder node = true :=
  ⟨h.json node hnode.1, h.forwarder node hnode.2⟩

theorem ready_advance (h : Prepared s) (ha : Advances hostname s pid phase es)
    (hfiles : Files s a t pid phase es) {node : Name} {p : Pass}
    (hp : phase = .prepared node p ∨ (∃ logged, phase = .chosen node logged p) ∨
      phase = .running node p) :
    t.json node = true ∧ t.forwarder node = true := by
  cases ha with
  | prepare m p' _ =>
    obtain ⟨rfl, rfl⟩ : m = node ∧ p' = p := by simpa using hp
    obtain ⟨hjson, hpem | hforwarder⟩ := hfiles.prepared m p' rfl
    · exact ⟨hjson, hfiles.forwarder m (h.pem m hpem)⟩
    · exact ⟨hjson, hforwarder⟩
  | test m p' hphase =>
    obtain ⟨rfl, rfl⟩ : m = node ∧ p' = p := by simpa using hp
    exact hfiles.mono (h.ready pid m p' (.inl hphase))
  | launch m logged p' hphase =>
    obtain ⟨rfl, rfl⟩ : m = node ∧ p' = p := by simpa using hp
    exact hfiles.mono (h.ready pid m p' (.inr (.inl ⟨logged, hphase⟩)))
  | _ => rcases hp with hp | ⟨_, hp⟩ | hp <;> cases hp

theorem prepared_step (h : Prepared s) (hstep : step hostname s a = some t) :
    Prepared t := by
  obtain ⟨pid, phase, es, ha, hfiles, hphase, hlog⟩ := step_cases hstep
  constructor
  · intro node hnode
    obtain hpem | ⟨p, hrunning⟩ := hfiles.pem node hnode
    · exact hfiles.forwarder node (h.pem node hpem)
    · exact (hfiles.mono (h.ready pid node p (.inr (.inr hrunning)))).2
  · intro q node p hq
    rw [hphase] at hq
    by_cases hpid : q = pid
    · obtain rfl := hpid
      rw [Function.update_self] at hq
      exact ready_advance h ha hfiles hq
    · rw [Function.update_of_ne hpid] at hq
      exact hfiles.mono (h.ready q node p hq)
  · intro q node logged hmem
    rw [hlog] at hmem
    obtain hmem | hmem := List.mem_append.mp hmem
    · exact hfiles.mono (h.ran q node logged hmem)
    · cases ha with
      | launch m logged' p hchosen =>
        obtain ⟨rfl, rfl, -⟩ : q = pid ∧ node = m ∧ logged = logged' := by simpa using hmem
        exact hfiles.mono (h.ready q node p (.inr (.inl ⟨logged', hchosen⟩)))
      | _ => simp at hmem

end Prepared

section Exclusion

variable {hostname : Name} {s t : Host}

def AtMostOne (s : Host) : Prop := ∀ p q, s.working p = true → s.working q = true → p = q

/-- An instance that is past its look at the pid file and has not written it. -/
def Unwritten (s : Host) (pid : Pid) : Prop := s.phase pid = .checked ∨ s.phase pid = .opened

/-- No instance gets past its look at the pid file while another one has yet to write it, or while
the file has come to hold the pid of one that is at work. -/
def NotBetween (s : Host) : Action → Prop
  | .look pid foreign => ∀ found, s.phase pid = .looking found →
    (found.any fun q => foreign || s.alive q) = true ∨
      (∀ q, ¬ Unwritten s q) ∧ ∀ q ∈ s.pidfile, s.working q = false
  | _ => True

/-- The pid file names the instance that has written it last. -/
structure Owned (s : Host) : Prop where
  unique : AtMostOne s
  pidfile : ∀ pid, s.working pid = true → ¬ Unwritten s pid → s.pidfile = some pid

theorem working_iff {pid : Pid} : s.working pid = true ↔
    s.phase pid ≠ .idle ∧ ∀ found, s.phase pid ≠ .looking found := by
  unfold Host.working
  split <;> simp_all

theorem owned_initial (stale : Option Pid) : Owned (initial stale) := by
  constructor <;> simp [AtMostOne, working_iff, initial]

/-- An instance that gets to work finds no other one at work. -/
theorem Owned.alone {a : Action} {pid : Pid} {phase : Phase} {es : List Event} (h : Owned s)
    (hok : NotBetween s a) (hfiles : Files s a t pid phase es) (hphase : phase = .checked)
    (q : Pid) : s.working q = false := by
  obtain ⟨foreign, found, rfl, hlooking, hany⟩ := hfiles.checked hphase
  obtain hblocked | ⟨hnone, hfree⟩ := hok found hlooking
  · rw [hany] at hblocked
    cases hblocked
  · by_contra hq
    rw [Bool.not_eq_false] at hq
    exact absurd (hfree q (h.pidfile q hq (hnone q))) (by simp [hq])

/-- An instance gets to work in its look at the pid file only. -/
theorem Advances.enters {pid : Pid} {phase : Phase} {es : List Event}
    (ha : Advances hostname s pid phase es) (hidle : s.working pid = false)
    (hidle' : phase ≠ .idle) (hlooking : ∀ found, phase ≠ .looking found) : phase = .checked := by
  rw [Bool.eq_false_iff, Ne, working_iff] at hidle
  cases ha <;> simp_all

theorem Advances.from_unwritten {pid : Pid} {phase : Phase} {es : List Event}
    (ha : Advances hostname s pid phase es) (h : Unwritten s pid) :
    phase = .idle ∨ phase = .opened ∨ s.phase pid = .opened ∧ phase = .started := by
  unfold Unwritten at h
  cases ha <;> simp_all

theorem owned_step {a : Action} (h : Owned s) (hok : NotBetween s a)
    (hstep : step hostname s a = some t) : Owned t := by
  obtain ⟨pid, phase, es, ha, hfiles, hphase, -⟩ := step_cases hstep
  have hself : t.phase pid = phase := by rw [hphase, Function.update_self]
  have hother {q : Pid} (hq : q ≠ pid) : t.phase q = s.phase q := by
    rw [hphase, Function.update_of_ne hq]
  have hwas {q : Pid} (hq : q ≠ pid) (hworking : t.working q = true) : s.working q = true := by
    rwa [working_iff, hother hq, ← working_iff] at hworking
  -- another instance at work was so before, and then this one is not
  have hlone {q : Pid} (hq : q ≠ pid) (hworking : t.working q = true) :
      s.working pid = false ∧ t.working pid = false := by
    have hidle : s.working pid = false := by
      by_contra hne
      exact hq (h.unique q pid (hwas hq hworking) (Bool.not_eq_false _ ▸ hne))
    refine ⟨hidle, ?_⟩
    by_contra hne
    rw [Bool.not_eq_false, working_iff, hself] at hne
    have hchecked := ha.enters hidle hne.1 hne.2
    exact absurd (hwas hq hworking) (by simp [h.alone hok hfiles hchecked q])
  constructor
  · intro p q hp hq
    by_cases hpp : p = pid
    · by_cases hqp : q = pid
      · rw [hpp, hqp]
      · rw [hpp] at hp
        exact absurd hp (by simp [(hlone hqp hq).2])
    · by_cases hqp : q = pid
      · rw [hqp] at hq
        exact absurd hq (by simp [(hlone hpp hp).2])
      · exact h.unique p q (hwas hpp hp) (hwas hqp hq)
  · intro q hq hwritten
    by_cases hqp : q = pid
    · obtain rfl := hqp
      rw [working_iff, hself] at hq
      unfold Unwritten at hwritten
      rw [hself, not_or] at hwritten
      by_cases hunwritten : Unwritten s q
      · obtain hidle | hopened | ⟨hopened, hstarted⟩ := ha.from_unwritten hunwritten
        · exact absurd hidle hq.1
        · exact absurd hopened hwritten.2
        · exact hfiles.written hstarted hopened
      · have hworking : s.working q = true := by
          by_contra hidle
          exact hwritten.1 (ha.enters (Bool.not_eq_true _ ▸ hidle) hq.1 hq.2)
        have hkept : t.pidfile = s.pidfile :=
          hfiles.pidfile.resolve_right fun hopened =>
            hopened.elim hwritten.2 fun hopened => hunwritten (.inr hopened)
        rw [hkept]
        exact h.pidfile q hworking hunwritten
    · have hidle := (hlone hqp hq).1
      have hkept : t.pidfile = s.pidfile := by
        refine hfiles.pidfile.resolve_right ?_
        rintro (hopened | hopened)
        · have hnot := (hlone hqp hq).2
          rw [Bool.eq_false_iff, Ne, working_iff, hself, hopened] at hnot
          exact hnot ⟨by simp, by simp⟩
        · rw [Bool.eq_false_iff, Ne, working_iff, hopened] at hidle
          exact hidle ⟨by simp, by simp⟩
      rw [hkept]
      unfold Unwritten at hwritten
      rw [hother hqp] at hwritten
      exact h.pidfile q (hwas hqp hq) hwritten

theorem Unwritten.working {q : Pid} (h : Unwritten s q) : s.working q = true := by
  rw [working_iff]
  obtain h | h := h <;> simp [h]

/-- At most one instance is past its look at the pid file, at every moment of a run, if and only if
none gets past it while another one has yet to write the file, or while it has come to hold the pid
of one at work. -/
theorem atMostOne_iff (stale : Option Pid) (as : List Action) :
    Always (step hostname) AtMostOne (initial stale) as ↔
      Guarded (step hostname) NotBetween (initial stale) as := by
  refine always_iff_guarded (fun s a t => owned_step) (fun s h => h.unique) ?_ (owned_initial stale)
  intro s a t h hbad hstep hone
  cases a with
  | look pid foreign =>
    simp only [NotBetween, not_forall, not_or, Bool.not_eq_true] at hbad
    obtain ⟨found, hphase, hfree, hothers⟩ := hbad
    have hbusy : ∃ q, s.working q = true := by
      by_contra hnone
      simp only [not_exists, Bool.not_eq_true] at hnone
      refine hothers ⟨fun q hq => ?_, fun q _ => hnone q⟩
      have hworking := hq.working
      rw [hnone q] at hworking
      cases hworking
    obtain ⟨q, hq⟩ := hbusy
    simp only [step, hphase, hfree, Bool.false_eq_true, if_false] at hstep
    obtain rfl := Option.some.inj hstep
    have hne : q ≠ pid := by
      rintro rfl
      rw [working_iff] at hq
      exact hq.2 found hphase
    refine hne (hone q pid ?_ ?_)
    · rw [working_iff, Host.goto_of_ne s _ hne, ← working_iff]
      exact hq
    · rw [working_iff, Host.goto_self]
      exact ⟨nofun, nofun⟩
  | _ => exact hbad trivial

/-- Two instances that read the same stale pid; the second one looks for its process when the first
one is at work already. -/
example : ∃ s, run (step "host1".toList) (initial (some 5))
      [.start 7, .start 9, .look 9 false, .empty 9, .write 9, .look 7 false] = some s ∧
    s.working 7 = true ∧ s.working 9 = true :=
  ⟨_, rfl, rfl, rfl⟩

end Exclusion

section Results

variable {hostname : Name} {stale : Option Pid} {as : List Action} {s : Host}

/-- At every moment an instance has reported a node at most as often as it has marked it, marked it
at most as often as `chef-client` succeeded for it, and that is at most as often as it ran. -/
theorem reports_follow_successes (hrun : run (step hostname) (initial stale) as = some s)
    (pid : Pid) (node : Name) :
    s.log.count (.reported pid node) ≤ s.log.count (.marked pid node) ∧
      s.log.count (.marked pid node) ≤ s.log.count (.succeeded pid node) ∧
      s.log.count (.succeeded pid node) ≤
        s.log.count (.client pid node true) + s.log.count (.client pid node false) := by
  have hlocal := (inv_run hrun).locals pid
  have hcount (e : Event) (he : e.pid = pid) : s.log.count e = (own pid s.log).count e := by
    rw [← he, count_own]
  rw [hcount (.reported pid node) rfl, hcount (.marked pid node) rfl,
    hcount (.succeeded pid node) rfl, hcount (.client pid node true) rfl,
    hcount (.client pid node false) rfl]
  have hsucceeded := hlocal.succeeded node
  have hmarked := hlocal.marked node
  have hreported := hlocal.reported node
  omega

/-- An instance looks for the mark of nodes of the name of the host only, and then runs `chef-client`,
with the log that is forwarded if the node was not marked at that moment. A pass settles the nodes that it has listed, in their
order; another one follows if one of them has failed, and otherwise the instance ends. -/
theorem history_allowed (hrun : run (step hostname) (initial stale) as = some s) :
    Past (Allowed hostname) s.log := (inv_run hrun).allowed

/-- Whenever `chef-client` has run for a node, its attributes and the forwarder of its log were there
before. -/
theorem ran_prepared (hrun : run (step hostname) (initial stale) as = some s) {pid : Pid}
    {node : Name} {logged : Bool} (hmem : .client pid node logged ∈ s.log) :
    s.json node = true ∧ s.forwarder node = true :=
  (run_keeps (fun _ _ _ h hstep => prepared_step h hstep) (prepared_initial stale) hrun).ran pid node
    logged hmem

/-- The second instance is kept out as long as the first one is alive. -/
def twoInstances : List Action :=
  [.start 7, .look 7 false, .empty 7, .write 7, .pgrep 7 false,
    .list 7 ["host1.x".toList, "host2.x".toList], .next 7, .test 7, .launch 7, .start 9,
    .look 9 false, .finish 7 true true, .touch 7, .post 7 true, .next 7, .start 9, .look 9 false,
    .empty 9, .write 9, .pgrep 9 false, .list 9 ["host1.x".toList], .next 9, .test 9, .launch 9,
    .finish 9 true false, .next 9, .wake 9, .pgrep 9 true]

theorem twoInstances_run :
    ∃ s, run (step "host1".toList) (initial none) twoInstances = some s ∧
      s.log = [.listed 7 ["host1.x".toList], .tested 7 "host1.x".toList true,
        .client 7 "host1.x".toList true, .succeeded 7 "host1.x".toList,
        .marked 7 "host1.x".toList, .reported 7 "host1.x".toList, .converged 7,
        .listed 9 ["host1.x".toList], .tested 9 "host1.x".toList false,
        .client 9 "host1.x".toList false, .failed 9 "host1.x".toList, .retries 9] := by
  exact ⟨_, rfl, by decide⟩

theorem reports_follow_successes_twoInstances :
    ∃ s, run (step "host1".toList) (initial none) twoInstances = some s ∧
      s.log.count (.reported 7 "host1.x".toList) ≤ s.log.count (.marked 7 "host1.x".toList) := by
  obtain ⟨s, hrun, -⟩ := twoInstances_run
  exact ⟨s, hrun, (reports_follow_successes hrun 7 "host1.x".toList).1⟩

theorem history_allowed_twoInstances :
    ∃ s, run (step "host1".toList) (initial none) twoInstances = some s ∧
      Past (Allowed "host1".toList) s.log := by
  obtain ⟨s, hrun, -⟩ := twoInstances_run
  exact ⟨s, hrun, history_allowed hrun⟩

theorem ran_prepared_twoInstances :
    ∃ s, run (step "host1".toList) (initial none) twoInstances = some s ∧
      s.json "host1.x".toList = true ∧ s.forwarder "host1.x".toList = true := by
  obtain ⟨s, hrun, hlog⟩ := twoInstances_run
  have hmem : .client 7 "host1.x".toList true ∈ s.log := by
    rw [hlog]
    simp
  exact ⟨s, hrun, ran_prepared hrun hmem⟩

end Results

end CompassAdapters.Chef.ClientRun
