import CompassAdapters.Neutron.Dhcp
import CompassAdapters.Neutron.Failover

/-! A whole run of `neutron-ha-tool.py`: what its arguments ask for, one after another, and the exit
status. -/
namespace CompassAdapters.Neutron
open Relocation

/-- `l3_agent_check` counts the routers of the agents offline, where `list` is for which agents the
listing of the routers raises. The target it draws for each router is only logged. -/
def l3AgentCheck (list : String → Bool) (l : Listing) (c : Cloud) : Ending :=
  let agent_dead_list := agentDeadIdList l.agents "L3 agent"
  if agent_dead_list.any list then .listError
  else
    let migration_count := agent_dead_list.foldl (fun migration_count agent_id =>
      (c.hosts.items agent_id).foldl (fun migration_count _ => migration_count + 1)
        migration_count) 0
    if migration_count > 0 then .exited 2 else .returned

structure Args where
  noop : Bool
  l3_agent_check : Bool
  l3_agent_migrate : Bool
  l3_agent_rebalance : Bool
  replicate_dhcp : Bool
  now : Bool

/-- What a run meets: the answers to `list_agents` in each action and to `list_networks`, where the
API raises in each of them, what is drawn, and the order of a dictionary. -/
structure World where
  checked : Listing
  polls : ℕ → Listing
  balanced : Listing
  replicated : Listing
  networks : List String
  checkList : String → Bool
  migrateFaults : ApiFaults
  rebalanceFaults : ApiFaults
  dhcpFaults : DhcpFaults
  takeover_delay : ℕ
  random : String → String → ℕ
  order : DictOrder

/-- The routers of the L3 agents and the networks of the DHCP agents. -/
structure System where
  cloud : Cloud
  networks : Placement String String

/-- With what status an action ends the run, if it does. An exception ends it with 1. -/
def Ending.stop : Ending → Option ℕ
  | .returned => none
  | .exited code => some code
  | .indexError => some 1
  | .listError => some 1

/-- An action is left out when it is not asked for, and after one that ended the run. -/
def perform (asked : Bool) (action : System → System × Option ℕ) (r : System × Option ℕ) :
    System × Option ℕ :=
  if asked && r.2.isNone then action r.1 else r

section Run

variable (args : Args) (w : World)

def checkAction (s : System) : System × Option ℕ :=
  (s, (l3AgentCheck w.checkList w.checked s.cloud).stop)

def migrateAction (s : System) : System × Option ℕ :=
  let p := l3AgentMigrate w.migrateFaults ⟨args.noop, args.now, w.takeover_delay, w.random⟩ w.polls
    s.cloud
  ({ s with cloud := p.cloud }, p.ending.stop)

def rebalanceAction (s : System) : System × Option ℕ :=
  let cloud := l3AgentRebalance w.rebalanceFaults args.noop w.order w.balanced s.cloud
  ({ s with cloud }, if rebalanceRaises w.rebalanceFaults w.balanced then some 1 else none)

def replicateAction (s : System) : System × Option ℕ :=
  let (replication, listed) :=
    replicateDhcp w.dhcpFaults args.noop w.networks w.replicated s.networks
  ({ s with networks := replication.hosts }, if listed then none else some 1)

/-- `run`, until it returns or is ended. -/
def runActions (s : System) : System × Option ℕ :=
  perform args.replicate_dhcp (replicateAction args w)
    (perform args.l3_agent_rebalance (rebalanceAction args w)
      (perform args.l3_agent_migrate (migrateAction args w)
        (perform args.l3_agent_check (checkAction w) (s, none))))

/-- The main program: the system after the run, and the exit status. -/
def run (s : System) : System × ℕ :=
  let (s, stop) := runActions args w s
  (s, stop.getD 0)

end Run

section Status

/-- The routers of the agents that an answer reports offline. -/
def Cloud.offline (c : Cloud) (l : Listing) : List String := l.dead.flatMap c.hosts.items

theorem l3AgentCheck_eq (list : String → Bool) (l : Listing) (c : Cloud) :
    l3AgentCheck list l c = if l.dead.any list then .listError
      else if c.offline l = [] then .returned else .exited 2 := by
  have hrouters (routers : List String) (n : ℕ) :
      routers.foldl (fun migration_count _ => migration_count + 1) n = n + routers.length := by
    induction routers generalizing n with
    | nil => rfl
    | cons router routers ih =>
      rw [List.foldl_cons, ih, List.length_cons]
      omega
  have hcount (agents : List String) (n : ℕ) : agents.foldl (fun migration_count agent_id =>
      (c.hosts.items agent_id).foldl (fun migration_count _ => migration_count + 1)
        migration_count) n = n + (agents.map fun a => (c.hosts.items a).length).sum := by
    induction agents generalizing n with
    | nil => rfl
    | cons agent agents ih =>
      rw [List.foldl_cons, ih, hrouters, List.map_cons, List.sum_cons, Nat.add_assoc]
  rw [l3AgentCheck]
  simp only [hcount, Nat.zero_add, gt_iff_lt]
  rw [← Listing.dead, ← List.length_flatMap, ← Cloud.offline]
  refine if_congr Iff.rfl rfl ?_
  by_cases h : c.offline l = []
  · rw [if_pos h, h]
    rfl
  · exact (if_pos (List.length_pos_iff.mpr h)).trans (if_neg h).symm

variable {f : ApiFaults} {o : Options}

/-- Only the lack of an agent alive ends the loop over routers. -/
theorem foldl_migrateRouterAway_ending (alive : List String) (agent : String)
    (routers : List String) (p : Progress) (hp : p.ending = .returned) :
    (routers.foldl (migrateRouterAway f o alive agent) p).ending =
      if alive = [] ∧ routers ≠ [] then .indexError else .returned := by
  have hstuck (routers : List String) (p : Progress) (h : p.ending ≠ .returned) :
      routers.foldl (migrateRouterAway f o alive agent) p = p := by
    induction routers with
    | nil => rfl
    | cons router routers ih => rwa [List.foldl_cons, migrateRouterAway, if_pos h]
  induction routers generalizing p with
  | nil => simp [hp]
  | cons router routers ih =>
    rw [List.foldl_cons]
    by_cases halive : alive = []
    · have hstep : migrateRouterAway f o alive agent p router =
          { p with ending := .indexError } := by
        rw [migrateRouterAway, if_neg (not_not.mpr hp), halive]
        rfl
      rw [hstep, hstuck _ _ (by simp)]
      simp [halive]
    · obtain ⟨target, htarget⟩ := choice_isSome halive (o.random agent router)
      have hstep : (migrateRouterAway f o alive agent p router).ending = .returned := by
        rw [migrateRouterAway, if_neg (not_not.mpr hp), htarget]
        cases o.noop with
        | true => exact hp
        | false => exact hp
      rw [ih _ hstep]
      simp [halive]

/-- The first agent whose listing raises ends the loop, or the lack of an agent alive. -/
theorem foldl_migrateAgentAway_stop (alive dead : List String) (p : Progress)
    (hp : p.ending = .returned) :
    (dead.foldl (migrateAgentAway f o alive) p).ending.stop =
      if dead.any f.list ∨ (alive = [] ∧ dead.flatMap p.cloud.hosts.items ≠ []) then some 1
      else none := by
  induction dead generalizing p with
  | nil => simp [hp, Ending.stop]
  | cons agent dead ih =>
    rw [List.foldl_cons, migrateAgentAway, if_neg (not_not.mpr hp), List.any_cons,
      List.flatMap_cons]
    cases f.list agent with
    | true =>
      rw [if_pos rfl, foldl_migrateAgentAway_stuck dead (by simp), Bool.true_or,
        if_pos (Or.inl rfl)]
      rfl
    | false =>
      have hending := foldl_migrateRouterAway_ending (f := f) (o := o) alive agent
        (p.cloud.hosts.items agent) p hp
      rw [if_neg Bool.false_ne_true, Bool.false_or]
      by_cases hraise : alive = [] ∧ p.cloud.hosts.items agent ≠ []
      · rw [if_pos hraise] at hending
        rw [foldl_migrateAgentAway_stuck dead (by rw [hending]; decide), hending, if_pos (Or.inr
          ⟨hraise.1, List.append_ne_nil_of_left_ne_nil hraise.2 _⟩)]
        rfl
      · rw [if_neg hraise] at hending
        rw [ih _ hending]
        by_cases halive : alive = []
        · have hnone : p.cloud.hosts.items agent = [] := by
            by_contra hsome
            exact hraise ⟨halive, hsome⟩
          rw [hnone]
          rfl
        · simp [halive]

/-- With what status a failover ends the run: neither what is drawn nor what the calls of the
migrations raise matters. -/
theorem l3AgentMigrate_stop (polls : ℕ → Listing) (c : Cloud) :
    (l3AgentMigrate f o polls c).ending.stop =
      if (polls 0).dead = [] then none
      else if !o.now && !agentsStayOffline polls (polls 0).dead o.takeover_delay 1 then some 0
      else if (polls 0).dead.any f.list ∨ ((polls 0).alive = [] ∧ c.offline (polls 0) ≠ []) then
        some 1
      else none := by
  rw [l3AgentMigrate]
  by_cases hdead : (polls 0).dead = []
  · have hlength : ¬ (agentDeadIdList (polls 0).agents "L3 agent").length > 0 := by
      rw [← Listing.dead, hdead]
      decide
    simp only [hlength, if_false, if_pos hdead]
    rfl
  · have hlength : (agentDeadIdList (polls 0).agents "L3 agent").length > 0 :=
      List.length_pos_iff.mpr hdead
    simp only [hlength, if_true, if_neg hdead]
    by_cases hexit : (!o.now && !agentsStayOffline polls (polls 0).dead o.takeover_delay 1) = true
    · rw [if_pos hexit]
      exact congrArg (fun p : Progress => p.ending.stop) (if_pos hexit)
    · rw [if_neg hexit]
      refine (congrArg (fun p : Progress => p.ending.stop) (if_neg hexit)).trans ?_
      exact foldl_migrateAgentAway_stop _ _ _ rfl

theorem replicateAgents_listed (g : DhcpFaults) (noop : Bool) (networks agents : List String)
    (s : Replication) : (replicateAgents g noop networks agents s).2 = agents.all (!g.list ·) := by
  induction agents generalizing s with
  | nil => rfl
  | cons agent agents ih =>
    rw [replicateAgents, List.all_cons]
    cases g.list agent with
    | true => rfl
    | false => exact ih _

/-- What decides how a run ends: what is asked for, and what is listed. -/
structure SameCourse (args args' : Args) (w w' : World) : Prop where
  check : args.l3_agent_check = args'.l3_agent_check
  migrate : args.l3_agent_migrate = args'.l3_agent_migrate
  rebalance : args.l3_agent_rebalance = args'.l3_agent_rebalance
  replicate : args.replicate_dhcp = args'.replicate_dhcp
  now : args.now = args'.now
  checked : w.checked = w'.checked
  polls : w.polls = w'.polls
  balanced : w.balanced = w'.balanced
  replicated : w.replicated = w'.replicated
  checkList : w.checkList = w'.checkList
  migrateList : w.migrateFaults.list = w'.migrateFaults.list
  rebalanceList : w.rebalanceFaults.list = w'.rebalanceFaults.list
  dhcpList : w.dhcpFaults.list = w'.dhcpFaults.list
  takeover_delay : w.takeover_delay = w'.takeover_delay

section Course

variable {args args' : Args} {w w' : World} {r r' : System × Option ℕ}

theorem SameCourse.rebalance_status (h : SameCourse args args' w w') (hr : r.2 = r'.2) :
    (perform args.l3_agent_rebalance (rebalanceAction args w) r).2 =
      (perform args'.l3_agent_rebalance (rebalanceAction args' w') r').2 := by
  have hraises : rebalanceRaises w.rebalanceFaults w.balanced =
      rebalanceRaises w'.rebalanceFaults w'.balanced := by
    simp only [rebalanceRaises, h.balanced, h.rebalanceList]
  rw [perform, perform, h.rebalance, hr]
  split
  next => exact congrArg (fun raises => if raises = true then some 1 else none) hraises
  next => exact hr

theorem SameCourse.replicate_status (h : SameCourse args args' w w') (hr : r.2 = r'.2) :
    (perform args.replicate_dhcp (replicateAction args w) r).2 =
      (perform args'.replicate_dhcp (replicateAction args' w') r').2 := by
  rw [perform, perform, h.replicate, hr]
  split
  next => simp only [replicateAction, replicateDhcp, replicateAgents_listed, h.dhcpList,
    h.replicated]
  next => exact hr

theorem SameCourse.migrate_status (h : SameCourse args args' w w') :
    (perform args.l3_agent_migrate (migrateAction args w) r).2 =
      (perform args'.l3_agent_migrate (migrateAction args' w') r).2 := by
  rw [perform, perform, h.migrate]
  split
  next =>
    simp only [migrateAction, l3AgentMigrate_stop, h.now, h.takeover_delay, h.polls,
      h.migrateList]
  next => rfl

theorem SameCourse.runActions_status (h : SameCourse args args' w w') (s : System) :
    (runActions args w s).2 = (runActions args' w' s).2 := by
  have hcheck : checkAction w = checkAction w' := by
    funext s
    rw [checkAction, checkAction, h.checked, h.checkList]
  refine h.replicate_status (h.rebalance_status ?_)
  rw [h.migrate_status, h.check, hcheck]

end Course

/-- The exit status says nothing of the success: it is the same in a dry run, whatever the calls of
the migrations raise, and whatever is drawn. Only the listings of what an agent has end a run. -/
theorem run_status_eq (args : Args) (w : World) (s : System) (noop : Bool)
    (migrations rebalancing : ApiFaults) (add : String → String → Bool)
    (random : String → String → ℕ) (order : DictOrder) :
    (run { args with noop }
      { w with
        migrateFaults := { migrations with list := w.migrateFaults.list }
        rebalanceFaults := { rebalancing with list := w.rebalanceFaults.list }
        dhcpFaults := ⟨w.dhcpFaults.list, add⟩
        random
        order } s).2 = (run args w s).2 := by
  refine congrArg (Option.getD · 0) (SameCourse.runActions_status ?_ s)
  constructor <;> rfl

end Status

section Hosts

variable {args : Args} {w : World} {s : System}

/-- The cloud before a failover is left as it is by the check. -/
theorem perform_check_system (asked : Bool) :
    (perform asked (checkAction w) (s, none)).1 = s := by
  rw [perform]
  split <;> rfl

theorem perform_cloud (asked : Bool) (action : System → System × Option ℕ)
    (r : System × Option ℕ) :
    (perform asked action r).1.cloud = r.1.cloud ∨
      (asked = true ∧ r.2 = none ∧ (perform asked action r).1.cloud = (action r.1).1.cloud) := by
  rw [perform]
  split
  next h =>
    rw [Bool.and_eq_true, Option.isNone_iff_eq_none] at h
    exact Or.inr ⟨h.1, h.2, rfl⟩
  next => exact Or.inl rfl

/-- What a run does to the routers: a failover, if the check lets it, and a rebalancing after it. -/
theorem run_cloud (args : Args) (w : World) (s : System) : ∃ moves : List Migration,
    (moves = [] ∨ (args.l3_agent_migrate = true ∧
      (args.l3_agent_check = true → s.cloud.offline w.checked = []) ∧
      moves = failoverMoves ⟨args.noop, args.now, w.takeover_delay, w.random⟩
        w.migrateFaults.list w.polls s.cloud.hosts)) ∧
    ((run args w s).1.cloud = s.cloud.moveAll w.migrateFaults.steps moves ∨
      (args.l3_agent_rebalance = true ∧ (run args w s).1.cloud =
        l3AgentRebalance w.rebalanceFaults args.noop w.order w.balanced
          (s.cloud.moveAll w.migrateFaults.steps moves))) := by
  obtain ⟨moves, hmoves, hcloud⟩ : ∃ moves : List Migration,
      (moves = [] ∨ (args.l3_agent_migrate = true ∧
        (args.l3_agent_check = true → s.cloud.offline w.checked = []) ∧
        moves = failoverMoves ⟨args.noop, args.now, w.takeover_delay, w.random⟩
          w.migrateFaults.list w.polls s.cloud.hosts)) ∧
      (perform args.l3_agent_migrate (migrateAction args w)
        (perform args.l3_agent_check (checkAction w) (s, none))).1.cloud =
          s.cloud.moveAll w.migrateFaults.steps moves := by
    rcases perform_cloud args.l3_agent_migrate (migrateAction args w)
      (perform args.l3_agent_check (checkAction w) (s, none)) with hsame | ⟨hasked, hgo, hrun⟩
    · refine ⟨[], Or.inl rfl, ?_⟩
      rw [hsame, perform_check_system, Cloud.moveAll_nil]
    · refine ⟨_, Or.inr ⟨hasked, fun hcheck => ?_, rfl⟩, ?_⟩
      · rw [hcheck, perform] at hgo
        by_contra hoffline
        cases hlist : w.checked.dead.any w.checkList with
        | true => simp [checkAction, l3AgentCheck_eq, hlist, Ending.stop] at hgo
        | false => simp [checkAction, l3AgentCheck_eq, hlist, hoffline, Ending.stop] at hgo
      · rw [hrun, perform_check_system]
        exact l3AgentMigrate_eq w.polls s.cloud
  refine ⟨moves, hmoves, ?_⟩
  have hreplicate (r : System × Option ℕ) :
      (perform args.replicate_dhcp (replicateAction args w) r).1.cloud = r.1.cloud := by
    rw [perform]
    split <;> rfl
  have hrun : (run args w s).1.cloud = (perform args.l3_agent_rebalance (rebalanceAction args w)
      (perform args.l3_agent_migrate (migrateAction args w)
        (perform args.l3_agent_check (checkAction w) (s, none)))).1.cloud := hreplicate _
  rw [hrun, ← hcloud]
  exact (perform_cloud _ _ _).imp id fun ⟨hasked, _, hrun⟩ => ⟨hasked, hrun⟩

theorem mem_offline {c : Cloud} {l : Listing} {r : String} :
    r ∈ c.offline l ↔ ∃ a ∈ l.dead, r ∈ c.hosts.items a := List.mem_flatMap

/-- A run that is asked for the check and the failover takes routers only off agents that were not
offline in the check: with the same answer for both it moves nothing. -/
theorem checked_failover (args : Args) (w : World) (s : System)
    (hcheck : args.l3_agent_check = true) (hbalance : args.l3_agent_rebalance = false) :
    (∃ moves, (run args w s).1.cloud = s.cloud.moveAll w.migrateFaults.steps moves ∧
      ∀ m ∈ moves, m.source ∈ (w.polls 0).dead ∧ m.source ∉ w.checked.dead) ∧
    (w.polls 0 = w.checked → (run args w s).1.cloud = s.cloud) := by
  obtain ⟨moves, hmoves, hrun⟩ := run_cloud args w s
  have hcloud : (run args w s).1.cloud = s.cloud.moveAll w.migrateFaults.steps moves :=
    hrun.resolve_right fun h => by rw [hbalance] at h; exact Bool.false_ne_true h.1
  have hsources : ∀ m ∈ moves, m.source ∈ (w.polls 0).dead ∧ m.source ∉ w.checked.dead := by
    rcases hmoves with rfl | ⟨-, hclean, rfl⟩
    · exact fun m hm => absurd hm List.not_mem_nil
    · intro m hm
      obtain ⟨-, -, hlisted, hitem, -⟩ := mem_failoverMoves_iff.mp hm
      have hsource := (List.takeWhile_sublist _).subset hlisted
      refine ⟨hsource, fun hdead => ?_⟩
      have hoffline : m.item ∈ s.cloud.offline w.checked := mem_offline.mpr ⟨_, hdead, hitem⟩
      rw [hclean hcheck] at hoffline
      cases hoffline
  refine ⟨⟨moves, hcloud, hsources⟩, fun hsame => ?_⟩
  have hnone : moves = [] := by
    refine List.eq_nil_iff_forall_not_mem.mpr fun m hm => ?_
    exact (hsources m hm).2 (hsame ▸ (hsources m hm).1)
  rw [hcloud, hnone, Cloud.moveAll_nil]

/-- A world with the same answers in each action, in which nothing raises. -/
def calmWorld (l : Listing) : World where
  checked := l
  polls _ := l
  balanced := l
  replicated := l
  networks := []
  checkList _ := false
  migrateFaults := noFaults
  rebalanceFaults := noFaults
  dhcpFaults := ⟨fun _ => false, fun _ _ => false⟩
  takeover_delay := 30
  random _ _ := 0
  order := keyOrder

/-- The router of the offline agent stays where it is. -/
theorem checked_failover_oneRouter :
    (run ⟨false, true, true, false, false, true⟩ (calmWorld twoAgents)
      ⟨oneRouter, ⟨fun _ => [], fun _ => List.nodup_nil⟩⟩).1.cloud = oneRouter :=
  (checked_failover ⟨false, true, true, false, false, true⟩ (calmWorld twoAgents)
    ⟨oneRouter, ⟨fun _ => [], fun _ => List.nodup_nil⟩⟩ rfl rfl).2 rfl

/-- The check after a failover, with the same answer, finds nothing just when there was nothing to
find, or each router was removed from its agent: it does not see whether the router was added to
another one. -/
theorem check_after_migrate_iff (f : Faults String String) (o : Options) (polls : ℕ → Listing)
    (c : Cloud) :
    l3AgentCheck (listed f).list (polls 0) (l3AgentMigrate f o polls c).cloud = .returned ↔
      c.offline (polls 0) = [] ∨
      (o.noop = false ∧ (o.now = true ∨
          agentsStayOffline polls (polls 0).dead o.takeover_delay 1 = true) ∧
        (polls 0).alive ≠ [] ∧
        ∀ a ∈ (polls 0).dead, ∀ r ∈ c.hosts.items a, ∀ target,
          choice (o.random a r) (polls 0).alive = some target → f.remove ⟨r, a, target⟩ = false) := by
  have hcheck (c : Cloud) : l3AgentCheck (listed f).list (polls 0) c = .returned ↔ c.offline (polls 0) = [] := by
    have hlist : ¬ (polls 0).dead.any (listed f).list = true := by simp
    rw [l3AgentCheck_eq, if_neg hlist]
    split
    next h => simp [h]
    next h => simp [h]
  have hmoved {r a : String} (ha : a ∈ (polls 0).dead) :
      r ∈ (l3AgentMigrate f o polls c).cloud.hosts.items a ↔ r ∈ c.hosts.items a ∧
        ∀ m ∈ failoverMoves o (listed f).list polls c.hosts, m.item = r → m.source = a → f.remove m = true := by
    rw [l3AgentMigrate_eq, Cloud.moveAll, mem_moveAll (failoverMoves_valid _ polls c.hosts).separate]
    refine or_iff_left ?_
    rintro ⟨m, hm, -, rfl, -⟩
    -- targets are alive in the answer in which the sources are offline
    exact alive_not_dead _ (choice_mem (mem_failoverMoves_iff.mp hm).2.2.2.2) ha
  rw [hcheck, List.eq_nil_iff_forall_not_mem, List.eq_nil_iff_forall_not_mem]
  simp only [mem_offline, not_exists, not_and]
  constructor
  · intro hclean
    by_cases hnone : ∀ r, ∀ a ∈ (polls 0).dead, r ∉ c.hosts.items a
    · exact Or.inl hnone
    · push Not at hnone
      obtain ⟨r, a, ha, hr⟩ := hnone
      have hgone {a r : String} (ha : a ∈ (polls 0).dead) (hr : r ∈ c.hosts.items a) :
          ∃ m ∈ failoverMoves o (listed f).list polls c.hosts, m.item = r ∧ m.source = a ∧ f.remove m = false := by
        have hstays := mt (hmoved ha).mpr (hclean r a ha)
        simp only [not_and, not_forall] at hstays
        obtain ⟨m, hm, hitem, hsource, hremove⟩ := hstays hr
        exact ⟨m, hm, hitem, hsource, Bool.eq_false_iff.mpr hremove⟩
      obtain ⟨m, hm, rfl, rfl, -⟩ := hgone ha hr
      obtain ⟨hnoop, hstay, -, -, htarget⟩ := mem_failoverMoves_iff.mp hm
      refine Or.inr ⟨hnoop, hstay, List.ne_nil_of_mem (choice_mem htarget), ?_⟩
      intro a ha r hr target htarget
      obtain ⟨n, hn, rfl, rfl, hremove⟩ := hgone ha hr
      obtain ⟨-, -, -, -, hdrawn⟩ := mem_failoverMoves_iff.mp hn
      obtain rfl : n.target = target := Option.some.inj (hdrawn.symm.trans htarget)
      exact hremove
  · rintro (hnone | ⟨hnoop, hstay, halive, hremove⟩) r a ha
    · exact fun hr => hnone r a ha ((hmoved ha).mp hr).1
    · rw [hmoved ha]
      rintro ⟨hr, hkeep⟩
      obtain ⟨target, htarget⟩ := choice_isSome halive (o.random a r)
      have hm : (⟨r, a, target⟩ : Migration) ∈ failoverMoves o (listed f).list polls c.hosts :=
        mem_failoverMoves_iff.mpr ⟨hnoop, hstay, by rwa [takeWhile_listed], hr, htarget⟩
      have hraised := hkeep _ hm rfl rfl
      rw [hremove a ha r hr target htarget] at hraised
      cases hraised

end Hosts

end CompassAdapters.Neutron
