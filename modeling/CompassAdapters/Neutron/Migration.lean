import CompassAdapters.Neutron.HaTool
import Mathlib.Data.List.GetD
import Mathlib.Data.List.Range
import Mathlib.Data.List.TakeWhile

/-! The migrations of `neutron-ha-tool.py`, and when every router keeps an agent. -/
namespace CompassAdapters.Neutron
open Relocation

variable {f : ApiFaults} {noop : Bool} {c : Cloud}

/-- The cloud after some calls of `migrate_router`. -/
def Cloud.moveAll (f : Faults String String) (ms : List Migration) (c : Cloud) : Cloud :=
  ⟨f.moveAll ms c.hosts, c.calls ++ ms⟩

variable {g : Faults String String}

@[simp] theorem Cloud.moveAll_nil (c : Cloud) : c.moveAll g [] = c := by
  rw [Cloud.moveAll, List.append_nil]
  rfl

theorem Cloud.moveAll_append (ms ns : List Migration) (c : Cloud) :
    c.moveAll g (ms ++ ns) = (c.moveAll g ms).moveAll g ns := by
  rw [moveAll, Relocation.moveAll_append, ← List.append_assoc]
  rfl

theorem migrateRouter_eq (m : Migration) (c : Cloud) :
    migrateRouter f m c = (c.moveAll f.steps [m], f.returns m) := by
  have hone : f.steps.moveAll [m] c.hosts = f.steps.move m c.hosts := rfl
  rw [Cloud.moveAll, hone, migrateRouter, Faults.move, ApiFaults.returns, Faults.passes,
    ApiFaults.steps]
  cases hremove : f.remove m with
  | true => simp
  | false =>
    cases hremoved : f.removed m with
    | true => simp [hremoved]
    | false => cases hadd : f.add m <;> simp [hremoved, hadd]

section Pair

variable (f) (low hgh : String)

/-- How many of some routers are migrated without an exception. -/
def migrated (routers : List String) : ℕ :=
  routers.countP fun router => f.returns ⟨router, hgh, low⟩

/-- The routers that the loop over a pair of agents comes to: those for which the counts still
differ after the migrations before. -/
def pairMoves (low_count hgh_count : ℕ) (routers : List String) : List Migration :=
  (routers.zipIdx.filter fun x =>
    low_count + 2 * migrated f low hgh (routers.take x.2) < hgh_count).map
      fun x => ⟨x.1, hgh, low⟩

variable {f low hgh}

theorem pairMoves_cons (low_count hgh_count : ℕ) (router : String) (routers : List String) :
    pairMoves f low hgh low_count hgh_count (router :: routers) =
      if low_count ≥ hgh_count then []
      else if f.returns ⟨router, hgh, low⟩ then
        ⟨router, hgh, low⟩ :: pairMoves f low hgh (low_count + 1) (hgh_count - 1) routers
      else ⟨router, hgh, low⟩ :: pairMoves f low hgh low_count hgh_count routers := by
  have hshift (x : String × ℕ) : migrated f low hgh ((router :: routers).take (x.2 + 1)) =
      migrated f low hgh (routers.take x.2) + if f.returns ⟨router, hgh, low⟩ then 1 else 0 :=
    List.countP_cons
  rw [pairMoves, List.zipIdx_cons, List.filter_cons, List.zipIdx_succ, List.filter_map,
    List.take_zero]
  have hnone : migrated f low hgh [] = 0 := rfl
  simp only [hnone, Function.comp_def, hshift, Nat.mul_zero, Nat.add_zero]
  by_cases hcount : low_count ≥ hgh_count
  · rw [if_pos hcount, if_neg (by simpa using hcount), List.map_eq_nil_iff, List.map_eq_nil_iff,
      List.filter_eq_nil_iff]
    intro x _
    rw [decide_eq_true_eq]
    omega
  · rw [if_neg hcount, if_pos (by simpa using hcount), List.map_cons, List.map_map]
    cases f.returns ⟨router, hgh, low⟩ with
    | true =>
      have hsame : (routers.zipIdx.filter fun x => decide
          (low_count + 2 * (migrated f low hgh (routers.take x.2) + 1) < hgh_count)) =
          routers.zipIdx.filter fun x => decide
            (low_count + 1 + 2 * migrated f low hgh (routers.take x.2) < hgh_count - 1) := by
        apply List.filter_congr
        intro x _
        rw [decide_eq_decide]
        omega
      simp only [if_true, hsame]
      rfl
    | false =>
      simp only [Bool.false_eq_true, if_false, Nat.add_zero]
      rfl

theorem rebalancePair_eq (routers : List String) (low_count hgh_count : ℕ) (c : Cloud) :
    rebalancePair f false low hgh routers low_count hgh_count c =
      c.moveAll f.steps (pairMoves f low hgh low_count hgh_count routers) := by
  induction routers generalizing low_count hgh_count c with
  | nil => simp [rebalancePair, pairMoves]
  | cons router routers ih =>
    rw [rebalancePair, pairMoves_cons]
    split
    next => rw [Cloud.moveAll_nil]
    next =>
      rw [if_neg Bool.false_ne_true, migrateRouter_eq]
      simp only
      split
      next => rw [ih, ← Cloud.moveAll_append]; rfl
      next => rw [ih, ← Cloud.moveAll_append]; rfl

theorem rebalancePair_noop (routers : List String) (low_count hgh_count : ℕ) (c : Cloud) :
    rebalancePair f true low hgh routers low_count hgh_count c = c := by
  induction routers generalizing low_count hgh_count with
  | nil => rfl
  | cons router routers ih =>
    rw [rebalancePair]
    split
    next => rfl
    next => rw [if_pos rfl, ih]

end Pair

section Rounds

variable (f) (p : Placement String String) (ordered : List String)

/-- The agent that routers are moved to in a round. -/
def lowAgent (i : ℕ) : String := ordered.getD i ""

/-- The agent that routers are moved from. -/
def hghAgent (i : ℕ) : String := ordered.getD (ordered.length - (i + 1)) ""

def roundMoves (i : ℕ) : List Migration :=
  pairMoves f (lowAgent ordered i) (hghAgent ordered i) (p.items (lowAgent ordered i)).length
    (p.items (hghAgent ordered i)).length (p.items (hghAgent ordered i))

/-- The rounds before the one with the same agent on both sides. -/
def comparedRounds (agents : ℕ) : ℕ := if agents % 2 = 0 then agents else agents / 2

def rebalanceMoves : List Migration :=
  (List.range (comparedRounds ordered.length)).flatMap (roundMoves f p ordered)

variable {f p ordered}

theorem rebalanceAgents_steps {k : ℕ} {i : ℕ}
    (h : ∀ j, i ≤ j → j < i + k → lowAgent ordered j ≠ hghAgent ordered j) (more : ℕ) (c : Cloud) :
    rebalanceAgents f false p.items ordered (k + more) i c =
      rebalanceAgents f false p.items ordered more (i + k)
        (c.moveAll f.steps ((List.range' i k).flatMap (roundMoves f p ordered))) := by
  induction k generalizing i c with
  | zero => simp
  | succ k ih =>
    have hne : lowAgent ordered i ≠ hghAgent ordered i := h i (Nat.le_refl i) (by omega)
    have hrest : ∀ j, i + 1 ≤ j → j < i + 1 + k → lowAgent ordered j ≠ hghAgent ordered j :=
      fun j hj hlt => h j (by omega) (by omega)
    have hround : k + 1 + more = (k + more) + 1 := by omega
    have hnext : i + (k + 1) = i + 1 + k := by omega
    rw [hround, rebalanceAgents]
    show (if lowAgent ordered i = hghAgent ordered i then _ else _) = _
    rw [if_neg hne, hnext, List.range'_succ, List.flatMap_cons, Cloud.moveAll_append, ← ih hrest]
    exact congrArg _ (rebalancePair_eq _ _ _ c)

theorem rebalanceAgents_stuck {i : ℕ} (h : lowAgent ordered i = hghAgent ordered i) (rounds : ℕ)
    (c : Cloud) : rebalanceAgents f noop p.items ordered rounds i c = c := by
  induction rounds with
  | zero => rfl
  | succ rounds ih =>
    rw [rebalanceAgents]
    exact (if_pos h).trans ih

theorem rebalanceAgents_noop (rounds i : ℕ) (c : Cloud) :
    rebalanceAgents f true p.items ordered rounds i c = c := by
  induction rounds generalizing i with
  | zero => rfl
  | succ rounds ih =>
    rw [rebalanceAgents]
    split
    next => exact ih i
    next => rw [rebalancePair_noop, ih]

/-- The agents of two places are the same for the same place only. -/
theorem lowAgent_eq_hghAgent (hnodup : ordered.Nodup) {i j : ℕ} (hi : i < ordered.length)
    (hj : j < ordered.length) :
    lowAgent ordered i = hghAgent ordered j ↔ i = ordered.length - (j + 1) := by
  have hlt : ordered.length - (j + 1) < ordered.length := by omega
  rw [lowAgent, hghAgent, List.getD_eq_getElem _ _ hi, List.getD_eq_getElem _ _ hlt]
  exact hnodup.getElem_inj_iff

theorem comparedRounds_le (n : ℕ) : comparedRounds n ≤ n := by
  unfold comparedRounds
  split <;> omega

theorem rebalanceAgents_eq (hnodup : ordered.Nodup) (c : Cloud) :
    rebalanceAgents f false p.items ordered ordered.length 0 c =
      c.moveAll f.steps (rebalanceMoves f p ordered) := by
  have hle := comparedRounds_le ordered.length
  have hsteps : ∀ j, 0 ≤ j → j < 0 + comparedRounds ordered.length →
      lowAgent ordered j ≠ hghAgent ordered j := by
    intro j _ hj heq
    rw [Nat.zero_add] at hj
    have hmiddle := (lowAgent_eq_hghAgent hnodup (by omega) (by omega)).mp heq
    unfold comparedRounds at hj
    split at hj <;> omega
  obtain ⟨more, hmore⟩ := Nat.exists_eq_add_of_le hle
  have hrange : List.range (comparedRounds ordered.length) =
      List.range' 0 (comparedRounds ordered.length) := List.range_eq_range'
  have hrun := rebalanceAgents_steps (f := f) (p := p) hsteps more c
  rw [← hmore, Nat.zero_add] at hrun
  rw [hrun, rebalanceMoves, hrange]
  by_cases heven : ordered.length % 2 = 0
  · have hall : comparedRounds ordered.length = ordered.length := if_pos heven
    have hnone : more = 0 := by omega
    rw [hnone]
    rfl
  · apply rebalanceAgents_stuck
    have hhalf : comparedRounds ordered.length = ordered.length / 2 := if_neg heven
    rw [lowAgent_eq_hghAgent hnodup (by omega) (by omega)]
    omega

theorem mem_pairMoves {low hgh : String} {low_count hgh_count : ℕ} {routers : List String}
    {m : Migration} : m ∈ pairMoves f low hgh low_count hgh_count routers ↔
      m.source = hgh ∧ m.target = low ∧ ∃ j, routers[j]? = some m.item ∧
        low_count + 2 * migrated f low hgh (routers.take j) < hgh_count := by
  simp only [pairMoves, List.mem_map, List.mem_filter, List.mem_zipIdx_iff_getElem?,
    decide_eq_true_eq]
  constructor
  · rintro ⟨⟨router, j⟩, ⟨hget, hcount⟩, rfl⟩
    exact ⟨rfl, rfl, j, hget, hcount⟩
  · rintro ⟨rfl, rfl, j, hget, hcount⟩
    exact ⟨(m.item, j), ⟨hget, hcount⟩, rfl⟩

variable (f p ordered) in
/-- In some round `b` is the agent with more routers, `low` the one with fewer, and after the
migrations before `r` the counts still differ. -/
def Reached (low b r : String) : Prop :=
  ∃ i < comparedRounds ordered.length, lowAgent ordered i = low ∧ hghAgent ordered i = b ∧
    ∃ j, (p.items b)[j]? = some r ∧
      (p.items low).length + 2 * migrated f low b ((p.items b).take j) < (p.items b).length

theorem mem_rebalanceMoves {m : Migration} :
    m ∈ rebalanceMoves f p ordered ↔ Reached f p ordered m.target m.source m.item := by
  rw [rebalanceMoves, List.mem_flatMap]
  simp only [List.mem_range, roundMoves, mem_pairMoves]
  constructor
  · rintro ⟨i, hi, hsource, htarget, hget⟩
    rw [← hsource, ← htarget] at hget
    exact ⟨i, hi, htarget.symm, hsource.symm, hget⟩
  · rintro ⟨i, hi, hlow, hhgh, hget⟩
    rw [← hlow, ← hhgh] at hget
    exact ⟨i, hi, hhgh.symm, hlow.symm, hget⟩

/-- Agents are compared in pairs, and within a pair routers go one way. -/
theorem rebalanceMoves_valid (hnodup : ordered.Nodup) : Valid p (rebalanceMoves f p ordered) := by
  have hle := comparedRounds_le ordered.length
  refine ⟨?_, ?_, ?_⟩
  · intro m hm n hn _ heq
    obtain ⟨i, hi, hlow, hhgh, _, -, hcount⟩ := mem_rebalanceMoves.mp hm
    obtain ⟨j, hj, hlow', hhgh', _, -, hcount'⟩ := mem_rebalanceMoves.mp hn
    -- the agents of the other round are the same, the other way round
    have hij : i = ordered.length - (j + 1) :=
      (lowAgent_eq_hghAgent hnodup (by omega) (by omega)).mp (by rw [hlow, hhgh', heq])
    have hback : n.target = m.source := by
      rw [← hlow', ← hhgh]
      exact (lowAgent_eq_hghAgent hnodup (by omega) (by omega)).mpr (by omega)
    rw [hback, ← heq] at hcount'
    omega
  · intro m hm
    obtain ⟨-, -, -, -, j, hget, -⟩ := mem_rebalanceMoves.mp hm
    exact List.mem_of_getElem? hget
  · intro m hm n hn hitem hsource
    obtain ⟨i, hi, hlow, hhgh, -⟩ := mem_rebalanceMoves.mp hm
    obtain ⟨j, hj, hlow', hhgh', -⟩ := mem_rebalanceMoves.mp hn
    have hij : ordered.length - (i + 1) = ordered.length - (j + 1) := by
      rw [← lowAgent_eq_hghAgent hnodup (by omega) (by omega)]
      show hghAgent ordered i = hghAgent ordered j
      rw [hhgh, hhgh', hsource]
    obtain rfl : i = j := by omega
    obtain ⟨item, source, target⟩ := m
    obtain ⟨item', source', target'⟩ := n
    obtain rfl : item = item' := hitem
    obtain rfl : source = source' := hsource
    obtain rfl : target = target' := hlow.symm.trans hlow'
    rfl

end Rounds

section Rebalance

variable (d : DictOrder) (l : Listing)

theorem orderedAgentList_nodup : (orderedAgentList d (listAgents l.agents "L3 agent")).Nodup := by
  rw [orderedAgentList, (List.perm_insertionSort _ _).nodup_iff, (d.perm _).nodup_iff]
  exact l.nodup.sublist (List.filter_sublist.map Agent.id)

theorem l3AgentRebalance_raised (h : rebalanceRaises f l = true) (c : Cloud) :
    l3AgentRebalance f noop d l c = c := by
  rw [rebalanceRaises, Bool.and_eq_true] at h
  rw [l3AgentRebalance]
  simp only
  split
  next => rfl
  next => exact if_pos h.2

theorem l3AgentRebalance_eq (h : rebalanceRaises f l = false) (c : Cloud) :
    l3AgentRebalance f false d l c = c.moveAll f.steps (rebalanceMoves f c.hosts
      (orderedAgentList d (listAgents l.agents "L3 agent"))) := by
  have hlen : (orderedAgentList d (listAgents l.agents "L3 agent")).length =
      (listAgents l.agents "L3 agent").length := by
    rw [orderedAgentList, List.length_insertionSort, (d.perm _).length_eq, List.length_map]
  rw [l3AgentRebalance]
  simp only
  split
  next hfew =>
    have hnone :
        comparedRounds (orderedAgentList d (listAgents l.agents "L3 agent")).length = 0 := by
      unfold comparedRounds
      split <;> omega
    rw [rebalanceMoves, hnone, List.range_zero, List.flatMap_nil, Cloud.moveAll_nil]
  next hmany =>
    rw [rebalanceRaises, Bool.and_eq_false_iff] at h
    rw [if_neg (by simpa [hmany] using h)]
    exact rebalanceAgents_eq (orderedAgentList_nodup d l) c

theorem l3AgentRebalance_noop (c : Cloud) : l3AgentRebalance f true d l c = c := by
  rw [l3AgentRebalance]
  simp only
  split
  next => rfl
  next =>
    split
    next => rfl
    next => exact rebalanceAgents_noop _ _ c

@[simp] theorem rebalanceRaises_listed (g : Faults String String) :
    rebalanceRaises (listed g) l = false := by
  simp [rebalanceRaises, listed]

end Rebalance

section Migrate

variable (f) (o : Options)

theorem choice_mem {random : ℕ} {xs : List String} {x : String} (h : choice random xs = some x) :
    x ∈ xs := List.mem_of_getElem? h

theorem choice_isSome {xs : List String} (h : xs ≠ []) (random : ℕ) :
    ∃ x, choice random xs = some x := by
  have hlt : random % xs.length < xs.length := Nat.mod_lt _ (List.length_pos_iff.mpr h)
  exact ⟨_, List.getElem?_eq_getElem hlt⟩

/-- The migrations from one agent, with the targets that are drawn. -/
def agentMoves (agent_alive_list : List String) (p : Placement String String)
    (agent_id : String) : List Migration :=
  (p.items agent_id).filterMap fun router_id =>
    (choice (o.random agent_id router_id) agent_alive_list).map fun target_id =>
      ⟨router_id, agent_id, target_id⟩

/-- The migrations of a run, from agents up to the first one that `list` raises for. -/
def failoverMoves (list : String → Bool) (polls : ℕ → Listing) (p : Placement String String) :
    List Migration :=
  if o.noop then []
  else if !o.now && !agentsStayOffline polls (agentDeadIdList (polls 0).agents "L3 agent")
      o.takeover_delay 1 then []
  else ((agentDeadIdList (polls 0).agents "L3 agent").takeWhile fun a => !list a).flatMap
    (agentMoves o (agentAliveIdList (polls 0).agents "L3 agent") p)

variable {f o}

/-- Without an agent alive, or without leave to migrate, the loops change nothing. -/
theorem migrateAgentAway_idle {alive : List String} (h : alive = [] ∨ o.noop = true)
    (dead : List String) (p : Progress) :
    (dead.foldl (migrateAgentAway f o alive) p).cloud = p.cloud := by
  have hrouter (agent : String) (routers : List String) (p : Progress) :
      (routers.foldl (migrateRouterAway f o alive agent) p).cloud = p.cloud := by
    induction routers generalizing p with
    | nil => rfl
    | cons router routers ih =>
      rw [List.foldl_cons, ih, migrateRouterAway]
      split
      next => rfl
      next =>
        rcases h with rfl | hnoop
        · rfl
        · simp only [hnoop, if_true]
          split <;> rfl
  induction dead generalizing p with
  | nil => rfl
  | cons agent dead ih =>
    rw [List.foldl_cons, ih, migrateAgentAway]
    split
    next => rfl
    next =>
      split
      next => rfl
      next => exact hrouter agent _ p

/-- The loop over the routers of an agent, when there is a target. -/
theorem foldl_migrateRouterAway {alive : List String} (halive : alive ≠ [])
    (hnoop : o.noop = false) (agent : String) (routers : List String) (p : Progress)
    (hp : p.ending = .returned) :
    (routers.foldl (migrateRouterAway f o alive agent) p).cloud = p.cloud.moveAll f.steps
      (routers.filterMap fun router => (choice (o.random agent router) alive).map fun target =>
        ⟨router, agent, target⟩) ∧
    (routers.foldl (migrateRouterAway f o alive agent) p).ending = .returned := by
  induction routers generalizing p with
  | nil => exact ⟨(Cloud.moveAll_nil _).symm, hp⟩
  | cons router routers ih =>
    obtain ⟨target, htarget⟩ := choice_isSome halive (o.random agent router)
    have hstep : migrateRouterAway f o alive agent p router =
        ⟨p.cloud.moveAll f.steps [⟨router, agent, target⟩],
          if f.returns ⟨router, agent, target⟩ then p.migration_count + 1 else p.migration_count,
          .returned⟩ := by
      rw [migrateRouterAway, if_neg (not_not.mpr hp), htarget]
      simp only [hnoop, Bool.false_eq_true, if_false, migrateRouter_eq, hp]
    obtain ⟨hcloud, hending⟩ := ih _ (congrArg Progress.ending hstep)
    refine ⟨?_, by rw [List.foldl_cons, hending]⟩
    rw [List.foldl_cons, hcloud, hstep, List.filterMap_cons, htarget, Option.map_some]
    exact (Cloud.moveAll_append _ _ _).symm

theorem mem_agentMoves {alive : List String} {p : Placement String String} {agent : String}
    {m : Migration} : m ∈ agentMoves o alive p agent ↔ m.source = agent ∧
      m.item ∈ p.items agent ∧ choice (o.random agent m.item) alive = some m.target := by
  rw [agentMoves, List.mem_filterMap]
  constructor
  · rintro ⟨router, hrouter, hm⟩
    obtain ⟨target, htarget, rfl⟩ := Option.map_eq_some_iff.mp hm
    exact ⟨rfl, hrouter, htarget⟩
  · rintro ⟨rfl, hrouter, htarget⟩
    exact ⟨m.item, hrouter, by rw [htarget]; rfl⟩

/-- An exception ends the loop over the agents. -/
theorem foldl_migrateAgentAway_stuck {alive : List String} (dead : List String) {p : Progress}
    (hp : p.ending ≠ .returned) : dead.foldl (migrateAgentAway f o alive) p = p := by
  induction dead with
  | nil => rfl
  | cons agent dead ih => rwa [List.foldl_cons, migrateAgentAway, if_pos hp]

theorem foldl_migrateAgentAway {alive dead : List String} (halive : alive ≠ [])
    (hnoop : o.noop = false) (hdead : dead.Nodup) (hapart : ∀ a ∈ alive, a ∉ dead)
    (p : Progress) (hp : p.ending = .returned) :
    (dead.foldl (migrateAgentAway f o alive) p).cloud = p.cloud.moveAll f.steps
      ((dead.takeWhile fun a => !f.list a).flatMap (agentMoves o alive p.cloud.hosts)) := by
  induction dead generalizing p with
  | nil => exact (Cloud.moveAll_nil _).symm
  | cons agent dead ih =>
    obtain ⟨hagent, hdead⟩ := List.nodup_cons.mp hdead
    rw [List.foldl_cons, migrateAgentAway, if_neg (not_not.mpr hp)]
    cases hlist : f.list agent with
    | true =>
      rw [if_pos rfl, foldl_migrateAgentAway_stuck dead (by simp),
        List.takeWhile_cons_of_neg (by simp [hlist]), List.flatMap_nil, Cloud.moveAll_nil]
    | false =>
      obtain ⟨hcloud, hending⟩ := foldl_migrateRouterAway (f := f) halive hnoop agent
        (p.cloud.hosts.items agent) p hp
      -- the agents that come later are neither left nor reached
      have hsame : ∀ agent' ∈ dead.takeWhile fun a => !f.list a, agentMoves o alive
          (p.cloud.moveAll f.steps (agentMoves o alive p.cloud.hosts agent)).hosts agent' =
            agentMoves o alive p.cloud.hosts agent' := by
        intro agent' hagent'
        have hlater := (List.takeWhile_sublist _).subset hagent'
        have hitems :
            (p.cloud.moveAll f.steps (agentMoves o alive p.cloud.hosts agent)).hosts.items agent' =
            p.cloud.hosts.items agent' := by
          apply moveAll_items
          intro m hm
          obtain ⟨hsource, -, htarget⟩ := mem_agentMoves.mp hm
          constructor
          · rintro rfl
            exact hagent (hsource ▸ hlater)
          · rintro rfl
            exact hapart _ (choice_mem htarget) (List.mem_cons_of_mem _ hlater)
        rw [agentMoves, hitems]
        rfl
      rw [if_neg Bool.false_ne_true,
        ih hdead (fun a ha hmem => hapart a ha (List.mem_cons_of_mem _ hmem)) _ hending, hcloud,
        List.takeWhile_cons_of_pos (by simp [hlist]), List.flatMap_cons, Cloud.moveAll_append]
      congr 1
      exact List.flatMap_congr hsame

/-- The agents alive and those offline are apart in one answer. -/
theorem alive_not_dead (l : Listing) {a : String}
    (h : a ∈ agentAliveIdList l.agents "L3 agent") : a ∉ agentDeadIdList l.agents "L3 agent" := by
  intro hdead
  obtain ⟨agent, hagent, rfl⟩ := List.mem_map.mp h
  obtain ⟨agent', hagent', heq⟩ := List.mem_map.mp hdead
  rw [List.mem_filter, Bool.and_eq_true] at hagent hagent'
  obtain rfl := List.inj_on_of_nodup_map l.nodup hagent'.1 hagent.1 heq
  rw [hagent.2.2] at hagent'
  exact absurd hagent'.2.2 (by decide)

theorem agentDeadIdList_nodup (l : Listing) : (agentDeadIdList l.agents "L3 agent").Nodup :=
  l.nodup.sublist (List.filter_sublist.map Agent.id)

theorem l3AgentMigrate_eq (polls : ℕ → Listing) (c : Cloud) :
    (l3AgentMigrate f o polls c).cloud =
      c.moveAll f.steps (failoverMoves o f.list polls c.hosts) := by
  have hnone (a : String) : agentMoves o [] c.hosts a = [] := by
    rw [agentMoves, List.filterMap_eq_nil_iff]
    exact fun _ _ => rfl
  rw [l3AgentMigrate, failoverMoves]
  by_cases hdead : agentDeadIdList (polls 0).agents "L3 agent" = []
  · rw [hdead, List.takeWhile_nil, List.flatMap_nil, ite_self, ite_self, Cloud.moveAll_nil]
    rfl
  · have hsome := List.length_pos_iff.mpr hdead
    simp only [gt_iff_lt, hsome, if_true]
    by_cases hexit : (!o.now && !agentsStayOffline polls
        (agentDeadIdList (polls 0).agents "L3 agent") o.takeover_delay 1) = true
    · rw [if_pos hexit, if_pos hexit, ite_self, Cloud.moveAll_nil]
    · rw [if_neg hexit, if_neg hexit]
      by_cases hidle : agentAliveIdList (polls 0).agents "L3 agent" = [] ∨ o.noop = true
      · rw [migrateAgentAway_idle hidle]
        rcases hidle with halive | hnoop
        · rw [halive, List.flatMap_eq_nil_iff.mpr fun a _ => hnone a, ite_self, Cloud.moveAll_nil]
        · rw [if_pos hnoop, Cloud.moveAll_nil]
      · rw [not_or, Bool.not_eq_true] at hidle
        rw [hidle.2, if_neg Bool.false_ne_true]
        exact foldl_migrateAgentAway hidle.1 hidle.2 (agentDeadIdList_nodup _)
          (fun _ ha => alive_not_dead _ ha) _ rfl

theorem failoverMoves_valid (list : String → Bool) (polls : ℕ → Listing)
    (p : Placement String String) : Valid p (failoverMoves o list polls p) := by
  rw [failoverMoves]
  split
  next => exact valid_nil p
  next =>
    split
    next => exact valid_nil p
    next =>
      refine ⟨?_, ?_, ?_⟩
      · intro m hm n hn _ heq
        obtain ⟨a, -, hm⟩ := List.mem_flatMap.mp hm
        obtain ⟨b, hb, hn⟩ := List.mem_flatMap.mp hn
        obtain ⟨-, -, htarget⟩ := mem_agentMoves.mp hm
        obtain ⟨hsource, -⟩ := mem_agentMoves.mp hn
        have hdead := (List.takeWhile_sublist _).subset hb
        exact alive_not_dead _ (choice_mem htarget) (heq ▸ hsource ▸ hdead)
      · intro m hm
        obtain ⟨a, -, hm⟩ := List.mem_flatMap.mp hm
        obtain ⟨rfl, hitem, -⟩ := mem_agentMoves.mp hm
        exact hitem
      · intro m hm n hn hitem hsource
        obtain ⟨a, -, hm⟩ := List.mem_flatMap.mp hm
        obtain ⟨b, -, hn⟩ := List.mem_flatMap.mp hn
        obtain ⟨rfl, -, htarget⟩ := mem_agentMoves.mp hm
        obtain ⟨rfl, -, htarget'⟩ := mem_agentMoves.mp hn
        obtain ⟨item, source, target⟩ := m
        obtain ⟨item', source', target'⟩ := n
        obtain rfl : item = item' := hitem
        obtain rfl : source = source' := hsource
        obtain rfl : target = target' := Option.some.inj (htarget.symm.trans htarget')
        rfl

end Migrate

section Survival

variable (f : Faults String String) (o : Options) (noop : Bool)

/-- Without faults of the listings all agents offline are left. -/
theorem takeWhile_listed (dead : List String) :
    (dead.takeWhile fun a => !(listed f).list a) = dead :=
  List.takeWhile_eq_self_iff.mpr fun _ _ => rfl

theorem migrate_survives_iff (polls : ℕ → Listing) (c : Cloud) :
    Survives c.hosts (l3AgentMigrate f o polls c).cloud.hosts ↔
      o.noop = true ∨
      (o.now = false ∧ agentsStayOffline polls (agentDeadIdList (polls 0).agents "L3 agent")
        o.takeover_delay 1 = false) ∨
      ∀ r a, r ∈ c.hosts.items a → ∃ b, r ∈ c.hosts.items b ∧
        (b ∈ agentDeadIdList (polls 0).agents "L3 agent" → ∀ target,
          choice (o.random b r) (agentAliveIdList (polls 0).agents "L3 agent") = some target →
          f.remove ⟨r, b, target⟩ = true ∨ f.add ⟨r, b, target⟩ = false) := by
  rw [l3AgentMigrate_eq]
  show Survives c.hosts (f.moveAll (failoverMoves o (listed f).list polls c.hosts) c.hosts) ↔ _
  by_cases hnoop : o.noop = true
  · rw [failoverMoves, if_pos hnoop]
    exact iff_of_true (Survives.refl _) (Or.inl hnoop)
  · by_cases hexit : o.now = false ∧ agentsStayOffline polls
        (agentDeadIdList (polls 0).agents "L3 agent") o.takeover_delay 1 = false
    · rw [failoverMoves, if_neg hnoop, if_pos (by rw [hexit.1, hexit.2]; rfl)]
      exact iff_of_true (Survives.refl _) (Or.inr (Or.inl hexit))
    · rw [or_iff_right hnoop, or_iff_right hexit, survives_moveAll_iff (failoverMoves_valid _ _ _)]
      have hmoves : failoverMoves o (listed f).list polls c.hosts =
          (agentDeadIdList (polls 0).agents "L3 agent").flatMap
            (agentMoves o (agentAliveIdList (polls 0).agents "L3 agent") c.hosts) := by
        rw [failoverMoves, takeWhile_listed, if_neg hnoop, if_neg]
        rw [Bool.and_eq_true, Bool.not_eq_true', Bool.not_eq_true']
        exact hexit
      refine forall₃_congr fun r a _ => exists_congr fun b => and_congr_right fun hb => ?_
      rw [hmoves]
      constructor
      · intro h hdead target htarget
        exact h ⟨r, b, target⟩ (List.mem_flatMap.mpr ⟨b, hdead,
          mem_agentMoves.mpr ⟨rfl, hb, htarget⟩⟩) rfl rfl
      · rintro h ⟨item, source, target⟩ hm hitem hsource
        obtain rfl : item = r := hitem
        obtain rfl : source = b := hsource
        obtain ⟨b, hdead, hm⟩ := List.mem_flatMap.mp hm
        obtain ⟨hsource, -, htarget⟩ := mem_agentMoves.mp hm
        obtain rfl : source = b := hsource
        exact h hdead target htarget

theorem rebalance_survives_iff (d : DictOrder) (l : Listing) (c : Cloud) :
    Survives c.hosts (l3AgentRebalance f noop d l c).hosts ↔
      noop = true ∨
      ∀ r a, r ∈ c.hosts.items a → ∃ b, r ∈ c.hosts.items b ∧ ∀ low,
        Reached f c.hosts (orderedAgentList d (listAgents l.agents "L3 agent")) low b r →
        f.remove ⟨r, b, low⟩ = true ∨ f.add ⟨r, b, low⟩ = false := by
  cases noop with
  | true =>
    rw [l3AgentRebalance_noop]
    exact iff_of_true (Survives.refl _) (Or.inl rfl)
  | false =>
    rw [l3AgentRebalance_eq d l (rebalanceRaises_listed l f), or_iff_right Bool.false_ne_true]
    refine (survives_moveAll_iff (rebalanceMoves_valid (orderedAgentList_nodup d l))).trans ?_
    refine forall₃_congr fun r a _ => exists_congr fun b => and_congr_right fun hb => ?_
    simp only [mem_rebalanceMoves]
    constructor
    · intro h low hreached
      exact h ⟨r, b, low⟩ hreached rfl rfl
    · rintro h ⟨item, source, target⟩ hm hitem hsource
      obtain rfl : item = r := hitem
      obtain rfl : source = b := hsource
      exact h target hm

/-- Every router keeps an agent, and no more than one if it had one, just when each one has an agent
from which the run does not take it, or takes it without an exception between the two steps. -/
theorem routers_survive_iff (polls : ℕ → Listing) (d : DictOrder) (l : Listing) (c : Cloud) :
    (Survives c.hosts (l3AgentMigrate f o polls c).cloud.hosts ↔
      o.noop = true ∨
      (o.now = false ∧ agentsStayOffline polls (agentDeadIdList (polls 0).agents "L3 agent")
        o.takeover_delay 1 = false) ∨
      ∀ r a, r ∈ c.hosts.items a → ∃ b, r ∈ c.hosts.items b ∧
        (b ∈ agentDeadIdList (polls 0).agents "L3 agent" → ∀ target,
          choice (o.random b r) (agentAliveIdList (polls 0).agents "L3 agent") = some target →
          f.remove ⟨r, b, target⟩ = true ∨ f.add ⟨r, b, target⟩ = false)) ∧
    (Survives c.hosts (l3AgentRebalance f noop d l c).hosts ↔
      noop = true ∨
      ∀ r a, r ∈ c.hosts.items a → ∃ b, r ∈ c.hosts.items b ∧ ∀ low,
        Reached f c.hosts (orderedAgentList d (listAgents l.agents "L3 agent")) low b r →
        f.remove ⟨r, b, low⟩ = true ∨ f.add ⟨r, b, low⟩ = false) :=
  ⟨migrate_survives_iff f o polls c, rebalance_survives_iff f noop d l c⟩

/-- Two agents, the first one offline. -/
def twoAgents : Listing := ⟨[⟨"a1", "L3 agent", false⟩, ⟨"a2", "L3 agent", true⟩], by decide⟩

/-- A router on the first of them. -/
def oneRouter : Cloud where
  hosts := ⟨fun a => if a = "a1" then ["r"] else [], fun a => by
    split
    next => exact List.nodup_singleton "r"
    next => exact List.nodup_nil⟩
  calls := []

def addRaises : Faults String String := ⟨fun _ => false, fun _ => true⟩

def keyOrder : DictOrder := ⟨fun keys => keys, fun keys => List.Perm.refl keys⟩

def migrateNow : Options := ⟨false, true, 30, fun _ _ => 0⟩

/-- The router is removed from its agent, is added to no other, and is lost. -/
theorem oneRouter_lost :
    ¬ Survives oneRouter.hosts
      (l3AgentMigrate addRaises migrateNow (fun _ => twoAgents) oneRouter).cloud.hosts ∧
    ¬ Survives oneRouter.hosts
      (l3AgentRebalance addRaises false keyOrder twoAgents oneRouter).hosts := by
  have hlost : ¬ Survives oneRouter.hosts (addRaises.moveAll [⟨"r", "a1", "a2"⟩]
      oneRouter.hosts) := by
    intro hsurvives
    obtain ⟨b, hb⟩ := hsurvives.somewhere "r" "a1" (by decide)
    have hwhere : "r" ∈ oneRouter.hosts.items b ∧ ¬ (b = "a1" ∧ "r" = "r") :=
      Placement.mem_remove.mp hb
    by_cases ha : b = "a1"
    · exact hwhere.2 ⟨ha, rfl⟩
    · have hnone : oneRouter.hosts.items b = [] := if_neg ha
      rw [hnone] at hwhere
      exact absurd hwhere.1 List.not_mem_nil
  have hmigrate : failoverMoves migrateNow (listed addRaises).list (fun _ => twoAgents)
      oneRouter.hosts =
      [⟨"r", "a1", "a2"⟩] := by
    decide
  have hrebalance : rebalanceMoves addRaises oneRouter.hosts
      (orderedAgentList keyOrder (listAgents twoAgents.agents "L3 agent")) =
        [⟨"r", "a1", "a2"⟩] := by
    decide
  rw [l3AgentMigrate_eq, l3AgentRebalance_eq _ _ (rebalanceRaises_listed _ _), Cloud.moveAll,
    Cloud.moveAll, hmigrate, hrebalance]
  exact ⟨hlost, hlost⟩

end Survival

end CompassAdapters.Neutron
