import CompassAdapters.Relocation.Moves
import Mathlib.Data.List.Sort

/-! `neutron-ha-tool.py`: routers are migrated from agents that are offline, or from agents with
many routers to agents with few. The program runs under Python 2. -/
namespace CompassAdapters.Neutron
open Relocation

/-- What the program reads of an agent. -/
structure Agent where
  id : String
  agent_type : String
  alive : Bool
  deriving DecidableEq, Repr

/-- An answer of the API; the identifiers of agents are unique. -/
structure Listing where
  agents : List Agent
  nodup : (agents.map Agent.id).Nodup

def agentAliveIdList (agent_list : List Agent) (agent_type : String) : List String :=
  (agent_list.filter fun agent => agent.agent_type == agent_type && agent.alive).map Agent.id

def agentDeadIdList (agent_list : List Agent) (agent_type : String) : List String :=
  (agent_list.filter fun agent => agent.agent_type == agent_type && !agent.alive).map Agent.id

/-- `list_agents` with an agent type. -/
def listAgents (agents : List Agent) (agent_type : String) : List Agent :=
  agents.filter fun agent => agent.agent_type == agent_type

/-- A call of `migrate_router` with the router, its agent and the target. -/
abbrev Migration := Move String String

/-- The routers of each agent, and the calls of `migrate_router` so far. -/
structure Cloud where
  hosts : Placement String String
  calls : List Migration

/-- Where the API raises: `remove` and `add` are the two calls of a migration, `removed` and `added`
the listings that are read after them, and `list` the listing of the routers of an agent. -/
structure ApiFaults extends Faults String String where
  removed : Migration → Bool
  added : Migration → Bool
  list : String → Bool

/-- No listing raises. -/
def listed (f : Faults String String) : ApiFaults :=
  ⟨f, fun _ => false, fun _ => false, fun _ => false⟩

@[simp] theorem listed_list (f : Faults String String) (a : String) : (listed f).list a = false :=
  rfl

instance coeFaults : Coe (Faults String String) ApiFaults := ⟨listed⟩

/-- What a migration does before it raises. -/
def ApiFaults.steps (f : ApiFaults) : Faults String String :=
  ⟨f.remove, fun m => f.removed m || f.add m⟩

/-- A migration raises nothing. -/
def ApiFaults.returns (f : ApiFaults) (m : Migration) : Bool := !f.added m && f.steps.passes m

/-- `remove_router_from_l3_agent` and `add_router_to_l3_agent`, with a listing after each, which is
only logged. `true` when nothing is raised. -/
def migrateRouter (f : ApiFaults) (m : Migration) (c : Cloud) : Cloud × Bool :=
  let c := { c with calls := c.calls ++ [m] }
  if f.remove m then (c, false)
  else
    let c := { c with hosts := c.hosts.remove m.source m.item }
    if f.removed m then (c, false)
    else if f.add m then (c, false)
    else
      let c := { c with hosts := c.hosts.add m.target m.item }
      (c, !f.added m)

section Rebalance

/-- The order in which a dictionary with some keys lists its items. -/
structure DictOrder where
  items : List String → List String
  perm : ∀ keys, (items keys).Perm keys

variable (f : ApiFaults) (noop : Bool)

/-- The loop over the routers of `hgh_agent_id`. -/
def rebalancePair (low_agent_id hgh_agent_id : String) : List String → ℕ → ℕ → Cloud → Cloud
  | [], _, _, c => c
  | router_id :: routers, low_agent_router_count, hgh_agent_router_count, c =>
    if low_agent_router_count ≥ hgh_agent_router_count then c
    else if noop then
      rebalancePair low_agent_id hgh_agent_id routers (low_agent_router_count + 1)
        (hgh_agent_router_count - 1) c
    else
      let (c, ok) := migrateRouter f ⟨router_id, hgh_agent_id, low_agent_id⟩ c
      if ok then
        rebalancePair low_agent_id hgh_agent_id routers (low_agent_router_count + 1)
          (hgh_agent_router_count - 1) c
      else
        rebalancePair low_agent_id hgh_agent_id routers low_agent_router_count
          hgh_agent_router_count c

/-- The loop over `ordered_l3_agent_list[0:num_agents-1/2]`, where `1/2` is 0: as many rounds as
there are agents. A round with one agent on both sides does not count `i` up. -/
def rebalanceAgents (l3_agent_dict : String → List String) (ordered_l3_agent_list : List String) :
    ℕ → ℕ → Cloud → Cloud
  | 0, _, c => c
  | rounds + 1, i, c =>
    let low_agent_id := ordered_l3_agent_list.getD i ""
    let hgh_agent_id := ordered_l3_agent_list.getD (ordered_l3_agent_list.length - (i + 1)) ""
    if low_agent_id = hgh_agent_id then
      rebalanceAgents l3_agent_dict ordered_l3_agent_list rounds i c
    else
      rebalanceAgents l3_agent_dict ordered_l3_agent_list rounds (i + 1)
        (rebalancePair f noop low_agent_id hgh_agent_id (l3_agent_dict hgh_agent_id)
          (l3_agent_dict low_agent_id).length (l3_agent_dict hgh_agent_id).length c)

/-- The agents are ordered by the length of their identifiers. -/
def orderedAgentList (d : DictOrder) (agents : List Agent) : List String :=
  (d.items (agents.map Agent.id)).insertionSort fun a b => a.length ≤ b.length

/-- An exception leaves the function before anything is moved. -/
def rebalanceRaises (l : Listing) : Bool :=
  let agents := listAgents l.agents "L3 agent"
  !decide (agents.length ≤ 1) && agents.any fun agent => f.list agent.id

def l3AgentRebalance (d : DictOrder) (l : Listing) (c : Cloud) : Cloud :=
  let agents := listAgents l.agents "L3 agent"
  if agents.length ≤ 1 then c
  else if agents.any fun agent => f.list agent.id then c
  else
    let l3_agent_dict := c.hosts.items
    let ordered_l3_agent_list := orderedAgentList d agents
    rebalanceAgents f noop l3_agent_dict ordered_l3_agent_list ordered_l3_agent_list.length 0 c

end Rebalance

section Migrate

/-- `random.choice`, which raises an `IndexError` for the empty list. -/
def choice (random : ℕ) (xs : List String) : Option String := xs[random % xs.length]?

/-- How a run ends. -/
inductive Ending
  | returned
  | exited (code : ℕ)
  | indexError
  | listError
  deriving DecidableEq, Repr

/-- The state of the loops over the agents that are offline. -/
structure Progress where
  cloud : Cloud
  migration_count : ℕ
  ending : Ending

/-- The loop that waits: `false` when an answer lists fewer agents offline than the first one. -/
def agentsStayOffline (polls : ℕ → Listing) (agent_dead_list : List String) : ℕ → ℕ → Bool
  | 0, _ => true
  | seconds + 1, poll =>
    if (agentDeadIdList (polls poll).agents "L3 agent").length < agent_dead_list.length then false
    else agentsStayOffline polls agent_dead_list seconds (poll + 1)

/-- `random` is what is drawn for a router of an agent. -/
structure Options where
  noop : Bool
  now : Bool
  takeover_delay : ℕ
  random : String → String → ℕ

variable (f : ApiFaults) (o : Options)

/-- The body of the loop over the routers of an agent. -/
def migrateRouterAway (agent_alive_list : List String) (agent_id : String) (p : Progress)
    (router_id : String) : Progress :=
  if p.ending ≠ .returned then p
  else
    match choice (o.random agent_id router_id) agent_alive_list with
    | none => { p with ending := .indexError }
    | some target_id =>
      if o.noop then p
      else
        let (cloud, ok) := migrateRouter f ⟨router_id, agent_id, target_id⟩ p.cloud
        { p with
          cloud
          migration_count := if ok then p.migration_count + 1 else p.migration_count }

/-- The body of the loop over the agents that are offline. -/
def migrateAgentAway (agent_alive_list : List String) (p : Progress) (agent_id : String) :
    Progress :=
  if p.ending ≠ .returned then p
  else if f.list agent_id then { p with ending := .listError }
  else (p.cloud.hosts.items agent_id).foldl (migrateRouterAway f o agent_alive_list agent_id) p

/-- `polls` are the answers to the calls of `list_agents`, one after another. -/
def l3AgentMigrate (polls : ℕ → Listing) (c : Cloud) : Progress :=
  let agent_list := (polls 0).agents
  let agent_dead_list := agentDeadIdList agent_list "L3 agent"
  let agent_alive_list := agentAliveIdList agent_list "L3 agent"
  if agent_dead_list.length > 0 then
    if !o.now && !agentsStayOffline polls agent_dead_list o.takeover_delay 1 then
      ⟨c, 0, .exited 0⟩
    else agent_dead_list.foldl (migrateAgentAway f o agent_alive_list) ⟨c, 0, .returned⟩
  else ⟨c, 0, .returned⟩

end Migrate

end CompassAdapters.Neutron
