import CompassAdapters.Neutron.HaTool
import Mathlib.Algebra.GroupWithZero.Nat

/-! `replicate_dhcp` of `neutron-ha-tool.py`: every network is given to every DHCP agent. -/
namespace CompassAdapters.Neutron
open Relocation

/-- Where the API raises: when the networks of an agent are listed, and when one is added to it. -/
structure DhcpFaults where
  list : String → Bool
  add : String → String → Bool

/-- The networks of each agent, and how many were added. -/
structure Replication where
  hosts : Placement String String
  added : ℕ

section Replicate

variable (f : DhcpFaults) (noop : Bool)

/-- The body of the loop over the networks. `network_id_on_agent` was read before the loop. -/
def replicateNetwork (dhcp_agent_id : String) (network_id_on_agent : List String)
    (s : Replication) (network_id : String) : Replication :=
  if network_id ∈ network_id_on_agent then s
  else if noop then { s with added := s.added + 1 }
  else if f.add dhcp_agent_id network_id then s
  else ⟨s.hosts.add dhcp_agent_id network_id, s.added + 1⟩

/-- The loop over the agents. An exception from `list_networks_on_dhcp_agent` is not caught: `false`
for a run that ends so. -/
def replicateAgents (network_id_list : List String) :
    List String → Replication → Replication × Bool
  | [], s => (s, true)
  | dhcp_agent_id :: agents, s =>
    if f.list dhcp_agent_id then (s, false)
    else
      let network_id_on_agent := s.hosts.items dhcp_agent_id
      replicateAgents network_id_list agents
        (network_id_list.foldl (replicateNetwork f noop dhcp_agent_id network_id_on_agent) s)

/-- `network_id_list` are the networks that the API lists. -/
def replicateDhcp (network_id_list : List String) (l : Listing) (hosts : Placement String String) :
    Replication × Bool :=
  replicateAgents f noop network_id_list ((listAgents l.agents "DHCP agent").map Agent.id) ⟨hosts, 0⟩

end Replicate

section Agent

variable {f : DhcpFaults} {noop : Bool} {agent : String} {on_agent networks : List String}
  {s : Replication}

/-- What the networks of an agent are after the loop over the networks. -/
theorem mem_foldl_replicateNetwork {a n : String} :
    n ∈ (networks.foldl (replicateNetwork f noop agent on_agent) s).hosts.items a ↔
      n ∈ s.hosts.items a ∨
        (a = agent ∧ n ∈ networks ∧ n ∉ on_agent ∧ noop = false ∧ f.add agent n = false) := by
  induction networks generalizing s with
  | nil => simp
  | cons network networks ih =>
    have hstep : n ∈ (replicateNetwork f noop agent on_agent s network).hosts.items a ↔
        n ∈ s.hosts.items a ∨ (a = agent ∧ n = network ∧ n ∉ on_agent ∧ noop = false ∧
          f.add agent n = false) := by
      rw [replicateNetwork]
      split
      next hold => exact ⟨Or.inl, fun h => h.elim id fun h => absurd (h.2.1 ▸ hold) h.2.2.1⟩
      next hnew =>
        split
        next hnoop => exact ⟨Or.inl, fun h => h.elim id fun h => absurd hnoop (by simp [h.2.2.2.1])⟩
        next hnoop =>
          split
          next hadd =>
            refine ⟨Or.inl, fun h => h.elim id fun ⟨_, heq, _, _, hpass⟩ => ?_⟩
            rw [heq, hadd] at hpass
            cases hpass
          next hadd =>
            rw [Placement.mem_add]
            refine or_congr_right (and_congr_right fun _ => ⟨?_, fun h => h.1⟩)
            rintro rfl
            exact ⟨rfl, hnew, Bool.eq_false_iff.mpr hnoop, Bool.eq_false_iff.mpr hadd⟩
    rw [List.foldl_cons, ih, hstep, List.mem_cons, or_assoc]
    refine or_congr_right ?_
    rw [← and_or_left, ← or_and_right]

/-- The loop does not touch other agents. -/
theorem foldl_replicateNetwork_items {a : String} (h : a ≠ agent) :
    (networks.foldl (replicateNetwork f noop agent on_agent) s).hosts.items a =
      s.hosts.items a := by
  induction networks generalizing s with
  | nil => rfl
  | cons network networks ih =>
    rw [List.foldl_cons, ih, replicateNetwork]
    split
    next => rfl
    next =>
      split
      next => rfl
      next =>
        split
        next => rfl
        next => exact Function.update_of_ne h _ _

/-- How many networks an agent is said to lack. -/
theorem added_foldl_replicateNetwork :
    (networks.foldl (replicateNetwork f noop agent on_agent) s).added = s.added +
      networks.countP fun n => decide (n ∉ on_agent) && (noop || !f.add agent n) := by
  induction networks generalizing s with
  | nil => rfl
  | cons network networks ih =>
    rw [List.foldl_cons, ih, List.countP_cons, replicateNetwork]
    by_cases hold : network ∈ on_agent
    · simp [hold]
    · cases noop with
      | true => simp [hold, Nat.add_assoc, Nat.add_comm 1]
      | false =>
        cases hadd : f.add agent network with
        | true => simp [hold]
        | false => simp [hold, Nat.add_assoc, Nat.add_comm 1]

/-- Each network that counts as added is one more network of the agent. -/
theorem length_foldl_replicateNetwork (hnoop : noop = false) (hnodup : networks.Nodup)
    (hread : ∀ n ∈ networks, n ∈ s.hosts.items agent → n ∈ on_agent) :
    ((networks.foldl (replicateNetwork f noop agent on_agent) s).hosts.items agent).length +
        s.added =
      (s.hosts.items agent).length +
        (networks.foldl (replicateNetwork f noop agent on_agent) s).added := by
  induction networks generalizing s with
  | nil => rfl
  | cons network networks ih =>
    obtain ⟨hnetwork, hnodup⟩ := List.nodup_cons.mp hnodup
    obtain ⟨hfirst, hread⟩ := List.forall_mem_cons.mp hread
    rw [List.foldl_cons]
    by_cases hold : network ∈ on_agent
    · rw [replicateNetwork, if_pos hold]
      exact ih hnodup hread
    · rw [replicateNetwork, if_neg hold, hnoop, if_neg Bool.false_ne_true]
      split
      next => exact hnoop ▸ ih hnodup hread
      next =>
        have hnew : network ∉ s.hosts.items agent := fun h => hold (hfirst h)
        have hitems : (s.hosts.add agent network).items agent =
            s.hosts.items agent ++ [network] := by
          simp [Placement.add, hnew]
        have hrest := ih (s := ⟨s.hosts.add agent network, s.added + 1⟩) hnodup fun n hn hmem => by
          rcases Placement.mem_add.mp hmem with hmem | ⟨-, rfl⟩
          · exact hread n hn hmem
          · exact absurd hn hnetwork
        simp only [hitems, List.length_append, List.length_singleton] at hrest
        rw [hnoop] at hrest
        omega

end Agent

section Agents

variable {f : DhcpFaults} {noop : Bool} {networks agents : List String} {s : Replication}

/-- The agents that are come to before the networks of one cannot be listed. -/
def reached (f : DhcpFaults) (agents : List String) : List String :=
  agents.takeWhile fun a => !f.list a

theorem mem_replicateAgents {a n : String} :
    n ∈ (replicateAgents f noop networks agents s).1.hosts.items a ↔
      n ∈ s.hosts.items a ∨
        (a ∈ reached f agents ∧ n ∈ networks ∧ noop = false ∧ f.add a n = false) := by
  induction agents generalizing s with
  | nil => simp [replicateAgents, reached]
  | cons agent agents ih =>
    rw [replicateAgents, reached, List.takeWhile_cons]
    cases f.list agent with
    | true => simp
    | false =>
      simp only [Bool.false_eq_true, if_false, Bool.not_false, if_true, List.mem_cons]
      rw [ih, mem_foldl_replicateNetwork, ← reached]
      constructor
      · rintro ((hold | ⟨rfl, hn, -, hnoop, hadd⟩) | ⟨ha, hrest⟩)
        · exact Or.inl hold
        · exact Or.inr ⟨Or.inl rfl, hn, hnoop, hadd⟩
        · exact Or.inr ⟨Or.inr ha, hrest⟩
      · rintro (hold | ⟨rfl | ha, hn, hnoop, hadd⟩)
        · exact Or.inl (Or.inl hold)
        · by_cases hold : n ∈ s.hosts.items a
          · exact Or.inl (Or.inl hold)
          · exact Or.inl (Or.inr ⟨rfl, hn, hold, hnoop, hadd⟩)
        · exact Or.inr ⟨ha, hn, hnoop, hadd⟩

theorem replicateAgents_items {a : String} (h : a ∉ agents) :
    (replicateAgents f noop networks agents s).1.hosts.items a = s.hosts.items a := by
  induction agents generalizing s with
  | nil => rfl
  | cons agent agents ih =>
    obtain ⟨hne, h⟩ := List.ne_and_not_mem_of_not_mem_cons h
    rw [replicateAgents]
    split
    next => rfl
    next => exact (ih h).trans (foldl_replicateNetwork_items hne)

/-- How many networks an agent lacks. In a run that is not dry, those count that are added without an
exception. -/
def missing (f : DhcpFaults) (noop : Bool) (networks : List String)
    (hosts : Placement String String) (agent : String) : ℕ :=
  networks.countP fun n => decide (n ∉ hosts.items agent) && (noop || !f.add agent n)

theorem added_replicateAgents (hnodup : agents.Nodup) :
    (replicateAgents f noop networks agents s).1.added =
      s.added + ((reached f agents).map (missing f noop networks s.hosts)).sum := by
  induction agents generalizing s with
  | nil => rfl
  | cons agent agents ih =>
    obtain ⟨hagent, hnodup⟩ := List.nodup_cons.mp hnodup
    rw [replicateAgents, reached, List.takeWhile_cons]
    cases f.list agent with
    | true => simp
    | false =>
      simp only [Bool.false_eq_true, if_false, Bool.not_false, if_true, List.map_cons,
        List.sum_cons]
      rw [ih hnodup, added_foldl_replicateNetwork, ← reached, ← missing, Nat.add_assoc]
      congr 2
      refine congrArg List.sum (List.map_congr_left fun a ha => ?_)
      have hne : a ≠ agent := by
        rintro rfl
        exact hagent (List.takeWhile_sublist _ |>.subset ha)
      rw [missing, missing, foldl_replicateNetwork_items hne]

theorem length_replicateAgents (hnoop : noop = false) (hnetworks : networks.Nodup)
    (hnodup : agents.Nodup) :
    (agents.map fun a =>
        ((replicateAgents f noop networks agents s).1.hosts.items a).length).sum + s.added =
      (agents.map fun a => (s.hosts.items a).length).sum +
        (replicateAgents f noop networks agents s).1.added := by
  induction agents generalizing s with
  | nil => simp [replicateAgents]
  | cons agent agents ih =>
    obtain ⟨hagent, hnodup⟩ := List.nodup_cons.mp hnodup
    rw [replicateAgents]
    split
    next => rfl
    next =>
      have hfirst := @length_foldl_replicateNetwork f noop agent (s.hosts.items agent) networks s
        hnoop hnetworks fun n _ hn => hn
      have hrest := ih (s := networks.foldl
        (replicateNetwork f noop agent (s.hosts.items agent)) s) hnodup
      have hsame : (agents.map fun a => ((networks.foldl
          (replicateNetwork f noop agent (s.hosts.items agent)) s).hosts.items a).length) =
          agents.map fun a => (s.hosts.items a).length := by
        refine List.map_congr_left fun a ha => ?_
        have hne : a ≠ agent := by
          rintro rfl
          exact hagent ha
        rw [foldl_replicateNetwork_items hne]
      rw [hsame] at hrest
      simp only [List.map_cons, List.sum_cons]
      rw [replicateAgents_items hagent]
      omega

end Agents

/-- A run of the tool: whether it is a dry one, what the API lists, and where it raises. -/
structure Round where
  noop : Bool
  networks : List String
  agents : Listing
  faults : DhcpFaults

/-- The DHCP agents that a run comes to. -/
def Round.reached (r : Round) : List String :=
  Neutron.reached r.faults ((listAgents r.agents.agents "DHCP agent").map Agent.id)

def Round.replicate (hosts : Placement String String) (r : Round) : Placement String String :=
  (replicateDhcp r.faults r.noop r.networks r.agents hosts).1.hosts

/-- After any number of runs an agent has just the networks that it had, and those that one of the
runs that are not dry listed, without an exception for the pair and for the agents before. -/
theorem replicated_iff (rounds : List Round) (hosts : Placement String String) (a n : String) :
    n ∈ (rounds.foldl Round.replicate hosts).items a ↔
      n ∈ hosts.items a ∨
        ∃ r ∈ rounds, r.noop = false ∧ a ∈ r.reached ∧ n ∈ r.networks ∧
          r.faults.add a n = false := by
  induction rounds generalizing hosts with
  | nil => simp
  | cons r rounds ih =>
    have hfirst : n ∈ (r.replicate hosts).items a ↔ n ∈ hosts.items a ∨
        (a ∈ r.reached ∧ n ∈ r.networks ∧ r.noop = false ∧ r.faults.add a n = false) :=
      mem_replicateAgents
    rw [List.foldl_cons, ih, hfirst]
    constructor
    · rintro ((hold | ⟨ha, hn, hnoop, hadd⟩) | ⟨r', hr', hrest⟩)
      · exact Or.inl hold
      · exact Or.inr ⟨r, List.mem_cons_self, hnoop, ha, hn, hadd⟩
      · exact Or.inr ⟨r', List.mem_cons_of_mem r hr', hrest⟩
    · rintro (hold | ⟨r', hr', hnoop, ha, hn, hadd⟩)
      · exact Or.inl (Or.inl hold)
      · rcases List.mem_cons.mp hr' with rfl | hr'
        · exact Or.inl (Or.inr ⟨ha, hn, hnoop, hadd⟩)
        · exact Or.inr ⟨r', hr', hnoop, ha, hn, hadd⟩

/-- The number that is reported is that of the networks that agents have more than before, and a dry
run reports the one of a run without an exception from `add_network_to_dhcp_agent`. -/
theorem replicated_count (f : DhcpFaults) (networks : List String) (l : Listing)
    (hosts : Placement String String) (hnetworks : networks.Nodup) :
    (((listAgents l.agents "DHCP agent").map fun a =>
        ((replicateDhcp f false networks l hosts).1.hosts.items a.id).length).sum =
      ((listAgents l.agents "DHCP agent").map fun a => (hosts.items a.id).length).sum +
        (replicateDhcp f false networks l hosts).1.added) ∧
    (replicateDhcp f true networks l hosts).1.added =
      (replicateDhcp ⟨f.list, fun _ _ => false⟩ false networks l hosts).1.added := by
  have hnodup : ((listAgents l.agents "DHCP agent").map Agent.id).Nodup :=
    l.nodup.sublist (List.filter_sublist.map Agent.id)
  constructor
  · have hcount := length_replicateAgents (f := f) (s := ⟨hosts, 0⟩) rfl hnetworks hnodup
    rw [List.map_map, List.map_map, Nat.add_zero] at hcount
    exact hcount
  · have hmissing : missing f true networks hosts =
        missing ⟨f.list, fun _ _ => false⟩ false networks hosts := by
      funext a
      simp [missing]
    rw [replicateDhcp, replicateDhcp, added_replicateAgents hnodup, added_replicateAgents hnodup,
      hmissing]
    rfl

/-- One of two networks cannot be added. -/
theorem replicated_count_oneRaises :
    ["n1", "n2"].Nodup ∧
    (replicateDhcp ⟨fun _ => false, fun _ n => n == "n2"⟩ false ["n1", "n2"]
      ⟨[⟨"d", "DHCP agent", true⟩], by decide⟩ ⟨fun _ => [], fun _ => List.nodup_nil⟩).1.added =
        1 := by
  have hcount := (replicated_count ⟨fun _ => false, fun _ n => n == "n2"⟩ ["n1", "n2"]
    ⟨[⟨"d", "DHCP agent", true⟩], by decide⟩ ⟨fun _ => [], fun _ => List.nodup_nil⟩ (by decide)).1
  exact ⟨by decide, by simpa using hcount.symm.trans (by decide)⟩

end CompassAdapters.Neutron
