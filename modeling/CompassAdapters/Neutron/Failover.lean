import CompassAdapters.Neutron.Migration

/-! Which agents a failover moves routers from and to, when agents die and recover while it
waits. -/
namespace CompassAdapters.Neutron
open Relocation

variable {f : Faults String String} {polls : ℕ → Listing}

/-- The agents that an answer reports offline. -/
def Listing.dead (l : Listing) : List String := agentDeadIdList l.agents "L3 agent"

def Listing.alive (l : Listing) : List String := agentAliveIdList l.agents "L3 agent"

/-- Every router is moved off an agent that the last answer does not report alive, onto one that it
does not report offline. -/
def OntoAlive (last : Listing) (calls : List Migration) : Prop :=
  ∀ m ∈ calls, m.source ∉ last.alive ∧ m.target ∉ last.dead

/-- The loop that waits compares numbers of agents only. -/
theorem agentsStayOffline_iff (agent_dead_list : List String) (seconds poll : ℕ) :
    agentsStayOffline polls agent_dead_list seconds poll = true ↔
      ∀ k < seconds, agent_dead_list.length ≤ (polls (poll + k)).dead.length := by
  induction seconds generalizing poll with
  | zero => simp [agentsStayOffline]
  | succ seconds ih =>
    rw [agentsStayOffline]
    constructor
    · intro h k hk
      split at h
      next => cases h
      next hle =>
        rcases k with - | k
        · exact not_lt.mp hle
        · have hnext : poll + (k + 1) = poll + 1 + k := by omega
          rw [hnext]
          exact (ih (poll + 1)).mp h k (by omega)
    · intro h
      have hfirst : agent_dead_list.length ≤
          (agentDeadIdList (polls poll).agents "L3 agent").length := h 0 (Nat.succ_pos seconds)
      rw [if_neg (not_lt.mpr hfirst), ih]
      intro k hk
      have hnext : poll + 1 + k = poll + (k + 1) := by omega
      rw [hnext]
      exact h (k + 1) (by omega)

/-- Each element may be drawn. -/
theorem exists_choice {xs : List String} {x : String} (h : x ∈ xs) :
    ∃ random, choice random xs = some x := by
  obtain ⟨n, hn, rfl⟩ := List.getElem_of_mem h
  exact ⟨n, by rw [choice, Nat.mod_eq_of_lt hn, List.getElem?_eq_getElem hn]⟩

/-- The migrations of a failover that waits or not. -/
theorem mem_failoverMoves_iff {o : Options} {p : Placement String String}
    {list : String → Bool} {m : Migration} : m ∈ failoverMoves o list polls p ↔
      o.noop = false ∧
      (o.now = true ∨ agentsStayOffline polls (polls 0).dead o.takeover_delay 1 = true) ∧
      m.source ∈ (polls 0).dead.takeWhile (fun a => !list a) ∧ m.item ∈ p.items m.source ∧
      choice (o.random m.source m.item) (polls 0).alive = some m.target := by
  have hstay : ¬ (!o.now && !agentsStayOffline polls
      (agentDeadIdList (polls 0).agents "L3 agent") o.takeover_delay 1) = true ↔
      (o.now = true ∨ agentsStayOffline polls (polls 0).dead o.takeover_delay 1 = true) := by
    rw [← Listing.dead, Bool.and_eq_true, Bool.not_eq_true', Bool.not_eq_true', not_and_or,
      Bool.not_eq_false, Bool.not_eq_false]
  rw [failoverMoves, ← hstay]
  split
  next hnoop => simp [hnoop]
  next hnoop =>
    split
    next hexit => simp [hexit]
    next hexit =>
      rw [List.mem_flatMap]
      constructor
      · rintro ⟨agent, hagent, hm⟩
        obtain ⟨rfl, hitem, htarget⟩ := mem_agentMoves.mp hm
        exact ⟨Bool.eq_false_iff.mpr hnoop, hexit, hagent, hitem, htarget⟩
      · rintro ⟨-, -, hsource, hitem, htarget⟩
        exact ⟨m.source, hsource, mem_agentMoves.mpr ⟨rfl, hitem, htarget⟩⟩

theorem mem_failoverMoves {noop : Bool} {takeover_delay : ℕ} {random : String → String → ℕ}
    {p : Placement String String} {m : Migration} :
    m ∈ failoverMoves ⟨noop, false, takeover_delay, random⟩ (listed f).list polls p ↔
      noop = false ∧
      (∀ k, 1 ≤ k → k ≤ takeover_delay → (polls 0).dead.length ≤ (polls k).dead.length) ∧
      m.source ∈ (polls 0).dead ∧ m.item ∈ p.items m.source ∧
      choice (random m.source m.item) (polls 0).alive = some m.target := by
  have hstay : agentsStayOffline polls (polls 0).dead takeover_delay 1 = true ↔
      ∀ k, 1 ≤ k → k ≤ takeover_delay → (polls 0).dead.length ≤ (polls k).dead.length := by
    rw [agentsStayOffline_iff]
    constructor
    · intro h k hk hle
      obtain ⟨k, rfl⟩ := Nat.exists_eq_add_of_le hk
      exact h k (by omega)
    · intro h k hk
      exact h (1 + k) (by omega) (by omega)
  rw [mem_failoverMoves_iff, takeWhile_listed, ← hstay, or_iff_right Bool.false_ne_true]

/-- Whatever targets are drawn, a run that waits moves routers from agents still offline to agents
still alive only, just when it moves nothing, or the agents with routers that were offline at first
are not alive in the end and the agents alive at first are not offline in the end. -/
theorem failover_iff (f : Faults String String) (noop : Bool) (takeover_delay : ℕ)
    (polls : ℕ → Listing) (hosts : Placement String String) :
    (∀ random, OntoAlive (polls takeover_delay)
      (l3AgentMigrate f ⟨noop, false, takeover_delay, random⟩ polls ⟨hosts, []⟩).cloud.calls) ↔
    noop = true ∨
    (∃ k, 1 ≤ k ∧ k ≤ takeover_delay ∧ (polls k).dead.length < (polls 0).dead.length) ∨
    (polls 0).alive = [] ∨ (∀ a ∈ (polls 0).dead, hosts.items a = []) ∨
    ((∀ a ∈ (polls 0).dead, hosts.items a ≠ [] → a ∉ (polls takeover_delay).alive) ∧
      ∀ a ∈ (polls 0).alive, a ∉ (polls takeover_delay).dead) := by
  simp only [l3AgentMigrate_eq, Cloud.moveAll, List.nil_append]
  constructor
  · intro h
    by_contra hnot
    push Not at hnot
    obtain ⟨hnot, hstay, halive, ⟨a, ha, hrouters⟩, hagents⟩ := hnot
    have hnoop : noop = false := Bool.eq_false_iff.mpr hnot
    have honto (random : String → String → ℕ) {m : Migration} (hsource : m.source ∈ (polls 0).dead)
        (hitem : m.item ∈ hosts.items m.source)
        (htarget : choice (random m.source m.item) (polls 0).alive = some m.target) :
        m.source ∉ (polls takeover_delay).alive ∧ m.target ∉ (polls takeover_delay).dead :=
      h random m (mem_failoverMoves.mpr ⟨hnoop, hstay, hsource, hitem, htarget⟩)
    by_cases hback : ∀ b ∈ (polls 0).dead, hosts.items b ≠ [] → b ∉ (polls takeover_delay).alive
    · obtain ⟨t, ht, hdead⟩ := hagents hback
      obtain ⟨r, hr⟩ := List.exists_mem_of_ne_nil _ hrouters
      obtain ⟨random, htarget⟩ := exists_choice ht
      exact (honto (fun _ _ => random) (m := ⟨r, a, t⟩) ha hr htarget).2 hdead
    · push Not at hback
      obtain ⟨b, hb, hrouters, halive'⟩ := hback
      obtain ⟨r, hr⟩ := List.exists_mem_of_ne_nil _ hrouters
      obtain ⟨t, htarget⟩ := choice_isSome halive 0
      exact (honto (fun _ _ => 0) (m := ⟨r, b, t⟩) hb hr htarget).1 halive'
  · intro h random m hm
    obtain ⟨hnoop, hstay, hsource, hitem, htarget⟩ := mem_failoverMoves.mp hm
    rcases h with rfl | ⟨k, hk, hle, hlt⟩ | hnone | hnone | ⟨hdead, halive⟩
    · cases hnoop
    · exact absurd (hstay k hk hle) (not_le.mpr hlt)
    · rw [hnone] at htarget
      cases htarget
    · rw [hnone _ hsource] at hitem
      cases hitem
    · exact ⟨hdead _ hsource (List.ne_nil_of_mem hitem), halive _ (choice_mem htarget)⟩

/-- The first agent recovers and the second one dies while the run waits. -/
def changingAgents : ℕ → Listing
  | 0 => twoAgents
  | _ + 1 => ⟨[⟨"a1", "L3 agent", true⟩, ⟨"a2", "L3 agent", false⟩], by decide⟩

def noFaults : Faults String String := ⟨fun _ => false, fun _ => false⟩

/-- The router is moved from the agent that came back to the one that is gone. -/
theorem changingAgents_not_ontoAlive :
    ¬ OntoAlive (changingAgents 30)
      (l3AgentMigrate noFaults ⟨false, false, 30, fun _ _ => 0⟩ changingAgents
        oneRouter).cloud.calls := by
  intro h
  have hcall : (⟨"r", "a1", "a2"⟩ : Migration) ∈ (l3AgentMigrate noFaults
      ⟨false, false, 30, fun _ _ => 0⟩ changingAgents oneRouter).cloud.calls := by
    decide
  exact (h _ hcall).1 (by decide)

end CompassAdapters.Neutron
