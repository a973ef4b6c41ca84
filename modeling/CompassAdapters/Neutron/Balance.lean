import CompassAdapters.Neutron.Failover
import CompassAdapters.Relocation.Counts
import Mathlib.Data.Finset.Max
import Mathlib.Data.Finset.Range

/-! How many routers each agent has after `l3_agent_rebalance`. -/
namespace CompassAdapters.Neutron
open Relocation

section Indices

variable (f : ApiFaults) (noop : Bool)

/-- `ordered_l3_agent_list[-(i+1)]`, `none` for an `IndexError`. -/
def fromEnd (ordered_l3_agent_list : List String) (i : ℕ) : Option String :=
  if i + 1 ≤ ordered_l3_agent_list.length then
    ordered_l3_agent_list[ordered_l3_agent_list.length - (i + 1)]?
  else none

/-- `rebalanceAgents` with the `IndexError` that a place outside of the list raises. -/
def rebalanceAgents? (l3_agent_dict : String → List String) (ordered_l3_agent_list : List String) :
    ℕ → ℕ → Cloud → Option Cloud
  | 0, _, c => some c
  | rounds + 1, i, c => do
    let low_agent_id ← ordered_l3_agent_list[i]?
    let hgh_agent_id ← fromEnd ordered_l3_agent_list i
    if low_agent_id = hgh_agent_id then
      rebalanceAgents? l3_agent_dict ordered_l3_agent_list rounds i c
    else
      rebalanceAgents? l3_agent_dict ordered_l3_agent_list rounds (i + 1)
        (rebalancePair f noop low_agent_id hgh_agent_id (l3_agent_dict hgh_agent_id)
          (l3_agent_dict low_agent_id).length (l3_agent_dict hgh_agent_id).length c)

/-- `l3AgentRebalance`, with `none` for an `IndexError`. -/
def l3AgentRebalance? (d : DictOrder) (l : Listing) (c : Cloud) : Option Cloud :=
  let agents := listAgents l.agents "L3 agent"
  if agents.length ≤ 1 then some c
  else if agents.any fun agent => f.list agent.id then some c
  else
    let l3_agent_dict := c.hosts.items
    let ordered_l3_agent_list := orderedAgentList d agents
    rebalanceAgents? f noop l3_agent_dict ordered_l3_agent_list ordered_l3_agent_list.length 0 c

variable {f noop}

/-- No round is later than the last place of the list. -/
theorem rebalanceAgents?_eq {l3_agent_dict : String → List String} {ordered : List String}
    {rounds i : ℕ} (h : i + rounds ≤ ordered.length) (c : Cloud) :
    rebalanceAgents? f noop l3_agent_dict ordered rounds i c =
      some (rebalanceAgents f noop l3_agent_dict ordered rounds i c) := by
  induction rounds generalizing i c with
  | zero => rfl
  | succ rounds ih =>
    have hi : i < ordered.length := by omega
    have hend : ordered.length - (i + 1) < ordered.length := by omega
    have hlow : ordered[i]? = some (ordered.getD i "") := by
      rw [List.getElem?_eq_getElem hi, List.getD_eq_getElem _ _ hi]
    have hhgh : fromEnd ordered i = some (ordered.getD (ordered.length - (i + 1)) "") := by
      rw [fromEnd, if_pos (by omega), List.getElem?_eq_getElem hend,
        List.getD_eq_getElem _ _ hend]
    rw [rebalanceAgents?, rebalanceAgents, hlow, hhgh]
    show (if _ then _ else _) = some (if _ then _ else _)
    split
    next => exact ih (by omega) c
    next => exact ih (by omega) _

theorem l3AgentRebalance?_eq (d : DictOrder) (l : Listing) (c : Cloud) :
    l3AgentRebalance? f noop d l c = some (l3AgentRebalance f noop d l c) := by
  rw [l3AgentRebalance?, l3AgentRebalance]
  simp only
  split
  next => rfl
  next =>
    split
    next => rfl
    next => exact rebalanceAgents?_eq (by omega) c

end Indices

section Counts

/-- The routers of an agent. -/
def Cloud.count (c : Cloud) (agent : String) : ℕ := (c.hosts.items agent).length

variable {ordered : List String} {c : Cloud} {i k : ℕ}

theorem hghAgent_eq (i : ℕ) : hghAgent ordered i = lowAgent ordered (ordered.length - (i + 1)) :=
  rfl

theorem returns_noFaults (m : Migration) : (listed noFaults).returns m = true := rfl

/-- How many routers the loop over a pair migrates: half of the difference, rounded up. -/
theorem length_pairMoves {low hgh : String} {low_count hgh_count : ℕ} {routers : List String}
    (h : (hgh_count - low_count + 1) / 2 ≤ routers.length) :
    (pairMoves noFaults low hgh low_count hgh_count routers).length =
      (hgh_count - low_count + 1) / 2 := by
  induction routers generalizing low_count hgh_count with
  | nil =>
    rw [List.length_nil, Nat.le_zero] at h
    rw [h]
    rfl
  | cons router routers ih =>
    rw [pairMoves_cons]
    split
    next => rw [List.length_nil]; omega
    next =>
      rw [List.length_cons] at h
      rw [if_pos (returns_noFaults _), List.length_cons, ih (by omega)]
      omega

variable (ordered c) in
/-- How many routers a round migrates. -/
def transferred (i : ℕ) : ℕ :=
  (c.count (hghAgent ordered i) - c.count (lowAgent ordered i) + 1) / 2

theorem length_roundMoves (i : ℕ) :
    (roundMoves noFaults c.hosts ordered i).length = transferred ordered c i := by
  refine length_pairMoves ?_
  omega

/-- Only one part counts. -/
theorem countP_flatMap_range {α : Type*} {q : α → Bool} {g : ℕ → List α} {j n : ℕ}
    (h : ∀ i < n, i ≠ j → (g i).countP q = 0) :
    ((List.range n).flatMap g).countP q = if j < n then (g j).countP q else 0 := by
  induction n with
  | zero => rfl
  | succ n ih =>
    rw [List.range_succ, List.flatMap_append, List.countP_append, List.flatMap_singleton,
      ih fun i hi => h i (by omega)]
    by_cases hj : n = j
    · subst hj
      rw [if_neg (lt_irrefl n), if_pos (Nat.lt_succ_self n), Nat.zero_add]
    · have hlt : j < n ↔ j < n + 1 := by omega
      rw [h n (Nat.lt_succ_self n) hj, Nat.add_zero, if_congr hlt rfl rfl]

/-- The moves of one round, when `side` names the agent of that round on one side of a move. -/
theorem countP_rebalanceMoves (side : Migration → String) (agent : ℕ → String) {j : ℕ}
    (hside : ∀ i, ∀ m ∈ roundMoves noFaults c.hosts ordered i, side m = agent i)
    (hinj : ∀ i < comparedRounds ordered.length, agent i = agent j → i = j) :
    (rebalanceMoves noFaults c.hosts ordered).countP (fun m => side m = agent j) =
      if j < comparedRounds ordered.length then transferred ordered c j else 0 := by
  have hothers : ∀ i < comparedRounds ordered.length, i ≠ j →
      (roundMoves noFaults c.hosts ordered i).countP (fun m => side m = agent j) = 0 := by
    intro i hi hne
    refine List.countP_eq_zero.mpr fun m hm => ?_
    rw [decide_eq_true_eq, hside i m hm]
    exact fun heq => hne (hinj i hi heq)
  have hround : (roundMoves noFaults c.hosts ordered j).countP (fun m => side m = agent j) =
      transferred ordered c j := by
    rw [← length_roundMoves, List.countP_eq_length]
    intro m hm
    exact decide_eq_true (hside j m hm)
  rw [rebalanceMoves, countP_flatMap_range hothers, hround]

theorem pairMoves_items_sublist (f : ApiFaults) (low hgh : String)
    (low_count hgh_count : ℕ) (routers : List String) :
    ((pairMoves f low hgh low_count hgh_count routers).map Move.item).Sublist routers := by
  have hsub := (List.filter_sublist (p := fun x => decide
    (low_count + 2 * migrated f low hgh (routers.take x.2) < hgh_count))
      (l := routers.zipIdx)).map Prod.fst
  rw [List.zipIdx_map_fst] at hsub
  rw [pairMoves, List.map_map]
  exact hsub

theorem mem_roundMoves {m : Migration} (hm : m ∈ roundMoves noFaults c.hosts ordered i) :
    m.source = hghAgent ordered i ∧ m.target = lowAgent ordered i ∧
      m.item ∈ c.hosts.items (hghAgent ordered i) := by
  obtain ⟨hsource, htarget, j, hget, -⟩ := mem_pairMoves.mp hm
  exact ⟨hsource, htarget, List.mem_of_getElem? hget⟩

variable (hnodup : ordered.Nodup)
include hnodup

theorem lowAgent_inj (hi : i < ordered.length) (hk : k < ordered.length) :
    lowAgent ordered i = lowAgent ordered k ↔ i = k := by
  rw [lowAgent, lowAgent, List.getD_eq_getElem _ _ hi, List.getD_eq_getElem _ _ hk]
  exact hnodup.getElem_inj_iff

theorem hghAgent_inj (hi : i < ordered.length) (hk : k < ordered.length) :
    hghAgent ordered i = hghAgent ordered k ↔ i = k := by
  rw [hghAgent_eq, hghAgent_eq, lowAgent_inj hnodup (by omega) (by omega)]
  omega

/-- A pair is visited twice, but routers go one way only. -/
theorem rebalanceMoves_single (hapart : c.hosts.Apart) :
    Single noFaults c.hosts (rebalanceMoves noFaults c.hosts ordered) where
  passes _ _ := rfl
  items := by
    rw [rebalanceMoves, List.map_flatMap, List.nodup_flatMap]
    constructor
    · intro i _
      exact (c.hosts.nodup _).sublist (pairMoves_items_sublist _ _ _ _ _ _)
    · refine List.nodup_range.imp_of_mem fun {i j} hi hj hne => ?_
      have hle := comparedRounds_le ordered.length
      rw [List.mem_range] at hi hj
      intro r hr hr'
      obtain ⟨m, hm, rfl⟩ := List.mem_map.mp hr
      obtain ⟨m', hm', hitem⟩ := List.mem_map.mp hr'
      have hplace := (mem_roundMoves hm).2.2
      have hplace' := (mem_roundMoves hm').2.2
      rw [hitem] at hplace'
      exact hne ((hghAgent_inj hnodup (by omega) (by omega)).mp (hapart _ _ _ hplace hplace'))
  present := (rebalanceMoves_valid hnodup).present
  away m hm heq := (rebalanceMoves_valid hnodup).separate m hm m hm rfl heq.symm

/-- What an agent has in the end: what its round brings, and what the round of its partner
takes. -/
theorem count_moveAll (hapart : c.hosts.Apart) (hk : k < ordered.length) :
    (c.moveAll noFaults (rebalanceMoves noFaults c.hosts ordered)).count (lowAgent ordered k) +
        (if ordered.length - (k + 1) < comparedRounds ordered.length then
          transferred ordered c (ordered.length - (k + 1)) else 0) =
      c.count (lowAgent ordered k) +
        (if k < comparedRounds ordered.length then transferred ordered c k else 0) := by
  have hle := comparedRounds_le ordered.length
  have hlength := length_moveAll hapart (rebalanceMoves_single hnodup hapart)
    (lowAgent ordered k)
  have hback : hghAgent ordered (ordered.length - (k + 1)) = lowAgent ordered k := by
    rw [hghAgent_eq]
    congr 1
    omega
  have hsource := countP_rebalanceMoves (c := c) Move.source (hghAgent ordered)
    (j := ordered.length - (k + 1)) (fun _ _ hm => (mem_roundMoves hm).1)
    (fun i hi => (hghAgent_inj hnodup (by omega) (by omega)).mp)
  have htarget := countP_rebalanceMoves (c := c) Move.target (lowAgent ordered) (j := k)
    (fun _ _ hm => (mem_roundMoves hm).2.1)
    (fun i hi => (lowAgent_inj hnodup (by omega) hk).mp)
  rw [hback] at hsource
  rw [← hsource, ← htarget]
  exact hlength

end Counts

section Pairs

variable (d : DictOrder) (l : Listing)

/-- The agents in the order in which the program compares them. -/
def Listing.ordered : List String := orderedAgentList d (listAgents l.agents "L3 agent")

/-- The routers of the agent at a place of the order. -/
def Cloud.place (c : Cloud) (k : ℕ) : ℕ := c.count (lowAgent (l.ordered d) k)

/-- A run in which every migration succeeds. -/
def Cloud.rebalanced (c : Cloud) : Cloud := l3AgentRebalance noFaults false d l c

variable {d l} {c : Cloud} {n k : ℕ}

theorem Listing.ordered_nodup (d : DictOrder) (l : Listing) : (l.ordered d).Nodup :=
  orderedAgentList_nodup d l

theorem rebalanced_eq (d : DictOrder) (l : Listing) (c : Cloud) : c.rebalanced d l =
    c.moveAll noFaults (rebalanceMoves noFaults c.hosts (l.ordered d)) :=
  l3AgentRebalance_eq d l (rebalanceRaises_listed l noFaults) c

theorem place_rebalanced (hapart : c.hosts.Apart) (hn : (l.ordered d).length = n) (hk : k < n) :
    (c.rebalanced d l).place d l k +
        (if n - (k + 1) < comparedRounds n then
          (c.place d l k - c.place d l (n - (k + 1)) + 1) / 2 else 0) =
      c.place d l k +
        (if k < comparedRounds n then
          (c.place d l (n - (k + 1)) - c.place d l k + 1) / 2 else 0) := by
  subst hn
  have hback : (l.ordered d).length - ((l.ordered d).length - (k + 1) + 1) = k := by omega
  have htake : transferred (l.ordered d) c ((l.ordered d).length - (k + 1)) =
      (c.place d l k - c.place d l ((l.ordered d).length - (k + 1)) + 1) / 2 := by
    rw [transferred, hghAgent_eq, hback]
    rfl
  rw [rebalanced_eq, ← htake]
  exact count_moveAll (l.ordered_nodup d) hapart hk

/-- The agents of a pair share what they had. -/
theorem pair_rebalanced (hapart : c.hosts.Apart) (hn : (l.ordered d).length = n) (hk : k < n) :
    (c.rebalanced d l).place d l k + (c.rebalanced d l).place d l (n - (k + 1)) =
      c.place d l k + c.place d l (n - (k + 1)) ∧
    (c.rebalanced d l).place d l k ≤ max (c.place d l k) (c.place d l (n - (k + 1))) := by
  have hback : n - (n - (k + 1) + 1) = k := by omega
  have hfirst := place_rebalanced hapart hn hk
  have hsecond := place_rebalanced hapart hn (k := n - (k + 1)) (by omega)
  rw [hback] at hsecond
  split at hfirst
  next hhgh =>
    rw [if_pos hhgh] at hsecond
    split at hfirst
    next hlow =>
      rw [if_pos hlow] at hsecond
      omega
    next hlow =>
      rw [if_neg hlow] at hsecond
      omega
  next hhgh =>
    rw [if_neg hhgh] at hsecond
    split at hfirst
    next hlow =>
      rw [if_pos hlow] at hsecond
      omega
    next hlow =>
      rw [if_neg hlow] at hsecond
      omega

/-- With an even number of agents those of a pair end with about the same number. -/
theorem pair_rebalanced_even (hapart : c.hosts.Apart) (hn : (l.ordered d).length = n)
    (heven : n % 2 = 0) (hk : k < n) :
    (c.rebalanced d l).place d l k ≤ (c.rebalanced d l).place d l (n - (k + 1)) + 1 ∧
    (c.rebalanced d l).place d l (n - (k + 1)) ≤ (c.rebalanced d l).place d l k + 1 := by
  have hall : comparedRounds n = n := if_pos heven
  obtain ⟨hsum, -⟩ := pair_rebalanced hapart hn hk
  have hfirst := place_rebalanced hapart hn hk
  rw [hall, if_pos (by omega), if_pos hk] at hfirst
  omega

/-- With an odd number of agents the loop stays at the middle one: only the second of a pair gives
routers to the first. -/
theorem place_rebalanced_odd (hapart : c.hosts.Apart) (hn : (l.ordered d).length = n)
    (hodd : n % 2 = 1) (hk : k < n / 2) :
    (c.rebalanced d l).place d l k =
      c.place d l k + (c.place d l (n - (k + 1)) - c.place d l k + 1) / 2 ∧
    (c.rebalanced d l).place d l (n - (k + 1)) +
      (c.place d l (n - (k + 1)) - c.place d l k + 1) / 2 = c.place d l (n - (k + 1)) := by
  have hfirst := place_rebalanced hapart hn (k := k) (by omega)
  have hsecond := place_rebalanced hapart hn (k := n - (k + 1)) (by omega)
  have hback : n - (n - (k + 1) + 1) = k := by omega
  have hhalf : comparedRounds n = n / 2 := if_neg (by omega)
  rw [hhalf, if_neg (by omega), if_pos hk] at hfirst
  rw [hhalf, hback, if_pos hk, if_neg (by omega)] at hsecond
  exact ⟨hfirst, hsecond⟩

theorem place_rebalanced_middle (hapart : c.hosts.Apart) (hn : (l.ordered d).length = n)
    (hodd : n % 2 = 1) : (c.rebalanced d l).place d l (n / 2) = c.place d l (n / 2) := by
  have hplace := place_rebalanced hapart hn (k := n / 2) (by omega)
  have hhalf : comparedRounds n = n / 2 := if_neg (by omega)
  rw [hhalf, if_neg (by omega), if_neg (by omega)] at hplace
  exact hplace

/-- The counts of any two agents differ by at most one. -/
def Listing.Balanced (l : Listing) (c : Cloud) : Prop :=
  ∀ a ∈ (listAgents l.agents "L3 agent").map Agent.id,
    ∀ b ∈ (listAgents l.agents "L3 agent").map Agent.id, c.count a ≤ c.count b + 1

theorem Listing.mem_ordered {d : DictOrder} {a : String} :
    a ∈ l.ordered d ↔ a ∈ (listAgents l.agents "L3 agent").map Agent.id := by
  rw [Listing.ordered, orderedAgentList, List.mem_insertionSort, (d.perm _).mem_iff]

theorem mem_ordered_iff_place (hn : (l.ordered d).length = n) {a : String} :
    a ∈ l.ordered d ↔ ∃ k < n, lowAgent (l.ordered d) k = a := by
  subst hn
  constructor
  · intro ha
    obtain ⟨k, hk, rfl⟩ := List.getElem_of_mem ha
    exact ⟨k, hk, List.getD_eq_getElem _ _ hk⟩
  · rintro ⟨k, hk, rfl⟩
    rw [lowAgent, List.getD_eq_getElem _ _ hk]
    exact List.getElem_mem hk

theorem balanced_iff (hn : (l.ordered d).length = n) :
    l.Balanced c ↔ ∃ m, ∀ k < n, m ≤ c.place d l k ∧ c.place d l k ≤ m + 1 := by
  constructor
  · intro hbalanced
    have hplaces : ∀ i < n, ∀ k < n, c.place d l i ≤ c.place d l k + 1 := fun i hi k hk =>
      hbalanced _ (Listing.mem_ordered.mp ((mem_ordered_iff_place hn).mpr ⟨i, hi, rfl⟩))
        _ (Listing.mem_ordered.mp ((mem_ordered_iff_place hn).mpr ⟨k, hk, rfl⟩))
    rcases Nat.eq_zero_or_pos n with rfl | hpos
    · exact ⟨0, fun k hk => absurd hk (Nat.not_lt_zero k)⟩
    · -- the least count
      obtain ⟨i, hi, hmin⟩ := Finset.exists_min_image (Finset.range n) (c.place d l)
        ⟨0, Finset.mem_range.mpr hpos⟩
      exact ⟨c.place d l i, fun k hk =>
        ⟨hmin k (Finset.mem_range.mpr hk), hplaces k hk i (Finset.mem_range.mp hi)⟩⟩
  · rintro ⟨m, hm⟩ a ha b hb
    obtain ⟨i, hi, rfl⟩ := (mem_ordered_iff_place hn).mp (Listing.mem_ordered.mpr ha)
    obtain ⟨k, hk, rfl⟩ := (mem_ordered_iff_place hn).mp (Listing.mem_ordered.mpr hb)
    have hfirst := (hm i hi).2
    have hsecond := (hm k hk).1
    show c.place d l i ≤ c.place d l k + 1
    omega

/-- The counts of two paired agents add up to twice a number that is the same for all pairs, to one
more or to two more; with an odd number of agents the middle one has that number or one more, and
no first of a pair has two routers more than the second. -/
def Balanceable (n m : ℕ) (count : ℕ → ℕ) : Prop :=
  (∀ i < n / 2, 2 * m ≤ count i + count (n - (i + 1)) ∧
    count i + count (n - (i + 1)) ≤ 2 * m + 2) ∧
  (n % 2 = 1 → m ≤ count (n / 2) ∧ count (n / 2) ≤ m + 1 ∧
    ∀ i < n / 2, count i ≤ count (n - (i + 1)) + 1)

theorem near_rebalanced_even (hapart : c.hosts.Apart) (hn : (l.ordered d).length = n)
    (heven : n % 2 = 0) (m : ℕ) :
    (∀ k < n, m ≤ (c.rebalanced d l).place d l k ∧ (c.rebalanced d l).place d l k ≤ m + 1) ↔
      Balanceable n m (c.place d l) := by
  constructor
  · intro h
    refine ⟨fun i hi => ?_, fun hodd => by omega⟩
    obtain ⟨hsum, -⟩ := pair_rebalanced hapart hn (k := i) (by omega)
    have hfirst := h i (by omega)
    have hsecond := h (n - (i + 1)) (by omega)
    omega
  · rintro ⟨hpairs, -⟩ k hk
    obtain ⟨hsum, -⟩ := pair_rebalanced hapart hn hk
    obtain ⟨hle, hge⟩ := pair_rebalanced_even hapart hn heven hk
    by_cases hlow : k < n / 2
    · have hboth := hpairs k hlow
      omega
    · have hback : n - (n - (k + 1) + 1) = k := by omega
      have hboth := hpairs (n - (k + 1)) (by omega)
      rw [hback] at hboth
      omega

theorem near_rebalanced_odd (hapart : c.hosts.Apart) (hn : (l.ordered d).length = n)
    (hodd : n % 2 = 1) (m : ℕ) :
    (∀ k < n, m ≤ (c.rebalanced d l).place d l k ∧ (c.rebalanced d l).place d l k ≤ m + 1) ↔
      Balanceable n m (c.place d l) := by
  have hpair {k : ℕ} (hk : k < n / 2) := place_rebalanced_odd hapart hn hodd hk
  have hmiddle := place_rebalanced_middle hapart hn hodd
  constructor
  · intro h
    have hmid := h (n / 2) (by omega)
    rw [hmiddle] at hmid
    refine ⟨fun i hi => ?_, fun _ => ⟨hmid.1, hmid.2, fun i hi => ?_⟩⟩
    · obtain ⟨hlow, hhgh⟩ := hpair hi
      have hfirst := h i (by omega)
      have hsecond := h (n - (i + 1)) (by omega)
      omega
    · obtain ⟨hlow, hhgh⟩ := hpair hi
      have hfirst := h i (by omega)
      have hsecond := h (n - (i + 1)) (by omega)
      omega
  · rintro ⟨hpairs, hrest⟩ k hk
    obtain ⟨hmid, hmid', hclose⟩ := hrest hodd
    rcases lt_trichotomy k (n / 2) with hlow | rfl | hhigh
    · obtain ⟨hfirst, -⟩ := hpair hlow
      have hsum := hpairs k hlow
      have hdiff := hclose k hlow
      omega
    · rw [hmiddle]
      exact ⟨hmid, hmid'⟩
    · have hi : n - (k + 1) < n / 2 := by omega
      have hback : n - (n - (k + 1) + 1) = k := by omega
      obtain ⟨-, hsecond⟩ := hpair hi
      have hsum := hpairs (n - (k + 1)) hi
      have hdiff := hclose (n - (k + 1)) hi
      rw [hback] at hsecond hsum hdiff
      omega

/-- All agents end with about the same number of routers just when the pairs of agents that the
program compares allow it. -/
theorem rebalance_balanced_iff (d : DictOrder) (l : Listing) (c : Cloud) (hapart : c.hosts.Apart) :
    l.Balanced (c.rebalanced d l) ↔
      ∃ m, Balanceable (l.ordered d).length m (c.place d l) := by
  rw [balanced_iff rfl]
  refine exists_congr fun m => ?_
  rcases Nat.mod_two_eq_zero_or_one (l.ordered d).length with heven | hodd
  · exact near_rebalanced_even hapart rfl heven m
  · exact near_rebalanced_odd hapart rfl hodd m

/-- Three agents whose identifiers have the same length. -/
def threeAgents : Listing :=
  ⟨[⟨"b1", "L3 agent", true⟩, ⟨"b2", "L3 agent", true⟩, ⟨"b3", "L3 agent", true⟩], by decide⟩

/-- Two routers on the second of them. -/
def twoRouters : Cloud where
  hosts := ⟨fun a => if a = "b2" then ["r1", "r2"] else [], fun a => by
    split
    next => decide
    next => exact List.nodup_nil⟩
  calls := []

theorem twoRouters_apart : twoRouters.hosts.Apart :=
  Placement.apart_of_one "b2" fun _ hne => if_neg hne

/-- The agent in the middle keeps its routers, and the others stay without. -/
theorem twoRouters_not_balanced : twoRouters.hosts.Apart ∧
    ¬ threeAgents.Balanced (twoRouters.rebalanced keyOrder threeAgents) := by
  refine ⟨twoRouters_apart, fun h => ?_⟩
  exact absurd (h "b2" (by decide) "b1" (by decide)) (by decide)

/-- Three routers on the last of three agents. -/
def lastLoaded : Cloud where
  hosts := ⟨fun a => if a = "b3" then ["r1", "r2", "r3"] else [], fun a => by
    split
    next => decide
    next => exact List.nodup_nil⟩
  calls := []

theorem lastLoaded_apart : lastLoaded.hosts.Apart :=
  Placement.apart_of_one "b3" fun _ hne => if_neg hne

/-- Two routers there. -/
def pairLoaded : Cloud where
  hosts := ⟨fun a => if a = "b3" then ["r1", "r2"] else [], fun a => by
    split
    next => decide
    next => exact List.nodup_nil⟩
  calls := []

theorem pairLoaded_balanced :
    (pairLoaded.rebalanced keyOrder threeAgents).calls = [⟨"r1", "b3", "b1"⟩] ∧
      threeAgents.Balanced (pairLoaded.rebalanced keyOrder threeAgents) := by
  have hapart : pairLoaded.hosts.Apart := Placement.apart_of_one "b3" fun _ hne => if_neg hne
  exact ⟨by decide, (rebalance_balanced_iff keyOrder threeAgents pairLoaded hapart).mpr
    ⟨0, by decide, by decide⟩⟩

/-- Nothing is moved just when in every round the first agent has no fewer routers than the
second. -/
theorem calls_rebalance_iff (f : Faults String String) (noop : Bool) (d : DictOrder) (l : Listing)
    (c : Cloud) : (l3AgentRebalance f noop d l c).calls = c.calls ↔ noop = true ∨
      ∀ i < comparedRounds (l.ordered d).length,
        c.place d l ((l.ordered d).length - (i + 1)) ≤ c.place d l i := by
  cases noop with
  | true =>
    rw [l3AgentRebalance_noop]
    exact iff_of_true rfl (Or.inl rfl)
  | false =>
    rw [l3AgentRebalance_eq d l (rebalanceRaises_listed l f), or_iff_right Bool.false_ne_true]
    show c.calls ++ rebalanceMoves f c.hosts (l.ordered d) = c.calls ↔ _
    rw [List.append_right_eq_self, rebalanceMoves, List.flatMap_eq_nil_iff]
    simp only [List.mem_range]
    refine forall₂_congr fun i _ => ?_
    rw [List.eq_nil_iff_forall_not_mem]
    constructor
    · intro hnone
      by_contra hlt
      rw [not_le] at hlt
      have hsome : 0 < (c.hosts.items (hghAgent (l.ordered d) i)).length := by
        exact (Nat.zero_le _).trans_lt hlt
      refine hnone ⟨(c.hosts.items (hghAgent (l.ordered d) i))[0], hghAgent (l.ordered d) i,
        lowAgent (l.ordered d) i⟩ (mem_pairMoves.mpr ⟨rfl, rfl, 0, ?_, hlt⟩)
      exact List.getElem?_eq_getElem hsome
    · intro hle m hm
      obtain ⟨-, -, j, -, hcount⟩ := mem_pairMoves.mp hm
      have hle' : (c.hosts.items (hghAgent (l.ordered d) i)).length ≤
        (c.hosts.items (lowAgent (l.ordered d) i)).length := hle
      omega

/-- A run moves nothing just when in every round the first agent has no fewer routers than the
second, also when the counts differ by at most one. After a run without faults that is so just when
the number of agents is odd, or every pair had an even number of routers. -/
theorem rebalance_stable_iff (f : Faults String String) (noop : Bool) (d : DictOrder) (l : Listing)
    (c : Cloud) (hapart : c.hosts.Apart) :
    ((l3AgentRebalance f noop d l c).calls = c.calls ↔ noop = true ∨
      ∀ i < comparedRounds (l.ordered d).length,
        c.place d l ((l.ordered d).length - (i + 1)) ≤ c.place d l i) ∧
    ((l3AgentRebalance f noop d l (c.rebalanced d l)).calls = (c.rebalanced d l).calls ↔
      noop = true ∨ (l.ordered d).length % 2 = 1 ∨ ∀ i < (l.ordered d).length / 2,
        (c.place d l i + c.place d l ((l.ordered d).length - (i + 1))) % 2 = 0) := by
  refine ⟨calls_rebalance_iff f noop d l c, ?_⟩
  rw [calls_rebalance_iff]
  refine or_congr_right ?_
  obtain ⟨n, hn⟩ : ∃ n, (l.ordered d).length = n := ⟨_, rfl⟩
  rw [hn]
  rcases Nat.mod_two_eq_zero_or_one n with heven | hodd
  · have hall : comparedRounds n = n := if_pos heven
    rw [hall, or_iff_right (by omega)]
    constructor
    · intro h i hi
      have hback : n - (n - (i + 1) + 1) = i := by omega
      obtain ⟨hsum, -⟩ := pair_rebalanced hapart hn (k := i) (by omega)
      have hfirst := h i (by omega)
      have hsecond := h (n - (i + 1)) (by omega)
      rw [hback] at hsecond
      omega
    · intro h k hk
      obtain ⟨hsum, -⟩ := pair_rebalanced hapart hn hk
      obtain ⟨hle, hge⟩ := pair_rebalanced_even hapart hn heven hk
      by_cases hlow : k < n / 2
      · have heven' := h k hlow
        omega
      · have hback : n - (n - (k + 1) + 1) = k := by omega
        have heven' := h (n - (k + 1)) (by omega)
        rw [hback] at heven'
        omega
  · have hhalf : comparedRounds n = n / 2 := if_neg (by omega)
    rw [hhalf]
    refine iff_of_true (fun i hi => ?_) (Or.inl hodd)
    obtain ⟨hlow, hhgh⟩ := place_rebalanced_odd hapart hn hodd hi
    omega

/-- The router goes to the agent without one, and the next run moves it back. -/
theorem oneRouter_not_stable : twoAgents.Balanced oneRouter ∧
    (l3AgentRebalance noFaults false keyOrder twoAgents oneRouter).calls ≠ oneRouter.calls ∧
    twoAgents.Balanced (oneRouter.rebalanced keyOrder twoAgents) ∧
    (l3AgentRebalance noFaults false keyOrder twoAgents
      (oneRouter.rebalanced keyOrder twoAgents)).calls ≠
        (oneRouter.rebalanced keyOrder twoAgents).calls := by
  refine ⟨?_, by decide, ?_, by decide⟩
  · exact (balanced_iff (d := keyOrder) rfl).mpr ⟨0, by decide⟩
  · exact (balanced_iff (d := keyOrder) rfl).mpr ⟨0, by decide⟩

/-- Two of the three routers are moved, and another run moves nothing. -/
theorem lastLoaded_stable :
    (lastLoaded.rebalanced keyOrder threeAgents).calls =
      [⟨"r1", "b3", "b1"⟩, ⟨"r2", "b3", "b1"⟩] ∧
    (l3AgentRebalance noFaults false keyOrder threeAgents
      (lastLoaded.rebalanced keyOrder threeAgents)).calls =
        (lastLoaded.rebalanced keyOrder threeAgents).calls :=
  ⟨by decide, (rebalance_stable_iff noFaults false keyOrder threeAgents lastLoaded
    lastLoaded_apart).2.mpr (Or.inr (Or.inl (by decide)))⟩

variable (d l) in
/-- What a run does: every router is moved at most once and from the agent where it is, paired
agents share what they had and differ by at most one, the middle agent keeps its routers, and no
agent ends with more routers than some agent had. -/
structure SafePairwise (c c' : Cloud) : Prop where
  calls : ∃ ms, c'.calls = c.calls ++ ms ∧ c'.hosts = noFaults.moveAll ms c.hosts ∧
    (ms.map Move.item).Nodup ∧
    ∀ before m after, ms = before ++ m :: after →
      m.item ∈ (noFaults.moveAll before c.hosts).items m.source
  sum : ∀ i < (l.ordered d).length,
    c'.place d l i + c'.place d l ((l.ordered d).length - (i + 1)) =
      c.place d l i + c.place d l ((l.ordered d).length - (i + 1))
  close : ∀ i < (l.ordered d).length,
    c'.place d l i ≤ c'.place d l ((l.ordered d).length - (i + 1)) + 1
  middle : (l.ordered d).length % 2 = 1 →
    c'.place d l ((l.ordered d).length / 2) = c.place d l ((l.ordered d).length / 2)
  bound : ∀ a ∈ l.ordered d, ∃ b ∈ l.ordered d, c'.count a ≤ c.count b

/-- The agents of a pair are close afterwards if they were so before, or there is no middle. -/
theorem close_rebalanced {l : Listing} {d : DictOrder} {c : Cloud} {n i : ℕ}
    (hapart : c.hosts.Apart) (hn : (l.ordered d).length = n)
    (h : n % 2 = 0 ∨ ∀ i < n / 2, c.place d l i ≤ c.place d l (n - (i + 1)) + 1) (hi : i < n) :
    (c.rebalanced d l).place d l i ≤ (c.rebalanced d l).place d l (n - (i + 1)) + 1 := by
  rcases Nat.mod_two_eq_zero_or_one n with heven | hodd
  · exact (pair_rebalanced_even hapart hn heven hi).1
  · have hclose := h.resolve_left (by omega)
    rcases lt_trichotomy i (n / 2) with hlow | rfl | hhigh
    · have hdiff := hclose i hlow
      obtain ⟨hfirst, hsecond⟩ := place_rebalanced_odd hapart hn hodd hlow
      omega
    · have hmiddle : n - (n / 2 + 1) = n / 2 := by omega
      rw [hmiddle]
      exact Nat.le_succ _
    · have hback : n - (n - (i + 1) + 1) = i := by omega
      have hdiff := hclose (n - (i + 1)) (by omega)
      obtain ⟨hfirst, hsecond⟩ := place_rebalanced_odd hapart hn hodd (k := n - (i + 1)) (by omega)
      rw [hback] at hfirst hsecond hdiff
      omega

/-- No run raises an `IndexError`, and runs are safe pairwise just when the number of agents is
even, or no first of a pair has two routers more than the second. -/
theorem rebalance_safe_iff (d : DictOrder) (l : Listing) (c : Cloud) (hapart : c.hosts.Apart) :
    (∃ c', l3AgentRebalance? noFaults false d l c = some c' ∧ SafePairwise d l c c') ↔
      (l.ordered d).length % 2 = 0 ∨ ∀ i < (l.ordered d).length / 2,
        c.place d l i ≤ c.place d l ((l.ordered d).length - (i + 1)) + 1 := by
  obtain ⟨n, hn⟩ : ∃ n, (l.ordered d).length = n := ⟨_, rfl⟩
  have hrun : l3AgentRebalance? noFaults false d l c = some (c.rebalanced d l) :=
    l3AgentRebalance?_eq d l c
  constructor
  · rintro ⟨c', hc', hsafe⟩
    obtain rfl : c.rebalanced d l = c' := Option.some.inj (hrun.symm.trans hc')
    rcases Nat.mod_two_eq_zero_or_one n with heven | hodd
    · exact Or.inl (hn ▸ heven)
    · refine Or.inr fun i hi => ?_
      have hlow := hsafe.close i (by omega)
      rw [hn] at hlow hi ⊢
      obtain ⟨hfirst, hsecond⟩ := place_rebalanced_odd hapart hn hodd hi
      omega
  · intro h
    refine ⟨c.rebalanced d l, hrun, ?_⟩
    have hsingle := rebalanceMoves_single (l.ordered_nodup d) hapart
    refine ⟨⟨rebalanceMoves noFaults c.hosts (l.ordered d), ?_, ?_, hsingle.items, ?_⟩, ?_, ?_, ?_,
      ?_⟩
    · rw [rebalanced_eq]
      rfl
    · rw [rebalanced_eq]
      rfl
    · rintro before m after heq
      exact (heq ▸ hsingle).hosted
    · intro i hi
      exact (pair_rebalanced hapart rfl hi).1
    · intro i hi
      rw [hn] at h hi ⊢
      exact close_rebalanced hapart hn h hi
    · intro hodd
      exact place_rebalanced_middle hapart rfl hodd
    · intro a ha
      obtain ⟨i, hi, rfl⟩ := (mem_ordered_iff_place hn).mp ha
      have hmax := (pair_rebalanced hapart hn hi).2
      rcases le_max_iff.mp hmax with hle | hle
      · exact ⟨_, (mem_ordered_iff_place hn).mpr ⟨i, hi, rfl⟩, hle⟩
      · exact ⟨_, (mem_ordered_iff_place hn).mpr ⟨n - (i + 1), by omega, rfl⟩, hle⟩

/-- Two routers on the first of three agents. -/
def firstLoaded : Cloud where
  hosts := ⟨fun a => if a = "b1" then ["r1", "r2"] else [], fun a => by
    split
    next => exact List.nodup_cons.mpr ⟨by decide, List.nodup_singleton "r2"⟩
    next => exact List.nodup_nil⟩
  calls := []

/-- The loop stays at the middle agent before it comes to the pair the other way round. -/
theorem firstLoaded_not_safe : firstLoaded.hosts.Apart ∧
    ¬ ∃ c', l3AgentRebalance? noFaults false keyOrder threeAgents firstLoaded = some c' ∧
      SafePairwise keyOrder threeAgents firstLoaded c' := by
  refine ⟨Placement.apart_of_one "b1" fun _ hne => if_neg hne, ?_⟩
  rintro ⟨c', hc', hsafe⟩
  have hclose := hsafe.close 0 (by decide)
  rw [l3AgentRebalance?_eq, Option.some.injEq] at hc'
  subst hc'
  exact absurd hclose (by decide)

theorem lastLoaded_safe : ∃ c',
    l3AgentRebalance? noFaults false keyOrder threeAgents lastLoaded = some c' ∧
      SafePairwise keyOrder threeAgents lastLoaded c' :=
  (rebalance_safe_iff keyOrder threeAgents lastLoaded lastLoaded_apart).mpr (Or.inr (by decide))

end Pairs

end CompassAdapters.Neutron
