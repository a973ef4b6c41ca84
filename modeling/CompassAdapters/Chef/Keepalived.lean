import CompassAdapters.Chef.Server
import CompassAdapters.Transition.Runs

/-! The election of the keepalived master by the recipe of each node. A run reads the tags, then
perhaps the role, and writes back whole node objects; the steps of several nodes interleave. -/
namespace CompassAdapters.Chef.Keepalived
open Transition

/-- A value of `keepalived.instances.openstack.states`. -/
inductive VrrpState where
  | master
  | backup
  deriving DecidableEq, Repr

/-- The tag `keepalived_default_master` and the node's own entry of `states`. -/
structure NodeObject where
  tagged : Bool
  state : Option VrrpState
  deriving DecidableEq, Repr

/-- Where the run of a node stands in `keepalived_master` and in the recipe. `tagging` is
before the save of its own tag, `pruning` in the loop over `tail`, whose objects are those the
search returned, and `returned` before the attributes are saved. -/
inductive Phase where
  | idle
  | noMaster
  | tagging (first : String)
  | pruning (head : String) (tail : List (String × NodeObject))
  | returned (master : String)
  deriving DecidableEq, Repr

/-- `node` is the copy of its own object that a run works on. -/
structure State where
  server : Server NodeObject
  node : String → NodeObject
  phase : String → Phase

def initial : State := ⟨⟨[], fun _ => ⟨false, none⟩⟩, fun _ => ⟨false, none⟩, fun _ => .idle⟩

def afterTagSearch (sv : Server NodeObject) : Phase :=
  match sortByName (sv.search NodeObject.tagged) with
  | [] => .noMaster
  | [m] => .returned m
  | head :: tail => .pruning head (tail.map fun m => (m, sv.object m))

/-- The state is written once and never revised. -/
def NodeObject.recordState (node : NodeObject) (isMaster : Bool) : NodeObject :=
  match node.state with
  | none => { node with state := some (if isMaster then .master else .backup) }
  | some _ => node

namespace State

/-- What one step of `n` changes of itself: its object on the server, its copy, its phase. -/
def write (s : State) (n : String) (object node : NodeObject) (phase : Phase) : State :=
  { server := s.server.save n object
    node := Function.update s.node n node
    phase := Function.update s.phase n phase }

def goto (s : State) (n : String) (phase : Phase) : State :=
  { s with phase := Function.update s.phase n phase }

end State

inductive Action where
  | register (n : String)
  | tagSearch (n : String)
  | roleSearch (n : String)
  | saveTag (n : String)
  | pruneTag (n : String)
  | saveAttributes (n : String)
  | abort (n : String)
  deriving DecidableEq, Repr

def step (s : State) : Action → Option State
  | .register n =>
    if n ∈ s.server.registered then none
    else some { s with server := s.server.register n ⟨false, none⟩ }
  | .tagSearch n =>
    match s.phase n with
    | .idle =>
      if n ∈ s.server.registered then
        some { s.goto n (afterTagSearch s.server) with
          node := Function.update s.node n (s.server.object n) }
      else none
    | _ => none
  | .roleSearch n =>
    match s.phase n with
    | .noMaster =>
      match sortByName s.server.registered with
      | [] => some (s.goto n .idle) -- `nodes.first.name` raises
      | first :: _ =>
        if n = first then
          some { s.goto n (.tagging first) with
            node := Function.update s.node n { s.node n with tagged := true } }
        else some (s.goto n (.returned first))
    | _ => none
  | .saveTag n =>
    match s.phase n with
    | .tagging first =>
      some { s.goto n (.returned first) with server := s.server.save n (s.node n) }
    | _ => none
  | .pruneTag n =>
    match s.phase n with
    | .pruning head ((m, object) :: tail) =>
      some { s.goto n (if tail = [] then .returned head else .pruning head tail) with
        server := s.server.save m { object with tagged := false } }
    | _ => none
  | .saveAttributes n =>
    match s.phase n with
    | .returned master =>
      let node := (s.node n).recordState (decide (n = master))
      some { s.goto n .idle with
        server := s.server.save n node
        node := Function.update s.node n node }
    | _ => none
  | .abort n =>
    match s.phase n with
    | .idle => none
    | _ => some (s.goto n .idle)

def Phase.isTagging : Phase → Bool
  | .tagging _ => true
  | _ => false

def IsMaster (s : State) (n : String) : Prop := (s.server.object n).state = some .master

def AtMostOneMaster (s : State) : Prop := Sole (IsMaster s)

/-- Tagged on the server, or about to save the tag. -/
def Claimed (s : State) (n : String) : Prop :=
  ((s.server.object n).tagged || (s.phase n).isTagging) = true

instance (s : State) (n : String) : Decidable (Claimed s n) :=
  inferInstanceAs (Decidable (_ = true))

/-- A node that finds itself the first of its role finds no claim of another node. -/
def Uncontested (s : State) : Action → Prop
  | .roleSearch n => (sortByName s.server.registered).head? = some n →
      ∀ m ∈ s.server.registered, Claimed s m → m = n
  | _ => True

instance (s : State) : ∀ a, Decidable (Uncontested s a)
  | .roleSearch n => inferInstanceAs (Decidable ((sortByName s.server.registered).head? = some n →
      ∀ m ∈ s.server.registered, Claimed s m → m = n))
  | .register _ | .tagSearch _ | .saveTag _ | .pruneTag _ | .saveAttributes _ | .abort _ =>
    inferInstanceAs (Decidable True)

/-- What holds of each node: its object, the copy of its run and its phase. -/
structure NodeOk (n : String) (object node : NodeObject) (phase : Phase) : Prop where
  copy : phase ≠ .idle → node = { object with tagged := object.tagged || phase.isTagging }
  tagging : ∀ first, phase = .tagging first → first = n
  master : object.state = some .master → object.tagged = true
  returned : phase = .returned n → object.tagged = true
  pruning : ∀ head tail, phase ≠ .pruning head tail

structure Inv (s : State) : Prop where
  claims : Claims NodeObject.tagged Phase.isTagging .idle s.server s.phase
  nodes : ∀ n, NodeOk n (s.server.object n) (s.node n) (s.phase n)

theorem inv_initial : Inv initial where
  claims :=
    { registered := List.nodup_nil
      running := fun n h => absurd rfl h
      found := by intro n h; cases h
      sole := by intro a b ha; cases ha }
  nodes n :=
    { copy := fun h => absurd rfl h
      tagging := by intro first h; cases h
      master := by intro h; cases h
      returned := by intro h; cases h
      pruning := by intro head tail h; cases h }

section Steps
variable {s : State} (hi : Inv s) {n : String}
include hi

/-- Whatever a node writes of itself, its claim is all that the others must allow. -/
theorem inv_write (hn : n ∈ s.server.registered) {object node : NodeObject} {phase : Phase}
    (hok : NodeOk n object node phase)
    (hclaim : (object.tagged || phase.isTagging) = true → ∀ a, Claimed s a → a = n) :
    Inv (s.write n object node phase) where
  claims := hi.claims.write hn hclaim
  nodes m := by
    by_cases hmn : m = n
    · subst hmn
      simpa [State.write, Server.save] using hok
    · simpa [State.write, Server.save, hmn] using hi.nodes m

/-- A node that held the claim may keep it. -/
theorem keep_claim (h : Claimed s n) : ∀ a, Claimed s a → a = n := fun a ha =>
  hi.claims.sole a n ha h

theorem inv_register (hn : n ∉ s.server.registered) :
    Inv { s with server := s.server.register n ⟨false, none⟩ } where
  claims := hi.claims.register hn rfl
  nodes m := by
    by_cases hmn : m = n
    · subst hmn
      have hidle : s.phase m = .idle := by
        by_contra hne
        exact hn (hi.claims.running m hne)
      simp only [Server.register, Function.update_self, hidle]
      exact ⟨fun h => absurd rfl h, by simp, by simp, by simp, by simp⟩
    · simpa [Server.register, hmn] using hi.nodes m

/-- At most one node is tagged, so the search either finds nothing or settles the master. -/
theorem afterTagSearch_cases : afterTagSearch s.server = .noMaster ∨
    ∃ m, afterTagSearch s.server = .returned m ∧ (s.server.object m).tagged = true := by
  have hlen : (sortByName (s.server.search NodeObject.tagged)).length ≤ 1 :=
    hi.claims.length_le_one (List.perm_insertionSort _ _)
  unfold afterTagSearch
  split
  next => exact Or.inl rfl
  next m hm =>
    have hmem : m ∈ sortByName (s.server.search NodeObject.tagged) := by simp [hm]
    right
    exact ⟨m, rfl, (s.server.mem_search.mp (mem_sortByName.mp hmem)).2⟩
  next head tail hne hm =>
    rw [hm] at hlen
    have htail : tail = [] := by simpa using hlen
    exact absurd htail hne

theorem node_eq (h : s.phase n ≠ .idle) (ht : (s.phase n).isTagging = false) :
    s.node n = s.server.object n := by
  have hcopy := (hi.nodes n).copy h
  rw [ht, Bool.or_false] at hcopy
  exact hcopy

theorem inv_goto (hn : n ∈ s.server.registered) {phase : Phase}
    (hphase : phase = .idle ∨ s.node n = s.server.object n) (htag : phase.isTagging = false)
    (hret : phase = .returned n → (s.server.object n).tagged = true)
    (hprune : ∀ head tail, phase ≠ .pruning head tail) : Inv (s.goto n phase) := by
  have hwrite : s.goto n phase = s.write n (s.server.object n) (s.node n) phase := by
    simp [State.goto, State.write]
  rw [hwrite]
  apply inv_write hi hn
  · refine ⟨fun hne => ?_, fun first he => ?_, (hi.nodes n).master, hret, hprune⟩
    · rw [htag, Bool.or_false]
      exact hphase.resolve_left hne
    · rw [he] at htag
      cases htag
  · intro hc
    apply keep_claim hi
    rw [htag, Bool.or_false] at hc
    simp [Claimed, hc]

theorem inv_tagSearch (hn : n ∈ s.server.registered) :
    Inv { s.goto n (afterTagSearch s.server) with
      node := Function.update s.node n (s.server.object n) } := by
  have hwrite : ({ s.goto n (afterTagSearch s.server) with
      node := Function.update s.node n (s.server.object n) } : State) =
      s.write n (s.server.object n) (s.server.object n) (afterTagSearch s.server) := by
    simp [State.goto, State.write]
  rw [hwrite]
  apply inv_write hi hn
  · rcases afterTagSearch_cases hi with h | ⟨m, h, hm⟩
    · rw [h]
      exact ⟨by simp [Phase.isTagging], by simp, (hi.nodes n).master, by simp, by simp⟩
    · rw [h]
      refine ⟨by simp [Phase.isTagging], by simp, (hi.nodes n).master, ?_, by simp⟩
      intro he
      rw [Phase.returned.injEq] at he
      rw [← he]
      exact hm
  · intro hc
    apply keep_claim hi
    have htag : (afterTagSearch s.server).isTagging = false := by
      rcases afterTagSearch_cases hi with h | ⟨m, h, -⟩ <;> rw [h] <;> rfl
    rw [htag, Bool.or_false] at hc
    simp [Claimed, hc]

theorem inv_claim (hphase : s.phase n = .noMaster) (hsole : ∀ m, Claimed s m → m = n) :
    Inv { s.goto n (.tagging n) with
      node := Function.update s.node n { s.node n with tagged := true } } := by
  have hne : s.phase n ≠ .idle := by simp [hphase]
  have hnode := node_eq hi hne (by rw [hphase]; rfl)
  have hwrite : ({ s.goto n (.tagging n) with
      node := Function.update s.node n { s.node n with tagged := true } } : State) =
      s.write n (s.server.object n) { s.node n with tagged := true } (.tagging n) := by
    simp [State.goto, State.write]
  rw [hwrite]
  apply inv_write hi (hi.claims.running n hne)
  · refine ⟨fun _ => ?_, by simp, (hi.nodes n).master, by simp, by simp⟩
    simp [hnode, Phase.isTagging]
  · exact fun _ => hsole

theorem inv_saveTag {first : String} (hphase : s.phase n = .tagging first) :
    Inv { s.goto n (.returned first) with server := s.server.save n (s.node n) } := by
  have hne : s.phase n ≠ .idle := by simp [hphase]
  have hcopy := (hi.nodes n).copy hne
  have htagged : (s.node n).tagged = true := by simp [hcopy, hphase, Phase.isTagging]
  have hwrite : ({ s.goto n (.returned first) with
      server := s.server.save n (s.node n) } : State) =
      s.write n (s.node n) (s.node n) (.returned first) := by
    simp [State.goto, State.write]
  rw [hwrite]
  apply inv_write hi (hi.claims.running n hne)
  · exact ⟨by simp [Phase.isTagging], by simp, fun _ => htagged, fun _ => htagged, by simp⟩
  · intro _
    apply keep_claim hi
    simp [Claimed, hphase, Phase.isTagging]

theorem inv_saveAttributes {master : String} (hphase : s.phase n = .returned master) :
    Inv { s.goto n .idle with
      server := s.server.save n ((s.node n).recordState (decide (n = master)))
      node := Function.update s.node n ((s.node n).recordState (decide (n = master))) } := by
  have hne : s.phase n ≠ .idle := by simp [hphase]
  have hnode := node_eq hi hne (by rw [hphase]; rfl)
  have hok := hi.nodes n
  have htagged (isMaster : Bool) :
      ((s.node n).recordState isMaster).tagged = (s.server.object n).tagged := by
    rw [hnode]
    unfold NodeObject.recordState
    split <;> rfl
  have hwrite : ({ s.goto n .idle with
      server := s.server.save n ((s.node n).recordState (decide (n = master)))
      node := Function.update s.node n ((s.node n).recordState (decide (n = master))) } : State) =
      s.write n ((s.node n).recordState (decide (n = master)))
        ((s.node n).recordState (decide (n = master))) .idle := rfl
  rw [hwrite]
  apply inv_write hi (hi.claims.running n hne)
  · refine ⟨fun h => absurd rfl h, by simp, fun hmaster => ?_, by simp, by simp⟩
    rw [htagged]
    rw [hnode] at hmaster
    unfold NodeObject.recordState at hmaster
    split at hmaster
    next =>
      -- the state is written now, and MASTER only by the node that was returned to itself
      have hself : n = master := by
        by_contra hne'
        simp [hne'] at hmaster
      exact hok.returned (hself ▸ hphase)
    next => exact hok.master hmaster
  · intro hc
    apply keep_claim hi
    rw [htagged] at hc
    simpa [Claimed, hphase, Phase.isTagging] using hc

end Steps

theorem inv_step (s : State) (a : Action) (t : State) (hi : Inv s) (hok : Uncontested s a)
    (h : step s a = some t) : Inv t := by
  cases a with
  | register n =>
    simp only [step] at h
    split at h
    · cases h
    next hn =>
      cases h
      exact inv_register hi hn
  | tagSearch n =>
    simp only [step] at h
    split at h
    next =>
      split at h
      next hn =>
        cases h
        exact inv_tagSearch hi hn
      next => cases h
    next => cases h
  | roleSearch n =>
    simp only [step] at h
    split at h
    next hphase =>
      have hne : s.phase n ≠ .idle := by simp [hphase]
      have hn := hi.claims.running n hne
      have hnode := node_eq hi hne (by rw [hphase]; rfl)
      split at h
      next =>
        cases h
        exact inv_goto hi hn (Or.inl rfl) rfl (by simp) (by simp)
      next first rest hsorted =>
        split at h
        next hfirst =>
          subst hfirst
          cases h
          have hsole := hok (by rw [hsorted]; rfl)
          exact inv_claim hi hphase fun m hm => hsole m (hi.claims.mem_registered rfl hm) hm
        next hfirst =>
          cases h
          refine inv_goto hi hn (Or.inr hnode) rfl (fun he => ?_) (by simp)
          rw [Phase.returned.injEq] at he
          exact absurd he.symm hfirst
    next => cases h
  | saveTag n =>
    simp only [step] at h
    split at h
    next first hphase =>
      cases h
      exact inv_saveTag hi hphase
    next => cases h
  | pruneTag n =>
    simp only [step] at h
    split at h
    next head m object tail hphase => exact absurd hphase ((hi.nodes n).pruning _ _)
    next => cases h
  | saveAttributes n =>
    simp only [step] at h
    split at h
    next master hphase =>
      cases h
      exact inv_saveAttributes hi hphase
    next => cases h
  | abort n =>
    simp only [step] at h
    split at h
    next => cases h
    next hne =>
      cases h
      exact inv_goto hi (hi.claims.running n hne) (Or.inl rfl) rfl (by simp) (by simp)

theorem inv_atMostOneMaster (s : State) (hi : Inv s) : AtMostOneMaster s := by
  apply hi.claims.sole.mono
  intro a ha
  simp [(hi.nodes a).master ha]

/-- In a run in which every claim is uncontested, no state has two masters. -/
theorem atMostOneMaster_of_uncontested (as : List Action)
    (h : Guarded step Uncontested initial as) : Always step AtMostOneMaster initial as :=
  Always.of_guarded inv_step inv_atMostOneMaster inv_initial h

/-- The runs of two nodes take turns: `b` searches after `a` has saved its tag, and records the
state of a backup. A second run of `a` finds its own tag. -/
theorem atMostOneMaster_inTurn : Always step AtMostOneMaster initial
    [.register "b", .register "a", .tagSearch "a", .roleSearch "a", .saveTag "a", .tagSearch "b",
      .saveAttributes "a", .saveAttributes "b", .tagSearch "a", .saveAttributes "a"] :=
  atMostOneMaster_of_uncontested _ (by decide +kernel)

/-- `b` has found itself the first of its role when `a` registers, and `a` searches before `b`
has saved its tag. -/
def race : List Action :=
  [.register "b", .tagSearch "b", .roleSearch "b", .register "a", .tagSearch "a", .roleSearch "a",
    .saveTag "b", .saveAttributes "b", .saveTag "a", .saveAttributes "a"]

theorem two_masters : ¬ Always step AtMostOneMaster initial race := by
  intro h
  have hrun : (run step initial race).map (fun t =>
      ((t.server.object "a").state, (t.server.object "b").state)) =
      some (some .master, some .master) := by
    decide +kernel
  obtain ⟨t, ht, hstates⟩ := Option.map_eq_some_iff.mp hrun
  rw [Prod.mk.injEq] at hstates
  have hab : "a" = "b" := h.run_end ht "a" "b" hstates.1 hstates.2
  exact absurd hab (by decide)

end CompassAdapters.Chef.Keepalived
