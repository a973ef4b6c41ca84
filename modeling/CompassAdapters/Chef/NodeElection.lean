import CompassAdapters.Chef.Server
import CompassAdapters.Transition.Runs

/-! The three copies of the node election. A call searches the tagged nodes and, when there are
none, the nodes of the role; the calls of several nodes interleave, the searches return their
nodes in any order, and the role search may lag behind the registrations. -/
namespace CompassAdapters.Chef.NodeElection
open Transition

/-- What a call makes of its role search: whether the node tags itself, and what is returned. -/
structure Outcome where
  tags : Bool
  returned : String
  deriving DecidableEq, Repr

/-- The call of `name` after its tag search has found nothing; `none` is an exception. -/
abbrev RoleCase := (hostname : String → String) → (name : String) → List String → Option Outcome

/-- `node_election` of openstack-identity. -/
def identityElection : RoleCase := fun _ name nodes =>
  match sortByName nodes with
  | [] => some ⟨true, name⟩
  | first :: _ => some ⟨decide (name = first), first⟩

/-- `node_election` of ceph, which compares host names and leaves a node that finds nothing
untagged. -/
def cephElection : RoleCase := fun hostname name nodes =>
  match sortByName nodes with
  | [] => some ⟨false, name⟩
  | first :: _ => some ⟨decide (hostname name = hostname first), first⟩

/-- `mon_master`, where `mons_sort[0].name` raises when nothing is found. -/
def monMaster : RoleCase := fun _ name nodes =>
  match sortByName nodes with
  | [] => none
  | first :: _ => some ⟨decide (name = first), first⟩

inductive Copy where
  | identity
  | ceph
  | monMaster
  deriving DecidableEq, Repr

def Copy.roleCase : Copy → RoleCase
  | .identity => identityElection
  | .ceph => cephElection
  | .monMaster => NodeElection.monMaster

/-- `tagging` is before the save of the node's own tag. -/
inductive Phase where
  | idle
  | noMaster
  | tagging (returned : String)
  deriving DecidableEq, Repr

/-- A call that has come back: the tagged nodes that its tag search found, and the result. -/
structure Call where
  caller : String
  seen : List String
  returned : String
  deriving DecidableEq, Repr

/-- Node objects are reduced to the tag. -/
structure State where
  server : Server Bool
  phase : String → Phase
  calls : List Call

def initial : State := ⟨⟨[], fun _ => false⟩, fun _ => .idle, []⟩

def State.goto (s : State) (n : String) (phase : Phase) : State :=
  { s with phase := Function.update s.phase n phase }

def State.comeBack (s : State) (n : String) (seen : List String) (returned : String) : State :=
  { s.goto n .idle with calls := ⟨n, seen, returned⟩ :: s.calls }

/-- The search results are part of the action. -/
inductive Action where
  | register (n : String)
  | tagSearch (n : String) (found : List String)
  | roleSearch (n : String) (nodes : List String)
  | saveTag (n : String)
  | abort (n : String)
  deriving DecidableEq, Repr

section Steps
variable (copy : Copy) (hostname : String → String)

def step (s : State) : Action → Option State
  | .register n =>
    if n ∈ s.server.registered then none else some { s with server := s.server.register n false }
  | .tagSearch n found =>
    match s.phase n with
    | .idle =>
      if n ∈ s.server.registered ∧ found.isPerm (s.server.search id) then
        match found with
        | [] => some (s.goto n .noMaster)
        | first :: _ => some (s.comeBack n found first)
      else none
    | _ => none
  | .roleSearch n nodes =>
    match s.phase n with
    | .noMaster =>
      if nodes.Nodup ∧ nodes ⊆ s.server.registered then
        match copy.roleCase hostname n nodes with
        | none => some (s.goto n .idle)
        | some outcome =>
          if outcome.tags then some (s.goto n (.tagging outcome.returned))
          else some (s.comeBack n [] outcome.returned)
      else none
    | _ => none
  | .saveTag n =>
    match s.phase n with
    | .tagging returned =>
      some { s.comeBack n [] returned with server := s.server.save n true }
    | _ => none
  | .abort n =>
    match s.phase n with
    | .idle => none
    | _ => some (s.goto n .idle)

end Steps

def Elected (s : State) (n : String) : Prop := ∃ c ∈ s.calls, c.caller = n ∧ c.returned = n

/-- One node is elected, and calls that saw the same tagged nodes have the same result. -/
structure Agrees (s : State) : Prop where
  sole : Sole (Elected s)
  seen : ∀ c ∈ s.calls, ∀ d ∈ s.calls, c.seen ≠ [] → (∀ n, n ∈ c.seen ↔ n ∈ d.seen) →
    c.returned = d.returned

def Phase.isTagging : Phase → Bool
  | .tagging _ => true
  | _ => false

/-- Tagged on the server, or about to save the tag. -/
def Claimed (s : State) (n : String) : Prop :=
  (s.server.object n || (s.phase n).isTagging) = true

instance (s : State) (n : String) : Decidable (Claimed s n) :=
  inferInstanceAs (Decidable (_ = true))

/-- The role search makes the node tag itself. -/
def TagsItself (copy : Copy) (hostname : String → String) (n : String) (nodes : List String) :
    Prop :=
  match (sortByName nodes).head?, copy with
  | none, .identity => True
  | none, _ => False
  | some first, .ceph => hostname n = hostname first
  | some first, _ => n = first

instance (copy : Copy) (hostname : String → String) (n : String) (nodes : List String) :
    Decidable (TagsItself copy hostname n nodes) := by
  unfold TagsItself
  split <;> infer_instance

/-- A node that is made to tag itself finds no claim of another node, and the ceph copy finds a
node of the role. -/
def Uncontested (copy : Copy) (hostname : String → String) (s : State) : Action → Prop
  | .roleSearch n nodes =>
    (TagsItself copy hostname n nodes → ∀ m ∈ s.server.registered, Claimed s m → m = n) ∧
    (copy = .ceph → nodes ≠ [])
  | _ => True

instance (copy : Copy) (hostname : String → String) (s : State) :
    ∀ a, Decidable (Uncontested copy hostname s a)
  | .roleSearch n nodes => inferInstanceAs (Decidable
      ((TagsItself copy hostname n nodes → ∀ m ∈ s.server.registered, Claimed s m → m = n) ∧
        (copy = .ceph → nodes ≠ [])))
  | .register _ | .tagSearch _ _ | .saveTag _ | .abort _ => inferInstanceAs (Decidable True)

/-- What a call that has come back leaves behind. -/
structure CallOk (s : State) (c : Call) : Prop where
  elected : c.returned = c.caller → s.server.object c.caller = true
  seen : c.seen ≠ [] → c.seen = [c.returned]

structure Inv (s : State) : Prop where
  claims : Claims id Phase.isTagging .idle s.server s.phase
  calls : ∀ c ∈ s.calls, CallOk s c

theorem inv_initial : Inv initial where
  claims :=
    { registered := List.nodup_nil
      running := fun n h => absurd rfl h
      found := by intro n h; cases h
      sole := by intro a b ha; cases ha }
  calls c hc := by cases hc

theorem inv_agrees (s : State) (hi : Inv s) : Agrees s where
  sole := by
    apply hi.claims.sole.mono
    rintro a ⟨c, hc, rfl, hreturned⟩
    simp [(hi.calls c hc).elected hreturned]
  seen c hc d hd hne hset := by
    have hcs := (hi.calls c hc).seen hne
    have hmem : c.returned ∈ d.seen := by
      rw [← hset, hcs]
      exact List.mem_singleton_self _
    have hds := (hi.calls d hd).seen (List.ne_nil_of_mem hmem)
    rw [hds, List.mem_singleton] at hmem
    exact hmem

/-- The outcome of a role search, in terms of its result. -/
theorem roleCase_spec {copy : Copy} {hostname : String → String} {n : String}
    {nodes : List String} {outcome : Outcome}
    (h : copy.roleCase hostname n nodes = some outcome) :
    (outcome.tags = true ↔ TagsItself copy hostname n nodes) ∧
    (outcome.tags = false → (copy = .ceph → nodes ≠ []) → outcome.returned ≠ n) := by
  have hnil (hs : sortByName nodes = []) : nodes = [] := by
    have hperm := List.perm_insertionSort (· ≤ ·) nodes
    rw [sortByName] at hs
    rw [hs] at hperm
    exact hperm.symm.eq_nil
  cases copy <;> simp only [Copy.roleCase, identityElection, cephElection, monMaster] at h <;>
    split at h <;> cases h <;> rename_i hs <;> simp only [TagsItself, hs, List.head?_cons,
      List.head?_nil]
  · simp
  · refine ⟨decide_eq_true_iff, fun hf _ he => ?_⟩
    exact of_decide_eq_false hf he.symm
  · refine ⟨by simp, fun _ hceph => absurd (hnil hs) (hceph trivial)⟩
  · refine ⟨decide_eq_true_iff, fun hf _ he => ?_⟩
    exact of_decide_eq_false hf (congrArg hostname he.symm)
  · refine ⟨decide_eq_true_iff, fun hf _ he => ?_⟩
    exact of_decide_eq_false hf he.symm

section Preservation
variable {s : State} (hi : Inv s) {n : String}
include hi

theorem inv_register (hn : n ∉ s.server.registered) :
    Inv { s with server := s.server.register n false } where
  claims := hi.claims.register hn rfl
  calls c hc := by
    refine ⟨fun h => ?_, (hi.calls c hc).seen⟩
    have hold := (hi.calls c hc).elected h
    have hne : c.caller ≠ n := by
      rintro rfl
      exact hn (hi.claims.found _ hold)
    simpa [Server.register, hne] using hold

theorem inv_goto (hn : n ∈ s.server.registered) {phase : Phase} (hphase : phase.isTagging = false) :
    Inv (s.goto n phase) where
  claims := hi.claims.move hn hphase
  calls c hc := ⟨(hi.calls c hc).elected, (hi.calls c hc).seen⟩

theorem inv_claim (hn : n ∈ s.server.registered) (returned : String)
    (hsole : ∀ m, Claimed s m → m = n) : Inv (s.goto n (.tagging returned)) where
  claims := by
    show Claims id Phase.isTagging .idle s.server (Function.update s.phase n _)
    rw [← s.server.save_object n]
    exact hi.claims.write hn fun _ => hsole
  calls c hc := ⟨(hi.calls c hc).elected, (hi.calls c hc).seen⟩

theorem inv_comeBack (hn : n ∈ s.server.registered) {seen : List String} {returned : String}
    (hcall : CallOk s ⟨n, seen, returned⟩) : Inv (s.comeBack n seen returned) where
  claims := hi.claims.move hn rfl
  calls c hc := by
    rcases List.mem_cons.mp hc with rfl | hc
    · exact ⟨hcall.elected, hcall.seen⟩
    · exact ⟨(hi.calls c hc).elected, (hi.calls c hc).seen⟩

/-- The tagged nodes that a search finds are one. -/
theorem found_singleton {first : String} {rest : List String}
    (h : (first :: rest).isPerm (s.server.search id)) :
    rest = [] ∧ s.server.object first = true := by
  have hperm := List.isPerm_iff.mp h
  have hlen := hi.claims.length_le_one hperm
  exact ⟨by simpa using hlen, (s.server.mem_search.mp (hperm.mem_iff.mp (by simp))).2⟩

theorem inv_saveTag {returned : String} (hphase : s.phase n = .tagging returned) :
    Inv { s.comeBack n [] returned with server := s.server.save n true } where
  claims := by
    -- the tag takes the place of the claim that `n` had already
    have hn : n ∈ s.server.registered := hi.claims.running n (by simp [hphase])
    refine hi.claims.write hn fun _ a ha => ?_
    exact hi.claims.sole a n ha (by simp [hphase, Phase.isTagging])
  calls c hc := by
    rcases List.mem_cons.mp hc with rfl | hc
    · exact ⟨fun _ => by simp [Server.save], fun h => absurd rfl h⟩
    · refine ⟨fun h => ?_, (hi.calls c hc).seen⟩
      by_cases hcn : c.caller = n
      · simp [Server.save, hcn]
      · simpa [Server.save, hcn] using (hi.calls c hc).elected h

end Preservation

section Runs
variable {copy : Copy} {hostname : String → String}

theorem inv_step (s : State) (a : Action) (t : State) (hi : Inv s)
    (hok : Uncontested copy hostname s a) (h : step copy hostname s a = some t) : Inv t := by
  cases a with
  | register n =>
    simp only [step] at h
    split at h
    · cases h
    next hn =>
      cases h
      exact inv_register hi hn
  | tagSearch n found =>
    simp only [step] at h
    split at h
    next =>
      split at h
      next hsearch =>
        obtain ⟨hn, hfound⟩ := hsearch
        split at h
        · cases h
          exact inv_goto hi hn rfl
        next first rest =>
          cases h
          obtain ⟨rfl, htagged⟩ := found_singleton hi hfound
          refine inv_comeBack hi hn ⟨fun he => ?_, fun _ => rfl⟩
          exact he ▸ htagged
      next => cases h
    next => cases h
  | roleSearch n nodes =>
    simp only [step] at h
    split at h
    next hphase =>
      have hn := hi.claims.running n (by simp [hphase])
      split at h
      next =>
        split at h
        next =>
          cases h
          exact inv_goto hi hn rfl
        next outcome houtcome =>
          obtain ⟨htags, hnot⟩ := roleCase_spec houtcome
          split at h
          next ht =>
            cases h
            have hsole := hok.1 (htags.mp ht)
            exact inv_claim hi hn _ fun m hm => hsole m (hi.claims.mem_registered rfl hm) hm
          next ht =>
            cases h
            refine inv_comeBack hi hn ⟨fun he => ?_, fun hne => absurd rfl hne⟩
            exact absurd he (hnot (Bool.eq_false_iff.mpr ht) hok.2)
      next => cases h
    next => cases h
  | saveTag n =>
    simp only [step] at h
    split at h
    next returned hphase =>
      cases h
      exact inv_saveTag hi hphase
    next => cases h
  | abort n =>
    simp only [step] at h
    split at h
    next => cases h
    next hne =>
      cases h
      exact inv_goto hi (hi.claims.running n hne) rfl

/-- In a run in which every claim is uncontested, each of the copies elects one node. -/
theorem agrees_of_uncontested (copy : Copy) (hostname : String → String) (as : List Action)
    (h : Guarded (step copy hostname) (Uncontested copy hostname) initial as) :
    Always (step copy hostname) Agrees initial as :=
  Always.of_guarded inv_step inv_agrees inv_initial h

end Runs

/-- One node elects itself, and a second one finds it. -/
theorem agrees_in_turn : Always (step .identity id) Agrees initial
    [.register "a", .tagSearch "a" [], .roleSearch "a" ["a"], .saveTag "a", .register "b",
      .tagSearch "b" ["a"]] :=
  agrees_of_uncontested .identity id _ (by decide +kernel)

/-- `b` has found itself the only node of its role when `a` registers, and `a` searches before
`b` has saved its tag. Later searches return the two tagged nodes in either order. -/
def race : List Action :=
  [.register "b", .tagSearch "b" [], .roleSearch "b" ["b"], .register "a", .tagSearch "a" [],
    .roleSearch "a" ["b", "a"], .saveTag "b", .saveTag "a", .tagSearch "a" ["a", "b"],
    .tagSearch "b" ["b", "a"]]

def raceCalls : List Call :=
  [⟨"b", ["b", "a"], "b"⟩, ⟨"a", ["a", "b"], "a"⟩, ⟨"a", [], "a"⟩, ⟨"b", [], "b"⟩]

theorem not_sole_raceCalls {t : State} (h : t.calls = raceCalls) : ¬ Sole (Elected t) := by
  intro hsole
  have hab : "a" = "b" := hsole "a" "b" ⟨⟨"a", [], "a"⟩, by simp [h, raceCalls], rfl, rfl⟩
    ⟨⟨"b", [], "b"⟩, by simp [h, raceCalls], rfl, rfl⟩
  exact absurd hab (by decide)

theorem race_disagrees {copy : Copy}
    (h : (run (step copy id) initial race).map State.calls = some raceCalls) :
    ¬ Always (step copy id) Agrees initial race := by
  intro halways
  obtain ⟨t, ht, hcalls⟩ := Option.map_eq_some_iff.mp h
  exact not_sole_raceCalls hcalls (halways.run_end ht).sole

/-- Every copy elects both nodes; the two calls at the end see the same tags and differ. -/
theorem two_elected :
    ¬ Always (step .identity id) Agrees initial race ∧
    ¬ Always (step .ceph id) Agrees initial race ∧
    ¬ Always (step .monMaster id) Agrees initial race :=
  ⟨race_disagrees (by decide +kernel), race_disagrees (by decide +kernel),
    race_disagrees (by decide +kernel)⟩

end CompassAdapters.Chef.NodeElection
