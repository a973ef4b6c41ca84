import CompassAdapters.Transition.Runs
import Mathlib.Logic.Function.Basic
import Mathlib.Tactic.Common

/-! The secret of the ceph monitors. The nodes run `mon.rb` in any order and any number of times: the
master makes the secret, and the other nodes find it on the Chef server. A search may lag behind and
returns its nodes in any order; a run may be stopped anywhere. -/
namespace CompassAdapters.Ceph.MonSecret
open Transition

/-- Where the run of a node stands; `saving` is between the keyring and `save mon_secret`, after
`--gen-key` or not. -/
inductive Phase
  | idle
  | admin
  | secret
  | onlyIf
  | format
  | notIf
  | generate
  | saving (generated : Bool)
  | mkfs
  | bootstrap
  | saveAdmin
  deriving DecidableEq, Repr

/-- The attributes that the node has saved, its files, and its run. -/
structure Node where
  monitor_secret : Option String
  bootstrap_osd_key : Bool
  admin_secret : Option String
  keyring : Option String
  done : Bool
  phase : Phase
  deriving DecidableEq, Repr

abbrev State := String → Node

def initial : State := fun _ => ⟨none, false, none, none, false, .idle⟩

/-- What `mon_secret` is told: `mon_nodes` when it is called first and again, and `mon_master`. -/
structure Call where
  found : List String
  again : List String
  master : String
  deriving DecidableEq, Repr

/-- With cephx, `mon_nodes` are nodes with a bootstrap key. -/
def Call.Valid (c : Call) (s : State) : Prop :=
  ∀ m ∈ c.found ++ c.again, (s m).bootstrap_osd_key = true

instance instDecidableValid (c : Call) (s : State) : Decidable (c.Valid s) :=
  inferInstanceAs (Decidable (∀ m ∈ c.found ++ c.again, (s m).bootstrap_osd_key = true))

/-- `none` is the error for `mon_nodes[0]` of an empty list. -/
def monSecret (s : State) (n : String) (c : Call) : Option (Option String) :=
  if c.found ≠ [] then c.again.head?.map fun m => (s m).monitor_secret
  else
    match (s n).monitor_secret with
    | some key => some (some key)
    | none =>
      if c.master ≠ n then c.again.head?.map fun m => (s m).monitor_secret
      else some none

inductive Act
  | start (master : String)
  | adminSecret (master : String)
  | monSecret (call : Call)
  | onlyIf (call : Call)
  | format (call : Call)
  | notIf (call : Call)
  | generate (key : String)
  | saveSecret
  | finalise
  | saveBootstrap
  | saveAdmin (key : String)
  | abort
  deriving DecidableEq, Repr

/-- `unless File.exist?` is decided before anything of the recipe takes place. -/
def Node.opened (v : Node) : Phase := if v.done then .bootstrap else .onlyIf

/-- What a node becomes by a step of its run. -/
def act (s : State) (n : String) : Act → Option Node
  | .start master =>
    if (s n).phase = .idle then
      some { s n with phase := if master = n then (s n).opened else .admin }
    else none
  | .adminSecret master =>
    if (s n).phase = .admin then
      some { s n with phase := if (s master).admin_secret = none then .idle else .secret }
    else none
  | .monSecret c =>
    if (s n).phase = .secret ∧ c.Valid s then
      match monSecret s n c with
      | some (some _) => some { s n with phase := (s n).opened }
      | _ => some { s n with phase := .idle } -- `fatal!`, or an error
    else none
  | .onlyIf c =>
    if (s n).phase = .onlyIf ∧ c.Valid s then
      match monSecret s n c with
      | none => some { s n with phase := .idle }
      | some none => some { s n with phase := .notIf }
      | some (some _) =>
        some { s n with phase := if (s n).keyring = none then .format else .notIf }
    else none
  | .format c =>
    if (s n).phase = .format ∧ c.Valid s then
      match monSecret s n c with
      | some (some key) => some { s n with keyring := some key, phase := .saving false }
      | _ => some { s n with phase := .idle } -- `--add-key=''` is refused
    else none
  | .notIf c =>
    if (s n).phase = .notIf ∧ c.Valid s then
      match monSecret s n c with
      | none => some { s n with phase := .idle }
      | some none => some { s n with phase := if (s n).keyring = none then .generate else .mkfs }
      | some (some _) => some { s n with phase := .mkfs }
    else none
  | .generate key =>
    if (s n).phase = .generate then
      some { s n with keyring := some key, phase := .saving true }
    else none
  | .saveSecret =>
    match (s n).phase with
    | .saving generated => some { s n with
        monitor_secret := (s n).keyring, phase := if generated then .mkfs else .notIf }
    | _ => none
  | .finalise =>
    if (s n).phase = .mkfs then some { s n with done := true, phase := .bootstrap } else none
  | .saveBootstrap =>
    if (s n).phase = .bootstrap then
      some { s n with bootstrap_osd_key := true, phase := .saveAdmin }
    else none
  | .saveAdmin key =>
    if (s n).phase = .saveAdmin then some { s n with admin_secret := some key, phase := .idle }
    else none
  | .abort => if (s n).phase = .idle then none else some { s n with phase := .idle }

def step (s : State) (a : String × Act) : Option State :=
  (act s a.1 a.2).map (Function.update s a.1)

/-- Two keys of monitors are the same, on the server or in a keyring. -/
def Agree (s : State) : Prop :=
  ∀ n m, ∀ k ∈ (s n).keyring.toList ++ (s n).monitor_secret.toList,
    ∀ l ∈ (s m).keyring.toList ++ (s m).monitor_secret.toList, k = l

/-- Every call gives the same master, and no other node is stopped between its keyring and the
save. -/
def Orderly (master : String) (s : State) (a : String × Act) : Prop :=
  match a.2 with
  | .start m | .adminSecret m => m = master
  | .monSecret c | .onlyIf c | .format c | .notIf c => c.master = master
  | .abort => (s a.1).phase = .saving false → a.1 = master
  | _ => True

instance instDecidableOrderly (master : String) (s : State) : ∀ a, Decidable (Orderly master s a)
  | (_, .start m) | (_, .adminSecret m) => inferInstanceAs (Decidable (m = master))
  | (_, .monSecret c) | (_, .onlyIf c) | (_, .format c) | (_, .notIf c) =>
    inferInstanceAs (Decidable (c.master = master))
  | (n, .abort) => inferInstanceAs (Decidable ((s n).phase = .saving false → n = master))
  | (_, .generate _) | (_, .saveSecret) | (_, .finalise) | (_, .saveBootstrap)
  | (_, .saveAdmin _) => inferInstanceAs (Decidable True)

section Invariant

variable {master n : String} {s t : State} {started started' : Prop} {known known' : Option String}
  {v : Node} {c : Call}

/-- How far a node that is not the master can be, when the master has saved the secret or not. -/
def Place (started filled : Prop) : Phase → Prop
  | .idle | .admin | .secret => True
  | .onlyIf | .format => started
  | .saving generated => started ∧ generated = false
  | .generate => False
  | .notIf | .mkfs | .bootstrap | .saveAdmin => started ∧ filled

/-- A node that is not the master. -/
structure Member (started : Prop) (v : Node) : Prop where
  filed : v.keyring ≠ none → v.monitor_secret ≠ none ∨ v.phase = .saving false
  keyed : v.bootstrap_osd_key = true → v.monitor_secret ≠ none
  done : v.done = true → v.keyring ≠ none
  place : Place started (v.keyring ≠ none) v.phase

/-- A node, when the keyring of the master is `known`. -/
structure Good (started : Prop) (known : Option String) (v : Node) : Prop where
  agree : ∀ k, v.keyring = some k → known = some k
  saved : ∀ k, v.monitor_secret = some k → v.keyring = some k
  origin : v.monitor_secret ≠ none → started
  empty : v.phase = .format ∨ v.phase = .generate → v.keyring = none
  filled : ∀ generated, v.phase = .saving generated → v.keyring ≠ none

structure Inv (master : String) (s : State) : Prop where
  good : ∀ n, Good ((s master).monitor_secret ≠ none) (s master).keyring (s n)
  member : ∀ n, n ≠ master → Member ((s master).monitor_secret ≠ none) (s n)

theorem Place.mono {filled : Prop} {p : Phase} (h : Place started filled p)
    (hstarted : started → started') : Place started' filled p := by
  cases p <;> first | exact h | exact hstarted h | exact h.imp_left hstarted

theorem Member.mono (h : Member started v) (hstarted : started → started') :
    Member started' v := ⟨h.filed, h.keyed, h.done, h.place.mono hstarted⟩

theorem Member.goto (h : Member started v) (hold : v.phase ≠ .saving false) {p : Phase}
    (hplace : Place started (v.keyring ≠ none) p) : Member started { v with phase := p } :=
  ⟨fun hkeyring => Or.inl ((h.filed hkeyring).resolve_right hold), h.keyed, h.done, hplace⟩

theorem Good.mono (h : Good started known v) (hstarted : started → started')
    (hknown : ∀ k, known = some k → known' = some k) : Good started' known' v :=
  ⟨fun k hk => hknown k (h.agree k hk), h.saved, fun hs => hstarted (h.origin hs), h.empty,
    h.filled⟩

theorem Inv.write_member (h : Inv master s) (hn : n ≠ master)
    (hgood : Good ((s master).monitor_secret ≠ none) (s master).keyring v)
    (hmember : Member ((s master).monitor_secret ≠ none) v) :
    Inv master (Function.update s n v) := by
  have hmaster : Function.update s n v master = s master := Function.update_of_ne hn.symm v s
  refine ⟨fun m => ?_, fun m hm => ?_⟩
  · rw [hmaster, Function.update_apply]
    split
    next => exact hgood
    next => exact h.good m
  · rw [hmaster, Function.update_apply]
    split
    next => exact hmember
    next => exact h.member m hm

/-- The master never changes a keyring or drops the secret. -/
theorem Inv.write_master (h : Inv master s) (hgood : Good (v.monitor_secret ≠ none) v.keyring v)
    (hsecret : (s master).monitor_secret ≠ none → v.monitor_secret ≠ none)
    (hkeyring : ∀ k, (s master).keyring = some k → v.keyring = some k) :
    Inv master (Function.update s master v) := by
  refine ⟨fun m => ?_, fun m hm => ?_⟩
  · rw [Function.update_self, Function.update_apply]
    split
    next => exact hgood
    next => exact (h.good m).mono hsecret hkeyring
  · rw [Function.update_self, Function.update_of_ne hm]
    exact (h.member m hm).mono hsecret

/-- A step that leaves the keyring and the secret as they are. -/
theorem Inv.keep (h : Inv master s) (hkeyring : v.keyring = (s n).keyring)
    (hsecret : v.monitor_secret = (s n).monitor_secret)
    (hempty : v.phase = .format ∨ v.phase = .generate → v.keyring = none)
    (hphase : ∀ generated, v.phase ≠ .saving generated)
    (hmember : n ≠ master → Member ((s master).monitor_secret ≠ none) v) :
    Inv master (Function.update s n v) := by
  obtain ⟨hagree, hsaved, horigin, -, -⟩ := h.good n
  rw [← hkeyring] at hagree
  rw [← hkeyring, ← hsecret] at hsaved
  rw [← hsecret] at horigin
  have hfilled : ∀ generated, v.phase = .saving generated → v.keyring ≠ none :=
    fun generated hsaving => absurd hsaving (hphase generated)
  by_cases hn : n = master
  · obtain rfl := hn
    refine h.write_master ⟨fun _ hk => hk, hsaved, id, hempty, hfilled⟩ ?_ ?_
    · rw [hsecret]
      exact id
    · rw [hkeyring]
      exact fun _ => id
  · exact h.write_member hn ⟨hagree, hsaved, horigin, hempty, hfilled⟩ (hmember hn)

/-- What is found is saved somewhere, and so it is the key of the master. -/
theorem Inv.of_monSecret (h : Inv master s) {key : String}
    (hfound : monSecret s n c = some (some key)) :
    (s master).keyring = some key ∧ (s master).monitor_secret ≠ none := by
  obtain ⟨m, hm⟩ : ∃ m, (s m).monitor_secret = some key := by
    have hagain (h : (c.again.head?.map fun m => (s m).monitor_secret) = some (some key)) :
        ∃ m, (s m).monitor_secret = some key := by
      obtain ⟨m, -, hm⟩ := Option.map_eq_some_iff.mp h
      exact ⟨m, hm⟩
    rw [monSecret] at hfound
    split at hfound
    next => exact hagain hfound
    next =>
      split at hfound
      next own => exact ⟨n, own.trans (Option.some.inj hfound)⟩
      next =>
        split at hfound
        next => exact hagain hfound
        next => cases hfound
  obtain ⟨hagree, hsaved, horigin, -, -⟩ := h.good m
  exact ⟨hagree key (hsaved key hm), horigin (by rw [hm]; exact Option.some_ne_none key)⟩

/-- Once the master has saved the secret, another node never finds that there is none. -/
theorem Inv.monSecret_ne (h : Inv master s) (hn : n ≠ master) (hvalid : c.Valid s)
    (hmaster : c.master = master) (hstarted : (s master).monitor_secret ≠ none) :
    monSecret s n c ≠ some none := by
  have hagain : (c.again.head?.map fun m => (s m).monitor_secret) ≠ some none := by
    intro hnone
    obtain ⟨m, hm, hsecret⟩ := Option.map_eq_some_iff.mp hnone
    have hkeyed := hvalid m (List.mem_append_right _ (List.mem_of_mem_head? hm))
    by_cases hmm : m = master
    · exact hstarted (hmm ▸ hsecret)
    · exact (h.member m hmm).keyed hkeyed hsecret
  rw [monSecret]
  split
  next => exact hagain
  next =>
    split
    next => nofun
    next =>
      rw [hmaster, if_pos hn.symm]
      exact hagain

theorem Node.opened_cases (v : Node) :
    (v.done = true ∧ v.opened = .bootstrap) ∨ (v.done = false ∧ v.opened = .onlyIf) := by
  rw [opened]
  cases v.done <;> simp

end Invariant

section Steps

variable {master n : String} {s : State} {v : Node}

theorem inv_initial : Inv master initial where
  good _ := ⟨nofun, nofun, fun h => absurd rfl h, fun _ => rfl, nofun⟩
  member _ _ := ⟨fun h => absurd rfl h, nofun, nofun, trivial⟩

/-- A step to another phase alone. -/
theorem Inv.goto (h : Inv master s) {p : Phase}
    (hempty : p = .format ∨ p = .generate → (s n).keyring = none)
    (hphase : ∀ generated, p ≠ .saving generated)
    (hplace : n ≠ master → (s n).phase ≠ .saving false ∧
      Place ((s master).monitor_secret ≠ none) ((s n).keyring ≠ none) p) :
    Inv master (Function.update s n { s n with phase := p }) :=
  h.keep rfl rfl hempty hphase fun hn => (h.member n hn).goto (hplace hn).1 (hplace hn).2

theorem Inv.leave (h : Inv master s) (hold : n ≠ master → (s n).phase ≠ .saving false) :
    Inv master (Function.update s n { s n with phase := .idle }) :=
  h.goto (by simp) nofun fun hn => ⟨hold hn, trivial⟩

theorem Inv.open (h : Inv master s) (hold : (s n).phase ≠ .saving false)
    (hstarted : n ≠ master → (s master).monitor_secret ≠ none) :
    Inv master (Function.update s n { s n with phase := (s n).opened }) := by
  rcases (s n).opened_cases with ⟨hdone, hopened⟩ | ⟨-, hopened⟩
  · rw [hopened]
    exact h.goto (by simp) nofun fun hn => ⟨hold, hstarted hn, (h.member n hn).done hdone⟩
  · rw [hopened]
    exact h.goto (by simp) nofun fun hn => ⟨hold, hstarted hn⟩

theorem inv_start (h : Inv master s) (hact : act s n (.start master) = some v) :
    Inv master (Function.update s n v) := by
  simp only [act] at hact
  split at hact
  next hidle =>
    obtain rfl := Option.some.inj hact
    have hold : (s n).phase ≠ .saving false := by simp [hidle]
    split
    next hn => exact h.open hold fun hne => absurd hn.symm hne
    next => exact h.goto (by simp) nofun fun _ => ⟨hold, trivial⟩
  next => cases hact

theorem inv_adminSecret (h : Inv master s) (hact : act s n (.adminSecret master) = some v) :
    Inv master (Function.update s n v) := by
  simp only [act] at hact
  split at hact
  next hadmin =>
    obtain rfl := Option.some.inj hact
    have hold : (s n).phase ≠ .saving false := by simp [hadmin]
    split
    next => exact h.leave fun _ => hold
    next => exact h.goto (by simp) nofun fun _ => ⟨hold, trivial⟩
  next => cases hact

variable {c : Call}

theorem inv_monSecret (h : Inv master s) (hact : act s n (.monSecret c) = some v) :
    Inv master (Function.update s n v) := by
  simp only [act] at hact
  split at hact
  next hsecret =>
    have hold : (s n).phase ≠ .saving false := by simp [hsecret.1]
    split at hact
    next hfound =>
      obtain rfl := Option.some.inj hact
      exact h.open hold fun _ => (h.of_monSecret hfound).2
    next =>
      obtain rfl := Option.some.inj hact
      exact h.leave fun _ => hold
  next => cases hact

theorem inv_onlyIf (h : Inv master s) (hmaster : c.master = master)
    (hact : act s n (.onlyIf c) = some v) : Inv master (Function.update s n v) := by
  simp only [act] at hact
  split at hact
  next hphase =>
    obtain ⟨honlyIf, hvalid⟩ := hphase
    have hold : (s n).phase ≠ .saving false := by simp [honlyIf]
    have hstarted (hn : n ≠ master) : (s master).monitor_secret ≠ none := by
      have hplace := (h.member n hn).place
      rwa [honlyIf] at hplace
    split at hact
    next =>
      obtain rfl := Option.some.inj hact
      exact h.leave fun _ => hold
    next hnone =>
      obtain rfl := Option.some.inj hact
      refine h.goto (by simp) nofun fun hn => ?_
      exact absurd hnone (h.monSecret_ne hn hvalid hmaster (hstarted hn))
    next =>
      obtain rfl := Option.some.inj hact
      split
      next hempty => exact h.goto (fun _ => hempty) nofun fun hn => ⟨hold, hstarted hn⟩
      next hfull => exact h.goto (by simp) nofun fun hn => ⟨hold, hstarted hn, hfull⟩
  next => cases hact

theorem inv_format (h : Inv master s) (hact : act s n (.format c) = some v) :
    Inv master (Function.update s n v) := by
  simp only [act] at hact
  split at hact
  next hphase =>
    obtain ⟨hformat, -⟩ := hphase
    have hempty := (h.good n).empty (Or.inl hformat)
    split at hact
    next key hfound =>
      obtain rfl := Option.some.inj hact
      obtain ⟨hkey, hstarted⟩ := h.of_monSecret hfound
      -- the master has a keyring, and so it is not the one that makes this one
      have hn : n ≠ master := by
        rintro rfl
        rw [hempty] at hkey
        cases hkey
      have hnone : (s n).monitor_secret = none := by
        cases hsecret : (s n).monitor_secret with
        | none => rfl
        | some k =>
          have hk := (h.good n).saved k hsecret
          rw [hempty] at hk
          cases hk
      refine h.write_member hn ⟨?_, ?_, (h.good n).origin, by simp, by simp⟩
        ⟨fun _ => Or.inr rfl, (h.member n hn).keyed, fun _ => Option.some_ne_none key,
          hstarted, rfl⟩
      · intro k hk
        exact hkey.trans hk
      · intro k hk
        exact absurd hk (by simp [hnone])
    next =>
      obtain rfl := Option.some.inj hact
      exact h.leave fun _ => by simp [hformat]
  next => cases hact

theorem inv_notIf (h : Inv master s) (hmaster : c.master = master)
    (hact : act s n (.notIf c) = some v) : Inv master (Function.update s n v) := by
  simp only [act] at hact
  split at hact
  next hphase =>
    obtain ⟨hnotIf, hvalid⟩ := hphase
    have hold : (s n).phase ≠ .saving false := by simp [hnotIf]
    have hplace (hn : n ≠ master) :
        (s master).monitor_secret ≠ none ∧ (s n).keyring ≠ none := by
      have hplace := (h.member n hn).place
      rwa [hnotIf] at hplace
    split at hact
    next =>
      obtain rfl := Option.some.inj hact
      exact h.leave fun _ => hold
    next hnone =>
      obtain rfl := Option.some.inj hact
      have hn : n = master := by
        by_contra hn
        exact h.monSecret_ne hn hvalid hmaster (hplace hn).1 hnone
      split
      next hempty => exact h.goto (fun _ => hempty) nofun fun hne => absurd hn hne
      next => exact h.goto (by simp) nofun fun hne => absurd hn hne
    next =>
      obtain rfl := Option.some.inj hact
      exact h.goto (by simp) nofun fun hn => ⟨hold, hplace hn⟩
  next => cases hact

theorem inv_generate (h : Inv master s) {key : String}
    (hact : act s n (.generate key) = some v) : Inv master (Function.update s n v) := by
  simp only [act] at hact
  split at hact
  next hgenerate =>
    obtain rfl := Option.some.inj hact
    have hempty := (h.good n).empty (Or.inr hgenerate)
    have hn : n = master := by
      by_contra hn
      have hplace := (h.member n hn).place
      rw [hgenerate] at hplace
      exact hplace
    obtain rfl := hn
    have hsaved {k : String} (hk : (s n).monitor_secret = some k) : False := by
      have hkeyring := (h.good n).saved k hk
      rw [hempty] at hkeyring
      cases hkeyring
    refine h.write_master ⟨fun _ hk => hk, fun k hk => (hsaved hk).elim, id, by simp, by simp⟩ id
      fun k hk => ?_
    rw [hempty] at hk
    cases hk
  next => cases hact

theorem inv_saveSecret (h : Inv master s) (hact : act s n .saveSecret = some v) :
    Inv master (Function.update s n v) := by
  simp only [act] at hact
  split at hact
  next generated hsaving =>
    obtain rfl := Option.some.inj hact
    have hfilled := (h.good n).filled generated hsaving
    have hempty : ¬ ((if generated then Phase.mkfs else Phase.notIf) = .format ∨
        (if generated then Phase.mkfs else Phase.notIf) = .generate) := by
      cases generated <;> simp
    have hphase (g : Bool) : (if generated then Phase.mkfs else Phase.notIf) ≠ .saving g := by
      cases generated <;> simp
    by_cases hn : n = master
    · obtain rfl := hn
      exact h.write_master ⟨fun _ hk => hk, fun _ hk => hk, id, fun hp => absurd hp hempty,
        fun g hp => absurd hp (hphase g)⟩ (fun _ => hfilled) fun _ hk => hk
    · have hplace := (h.member n hn).place
      rw [hsaving] at hplace
      obtain ⟨hstarted, rfl⟩ := hplace
      exact h.write_member hn ⟨(h.good n).agree, fun _ hk => hk, fun _ => hstarted,
        fun hp => absurd hp hempty, fun g hp => absurd hp (hphase g)⟩
        ⟨fun _ => Or.inl hfilled, fun _ => hfilled, fun _ => hfilled, hstarted, hfilled⟩
  next => cases hact

theorem inv_finalise (h : Inv master s) (hact : act s n .finalise = some v) :
    Inv master (Function.update s n v) := by
  simp only [act] at hact
  split at hact
  next hmkfs =>
    obtain rfl := Option.some.inj hact
    refine h.keep rfl rfl (by simp) (by simp) fun hn => ?_
    obtain ⟨hfiled, hkeyed, -, hplace⟩ := h.member n hn
    rw [hmkfs] at hfiled hplace
    exact ⟨fun hk => Or.inl ((hfiled hk).resolve_right nofun), hkeyed, fun _ => hplace.2, hplace⟩
  next => cases hact

theorem inv_saveBootstrap (h : Inv master s) (hact : act s n .saveBootstrap = some v) :
    Inv master (Function.update s n v) := by
  simp only [act] at hact
  split at hact
  next hbootstrap =>
    obtain rfl := Option.some.inj hact
    refine h.keep rfl rfl (by simp) (by simp) fun hn => ?_
    obtain ⟨hfiled, -, hdone, hplace⟩ := h.member n hn
    rw [hbootstrap] at hfiled hplace
    have hsecret := (hfiled hplace.2).resolve_right nofun
    exact ⟨fun _ => Or.inl hsecret, fun _ => hsecret, hdone, hplace⟩
  next => cases hact

theorem inv_saveAdmin (h : Inv master s) {key : String}
    (hact : act s n (.saveAdmin key) = some v) : Inv master (Function.update s n v) := by
  simp only [act] at hact
  split at hact
  next hadmin =>
    obtain rfl := Option.some.inj hact
    refine h.keep rfl rfl (by simp) (by simp) fun hn => ?_
    obtain ⟨hfiled, hkeyed, hdone, -⟩ := h.member n hn
    rw [hadmin] at hfiled
    exact ⟨fun hk => Or.inl ((hfiled hk).resolve_right nofun), hkeyed, hdone, trivial⟩
  next => cases hact

theorem inv_step (s : State) (a : String × Act) (t : State) (h : Inv master s)
    (hok : Orderly master s a) (hstep : step s a = some t) : Inv master t := by
  obtain ⟨n, a⟩ := a
  obtain ⟨v, hact, rfl⟩ := Option.map_eq_some_iff.mp hstep
  cases a with
  | start m =>
    obtain rfl : m = master := hok
    exact inv_start h hact
  | adminSecret m =>
    obtain rfl : m = master := hok
    exact inv_adminSecret h hact
  | monSecret c => exact inv_monSecret h hact
  | onlyIf c => exact inv_onlyIf h hok hact
  | format c => exact inv_format h hact
  | notIf c => exact inv_notIf h hok hact
  | generate key => exact inv_generate h hact
  | saveSecret => exact inv_saveSecret h hact
  | finalise => exact inv_finalise h hact
  | saveBootstrap => exact inv_saveBootstrap h hact
  | saveAdmin key => exact inv_saveAdmin h hact
  | abort =>
    simp only [act] at hact
    split at hact
    next => cases hact
    next =>
      obtain rfl := Option.some.inj hact
      exact h.leave fun hn hsaving => hn (hok hsaving)

theorem Inv.agree (h : Inv master s) : Agree s := by
  have hkey (n k : String) (hk : k ∈ (s n).keyring.toList ++ (s n).monitor_secret.toList) :
      (s master).keyring = some k := by
    rcases List.mem_append.mp hk with hkeyring | hsecret
    · exact (h.good n).agree k (Option.mem_toList.mp hkeyring)
    · exact (h.good n).agree k ((h.good n).saved k (Option.mem_toList.mp hsecret))
  intro n m k hk l hl
  exact Option.some.inj ((hkey n k hk).symm.trans (hkey m l hl))

/-- In every run in which the calls give one master, and another node that has its keyring comes to
the save, all monitors have the same secret. -/
theorem secrets_agree (master : String) (as : List (String × Act))
    (h : Guarded step (Orderly master) initial as) : Always step Agree initial as :=
  Always.of_guarded inv_step (fun _ h => h.agree) inv_initial h

/-- The first run of the master. -/
def masterRun : List (String × Act) :=
  [.start "a", .onlyIf ⟨[], [], "a"⟩, .notIf ⟨[], [], "a"⟩, .generate "k", .saveSecret, .finalise,
    .saveBootstrap, .saveAdmin "x"].map ("a", ·)

/-- What leads another node to its keyring. -/
def memberRun (n : String) : List (String × Act) :=
  [.start "a", .adminSecret "a", .monSecret ⟨["a"], ["a"], "a"⟩, .onlyIf ⟨["a"], ["a"], "a"⟩,
    .format ⟨["a"], ["a"], "a"⟩].map (n, ·)

theorem secrets_agree_twoNodes :
    Always step Agree initial (masterRun ++ memberRun "b" ++ [("b", .saveSecret)]) :=
  secrets_agree "a" _ (by decide +kernel)

/-- A node that is stopped before the save has a bootstrap key later on and no secret, and a third
one that finds it makes a key of its own. -/
example : (run step initial (masterRun ++ memberRun "b" ++ [("b", .abort)] ++
      ([.start "a", .adminSecret "a", .monSecret ⟨["a"], ["a"], "a"⟩, .onlyIf ⟨["a"], ["a"], "a"⟩,
        .notIf ⟨["a"], ["a"], "a"⟩, .finalise, .saveBootstrap, .saveAdmin "x"].map ("b", ·)) ++
      ([.start "a", .adminSecret "a", .monSecret ⟨["a"], ["a"], "a"⟩, .onlyIf ⟨["b"], ["b"], "a"⟩,
        .notIf ⟨["b"], ["b"], "a"⟩, .generate "l"].map ("c", ·)))).map
      (fun s => ((s "a").keyring, (s "c").keyring)) = some (some "k", some "l") := by
  decide +kernel

end Steps

end CompassAdapters.Ceph.MonSecret
