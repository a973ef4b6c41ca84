import CompassAdapters.Transition.Runs
import Mathlib.Algebra.Order.Ring.Rat
import Mathlib.Data.List.Chain
import Mathlib.Logic.Function.Basic
import Mathlib.Tactic.Linarith

/-! The connection of `kairosdb_writer.py`. The threads of collectd write in any order. They share a
socket, and hold a lock while they connect and while they send, but not in between. -/
namespace CompassAdapters.Collectd
open Transition

/-- What the writers share. Sockets are numbered in the order in which they are made. -/
structure Data where
  sock : Option ℕ
  last_connect_time : ℚ
  deriving DecidableEq

/-- What becomes of an attempt to connect: `socket.socket` may raise too. -/
inductive Connected
  | connected
  | refused
  | noSocket
  deriving DecidableEq, Repr

/-- What becomes of `sendall` or `sendto`. When the call returns, the message has been handed to a
socket; whether it arrives is not known. -/
inductive Sent
  | returned
  | socketError
  | otherError
  deriving DecidableEq, Repr

section Source

variable (tcp : Bool)

/-- The socket is kept if `connect` raises. -/
def kairosdbConnect (now : ℚ) (outcome : Connected) (made : ℕ) (data : Data) : Bool × Data :=
  if data.sock = none ∧ tcp = true then
    if now - data.last_connect_time < 10 then (false, data)
    else
      match outcome with
      | .connected => (true, ⟨some made, now⟩)
      | .refused => (false, ⟨some made, now⟩)
      | .noSocket => (false, ⟨none, now⟩)
  else (true, data)

/-- `kairosdb_connect` comes to an attempt. -/
def attemptsNow (now : ℚ) (data : Data) : Bool :=
  decide (data.sock = none ∧ tcp = true ∧ ¬ now - data.last_connect_time < 10)

/-- `None.sendall` is an error that is no socket error. -/
def kairosdbWriteData (sent : Sent) (data : Data) : Bool × Data :=
  match (if tcp = true ∧ data.sock = none then .otherError else sent) with
  | .returned => (true, data)
  | .socketError => (false, { data with sock := none })
  | .otherError => (false, data)

end Source

/-- The writers, and what has happened so far: the times of the attempts to connect, the number of
sockets made, and the threads whose messages were handed to a socket or dropped. -/
structure System where
  data : Data
  writing : ℕ → Bool
  attempts : List ℚ
  made : ℕ
  handed : List ℕ
  dropped : List ℕ

/-- `connect` is the first part of `kairosdb_write`. After it a thread may have nothing to send, for a
type that is not known or that has another number of values. -/
inductive Action
  | connect (thread : ℕ) (now : ℚ) (outcome : Connected)
  | skip (thread : ℕ)
  | send (thread : ℕ) (sent : Sent)

variable (tcp : Bool)

/-- `kairosdb_init` -/
def initial (now : ℚ) (outcome : Connected) : System where
  data := (kairosdbConnect tcp now outcome 0 ⟨none, 0⟩).2
  writing _ := false
  attempts := if attemptsNow tcp now ⟨none, 0⟩ then [now] else []
  made := if (kairosdbConnect tcp now outcome 0 ⟨none, 0⟩).2.sock = none then 0 else 1
  handed := []
  dropped := []

def step (s : System) : Action → Option System
  | .connect thread now outcome =>
    if s.writing thread = true then none
    else
      let (result, data) := kairosdbConnect tcp now outcome s.made s.data
      let attempts := if attemptsNow tcp now s.data then s.attempts ++ [now] else s.attempts
      let made := if data.sock = s.data.sock then s.made else s.made + 1
      if result = false ∧ tcp = true then
        some { s with data, attempts, made, dropped := s.dropped ++ [thread] }
      else some { s with data, attempts, made, writing := Function.update s.writing thread true }
  | .skip thread =>
    if s.writing thread = true then
      some { s with writing := Function.update s.writing thread false }
    else none
  | .send thread sent =>
    if s.writing thread = true then
      let (result, data) := kairosdbWriteData tcp sent s.data
      let writing := Function.update s.writing thread false
      if result then some { s with data, writing, handed := s.handed ++ [thread] }
      else some { s with data, writing, dropped := s.dropped ++ [thread] }
    else none

section Steps

variable {tcp} {s t : System}

/-- The system after an attempt to connect. -/
def System.attempt (s : System) (thread : ℕ) (now : ℚ) (outcome : Connected) : System where
  data := ⟨if outcome = .noSocket then none else some s.made, now⟩
  writing := if outcome = .connected then Function.update s.writing thread true else s.writing
  attempts := s.attempts ++ [now]
  made := if outcome = .noSocket then s.made else s.made + 1
  handed := s.handed
  dropped := if outcome = .connected then s.dropped else s.dropped ++ [thread]

/-- What a thread can do when it comes for the connection. -/
theorem connect_cases {thread : ℕ} {now : ℚ} {outcome : Connected}
    (h : step true s (.connect thread now outcome) = some t) :
    (s.data.sock ≠ none ∧ t = { s with writing := Function.update s.writing thread true }) ∨
    (s.data.sock = none ∧ now < s.data.last_connect_time + 10 ∧
      t = { s with dropped := s.dropped ++ [thread] }) ∨
    (s.data.sock = none ∧ s.data.last_connect_time + 10 ≤ now ∧
      t = s.attempt thread now outcome) := by
  simp only [step, kairosdbConnect, attemptsNow, and_true, true_and] at h
  split at h
  next => cases h
  next =>
    by_cases hsock : s.data.sock = none
    · by_cases hnow : now - s.data.last_connect_time < 10
      · refine Or.inr (Or.inl ⟨hsock, by linarith, ?_⟩)
        simpa [hsock, hnow] using h.symm
      · refine Or.inr (Or.inr ⟨hsock, by linarith, ?_⟩)
        cases outcome <;> simpa [hsock, hnow, System.attempt] using h.symm
    · refine Or.inl ⟨hsock, ?_⟩
      simpa [hsock] using h.symm

theorem skip_cases {thread : ℕ} (h : step tcp s (.skip thread) = some t) :
    s.writing thread = true ∧ t = { s with writing := Function.update s.writing thread false } := by
  simp only [step] at h
  split at h
  next hwriting => exact ⟨hwriting, (Option.some.inj h).symm⟩
  next => cases h

theorem kairosdbWriteData_data (tcp : Bool) (sent : Sent) (data : Data) :
    (kairosdbWriteData tcp sent data).2 = data ∨
      (sent = .socketError ∧ (kairosdbWriteData tcp sent data).2 = { data with sock := none }) := by
  rw [kairosdbWriteData]
  by_cases hnone : tcp = true ∧ data.sock = none
  · rw [if_pos hnone]
    exact Or.inl rfl
  · rw [if_neg hnone]
    cases sent with
    | returned => exact Or.inl rfl
    | socketError => exact Or.inr ⟨rfl, rfl⟩
    | otherError => exact Or.inl rfl

theorem send_data {thread : ℕ} {sent : Sent} (h : step tcp s (.send thread sent) = some t) :
    t.attempts = s.attempts ∧ t.made = s.made ∧ t.data = (kairosdbWriteData tcp sent s.data).2 := by
  simp only [step] at h
  split at h
  next =>
    split at h
    next =>
      obtain rfl := Option.some.inj h
      exact ⟨rfl, rfl, rfl⟩
    next =>
      obtain rfl := Option.some.inj h
      exact ⟨rfl, rfl, rfl⟩
  next => cases h

/-- What becomes of a message. -/
theorem send_cases {thread : ℕ} {sent : Sent} (h : step true s (.send thread sent) = some t) :
    s.writing thread = true ∧
    ((s.data.sock ≠ none ∧ sent = .returned ∧ t = { s with
        writing := Function.update s.writing thread false
        handed := s.handed ++ [thread] }) ∨
    ((s.data.sock = none ∨ sent ≠ .returned) ∧ t = { s with
        data := if sent = .socketError then { s.data with sock := none } else s.data
        writing := Function.update s.writing thread false
        dropped := s.dropped ++ [thread] })) := by
  simp only [step, kairosdbWriteData, true_and] at h
  split at h
  next hwriting =>
    refine ⟨hwriting, ?_⟩
    by_cases hsock : s.data.sock = none
    · refine Or.inr ⟨Or.inl hsock, ?_⟩
      have hdata : { s.data with sock := none } = s.data := by rw [← hsock]
      simpa [hsock, hdata] using h.symm
    · cases sent with
      | returned => exact Or.inl ⟨hsock, rfl, by simpa [hsock] using h.symm⟩
      | socketError => exact Or.inr ⟨Or.inr nofun, by simpa [hsock] using h.symm⟩
      | otherError => exact Or.inr ⟨Or.inr nofun, by simpa [hsock] using h.symm⟩
  next => cases h

end Steps

section Attempts

def Action.raisesSocketError : Action → Bool
  | .send _ .socketError => true
  | _ => false

/-- The attempts and sockets so far, when `errors` socket errors have been raised. -/
structure Spaced (errors : ℕ) (s : System) : Prop where
  chain : s.attempts.IsChain fun x y => x + 10 ≤ y
  first : ∀ x ∈ s.attempts, 10 ≤ x
  last : ∀ x ∈ s.attempts.getLast?, x = s.data.last_connect_time
  start : s.attempts = [] → s.data.last_connect_time = 0
  paid : s.made ≤ errors + if s.data.sock = none then 0 else 1

variable {tcp} {s t : System} {errors : ℕ}

theorem spaced_initial (now : ℚ) (outcome : Connected) :
    Spaced 0 (initial tcp now outcome) := by
  cases tcp with
  | false => constructor <;> simp [initial, kairosdbConnect, attemptsNow]
  | true =>
    by_cases hnow : now - 0 < 10
    · constructor <;> simp_all [initial, kairosdbConnect, attemptsNow]
    · have hten : 10 ≤ now := by simpa using hnow
      have hlast : (kairosdbConnect true now outcome 0 ⟨none, 0⟩).2.last_connect_time = now := by
        cases outcome <;> simp [kairosdbConnect, not_lt.mpr hten]
      have hattempts : (initial true now outcome).attempts = [now] := by
        simp [initial, attemptsNow, hten]
      refine ⟨?_, ?_, ?_, ?_, ?_⟩
      · rw [hattempts]
        exact List.isChain_singleton now
      · simpa [hattempts] using hten
      · rw [hattempts]
        intro x hx
        exact (Option.some.inj hx).symm.trans hlast.symm
      · simp [hattempts]
      · rw [Nat.zero_add]
        exact le_rfl

theorem Spaced.attempt (h : Spaced errors s) (hsock : s.data.sock = none) {now : ℚ}
    (hnow : s.data.last_connect_time + 10 ≤ now) (thread : ℕ) (outcome : Connected) :
    Spaced errors (s.attempt thread now outcome) where
  chain := by
    refine List.isChain_append.mpr ⟨h.chain, List.isChain_singleton now, ?_⟩
    intro x hx y hy
    obtain rfl : now = y := by simpa using hy
    rw [h.last x hx]
    exact hnow
  first x hx := by
    rcases List.mem_append.mp hx with hold | hnew
    · exact h.first x hold
    · obtain rfl := List.mem_singleton.mp hnew
      cases hlast : s.attempts.getLast? with
      | none =>
        rw [h.start (List.getLast?_eq_none_iff.mp hlast)] at hnow
        linarith
      | some y =>
        have hle := h.first y (List.mem_of_getLast? hlast)
        have heq := h.last y hlast
        linarith
  last := by simp [System.attempt]
  start := by simp [System.attempt]
  paid := by
    have hpaid := h.paid
    rw [if_pos hsock] at hpaid
    cases outcome <;> simpa [System.attempt] using hpaid

/-- Only an error over the socket itself makes room for another socket. -/
theorem spaced_step {a : Action} (h : Spaced errors s) (hstep : step tcp s a = some t) :
    Spaced (errors + if a.raisesSocketError then 1 else 0) t := by
  have hsame {t : System} {extra : ℕ} (hattempts : t.attempts = s.attempts)
      (hdata : t.data = s.data) (hmade : t.made = s.made) : Spaced (errors + extra) t := by
    obtain ⟨hchain, hfirst, hlast, hstart, hpaid⟩ := h
    rw [← hattempts] at hchain hfirst hlast hstart
    rw [← hdata] at hlast hstart hpaid
    rw [← hmade] at hpaid
    exact ⟨hchain, hfirst, hlast, hstart, hpaid.trans (by omega)⟩
  cases a with
  | connect thread now outcome =>
    cases tcp with
    | true =>
      rcases connect_cases hstep with ⟨-, rfl⟩ | ⟨-, -, rfl⟩ | ⟨hsock, hnow, rfl⟩
      · exact hsame rfl rfl rfl
      · exact hsame rfl rfl rfl
      · exact h.attempt hsock hnow _ _
    | false =>
      simp only [step, kairosdbConnect, Bool.false_eq_true, and_false, if_false] at hstep
      split at hstep
      next => cases hstep
      next =>
        obtain rfl := Option.some.inj hstep
        exact hsame (by simp [attemptsNow]) rfl (by simp)
  | skip thread =>
    obtain ⟨-, rfl⟩ := skip_cases hstep
    exact hsame rfl rfl rfl
  | send thread sent =>
    obtain ⟨hattempts, hmade, hwritten⟩ := send_data hstep
    rcases kairosdbWriteData_data tcp sent s.data with hdata | ⟨rfl, hdata⟩
    · exact hsame hattempts (hwritten.trans hdata) hmade
    · rw [hdata] at hwritten
      have hpaid : s.made ≤ errors + 1 := by
        have hle := h.paid
        split at hle <;> omega
      obtain ⟨hchain, hfirst, hlast, hstart, -⟩ := h
      rw [← hattempts] at hchain hfirst hlast hstart
      rw [← hmade] at hpaid
      refine ⟨hchain, hfirst, ?_, ?_, ?_⟩
      · rw [hwritten]
        exact hlast
      · rw [hwritten]
        exact hstart
      · rw [hwritten]
        exact hpaid

theorem spaced_run {as : List Action} (h : Spaced errors s) (hrun : run (step tcp) s as = some t) :
    Spaced (errors + as.countP Action.raisesSocketError) t := by
  induction as generalizing s errors with
  | nil =>
    obtain rfl : s = t := by simpa [run] using hrun
    exact h
  | cons a as ih =>
    obtain ⟨u, hu, hrun⟩ := Option.bind_eq_some_iff.mp hrun
    have hrest := ih (spaced_step h hu) hrun
    rw [List.countP_cons, Nat.add_comm (as.countP _), ← Nat.add_assoc]
    exact hrest

/-- Three attempts, the second of which makes no socket; a thread is refused before it. -/
def reconnect : List Action :=
  [.connect 0 101 .connected, .send 0 .socketError, .connect 1 109 .connected,
    .connect 0 110 .noSocket, .connect 1 120 .connected]

end Attempts

section Recovery

/-- Connections are made, and `sendall` returns over the sockets that are not among the first `made`.
A thread writes no earlier than ten seconds after `since`. -/
def Recovered (made : ℕ) (since : ℚ) (s : System) : Action → Prop
  | .connect _ now outcome => outcome = .connected ∧ since + 10 ≤ now
  | .skip _ => True
  | .send _ sent => ∀ n ∈ s.data.sock, sent = .returned ∨ (n < made ∧ sent = .socketError)

instance instDecidableRecovered (made : ℕ) (since : ℚ) (s : System) :
    ∀ a, Decidable (Recovered made since s a)
  | .connect .. => inferInstanceAs (Decidable (_ ∧ _))
  | .skip _ => inferInstanceAs (Decidable True)
  | .send _ sent => inferInstanceAs
    (Decidable (∀ n ∈ s.data.sock, sent = .returned ∨ (n < made ∧ sent = .socketError)))

/-- How a recovery goes for a thread that has dropped `count` messages before: the old socket is in
use, or there is none, or there is a new one. -/
inductive Recovering (made : ℕ) (since : ℚ) (thread count : ℕ) (s : System) : Prop
  | old (n : ℕ) (hn : n < made) (sock : s.data.sock = some n)
      (last : s.data.last_connect_time = since) (count_made : s.made = made)
      (lost : s.dropped.count thread = count)
  | dropped (sock : s.data.sock = none) (last : s.data.last_connect_time = since)
      (count_made : s.made = made)
      (lost : s.dropped.count thread = count ∨
        (s.dropped.count thread = count + 1 ∧ s.writing thread = false))
  | fresh (n : ℕ) (hn : made ≤ n) (sock : s.data.sock = some n)
      (lost : s.dropped.count thread ≤ count + 1)

variable {s t : System} {made thread count : ℕ} {since : ℚ}

theorem Recovering.connect {thread' : ℕ} {now : ℚ} {outcome : Connected}
    (h : Recovering made since thread count s) (hup : outcome = .connected ∧ since + 10 ≤ now)
    (hstep : step true s (.connect thread' now outcome) = some t) :
    Recovering made since thread count t := by
  rcases connect_cases hstep with ⟨hsock, rfl⟩ | ⟨hsock, hnow, -⟩ | ⟨hsock, -, rfl⟩
  · cases h with
    | old n hn sock last count_made lost => exact .old n hn sock last count_made lost
    | dropped sock => exact absurd sock hsock
    | fresh n hn sock lost => exact .fresh n hn sock lost
  · cases h with
    | old n hn sock => simp [sock] at hsock
    | dropped sock last =>
      rw [last] at hnow
      exact absurd hup.2 (not_le.mpr hnow)
    | fresh n hn sock => simp [sock] at hsock
  · obtain ⟨rfl, -⟩ := hup
    cases h with
    | old n hn sock => simp [sock] at hsock
    | dropped _ _ count_made lost =>
      refine .fresh _ count_made.ge rfl ?_
      rcases lost with lost | ⟨lost, -⟩ <;> simp [System.attempt, lost]
    | fresh n hn sock => simp [sock] at hsock

/-- A thread whose message is dropped while there is no socket comes for a new one before the next. -/
theorem Recovering.send {thread' : ℕ} {sent : Sent} (h : Recovering made since thread count s)
    (hup : ∀ n ∈ s.data.sock, sent = .returned ∨ (n < made ∧ sent = .socketError))
    (hstep : step true s (.send thread' sent) = some t) :
    Recovering made since thread count t := by
  obtain ⟨hwriting, ⟨hsock, -, rfl⟩ | ⟨hlost, rfl⟩⟩ := send_cases hstep
  · cases h with
    | old n hn sock last count_made lost => exact .old n hn sock last count_made lost
    | dropped sock => exact absurd sock hsock
    | fresh n hn sock lost => exact .fresh n hn sock lost
  · have hcount : (s.dropped ++ [thread']).count thread =
        s.dropped.count thread + if thread' = thread then 1 else 0 := by
      rw [List.count_append, List.count_singleton]
      simp
    cases h with
    | old n hn sock last count_made lost =>
      obtain rfl : sent = .socketError := by
        rcases hup n sock with hreturned | ⟨-, herror⟩
        · simp [sock, hreturned] at hlost
        · exact herror
      refine .dropped rfl last count_made ?_
      by_cases hthread : thread' = thread
      · exact Or.inr ⟨by simp [hthread, lost], by simp [hthread]⟩
      · exact Or.inl (by simp [hcount, hthread, lost])
    | dropped sock last count_made lost =>
      have hdata : (if sent = .socketError then { s.data with sock := none } else s.data) =
          s.data := by
        split
        next => rw [← sock]
        next => rfl
      rw [hdata]
      refine .dropped sock last count_made ?_
      by_cases hthread : thread' = thread
      · obtain rfl := hthread
        rw [hwriting] at lost
        exact Or.inr ⟨by simp [hcount, lost.resolve_right nofun], by simp⟩
      · have hwriting' : Function.update s.writing thread' false thread = s.writing thread :=
          Function.update_of_ne (Ne.symm hthread) _ _
        simp only [hcount, if_neg hthread, Nat.add_zero, hwriting']
        exact lost
    | fresh n hn sock lost =>
      rcases hup n sock with hreturned | ⟨hold, -⟩
      · simp [sock, hreturned] at hlost
      · omega

theorem Recovering.step {a : Action} (h : Recovering made since thread count s)
    (hup : Recovered made since s a) (hstep : Collectd.step true s a = some t) :
    Recovering made since thread count t := by
  cases a with
  | connect thread' now outcome => exact h.connect hup hstep
  | send thread' sent => exact h.send hup hstep
  | skip thread' =>
    obtain ⟨-, rfl⟩ := skip_cases hstep
    cases h with
    | old n hn sock last count_made lost => exact .old n hn sock last count_made lost
    | dropped sock last count_made lost =>
      refine .dropped sock last count_made (lost.imp_right fun ⟨hlost, hwriting⟩ => ⟨hlost, ?_⟩)
      show Function.update s.writing thread' false thread = false
      rw [Function.update_apply, hwriting, ite_self]
    | fresh n hn sock lost => exact .fresh n hn sock lost

/-- The socket is one of those that have been made. -/
def Numbered (s : System) : Prop := ∀ n, s.data.sock = some n → n < s.made

theorem numbered_run {now : ℚ} {outcome : Connected} {as : List Action}
    (hrun : run (Collectd.step true) (initial true now outcome) as = some s) : Numbered s := by
  refine run_keeps ?_ ?_ hrun
  · intro s a t hs hstep
    cases a with
    | connect thread now outcome =>
      rcases connect_cases hstep with ⟨-, rfl⟩ | ⟨-, -, rfl⟩ | ⟨-, -, rfl⟩
      · exact hs
      · exact hs
      · intro n hn
        cases outcome <;> simp_all [System.attempt]
    | skip thread =>
      obtain ⟨-, rfl⟩ := skip_cases hstep
      exact hs
    | send thread sent =>
      obtain ⟨hattempts, hmade, hwritten⟩ := send_data hstep
      intro n hn
      rw [hmade]
      rcases kairosdbWriteData_data true sent s.data with hdata | ⟨-, hdata⟩
      · rw [hwritten, hdata] at hn
        exact hs n hn
      · rw [hwritten, hdata] at hn
        cases hn
  · intro n hn
    have hsock : (kairosdbConnect true now outcome 0 ⟨none, 0⟩).2.sock = some n := hn
    have hzero : n = 0 := by
      revert hsock
      by_cases hnow : now < 10
      · simp [kairosdbConnect, hnow]
      · cases outcome <;> simp +contextual [kairosdbConnect, hnow, eq_comm]
    have hmade : (initial true now outcome).made = 1 := by simp [initial, hsock]
    omega

/-- When connections are made again, and ten seconds have passed since the last attempt, a thread
drops at most one message that it does not hand to a socket, in any order of the threads and
whatever happened before. -/
theorem dropped_once {now : ℚ} {outcome : Connected} {before as : List Action}
    (hbefore : run (Collectd.step true) (initial true now outcome) before = some s)
    (hup : Guarded (Collectd.step true)
      (Recovered s.made s.data.last_connect_time) s as)
    (hrun : run (Collectd.step true) s as = some t) (thread : ℕ) :
    t.dropped.count thread ≤ s.dropped.count thread + 1 := by
  have hstart : Recovering s.made s.data.last_connect_time thread
      (s.dropped.count thread) s := by
    cases hsock : s.data.sock with
    | none => exact .dropped hsock rfl rfl (Or.inl rfl)
    | some n => exact .old n (numbered_run hbefore n hsock) hsock rfl rfl rfl
  have hend := Always.run_end (Always.of_guarded (fun _ _ _ h hup hstep => h.step hup hstep)
    (fun _ h => h) hstart hup) hrun
  cases hend with
  | old _ _ _ _ _ lost => exact lost.le.trans (Nat.le_succ _)
  | dropped _ _ _ lost =>
    rcases lost with lost | ⟨lost, -⟩
    · exact lost.le.trans (Nat.le_succ _)
    · exact lost.le
  | fresh _ _ _ lost => exact lost

/-- Two threads on their way to send. -/
def twoWriting : List Action := [.connect 0 101 .connected, .connect 1 102 .connected]

/-- Both drop what they were to send, and the next message is handed to a new socket. -/
def dropAndSend : List Action :=
  [.send 0 .socketError, .send 1 .returned, .connect 0 110 .connected, .send 0 .returned]

theorem dropped_once_dropAndSend : ∃ s ∈ run (Collectd.step true) (initial true 100 .connected) twoWriting,
    ∃ t ∈ run (Collectd.step true) s dropAndSend, t.dropped = [0, 1] ∧
      t.dropped.count 1 ≤ s.dropped.count 1 + 1 := by
  have hruns : ((run (Collectd.step true) (initial true 100 .connected) twoWriting).bind fun s =>
      (run (Collectd.step true) s dropAndSend).map System.dropped) = some [0, 1] := by decide +kernel
  have hup : ∀ s ∈ run (Collectd.step true) (initial true 100 .connected) twoWriting,
      Guarded (Collectd.step true)
        (Recovered s.made s.data.last_connect_time) s dropAndSend := by decide +kernel
  obtain ⟨s, hbefore, hruns⟩ := Option.bind_eq_some_iff.mp hruns
  obtain ⟨t, hrun, hlost⟩ := Option.map_eq_some_iff.mp hruns
  exact ⟨s, hbefore, t, hrun, hlost, dropped_once hbefore (hup s hbefore) hrun 1⟩

end Recovery

end CompassAdapters.Collectd
