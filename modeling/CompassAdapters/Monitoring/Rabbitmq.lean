import CompassAdapters.Tally.Overwrites
import CompassAdapters.Template.Python
import Mathlib.Algebra.Ring.Int.Defs

/-! `rabbitmq_info.py`: the statistics of the queues. -/
namespace CompassAdapters.Monitoring.Rabbitmq
open Ruby Tally

section Stats

inductive Counter
  | messages
  | memory
  | consumers
  deriving DecidableEq

def Counter.name : Counter → String
  | messages => "messages"
  | memory => "memory"
  | consumers => "consumers"

/-- A queue as the API lists it; a counter may be missing. -/
structure Queue where
  vhost : String
  name : String
  messages : Option ℤ
  memory : Option ℤ
  consumers : Option ℤ

def Counter.of (i : Queue) : Counter → Option ℤ
  | messages => i.messages
  | memory => i.memory
  | consumers => i.consumers

def totalKey (c : Counter) : String := "ctl_" ++ c.name

def gaugeKey (c : Counter) (mname : String) : String := "ctl_" ++ c.name ++ "_" ++ mname

/-- The first letters of a key tell its counter. -/
theorem gaugeKey_toList (c : Counter) (mname : String) :
    (gaugeKey c mname).toList = "ctl_".toList ++ c.name.toList ++ '_' :: mname.toList := by
  simp only [gaugeKey, String.toList_append]
  rw [List.append_assoc _ "_".toList]
  rfl

theorem totalKey_injective : Function.Injective totalKey := by
  intro c c' h
  cases c <;> cases c' <;> first | rfl | exact absurd h (by decide)

theorem gaugeKey_injective {c c' : Counter} {n n' : String} (h : gaugeKey c n = gaugeKey c' n') :
    c = c' ∧ n = n' := by
  have hlist := congrArg String.toList h
  rw [gaugeKey_toList, gaugeKey_toList] at hlist
  have hc : c = c' := by
    have htake := congrArg (List.take 7) hlist
    cases c <;> cases c' <;> first | rfl | exact absurd htake (by simp [Counter.name])
  subst hc
  exact ⟨rfl, String.toList_inj.mp (List.cons.inj (List.append_cancel_left hlist)).2⟩

theorem totalKey_ne_gaugeKey (c c' : Counter) (n : String) : totalKey c ≠ gaugeKey c' n := by
  intro h
  have hlist := congrArg String.toList h
  rw [gaugeKey_toList] at hlist
  cases c <;> cases c' <;> simp [totalKey, Counter.name] at hlist

/-- The keys of the counters. -/
def ctl : Layout Counter String String where
  total := totalKey
  gauge := gaugeKey
  total_injective := totalKey_injective
  gauge_injective := gaugeKey_injective
  total_ne_gauge := totalKey_ne_gaugeKey

/-- `str(name)` fails for a name that is not ASCII. -/
def str (name : String) : Option String :=
  if name.toList.all fun c => decide (c.toNat < 128) then some name else none

/-- The name of a queue without what follows its second part, or the word `reply`. -/
def mname (name : String) : String :=
  match Python.split '_' name with
  | first :: second :: _ => if first = "reply" then first else first ++ "_" ++ second
  | [first] => first
  | [] => ""

/-- One counter of a queue. -/
def readCounter (i : Queue) (mname : String) (stats : Hash String ℤ) (c : Counter) :
    Option (Hash String ℤ) :=
  match c.of i with
  | some v => record ctl c mname v stats
  | none => some stats

/-- The body of the loop over the queues; `none` is an exception. -/
def readQueue (vhost : String) (stats : Hash String ℤ) (i : Queue) : Option (Hash String ℤ) :=
  if i.vhost = vhost then
    (str i.name).bind fun name =>
      [Counter.messages, .memory, .consumers].foldlM (readCounter i (mname name)) stats
  else some stats

def initialStats : Hash String ℤ :=
  ["ctl_messages", "ctl_memory", "ctl_consumers", "pmap_mapped", "pmap_used",
    "pmap_shared"].foldl (fun stats key => stats.store key 0) Hash.empty

/-- `\D+(\d+)`, with what is left. -/
def figure (line : List Char) : Option (ℤ × List Char) :=
  let rest := line.dropWhile fun c => !c.isDigit
  let digits := rest.takeWhile Char.isDigit
  if rest.length = line.length ∨ digits = [] then none
  else some (Nat.ofDigitChars 10 digits 0, rest.dropWhile Char.isDigit)

/-- What `get_stats` reads: the queues, the pid file and the lines that `pmap` prints for a pid. -/
structure Host where
  resp : Option (List Queue)
  pid : Option String
  pmap : String → Option (List String)

/-- `none` is an exception or the result `None`. -/
def getStats (vhost : String) (host : Host) : Option (Hash String ℤ) := do
  let resp ← host.resp
  let stats ← resp.foldlM (readQueue vhost) initialStats
  let pid ← host.pid
  let lines ← host.pmap (Python.strip pid)
  let last ← lines.getLast?
  let line := (Python.strip last).toList
  if "mapped".toList.isPrefixOf line then
    let (mapped, line) ← figure line
    let (used, line) ← figure line
    let (shared, _) ← figure line
    some (((stats.store "pmap_mapped" mapped).store "pmap_used" used).store "pmap_shared" shared)
  else none

end Stats

section Sums

variable {vhost : String} {host : Host} {resp : List Queue} {stats : Hash String ℤ}

/-- The values of a counter in the queues of a virtual host, under their simplified names. -/
def readings (vhost : String) (resp : List Queue) (c : Counter) : List (String × ℤ) :=
  (resp.filter fun i => i.vhost = vhost).filterMap fun i => (c.of i).map fun v => (mname i.name, v)

/-- The totals and gauges of some values. -/
def Tracks (stats : Hash String ℤ) (values : Counter → List (String × ℤ)) : Prop :=
  ∃ other, Holds ctl stats (fun c => ((values c).map Prod.snd).sum) (fun c n => last (values c) n)
    other

theorem gaugeKey_ne {s : String} (h : s.toList.take 4 ≠ "ctl_".toList) (c : Counter) (n : String) :
    s ≠ gaugeKey c n := by
  rintro rfl
  rw [gaugeKey_toList, List.append_assoc] at h
  exact h (by cases c <;> rfl)

theorem initialStats_tracks : Tracks initialStats fun _ => [] := by
  refine ⟨initialStats.get?, ?_, ?_, fun _ _ _ => rfl⟩
  · intro c
    cases c <;> decide
  · intro c n
    have hmem : ctl.gauge c n ∉ initialStats.keys := by
      intro hmem
      have hkeys : initialStats.keys = [Counter.messages, .memory, .consumers].map ctl.total ++
          ["pmap_mapped", "pmap_used", "pmap_shared"] := by decide
      rw [hkeys, List.mem_append] at hmem
      rcases hmem with hmem | hmem
      · obtain ⟨c', -, heq⟩ := List.mem_map.mp hmem
        exact ctl.total_ne_gauge c' c n heq
      · have hpmap : ∀ s ∈ ["pmap_mapped", "pmap_used", "pmap_shared"],
            s.toList.take 4 ≠ "ctl_".toList := by decide
        exact gaugeKey_ne (hpmap _ hmem) c n rfl
    cases hget : initialStats.get? (ctl.gauge c n) with
    | none => rfl
    | some v => exact absurd (Hash.mem_keys.mpr ⟨v, hget⟩) hmem

variable {values : Counter → List (String × ℤ)}

/-- One counter of a queue adds a value to those of the counter. -/
theorem Tracks.readCounter (h : Tracks stats values) (i : Queue) (n : String) (c : Counter) :
    ∃ stats', readCounter i n stats c = some stats' ∧ Tracks stats' (Function.update values c
      (values c ++ ((c.of i).map fun v => (n, v)).toList)) := by
  obtain ⟨other, h⟩ := h
  rw [Rabbitmq.readCounter]
  cases c.of i with
  | none =>
    refine ⟨stats, rfl, other, ?_⟩
    simpa using h
  | some v =>
    obtain ⟨stats', hrecord, hstats'⟩ := h.record c n v
    refine ⟨stats', hrecord, other, ?_⟩
    convert hstats' using 1
    · funext c'
      by_cases hc : c' = c
      · subst hc
        simp
      · simp [hc]
    · funext c' n'
      by_cases hc : c' = c
      · subst hc
        simp [last_concat, Function.update_apply, eq_comm]
      · simp [hc]

/-- The three counters of a queue. -/
theorem Tracks.readCounters (h : Tracks stats values) (i : Queue) (n : String) :
    ∃ stats', [Counter.messages, .memory, .consumers].foldlM (Rabbitmq.readCounter i n) stats =
        some stats' ∧
      Tracks stats' fun c => values c ++ ((c.of i).map fun v => (n, v)).toList := by
  obtain ⟨stats₁, h₁, htracks₁⟩ := h.readCounter i n .messages
  obtain ⟨stats₂, h₂, htracks₂⟩ := htracks₁.readCounter i n .memory
  obtain ⟨stats₃, h₃, htracks₃⟩ := htracks₂.readCounter i n .consumers
  refine ⟨stats₃, ?_, ?_⟩
  · rw [List.foldlM_cons, h₁, Option.bind_eq_bind, Option.bind_some, List.foldlM_cons, h₂,
      Option.bind_eq_bind, Option.bind_some, List.foldlM_cons, h₃]
    rfl
  · convert htracks₃ using 1
    funext c
    cases c <;> rfl

theorem readings_singleton (i : Queue) (c : Counter) : readings vhost [i] c =
    if i.vhost = vhost then ((c.of i).map fun v => (mname i.name, v)).toList else [] := by
  by_cases hvhost : i.vhost = vhost
  · cases hv : c.of i <;> simp [readings, hvhost, hv]
  · simp [readings, hvhost]

theorem Tracks.readQueue {stats' : Hash String ℤ} (h : Tracks stats values) {i : Queue}
    (hread : readQueue vhost stats i = some stats') :
    Tracks stats' fun c => values c ++ readings vhost [i] c := by
  simp only [readings_singleton]
  rw [Rabbitmq.readQueue] at hread
  split at hread
  next hvhost =>
    obtain ⟨name, hname, hread⟩ := Option.bind_eq_some_iff.mp hread
    obtain rfl : i.name = name := by
      rw [str] at hname
      split at hname
      next => exact Option.some.inj hname
      next => cases hname
    obtain ⟨stats₁, hrun, htracks⟩ := h.readCounters i (mname i.name)
    obtain rfl : stats₁ = stats' := Option.some.inj (hrun.symm.trans hread)
    simpa only [if_pos hvhost] using htracks
  next hvhost =>
    obtain rfl := Option.some.inj hread
    simpa only [if_neg hvhost, List.append_nil] using h

theorem readings_cons (i : Queue) (resp : List Queue) (c : Counter) :
    readings vhost (i :: resp) c = readings vhost [i] c ++ readings vhost resp c := by
  rw [readings, readings, readings, ← List.filterMap_append, ← List.filter_append,
    List.singleton_append]

/-- The loop over the queues adds up their values. -/
theorem Tracks.readQueues {stats' : Hash String ℤ} (h : Tracks stats values)
    (hread : resp.foldlM (Rabbitmq.readQueue vhost) stats = some stats') :
    Tracks stats' fun c => values c ++ readings vhost resp c := by
  induction resp generalizing stats values with
  | nil =>
    obtain rfl := Option.some.inj hread
    simpa [readings] using h
  | cons i resp ih =>
    rw [List.foldlM_cons] at hread
    obtain ⟨stats₁, hqueue, hrest⟩ := Option.bind_eq_some_iff.mp hread
    have htracks := ih (h.readQueue hqueue) hrest
    simp only [List.append_assoc, ← readings_cons] at htracks
    exact htracks

/-- The keys of `pmap` are none of the counters. -/
theorem Tracks.store_pmap (h : Tracks stats values) {key : String}
    (hkey : key.toList.take 4 ≠ "ctl_".toList) (v : ℤ) : Tracks (stats.store key v) values := by
  obtain ⟨other, h⟩ := h
  refine ⟨_, h.store_other ?_ (gaugeKey_ne hkey) v⟩
  rintro c rfl
  exact hkey (by cases c <;> rfl)

theorem getStats_tracks (hresp : host.resp = some resp) (h : getStats vhost host = some stats) :
    Tracks stats (readings vhost resp) := by
  rw [getStats, hresp] at h
  simp only [Option.bind_eq_bind, Option.bind_some, Option.bind_eq_some_iff] at h
  obtain ⟨stats₀, hread, pid, -, lines, -, last, -, hlast⟩ := h
  split at hlast
  next =>
    simp only [Option.bind_eq_some_iff] at hlast
    obtain ⟨⟨mapped, line₁⟩, -, ⟨used, line₂⟩, -, ⟨shared, line₃⟩, -, hstats⟩ := hlast
    obtain rfl := Option.some.inj hstats
    have htracks := initialStats_tracks.readQueues hread
    simp only [List.nil_append] at htracks
    exact ((htracks.store_pmap (by decide) mapped).store_pmap (by decide) used).store_pmap
      (by decide) shared
  next => cases hlast

/-- Each total is the sum of the gauges of its counter. -/
def AddsUp (vhost : String) (resp : List Queue) (stats : Hash String ℤ) : Prop :=
  ∀ c, ∃ total, stats.get? (totalKey c) = some total ∧
    total = ∑ n ∈ ((resp.filter fun i => i.vhost = vhost).map fun i => mname i.name).toFinset,
      (stats.get? (gaugeKey c n)).getD 0

/-- What is missing from the gauges of a counter has been replaced there. -/
theorem Tracks.addsUp_iff (h : Tracks stats (readings vhost resp)) :
    AddsUp vhost resp stats ↔ ∀ c, (replaced (readings vhost resp c)).sum = 0 := by
  obtain ⟨other, h⟩ := h
  refine forall_congr' fun c => ?_
  have hgauge (n : String) : stats.get? (gaugeKey c n) = last (readings vhost resp c) n :=
    h.gauge c n
  have htotal : stats.get? (totalKey c) = some ((readings vhost resp c).map Prod.snd).sum :=
    h.total c
  simp only [hgauge, htotal, Option.some.injEq, exists_eq_left']
  apply sum_eq_iff
  intro x hx
  obtain ⟨i, hi, hv⟩ := List.mem_filterMap.mp hx
  obtain ⟨v, -, rfl⟩ := Option.map_eq_some_iff.mp hv
  exact List.mem_toFinset.mpr (List.mem_map_of_mem hi)

/-- The totals are the sums of the gauges if and only if, for each counter, the values with a later
one under the same simplified name come to nothing. -/
theorem queues_addUp_iff (hresp : host.resp = some resp)
    (h : getStats vhost host = some stats) :
    AddsUp vhost resp stats ↔ ∀ c, (replaced (readings vhost resp c)).sum = 0 :=
  (getStats_tracks hresp h).addsUp_iff

/-- A broker on a host where `pmap` prints what is expected of it. -/
def brokerHost (resp : List Queue) : Host where
  resp := some resp
  pid := some "5\n"
  pmap _ := some ["5:   beam", "mapped: 7K    writeable/private: 3K    shared: 1K"]

def plainQueues : List Queue :=
  [⟨"/", "info", some 2, none, some 1⟩, ⟨"/", "cinder", some 3, some 4, none⟩]

/-- Two queues for replies. -/
def replyQueues : List Queue :=
  [⟨"/", "reply_1", some 2, none, none⟩, ⟨"/", "reply_2", some 3, none, none⟩]

theorem plainQueues_addsUp : ∃ stats, getStats "/" (brokerHost plainQueues) = some stats ∧
    AddsUp "/" plainQueues stats := by
  have hsome : (getStats "/" (brokerHost plainQueues)).isSome := by decide
  obtain ⟨stats, hstats⟩ := Option.isSome_iff_exists.mp hsome
  refine ⟨stats, hstats, (queues_addUp_iff rfl hstats).mpr ?_⟩
  intro c
  cases c <;> decide

theorem replyQueues_not_addsUp : ∃ stats, getStats "/" (brokerHost replyQueues) = some stats ∧
    ¬ AddsUp "/" replyQueues stats := by
  have hsome : (getStats "/" (brokerHost replyQueues)).isSome := by decide
  obtain ⟨stats, hstats⟩ := Option.isSome_iff_exists.mp hsome
  refine ⟨stats, hstats, ?_⟩
  rw [(getStats_tracks rfl hstats).addsUp_iff]
  intro h
  exact absurd (h .messages) (by decide)

end Sums

end CompassAdapters.Monitoring.Rabbitmq
