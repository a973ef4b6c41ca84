import CompassAdapters.Rally.Reporting
import Mathlib.Algebra.Order.BigOperators.Group.List
import Mathlib.Algebra.Order.Field.Basic
import Mathlib.Data.List.Induction
import Mathlib.Data.Rat.Cast.Order

/-! The summary that `_get_action_dur_report` makes of the durations of an action. -/
namespace CompassAdapters.Rally

variable {action : String} {output : Output}

/-- The durations of the iterations that succeeded. -/
def durations (action : String) (results : List IterationResult) : List ℚ :=
  (results.filter fun result => !result.lacks action && !result.failed action).map
    fun result => result.durationOf action

theorem durations_cons (result : IterationResult) (results : List IterationResult) :
    durations action (result :: results) =
      if result.lacks action then durations action results
      else if result.failed action then durations action results
      else result.durationOf action :: durations action results := by
  rw [durations, List.filter_cons]
  cases result.lacks action with
  | true => rfl
  | false =>
    cases result.failed action with
    | true => rfl
    | false => rfl

/-- Every iteration succeeds, fails or lacks the action. -/
theorem length_durations_add (action : String) (results : List IterationResult) :
    (durations action results).length +
      results.countP (fun r => !r.lacks action && r.failed action) +
        results.countP (·.lacks action) = results.length := by
  induction results with
  | nil => rfl
  | cons r results ih =>
    rw [durations_cons, List.countP_cons, List.countP_cons, List.length_cons, ← ih]
    cases r.lacks action with
    | true => simp [Nat.add_assoc]
    | false =>
      cases r.failed action with
      | true => simp [Nat.add_comm, Nat.add_left_comm]
      | false => simp [Nat.add_assoc, Nat.add_comm, Nat.add_left_comm]

/-- What the loop keeps of the durations it has seen. -/
structure DurationState.Tracks (st : DurationState) (action : String)
    (results : List IterationResult) : Prop where
  data : st.data.length = results.length
  total : st.totalDur = (durations action results).sum
  min : ∀ x ∈ durations action results, st.minDur ≤ x
  max : ∀ x ∈ durations action results, x ≤ st.maxDur
  attained : st.maxDur = 0 ∨ st.maxDur ∈ durations action results

theorem durations_append (action : String) (results : List IterationResult)
    (result : IterationResult) :
    durations action (results ++ [result]) =
      if result.lacks action then durations action results
      else if result.failed action then durations action results
      else durations action results ++ [result.durationOf action] := by
  have hsingle : durations action [result] =
      if result.lacks action then []
      else if result.failed action then [] else [result.durationOf action] :=
    durations_cons result []
  have happend : durations action (results ++ [result]) =
      durations action results ++ durations action [result] := by
    rw [durations, List.filter_append, List.map_append]
    rfl
  rw [happend, hsingle]
  split
  next => rw [List.append_nil]
  next =>
    split
    next => rw [List.append_nil]
    next => rfl

/-- The least and the greatest duration after an iteration that succeeds. -/
theorem durationStep_success {st : DurationState} {result : IterationResult}
    (hlacks : ¬ result.lacks action = true) (hfailed : ¬ result.failed action = true) :
    durationStep action st result =
      { st with
        totalDur := st.totalDur + result.durationOf action
        minDur := min (result.durationOf action) st.minDur
        maxDur := max st.maxDur (result.durationOf action)
        data := st.data ++ [result.durationOf action] } := by
  rw [durationStep, if_neg hlacks, if_neg hfailed, min_def_lt, max_def_lt]

theorem DurationState.Tracks.success {st : DurationState} {results : List IterationResult}
    (h : st.Tracks action results) {result : IterationResult}
    (hlacks : ¬ result.lacks action = true) (hfailed : ¬ result.failed action = true) :
    (durationStep action st result).Tracks action (results ++ [result]) := by
  have hdurations := durations_append action results result
  rw [if_neg hlacks, if_neg hfailed] at hdurations
  rw [durationStep_success hlacks hfailed]
  refine ⟨?_, ?_, ?_, ?_, ?_⟩
  · rw [List.length_append, List.length_append, h.data]
    rfl
  · rw [hdurations, List.sum_append, List.sum_singleton, ← h.total]
  · intro x hx
    rw [hdurations, List.mem_append, List.mem_singleton] at hx
    rcases hx with hx | rfl
    · exact (min_le_right _ _).trans (h.min x hx)
    · exact min_le_left _ _
  · intro x hx
    rw [hdurations, List.mem_append, List.mem_singleton] at hx
    rcases hx with hx | rfl
    · exact (h.max x hx).trans (le_max_left _ _)
    · exact le_max_right _ _
  · rw [hdurations, List.mem_append, List.mem_singleton]
    rcases max_choice st.maxDur (result.durationOf action) with hmax | hmax
    · exact hmax.symm ▸ h.attained.imp_right Or.inl
    · exact Or.inr (Or.inr hmax)

theorem DurationState.Tracks.step {st : DurationState} {results : List IterationResult}
    (h : st.Tracks action results) (result : IterationResult) :
    (durationStep action st result).Tracks action (results ++ [result]) := by
  have hdata : (st.data ++ [0]).length = (results ++ [result]).length := by
    rw [List.length_append, List.length_append, h.data]
    rfl
  have hdurations := durations_append action results result
  by_cases hlacks : result.lacks action = true
  · rw [if_pos hlacks] at hdurations
    rw [durationStep, if_pos hlacks]
    exact ⟨hdata, hdurations ▸ h.total, hdurations ▸ h.min, hdurations ▸ h.max,
      hdurations ▸ h.attained⟩
  · by_cases hfailed : result.failed action = true
    · rw [if_neg hlacks, if_pos hfailed] at hdurations
      rw [durationStep, if_neg hlacks, if_pos hfailed]
      exact ⟨hdata, hdurations ▸ h.total, hdurations ▸ h.min, hdurations ▸ h.max,
        hdurations ▸ h.attained⟩
    · exact h.success hlacks hfailed

theorem tracks_foldl (results : List IterationResult) :
    (results.foldl (durationStep action) {}).Tracks action results := by
  induction results using List.reverseRecOn with
  | nil => exact ⟨rfl, rfl, nofun, nofun, Or.inl rfl⟩
  | append_singleton results result ih =>
    rw [List.foldl_append]
    exact ih.step result

/-- A summary of the durations: an entry of the list for each iteration, counts that add up, the
average between the least and the greatest duration, and a share between nothing and all. -/
structure WellDefined (output : Output) (action : String) (report : DurationReport) : Prop where
  data : report.data.length = output.result.length
  counts : ((durations action output.result).length : ℤ) + report.summary.errors.count +
    missing output action = output.result.length
  average : durations action output.result ≠ [] →
    report.summary.avg = (durations action output.result).sum /
      (durations action output.result).length ∧
    report.summary.min ≤ report.summary.avg ∧ report.summary.avg ≤ report.summary.max
  bounds : durations action output.result ≠ [] → ∀ x ∈ durations action output.result,
    report.summary.min ≤ x ∧ x ≤ report.summary.max
  attained : durations action output.result ≠ [] → (∀ x ∈ durations action output.result, 0 ≤ x) →
    report.summary.max ∈ durations action output.result
  success : 0 ≤ report.summary.success ∧ report.summary.success ≤ 100

theorem average_between {xs : List ℚ} (h : xs ≠ []) {low high : ℚ} (hlow : ∀ x ∈ xs, low ≤ x)
    (hhigh : ∀ x ∈ xs, x ≤ high) : low ≤ xs.sum / xs.length ∧ xs.sum / xs.length ≤ high := by
  have hpos : (0 : ℚ) < xs.length := by
    exact_mod_cast List.length_pos_iff.mpr h
  have hmin := xs.card_nsmul_le_sum low hlow
  have hmax := xs.sum_le_card_nsmul high hhigh
  rw [nsmul_eq_mul] at hmin hmax
  constructor
  · rw [le_div_iff₀ hpos, mul_comm]
    exact hmin
  · rw [div_le_iff₀ hpos, mul_comm]
    exact hmax

/-- What a report is made of, where one is returned. -/
theorem getActionDurReport_ok {times : ℤ} {report : DurationReport}
    (hresults : output.result ≠ []) (htimes : output.times = some times)
    (h : getActionDurReport action output = .ok report) :
    ∃ st : DurationState, st.Tracks action output.result ∧ report.data = st.data ∧
      report.summary.max = st.maxDur ∧ report.summary.errors.count = failures output action ∧
      report.summary.success =
        ((times : ℚ) - (failures output action : ℤ) - (missing output action : ℤ)) * 100 /
          (output.result.length : ℤ) ∧
      (times ≠ failures output action → report.summary.min = st.minDur ∧
        report.summary.avg =
          st.totalDur / (times - failures output action - missing output action : ℤ)) := by
  have hcounts := durationStep_counts action output.result {}
  refine ⟨output.result.foldl (durationStep action) {}, tracks_foldl output.result, ?_⟩
  set st := output.result.foldl (durationStep action) {} with hst
  have herrors : st.errors.count = failures output action := by
    rw [hst, hcounts.1]
    exact zero_add _
  have hmissing : st.noAction = missing output action := by
    rw [hst, hcounts.2]
    exact zero_add _
  have hexec : output.totalExec = .ok times := by
    rw [Output.totalExec, htimes]
  have hsome : output.result.isEmpty = false := by
    rw [List.isEmpty_eq_false_iff]
    exact hresults
  have hlength : ((output.result.length : ℕ) : ℤ) ≠ 0 := by
    simpa using hresults
  rw [getActionDurReport, ← hst, hexec, hsome] at h
  simp only [Except.bind, Bool.false_eq_true, if_false, herrors, hmissing] at h
  by_cases hall : times = failures output action
  · rw [if_pos hall, pyDiv, if_neg hlength] at h
    cases h
    exact ⟨rfl, rfl, herrors, rfl, fun hne => absurd hall hne⟩
  · rw [if_neg hall] at h
    cases havg : pyDiv st.totalDur (times - failures output action - missing output action) with
    | error e =>
      rw [havg] at h
      cases h
    | ok avg =>
      have hvalue : avg =
          st.totalDur / (times - failures output action - missing output action : ℤ) := by
        rw [pyDiv] at havg
        split at havg
        next => cases havg
        next => exact (Except.ok.inj havg).symm
      rw [havg, pyDiv, if_neg hlength] at h
      cases h
      exact ⟨rfl, rfl, herrors, rfl, fun _ => ⟨rfl, hvalue⟩⟩

/-- Every iteration succeeds, fails or lacks the action. -/
theorem durations_add (output : Output) (action : String) :
    ((durations action output.result).length : ℤ) + failures output action +
      missing output action = output.result.length := by
  exact_mod_cast length_durations_add action output.result

/-- The maximum is a duration, if there is one and none is negative. -/
theorem DurationState.Tracks.maxDur_mem {st : DurationState} {results : List IterationResult}
    (h : st.Tracks action results) (hne : durations action results ≠ [])
    (hnonneg : ∀ x ∈ durations action results, 0 ≤ x) : st.maxDur ∈ durations action results := by
  rcases h.attained with hzero | hmem
  · obtain ⟨x, hx⟩ := List.exists_mem_of_ne_nil _ hne
    have hx0 : x = 0 := le_antisymm (hzero ▸ h.max x hx) (hnonneg x hx)
    rw [hzero, ← hx0]
    exact hx
  · exact hmem

theorem percentage_between {k n : ℕ} (hn : 0 < n) (hk : k ≤ n) :
    0 ≤ (k : ℚ) * 100 / n ∧ (k : ℚ) * 100 / n ≤ 100 := by
  have hn' : (0 : ℚ) < n := by exact_mod_cast hn
  have hk' : (k : ℚ) ≤ n := by exact_mod_cast hk
  constructor
  · exact div_nonneg (mul_nonneg (Nat.cast_nonneg k) (by norm_num)) hn'.le
  · rw [div_le_iff₀ hn', mul_comm]
    exact mul_le_mul_of_nonneg_left hk' (by norm_num)

/-- A report that is made is well defined. -/
theorem wellDefined_of_report {output : Output} {action : String} {report : DurationReport}
    (hresults : output.result ≠ []) (htimes : output.times = some (output.result.length : ℤ))
    (hreport : getActionDurReport action output = .ok report) :
    WellDefined output action report := by
  obtain ⟨st, htracks, hdata, hmax, herrors, hsuccess, hminavg⟩ :=
    getActionDurReport_ok hresults htimes hreport
  have hsum := durations_add output action
  have hsucceeded : ((output.result.length : ℤ) - failures output action -
      missing output action : ℤ) = (durations action output.result).length := by
    omega
  have hminmax (hne : durations action output.result ≠ []) :
      report.summary.min = st.minDur ∧ report.summary.avg =
        (durations action output.result).sum / (durations action output.result).length := by
    have hlength : 0 < (durations action output.result).length := List.length_pos_iff.mpr hne
    obtain ⟨hmin, havg⟩ := hminavg (by omega)
    rw [hsucceeded, htracks.total] at havg
    exact ⟨hmin, havg⟩
  refine ⟨?_, ?_, ?_, ?_, ?_, ?_⟩
  · rw [hdata, htracks.data]
  · rw [herrors]
    exact hsum
  · intro hne
    obtain ⟨hmin, havg⟩ := hminmax hne
    rw [havg, hmin, hmax]
    exact ⟨rfl, average_between hne htracks.min htracks.max⟩
  · intro hne x hx
    rw [(hminmax hne).1, hmax]
    exact ⟨htracks.min x hx, htracks.max x hx⟩
  · intro hne hnonneg
    rw [hmax]
    exact htracks.maxDur_mem hne hnonneg
  · have hshare : (((output.result.length : ℤ) : ℚ) - (failures output action : ℤ) -
        (missing output action : ℤ)) = (durations action output.result).length := by
      exact_mod_cast hsucceeded
    rw [hsuccess, hshare, Int.cast_natCast]
    exact percentage_between (List.length_pos_iff.mpr hresults) (by omega)

/-- The summary is well defined just when no iteration lacks the action, or some iteration
succeeds. -/
theorem getActionDurReport_wellDefined_iff (output : Output) (action : String)
    (hresults : output.result ≠ []) (htimes : output.times = some (output.result.length : ℤ)) :
    (∃ report, getActionDurReport action output = .ok report ∧ WellDefined output action report) ↔
      (∀ result ∈ output.result, result.lacks action = false) ∨
      ∃ result ∈ output.result, result.lacks action = false ∧ result.failed action = false := by
  have hsum := durations_add output action
  have hnone : missing output action = 0 ↔
      ∀ result ∈ output.result, result.lacks action = false := by
    rw [missing, List.countP_eq_zero]
    simp only [Bool.not_eq_true]
  have hsome : durations action output.result ≠ [] ↔
      ∃ result ∈ output.result, result.lacks action = false ∧ result.failed action = false := by
    rw [durations, ne_eq, List.map_eq_nil_iff, List.filter_eq_nil_iff]
    push Not
    simp only [Bool.and_eq_true, Bool.not_eq_true']
  rw [← hnone, ← hsome]
  constructor
  · rintro ⟨report, hreport, -⟩
    rcases (getActionDurReport_ok_iff htimes action).mp ⟨report, hreport⟩ with hmissing | hne
    · exact Or.inl hmissing
    · refine Or.inr fun hempty => hne ?_
      rw [hempty, List.length_nil, Nat.cast_zero, zero_add] at hsum
      exact hsum
  · intro h
    have haverage : Averageable output output.result.length action := by
      refine h.imp_right fun hne heq => ?_
      have hpos : 0 < (durations action output.result).length := List.length_pos_iff.mpr hne
      omega
    obtain ⟨report, hreport⟩ := (getActionDurReport_ok_iff htimes action).mpr haverage
    exact ⟨report, hreport, wellDefined_of_report hresults htimes hreport⟩

/-- The first iteration fails before it comes to the server, the second one fails at it. -/
def neverBooted : Output :=
  ⟨some 2, [⟨["Conflict"], 1, [("keystone.create_user", none)]⟩,
    ⟨["Timeout"], 2, [("keystone.create_user", some 1), ("nova.boot_server", none)]⟩]⟩

/-- The guard only counts the failures, and the average is divided by zero. -/
theorem neverBooted_raises : neverBooted.result ≠ [] ∧
    neverBooted.times = some (neverBooted.result.length : ℤ) ∧
    (∃ result ∈ neverBooted.result, "nova.boot_server" ∈ result.atomicActions.map Prod.fst) ∧
    ¬ ∃ report, getActionDurReport "nova.boot_server" neverBooted = .ok report := by
  refine ⟨by decide, rfl, by decide, ?_⟩
  rw [getActionDurReport_ok_iff rfl, Averageable]
  decide

/-- One iteration without the server, and one that boots it. -/
def bootedOnce : Output :=
  ⟨some 2, [⟨["Conflict"], 1, [("keystone.create_user", none)]⟩,
    ⟨[], 4, [("keystone.create_user", some 1), ("nova.boot_server", some 3)]⟩]⟩

theorem bootedOnce_wellDefined : ∃ report,
    getActionDurReport "nova.boot_server" bootedOnce = .ok report ∧
      WellDefined bootedOnce "nova.boot_server" report :=
  (getActionDurReport_wellDefined_iff bootedOnce "nova.boot_server" (by decide) rfl).mpr
    (Or.inr (by decide))

end CompassAdapters.Rally
