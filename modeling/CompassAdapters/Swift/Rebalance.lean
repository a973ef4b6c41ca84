import CompassAdapters.Swift.Convergence
import Mathlib.Data.List.Dedup

/-! Which rings the script rebalances. -/
namespace CompassAdapters.Swift
open Ruby

variable {c : Cluster} {rings : Which → Ring} {r : Run}

/-- The addresses of the disks that are not in a ring. -/
def newServers (ring : Ring) (disks : List Disk) : List String :=
  (disks.filter fun v => decide (v.mountpoint ∉ ring.devices.map RingDevice.device)).map Disk.ip

/-- The distinct servers with new disks in the rings up to one. -/
def serversFound (c : Cluster) (rings : Which → Ring) (which : Which) : List String :=
  (which.upTo.flatMap fun w => newServers (rings w) (published (c.nodes w))).dedup

/-- There are as many of them as `wait_for` asks for. -/
def Allowed (c : Cluster) (rings : Which → Ring) (which : Which) : Prop :=
  ∀ wait_for ∈ c.wait_for, wait_for ≤ (serversFound c rings which).length

instance instDecidableAllowed (c : Cluster) (rings : Which → Ring) (which : Which) :
    Decidable (Allowed c rings which) :=
  inferInstanceAs (Decidable (∀ wait_for ∈ c.wait_for, _))

theorem mem_newServers {ring : Ring} {disks : List Disk} {ip : String} :
    ip ∈ newServers ring disks ↔ NewServer ring disks ip := by
  simp only [newServers, NewServer, List.mem_map, List.mem_filter, decide_eq_true_iff, not_exists,
    not_and]
  constructor
  · rintro ⟨v, ⟨hv, hnew⟩, hip⟩
    exact ⟨v, hv, hip, hnew⟩
  · rintro ⟨v, hv, hip, hnew⟩
    exact ⟨v, ⟨hv, hnew⟩, hip⟩

theorem enough_iff (c : Cluster) (servers : List String) :
    c.enough servers = true ↔ ∀ wait_for ∈ c.wait_for, wait_for ≤ servers.length := by
  rw [Cluster.enough]
  cases c.wait_for with
  | none => simp
  | some wait_for => simp

theorem Written.enough_iff {data : Which → DiskData} {flag : Which → Bool}
    {servers : Which → List String} (h : Written c rings r data flag servers) (which : Which) :
    c.enough (servers which) = true ↔ Allowed c rings which := by
  have hperm : (servers which).Perm (serversFound c rings which) := by
    apply (List.perm_ext_iff_of_nodup (h.nodup which) (List.nodup_dedup _)).mpr
    intro ip
    simp only [h.servers, List.mem_dedup, List.mem_flatMap, mem_newServers]
  rw [Swift.enough_iff, Allowed, hperm.length_eq]

/-- More servers are found from ring to ring. -/
theorem Allowed.mono {w which : Which} (hsub : w.upTo ⊆ which.upTo) (h : Allowed c rings w) :
    Allowed c rings which := by
  have hservers : serversFound c rings w ⊆ serversFound c rings which := by
    intro ip hip
    rw [serversFound, List.mem_dedup, List.mem_flatMap] at hip ⊢
    obtain ⟨w', hw', hip⟩ := hip
    exact ⟨w', hsub hw', hip⟩
  have hnodup : (serversFound c rings w).Nodup := List.nodup_dedup _
  have hlen := (List.subperm_of_subset hnodup hservers).length_le
  intro wait_for hwait
  exact (h wait_for hwait).trans (Int.ofNat_le.mpr hlen)

theorem Written.rebalance_mem {data : Which → DiskData} {flag : Which → Bool}
    {servers : Which → List String} (h : Written c rings r data flag servers) (which : Which) :
    Command.rebalance which ∈ r.commands ↔ flag which = true := by
  have hmem : Command.rebalance which ∈ r.commands ↔
      Command.rebalance which ∈ r.commands.filter fun cmd => decide (cmd.ring = which) := by
    simp [Command.ring]
  have hnot : Command.rebalance which ∉ changes which (rings which) (data which) := by
    intro hin
    cases (ring_of_changes hin).2
  rw [hmem, h.filter, List.mem_append, or_iff_right hnot]
  cases flag which <;> simp

/-- A ring is rebalanced for its own changes, or for those of a ring before it that had enough new
servers. -/
theorem Written.flag_iff {data : Which → DiskData} {flag : Which → Bool}
    {servers : Which → List String} (h : Written c rings r data flag servers) (which : Which) :
    flag which = true ↔ ∃ w ∈ which.upTo, Pending (rings w) (published (c.nodes w)) ∧
      (w = which ∨ Allowed c rings w) := by
  have hpending (which : Which) :
      (!(changes which (rings which) (data which)).isEmpty) = true ↔
        Pending (rings which) (published (c.nodes which)) :=
    changes_isEmpty which (h.collected which)
  have hmore : Allowed c rings .account → Allowed c rings .container :=
    Allowed.mono (by simp [Which.upTo])
  have haccount : flag .account = true ↔
      Pending (rings .account) (published (c.nodes .account)) := by
    rw [h.account, hpending]
  have hcontainer : flag .container = true ↔
      Pending (rings .account) (published (c.nodes .account)) ∧ Allowed c rings .account ∨
      Pending (rings .container) (published (c.nodes .container)) := by
    rw [h.container, Bool.or_eq_true, Bool.and_eq_true, hpending, h.enough_iff, haccount]
  cases which with
  | account => simp [Which.upTo, haccount]
  | container => simp [Which.upTo, hcontainer]
  | object =>
    have hboth : (Pending (rings .account) (published (c.nodes .account)) ∧
        Allowed c rings .account) ∧ Allowed c rings .container ↔
        Pending (rings .account) (published (c.nodes .account)) ∧ Allowed c rings .account :=
      and_iff_left_of_imp fun hallowed => hmore hallowed.2
    rw [h.object, Bool.or_eq_true, Bool.and_eq_true, hpending, h.enough_iff, hcontainer,
      or_and_right, hboth, or_assoc]
    simp [Which.upTo]

theorem Written.must_rebalance_iff {data : Which → DiskData} {flag : Which → Bool}
    {servers : Which → List String} (h : Written c rings r data flag servers) :
    r.must_rebalance = true ↔
      ∃ w, Pending (rings w) (published (c.nodes w)) ∧ Allowed c rings w := by
  rw [h.must_rebalance, Bool.and_eq_true, h.flag_iff, h.enough_iff]
  constructor
  · rintro ⟨⟨w, -, hpending, rfl | hallowed⟩, henough⟩
    · exact ⟨.object, hpending, henough⟩
    · exact ⟨w, hpending, hallowed⟩
  · rintro ⟨w, hpending, hallowed⟩
    have hsub : w.upTo ⊆ Which.upTo .object := by cases w <;> simp [Which.upTo]
    have hmem : w ∈ Which.upTo .object := by cases w <;> simp [Which.upTo]
    exact ⟨⟨w, hmem, hpending, Or.inr hallowed⟩, hallowed.mono hsub⟩

/-- Just the rings with changes are rebalanced, once there are enough new servers, and the result
tells whether there is a rebalance, just when every ring with changes has enough new servers by then
and all rings after it have changes too. -/
theorem rebalance_iff (h : generateScript c rings = .ok r) :
    ((∀ which, Command.rebalance which ∈ r.commands ↔
      (∃ cmd ∈ r.commands, cmd.ring = which ∧ cmd.isChange = true) ∧ Allowed c rings which) ∧
      (r.must_rebalance = true ↔ ∃ which, Command.rebalance which ∈ r.commands)) ↔
    (∀ which, Pending (rings which) (published (c.nodes which)) → Allowed c rings which) ∧
    ∀ which, ∀ w ∈ which.upTo, Pending (rings w) (published (c.nodes w)) →
      Pending (rings which) (published (c.nodes which)) := by
  obtain ⟨data, flag, servers, hw⟩ := generateScript_written h
  have hchange (which : Which) : (∃ cmd ∈ r.commands, cmd.ring = which ∧ cmd.isChange = true) ↔
      Pending (rings which) (published (c.nodes which)) := by
    rw [← not_iff_not, ← filter_isChange h which]
    simp
  have hself (which : Which) : which ∈ which.upTo := by cases which <;> simp [Which.upTo]
  simp only [hw.rebalance_mem, hchange, hw.must_rebalance_iff, hw.flag_iff]
  constructor
  · rintro ⟨hrings, -⟩
    have henough : ∀ which, Pending (rings which) (published (c.nodes which)) →
        Allowed c rings which :=
      fun which hpending => ((hrings which).mp ⟨which, hself which, hpending, Or.inl rfl⟩).2
    refine ⟨henough, fun which w hw' hpending => ?_⟩
    exact ((hrings which).mp ⟨w, hw', hpending, Or.inr (henough w hpending)⟩).1
  · rintro ⟨henough, hnext⟩
    have hrings (which : Which) : (∃ w ∈ which.upTo, Pending (rings w) (published (c.nodes w)) ∧
        (w = which ∨ Allowed c rings w)) ↔
        Pending (rings which) (published (c.nodes which)) ∧ Allowed c rings which := by
      constructor
      · rintro ⟨w, hw', hpending, -⟩
        have hpending' := hnext which w hw' hpending
        exact ⟨hpending', henough which hpending'⟩
      · rintro ⟨hpending, -⟩
        exact ⟨which, hself which, hpending, Or.inl rfl⟩
    exact ⟨hrings, exists_congr fun which => (hrings which).symm⟩

/-- One new server is enough, and there is one. -/
theorem oneServer_rebalanced :
    ∃ r, generateScript { oneDisk with wait_for := some 1 } (oneDevice "10.0.0.1" "cd34") = .ok r ∧
      (r.must_rebalance = true ↔ ∃ which, Command.rebalance which ∈ r.commands) := by
  obtain ⟨r, hr⟩ := exists_generateScript (c := { oneDisk with wait_for := some 1 }) oneDisk_zoned
    (oneDevice "10.0.0.1" "cd34")
  refine ⟨r, hr, ((rebalance_iff hr).mpr ⟨?_, ?_⟩).2⟩
  · intro which _
    cases which <;> decide
  · intro which w _ _
    cases which <;> decide

/-- The disk is in the rings after the first one. -/
def behind : Which → Ring
  | .account => oneDevice "10.0.0.1" "cd34" .account
  | .container => oneDevice "10.0.0.2" "ab12" .container
  | .object => oneDevice "10.0.0.2" "ab12" .object

/-- A ring without changes is rebalanced after one with changes, and a ring is rebalanced before
there are enough servers, without the result telling so. -/
theorem behind_rebalanced :
    (∃ r, generateScript oneDisk behind = .ok r ∧ Command.rebalance .container ∈ r.commands ∧
      ¬ ∃ cmd ∈ r.commands, cmd.ring = .container ∧ cmd.isChange = true) ∧
    ∃ r, generateScript { oneDisk with wait_for := some 2 } behind = .ok r ∧
      Command.rebalance .account ∈ r.commands ∧ r.must_rebalance = false ∧
      ¬ Allowed { oneDisk with wait_for := some 2 } behind .account := by
  constructor
  · obtain ⟨r, hr⟩ := exists_generateScript oneDisk_zoned behind
    obtain ⟨data, flag, servers, hw⟩ := generateScript_written hr
    refine ⟨r, hr, ?_, ?_⟩
    · rw [hw.rebalance_mem, hw.flag_iff]
      exact ⟨.account, by decide, by decide, by decide⟩
    · rintro ⟨cmd, hcmd, hring, hchange⟩
      have hnone := (filter_isChange hr .container).mpr (by decide) cmd hcmd hring
      rw [hnone] at hchange
      cases hchange
  · obtain ⟨r, hr⟩ := exists_generateScript (c := { oneDisk with wait_for := some 2 }) oneDisk_zoned
      behind
    obtain ⟨data, flag, servers, hw⟩ := generateScript_written hr
    refine ⟨r, hr, ?_, ?_, by decide⟩
    · rw [hw.rebalance_mem, hw.flag_iff]
      exact ⟨.account, by decide, by decide, by decide⟩
    · rw [← Bool.not_eq_true, hw.must_rebalance_iff]
      rintro ⟨w, -, hallowed⟩
      revert hallowed
      cases w <;> decide

end CompassAdapters.Swift
