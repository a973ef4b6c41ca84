import CompassAdapters.Tally.Overwrites
import CompassAdapters.Template.Python
import Mathlib.Algebra.BigOperators.Group.List.Lemmas
import Mathlib.Algebra.Ring.Int.Defs

/-! `nova_plugin.py`: what the servers of the tenants use. -/
namespace CompassAdapters.Monitoring.Nova
open Ruby Tally

section Stats

inductive Counter
  | ram
  | vcpus
  | disk
  | ephemeral
  deriving DecidableEq

def Counter.name : Counter → String
  | ram => "ram"
  | vcpus => "vcpus"
  | disk => "disk"
  | ephemeral => "ephemeral"

def counters : List Counter := [.ram, .vcpus, .disk, .ephemeral]

structure Flavor where
  ram : ℤ
  vcpus : ℤ
  disk : ℤ
  ephemeral : ℤ

def Counter.of (flavor : Flavor) : Counter → ℤ
  | ram => flavor.ram
  | vcpus => flavor.vcpus
  | disk => flavor.disk
  | ephemeral => flavor.ephemeral

/-- A server with `flavor["id"]`. -/
structure Server where
  tenant_id : String
  flavor_id : String

/-- A tenant with the servers that are listed for it. -/
structure Tenant where
  name : String
  servers : List Server

/-- The tenants with different names, the name that Keystone gives for the identifier of a tenant,
and the flavor that Nova gives for a number. A server is listed under its own tenant. -/
structure Cloud where
  tenantName : String → Option String
  flavors : ℤ → Option Flavor
  my_tenants : List Tenant
  names_nodup : (my_tenants.map Tenant.name).Nodup
  own : ∀ t ∈ my_tenants, ∀ s ∈ t.servers, tenantName s.tenant_id = some t.name

/-- `client.flavors.get(int(server.flavor["id"]))`; `none` is the `ValueError` of an identifier
that is no number, or a flavor that is not found. -/
def Cloud.flavor (cloud : Cloud) (server : Server) : Option Flavor :=
  (Python.int server.flavor_id).bind cloud.flavors

/-- The flavor of a server that has one. -/
def Cloud.used (cloud : Cloud) (server : Server) : Flavor :=
  (cloud.flavor server).getD ⟨0, 0, 0, 0⟩

theorem Cloud.flavor_eq {cloud : Cloud} {server : Server} (h : cloud.flavor server ≠ none) :
    cloud.flavor server = some (cloud.used server) := by
  obtain ⟨flavor, hflavor⟩ := Option.ne_none_iff_exists'.mp h
  rw [Cloud.used, hflavor, Option.getD_some]

/-- What is told of a tenant: the number of its servers and the counters. -/
inductive Field
  | count
  | counter (c : Counter)
  deriving DecidableEq

def Field.name : Field → String
  | count => "count"
  | counter c => c.name

/-- `prefix`. -/
def novaPrefix : String := "openstack.nova"

def totalKey (f : Field) : String := novaPrefix ++ ".total." ++ f.name

def tenantKey (f : Field) (tenant : String) : String :=
  novaPrefix ++ ".tenant." ++ tenant ++ "." ++ f.name

/-- The key that is looked for before a counter of a tenant is set. -/
def testedKey (f : Field) (tenant : String) : String :=
  novaPrefix ++ "." ++ tenant ++ "." ++ f.name

section Keys

/-- The part after the last point, and what comes before. -/
theorem eq_of_append_point {x y a b : List Char} (ha : '.' ∉ a) (hb : '.' ∉ b)
    (h : x ++ '.' :: a = y ++ '.' :: b) : x = y ∧ a = b := by
  have hcut {x z a b : List Char} (ha : '.' ∉ a) (h : '.' :: a = z ++ '.' :: b) :
      x = x ++ z ∧ a = b := by
    cases z with
    | nil =>
      rw [List.nil_append] at h
      exact ⟨(List.append_nil x).symm, (List.cons.inj h).2⟩
    | cons c z =>
      obtain ⟨rfl, rfl⟩ := List.cons.inj h
      exact absurd (List.mem_append_right z List.mem_cons_self) ha
  rcases List.append_eq_append_iff.mp h with ⟨z, rfl, hz⟩ | ⟨z, rfl, hz⟩
  · exact hcut ha hz
  · exact (hcut hb hz).imp Eq.symm Eq.symm

theorem Field.point_notMem (f : Field) : '.' ∉ f.name.toList := by
  rcases f with _ | c
  · decide
  · cases c <;> decide

theorem Field.name_injective : Function.Injective Field.name := by
  intro f f' h
  rcases f with _ | c <;> rcases f' with _ | c' <;> try cases c
  all_goals try cases c'
  all_goals first | rfl | exact absurd h (by decide)

theorem testedKey_toList (f : Field) (t : String) : (testedKey f t).toList =
    novaPrefix.toList ++ '.' :: t.toList ++ '.' :: f.name.toList := by
  simp [testedKey]

theorem testedKey_inj {f f' : Field} {t t' : String} (h : testedKey f t = testedKey f' t') :
    f = f' ∧ t = t' := by
  have hlist := congrArg String.toList h
  rw [testedKey_toList, testedKey_toList] at hlist
  obtain ⟨ht, hf⟩ := eq_of_append_point f.point_notMem f'.point_notMem hlist
  exact ⟨Field.name_injective (String.toList_inj.mp hf),
    String.toList_inj.mp (List.cons.inj (List.append_cancel_left ht)).2⟩

theorem totalKey_eq (f : Field) : totalKey f = testedKey f "total" := by
  have hpoint : ".total." = "." ++ "total" ++ "." := by decide
  rw [totalKey, testedKey, hpoint]
  simp only [String.append_assoc]

theorem tenantKey_eq (f : Field) (t : String) : tenantKey f t = testedKey f ("tenant." ++ t) := by
  have hpoint : ".tenant." = "." ++ "tenant." := by decide
  rw [tenantKey, testedKey, hpoint]
  simp only [String.append_assoc]

theorem tenant_append_inj {t t' : String} (h : "tenant." ++ t = "tenant." ++ t') : t = t' := by
  have hlist := congrArg String.toList h
  rw [String.toList_append, String.toList_append] at hlist
  exact String.toList_inj.mp (List.append_cancel_left hlist)

theorem total_ne_tenant (t : String) : "total" ≠ "tenant." ++ t := by
  intro h
  have hlist := congrArg String.toList h
  rw [String.toList_append] at hlist
  simp at hlist

/-- The keys of the totals and of the tenants. -/
def nova : Layout Field String String where
  total := totalKey
  gauge := tenantKey
  total_injective f f' h := by
    rw [totalKey_eq, totalKey_eq] at h
    exact (testedKey_inj h).1
  gauge_injective h := by
    rw [tenantKey_eq, tenantKey_eq] at h
    obtain ⟨hf, ht⟩ := testedKey_inj h
    exact ⟨hf, tenant_append_inj ht⟩
  total_ne_gauge f f' t h := by
    rw [totalKey_eq, tenantKey_eq] at h
    exact total_ne_tenant t (testedKey_inj h).2

end Keys

/-- The body of the loop over the counters; `none` is an exception. -/
def useCounter (tenant_uuid : String) (flavor : Flavor) (data : Hash String ℤ) (counter : Counter) :
    Option (Hash String ℤ) :=
  (add data (totalKey (.counter counter)) (counter.of flavor)).bind fun data =>
    if testedKey (.counter counter) tenant_uuid ∈ data.keys then
      add data (tenantKey (.counter counter) tenant_uuid) (counter.of flavor)
    else some (data.store (tenantKey (.counter counter) tenant_uuid) (counter.of flavor))

/-- The body of the loop over the servers. -/
def useServer (cloud : Cloud) (data : Hash String ℤ) (server : Server) : Option (Hash String ℤ) :=
  (cloud.flavor server).bind fun flavor =>
    (cloud.tenantName server.tenant_id).bind fun tenant_uuid =>
      (add data (tenantKey .count tenant_uuid) 1).bind fun data =>
        counters.foldlM (useCounter tenant_uuid flavor) data

/-- The body of the loop over the tenants. -/
def useTenant (cloud : Cloud) (data : Hash String ℤ) (tenant : Tenant) : Option (Hash String ℤ) :=
  (add data (totalKey .count) (tenant.servers.length : ℤ)).bind fun data =>
    tenant.servers.foldlM (useServer cloud) (data.store (tenantKey .count tenant.name) 0)

def initialData : Hash String ℤ :=
  counters.foldl (fun data counter => data.store (totalKey (.counter counter)) 0)
    (Hash.empty.store (totalKey .count) 0)

def getStats (cloud : Cloud) : Option (Hash String ℤ) :=
  cloud.my_tenants.foldlM (useTenant cloud) initialData

end Stats

/-- A loop stops at an element at which it stops from every state. -/
theorem foldlM_eq_none {α β : Type*} {f : β → α → Option β} {l : List α} {x : α} (hx : x ∈ l)
    (h : ∀ b, f b x = none) (b : β) : l.foldlM f b = none := by
  obtain ⟨l₁, l₂, rfl⟩ := List.append_of_mem hx
  rw [List.foldlM_append]
  cases l₁.foldlM f b with
  | none => rfl
  | some b => simp [h]

section Servers

variable {cloud : Cloud} {data : Hash String ℤ} {total : Field → ℤ}
  {gauge : Field → String → Option ℤ} {t : String} {flavor : Flavor}

/-- The key that is looked for is there for a tenant with the name `total`, or for one that looks
like the key of another. -/
theorem testedKey_mem (h : Holds nova data total gauge fun _ => none) (f : Field) :
    testedKey f t ∈ data.keys ↔ t = "total" ∨ ∃ u, t = "tenant." ++ u ∧ gauge f u ≠ none := by
  constructor
  · intro hmem
    obtain ⟨v, hv⟩ := Hash.mem_keys.mp hmem
    by_cases htotal : ∃ f', testedKey f t = totalKey f'
    · obtain ⟨f', heq⟩ := htotal
      rw [totalKey_eq] at heq
      exact Or.inl (testedKey_inj heq).2
    by_cases htenant : ∃ f' u, testedKey f t = tenantKey f' u
    · obtain ⟨f', u, heq⟩ := htenant
      have hu := h.gauge f' u
      rw [show nova.gauge f' u = tenantKey f' u from rfl, ← heq, hv] at hu
      rw [tenantKey_eq] at heq
      obtain ⟨rfl, rfl⟩ := testedKey_inj heq
      exact Or.inr ⟨u, rfl, hu ▸ Option.some_ne_none v⟩
    · have hnone := h.other (testedKey f t) (fun f' heq => htotal ⟨f', heq⟩)
        (fun f' u heq => htenant ⟨f', u, heq⟩)
      rw [hv] at hnone
      cases hnone
  · rintro (rfl | ⟨u, rfl, hu⟩)
    · exact Hash.mem_keys.mpr ⟨_, h.total f⟩
    · obtain ⟨v, hv⟩ := Option.ne_none_iff_exists'.mp hu
      rw [← tenantKey_eq]
      exact Hash.mem_keys.mpr ⟨v, (h.gauge f u).trans hv⟩

/-- A tenant whose counters are stored and not added to. -/
def Unmistaken (gauge : Field → String → Option ℤ) (t : String) : Prop :=
  t ≠ "total" ∧ ∀ u, t = "tenant." ++ u → ∀ c, gauge (.counter c) u = none

theorem ne_tenant_append (t : String) : "tenant." ++ t ≠ t := by
  intro h
  have hlen := congrArg String.length h
  rw [String.length_append] at hlen
  have hpos : 0 < "tenant.".length := by decide
  omega

/-- What is stored for the tenant itself makes no difference. -/
theorem Unmistaken.update (h : Unmistaken gauge t) (f : Field) (v : Option ℤ) :
    Unmistaken (Function.update gauge f (Function.update (gauge f) t v)) t := by
  refine ⟨h.1, ?_⟩
  intro u hu c
  have hne : u ≠ t := fun heq => ne_tenant_append u (hu.symm.trans heq.symm)
  rw [Function.update_apply]
  split
  next heq =>
    rw [Function.update_of_ne hne, ← heq]
    exact h.2 u hu c
  next => exact h.2 u hu c

theorem useCounter_eq (h : Holds nova data total gauge fun _ => none) (ht : Unmistaken gauge t)
    (flavor : Flavor) (c : Counter) :
    useCounter t flavor data c = record nova (.counter c) t (c.of flavor) data := by
  obtain ⟨data', hadd, hdata'⟩ := h.add_total (.counter c) (c.of flavor)
  have hmem : testedKey (.counter c) t ∉ data'.keys := by
    rw [testedKey_mem hdata']
    rintro (heq | ⟨u, heq, hu⟩)
    · exact ht.1 heq
    · exact hu (ht.2 u heq c)
  have hadd' : add data (totalKey (.counter c)) (c.of flavor) = some data' := hadd
  rw [useCounter, record, hadd, hadd', Option.bind_some, if_neg hmem]
  rfl

/-- The totals after a server of the flavor. -/
def totalAfter (total : Field → ℤ) (flavor : Flavor) : Field → ℤ
  | .count => total .count
  | .counter c => total (.counter c) + c.of flavor

/-- The values of a tenant after a server of the flavor. -/
def gaugeAfter (gauge : Field → String → Option ℤ) (t : String) (flavor : Flavor) :
    Field → String → Option ℤ
  | .count => Function.update (gauge .count) t ((gauge .count t).map (· + 1))
  | .counter c => Function.update (gauge (.counter c)) t (some (c.of flavor))

theorem Unmistaken.after (h : Unmistaken gauge t) (flavor : Flavor) :
    Unmistaken (gaugeAfter gauge t flavor) t := by
  refine ⟨h.1, ?_⟩
  intro u hu c
  have hne : u ≠ t := fun heq => ne_tenant_append u (hu.symm.trans heq.symm)
  rw [gaugeAfter, Function.update_of_ne hne]
  exact h.2 u hu c

/-- A server is counted and its counters are stored. -/
theorem useServer_holds (h : Holds nova data total gauge fun _ => none) (ht : Unmistaken gauge t)
    {server : Server} (hflavor : cloud.flavor server = some flavor)
    (hown : cloud.tenantName server.tenant_id = some t) {k : ℤ}
    (hcount : gauge .count t = some k) :
    ∃ data', useServer cloud data server = some data' ∧
      Holds nova data' (totalAfter total flavor) (gaugeAfter gauge t flavor)
        fun _ => none := by
  obtain ⟨data₀, hadd, h₀⟩ := h.add_gauge hcount 1
  have ht₀ := ht.update .count (some (k + 1))
  obtain ⟨data₁, hrec₁, h₁⟩ := h₀.record (.counter .ram) t (Counter.ram.of flavor)
  have ht₁ := ht₀.update (.counter .ram) (some (Counter.ram.of flavor))
  obtain ⟨data₂, hrec₂, h₂⟩ := h₁.record (.counter .vcpus) t (Counter.vcpus.of flavor)
  have ht₂ := ht₁.update (.counter .vcpus) (some (Counter.vcpus.of flavor))
  obtain ⟨data₃, hrec₃, h₃⟩ := h₂.record (.counter .disk) t (Counter.disk.of flavor)
  have ht₃ := ht₂.update (.counter .disk) (some (Counter.disk.of flavor))
  obtain ⟨data₄, hrec₄, h₄⟩ := h₃.record (.counter .ephemeral) t
    (Counter.ephemeral.of flavor)
  have hadd' : add data (tenantKey .count t) 1 = some data₀ := hadd
  refine ⟨data₄, ?_, ?_⟩
  · rw [useServer, hflavor, Option.bind_some, hown, Option.bind_some, hadd', Option.bind_some,
      counters, List.foldlM_cons, useCounter_eq h₀ ht₀, hrec₁, Option.bind_eq_bind, Option.bind_some, List.foldlM_cons,
      useCounter_eq h₁ ht₁, hrec₂, Option.bind_eq_bind, Option.bind_some, List.foldlM_cons,
      useCounter_eq h₂ ht₂, hrec₃, Option.bind_eq_bind, Option.bind_some, List.foldlM_cons,
      useCounter_eq h₃ ht₃, hrec₄]
    rfl
  · convert h₄ using 1
    · funext f
      rcases f with _ | c
      · rfl
      · cases c <;> rfl
    · funext f
      rcases f with _ | c
      · rw [gaugeAfter, hcount]
        rfl
      · cases c <;> rfl

/-- The servers of a tenant, one after the other. -/
theorem useServers_holds {servers : List Server} (h : Holds nova data total gauge fun _ => none)
    (ht : ∀ _ ∈ servers, Unmistaken gauge t)
    (hflavor : ∀ server ∈ servers, cloud.flavor server ≠ none)
    (hown : ∀ server ∈ servers, cloud.tenantName server.tenant_id = some t) {k : ℤ}
    (hcount : gauge .count t = some k) :
    ∃ data', servers.foldlM (useServer cloud) data = some data' ∧
      Holds nova data' (servers.foldl (fun total server => totalAfter total (cloud.used server)) total)
        (servers.foldl (fun gauge server => gaugeAfter gauge t (cloud.used server)) gauge)
        fun _ => none := by
  induction servers generalizing data total gauge k with
  | nil => exact ⟨data, rfl, h⟩
  | cons server servers ih =>
    obtain ⟨hused, hflavor⟩ := List.forall_mem_cons.mp hflavor
    obtain ⟨hserver, hown⟩ := List.forall_mem_cons.mp hown
    have hfirst := ht server List.mem_cons_self
    obtain ⟨data₁, hrun, h₁⟩ := useServer_holds h hfirst (Cloud.flavor_eq hused) hserver hcount
    obtain ⟨data', hrest, h'⟩ := ih (k := k + 1) h₁
      (fun _ _ => hfirst.after (cloud.used server)) hflavor hown
      (by rw [gaugeAfter, Function.update_self, hcount, Option.map_some])
    exact ⟨data', by rw [List.foldlM_cons, hrun, Option.bind_eq_bind, Option.bind_some, hrest], h'⟩

theorem foldl_totalAfter (servers : List Server) (total : Field → ℤ) :
    servers.foldl (fun total server => totalAfter total (cloud.used server)) total = fun f =>
      match f with
      | .count => total .count
      | .counter c => total (.counter c) + (servers.map fun server => c.of (cloud.used server)).sum := by
  induction servers generalizing total with
  | nil =>
    funext f
    rcases f with _ | c
    · rfl
    · exact (add_zero _).symm
  | cons server servers ih =>
    rw [List.foldl_cons, ih]
    funext f
    rcases f with _ | c
    · rfl
    · dsimp only
      rw [List.map_cons, List.sum_cons, ← add_assoc]
      rfl

theorem foldl_gaugeAfter (servers : List Server) (gauge : Field → String → Option ℤ) :
    servers.foldl (fun gauge server => gaugeAfter gauge t (cloud.used server)) gauge = fun f n =>
      match f with
      | .count => if n = t then (gauge .count t).map (· + (servers.length : ℤ)) else gauge .count n
      | .counter c =>
        (last (servers.map fun server => (t, c.of (cloud.used server))) n).or (gauge (.counter c) n) := by
  induction servers generalizing gauge with
  | nil =>
    funext f n
    rcases f with _ | c
    · by_cases hn : n = t
      · subst hn
        cases hg : gauge .count n <;> simp [hg]
      · simp [hn]
    · rfl
  | cons server servers ih =>
    rw [List.foldl_cons, ih]
    funext f n
    rcases f with _ | c
    · by_cases hn : n = t
      · subst hn
        cases hg : gauge .count n with
        | none => simp [gaugeAfter, hg]
        | some k =>
          simp only [gaugeAfter, if_true, Function.update_self, hg, Option.map_some,
            List.length_cons]
          refine congrArg some ?_
          omega
      · simp [gaugeAfter, hn]
    · simp only [gaugeAfter, List.map_cons, last_cons, Option.or_assoc]
      by_cases hn : n = t
      · subst hn
        simp
      · have hne : ¬ t = n := fun heq => hn heq.symm
        simp [hn, hne]

/-- A tenant that is mistaken for a key stops the loop at its first server. -/
theorem useServer_none (h : Holds nova data total gauge fun _ => none)
    (ht : t = "total" ∨ ∃ u, t = "tenant." ++ u ∧ gauge (.counter .ram) u ≠ none)
    (hram : gauge (.counter .ram) t = none) {k : ℤ} (hcount : gauge .count t = some k)
    {server : Server} (hown : cloud.tenantName server.tenant_id = some t) :
    useServer cloud data server = none := by
  cases hflavor : cloud.flavor server with
  | none => rw [useServer, hflavor, Option.bind_none]
  | some flavor =>
    obtain ⟨data₀, hadd₀, h₀⟩ := h.add_gauge hcount 1
    obtain ⟨data₁, hadd₁, h₁⟩ := h₀.add_total (.counter .ram) (Counter.ram.of flavor)
    have hadd₀' : add data (tenantKey .count t) 1 = some data₀ := hadd₀
    have hadd₁' : add data₀ (totalKey (.counter .ram)) (Counter.ram.of flavor) =
        some data₁ := hadd₁
    have hmem : testedKey (.counter .ram) t ∈ data₁.keys := (testedKey_mem h₁ _).mpr ht
    have hnone : add data₁ (tenantKey (.counter .ram) t) (Counter.ram.of flavor) = none := by
      rw [add, Option.map_eq_none_iff]
      exact (h₁.gauge (.counter .ram) t).trans hram
    rw [useServer, hflavor, Option.bind_some, hown, Option.bind_some, hadd₀', Option.bind_some,
      counters, List.foldlM_cons, useCounter, hadd₁', Option.bind_some, if_pos hmem, hnone]
    rfl

end Servers

section Tenants

/-- Each server has a flavor that is found. -/
def HasFlavors (cloud : Cloud) (tenants : List Tenant) : Prop :=
  ∀ t ∈ tenants, ∀ server ∈ t.servers, cloud.flavor server ≠ none

/-- The values of some tenants, under their names. -/
def usage (cloud : Cloud) (tenants : List Tenant) : Field → List (String × ℤ)
  | .count => tenants.map fun t => (t.name, (t.servers.length : ℤ))
  | .counter c => tenants.flatMap fun t =>
    t.servers.map fun server => (t.name, c.of (cloud.used server))

/-- The totals, and the last values of the tenants. -/
def Tracks (cloud : Cloud) (data : Hash String ℤ) (tenants : List Tenant) : Prop :=
  Holds nova data (fun f => ((usage cloud tenants f).map Prod.snd).sum)
    (fun f n => last (usage cloud tenants f) n) fun _ => none

/-- No tenant with servers is taken for the totals or for an earlier one with servers. -/
def NoClash (tenants : List Tenant) : Prop :=
  (∀ t ∈ tenants, t.servers ≠ [] → t.name ≠ "total") ∧
    tenants.Pairwise fun u t => u.servers ≠ [] → t.servers ≠ [] → t.name ≠ "tenant." ++ u.name

instance instDecidableNoClash (tenants : List Tenant) : Decidable (NoClash tenants) :=
  inferInstanceAs (Decidable (_ ∧ _))

variable {cloud : Cloud} {data : Hash String ℤ} {tenants : List Tenant} {t : Tenant}

theorem noClash_concat : NoClash (tenants ++ [t]) ↔ NoClash tenants ∧
    (t.servers ≠ [] → t.name ≠ "total" ∧
      ∀ u ∈ tenants, u.servers ≠ [] → t.name ≠ "tenant." ++ u.name) := by
  simp only [NoClash, List.pairwise_append, List.forall_mem_append, List.forall_mem_singleton,
    List.pairwise_singleton, true_and]
  constructor
  · rintro ⟨⟨htotal, ht⟩, hpair, hu⟩
    exact ⟨⟨htotal, hpair⟩, fun hne => ⟨ht hne, fun u hmem hservers => hu u hmem hservers hne⟩⟩
  · rintro ⟨⟨htotal, hpair⟩, ht⟩
    exact ⟨⟨htotal, fun hne => (ht hne).1⟩, hpair, fun u hmem hservers hne =>
      (ht hne).2 u hmem hservers⟩

theorem last_usage_eq_none {c : Counter} {n : String} :
    last (usage cloud tenants (.counter c)) n = none ↔ ∀ u ∈ tenants, u.servers ≠ [] → u.name ≠ n := by
  rw [last_eq_none, usage]
  constructor
  · intro h u hu hne heq
    obtain ⟨server, hserver⟩ := List.exists_mem_of_ne_nil _ hne
    apply h
    rw [List.mem_map]
    exact ⟨_, List.mem_flatMap.mpr ⟨u, hu, List.mem_map_of_mem hserver⟩, heq⟩
  · intro h hmem
    obtain ⟨x, hx, rfl⟩ := List.mem_map.mp hmem
    obtain ⟨u, hu, hx⟩ := List.mem_flatMap.mp hx
    obtain ⟨server, hserver, rfl⟩ := List.mem_map.mp hx
    exact h u hu (List.ne_nil_of_mem hserver) rfl

theorem initialData_get?_eq_none {k : String} (hk : ∀ f, k ≠ totalKey f) :
    initialData.get? k = none := by
  have hkeys : initialData.keys = (Field.count :: counters.map Field.counter).map totalKey := by
    decide
  cases hget : initialData.get? k with
  | none => rfl
  | some v =>
    have hmem := Hash.mem_keys.mpr ⟨v, hget⟩
    rw [hkeys] at hmem
    obtain ⟨f, -, rfl⟩ := List.mem_map.mp hmem
    exact absurd rfl (hk f)

theorem initialData_tracks : Tracks cloud initialData [] := by
  refine ⟨?_, ?_, ?_⟩
  · intro f
    have hstart : ∀ c, initialData.get? (totalKey (.counter c)) = some 0 := by
      intro c
      cases c <;> decide
    rcases f with _ | c
    · exact (by decide : initialData.get? (totalKey .count) = some 0)
    · exact hstart c
  · intro f n
    have hget : initialData.get? (nova.gauge f n) = none :=
      initialData_get?_eq_none fun f' heq => nova.total_ne_gauge f' f n heq.symm
    rw [hget]
    rcases f with _ | c <;> rfl
  · intro k htotal _
    exact initialData_get?_eq_none htotal

/-- The start of the body of the loop over the tenants. -/
theorem Tracks.start (h : Tracks cloud data tenants) (t : Tenant) :
    ∃ data', add data (totalKey .count) (t.servers.length : ℤ) = some data' ∧
      Holds nova (data'.store (tenantKey .count t.name) 0)
        (Function.update (fun f => ((usage cloud tenants f).map Prod.snd).sum) .count
          (((usage cloud tenants .count).map Prod.snd).sum + t.servers.length))
        (Function.update (fun f n => last (usage cloud tenants f) n) .count
          (Function.update (last (usage cloud tenants .count)) t.name (some 0))) fun _ => none := by
  obtain ⟨data', hadd, hdata'⟩ := Holds.add_total h .count (t.servers.length : ℤ)
  exact ⟨data', hadd, hdata'.store_gauge .count t.name 0⟩

/-- A tenant that is not taken for something else adds its values. -/
theorem Tracks.useTenant (h : Tracks cloud data tenants)
    (hflavor : ∀ server ∈ t.servers, cloud.flavor server ≠ none)
    (hown : ∀ server ∈ t.servers, cloud.tenantName server.tenant_id = some t.name)
    (ht : t.servers ≠ [] → t.name ≠ "total" ∧
      ∀ u ∈ tenants, u.servers ≠ [] → t.name ≠ "tenant." ++ u.name) :
    ∃ data', useTenant cloud data t = some data' ∧ Tracks cloud data' (tenants ++ [t]) := by
  obtain ⟨data₀, hadd, h₀⟩ := h.start t
  have hfree : ∀ _ ∈ t.servers, Unmistaken (Function.update (fun f n => last (usage cloud tenants f) n)
      .count (Function.update (last (usage cloud tenants .count)) t.name (some 0))) t.name := by
    intro server hserver
    obtain ⟨htotal, hclash⟩ := ht (List.ne_nil_of_mem hserver)
    refine Unmistaken.update ⟨htotal, ?_⟩ .count (some 0)
    intro u hu c
    apply last_usage_eq_none.mpr
    rintro v hv hne rfl
    exact hclash v hv hne hu
  obtain ⟨data', hrun, h'⟩ := useServers_holds h₀ hfree hflavor hown (k := 0)
    (by rw [Function.update_self, Function.update_self])
  refine ⟨data', by rw [Nova.useTenant, hadd, Option.bind_some, hrun], ?_⟩
  rw [foldl_totalAfter, foldl_gaugeAfter] at h'
  rw [Tracks]
  convert h' using 1
  · funext f
    rcases f with _ | c
    · simp [usage]
    · simp [usage, Function.comp_def]
  · funext f n
    rcases f with _ | c
    · simp only [usage, List.map_append, List.map_singleton, last_concat, Function.update_self,
        Option.map_some, zero_add, Function.update_apply]
      by_cases hn : n = t.name
      · simp [hn]
      · have hne : ¬ t.name = n := fun heq => hn heq.symm
        simp [hn, hne]
    · simp [usage, last_append]

theorem useTenant_none (h : Tracks cloud data tenants) (hnew : ∀ u ∈ tenants, u.name ≠ t.name)
    (hown : ∀ server ∈ t.servers, cloud.tenantName server.tenant_id = some t.name)
    (hne : t.servers ≠ [])
    (ht : t.name = "total" ∨ ∃ u ∈ tenants, u.servers ≠ [] ∧ t.name = "tenant." ++ u.name) :
    useTenant cloud data t = none := by
  obtain ⟨data₀, hadd, h₀⟩ := h.start t
  obtain ⟨server, servers, hservers⟩ := List.exists_cons_of_ne_nil hne
  have hram : last (usage cloud tenants (.counter .ram)) t.name = none :=
    last_usage_eq_none.mpr fun u hu _ => hnew u hu
  have hserver : useServer cloud (data₀.store (tenantKey .count t.name) 0) server = none := by
    refine useServer_none h₀ (ht.imp_right ?_) hram (k := 0)
      (by rw [Function.update_self, Function.update_self])
      (hown server (hservers ▸ List.mem_cons_self))
    rintro ⟨u, hu, hne, heq⟩
    refine ⟨u.name, heq, ?_⟩
    intro hnone
    exact last_usage_eq_none.mp hnone u hu hne rfl
  rw [Nova.useTenant, hadd, Option.bind_some, hservers, List.foldlM_cons, hserver]
  rfl

/-- When the servers have flavors, the loop over the tenants comes to its end if and only if no
tenant is taken for something else. -/
theorem useTenants (hnodup : (tenants.map Tenant.name).Nodup) (hflavor : HasFlavors cloud tenants)
    (hown : ∀ t ∈ tenants, ∀ server ∈ t.servers, cloud.tenantName server.tenant_id = some t.name) :
    (NoClash tenants →
      ∃ data, tenants.foldlM (useTenant cloud) initialData = some data ∧ Tracks cloud data tenants) ∧
    (¬ NoClash tenants → tenants.foldlM (useTenant cloud) initialData = none) := by
  induction tenants using List.reverseRecOn with
  | nil =>
    refine ⟨fun _ => ⟨initialData, rfl, initialData_tracks⟩, fun hclash => ?_⟩
    exact absurd ⟨nofun, List.Pairwise.nil⟩ hclash
  | append_singleton tenants t ih =>
    rw [List.map_append, List.nodup_append] at hnodup
    obtain ⟨hnodup, -, hnew⟩ := hnodup
    rw [List.forall_mem_append, List.forall_mem_singleton] at hown
    rw [HasFlavors, List.forall_mem_append, List.forall_mem_singleton] at hflavor
    obtain ⟨hrun, hnone⟩ := ih hnodup hflavor.1 hown.1
    simp only [List.foldlM_append, List.foldlM_cons, List.foldlM_nil, noClash_concat]
    by_cases hclash : NoClash tenants
    · obtain ⟨data, hdata, htracks⟩ := hrun hclash
      rw [hdata, Option.bind_eq_bind, Option.bind_some]
      constructor
      · rintro ⟨-, ht⟩
        obtain ⟨data', hstep, htracks'⟩ := htracks.useTenant hflavor.2 hown.2 ht
        exact ⟨data', by rw [hstep]; rfl, htracks'⟩
      · intro hnot
        have ht := not_and.mp hnot hclash
        rw [Classical.not_imp] at ht
        obtain ⟨hne, ht⟩ := ht
        have hstep : Nova.useTenant cloud data t = none := by
          apply useTenant_none htracks _ hown.2 hne
          · by_contra hno
            rw [not_or] at hno
            exact ht ⟨hno.1, fun u hu hservers heq => hno.2 ⟨u, hu, hservers, heq⟩⟩
          · intro u hu
            exact hnew u.name (List.mem_map_of_mem hu) t.name (List.mem_singleton_self _)
        rw [hstep]
        rfl
    · refine ⟨fun h => absurd h.1 hclash, fun _ => ?_⟩
      rw [hnone hclash]
      rfl

/-- A server without a flavor stops the loops. -/
theorem getStats_eq_none (h : ¬ HasFlavors cloud cloud.my_tenants) : getStats cloud = none := by
  simp only [HasFlavors, not_forall, not_not] at h
  obtain ⟨t, ht, server, hserver, hflavor⟩ := h
  apply foldlM_eq_none ht
  intro data
  rw [Nova.useTenant]
  cases add data (totalKey .count) (t.servers.length : ℤ) with
  | none => rfl
  | some data =>
    rw [Option.bind_some]
    apply foldlM_eq_none hserver
    intro data
    rw [useServer, hflavor, Option.bind_none]

/-- Each total is the sum over the tenants. -/
def AddsUp (cloud : Cloud) (data : Hash String ℤ) : Prop :=
  ∀ f, ∃ total, data.get? (totalKey f) = some total ∧
    total = (cloud.my_tenants.map fun t => (data.get? (tenantKey f t.name)).getD 0).sum

/-- What is missing from the values of the tenants has been replaced there. -/
theorem Tracks.addsUp_iff (h : Tracks cloud data cloud.my_tenants) :
    AddsUp cloud data ↔ ∀ c, (replaced (usage cloud cloud.my_tenants (.counter c))).sum = 0 := by
  have hfield (f : Field) : (∃ total, data.get? (totalKey f) = some total ∧
      total = (cloud.my_tenants.map fun t => (data.get? (tenantKey f t.name)).getD 0).sum) ↔
        (replaced (usage cloud cloud.my_tenants f)).sum = 0 := by
    have htotal : data.get? (totalKey f) = some ((usage cloud cloud.my_tenants f).map Prod.snd).sum :=
      h.total f
    have hgauge (n : String) : data.get? (tenantKey f n) = last (usage cloud cloud.my_tenants f) n :=
      h.gauge f n
    have hsum := List.sum_toFinset (fun n => (last (usage cloud cloud.my_tenants f) n).getD 0)
      cloud.names_nodup
    rw [List.map_map] at hsum
    simp only [htotal, hgauge, Option.some.injEq, exists_eq_left']
    rw [← sum_eq_iff (cloud.my_tenants.map Tenant.name).toFinset, hsum]
    · rfl
    · intro x hx
      rw [List.mem_toFinset]
      rcases f with _ | c
      · obtain ⟨t, ht, rfl⟩ := List.mem_map.mp hx
        exact List.mem_map_of_mem ht
      · obtain ⟨t, ht, hx⟩ := List.mem_flatMap.mp hx
        obtain ⟨server, -, rfl⟩ := List.mem_map.mp hx
        exact List.mem_map_of_mem ht
  have hcount : (replaced (usage cloud cloud.my_tenants .count)).sum = 0 := by
    rw [replaced_of_nodup]
    · rfl
    · rw [usage, List.map_map]
      exact cloud.names_nodup
  constructor
  · intro hadds c
    exact (hfield _).mp (hadds _)
  · intro hreplaced f
    rw [hfield]
    rcases f with _ | c
    · exact hcount
    · exact hreplaced c

/-- One tenant with two servers. -/
def twoServers : Cloud where
  tenantName _ := some "admin"
  flavors n := if n = 1 then some ⟨512, 1, 1, 0⟩ else none
  my_tenants := [⟨"admin", [⟨"1", "1"⟩, ⟨"1", "1"⟩]⟩]
  names_nodup := List.nodup_singleton "admin"
  own t ht _ _ := by rw [List.mem_singleton.mp ht]

end Tenants

end CompassAdapters.Monitoring.Nova
