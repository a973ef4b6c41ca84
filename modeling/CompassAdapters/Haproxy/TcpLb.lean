import CompassAdapters.Ruby.Hash
import CompassAdapters.Ruby.Uniq
import Mathlib.Data.List.Induction
import Mathlib.Data.String.Basic

/-! The load balancer recipe `tcp_lb.rb` over the runs of a node. What it sets is saved with the
node and stays there, and the listeners are made anew in each run. -/
namespace CompassAdapters.Haproxy
open Ruby

/-- An entry of `haproxy.services`. -/
structure Service where
  role : String
  frontend_port : Option String
  backend_port : Option String
  options : Option (List String)
  deriving DecidableEq

structure Cloud where
  provider : String
  local_ipv4 : Option String
  public_ipv4 : Option String
  deriving DecidableEq

/-- A node, as a search gives it. -/
structure Member where
  name : String
  hostname : Option String
  ipaddress : Option String
  cloud : Option Cloud
  roles : List String
  deriving DecidableEq

/-- An entry of `haproxy.node_mapping`. -/
structure NodeInfo where
  roles : List String
  management_ip : Option String
  deriving DecidableEq

/-- What a run reads of the cookbook, the role and the environment, and the node itself. -/
structure Attributes where
  roles : Hash String (List String)
  services : Hash String Service
  enabled_services : List String
  prefeed : Bool
  node_mapping : Option (Hash String NodeInfo)
  incoming_address : String
  node : Member

/-- What earlier runs have set: the roles of services, and the enabled services if any had to be
added. -/
structure Saved where
  roles : Hash String String
  enabled_services : Option (List String)

/-- `sort_by { |node| node.name }`, which may put nodes of one name in any order. -/
structure SortByName where
  sort : List Member → List Member
  perm : ∀ ms, (sort ms).Perm ms
  sorted : ∀ ms, (sort ms).Pairwise fun m m' => m.name ≤ m'.name

structure Endpoint where
  ipaddress : Option String
  hostname : Option String
  deriving DecidableEq

section Source

variable (a : Attributes)

/-- `node['haproxy']['enabled_services']`: what was set hides the default. -/
def Saved.enabled (s : Saved) : List String := s.enabled_services.getD a.enabled_services

def enableService (role : String) (s : Saved) (service : String) : Saved where
  roles := s.roles.store service role
  enabled_services :=
    if (s.enabled a).contains service then s.enabled_services else some (s.enabled a ++ [service])

/-- The first loop, which saves the node each time. -/
def enableRoles (s : Saved) : Saved :=
  a.roles.entries.foldl (fun s e => e.2.foldl (enableService a e.1) s) s

/-- `node['haproxy']['services']`: a service that has only been set has a role and nothing else. -/
def mergedServices (s : Saved) : List (String × Service) :=
  a.services.entries.map (fun e => (e.1, { e.2 with role := (s.roles.get? e.1).getD e.2.role })) ++
    (s.roles.entries.filter fun e => (a.services.get? e.1).isNone).map fun e =>
      (e.1, ⟨e.2, none, none, none⟩)

def serverIp (member : Member) : Option String :=
  match member.cloud with
  | some cloud =>
    if a.node.cloud.any fun own => cloud.provider == own.provider then cloud.local_ipv4
    else cloud.public_ipv4
  | none => member.ipaddress

def poolMembers (sortBy : SortByName) (search : String → List Member) (role : String) :
    List Endpoint :=
  if a.prefeed then
    match a.node_mapping with
    | none => []
    | some node_mapping =>
      (node_mapping.entries.filter fun e => e.2.roles.contains role).map fun e =>
        ⟨e.2.management_ip, some e.1⟩
  else
    let pool_members := search role ++ if a.node.roles.contains role then [a.node] else []
    (sortBy.sort pool_members).map fun member => ⟨serverIp a member, member.hostname⟩

/-- A member without a name or an address is `nil` among the servers. -/
def server (name : String) (backend_port : Option String) (s : Endpoint) : Option String :=
  match s.hostname, s.ipaddress with
  | some hostname, some ipaddress =>
    some (hostname ++ " " ++ ipaddress ++ ":" ++ backend_port.getD "" ++
      if name = "novncproxy" then "" else " check inter 30000 fastinter 1000 rise 2 fall 5")
  | _, _ => none

/-- The provider `haproxy_lb`. -/
def listener (bind : String) (params : List String) (servers : List (Option String)) :
    List (Option String) :=
  some ("bind " ++ bind) :: params.map some ++ servers.map (Option.map fun s => "server " ++ s)

variable (sortBy : SortByName) (search : String → List Member)

def serviceListener (name : String) (service : Service) (frontend_port : String) :
    List (Option String) :=
  listener (a.incoming_address ++ ":" ++ frontend_port) (service.options.getD [])
    ((poolMembers a sortBy search service.role).eraseDups.map (server name service.backend_port))

/-- A service without a frontend port is an error. -/
def serviceListeners (s : Saved) :
    List (String × Service) → Option (List (String × List (Option String)))
  | [] => some []
  | (name, service) :: services =>
    if (s.enabled a).contains name then do
      let frontend_port ← service.frontend_port
      let listeners ← serviceListeners s services
      return (name, serviceListener a sortBy search name service frontend_port) :: listeners
    else serviceListeners s services

/-- A run of the recipe. -/
def tcpLb (s : Saved) : Saved × Option (List (String × List (Option String))) :=
  let s := enableRoles a s
  (s, serviceListeners a sortBy search s (mergedServices a s))

end Source

/-- The services that a run finds under the roles, each with its role. -/
def listed (a : Attributes) : List (String × String) :=
  a.roles.entries.flatMap fun e => e.2.map fun service => (service, e.1)

/-- What is saved after some runs of a node. -/
def saved (runs : List Attributes) : Saved :=
  runs.foldl (fun s a => enableRoles a s) ⟨Hash.empty, none⟩

/-- A run that adds to the enabled services, for one of its own that is not among its defaults. -/
def Attributes.expands (a : Attributes) : Bool :=
  (listed a).any fun e => !a.enabled_services.contains e.1

/-- The enabled services of the last of some runs: its own defaults as long as no run has added to
them, and else the defaults of the first run that did and what was listed from then on. -/
def Enabled (runs : List Attributes) (a : Attributes) (name : String) : Prop :=
  match runs.dropWhile fun b => !b.expands with
  | [] => name ∈ a.enabled_services
  | first :: rest =>
    name ∈ first.enabled_services ∨ ∃ b ∈ first :: rest, name ∈ (listed b).map Prod.fst

/-- The role under which a service was listed last. -/
def lastRole (runs : List Attributes) (name : String) : Option String :=
  ((runs.flatMap listed).findRev? fun e => e.1 = name).map Prod.snd

section Saving

variable {a : Attributes} {s : Saved}

theorem enableRoles_eq (a : Attributes) (s : Saved) :
    enableRoles a s = (listed a).foldl (fun s e => enableService a e.2 s e.1) s := by
  rw [listed, List.foldl_flatMap, enableRoles]
  congr 1
  funext s e
  rw [List.foldl_map]

theorem roles_foldl (es : List (String × String)) :
    (es.foldl (fun s e => enableService a e.2 s e.1) s).roles =
      es.foldl (fun h e => h.store e.1 e.2) s.roles := by
  induction es generalizing s with
  | nil => rfl
  | cons e es ih => rw [List.foldl_cons, ih, List.foldl_cons, enableService]

theorem mem_enabled_enableService {role service name : String} :
    name ∈ (enableService a role s service).enabled a ↔ name ∈ s.enabled a ∨ name = service := by
  rw [enableService]
  split
  next hmem =>
    have hservice : service ∈ s.enabled a := List.contains_iff_mem.mp hmem
    refine ⟨Or.inl, fun h => h.elim id fun heq => ?_⟩
    rw [heq]
    exact hservice
  next => rw [Saved.enabled, Option.getD_some, List.mem_append, List.mem_singleton]

theorem mem_enabled_foldl {es : List (String × String)} {name : String} :
    name ∈ (es.foldl (fun s e => enableService a e.2 s e.1) s).enabled a ↔
      name ∈ s.enabled a ∨ name ∈ es.map Prod.fst := by
  induction es generalizing s with
  | nil => simp
  | cons e es ih =>
    rw [List.foldl_cons, ih, mem_enabled_enableService, List.map_cons, List.mem_cons, or_assoc]

theorem enabled_services_foldl {es : List (String × String)} :
    (es.foldl (fun s e => enableService a e.2 s e.1) s).enabled_services = none ↔
      s.enabled_services = none ∧ ∀ e ∈ es, e.1 ∈ a.enabled_services := by
  induction es generalizing s with
  | nil => simp
  | cons e es ih =>
    rw [List.foldl_cons, ih, List.forall_mem_cons, ← and_assoc]
    refine and_congr_left fun _ => ?_
    rw [enableService]
    cases hs : s.enabled_services with
    | none => simp [Saved.enabled, hs]
    | some enabled => split <;> simp

theorem enableRoles_none (ha : a.expands = false) (hs : s.enabled_services = none) :
    (enableRoles a s).enabled_services = none := by
  rw [enableRoles_eq, enabled_services_foldl]
  refine ⟨hs, fun e he => ?_⟩
  rw [Attributes.expands, List.any_eq_false] at ha
  simpa using ha e he

theorem enableRoles_some (h : a.expands = true ∨ s.enabled_services ≠ none) :
    ∃ enabled, (enableRoles a s).enabled_services = some enabled ∧
      ∀ name, name ∈ enabled ↔ name ∈ s.enabled a ∨ name ∈ (listed a).map Prod.fst := by
  have hne : (enableRoles a s).enabled_services ≠ none := by
    rw [enableRoles_eq, Ne, enabled_services_foldl]
    rintro ⟨hs, hall⟩
    rcases h with ha | hs'
    · obtain ⟨e, he, hout⟩ := List.any_eq_true.mp ha
      simp [hall e he] at hout
    · exact hs' hs
  obtain ⟨enabled, henabled⟩ := Option.ne_none_iff_exists'.mp hne
  refine ⟨enabled, henabled, fun name => ?_⟩
  have hmem : (enableRoles a s).enabled a = enabled := by
    rw [Saved.enabled, henabled, Option.getD_some]
  rw [← hmem, enableRoles_eq, mem_enabled_foldl]

theorem saved_concat (runs : List Attributes) (a : Attributes) :
    saved (runs ++ [a]) = enableRoles a (saved runs) := List.foldl_concat ..

/-- What is saved of the enabled services. -/
theorem enabled_services_saved (runs : List Attributes) :
    match runs.dropWhile fun b => !b.expands with
    | [] => (saved runs).enabled_services = none
    | first :: rest => ∃ enabled, (saved runs).enabled_services = some enabled ∧
        ∀ name, name ∈ enabled ↔
          name ∈ first.enabled_services ∨ ∃ b ∈ first :: rest, name ∈ (listed b).map Prod.fst := by
  induction runs using List.reverseRecOn with
  | nil => rfl
  | append_singleton runs a ih =>
    rw [List.dropWhile_append, saved_concat]
    cases hruns : runs.dropWhile fun b => !b.expands with
    | nil =>
      rw [hruns] at ih
      rw [List.isEmpty_nil, if_pos rfl]
      cases ha : a.expands with
      | false =>
        rw [List.dropWhile_cons_of_pos (by simp [ha]), List.dropWhile_nil]
        exact enableRoles_none ha ih
      | true =>
        rw [List.dropWhile_cons_of_neg (by simp [ha])]
        obtain ⟨enabled, henabled, hmem⟩ := enableRoles_some (s := saved runs) (Or.inl ha)
        refine ⟨enabled, henabled, fun name => ?_⟩
        rw [hmem, Saved.enabled, ih, Option.getD_none]
        simp only [List.mem_singleton, exists_eq_left]
    | cons first rest =>
      rw [hruns] at ih
      obtain ⟨before, hbefore, hmem⟩ := ih
      obtain ⟨enabled, henabled, hmem'⟩ :=
        enableRoles_some (a := a) (s := saved runs) (Or.inr (by simp [hbefore]))
      refine ⟨enabled, henabled, fun name => ?_⟩
      have happend : (∃ b ∈ first :: (rest ++ [a]), name ∈ (listed b).map Prod.fst) ↔
          (∃ b ∈ first :: rest, name ∈ (listed b).map Prod.fst) ∨
            name ∈ (listed a).map Prod.fst := by
        rw [← List.cons_append]
        simp only [List.mem_append, List.mem_singleton, or_and_right, exists_or, exists_eq_left]
      rw [hmem', Saved.enabled, hbefore, Option.getD_some, hmem, or_assoc, ← happend]
      rfl

theorem mem_enabled_saved (runs : List Attributes) (a : Attributes) (name : String) :
    name ∈ (saved runs).enabled a ↔ Enabled runs a name := by
  have hsaved := enabled_services_saved runs
  rw [Enabled]
  split
  next hruns =>
    rw [hruns] at hsaved
    rw [Saved.enabled, hsaved, Option.getD_none]
  next hruns =>
    rw [hruns] at hsaved
    obtain ⟨enabled, henabled, hmem⟩ := hsaved
    rw [Saved.enabled, henabled, Option.getD_some, hmem]

theorem roles_saved (runs : List Attributes) (name : String) :
    (saved runs).roles.get? name = lastRole runs name := by
  have hroles : (saved runs).roles =
      (runs.flatMap listed).foldl (fun h e => h.store e.1 e.2) Hash.empty := by
    induction runs using List.reverseRecOn with
    | nil => rfl
    | append_singleton runs a ih =>
      rw [saved_concat, enableRoles_eq, roles_foldl, ih, List.flatMap_append, List.foldl_append,
        List.flatMap_singleton]
  rw [hroles, Hash.get?_foldl_store, Hash.get?_empty, Option.or_none, lastRole]

end Saving

section Listeners

variable {a : Attributes} {s : Saved} {sortBy : SortByName} {search : String → List Member}
  {services : List (String × Service)} {listeners : List (String × List (Option String))}

theorem serviceListeners_eq_none :
    serviceListeners a sortBy search s services = none ↔
      ∃ e ∈ services, e.1 ∈ s.enabled a ∧ e.2.frontend_port = none := by
  induction services with
  | nil => simp [serviceListeners]
  | cons e services ih =>
    obtain ⟨name, service⟩ := e
    rw [serviceListeners, List.exists_mem_cons_iff, ← ih]
    by_cases hname : name ∈ s.enabled a
    · rw [if_pos (List.contains_iff_mem.mpr hname)]
      cases hport : service.frontend_port with
      | none => simp [hname]
      | some port => cases hrest : serviceListeners a sortBy search s services <;> simp
    · rw [if_neg (fun h => hname (List.contains_iff_mem.mp h))]
      simp [hname]

theorem serviceListeners_cons_eq_some {name : String} {service : Service} :
    serviceListeners a sortBy search s ((name, service) :: services) = some listeners ↔
      (name ∈ s.enabled a ∧ ∃ port rest, service.frontend_port = some port ∧
        serviceListeners a sortBy search s services = some rest ∧
        (name, serviceListener a sortBy search name service port) :: rest = listeners) ∨
      (name ∉ s.enabled a ∧ serviceListeners a sortBy search s services = some listeners) := by
  rw [serviceListeners]
  by_cases hname : name ∈ s.enabled a
  · rw [if_pos (List.contains_iff_mem.mpr hname)]
    constructor
    · intro h
      obtain ⟨port, hport, h⟩ := Option.bind_eq_some_iff.mp h
      obtain ⟨rest, hrest, h⟩ := Option.bind_eq_some_iff.mp h
      exact Or.inl ⟨hname, port, rest, hport, hrest, Option.some.inj h⟩
    · rintro (⟨-, port, rest, hport, hrest, rfl⟩ | ⟨hnot, -⟩)
      · rw [hport, hrest]
        rfl
      · exact absurd hname hnot
  · rw [if_neg (fun hmem => hname (List.contains_iff_mem.mp hmem))]
    simp [hname]

theorem mem_serviceListeners (h : serviceListeners a sortBy search s services = some listeners)
    {name : String} {l : List (Option String)} :
    (name, l) ∈ listeners ↔ ∃ service port, (name, service) ∈ services ∧
      name ∈ s.enabled a ∧ service.frontend_port = some port ∧
      l = serviceListener a sortBy search name service port := by
  induction services generalizing listeners with
  | nil =>
    rw [← Option.some.inj h]
    simp
  | cons e services ih =>
    obtain ⟨name', service'⟩ := e
    rcases serviceListeners_cons_eq_some.mp h with
      ⟨hname, port', rest, hport, hrest, rfl⟩ | ⟨hname, hrest⟩
    · rw [List.mem_cons, ih hrest]
      constructor
      · rintro (heq | ⟨service, port, hmem, hrest⟩)
        · obtain ⟨rfl, rfl⟩ := Prod.mk.inj heq
          exact ⟨service', port', List.mem_cons_self, hname, hport, rfl⟩
        · exact ⟨service, port, List.mem_cons_of_mem _ hmem, hrest⟩
      · rintro ⟨service, port, hmem, henabled, hport', hl⟩
        rcases List.mem_cons.mp hmem with heq | hmem
        · obtain ⟨rfl, rfl⟩ := Prod.mk.inj heq
          obtain rfl : port' = port := Option.some.inj (hport.symm.trans hport')
          exact Or.inl (Prod.ext rfl hl)
        · exact Or.inr ⟨service, port, hmem, henabled, hport', hl⟩
    · rw [ih hrest]
      constructor
      · rintro ⟨service, port, hmem, hrest⟩
        exact ⟨service, port, List.mem_cons_of_mem _ hmem, hrest⟩
      · rintro ⟨service, port, hmem, henabled, hrest⟩
        rcases List.mem_cons.mp hmem with heq | hmem
        · exact absurd ((Prod.mk.inj heq).1 ▸ henabled) hname
        · exact ⟨service, port, hmem, henabled, hrest⟩

theorem serviceListeners_sublist
    (h : serviceListeners a sortBy search s services = some listeners) :
    (listeners.map Prod.fst).Sublist (services.map Prod.fst) := by
  induction services generalizing listeners with
  | nil =>
    rw [← Option.some.inj h]
    exact List.Sublist.refl _
  | cons e services ih =>
    rcases serviceListeners_cons_eq_some.mp h with ⟨-, port, rest, -, hrest, rfl⟩ | ⟨-, hrest⟩
    · exact (ih hrest).cons_cons e.1
    · exact (ih hrest).cons e.1

theorem mem_mergedServices {name : String} {service : Service} :
    (name, service) ∈ mergedServices a s ↔
      (∃ d, a.services.get? name = some d ∧
        service = { d with role := (s.roles.get? name).getD d.role }) ∨
      a.services.get? name = none ∧
        ∃ role, s.roles.get? name = some role ∧ service = ⟨role, none, none, none⟩ := by
  rw [mergedServices, List.mem_append, List.mem_map, List.mem_map]
  refine or_congr ?_ ?_
  · constructor
    · rintro ⟨⟨name, d⟩, hmem, heq⟩
      obtain ⟨rfl, rfl⟩ := Prod.mk.inj heq
      exact ⟨d, Hash.mem_entries.mp hmem, rfl⟩
    · rintro ⟨d, hget, rfl⟩
      exact ⟨(name, d), Hash.mem_entries.mpr hget, rfl⟩
  · constructor
    · rintro ⟨⟨name, role⟩, hmem, heq⟩
      obtain ⟨rfl, rfl⟩ := Prod.mk.inj heq
      obtain ⟨hmem, hnone⟩ := List.mem_filter.mp hmem
      exact ⟨Option.isNone_iff_eq_none.mp hnone, role, Hash.mem_entries.mp hmem, rfl⟩
    · rintro ⟨hnone, role, hget, rfl⟩
      exact ⟨(name, role), List.mem_filter.mpr ⟨Hash.mem_entries.mpr hget, by simp [hnone]⟩, rfl⟩

theorem nodup_mergedServices : ((mergedServices a s).map Prod.fst).Nodup := by
  have hservices : (a.services.entries.map
      (fun e => (e.1, { e.2 with role := (s.roles.get? e.1).getD e.2.role }))).map Prod.fst =
      a.services.keys := by
    rw [List.map_map]
    rfl
  rw [mergedServices, List.map_append, hservices, List.map_map]
  refine List.Nodup.append a.services.nodup (s.roles.nodup.sublist ?_) ?_
  · exact List.filter_sublist.map Prod.fst
  · rintro name hkey hset
    obtain ⟨v, hget⟩ := Hash.mem_keys.mp hkey
    obtain ⟨e, he, rfl⟩ := List.mem_map.mp hset
    have hnone : (a.services.get? e.1).isNone = true := (List.mem_filter.mp he).2
    have hsome : a.services.get? e.1 = some v := hget
    rw [hsome] at hnone
    cases hnone

end Listeners

/-- The services without a frontend port after some runs. -/
theorem exists_mergedServices_none {runs : List Attributes} {a : Attributes} {name : String} :
    (∃ service, (name, service) ∈ mergedServices a (saved runs) ∧ service.frontend_port = none) ↔
      match a.services.get? name with
      | some service => service.frontend_port = none
      | none => lastRole runs name ≠ none := by
  rw [← roles_saved]
  constructor
  · rintro ⟨service, hmem, hport⟩
    rcases mem_mergedServices.mp hmem with ⟨d, hget, rfl⟩ | ⟨hget, role, hrole, rfl⟩
    · rw [hget]
      exact hport
    · rw [hget, hrole]
      exact Option.some_ne_none role
  · intro hport
    cases hget : a.services.get? name with
    | some d =>
      rw [hget] at hport
      exact ⟨_, mem_mergedServices.mpr (Or.inl ⟨d, hget, rfl⟩), hport⟩
    | none =>
      rw [hget] at hport
      obtain ⟨role, hrole⟩ := Option.ne_none_iff_exists'.mp hport
      exact ⟨_, mem_mergedServices.mpr (Or.inr ⟨hget, role, hrole, rfl⟩), rfl⟩

/-- The services with a frontend port after some runs. -/
theorem mem_mergedServices_some {runs : List Attributes} {a : Attributes} {name port : String}
    {service : Service} :
    (name, service) ∈ mergedServices a (saved runs) ∧ service.frontend_port = some port ↔
      ∃ d, a.services.get? name = some d ∧ d.frontend_port = some port ∧
        service = { d with role := (lastRole runs name).getD d.role } := by
  rw [← roles_saved]
  constructor
  · rintro ⟨hmem, hport⟩
    rcases mem_mergedServices.mp hmem with ⟨d, hget, rfl⟩ | ⟨-, role, -, rfl⟩
    · exact ⟨d, hget, hport, rfl⟩
    · cases hport
  · rintro ⟨d, hget, hport, rfl⟩
    exact ⟨mem_mergedServices.mpr (Or.inl ⟨d, hget, rfl⟩), hport⟩

/-- What a run makes of all that came before: it fails exactly if an enabled service has no frontend
port, and a service that is known from the roles only has none. Else it has just one listener for
each enabled service, with the servers of the role under which the service was listed last. -/
theorem tcpLb_history (runs : List Attributes) (a : Attributes) (sortBy : SortByName)
    (search : String → List Member) :
    ((tcpLb a sortBy search (saved runs)).2 = none ↔ ∃ name, Enabled (runs ++ [a]) a name ∧
      match a.services.get? name with
      | some service => service.frontend_port = none
      | none => lastRole (runs ++ [a]) name ≠ none) ∧
    ∀ listeners, (tcpLb a sortBy search (saved runs)).2 = some listeners →
      (listeners.map Prod.fst).Nodup ∧ ∀ name l, (name, l) ∈ listeners ↔
        ∃ service port, a.services.get? name = some service ∧ service.frontend_port = some port ∧
          Enabled (runs ++ [a]) a name ∧ l = serviceListener a sortBy search name
            { service with role := (lastRole (runs ++ [a]) name).getD service.role } port := by
  have hrun : (tcpLb a sortBy search (saved runs)).2 = serviceListeners a sortBy search
      (saved (runs ++ [a])) (mergedServices a (saved (runs ++ [a]))) := by
    rw [tcpLb, saved_concat]
  rw [hrun]
  refine ⟨?_, fun listeners h => ⟨?_, fun name l => ?_⟩⟩
  · rw [serviceListeners_eq_none]
    constructor
    · rintro ⟨⟨name, service⟩, hmem, henabled, hport⟩
      exact ⟨name, (mem_enabled_saved _ a name).mp henabled,
        exists_mergedServices_none.mp ⟨service, hmem, hport⟩⟩
    · rintro ⟨name, henabled, hport⟩
      obtain ⟨service, hmem, hnone⟩ := exists_mergedServices_none.mpr hport
      exact ⟨(name, service), hmem, (mem_enabled_saved _ a name).mpr henabled, hnone⟩
  · exact nodup_mergedServices.sublist (serviceListeners_sublist h)
  · rw [mem_serviceListeners h, mem_enabled_saved]
    constructor
    · rintro ⟨service, port, hmem, henabled, hport, hl⟩
      obtain ⟨d, hget, hport, rfl⟩ := mem_mergedServices_some.mp ⟨hmem, hport⟩
      exact ⟨d, port, hget, hport, henabled, hl⟩
    · rintro ⟨d, port, hget, hport, henabled, hl⟩
      obtain ⟨hmem, hport⟩ := mem_mergedServices_some.mpr ⟨d, hget, hport, rfl⟩
      exact ⟨_, port, hmem, henabled, hport, hl⟩

/-- Two answers to the search for a role: the same other nodes in any order, and the node itself as
it is, but only if it has the role. A name belongs to one node. -/
structure SameNodes (node : Member) (role : String) (found found' : List Member) : Prop where
  others : ∀ m, m ≠ node → (m ∈ found ↔ m ∈ found')
  itself : node ∈ found ∨ node ∈ found' → node.roles.contains role = true
  names : ∀ m ∈ node :: (found ++ found'), ∀ m' ∈ node :: (found ++ found'),
    m.name = m'.name → m = m'

section Searches

variable {a : Attributes} {role : String} {found found' : List Member}

/-- With the node itself added the two answers have the same members. -/
theorem SameNodes.mem_iff (h : SameNodes a.node role found found') (m : Member) :
    m ∈ found ++ (if a.node.roles.contains role then [a.node] else []) ↔
      m ∈ found' ++ (if a.node.roles.contains role then [a.node] else []) := by
  rw [List.mem_append, List.mem_append]
  by_cases hm : m = a.node
  · subst hm
    cases hrole : a.node.roles.contains role with
    | true => simp
    | false =>
      have hnot : ¬ (a.node ∈ found ∨ a.node ∈ found') := fun hfound => by
        have hyes := h.itself hfound
        rw [hrole] at hyes
        cases hyes
      rw [not_or] at hnot
      simp [hnot.1, hnot.2]
  · rw [h.others m hm]

theorem SameNodes.mem_names (m : Member)
    (hm : m ∈ found ++ (if a.node.roles.contains role then [a.node] else [])) :
    m ∈ a.node :: (found ++ found') := by
  rcases List.mem_append.mp hm with hm | hm
  · exact List.mem_cons_of_mem _ (List.mem_append_left _ hm)
  · split at hm
    next =>
      rw [List.mem_singleton.mp hm]
      exact List.mem_cons_self
    next => cases hm

theorem SameNodes.poolMembers_eq {sortBy sortBy' : SortByName}
    {search search' : String → List Member}
    (h : SameNodes a.node role (search role) (search' role)) :
    (poolMembers a sortBy search role).eraseDups =
      (poolMembers a sortBy' search' role).eraseDups := by
  unfold poolMembers
  split
  next => rfl
  next =>
    rw [← eraseDups_map_eraseDups, ← eraseDups_map_eraseDups _ (sortBy'.sort _)]
    congr 2
    refine eraseDups_eq_of_sorted (fun m => ?_) (fun m hm m' hm' hname => ?_) (sortBy.sorted _)
      (sortBy'.sorted _)
    · rw [(sortBy.perm _).mem_iff, (sortBy'.perm _).mem_iff]
      exact h.mem_iff m
    · rw [(sortBy.perm _).mem_iff] at hm hm'
      exact h.names m (mem_names m hm) m' (mem_names m' hm') hname

end Searches

/-- The listeners do not depend on the order in which a search gives the nodes, on whether the index
has the node itself already, nor on what `sort_by` does with equal names. -/
theorem tcpLb_search (a : Attributes) (s : Saved) {sortBy sortBy' : SortByName}
    {search search' : String → List Member}
    (hsame : ∀ role, SameNodes a.node role (search role) (search' role)) :
    tcpLb a sortBy search s = tcpLb a sortBy' search' s := by
  have hlistener (name : String) (service : Service) (port : String) :
      serviceListener a sortBy search name service port =
        serviceListener a sortBy' search' name service port := by
    rw [serviceListener, serviceListener, (hsame service.role).poolMembers_eq]
  have hlisteners (s : Saved) (services : List (String × Service)) :
      serviceListeners a sortBy search s services =
        serviceListeners a sortBy' search' s services := by
    induction services with
    | nil => rfl
    | cons e services ih =>
      obtain ⟨name, service⟩ := e
      rw [serviceListeners, serviceListeners, ih]
      simp only [hlistener]
  rw [tcpLb, tcpLb, hlisteners]

/-- A sort that leaves nodes of one name in their order. -/
def stableSort : SortByName where
  sort ms := ms.insertionSort fun m m' => m.name ≤ m'.name
  perm ms := List.perm_insertionSort _ ms
  sorted ms := by
    have htotal : Std.Total fun m m' : Member => m.name ≤ m'.name :=
      ⟨fun m m' => le_total m.name m'.name⟩
    have htrans : IsTrans Member fun m m' => m.name ≤ m'.name :=
      ⟨fun _ _ _ hle hle' => le_trans hle hle'⟩
    exact List.pairwise_insertionSort _ ms

/-- The index has the other node only, or both of them. -/
theorem tcpLb_search_twoNodes :
    let node : Member := ⟨"a", some "a", some "10.0.0.1", none, ["os-identity"]⟩
    let other : Member := ⟨"b", some "b", some "10.0.0.2", none, ["os-identity"]⟩
    let services : Hash String Service :=
      Hash.empty.store "keystone_admin" ⟨"os-identity", some "35357", some "35357", none⟩
    let a : Attributes := ⟨Hash.empty, services, ["keystone_admin"], false, none, "0.0.0.0", node⟩
    tcpLb a stableSort (fun role => if role = "os-identity" then [other] else []) (saved []) =
      tcpLb a stableSort (fun role => if role = "os-identity" then [other, node] else [])
        (saved []) := by
  intro node other services a
  apply tcpLb_search
  intro role
  have hname : node.name ≠ other.name := by decide
  by_cases hrole : role = "os-identity"
  · rw [if_pos hrole, if_pos hrole]
    refine ⟨fun m hm => ?_, fun _ => ?_, fun m hm m' hm' heq => ?_⟩
    · simp [hm, a]
    · rw [hrole]
      decide
    · simp only [List.mem_cons, List.mem_append, List.not_mem_nil, or_false] at hm hm'
      have hm : m = node ∨ m = other := by tauto
      have hm' : m' = node ∨ m' = other := by tauto
      rcases hm with rfl | rfl <;> rcases hm' with rfl | rfl
      · rfl
      · exact absurd heq hname
      · exact absurd heq.symm hname
      · rfl
  · rw [if_neg hrole, if_neg hrole]
    refine ⟨fun m _ => Iff.rfl, fun h => ?_, fun m hm m' hm' _ => ?_⟩
    · exact absurd (h.elim id id) List.not_mem_nil
    · exact (List.mem_singleton.mp hm).trans (List.mem_singleton.mp hm').symm

end CompassAdapters.Haproxy
