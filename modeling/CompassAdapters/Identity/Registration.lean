import CompassAdapters.Identity.Grant
import CompassAdapters.Transition.Phases

/-! `registration.rb`: the tenants, roles, users and grants of the node's attributes are registered
one after another, and the identity service and its endpoint after them. -/
namespace CompassAdapters.Identity
open Ruby Openstack Transition

structure UserInfo where
  default_tenant : Cell
  roles : Hash Cell (List Cell)

/-- What the recipe reads: `password` for `get_password 'user'`, and whether the backend of the
catalog is `templated`. -/
structure Attributes where
  users : Hash Cell UserInfo
  password : Cell → String
  templated : Bool
  region : Cell
  identity_admin_endpoint : Cell
  identity_endpoint : Cell

/-- A resource with nothing but the defaults. -/
def blank : Resource where
  service_type := .identity
  service_name := emptyCell
  service_description := ""
  endpoint_region := regionOneCell
  endpoint_adminurl := emptyCell
  endpoint_internalurl := emptyCell
  endpoint_publicurl := emptyCell
  tenant_name := emptyCell
  tenant_description := ""
  tenant_enabled := true
  user_name := emptyCell
  user_pass := ""
  user_enabled := true
  role_name := emptyCell

section Recipe

variable (a : Attributes)

def tenantNames : List Cell :=
  (a.users.entries.flatMap fun (_, user_info) =>
    (user_info.roles.entries.flatMap Prod.snd) ++ [user_info.default_tenant]).eraseDups

def roleNames : List Cell :=
  (a.users.entries.flatMap fun (_, user_info) => user_info.roles.keys).eraseDups

def registerTenant (tenant_name : Cell) : Resource × Action :=
  ({ blank with tenant_name, tenant_description := tenant_name.val ++ " Tenant" }, .createTenant)

def registerRole (role_name : Cell) : Resource × Action :=
  ({ blank with role_name }, .createRole)

def registerUser (user_name : Cell) (user_info : UserInfo) : Resource × Action :=
  ({ blank with
      user_name, user_pass := a.password user_name, tenant_name := user_info.default_tenant },
    .createUser)

def registerGrant (user_name role_name tenant_name : Cell) : Resource × Action :=
  ({ blank with user_name, role_name, tenant_name }, .grantRole)

def identityService : Resource × Action :=
  ({ blank with
      service_name := ⟨"keystone", by decide⟩, service_type := .identity
      service_description := "Keystone Identity Service" }, .createService)

/-- The internal URL is the admin URL. -/
def identityEndpoint : Resource × Action :=
  ({ blank with
      service_type := .identity, endpoint_region := a.region
      endpoint_adminurl := a.identity_admin_endpoint
      endpoint_internalurl := a.identity_admin_endpoint
      endpoint_publicurl := a.identity_endpoint }, .createEndpoint)

def registerGrants (user_name : Cell) (user_info : UserInfo) : List (Resource × Action) :=
  user_info.roles.entries.flatMap fun (role_name, tenant_list) =>
    tenant_list.map (registerGrant user_name role_name)

def registerCatalog : List (Resource × Action) :=
  if a.templated then [] else [identityService, identityEndpoint a]

/-- The resources in the order in which the recipe has them. -/
def resources : List (Resource × Action) :=
  (tenantNames a).map registerTenant ++ ((roleNames a).map registerRole ++
    ((a.users.entries.flatMap fun (user_name, user_info) =>
      registerUser a user_name user_info :: registerGrants user_name user_info) ++
        registerCatalog a))

variable (k : Keystone)

def converge (templated : Bool) (w : World) (r : Resource × Action) : World :=
  let out := (r.2.run k templated r.1 ⟨w.state, []⟩).2
  ⟨out.state, w.issued ++ out.issued⟩

/-- A run of the recipe, and the commands that it gives to Keystone. -/
def registration (s : State) : World := (resources a).foldl (converge k a.templated) ⟨s, []⟩

end Recipe

section Growth

/-- Keystone holds what it held, and maybe more. -/
structure State.Grows (s t : State) : Prop where
  services : s.services ⊆ t.services
  endpoints : s.endpoints ⊆ t.endpoints
  tenants : s.tenants ⊆ t.tenants
  users : s.users ⊆ t.users
  roles : s.roles ⊆ t.roles
  grants : s.grants ⊆ t.grants

instance instPreorderState : Preorder State where
  le := State.Grows
  le_refl s := by constructor <;> exact List.Subset.refl _
  le_trans _ _ _ h h' := ⟨List.Subset.trans h.services h'.services,
    List.Subset.trans h.endpoints h'.endpoints, List.Subset.trans h.tenants h'.tenants,
    List.Subset.trans h.users h'.users, List.Subset.trans h.roles h'.roles,
    List.Subset.trans h.grants h'.grants⟩

variable {k : Keystone} {s t : State} {c : Command} {w : World} {resource : Resource}

theorem usersIn_mono (h : s ≤ t) (tenant : Tenant) : s.usersIn tenant ⊆ t.usersIn tenant := by
  intro u hu
  obtain ⟨hmem, hin⟩ := List.mem_filter.mp hu
  refine List.mem_filter.mpr ⟨h.users hmem, decide_eq_true ?_⟩
  rcases of_decide_eq_true hin with hid | ⟨g, hg, hrest⟩
  · exact Or.inl hid
  · exact Or.inr ⟨g, h.grants hg, hrest⟩

/-- A user comes from no other command. -/
def Command.IsUserCreate : Command → Prop
  | .userCreate .. => True
  | _ => False

theorem execute_cases {out : String} (h : k.execute s c = some (out, t)) :
    s ≤ t ∧ (¬ c.IsUserCreate → t.users = s.users) := by
  cases c with
  | list l =>
    obtain ⟨rows, -, heq⟩ := Option.map_eq_some_iff.mp h
    obtain ⟨-, rfl⟩ := Prod.mk.inj heq
    exact ⟨le_refl _, fun _ => rfl⟩
  | serviceCreate type name description =>
    obtain ⟨-, rfl⟩ := Prod.mk.inj (Option.some.inj h)
    exact ⟨by constructor <;> simp [Keystone.createService], fun _ => rfl⟩
  | endpointCreate region service_id publicurl internalurl adminurl =>
    obtain ⟨service, -, heq⟩ := Option.map_eq_some_iff.mp h
    obtain ⟨-, rfl⟩ := Prod.mk.inj heq
    exact ⟨by constructor <;> simp [Keystone.createEndpoint], fun _ => rfl⟩
  | tenantCreate name description enabled =>
    rw [Keystone.execute] at h
    split at h
    next => cases h
    next =>
      obtain ⟨-, rfl⟩ := Prod.mk.inj (Option.some.inj h)
      exact ⟨by constructor <;> simp [Keystone.createTenant], fun _ => rfl⟩
  | roleCreate name =>
    rw [Keystone.execute] at h
    split at h
    next => cases h
    next =>
      obtain ⟨-, rfl⟩ := Prod.mk.inj (Option.some.inj h)
      exact ⟨by constructor <;> simp [Keystone.createRole], fun _ => rfl⟩
  | userCreate name tenant_id pass enabled =>
    rw [Keystone.execute, Option.ite_none_left_eq_some] at h
    obtain ⟨tenant, -, heq⟩ := Option.map_eq_some_iff.mp h.2
    obtain ⟨-, rfl⟩ := Prod.mk.inj heq
    exact ⟨by constructor <;> simp [Keystone.createUser], fun hnot => absurd trivial hnot⟩
  | userRoleAdd tenant_id role_id user_id =>
    rw [Keystone.execute] at h
    split at h
    next =>
      obtain ⟨-, rfl⟩ := Prod.mk.inj (Option.some.inj h)
      split
      next => exact ⟨le_refl _, fun _ => rfl⟩
      next => exact ⟨by constructor <;> simp, fun _ => rfl⟩
    next => cases h

theorem issue_cases : w.state ≤ (issue k c w).2.state ∧
    (¬ c.IsUserCreate → (issue k c w).2.state.users = w.state.users) := by
  rw [issue, identityCommand]
  cases h : k.execute w.state c with
  | none => exact ⟨le_refl _, fun _ => rfl⟩
  | some out => exact execute_cases h

/-- The state that an action leaves. -/
def after (k : Keystone) (templated : Bool) (s : State) (r : Resource × Action) : State :=
  (r.2.run k templated r.1 ⟨s, []⟩).2.state

variable {templated : Bool} {r : Resource × Action}

theorem after_cases : s ≤ after k templated s r ∧
    (r.2 ≠ .createUser → (after k templated s r).users = s.users) := by
  obtain ⟨resource, action⟩ := r
  have hstay {b : Bool} {is : List Command} : s ≤ ((b, ⟨s, is⟩) : Bool × World).2.state ∧
      (action ≠ .createUser → ((b, ⟨s, is⟩) : Bool × World).2.state.users = s.users) :=
    ⟨le_refl _, fun _ => rfl⟩
  have hissue {c : Command} {is : List Command} (hc : action ≠ .createUser → ¬ c.IsUserCreate) :
      s ≤ (issue k c ⟨s, is⟩).2.state ∧
        (action ≠ .createUser → (issue k c ⟨s, is⟩).2.state.users = s.users) := by
    obtain ⟨hgrows, husers⟩ := issue_cases (k := k) (c := c) (w := ⟨s, is⟩)
    exact ⟨hgrows, fun hne => husers (hc hne)⟩
  rw [after]
  cases action with
  | createService =>
    cases templated with
    | true => exact hstay
    | false =>
      rw [Action.run, createService_creates.run]
      split
      next => exact hstay
      next => exact hissue fun _ => id
  | createEndpoint =>
    cases templated with
    | true => exact hstay
    | false =>
      rw [Action.run, createEndpoint_eq]
      split
      next => exact hstay
      next =>
        split
        next => exact hstay
        next => exact hissue fun _ => id
  | createTenant =>
    rw [Action.run, createTenant_creates.run]
    split
    next => exact hstay
    next => exact hissue fun _ => id
  | createRole =>
    rw [Action.run, createRole_creates.run]
    split
    next => exact hstay
    next => exact hissue fun _ => id
  | createUser =>
    rw [Action.run, createUser_eq]
    split
    next => exact hstay
    next =>
      split
      next => exact hstay
      next =>
        split
        next => exact hstay
        next => exact hissue fun hne => absurd rfl hne
  | grantRole =>
    rw [Action.run, grantRole_eq]
    split
    next => exact hstay
    next =>
      dsimp only
      split
      next => exact hstay
      next =>
        split
        next => exact hstay
        next => exact hissue fun _ => id

theorem after_grows (s : State) (r : Resource × Action) : s ≤ after k templated s r :=
  after_cases.1

end Growth

section Actions

variable {k : Keystone} {s : State} {resource : Resource}

theorem Creates.found_after {act : World → Bool × World} {found : State → Option String}
    {l : Listing} {c : Command} (h : Creates k act found l c) (s : State) :
    ∃ v, found (act ⟨s, []⟩).2.state = some v := by
  cases hfound : found s with
  | some v =>
    rw [h.run, hfound]
    exact ⟨v, hfound⟩
  | none =>
    obtain ⟨out, s', hexec, hv⟩ := h.created s hfound
    rw [h.run, hfound]
    dsimp only
    rw [issue_state out hexec]
    exact hv

theorem hasTenant_createTenant :
    HasTenant resource (createTenant k resource ⟨s, []⟩).2.state := by
  have hcreates : Creates k (createTenant k resource) _ _ _ := createTenant_creates
  obtain ⟨v, hv⟩ := hcreates.found_after s
  by_contra hnone
  rw [tenantUuid_eq_none hnone] at hv
  cases hv

theorem hasRole_createRole : HasRole resource (createRole k resource ⟨s, []⟩).2.state := by
  have hcreates : Creates k (createRole k resource) _ _ _ := createRole_creates
  obtain ⟨v, hv⟩ := hcreates.found_after s
  obtain ⟨r, hr, -, hname⟩ := of_found (w := ⟨_, []⟩) rfl role_lists (Or.inr fun _ => rfl) hv
  exact ⟨r, hr, Subtype.ext hname⟩

/-- A user is created when the tenant has none of the name and nobody else has it. -/
theorem createUser_state {t : Tenant} (ht : t ∈ s.tenants) (hname : t.name = resource.tenant_name)
    (hnamed : resource.user_name.val ≠ "") :
    ((∃ u ∈ s.usersIn t, u.name = resource.user_name) ∧
      (createUser k resource ⟨s, []⟩).2.state = s) ∨
    ((∀ u ∈ s.usersIn t, u.name ≠ resource.user_name) ∧
      (resource.user_name ∉ s.users.map User.name → (createUser k resource ⟨s, []⟩).2.state =
        k.createUser s resource.user_name t resource.user_pass resource.user_enabled)) := by
  have htenant : s.tenant? t.id.val = some t := find?_id s.tenant_ids ht
  rw [createUser_eq, tenantUuid_eq ht hname]
  simp only [htenant]
  split
  next hfound =>
    obtain ⟨u, hu, hsame | ⟨hempty, -⟩⟩ := (userFound_iff ht).mp hfound
    · exact Or.inl ⟨⟨u, hu, hsame⟩, rfl⟩
    · exact absurd hempty hnamed
  next hfound =>
    refine Or.inr ⟨fun u hu hsame => hfound ((userFound_iff ht).mpr ⟨u, hu, Or.inl hsame⟩), ?_⟩
    intro hnew
    apply issue_state (k.report _ s)
    rw [Keystone.execute, if_neg fun hrefuses => hnew (k.refuses_taken s _ hrefuses), htenant]
    rfl

/-- The only user of a name is found. -/
theorem userUuid_eq (hunique : (s.users.map User.name).Nodup) {u : User} (hu : u ∈ s.users)
    (hname : u.name = resource.user_name) (hnamed : resource.user_name.val ≠ "") :
    userUuid k resource s = some u.id.val := by
  obtain ⟨v, hv⟩ := exists_found (k := k) (w := ⟨s, []⟩) rfl (user_lists none) hu
    (congrArg Subtype.val hname)
  obtain ⟨u', hu', rfl, hname'⟩ := of_found (w := ⟨s, []⟩) rfl (user_lists none) (Or.inl hnamed) hv
  obtain rfl := List.inj_on_of_nodup_map hunique hu' hu ((Subtype.ext hname').trans hname.symm)
  exact hv

theorem grantRole_state (hunique : (s.users.map User.name).Nodup) {t : Tenant} {r : Role}
    {u : User} (ht : t ∈ s.tenants) (hr : r ∈ s.roles) (hu : u ∈ s.users)
    (htenant : t.name = resource.tenant_name) (hrole : r.name = resource.role_name)
    (huser : u.name = resource.user_name) (hnamed : resource.user_name.val ≠ "") :
    ⟨t.id, r.id, u.id⟩ ∈ (grantRole k resource ⟨s, []⟩).2.state.grants := by
  have hrows := records_userRole (s := s) (find?_id s.tenant_ids ht) (find?_id s.user_ids hu)
  rw [grantRole_eq, tenantUuid_eq ht htenant]
  simp only [userUuid_eq hunique hu huser hnamed, Option.getD_some, hrows, roleUuid_eq hr hrole]
  split
  next hsame =>
    -- the role that is listed for the user is the one of the name
    obtain ⟨r', hr', -, hrole'⟩ := of_found (w := ⟨s, []⟩) hrows (userRole_lists _ _ t u)
      (Or.inr fun _ => rfl) hsame.symm
    obtain rfl := role_unique hr (List.mem_of_mem_filter hr') hrole hrole'
    exact of_decide_eq_true (List.mem_filter.mp hr').2
  next =>
    rw [issue_state (k.report _ s) (show _ = some (_, if ⟨t.id, r.id, u.id⟩ ∈ s.grants then s
        else { s with grants := s.grants ++ [⟨t.id, r.id, u.id⟩] }) by
      rw [Keystone.execute, role?_eq hr, State.tenant?, State.user?, find?_id s.tenant_ids ht,
        find?_id s.user_ids hu])]
    split
    next hthere => exact hthere
    next => exact List.mem_append_right _ (List.mem_singleton_self _)

/-- The service that is found, with an endpoint that is found for it. -/
def HasEndpoint (k : Keystone) (resource : Resource) (s : State) : Prop :=
  ∃ service ∈ s.services, service.type = resource.service_type.cell ∧
    serviceUuid k resource s = some service.id.val ∧
    ∃ v, endpointUuid k resource s service.id.val = some v

theorem hasEndpoint_createEndpoint {v : String} (hservice : serviceUuid k resource s = some v) :
    HasEndpoint k resource (createEndpoint k resource false ⟨s, []⟩).2.state := by
  obtain ⟨service, hmem, rfl, htype⟩ := of_found (w := ⟨s, []⟩) rfl service_lists
    (Or.inl (ServiceType.cell_ne_empty _)) hservice
  rw [createEndpoint_eq, hservice]
  dsimp only
  cases hfound : endpointUuid k resource s service.id.val with
  | some v => exact ⟨service, hmem, Subtype.ext htype, hservice, v, hfound⟩
  | none =>
    dsimp only
    rw [issue_state (k.report _ s) (show _ = some (_, k.createEndpoint s resource.endpoint_region
        service resource.endpoint_publicurl resource.endpoint_internalurl
        resource.endpoint_adminurl) by
      rw [Keystone.execute, find?_id s.service_ids hmem]
      rfl)]
    exact ⟨service, hmem, Subtype.ext htype, hservice, exists_endpoint (w := ⟨_, []⟩)
      (List.mem_append_right _ (List.mem_singleton_self _)) rfl rfl⟩

end Actions

section Phases

/-- Nothing that the recipe registers has an empty name, and a user that is there already is in its
default tenant. The names of users are unique in Keystone. -/
structure Ready (a : Attributes) (s : State) : Prop where
  named : ∀ e ∈ a.users.entries, e.1.val ≠ ""
  user_names : (s.users.map User.name).Nodup
  in_default : ∀ e ∈ a.users.entries, ∀ u ∈ s.users, u.name = e.1 →
    ∃ t ∈ s.tenants, t.name = e.2.default_tenant ∧ u ∈ s.usersIn t

def TenantNamed (name : Cell) (s : State) : Prop := ∃ t ∈ s.tenants, t.name = name

def RoleNamed (name : Cell) (s : State) : Prop := ∃ r ∈ s.roles, r.name = name

def UserNamed (name default_tenant : Cell) (s : State) : Prop :=
  ∃ t ∈ s.tenants, t.name = default_tenant ∧ ∃ u ∈ s.usersIn t, u.name = name

def Granted (user_name role_name tenant_name : Cell) (s : State) : Prop :=
  ∃ t ∈ s.tenants, ∃ r ∈ s.roles, ∃ u ∈ s.users, t.name = tenant_name ∧ r.name = role_name ∧
    u.name = user_name ∧ ⟨t.id, r.id, u.id⟩ ∈ s.grants

/-- A user in its default tenant with all its grants. -/
def UserRegistered (e : Cell × UserInfo) (s : State) : Prop :=
  UserNamed e.1 e.2.default_tenant s ∧
    ∀ roles ∈ e.2.roles.entries, ∀ tenant_name ∈ roles.2, Granted e.1 roles.1 tenant_name s

/-- Everything that the attributes name. -/
structure Registered (k : Keystone) (a : Attributes) (s : State) : Prop where
  tenants : ∀ name ∈ tenantNames a, TenantNamed name s
  roles : ∀ name ∈ roleNames a, RoleNamed name s
  users : ∀ e ∈ a.users.entries, UserRegistered e s
  catalog : a.templated = false → HasEndpoint k (identityEndpoint a).1 s

variable {k : Keystone} {a : Attributes} {s t : State} {templated : Bool}

theorem tenantNamed_mono (name : Cell) : Monotone (TenantNamed name) :=
  fun _ _ h ⟨t, ht, hname⟩ => ⟨t, h.tenants ht, hname⟩

theorem roleNamed_mono (name : Cell) : Monotone (RoleNamed name) :=
  fun _ _ h ⟨r, hr, hname⟩ => ⟨r, h.roles hr, hname⟩

theorem userNamed_mono (name default_tenant : Cell) : Monotone (UserNamed name default_tenant) :=
  fun _ _ h ⟨t, ht, htenant, u, hu, hname⟩ =>
    ⟨t, h.tenants ht, htenant, u, usersIn_mono h t hu, hname⟩

theorem granted_mono (user_name role_name tenant_name : Cell) :
    Monotone (Granted user_name role_name tenant_name) :=
  fun _ _ h ⟨t, ht, r, hr, u, hu, htenant, hrole, huser, hgrant⟩ =>
    ⟨t, h.tenants ht, r, h.roles hr, u, h.users hu, htenant, hrole, huser, h.grants hgrant⟩

theorem userRegistered_mono (e : Cell × UserInfo) : Monotone (UserRegistered e) :=
  fun _ _ h ⟨huser, hgrants⟩ => ⟨userNamed_mono _ _ h huser, fun roles hroles tenant htenant =>
    granted_mono _ _ _ h (hgrants roles hroles tenant htenant)⟩

/-- Steps other than the creation of a user keep Keystone ready. -/
theorem Ready.keep (h : Ready a s) {r : Resource × Action} (hr : r.2 ≠ .createUser) :
    Ready a (after k templated s r) := by
  obtain ⟨hgrows, husers⟩ := @after_cases k s templated r
  refine ⟨h.named, ?_, ?_⟩
  · rw [husers hr]
    exact h.user_names
  · intro e he u hu hname
    rw [husers hr] at hu
    obtain ⟨t, ht, htenant, hin⟩ := h.in_default e he u hu hname
    exact ⟨t, hgrows.tenants ht, htenant, usersIn_mono hgrows t hin⟩

/-- A user is created in its default tenant, and only if there is none of the name at all. -/
theorem Ready.afterUser (h : Ready a s) {e : Cell × UserInfo} (he : e ∈ a.users.entries)
    (htenant : TenantNamed e.2.default_tenant s) :
    Ready a (after k templated s (registerUser a e.1 e.2)) ∧
      UserNamed e.1 e.2.default_tenant
        (after k templated s (registerUser a e.1 e.2)) := by
  obtain ⟨t, ht, htenant⟩ := htenant
  have hgrows : s ≤ after k templated s (registerUser a e.1 e.2) := after_grows _ _
  rcases @createUser_state k s (registerUser a e.1 e.2).1 t ht htenant
    (h.named e he) with ⟨⟨u, hu, hname⟩, hstate⟩ | ⟨hnone, hstate⟩
  · rw [show after k templated s (registerUser a e.1 e.2) = s from hstate]
    exact ⟨h, t, ht, htenant, u, hu, hname⟩
  · have hnew : e.1 ∉ s.users.map User.name := by
      intro hmem
      obtain ⟨u, hu, hname⟩ := List.mem_map.mp hmem
      obtain ⟨t', ht', htenant', hin⟩ := h.in_default e he u hu hname
      obtain rfl := List.inj_on_of_nodup_map s.tenant_names ht' ht (htenant'.trans htenant.symm)
      exact hnone u hin hname
    have hthere : ∃ u ∈ (k.createUser s e.1 t (a.password e.1) true).usersIn t, u.name = e.1 :=
      ⟨_, List.mem_filter.mpr ⟨List.mem_append_right _ (List.mem_singleton_self _),
        decide_eq_true (Or.inl rfl)⟩, rfl⟩
    have hnames := nodup_map_concat (x := ⟨k.newId (s.users.map User.id), e.1, t.id, a.password e.1,
      "", true⟩) h.user_names hnew
    rw [show after k templated s (registerUser a e.1 e.2) =
      k.createUser s e.1 t (a.password e.1) true from hstate hnew] at hgrows ⊢
    refine ⟨⟨h.named, hnames, ?_⟩, t, ht, htenant, hthere⟩
    intro e' he' u hu hname
    rcases List.mem_append.mp hu with hold | hu
    · obtain ⟨t', ht', htenant', hin⟩ := h.in_default e' he' u hold hname
      exact ⟨t', hgrows.tenants ht', htenant', usersIn_mono hgrows t' hin⟩
    · obtain rfl := List.mem_singleton.mp hu
      obtain rfl := List.inj_on_of_nodup_map a.users.nodup he he' hname
      exact ⟨t, ht, htenant, List.mem_filter.mpr
        ⟨List.mem_append_right _ (List.mem_singleton_self _), decide_eq_true (Or.inl rfl)⟩⟩

theorem mem_tenantNames {e : Cell × UserInfo} (he : e ∈ a.users.entries) :
    e.2.default_tenant ∈ tenantNames a ∧
      ∀ roles ∈ e.2.roles.entries, ∀ tenant_name ∈ roles.2, tenant_name ∈ tenantNames a := by
  simp only [tenantNames, List.mem_eraseDups]
  refine ⟨List.mem_flatMap.mpr ⟨e, he, by simp⟩, fun roles hroles tenant_name htenant => ?_⟩
  exact List.mem_flatMap.mpr ⟨e, he, List.mem_append_left _
    (List.mem_flatMap.mpr ⟨roles, hroles, htenant⟩)⟩

theorem mem_roleNames {e : Cell × UserInfo} (he : e ∈ a.users.entries)
    {roles : Cell × List Cell} (hroles : roles ∈ e.2.roles.entries) : roles.1 ∈ roleNames a := by
  simp only [roleNames, List.mem_eraseDups]
  exact List.mem_flatMap.mpr ⟨e, he, List.mem_map_of_mem hroles⟩

/-- The state between the roles and the catalog. -/
structure Prepared (a : Attributes) (s : State) : Prop extends Ready a s where
  tenants : ∀ name ∈ tenantNames a, TenantNamed name s
  roles : ∀ name ∈ roleNames a, RoleNamed name s

theorem Prepared.keep (h : Prepared a s) {r : Resource × Action} (hr : r.2 ≠ .createUser) :
    Prepared a (after k templated s r) where
  toReady := h.toReady.keep hr
  tenants name hname := tenantNamed_mono name (after_grows s r) (h.tenants name hname)
  roles name hname := roleNamed_mono name (after_grows s r) (h.roles name hname)

theorem leads_prepared : Leads (after k templated) (Ready a)
    ((tenantNames a).map registerTenant ++ (roleNames a).map registerRole) (Prepared a) := by
  have htenants : Leads (after k templated) (Ready a)
      ((tenantNames a).map registerTenant)
      fun s => Ready a s ∧ ∀ name ∈ tenantNames a, TenantNamed name s :=
    Leads.map after_grows tenantNamed_mono fun name _ s hs =>
      ⟨hs.keep nofun, hasTenant_createTenant⟩
  have hroles : Leads (after k templated) (Ready a) ((roleNames a).map registerRole)
      fun s => Ready a s ∧ ∀ name ∈ roleNames a, RoleNamed name s :=
    Leads.map after_grows roleNamed_mono fun name _ s hs => ⟨hs.keep nofun, hasRole_createRole⟩
  have hframe : Monotone fun s => ∀ name ∈ tenantNames a, TenantNamed name s :=
    fun _ _ h hs name hname => tenantNamed_mono name h (hs name hname)
  refine htenants.append ((hroles.frame after_grows hframe).weaken (fun _ hs => hs) ?_)
  exact fun s ⟨⟨hready, hroles⟩, htenants⟩ => ⟨hready, htenants, hroles⟩

theorem leads_grants {e : Cell × UserInfo} (he : e ∈ a.users.entries) :
    Leads (after k templated)
      (fun s => Prepared a s ∧ UserNamed e.1 e.2.default_tenant s) (registerGrants e.1 e.2)
      fun s => (Prepared a s ∧ UserNamed e.1 e.2.default_tenant s) ∧
        ∀ roles ∈ e.2.roles.entries, ∀ tenant_name ∈ roles.2, Granted e.1 roles.1 tenant_name s := by
  refine Leads.each after_grows (D := fun (roles : Cell × List Cell) s =>
    ∀ tenant_name ∈ roles.2, Granted e.1 roles.1 tenant_name s) ?_ ?_
  · exact fun roles _ _ h hs tenant htenant => granted_mono _ _ _ h (hs tenant htenant)
  · intro roles hroles
    refine Leads.map after_grows (granted_mono e.1 roles.1) ?_
    rintro tenant_name htenant s ⟨hprepared, huser⟩
    have hgrows : s ≤ after k templated s (registerGrant e.1 roles.1 tenant_name) :=
      after_grows _ _
    obtain ⟨t, ht, htname⟩ := hprepared.tenants _ ((mem_tenantNames he).2 roles hroles _ htenant)
    obtain ⟨r, hr, hrname⟩ := hprepared.roles _ (mem_roleNames he hroles)
    obtain ⟨_, -, -, u, hin, huname⟩ := id huser
    have hu := List.mem_of_mem_filter hin
    refine ⟨⟨hprepared.keep nofun, userNamed_mono _ _ hgrows huser⟩, t, hgrows.tenants ht, r,
      hgrows.roles hr, u, hgrows.users hu, htname, hrname, huname, ?_⟩
    exact grantRole_state hprepared.user_names ht hr hu htname hrname huname
      (hprepared.named e he)

theorem leads_users : Leads (after k templated) (Prepared a)
    (a.users.entries.flatMap fun (user_name, user_info) =>
      registerUser a user_name user_info :: registerGrants user_name user_info)
    fun s => Prepared a s ∧ ∀ e ∈ a.users.entries, UserRegistered e s := by
  refine Leads.each after_grows userRegistered_mono fun e he => ?_
  refine Leads.cons ?_ ((leads_grants he).weaken (fun _ hs => hs) ?_)
  · intro s hs
    have hgrows : s ≤ after k templated s (registerUser a e.1 e.2) := after_grows _ _
    obtain ⟨hready, huser⟩ := hs.toReady.afterUser he
      (hs.tenants _ (mem_tenantNames he).1)
    refine ⟨⟨hready, fun name hname => ?_, fun name hname => ?_⟩, huser⟩
    · exact tenantNamed_mono name hgrows (hs.tenants name hname)
    · exact roleNamed_mono name hgrows (hs.roles name hname)
  · exact fun s ⟨⟨hprepared, huser⟩, hgrants⟩ => ⟨hprepared, huser, hgrants⟩

theorem leads_catalog : Leads (after k a.templated) (Prepared a) (registerCatalog a)
    fun s => Prepared a s ∧ (a.templated = false → HasEndpoint k (identityEndpoint a).1 s) := by
  rw [registerCatalog]
  cases htemplated : a.templated with
  | true => exact fun s hs => ⟨hs, nofun⟩
  | false =>
    intro s hs
    have hcreates : Creates k (createService k identityService.1 false) _ _ _ :=
      createService_creates
    obtain ⟨v, hv⟩ := hcreates.found_after s
    have hendpoint := @hasEndpoint_createEndpoint k _ (identityEndpoint a).1 v hv
    exact ⟨((hs.keep nofun : Prepared a (after k false s identityService)).keep nofun),
      fun _ => hendpoint⟩

/-- A run registers everything. -/
theorem leads_registered : Leads (after k a.templated) (Ready a) (resources a)
    fun s => Ready a s ∧ Registered k a s := by
  have hframe : Monotone fun s => ∀ e ∈ a.users.entries, UserRegistered e s :=
    fun _ _ h hs e he => userRegistered_mono e h (hs e he)
  rw [resources, ← List.append_assoc]
  refine leads_prepared.append (leads_users.append
    ((leads_catalog.frame after_grows hframe).weaken (fun _ hs => hs) ?_))
  exact fun s ⟨⟨hprepared, hcatalog⟩, husers⟩ =>
    ⟨hprepared.toReady, hprepared.tenants, hprepared.roles, husers, hcatalog⟩

end Phases

section Again

variable {k : Keystone} {a : Attributes} {s : State}

theorem foldl_converge_state (templated : Bool) (rs : List (Resource × Action)) (w : World) :
    (rs.foldl (converge k templated) w).state = rs.foldl (after k templated) w.state := by
  induction rs generalizing w with
  | nil => rfl
  | cons r rs ih => exact ih _

/-- Steps that are quiet in a state are so one after another. -/
theorem foldl_converge_quiet {templated : Bool} {rs : List (Resource × Action)}
    (h : ∀ r ∈ rs, Quiet s (r.2.run k templated r.1 ⟨s, []⟩)) {issued : List Command}
    (hissued : ∀ c ∈ issued, c.isChange = false) :
    (rs.foldl (converge k templated) ⟨s, issued⟩).state = s ∧
      ∀ c ∈ (rs.foldl (converge k templated) ⟨s, issued⟩).issued, c.isChange = false := by
  induction rs generalizing issued with
  | nil => exact ⟨rfl, hissued⟩
  | cons r rs ih =>
    obtain ⟨hquiet, hrest⟩ := List.forall_mem_cons.mp h
    have hsame : converge k templated ⟨s, issued⟩ r =
        ⟨s, issued ++ (r.2.run k templated r.1 ⟨s, []⟩).2.issued⟩ := by
      rw [converge]
      exact congrArg (World.mk · _) hquiet.state
    rw [List.foldl_cons, hsame]
    refine ih hrest fun c hc => ?_
    rcases List.mem_append.mp hc with hold | hnew
    · exact hissued c hold
    · exact hquiet.issued c hnew

/-- What is registered is found. -/
theorem Creates.quiet {act : World → Bool × World} {found : State → Option String}
    {l : Listing} {c : Command} (h : Creates k act found l c) {v : String}
    (hv : found s = some v) : Quiet s (act ⟨s, []⟩) := by
  rw [h.run, hv]
  exact quiet_of_lists [l]

theorem Registered.quiet_user (h : Registered k a s) {e : Cell × UserInfo}
    (he : e ∈ a.users.entries) (templated : Bool) :
    Quiet s (Action.createUser.run k templated (registerUser a e.1 e.2).1 ⟨s, []⟩) := by
  obtain ⟨⟨t, ht, htenant, u, hu, hname⟩, -⟩ := h.users e he
  have hfound : userFound k (registerUser a e.1 e.2).1 t.id.val (s.usersIn t) = true :=
    (userFound_iff ht).mpr ⟨u, hu, Or.inl hname⟩
  exact createUser_quiet (tenantUuid_eq ht htenant) (find?_id s.tenant_ids ht) hfound

theorem Registered.quiet_grant (hready : Ready a s) (h : Registered k a s) {e : Cell × UserInfo}
    (he : e ∈ a.users.entries) {roles : Cell × List Cell} (hroles : roles ∈ e.2.roles.entries)
    {tenant_name : Cell} (htenant : tenant_name ∈ roles.2) (templated : Bool) :
    Quiet s (Action.grantRole.run k templated (registerGrant e.1 roles.1 tenant_name).1
      ⟨s, []⟩) := by
  obtain ⟨-, hgrants⟩ := h.users e he
  obtain ⟨t, ht, r, hr, u, hu, htname, hrname, huname, hgrant⟩ :=
    hgrants roles hroles tenant_name htenant
  have huser : userUuid k (registerGrant e.1 roles.1 tenant_name).1 s = some u.id.val :=
    userUuid_eq hready.user_names hu huname (hready.named e he)
  have hfind : s.user? ((userUuid k (registerGrant e.1 roles.1 tenant_name).1 s).getD "") =
      some u := by
    rw [huser]
    exact find?_id s.user_ids hu
  exact grantRole_quiet (tenantUuid_eq ht htname) (find?_id s.tenant_ids ht) hfind hr hrname hgrant

theorem Registered.quiet_catalog (h : Registered k a s) :
    ∀ r ∈ registerCatalog a, Quiet s (r.2.run k a.templated r.1 ⟨s, []⟩) := by
  rw [registerCatalog]
  cases htemplated : a.templated with
  | true => exact fun r hr => absurd hr List.not_mem_nil
  | false =>
    obtain ⟨service, -, -, hservice, v, hfound⟩ := h.catalog htemplated
    have hcreates : Creates k (createService k identityService.1 false) _ _ _ :=
      createService_creates
    refine List.forall_mem_cons.mpr ⟨hcreates.quiet hservice, List.forall_mem_singleton.mpr ?_⟩
    rw [identityEndpoint, Action.run, createEndpoint_eq]
    rw [identityEndpoint] at hservice hfound
    simp only [hservice, hfound]
    exact quiet_of_lists [.service, .endpoint]

/-- Where everything is registered, a run finds it so. -/
theorem Registered.quiet (hready : Ready a s) (h : Registered k a s) :
    ∀ r ∈ resources a, Quiet s (r.2.run k a.templated r.1 ⟨s, []⟩) := by
  intro r hr
  rcases List.mem_append.mp hr with htenant | hr
  · obtain ⟨name, hname, rfl⟩ := List.mem_map.mp htenant
    obtain ⟨t, ht, htname⟩ := h.tenants name hname
    exact createTenant_creates.quiet (tenantUuid_eq ht htname)
  rcases List.mem_append.mp hr with hrole | hr
  · obtain ⟨name, hname, rfl⟩ := List.mem_map.mp hrole
    obtain ⟨r, hr, hrname⟩ := h.roles name hname
    exact createRole_creates.quiet (roleUuid_eq hr hrname)
  rcases List.mem_append.mp hr with huser | hcatalog
  · obtain ⟨e, he, hr⟩ := List.mem_flatMap.mp huser
    rcases List.mem_cons.mp hr with rfl | hgrant
    · exact h.quiet_user he a.templated
    · obtain ⟨roles, hroles, hgrant⟩ := List.mem_flatMap.mp hgrant
      obtain ⟨tenant_name, htenant, rfl⟩ := List.mem_map.mp hgrant
      exact Registered.quiet_grant hready h he hroles htenant a.templated
  · exact h.quiet_catalog r hcatalog

/-- One run registers everything, takes nothing away, and leaves the second run nothing to do. -/
theorem registration_complete (k : Keystone) (a : Attributes) (s : State) (hready : Ready a s) :
    let once := (registration a k s).state
    let again := registration a k once
    s ≤ once ∧ Registered k a once ∧ again.state = once ∧
      ∀ c ∈ again.issued, c.isChange = false := by
  have honce : (registration a k s).state = (resources a).foldl (after k a.templated) s :=
    foldl_converge_state a.templated (resources a) ⟨s, []⟩
  obtain ⟨hready', hregistered⟩ := leads_registered s hready
  rw [honce]
  have hnil : ∀ c ∈ ([] : List Command), c.isChange = false := by simp
  obtain ⟨hstate, hissued⟩ := foldl_converge_quiet (hregistered.quiet hready') hnil
  exact ⟨le_foldl after_grows s, hregistered, hstate, hissued⟩

/-- Keystone before anything is registered. -/
def emptyState : State :=
  ⟨[], [], [], [], [], [], List.nodup_nil, List.nodup_nil, List.nodup_nil, List.nodup_nil,
    List.nodup_nil, List.nodup_nil, List.nodup_nil⟩

/-- The administrator of the default attributes, with one of the roles. -/
def defaultAttributes : Attributes where
  users := ⟨[(adminCell, ⟨adminCell, ⟨[(adminCell, [adminCell])], by decide⟩⟩)], by decide⟩
  password _ := "secret"
  templated := false
  region := regionOneCell
  identity_admin_endpoint := ⟨"http://127.0.0.1:35357/v2.0", by decide⟩
  identity_endpoint := ⟨"http://127.0.0.1:5000/v2.0", by decide⟩

theorem registration_complete_default :
    Granted adminCell adminCell adminCell
      (registration defaultAttributes Keystone.plain emptyState).state := by
  have hready : Ready defaultAttributes emptyState :=
    ⟨by simp [defaultAttributes, adminCell], List.nodup_nil, fun _ _ _ hu => nomatch hu⟩
  obtain ⟨-, hregistered, -⟩ :=
    registration_complete Keystone.plain defaultAttributes emptyState hready
  obtain ⟨-, hgrants⟩ := hregistered.users _ (List.mem_singleton_self _)
  exact hgrants _ (List.mem_singleton_self _) _ (List.mem_singleton_self _)

end Again

end CompassAdapters.Identity
