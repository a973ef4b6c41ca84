import CompassAdapters.Identity.Lookup

/-! Registering the same thing twice. -/
namespace CompassAdapters.Identity
open Ruby Openstack

variable {k : Keystone} {resource : Resource} {s : State}

/-- A run that changes nothing, tries to change nothing and says so. -/
structure Quiet (s : State) (out : Bool × World) : Prop where
  updated : out.1 = false
  state : out.2.state = s
  issued : ∀ c ∈ out.2.issued, c.isChange = false

/-- The commands of a quiet run are listings. -/
theorem quiet_of_lists (ls : List Listing) : Quiet s (false, ⟨s, ls.map Command.list⟩) where
  updated := rfl
  state := rfl
  issued c hc := by
    obtain ⟨l, -, rfl⟩ := List.mem_map.mp hc
    rfl

/-- Run again after it has run, an action is quiet. -/
def Settles (act : World → Bool × World) (s : State) : Prop :=
  Quiet (act ⟨s, []⟩).2.state (act ⟨(act ⟨s, []⟩).2.state, []⟩)

theorem settles_of_quiet {act : World → Bool × World} (h : Quiet s (act ⟨s, []⟩)) :
    Settles act s := by
  rw [Settles, h.state]
  exact h

theorem settles_of_state {act : World → Bool × World} (s' : State)
    (h : (act ⟨s, []⟩).2.state = s') (h' : Quiet s' (act ⟨s', []⟩)) : Settles act s := by
  rw [Settles, h]
  exact h'

theorem issue_state {c : Command} {w : World} (out : String) {s' : State}
    (h : k.execute w.state c = some (out, s')) : (issue k c w).2.state = s' := by
  rw [issue, identityCommand, h]

section Creation

/-- An action that looks for a thing and creates it when it finds none. -/
structure Creates (k : Keystone) (act : World → Bool × World) (found : State → Option String)
    (l : Listing) (c : Command) : Prop where
  run : ∀ s, act ⟨s, []⟩ =
    match found s with
    | some _ => (false, ⟨s, [.list l]⟩)
    | none => issue k c ⟨s, [.list l]⟩
  created : ∀ s, found s = none → ∃ out s', k.execute s c = some (out, s') ∧
    ∃ v, found s' = some v

theorem Creates.settles {act : World → Bool × World} {found : State → Option String} {l : Listing}
    {c : Command} (h : Creates k act found l c) : Settles act s := by
  cases hfound : found s with
  | some v =>
    apply settles_of_quiet
    rw [h.run, hfound]
    exact quiet_of_lists [l]
  | none =>
    obtain ⟨out, s', hexec, v, hv⟩ := h.created s hfound
    apply settles_of_state s'
    · rw [h.run, hfound]
      exact issue_state out hexec
    · rw [h.run, hv]
      exact quiet_of_lists [l]

/-- The tenant that is found for the name of the resource. -/
def tenantUuid (k : Keystone) (resource : Resource) (s : State) : Option String :=
  searchUuid (k.output .tenant (s.tenants.map Tenant.record)) "id"
    [("name", resource.tenant_name.val)]

theorem exists_tenantUuid {t : Tenant} (ht : t ∈ s.tenants)
    (hname : t.name = resource.tenant_name) : ∃ v, tenantUuid k resource s = some v :=
  exists_found (w := ⟨s, []⟩) rfl tenant_lists ht (congrArg Subtype.val hname)

theorem createTenant_creates : Creates k (createTenant k resource) (tenantUuid k resource) .tenant
    (.tenantCreate resource.tenant_name resource.tenant_description resource.tenant_enabled) where
  run s := by
    rw [createTenant, identityUuid_eq rfl (by simp), ← tenantUuid]
    cases tenantUuid k resource s <;> rfl
  created s hnone := by
    have hname : resource.tenant_name ∉ s.tenants.map Tenant.name := by
      intro hmem
      obtain ⟨t, ht, hname⟩ := List.mem_map.mp hmem
      obtain ⟨v, hv⟩ := exists_tenantUuid (k := k) ht hname
      rw [hnone] at hv
      cases hv
    exact ⟨_, _, dif_neg hname,
      exists_tenantUuid (List.mem_append_right _ (List.mem_singleton_self _)) rfl⟩

def roleUuid (k : Keystone) (resource : Resource) (s : State) : Option String :=
  searchUuid (k.output .role (s.roles.map Role.record)) "id" [("name", resource.role_name.val)]

theorem exists_roleUuid {r : Role} (hr : r ∈ s.roles) (hname : r.name = resource.role_name) :
    ∃ v, roleUuid k resource s = some v :=
  exists_found (w := ⟨s, []⟩) rfl role_lists hr (congrArg Subtype.val hname)

theorem createRole_creates : Creates k (createRole k resource) (roleUuid k resource) .role
    (.roleCreate resource.role_name) where
  run s := by
    rw [createRole, identityUuid_eq rfl (by simp), ← roleUuid]
    cases roleUuid k resource s <;> rfl
  created s hnone := by
    have hname : resource.role_name ∉ s.roles.map Role.name := by
      intro hmem
      obtain ⟨r, hr, hname⟩ := List.mem_map.mp hmem
      obtain ⟨v, hv⟩ := exists_roleUuid (k := k) hr hname
      rw [hnone] at hv
      cases hv
    exact ⟨_, _, dif_neg hname,
      exists_roleUuid (List.mem_append_right _ (List.mem_singleton_self _)) rfl⟩

/-- The service that is found for the type of the resource. -/
def serviceUuid (k : Keystone) (resource : Resource) (s : State) : Option String :=
  searchUuid (k.output .service (s.services.map Service.record)) "id"
    [("type", resource.service_type.cell.val)]

theorem createService_creates : Creates k (createService k resource false) (serviceUuid k resource)
    .service (.serviceCreate resource.service_type.cell resource.service_name
      resource.service_description) where
  run s := by
    rw [createService, if_neg Bool.false_ne_true, identityUuid_eq rfl (by simp), ← serviceUuid]
    cases serviceUuid k resource s <;> rfl
  created s _ := ⟨_, _, rfl, exists_found (w := ⟨k.createService s _ _ _, []⟩) rfl service_lists
    (List.mem_append_right _ (List.mem_singleton_self _)) rfl⟩

end Creation

section Endpoints

/-- The endpoint that is found for a service in the region of the resource. -/
def endpointUuid (k : Keystone) (resource : Resource) (s : State) (service_uuid : String) :
    Option String :=
  searchUuid (k.output .endpoint (s.endpoints.map Endpoint.record)) "id"
    [("service_id", service_uuid), ("region", resource.endpoint_region.val)]

theorem createEndpoint_eq : createEndpoint k resource false ⟨s, []⟩ =
    match serviceUuid k resource s with
    | none => (false, ⟨s, [.list .service]⟩)
    | some service_uuid =>
      match endpointUuid k resource s service_uuid with
      | some _ => (false, ⟨s, [.list .service, .list .endpoint]⟩)
      | none => issue k (.endpointCreate resource.endpoint_region service_uuid
          resource.endpoint_publicurl resource.endpoint_internalurl resource.endpoint_adminurl)
          ⟨s, [.list .service, .list .endpoint]⟩ := by
  rw [createEndpoint, if_neg Bool.false_ne_true,
    identityUuid_eq rfl (by simp), serviceUuid]
  cases searchUuid (k.output .service (s.services.map Service.record)) "id"
    [("type", resource.service_type.cell.val)] with
  | none => rfl
  | some service_uuid =>
    simp only [identityUuid_endpoint, endpointUuid]
    generalize searchUuid _ "id" [("service_id", service_uuid), _] = found
    cases found <;> rfl

theorem createEndpoint_quiet {service_uuid : String}
    (hservice : serviceUuid k resource s = some service_uuid) {e : Endpoint} (he : e ∈ s.endpoints)
    (hid : e.service_id.val = service_uuid) (hregion : e.region = resource.endpoint_region) :
    Quiet s (createEndpoint k resource false ⟨s, []⟩) := by
  have hfound : ∃ v, endpointUuid k resource s service_uuid = some v :=
    exists_endpoint (w := ⟨s, []⟩) he hid hregion
  obtain ⟨v, hv⟩ := hfound
  rw [createEndpoint_eq, hservice]
  simp only [hv]
  exact quiet_of_lists [.service, .endpoint]

theorem ServiceType.cell_ne_empty (t : ServiceType) : t.cell.val ≠ "" := by
  cases t <;> decide

theorem createEndpoint_settles (templated : Bool) :
    Settles (createEndpoint k resource templated) s := by
  cases templated with
  | true => exact settles_of_quiet (quiet_of_lists [])
  | false =>
    cases hservice : serviceUuid k resource s with
    | none =>
      apply settles_of_quiet
      rw [createEndpoint_eq, hservice]
      exact quiet_of_lists [.service]
    | some service_uuid =>
      cases hfound : endpointUuid k resource s service_uuid with
      | some v =>
        apply settles_of_quiet
        rw [createEndpoint_eq, hservice]
        simp only [hfound]
        exact quiet_of_lists [.service, .endpoint]
      | none =>
        obtain ⟨x, hx, hid, -⟩ := of_found (w := ⟨s, []⟩) rfl service_lists
          (Or.inl (ServiceType.cell_ne_empty _)) hservice
        obtain ⟨service, hfind⟩ := Option.isSome_iff_exists.mp (List.find?_isSome
          (p := fun service : Service => decide (service.id.val = service_uuid)).mpr
            ⟨x, hx, decide_eq_true hid⟩)
        have hservice_id : service.id.val = service_uuid := by
          simpa using List.find?_some hfind
        refine settles_of_state (k.createEndpoint s resource.endpoint_region service
          resource.endpoint_publicurl resource.endpoint_internalurl resource.endpoint_adminurl) ?_
          (createEndpoint_quiet hservice (List.mem_append_right _ (List.mem_singleton_self _))
            hservice_id rfl)
        rw [createEndpoint_eq, hservice]
        simp only [hfound]
        apply issue_state (k.report _ s)
        rw [Keystone.execute, hfind]
        rfl

end Endpoints

section Users

/-- A thing is found by its own identifier. -/
theorem find?_id {α : Type*} {id : α → Cell} {xs : List α} (hnodup : (xs.map id).Nodup) {x : α}
    (hx : x ∈ xs) : (xs.find? fun y => decide ((id y).val = (id x).val)) = some x := by
  obtain ⟨y, hfind⟩ := Option.isSome_iff_exists.mp (List.find?_isSome
    (p := fun y => decide ((id y).val = (id x).val)).mpr ⟨x, hx, decide_eq_true rfl⟩)
  have hid : (id y).val = (id x).val := by simpa using List.find?_some hfind
  have hsame : y = x :=
    List.inj_on_of_nodup_map hnodup (List.mem_of_find?_eq_some hfind) hx (Subtype.ext hid)
  rw [hfind, hsame]

/-- Whether a listing of users has the name of the resource. -/
def userFound (k : Keystone) (resource : Resource) (tenant_uuid : String) (users : List User) :
    Bool :=
  (k.output (.user (some tenant_uuid)) (users.map User.record)).any fun user =>
    value user (some "name") = some resource.user_name.val

theorem createUser_eq : createUser k resource ⟨s, []⟩ =
    match tenantUuid k resource s with
    | none => (false, ⟨s, [.list .tenant]⟩)
    | some tenant_uuid =>
      match s.tenant? tenant_uuid with
      | none => (false, ⟨s, [.list .tenant, .list (.user (some tenant_uuid))]⟩)
      | some t =>
        if userFound k resource tenant_uuid (s.usersIn t) = true then
          (false, ⟨s, [.list .tenant, .list (.user (some tenant_uuid))]⟩)
        else
          issue k (.userCreate resource.user_name tenant_uuid resource.user_pass
            resource.user_enabled) ⟨s, [.list .tenant, .list (.user (some tenant_uuid))]⟩ := by
  rw [createUser, identityUuid_eq rfl (by simp), ← tenantUuid]
  cases tenantUuid k resource s with
  | none => rfl
  | some tenant_uuid =>
    cases ht : s.tenant? tenant_uuid with
    | none =>
      have hrecords : s.records (.user (some tenant_uuid)) = none := by rw [State.records, ht]; rfl
      simp only [identityCommand_list_none (k := k) (w := ⟨s, [] ++ [.list .tenant]⟩) hrecords, ht]
      rfl
    | some t =>
      have hrecords : s.records (.user (some tenant_uuid)) =
          some ((s.usersIn t).map User.record) := by rw [State.records, ht]; rfl
      simp only [identityCommand_list (k := k) (w := ⟨s, [] ++ [.list .tenant]⟩) hrecords, ht]
      rfl

/-- A further line of an e-mail address is a user without a name. -/
theorem userFound_iff {t : Tenant} (ht : t ∈ s.tenants) :
    userFound k resource t.id.val (s.usersIn t) = true ↔
      ∃ u ∈ s.usersIn t, u.name = resource.user_name ∨
        (resource.user_name.val = "" ∧ '\n' ∈ u.email.toList) := by
  have hrecords : s.records (.user (some t.id.val)) = some ((s.usersIn t).map User.record) := by
    rw [State.records, State.tenant?, find?_id s.tenant_ids ht]
    rfl
  rw [userFound, List.any_eq_true]
  constructor
  · rintro ⟨obj, hobj, hvalue⟩
    have hvalue := of_decide_eq_true hvalue
    obtain ⟨u, hu, ⟨-, hkey⟩ | ⟨⟨email, hemail, hbreaks⟩, -, hkey⟩⟩ :=
      output_value (w := ⟨s, []⟩) hrecords (user_lists _) hobj
    · exact ⟨u, hu, Or.inl (Subtype.ext (Option.some.inj (hkey.symm.trans hvalue)))⟩
    · cases hemail
      exact ⟨u, hu, Or.inr ⟨Option.some.inj (hvalue.symm.trans hkey), hbreaks⟩⟩
  · rintro ⟨u, hu, hname | ⟨hempty, hbreaks⟩⟩
    · obtain ⟨obj, hobj, -, hkey⟩ :=
        exists_value (k := k) (w := ⟨s, []⟩) hrecords (user_lists _) hu
      exact ⟨obj, hobj, decide_eq_true (hname ▸ hkey)⟩
    · obtain ⟨obj, hobj, hkey⟩ := exists_empty (k := k) (w := ⟨s, []⟩) hrecords (user_lists _) hu
        ⟨u.email, rfl, hbreaks⟩
      exact ⟨obj, hobj, decide_eq_true (hempty ▸ hkey)⟩

theorem createUser_quiet {tenant_uuid : String}
    (htenant : tenantUuid k resource s = some tenant_uuid) {t : Tenant}
    (ht : s.tenant? tenant_uuid = some t)
    (hfound : userFound k resource tenant_uuid (s.usersIn t) = true) :
    Quiet s (createUser k resource ⟨s, []⟩) := by
  rw [createUser_eq, htenant]
  simp only [ht, if_pos hfound]
  exact quiet_of_lists [.tenant, .user (some tenant_uuid)]

/-- The tenant that is found for a name is the one of this name. -/
theorem tenant?_tenantUuid {tenant_uuid : String}
    (htenant : tenantUuid k resource s = some tenant_uuid) :
    ∃ t ∈ s.tenants, t.name = resource.tenant_name ∧ t.id.val = tenant_uuid ∧
      s.tenant? tenant_uuid = some t := by
  obtain ⟨t, ht, rfl, hname⟩ := of_found (w := ⟨s, []⟩) rfl tenant_lists (Or.inr fun _ => rfl)
    htenant
  exact ⟨t, ht, Subtype.ext hname, rfl, find?_id s.tenant_ids ht⟩

/-- Keystone refuses the name of the user, whom the listing for the tenant does not show. -/
def Refused (k : Keystone) (resource : Resource) (s : State) : Prop :=
  k.refuses s resource.user_name = true ∧ ∃ t ∈ s.tenants, t.name = resource.tenant_name ∧
    ∀ u ∈ s.usersIn t, u.name ≠ resource.user_name ∧
      (resource.user_name.val = "" → '\n' ∉ u.email.toList)

theorem refused_iff {t : Tenant} (ht : t ∈ s.tenants) (hname : t.name = resource.tenant_name) :
    Refused k resource s ↔ k.refuses s resource.user_name = true ∧
      userFound k resource t.id.val (s.usersIn t) ≠ true := by
  rw [Refused, Ne, userFound_iff ht]
  refine and_congr_right fun _ => ?_
  push Not
  constructor
  · rintro ⟨t', ht', hname', hnone⟩
    obtain rfl := List.inj_on_of_nodup_map s.tenant_names ht' ht (hname'.trans hname.symm)
    exact hnone
  · intro hnone
    exact ⟨t, ht, hname, hnone⟩

/-- A user who is refused is refused again. -/
theorem createUser_not_settles (h : Refused k resource s) :
    ¬ Settles (createUser k resource) s := by
  obtain ⟨t, ht, hname, -⟩ := h.2
  obtain ⟨hrefuses, hfound⟩ := (refused_iff ht hname).mp h
  obtain ⟨tenant_uuid, htenant⟩ := exists_tenantUuid (k := k) ht hname
  obtain ⟨t', ht', hname', rfl, hfind⟩ := tenant?_tenantUuid htenant
  obtain rfl := List.inj_on_of_nodup_map s.tenant_names ht' ht (hname'.trans hname.symm)
  have hexec : k.execute s (.userCreate resource.user_name t'.id.val resource.user_pass
      resource.user_enabled) = none := by
    rw [Keystone.execute, if_pos hrefuses]
  have hrun : createUser k resource ⟨s, []⟩ = (false, ⟨s, [.list .tenant,
      .list (.user (some t'.id.val)), .userCreate resource.user_name t'.id.val resource.user_pass
      resource.user_enabled]⟩) := by
    rw [createUser_eq, htenant]
    simp only [hfind, if_neg hfound]
    rw [issue, identityCommand, hexec]
    rfl
  intro hsettles
  rw [Settles, hrun, hrun] at hsettles
  have hissued := hsettles.issued (.userCreate resource.user_name t'.id.val resource.user_pass
    resource.user_enabled) (by simp)
  cases hissued

theorem createUser_settles (h : ¬ Refused k resource s) : Settles (createUser k resource) s := by
  cases htenant : tenantUuid k resource s with
  | none =>
    apply settles_of_quiet
    rw [createUser_eq, htenant]
    exact quiet_of_lists [.tenant]
  | some tenant_uuid =>
    obtain ⟨t, hmem, hname, rfl, ht⟩ := tenant?_tenantUuid htenant
    by_cases hfound : userFound k resource t.id.val (s.usersIn t) = true
    · exact settles_of_quiet (createUser_quiet htenant ht hfound)
    · have hrefuses : ¬ k.refuses s resource.user_name = true :=
        fun hrefuses => h ((refused_iff hmem hname).mpr ⟨hrefuses, hfound⟩)
      have hthere : ∃ u ∈ (k.createUser s resource.user_name t resource.user_pass
          resource.user_enabled).usersIn t, u.name = resource.user_name :=
        ⟨_, List.mem_filter.mpr ⟨List.mem_append_right _ (List.mem_singleton_self _),
          decide_eq_true (Or.inl rfl)⟩, rfl⟩
      obtain ⟨u, hu, huser⟩ := hthere
      have hfound' : userFound k resource t.id.val ((k.createUser s resource.user_name t
          resource.user_pass resource.user_enabled).usersIn t) = true :=
        (userFound_iff (s := k.createUser s _ t _ _) hmem).mpr ⟨u, hu, Or.inl huser⟩
      refine settles_of_state (k.createUser s resource.user_name t resource.user_pass
        resource.user_enabled) ?_ (createUser_quiet (t := t) htenant ht hfound')
      rw [createUser_eq, htenant]
      simp only [ht, if_neg hfound]
      apply issue_state (k.report _ s)
      rw [Keystone.execute, if_neg hrefuses, ht]
      rfl

end Users

section Grants

def userUuid (k : Keystone) (resource : Resource) (s : State) : Option String :=
  searchUuid (k.output (.user none) (s.users.map User.record)) "id"
    [("name", resource.user_name.val)]

/-- The role that a user is found to have in a tenant. -/
def assignedUuid (k : Keystone) (resource : Resource) (tenant_uuid user_uuid : String)
    (rows : List Record) : Option String :=
  searchUuid (k.output (.userRole tenant_uuid user_uuid) rows) "id"
    [("name", resource.role_name.val)]

/-- The listings of a run that comes to the grant. -/
def grantListings (tenant_uuid user_uuid : String) : List Listing :=
  [.tenant, .user none, .role, .userRole tenant_uuid user_uuid]

theorem grantRole_eq : grantRole k resource ⟨s, []⟩ =
    match tenantUuid k resource s with
    | none => (false, ⟨s, [.list .tenant]⟩)
    | some tenant_uuid =>
      let user_uuid := (userUuid k resource s).getD ""
      let w : World := ⟨s, (grantListings tenant_uuid user_uuid).map .list⟩
      match s.records (.userRole tenant_uuid user_uuid) with
      | none => (false, w)
      | some rows =>
        if roleUuid k resource s = assignedUuid k resource tenant_uuid user_uuid rows then
          (false, w)
        else
          issue k (.userRoleAdd tenant_uuid ((roleUuid k resource s).getD "") user_uuid) w := by
  rw [grantRole, identityUuid_eq rfl (by simp), ← tenantUuid]
  cases tenantUuid k resource s with
  | none => rfl
  | some tenant_uuid =>
    have huser (w : World) (hw : w.state = s) :
        identityUuid k resource (.user none) "name" resource.user_name.val w =
          (some (userUuid k resource s), ⟨s, w.issued ++ [.list (.user none)]⟩) := by
      subst hw
      exact identityUuid_eq rfl (by simp)
    have hrole (w : World) (hw : w.state = s) :
        identityUuid k resource .role "name" resource.role_name.val w =
          (some (roleUuid k resource s), ⟨s, w.issued ++ [.list .role]⟩) := by
      subst hw
      exact identityUuid_eq rfl (by simp)
    simp only [huser, hrole]
    cases hrows : s.records (.userRole tenant_uuid ((userUuid k resource s).getD "")) with
    | none =>
      rw [identityUuid_none hrows]
      rfl
    | some rows =>
      rw [identityUuid_eq hrows (by simp)]
      rfl

theorem records_userRole {tenant_uuid user_uuid : String} {t : Tenant} {u : User}
    (ht : s.tenant? tenant_uuid = some t) (hu : s.user? user_uuid = some u) :
    s.records (.userRole tenant_uuid user_uuid) =
      some ((s.rolesOf t u).map fun r : Role => ⟨[r.id, r.name, u.id, t.id], none⟩) := by
  rw [State.records, ht, hu]

theorem role_unique {r r' : Role} (hr : r ∈ s.roles) (hr' : r' ∈ s.roles)
    (hname : r.name = resource.role_name) (hname' : r'.name.val = resource.role_name.val) :
    r' = r :=
  List.inj_on_of_nodup_map s.role_names hr' hr ((Subtype.ext hname').trans hname.symm)

theorem roleUuid_eq {r : Role} (hr : r ∈ s.roles) (hname : r.name = resource.role_name) :
    roleUuid k resource s = some r.id.val :=
  found_eq (w := ⟨s, []⟩) rfl role_lists (fun _ => rfl) hr (congrArg Subtype.val hname)
    fun _ hr' hname' => role_unique hr hr' hname hname'

/-- The run for a grant that is there. -/
theorem grantRole_quiet {tenant_uuid : String}
    (htenant : tenantUuid k resource s = some tenant_uuid) {t : Tenant} {u : User}
    (ht : s.tenant? tenant_uuid = some t)
    (hu : s.user? ((userUuid k resource s).getD "") = some u) {r : Role} (hr : r ∈ s.roles)
    (hname : r.name = resource.role_name) (hgrant : ⟨t.id, r.id, u.id⟩ ∈ s.grants) :
    Quiet s (grantRole k resource ⟨s, []⟩) := by
  have hrows := records_userRole ht hu
  have hassigned := found_eq (k := k) (w := ⟨s, []⟩) hrows (userRole_lists _ _ t u) (fun _ => rfl)
    (List.mem_filter.mpr ⟨hr, decide_eq_true hgrant⟩) (congrArg Subtype.val hname)
    fun _ hr' hname' => role_unique hr (List.mem_of_mem_filter hr') hname hname'
  rw [grantRole_eq, htenant]
  simp only [hrows, roleUuid_eq hr hname, assignedUuid, hassigned, if_true]
  exact quiet_of_lists (grantListings _ _)

/-- A role that is not there is not found to be assigned either. -/
theorem exists_role {tenant_uuid user_uuid : String} {t : Tenant} {u : User}
    (hrows : s.records (.userRole tenant_uuid user_uuid) =
      some ((s.rolesOf t u).map fun r : Role => ⟨[r.id, r.name, u.id, t.id], none⟩))
    (hne : roleUuid k resource s ≠ assignedUuid k resource tenant_uuid user_uuid
      ((s.rolesOf t u).map fun r : Role => ⟨[r.id, r.name, u.id, t.id], none⟩)) :
    ∃ r ∈ s.roles, r.name = resource.role_name := by
  by_contra hnone
  have hrole : roleUuid k resource s = none := by
    by_contra hsome
    obtain ⟨v, hv⟩ := Option.ne_none_iff_exists'.mp hsome
    obtain ⟨r, hr, -, hname⟩ := of_found (w := ⟨s, []⟩) rfl role_lists (Or.inr fun _ => rfl) hv
    exact hnone ⟨r, hr, Subtype.ext hname⟩
  have hassigned : assignedUuid k resource tenant_uuid user_uuid
      ((s.rolesOf t u).map fun r : Role => ⟨[r.id, r.name, u.id, t.id], none⟩) = none := by
    by_contra hsome
    obtain ⟨v, hv⟩ := Option.ne_none_iff_exists'.mp hsome
    obtain ⟨r, hr, -, hname⟩ := of_found (w := ⟨s, []⟩) hrows (userRole_lists _ _ t u)
      (Or.inr fun _ => rfl) hv
    exact hnone ⟨r, List.mem_of_mem_filter hr, Subtype.ext hname⟩
  exact hne (hrole.trans hassigned.symm)

theorem role?_eq {r : Role} (hr : r ∈ s.roles) : s.role? r.id.val = some r :=
  find?_id s.role_ids hr

theorem grantRole_settles : Settles (grantRole k resource) s := by
  cases htenant : tenantUuid k resource s with
  | none =>
    apply settles_of_quiet
    rw [grantRole_eq, htenant]
    exact quiet_of_lists [.tenant]
  | some tenant_uuid =>
    have hnot (hrows : s.records (.userRole tenant_uuid ((userUuid k resource s).getD "")) = none) :
        Settles (grantRole k resource) s := by
      apply settles_of_quiet
      rw [grantRole_eq, htenant]
      simp only [hrows]
      exact quiet_of_lists (grantListings _ _)
    cases ht : s.tenant? tenant_uuid with
    | none => exact hnot (by rw [State.records, ht])
    | some t =>
      cases hu : s.user? ((userUuid k resource s).getD "") with
      | none => exact hnot (by rw [State.records, ht, hu])
      | some u =>
        have hrows := records_userRole ht hu
        by_cases hsame : roleUuid k resource s = assignedUuid k resource tenant_uuid
            ((userUuid k resource s).getD "")
            ((s.rolesOf t u).map fun r : Role => ⟨[r.id, r.name, u.id, t.id], none⟩)
        · apply settles_of_quiet
          rw [grantRole_eq, htenant]
          simp only [hrows, if_pos hsame]
          exact quiet_of_lists (grantListings _ _)
        · obtain ⟨r, hr, hname⟩ := exists_role hrows hsame
          by_cases hgrant : (⟨t.id, r.id, u.id⟩ : Grant) ∈ s.grants
          · exact settles_of_quiet (grantRole_quiet htenant ht hu hr hname hgrant)
          · refine settles_of_state { s with grants := s.grants ++ [⟨t.id, r.id, u.id⟩] }
              ?_ (grantRole_quiet (t := t) (u := u) (r := r) htenant ht hu hr hname
                (List.mem_append_right _ (List.mem_singleton_self _)))
            have hexec : k.execute s (.userRoleAdd tenant_uuid r.id.val
                ((userUuid k resource s).getD "")) = some (k.report (.userRoleAdd tenant_uuid
                r.id.val ((userUuid k resource s).getD "")) s,
                { s with grants := s.grants ++ [⟨t.id, r.id, u.id⟩] }) := by
              rw [Keystone.execute, ht, hu, role?_eq hr]
              simp only [if_neg hgrant]
            rw [grantRole_eq, htenant]
            simp only [hrows, if_neg hsame]
            rw [roleUuid_eq hr hname, Option.getD_some]
            exact issue_state _ hexec

end Grants

/-- The actions that register something. -/
inductive Action
  | createService
  | createEndpoint
  | createTenant
  | createRole
  | createUser
  | grantRole

def Action.run (k : Keystone) (templated : Bool) (resource : Resource) :
    Action → World → Bool × World
  | createService => Identity.createService k resource templated
  | createEndpoint => Identity.createEndpoint k resource templated
  | createTenant => Identity.createTenant k resource
  | createRole => Identity.createRole k resource
  | createUser => Identity.createUser k resource
  | grantRole => Identity.grantRole k resource

/-- Run again, an action leaves the state, issues listings only and reports no update, exactly if it
is not the creation of a user who is refused. -/
theorem registration_idempotent_iff (k : Keystone) (templated : Bool) (resource : Resource)
    (action : Action) (s : State) : Settles (action.run k templated resource) s ↔
      ¬ (action = .createUser ∧ Refused k resource s) := by
  cases action with
  | createService =>
    refine iff_of_true ?_ nofun
    cases templated with
    | true => exact settles_of_quiet (quiet_of_lists [])
    | false => exact createService_creates.settles
  | createEndpoint => exact iff_of_true (createEndpoint_settles templated) nofun
  | createTenant => exact iff_of_true createTenant_creates.settles nofun
  | createRole => exact iff_of_true createRole_creates.settles nofun
  | createUser =>
    rw [and_iff_right rfl]
    exact ⟨fun h hrefused => createUser_not_settles hrefused h, createUser_settles⟩
  | grantRole => exact iff_of_true grantRole_settles nofun

/-- A Keystone with two tenants and the user `nova` in the second one. -/
def elsewhere : State where
  services := []
  endpoints := []
  tenants := [⟨⟨"1", by decide⟩, ⟨"service", by decide⟩, "", true⟩,
    ⟨⟨"2", by decide⟩, ⟨"demo", by decide⟩, "", true⟩]
  users := [⟨⟨"3", by decide⟩, ⟨"nova", by decide⟩, ⟨"2", by decide⟩, "", "", true⟩]
  roles := []
  grants := []
  service_ids := by decide
  endpoint_ids := by decide
  tenant_ids := by decide
  tenant_names := by decide
  user_ids := by decide
  role_ids := by decide
  role_names := by decide

/-- The resource that creates `nova` in the first tenant. -/
def novaResource : Resource where
  service_type := .compute
  service_name := ⟨"nova", by decide⟩
  service_description := ""
  endpoint_region := regionOneCell
  endpoint_adminurl := emptyCell
  endpoint_internalurl := emptyCell
  endpoint_publicurl := emptyCell
  tenant_name := ⟨"service", by decide⟩
  tenant_description := ""
  tenant_enabled := true
  user_name := ⟨"nova", by decide⟩
  user_pass := "secret"
  user_enabled := true
  role_name := adminCell

theorem elsewhere_not_idempotent :
    ¬ Settles (Action.createUser.run Keystone.plain true novaResource) elsewhere := by
  show ¬ Settles (createUser Keystone.plain novaResource) elsewhere
  have hrefuses : Keystone.plain.refuses elsewhere novaResource.user_name = true := by decide
  have hnone : ∀ u ∈ elsewhere.usersIn ⟨⟨"1", by decide⟩, ⟨"service", by decide⟩, "", true⟩,
      u.name ≠ novaResource.user_name ∧
        (novaResource.user_name.val = "" → '\n' ∉ u.email.toList) := by decide
  exact createUser_not_settles ⟨hrefuses, _, List.mem_cons_self, rfl, hnone⟩

end CompassAdapters.Identity
