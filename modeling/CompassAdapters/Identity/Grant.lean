import CompassAdapters.Identity.Idempotence

/-! `grant_role` with what it logs, and when the log and the commands are true. -/
namespace CompassAdapters.Identity
open Ruby Openstack

section Action

/-- Keystone's tool, with what is printed for a refusal and what it does for want of a user: an
empty argument may be refused, or the roles of some other user are listed. -/
structure Tool where
  keystone : Keystone
  unnamed : State → String → Option String
  stderr : Command → State → String
  exitstatus : Command → State → ℕ

/-- What goes to the log of Chef. -/
inductive Message
  | tenantMissing
  | userMissing
  | roleMissing
  | alreadyGranted
  | granted
  | notGranted
  | reason (message : String)

def Message.isError : Message → Bool
  | alreadyGranted => false
  | granted => false
  | _ => true

def Message.text (resource : Resource) : Message → String
  | tenantMissing => "Unable to find tenant '" ++ resource.tenant_name.val ++ "'"
  | userMissing => "Unable to find user '" ++ resource.user_name.val ++ "'"
  | roleMissing => "Unable to find role '" ++ resource.role_name.val ++ "'"
  | alreadyGranted => "Role '" ++ resource.role_name.val ++ "' already granted to User '" ++
      resource.user_name.val ++ "' in Tenant '" ++ resource.tenant_name.val ++ "'"
  | granted => "Granted Role '" ++ resource.role_name.val ++ "' to User '" ++
      resource.user_name.val ++ "' in Tenant '" ++ resource.tenant_name.val ++ "'"
  | notGranted => "Unable to grant role '" ++ resource.role_name.val ++ "' to user '" ++
      resource.user_name.val ++ "'"
  | reason message => "Error was: " ++ message

/-- The end of an action. -/
structure Outcome where
  updated : Bool
  world : World
  logged : List Message

variable (tool : Tool) (resource : Resource)

/-- What a command prints, and the state it leaves. -/
def Tool.execute (s : State) : Command → Option (String × State)
  | .list (.userRole tenant_id "") => (tool.unnamed s tenant_id).map fun stdout => (stdout, s)
  | c => tool.keystone.execute s c

/-- `identity_command` with the message of its error. -/
def Tool.command (c : Command) (w : World) : Except String String × World :=
  let issued := w.issued ++ [c]
  match tool.execute w.state c with
  | some (stdout, state) => (.ok stdout, ⟨state, issued⟩)
  | none =>
    (.error (tool.stderr c w.state ++ " (" ++ toString (tool.exitstatus c w.state) ++ ")"),
      ⟨w.state, issued⟩)

/-- `identity_uuid` for anything but an endpoint, with the message of its error. -/
def Tool.uuid (type : String) (l : Listing) (key val : String) (w : World) :
    Except String (Option String) × World :=
  match tool.command (.list l) w with
  | (.error message, w) =>
    (.error ("Could not lookup uuid for " ++ type ++ ":" ++ key ++ "=>" ++ val ++
      ". Error was " ++ message), w)
  | (.ok output, w) => (.ok (searchUuid (prettytableToArray (some output)) "id" [(key, val)]), w)

/-- The `rescue` of the action. -/
def failed (message : String) (w : World) : Outcome := ⟨false, w, [.notGranted, .reason message]⟩

/-- The action `grant_role`. All three tests are for the tenant; an argument that is `nil` is
empty. -/
def grant (w : World) : Outcome :=
  match tool.uuid "tenant" .tenant "name" resource.tenant_name.val w with
  | (.error message, w) => failed message w
  | (.ok tenant_uuid, w) =>
    if tenant_uuid = none then ⟨false, w, [.tenantMissing]⟩
    else
      match tool.uuid "user" (.user none) "name" resource.user_name.val w with
      | (.error message, w) => failed message w
      | (.ok user_uuid, w) =>
        if tenant_uuid = none then ⟨false, w, [.userMissing]⟩
        else
          match tool.uuid "role" .role "name" resource.role_name.val w with
          | (.error message, w) => failed message w
          | (.ok role_uuid, w) =>
            if tenant_uuid = none then ⟨false, w, [.roleMissing]⟩
            else
              match tool.uuid "user-role" (.userRole (tenant_uuid.getD "") (user_uuid.getD ""))
                  "name" resource.role_name.val w with
              | (.error message, w) => failed message w
              | (.ok assigned_role_uuid, w) =>
                if role_uuid = assigned_role_uuid then ⟨false, w, [.alreadyGranted]⟩
                else
                  match tool.command (.userRoleAdd (tenant_uuid.getD "") (role_uuid.getD "")
                      (user_uuid.getD "")) w with
                  | (.error message, w) => failed message w
                  | (.ok _, w) => ⟨true, w, [.granted]⟩

end Action

section Runs

variable {tool : Tool} {resource : Resource} {s : State}

theorem execute_list {l : Listing} (hl : ∀ tenant_id, l ≠ .userRole tenant_id "") :
    tool.execute s (.list l) = tool.keystone.execute s (.list l) := by
  unfold Tool.execute
  split
  next tenant_id heq => exact absurd (Command.list.inj heq) (hl tenant_id)
  next => rfl

variable (tool) in
/-- A command is issued, whatever comes of it. -/
theorem command_issued (c : Command) (w : World) :
    (tool.command c w).2.issued = w.issued ++ [c] := by
  rw [Tool.command]
  cases tool.execute w.state c <;> rfl

/-- What a listing that is printed yields. -/
theorem uuid_eq {type : String} {l : Listing} {key val : String} {w : World} {rows : List Record}
    (hl : ∀ tenant_id, l ≠ .userRole tenant_id "") (h : w.state.records l = some rows) :
    tool.uuid type l key val w =
      (.ok (searchUuid (tool.keystone.output l rows) "id" [(key, val)]),
        ⟨w.state, w.issued ++ [.list l]⟩) := by
  rw [Tool.uuid, Tool.command, execute_list hl, Keystone.execute, h]
  rfl

theorem uuid_refused {type : String} {l : Listing} {key val : String} {w : World}
    (h : tool.execute w.state (.list l) = none) :
    ∃ message, tool.uuid type l key val w =
      (.error message, ⟨w.state, w.issued ++ [.list l]⟩) := by
  rw [Tool.uuid, Tool.command, h]
  exact ⟨_, rfl⟩

theorem uuid_printed {type : String} {l : Listing} {key val : String} {w : World}
    {stdout : String} (h : tool.execute w.state (.list l) = some (stdout, w.state)) :
    ∃ found, tool.uuid type l key val w = (.ok found, ⟨w.state, w.issued ++ [.list l]⟩) := by
  rw [Tool.uuid, Tool.command, h]
  exact ⟨_, rfl⟩

/-- The end of the action where the role is not assigned. -/
def add (tool : Tool) (c : Command) (w : World) : Outcome :=
  match tool.command c w with
  | (.error message, w) => failed message w
  | (.ok _, w) => ⟨true, w, [.granted]⟩

theorem add_issued (c : Command) (w : World) :
    (add tool c w).world.issued = w.issued ++ [c] := by
  rw [← command_issued tool, add]
  rcases tool.command c w with ⟨message | stdout, w'⟩ <;> rfl

theorem add_logged (c : Command) (w : World) : .alreadyGranted ∉ (add tool c w).logged := by
  rw [add]
  rcases tool.command c w with ⟨message | stdout, w'⟩ <;> simp [failed]

/-- The end of the action, after the three lookups. -/
def assign (tool : Tool) (resource : Resource) (tenant_uuid user_uuid : String)
    (role_uuid : Option String) (w : World) : Outcome :=
  match tool.uuid "user-role" (.userRole tenant_uuid user_uuid) "name" resource.role_name.val w with
  | (.error message, w) => failed message w
  | (.ok assigned_role_uuid, w) =>
    if role_uuid = assigned_role_uuid then ⟨false, w, [.alreadyGranted]⟩
    else add tool (.userRoleAdd tenant_uuid (role_uuid.getD "") user_uuid) w

theorem grant_eq : grant tool resource ⟨s, []⟩ =
    match tenantUuid tool.keystone resource s with
    | none => ⟨false, ⟨s, [.list .tenant]⟩, [.tenantMissing]⟩
    | some tenant_uuid =>
      assign tool resource tenant_uuid ((userUuid tool.keystone resource s).getD "")
        (roleUuid tool.keystone resource s)
        ⟨s, [.list .tenant, .list (.user none), .list .role]⟩ := by
  rw [grant, uuid_eq (by simp) rfl, ← tenantUuid]
  cases tenantUuid tool.keystone resource s with
  | none => rfl
  | some tenant_uuid =>
    have huser : tool.uuid "user" (.user none) "name" resource.user_name.val
        ⟨s, [.list .tenant]⟩ = (.ok (userUuid tool.keystone resource s),
          ⟨s, [.list .tenant, .list (.user none)]⟩) := uuid_eq (by simp) rfl
    have hrole : tool.uuid "role" .role "name" resource.role_name.val
        ⟨s, [.list .tenant, .list (.user none)]⟩ = (.ok (roleUuid tool.keystone resource s),
          ⟨s, [.list .tenant, .list (.user none), .list .role]⟩) := uuid_eq (by simp) rfl
    simp only [List.nil_append, huser, hrole, reduceCtorEq, if_false, Option.getD_some]
    rfl

section Assign

variable {tenant_uuid user_uuid : String} {role_uuid : Option String} {w : World}

theorem assign_of_records {rows : List Record} (huser : user_uuid ≠ "")
    (h : w.state.records (.userRole tenant_uuid user_uuid) = some rows) :
    assign tool resource tenant_uuid user_uuid role_uuid w =
      let w : World := ⟨w.state, w.issued ++ [.list (.userRole tenant_uuid user_uuid)]⟩
      if role_uuid = assignedUuid tool.keystone resource tenant_uuid user_uuid rows then
        ⟨false, w, [.alreadyGranted]⟩
      else add tool (.userRoleAdd tenant_uuid (role_uuid.getD "") user_uuid) w := by
  have hl : ∀ tenant_id, Listing.userRole tenant_uuid user_uuid ≠ .userRole tenant_id "" := by
    intro tenant_id heq
    exact huser (Listing.userRole.inj heq).2
  rw [assign, uuid_eq hl h]
  rfl

variable (resource role_uuid) in
/-- Without a user the tool may refuse. -/
theorem assign_refused (h : tool.unnamed w.state tenant_uuid = none) :
    ∃ message, assign tool resource tenant_uuid "" role_uuid w =
      failed message ⟨w.state, w.issued ++ [.list (.userRole tenant_uuid "")]⟩ := by
  have hexec : tool.execute w.state (.list (.userRole tenant_uuid "")) = none := by
    rw [Tool.execute, h]
    rfl
  obtain ⟨message, huuid⟩ := uuid_refused hexec
  rw [assign, huuid]
  exact ⟨message, rfl⟩

variable (resource role_uuid) in
/-- If it does not, there is a report or a command. -/
theorem assign_unnamed {stdout : String} (h : tool.unnamed w.state tenant_uuid = some stdout) :
    .alreadyGranted ∈ (assign tool resource tenant_uuid "" role_uuid w).logged ∨
      ∃ role_id, .userRoleAdd tenant_uuid role_id "" ∈
        (assign tool resource tenant_uuid "" role_uuid w).world.issued := by
  have hexec : tool.execute w.state (.list (.userRole tenant_uuid "")) =
      some (stdout, w.state) := by
    rw [Tool.execute, h]
    rfl
  obtain ⟨assigned, huuid⟩ := uuid_printed hexec
  rw [assign, huuid]
  dsimp only
  by_cases hsame : role_uuid = assigned
  · rw [if_pos hsame]
    exact Or.inl (List.mem_singleton_self _)
  · rw [if_neg hsame, add_issued]
    exact Or.inr ⟨role_uuid.getD "", List.mem_append_right _ (List.mem_singleton_self _)⟩

end Assign

section Unlogged

variable (h : ∀ s tenant_id, tool.unnamed s tenant_id =
  (tool.keystone.execute s (.list (.userRole tenant_id ""))).map Prod.fst)
include h

theorem execute_eq (s : State) (c : Command) : tool.execute s c = tool.keystone.execute s c := by
  unfold Tool.execute
  split
  next tenant_id =>
    rw [h, Keystone.execute]
    cases s.records (.userRole tenant_id "") <;> rfl
  next => rfl

theorem command_eq (c : Command) (w : World) :
    ((tool.command c w).1.toOption, (tool.command c w).2) = identityCommand tool.keystone c w := by
  rw [Tool.command, identityCommand, execute_eq h]
  cases tool.keystone.execute w.state c <;> rfl

theorem uuid_eq_identityUuid (type : String) (l : Listing) (hl : l ≠ .endpoint) (key val : String)
    (w : World) : ((tool.uuid type l key val w).1.toOption, (tool.uuid type l key val w).2) =
      identityUuid tool.keystone resource l key val w := by
  unfold Tool.uuid identityUuid
  rw [← command_eq h]
  rcases tool.command (.list l) w with ⟨message | stdout, w'⟩
  · rfl
  · cases l with
    | endpoint => exact absurd rfl hl
    | _ => rfl

/-- The action is `grantRole` where an empty argument for the user is looked up like any other. -/
theorem grant_eq_grantRole (w : World) :
    ((grant tool resource w).updated, (grant tool resource w).world) =
      grantRole tool.keystone resource w := by
  rw [grant, grantRole, ← uuid_eq_identityUuid h "tenant" _ (by simp)]
  rcases tool.uuid "tenant" .tenant "name" _ w with ⟨message | tenant_uuid, w₁⟩
  · rfl
  cases tenant_uuid with
  | none => rfl
  | some tenant_uuid =>
    simp only [Except.toOption, reduceCtorEq, if_false, Option.getD_some]
    rw [← uuid_eq_identityUuid h "user" _ (by simp)]
    rcases tool.uuid "user" (.user none) "name" _ w₁ with ⟨message | user_uuid, w₂⟩
    · rfl
    simp only [Except.toOption]
    rw [← uuid_eq_identityUuid h "role" _ (by simp)]
    rcases tool.uuid "role" .role "name" _ w₂ with ⟨message | role_uuid, w₃⟩
    · rfl
    simp only [Except.toOption]
    rw [← uuid_eq_identityUuid h "user-role" _ (by simp)]
    rcases tool.uuid "user-role" (.userRole tenant_uuid _) "name" _ w₃ with ⟨message | assigned, w₄⟩
    · rfl
    simp only [Except.toOption]
    by_cases hsame : role_uuid = assigned
    · rw [if_pos hsame, if_pos hsame]
    · rw [if_neg hsame, if_neg hsame, issue, ← command_eq h]
      rcases tool.command (.userRoleAdd tenant_uuid _ _) w₄ with ⟨message | stdout, w₅⟩ <;> rfl

end Unlogged

end Runs

section Honesty

/-- Names and identifiers of users are not empty in Keystone. -/
structure NamedState extends State where
  user_named : ∀ u ∈ users, u.name.val ≠ ""
  user_identified : ∀ u ∈ users, u.id.val ≠ ""

def HasTenant (resource : Resource) (s : State) : Prop :=
  ∃ t ∈ s.tenants, t.name = resource.tenant_name

def HasUser (resource : Resource) (s : State) : Prop := ∃ u ∈ s.users, u.name = resource.user_name

def HasRole (resource : Resource) (s : State) : Prop := ∃ r ∈ s.roles, r.name = resource.role_name

/-- The commands and the log are true: roles are added with the identifiers of what is named, a
grant that is reported is there, and where something is missing there is an error and no change. -/
structure Honest (resource : Resource) (s : State) (out : Outcome) : Prop where
  issued : ∀ tenant_id role_id user_id, .userRoleAdd tenant_id role_id user_id ∈ out.world.issued →
    (∃ t ∈ s.tenants, t.name = resource.tenant_name ∧ t.id.val = tenant_id) ∧
      (∃ r ∈ s.roles, r.name = resource.role_name ∧ r.id.val = role_id) ∧
      ∃ u ∈ s.users, u.name = resource.user_name ∧ u.id.val = user_id
  reported : .alreadyGranted ∈ out.logged →
    ∃ t ∈ s.tenants, ∃ r ∈ s.roles, ∃ u ∈ s.users, t.name = resource.tenant_name ∧
      r.name = resource.role_name ∧ u.name = resource.user_name ∧ ⟨t.id, r.id, u.id⟩ ∈ s.grants
  missing : ¬ HasTenant resource s ∨ ¬ HasUser resource s ∨ ¬ HasRole resource s →
    out.world.state = s ∧ ∃ m ∈ out.logged, m.isError = true

variable {tool : Tool} {resource : Resource} {s : State}

theorem tenantUuid_eq {k : Keystone} {t : Tenant} (ht : t ∈ s.tenants)
    (hname : t.name = resource.tenant_name) : tenantUuid k resource s = some t.id.val :=
  found_eq (w := ⟨s, []⟩) rfl tenant_lists (fun _ => rfl) ht (congrArg Subtype.val hname)
    fun _ ht' hname' => List.inj_on_of_nodup_map s.tenant_names ht' ht
      ((Subtype.ext hname').trans hname.symm)

theorem tenantUuid_eq_none {k : Keystone} (h : ¬ HasTenant resource s) :
    tenantUuid k resource s = none := by
  by_contra hsome
  obtain ⟨v, hv⟩ := Option.ne_none_iff_exists'.mp hsome
  obtain ⟨t, ht, -, hname⟩ := of_found (w := ⟨s, []⟩) rfl tenant_lists (Or.inr fun _ => rfl) hv
  exact h ⟨t, ht, Subtype.ext hname⟩

/-- A user of the name is found. -/
theorem NamedState.userUuid_eq {k : Keystone} (s : NamedState) (h : HasUser resource s.toState) :
    ∃ u ∈ s.users, u.name = resource.user_name ∧
      userUuid k resource s.toState = some u.id.val := by
  obtain ⟨u, hu, hname⟩ := h
  have hval : u.name.val = resource.user_name.val := congrArg Subtype.val hname
  obtain ⟨v, hv⟩ := exists_found (k := k) (w := ⟨s.toState, []⟩) rfl (user_lists none) hu hval
  obtain ⟨u', hu', hid, hname'⟩ := of_found (w := ⟨s.toState, []⟩) rfl (user_lists none)
    (Or.inl (hval ▸ s.user_named u hu)) hv
  exact ⟨u', hu', Subtype.ext hname', hid ▸ hv⟩

/-- Without such a user nothing is found, or an empty line of some other text. -/
theorem userUuid_getD {k : Keystone} (h : ¬ HasUser resource s) :
    (userUuid k resource s).getD "" = "" := by
  cases hv : userUuid k resource s with
  | none => rfl
  | some v =>
    obtain ⟨obj, hobj, hmatch, hvalue⟩ := of_searchUuid hv
    obtain ⟨u, hu, ⟨hid, hkey⟩ | ⟨-, hid, -⟩⟩ :=
      output_value (w := ⟨s, []⟩) rfl (user_lists none) hobj
    · have hname := hkey.symm.trans ((matches_single hid).mp hmatch)
      exact absurd ⟨u, hu, Subtype.ext (Option.some.inj hname)⟩ h
    · exact (Option.some.inj (hid.symm.trans hvalue)).symm

theorem honest_of_no_tenant (h : ¬ HasTenant resource s) :
    Honest resource s (grant tool resource ⟨s, []⟩) := by
  rw [grant_eq, tenantUuid_eq_none h]
  refine ⟨?_, ?_, ?_⟩
  · intro tenant_id role_id user_id hmem
    simp at hmem
  · intro hmem
    simp at hmem
  · intro _
    exact ⟨rfl, .tenantMissing, List.mem_singleton_self _, rfl⟩

/-- The run for a tenant that there is. -/
theorem grant_of_tenant {t : Tenant} (ht : t ∈ s.tenants) (hname : t.name = resource.tenant_name) :
    grant tool resource ⟨s, []⟩ =
      assign tool resource t.id.val ((userUuid tool.keystone resource s).getD "")
        (roleUuid tool.keystone resource s)
        ⟨s, [.list .tenant, .list (.user none), .list .role]⟩ := by
  rw [grant_eq, tenantUuid_eq ht hname]

theorem honest_of_refused {t : Tenant} (ht : t ∈ s.tenants) (hname : t.name = resource.tenant_name)
    (huser : ¬ HasUser resource s) (h : tool.unnamed s t.id.val = none) :
    Honest resource s (grant tool resource ⟨s, []⟩) := by
  rw [grant_of_tenant ht hname, userUuid_getD huser]
  obtain ⟨message, hrefused⟩ := assign_refused resource (roleUuid tool.keystone resource s)
    (w := ⟨s, [.list .tenant, .list (.user none), .list .role]⟩) h
  rw [hrefused]
  refine ⟨?_, ?_, ?_⟩
  · intro tenant_id role_id user_id hmem
    simp [failed] at hmem
  · intro hmem
    simp [failed] at hmem
  · intro _
    exact ⟨rfl, .notGranted, List.mem_cons_self, rfl⟩

theorem not_honest_of_unnamed {t : Tenant} (ht : t ∈ s.tenants)
    (hname : t.name = resource.tenant_name) (huser : ¬ HasUser resource s) {stdout : String}
    (h : tool.unnamed s t.id.val = some stdout) :
    ¬ Honest resource s (grant tool resource ⟨s, []⟩) := by
  rw [grant_of_tenant ht hname, userUuid_getD huser]
  intro hhonest
  rcases assign_unnamed resource (roleUuid tool.keystone resource s)
    (w := ⟨s, [.list .tenant, .list (.user none), .list .role]⟩) h with hlogged | ⟨role_id, hmem⟩
  · obtain ⟨-, -, -, -, u, hu, -, -, hname', -⟩ := hhonest.reported hlogged
    exact huser ⟨u, hu, hname'⟩
  · obtain ⟨-, -, u, hu, hname', -⟩ := hhonest.issued _ _ _ hmem
    exact huser ⟨u, hu, hname'⟩

section Named

variable {s : NamedState}

variable (tool) in
/-- The run for a tenant and a user that there are. -/
theorem grant_of_user {t : Tenant} (ht : t ∈ s.tenants) (hname : t.name = resource.tenant_name)
    (huser : HasUser resource s.toState) :
    ∃ u ∈ s.users, u.name = resource.user_name ∧
      grant tool resource ⟨s.toState, []⟩ =
        let w : World := ⟨s.toState, (grantListings t.id.val u.id.val).map .list⟩
        if roleUuid tool.keystone resource s.toState =
            assignedUuid tool.keystone resource t.id.val u.id.val
              ((s.rolesOf t u).map fun r : Role => ⟨[r.id, r.name, u.id, t.id], none⟩) then
          ⟨false, w, [.alreadyGranted]⟩
        else
          add tool (.userRoleAdd t.id.val ((roleUuid tool.keystone resource s.toState).getD "")
            u.id.val) w := by
  obtain ⟨u, hu, hname', huuid⟩ := s.userUuid_eq (k := tool.keystone) huser
  refine ⟨u, hu, hname', ?_⟩
  have hrows := records_userRole (s := s.toState) (find?_id s.tenant_ids ht)
    (find?_id s.user_ids hu)
  rw [grant_of_tenant ht hname, huuid, Option.getD_some,
    assign_of_records (s.user_identified u hu) hrows]
  rfl

/-- A role that is not there is reported as granted. -/
theorem not_honest_of_no_role {t : Tenant} (ht : t ∈ s.tenants)
    (hname : t.name = resource.tenant_name) (huser : HasUser resource s.toState)
    (hrole : ¬ HasRole resource s.toState) :
    ¬ Honest resource s.toState (grant tool resource ⟨s.toState, []⟩) := by
  obtain ⟨u, hu, -, hgrant⟩ := grant_of_user tool ht hname huser
  have hrows := records_userRole (s := s.toState) (find?_id s.tenant_ids ht)
    (find?_id s.user_ids hu)
  have hsame : roleUuid tool.keystone resource s.toState =
      assignedUuid tool.keystone resource t.id.val u.id.val
        ((s.rolesOf t u).map fun r : Role => ⟨[r.id, r.name, u.id, t.id], none⟩) := by
    by_contra hne
    exact hrole (exists_role hrows hne)
  rw [hgrant]
  dsimp only
  rw [if_pos hsame]
  intro hhonest
  obtain ⟨-, -, r, hr, -, -, -, hname', -⟩ := hhonest.reported (List.mem_singleton_self _)
  exact hrole ⟨r, hr, hname'⟩

theorem honest_of_all {t : Tenant} (ht : t ∈ s.tenants) (hname : t.name = resource.tenant_name)
    (huser : HasUser resource s.toState) (hrole : HasRole resource s.toState) :
    Honest resource s.toState (grant tool resource ⟨s.toState, []⟩) := by
  obtain ⟨u, hu, huname, hgrant⟩ := grant_of_user tool ht hname huser
  obtain ⟨r, hr, hrname⟩ := hrole
  have hrows := records_userRole (s := s.toState) (find?_id s.tenant_ids ht)
    (find?_id s.user_ids hu)
  have hmissing (out : Outcome) : ¬ HasTenant resource s.toState ∨ ¬ HasUser resource s.toState ∨
      ¬ HasRole resource s.toState →
        out.world.state = s.toState ∧ ∃ m ∈ out.logged, m.isError = true := by
    rintro (hno | hno | hno)
    · exact absurd ⟨t, ht, hname⟩ hno
    · exact absurd huser hno
    · exact absurd ⟨r, hr, hrname⟩ hno
  rw [hgrant]
  dsimp only
  rw [roleUuid_eq hr hrname, Option.getD_some]
  split
  next hsame =>
    refine ⟨?_, ?_, hmissing _⟩
    · intro tenant_id role_id user_id hmem
      simp [grantListings] at hmem
    · intro _
      -- the role that is listed for the user is the one of the name
      obtain ⟨r', hr', -, hrname'⟩ := of_found (w := ⟨s.toState, []⟩) hrows
        (userRole_lists _ _ t u) (Or.inr fun _ => rfl) hsame.symm
      obtain rfl := role_unique hr (List.mem_of_mem_filter hr') hrname hrname'
      have hgranted : ⟨t.id, r'.id, u.id⟩ ∈ s.grants :=
        of_decide_eq_true (List.mem_filter.mp hr').2
      exact ⟨t, ht, r', hr, u, hu, hname, hrname, huname, hgranted⟩
  next hne =>
    refine ⟨?_, fun hlogged => absurd hlogged (add_logged _ _), hmissing _⟩
    intro tenant_id role_id user_id hmem
    rw [add_issued, List.mem_append, List.mem_singleton] at hmem
    rcases hmem with hmem | hmem
    · simp [grantListings] at hmem
    · obtain ⟨rfl, rfl, rfl⟩ := Command.userRoleAdd.inj hmem
      exact ⟨⟨t, ht, hname, rfl⟩, ⟨r, hr, hrname, rfl⟩, ⟨u, hu, huname, rfl⟩⟩

/-- The action is honest if and only if, where there is the tenant, a user that there is comes with
a role that there is, and one that there is not is refused by the tool. -/
theorem grant_honest_iff (tool : Tool) (resource : Resource) (s : NamedState) :
    Honest resource s.toState (grant tool resource ⟨s.toState, []⟩) ↔
      ∀ t ∈ s.tenants, t.name = resource.tenant_name →
        (HasUser resource s.toState → HasRole resource s.toState) ∧
          (¬ HasUser resource s.toState → tool.unnamed s.toState t.id.val = none) := by
  by_cases htenant : HasTenant resource s.toState
  · obtain ⟨t, ht, hname⟩ := htenant
    have honly (t' : Tenant) (ht' : t' ∈ s.tenants) (hname' : t'.name = resource.tenant_name) :
        t' = t := List.inj_on_of_nodup_map s.tenant_names ht' ht (hname'.trans hname.symm)
    constructor
    · intro hhonest t' ht' hname'
      obtain rfl := honly t' ht' hname'
      constructor
      · intro huser
        by_contra hrole
        exact not_honest_of_no_role ht hname huser hrole hhonest
      · intro huser
        cases hout : tool.unnamed s.toState t'.id.val with
        | none => rfl
        | some stdout => exact absurd hhonest (not_honest_of_unnamed ht hname huser hout)
    · intro h
      obtain ⟨hrole, hrefused⟩ := h t ht hname
      by_cases huser : HasUser resource s.toState
      · exact honest_of_all ht hname huser (hrole huser)
      · exact honest_of_refused ht hname huser (hrefused huser)
  · refine iff_of_true (honest_of_no_tenant htenant) ?_
    intro t ht hname
    exact absurd ⟨t, ht, hname⟩ htenant

end Named

theorem adminCell_ne_empty : adminCell.val ≠ "" := by decide

/-- A tenant and a user, and no role. -/
def roleless : NamedState where
  services := []
  endpoints := []
  tenants := [⟨adminCell, adminCell, "", true⟩]
  users := [⟨adminCell, adminCell, adminCell, "", "", true⟩]
  roles := []
  grants := []
  service_ids := List.nodup_nil
  endpoint_ids := List.nodup_nil
  tenant_ids := List.nodup_singleton adminCell
  tenant_names := List.nodup_singleton adminCell
  user_ids := List.nodup_singleton adminCell
  role_ids := List.nodup_nil
  role_names := List.nodup_nil
  user_named := List.forall_mem_singleton.mpr adminCell_ne_empty
  user_identified := List.forall_mem_singleton.mpr adminCell_ne_empty

def adminGrant : Resource :=
  ⟨.identity, adminCell, "", adminCell, adminCell, adminCell, adminCell, adminCell, "", true,
    adminCell, "", true, adminCell⟩

/-- A tool that refuses an empty argument. -/
def strictTool : Tool := ⟨Keystone.plain, fun _ _ => none, fun _ _ => "", fun _ _ => 1⟩

theorem roleless_not_honest : ¬ Honest adminGrant roleless.toState
    (grant strictTool adminGrant ⟨roleless.toState, []⟩) := by
  apply not_honest_of_no_role (s := roleless) (List.mem_singleton_self _) rfl
  · exact ⟨_, List.mem_singleton_self _, rfl⟩
  · rintro ⟨r, hr, -⟩
    cases hr

end Honesty

end CompassAdapters.Identity
