import CompassAdapters.Openstack.PrettyTable

/-! `register.rb`: services, endpoints, tenants, users, roles and grants are registered with
Keystone through its command line tool. -/
namespace CompassAdapters.Identity
open Ruby Openstack

section Keystone

structure Service where
  id : Cell
  name : Cell
  type : Cell
  description : String

structure Endpoint where
  id : Cell
  region : Cell
  publicurl : Cell
  internalurl : Cell
  adminurl : Cell
  service_id : Cell

structure Tenant where
  id : Cell
  name : Cell
  description : String
  enabled : Bool

structure User where
  id : Cell
  name : Cell
  tenant_id : Cell
  pass : String
  email : String
  enabled : Bool

structure Role where
  id : Cell
  name : Cell

structure Grant where
  tenant_id : Cell
  role_id : Cell
  user_id : Cell
  deriving DecidableEq

/-- What Keystone holds. Identifiers are unique, and so are the names of tenants and roles. -/
structure State where
  services : List Service
  endpoints : List Endpoint
  tenants : List Tenant
  users : List User
  roles : List Role
  grants : List Grant
  service_ids : (services.map Service.id).Nodup
  endpoint_ids : (endpoints.map Endpoint.id).Nodup
  tenant_ids : (tenants.map Tenant.id).Nodup
  tenant_names : (tenants.map Tenant.name).Nodup
  user_ids : (users.map User.id).Nodup
  role_ids : (roles.map Role.id).Nodup
  role_names : (roles.map Role.name).Nodup

inductive Listing
  | service
  | endpoint
  | tenant
  | role
  | user (tenant_id : Option String)
  | userRole (tenant_id user_id : String)

inductive Command
  | list (l : Listing)
  | serviceCreate (type name : Cell) (description : String)
  | endpointCreate (region : Cell) (service_id : String) (publicurl internalurl adminurl : Cell)
  | tenantCreate (name : Cell) (description : String) (enabled : Bool)
  | roleCreate (name : Cell)
  | userCreate (name : Cell) (tenant_id pass : String) (enabled : Bool)
  | userRoleAdd (tenant_id role_id user_id : String)

/-- Whether a command creates or adds something. -/
def Command.isChange : Command → Bool
  | list _ => false
  | _ => true

def Listing.header : Listing → List Cell
  | service => ["id", "name", "type", "description"].attachWith Clean (by decide)
  | endpoint => ["id", "region", "publicurl", "internalurl", "adminurl", "service_id"].attachWith
      Clean (by decide)
  | tenant => ["id", "name", "enabled"].attachWith Clean (by decide)
  | role => ["id", "name"].attachWith Clean (by decide)
  | user _ => ["id", "name", "enabled", "email"].attachWith Clean (by decide)
  | userRole _ _ => ["id", "name", "user_id", "tenant_id"].attachWith Clean (by decide)

def enabledCell : Bool → Cell
  | true => ⟨"True", by decide⟩
  | false => ⟨"False", by decide⟩

def adminCell : Cell := ⟨"admin", by decide⟩

def regionOneCell : Cell := ⟨"RegionOne", by decide⟩

def Service.record (s : Service) : Record := ⟨[s.id, s.name, s.type], some s.description⟩

def Endpoint.record (e : Endpoint) : Record :=
  ⟨[e.id, e.region, e.publicurl, e.internalurl, e.adminurl, e.service_id], none⟩

def Tenant.record (t : Tenant) : Record := ⟨[t.id, t.name, enabledCell t.enabled], none⟩

def User.record (u : User) : Record := ⟨[u.id, u.name, enabledCell u.enabled], some u.email⟩

def Role.record (r : Role) : Record := ⟨[r.id, r.name], none⟩

namespace State

variable (s : State)

def tenant? (id : String) : Option Tenant := s.tenants.find? fun t => t.id.val = id

def user? (id : String) : Option User := s.users.find? fun u => u.id.val = id

def role? (id : String) : Option Role := s.roles.find? fun r => r.id.val = id

/-- The users that are created in a tenant or have a role there. -/
def usersIn (t : Tenant) : List User :=
  s.users.filter fun u => decide (u.tenant_id = t.id ∨
    ∃ g ∈ s.grants, g.tenant_id = t.id ∧ g.user_id = u.id)

def rolesOf (t : Tenant) (u : User) : List Role :=
  s.roles.filter fun r => decide (⟨t.id, r.id, u.id⟩ ∈ s.grants)

/-- What a listing shows; there is none for a tenant or a user that does not exist. -/
def records : Listing → Option (List Record)
  | .service => some (s.services.map Service.record)
  | .endpoint => some (s.endpoints.map Endpoint.record)
  | .tenant => some (s.tenants.map Tenant.record)
  | .role => some (s.roles.map Role.record)
  | .user none => some (s.users.map User.record)
  | .user (some tenant_id) =>
    (s.tenant? tenant_id).map fun t => (s.usersIn t).map User.record
  | .userRole tenant_id user_id =>
    match s.tenant? tenant_id, s.user? user_id with
    | some t, some u =>
      some ((s.rolesOf t u).map fun r => ⟨[r.id, r.name, u.id, t.id], none⟩)
    | _, _ => none

end State

/-- What is left to Keystone: how a table looks, what else is printed, new identifiers, and whether
it refuses a user of a name that another one has. -/
structure Keystone where
  print : List Cell → List Record → String
  prints : ∀ (l : Listing) (rows : List Record), (∀ r ∈ rows, r.Fits l.header) →
    Prints l.header rows (print l.header rows)
  report : Command → State → String
  newId : List Cell → Cell
  fresh : ∀ ids, newId ids ∉ ids
  refuses : State → Cell → Bool
  refuses_taken : ∀ s name, refuses s name = true → name ∈ s.users.map User.name

theorem clean_replicate (n : ℕ) : Clean (String.ofList (List.replicate n 'x')) := by
  refine ⟨by simp [List.mem_replicate], by simp [List.mem_replicate], ?_⟩
  rw [String.toList_ofList]
  cases n with
  | zero => rfl
  | succ n =>
    rw [List.replicate_succ, Text.strip_cons (by decide), List.cons_inj_right]
    cases n with
    | zero => rfl
    | succ n => rw [List.replicate_succ', Text.rstrip_concat (by decide)]

def totalLength (ids : List Cell) : ℕ := ids.foldr (fun id n => id.val.length + n) 0

theorem length_le_totalLength {ids : List Cell} {id : Cell} (h : id ∈ ids) :
    id.val.length ≤ totalLength ids := by
  induction ids with
  | nil => cases h
  | cons id' ids ih =>
    show id.val.length ≤ id'.val.length + totalLength ids
    rcases List.mem_cons.mp h with rfl | h
    · omega
    · have hle := ih h
      omega

/-- A Keystone that does not align its tables, makes ever longer identifiers and refuses the names
that are taken. -/
def Keystone.plain : Keystone where
  print := plainTable
  prints l rows hrows := prints_plainTable (by cases l <;> exact List.cons_ne_nil _ _) hrows
  report _ _ := ""
  newId ids := ⟨_, clean_replicate (totalLength ids + 1)⟩
  fresh ids hmem := by
    have hle := length_le_totalLength hmem
    rw [String.length_ofList, List.length_replicate] at hle
    omega
  refuses s name := decide (name ∈ s.users.map User.name)
  refuses_taken _ _ h := of_decide_eq_true h

instance instInhabitedKeystone : Inhabited Keystone := ⟨Keystone.plain⟩

theorem nodup_map_concat {α β : Type*} {f : α → β} {xs : List α} (hxs : (xs.map f).Nodup) {x : α}
    (hx : f x ∉ xs.map f) : ((xs ++ [x]).map f).Nodup := by
  rw [List.map_append, List.map_singleton, ← List.concat_eq_append]
  exact hxs.concat hx

namespace Keystone

variable (k : Keystone) (s : State)

def createService (type name : Cell) (description : String) : State :=
  { s with
    services := s.services ++ [⟨k.newId (s.services.map Service.id), name, type, description⟩]
    service_ids := nodup_map_concat s.service_ids (k.fresh _) }

def createEndpoint (region : Cell) (service : Service) (publicurl internalurl adminurl : Cell) :
    State :=
  { s with
    endpoints := s.endpoints ++ [⟨k.newId (s.endpoints.map Endpoint.id), region, publicurl,
      internalurl, adminurl, service.id⟩]
    endpoint_ids := nodup_map_concat s.endpoint_ids (k.fresh _) }

def createTenant (name : Cell) (hname : name ∉ s.tenants.map Tenant.name) (description : String)
    (enabled : Bool) : State :=
  { s with
    tenants := s.tenants ++ [⟨k.newId (s.tenants.map Tenant.id), name, description, enabled⟩]
    tenant_ids := nodup_map_concat s.tenant_ids (k.fresh _)
    tenant_names := nodup_map_concat s.tenant_names hname }

def createRole (name : Cell) (hname : name ∉ s.roles.map Role.name) : State :=
  { s with
    roles := s.roles ++ [⟨k.newId (s.roles.map Role.id), name⟩]
    role_ids := nodup_map_concat s.role_ids (k.fresh _)
    role_names := nodup_map_concat s.role_names hname }

def createUser (name : Cell) (tenant : Tenant) (pass : String) (enabled : Bool) : State :=
  { s with
    users := s.users ++ [⟨k.newId (s.users.map User.id), name, tenant.id, pass, "", enabled⟩]
    user_ids := nodup_map_concat s.user_ids (k.fresh _) }

/-- A command is refused when it names something that does not exist, or a name that is taken. -/
def execute : Command → Option (String × State)
  | .list l => (s.records l).map fun rows => (k.print l.header rows, s)
  | c@(.serviceCreate type name description) =>
    some (k.report c s, k.createService s type name description)
  | c@(.endpointCreate region service_id publicurl internalurl adminurl) =>
    (s.services.find? fun service => service.id.val = service_id).map fun service =>
      (k.report c s, k.createEndpoint s region service publicurl internalurl adminurl)
  | c@(.tenantCreate name description enabled) =>
    if h : name ∈ s.tenants.map Tenant.name then none
    else some (k.report c s, k.createTenant s name h description enabled)
  | c@(.roleCreate name) =>
    if h : name ∈ s.roles.map Role.name then none
    else some (k.report c s, k.createRole s name h)
  | c@(.userCreate name tenant_id pass enabled) =>
    if k.refuses s name then none
    else
      (s.tenant? tenant_id).map fun tenant =>
        (k.report c s, k.createUser s name tenant pass enabled)
  | c@(.userRoleAdd tenant_id role_id user_id) =>
    match s.tenant? tenant_id, s.role? role_id, s.user? user_id with
    | some t, some r, some u =>
      some (k.report c s,
        if ⟨t.id, r.id, u.id⟩ ∈ s.grants then s
        else { s with grants := s.grants ++ [⟨t.id, r.id, u.id⟩] })
    | _, _, _ => none

end Keystone

end Keystone

section Register

/-- The values that the resource allows. -/
inductive ServiceType
  | image
  | identity
  | compute
  | storage
  | ec2
  | volume
  | object_store
  | metering
  | network
  | orchestration
  | cloudformation
  deriving DecidableEq

def ServiceType.name : ServiceType → String
  | image => "image"
  | identity => "identity"
  | compute => "compute"
  | storage => "storage"
  | ec2 => "ec2"
  | volume => "volume"
  | object_store => "object-store"
  | metering => "metering"
  | network => "network"
  | orchestration => "orchestration"
  | cloudformation => "cloudformation"

def ServiceType.cell (service_type : ServiceType) : Cell :=
  ⟨service_type.name, by cases service_type <;> decide⟩

structure Resource where
  service_type : ServiceType
  service_name : Cell
  service_description : String
  endpoint_region : Cell
  endpoint_adminurl : Cell
  endpoint_internalurl : Cell
  endpoint_publicurl : Cell
  tenant_name : Cell
  tenant_description : String
  tenant_enabled : Bool
  user_name : Cell
  user_pass : String
  user_enabled : Bool
  role_name : Cell

/-- The state of Keystone and the commands so far. -/
structure World where
  state : State
  issued : List Command

variable (k : Keystone) (resource : Resource)

/-- The output of a command; `none` is the error for an exit status other than 0. -/
def identityCommand (c : Command) (w : World) : Option String × World :=
  let issued := w.issued ++ [c]
  match k.execute w.state c with
  | some (stdout, state) => (some stdout, ⟨state, issued⟩)
  | none => (none, ⟨w.state, issued⟩)

/-- The last row that matches. Values are compared as arrays, without their keys. -/
def searchUuid (output : List Row) (uuid_field : String) (required_hash : List (String × String)) :
    Option String :=
  output.foldl (fun rc obj =>
    if some uuid_field ∈ obj.keys ∧ (required_hash.map fun e => some e.2).filter (fun v =>
        decide (v ∉ required_hash.map fun e => value obj (some e.1))) = [] then
      value obj (some uuid_field)
    else rc) none

/-- `none` is the error, `some none` is `nil`. -/
def identityUuid (type : Listing) (key val : String) (w : World) :
    Option (Option String) × World :=
  match identityCommand k (.list type) w with
  | (none, w) => (none, w)
  | (some output, w) =>
    let output := prettytableToArray (some output)
    let required_hash :=
      match type with
      | .endpoint => [(key, val), ("region", resource.endpoint_region.val)]
      | _ => [(key, val)]
    (some (searchUuid output "id" required_hash), w)

/-- The end of an action that changes something: `updated_by_last_action`. -/
def issue (c : Command) (w : World) : Bool × World :=
  match identityCommand k c w with
  | (none, w) => (false, w)
  | (some _, w) => (true, w)

/-- `templated` when that is the backend of the catalog. -/
def createService (templated : Bool) (w : World) : Bool × World :=
  if templated then (false, w)
  else
    match identityUuid k resource .service "type" resource.service_type.cell.val w with
    | (none, w) => (false, w)
    | (some (some _), w) => (false, w)
    | (some none, w) =>
      issue k (.serviceCreate resource.service_type.cell resource.service_name
        resource.service_description) w

def createEndpoint (templated : Bool) (w : World) : Bool × World :=
  if templated then (false, w)
  else
    match identityUuid k resource .service "type" resource.service_type.cell.val w with
    | (none, w) => (false, w)
    | (some none, w) => (false, w)
    | (some (some service_uuid), w) =>
      match identityUuid k resource .endpoint "service_id" service_uuid w with
      | (none, w) => (false, w)
      | (some (some _), w) => (false, w)
      | (some none, w) =>
        issue k (.endpointCreate resource.endpoint_region service_uuid resource.endpoint_publicurl
          resource.endpoint_internalurl resource.endpoint_adminurl) w

def createTenant (w : World) : Bool × World :=
  match identityUuid k resource .tenant "name" resource.tenant_name.val w with
  | (none, w) => (false, w)
  | (some (some _), w) => (false, w)
  | (some none, w) =>
    issue k (.tenantCreate resource.tenant_name resource.tenant_description
      resource.tenant_enabled) w

def createRole (w : World) : Bool × World :=
  match identityUuid k resource .role "name" resource.role_name.val w with
  | (none, w) => (false, w)
  | (some (some _), w) => (false, w)
  | (some none, w) => issue k (.roleCreate resource.role_name) w

def createUser (w : World) : Bool × World :=
  match identityUuid k resource .tenant "name" resource.tenant_name.val w with
  | (none, w) => (false, w)
  | (some none, w) => (false, w)
  | (some (some tenant_uuid), w) =>
    match identityCommand k (.list (.user (some tenant_uuid))) w with
    | (none, w) => (false, w)
    | (some output, w) =>
      let users := prettytableToArray (some output)
      let user_found :=
        users.any fun user => value user (some "name") = some resource.user_name.val
      if user_found then (false, w)
      else
        issue k (.userCreate resource.user_name tenant_uuid resource.user_pass
          resource.user_enabled) w

/-- The tests for the user and the role look at the tenant once more, so that `nil` goes on; as an
argument of a command it is empty. -/
def grantRole (w : World) : Bool × World :=
  match identityUuid k resource .tenant "name" resource.tenant_name.val w with
  | (none, w) => (false, w)
  | (some none, w) => (false, w)
  | (some (some tenant_uuid), w) =>
    match identityUuid k resource (.user none) "name" resource.user_name.val w with
    | (none, w) => (false, w)
    | (some user_uuid, w) =>
      match identityUuid k resource .role "name" resource.role_name.val w with
      | (none, w) => (false, w)
      | (some role_uuid, w) =>
        match identityUuid k resource (.userRole tenant_uuid (user_uuid.getD "")) "name"
            resource.role_name.val w with
        | (none, w) => (false, w)
        | (some assigned_role_uuid, w) =>
          if role_uuid = assigned_role_uuid then (false, w)
          else
            issue k (.userRoleAdd tenant_uuid (role_uuid.getD "") (user_uuid.getD "")) w

end Register

end CompassAdapters.Identity
