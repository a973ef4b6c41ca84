import CompassAdapters.Identity.Register

/-! What `identity_uuid` finds in the tables of Keystone. -/
namespace CompassAdapters.Identity
open Ruby Openstack

variable {k : Keystone} {resource : Resource} {w : World}

section Search

variable {output : List Row} {uuid_field : String} {required : List (String × String)}

/-- Every required value is among the values of the required keys. -/
def Matches (obj : Row) (uuid_field : String) (required : List (String × String)) : Prop :=
  some uuid_field ∈ obj.keys ∧
    ∀ e ∈ required, some e.2 ∈ required.map fun e => value obj (some e.1)

instance instDecidableMatches (obj : Row) (uuid_field : String)
    (required : List (String × String)) : Decidable (Matches obj uuid_field required) :=
  inferInstanceAs (Decidable (_ ∧ _))

theorem filter_eq_nil_iff_matches {obj : Row} :
    (some uuid_field ∈ obj.keys ∧ (required.map fun e => some e.2).filter (fun v =>
      decide (v ∉ required.map fun e => value obj (some e.1))) = []) ↔
    Matches obj uuid_field required := by
  simp only [Matches, List.filter_eq_nil_iff, List.forall_mem_map, decide_eq_true_iff, not_not]

theorem searchUuid_eq (output : List Row) (uuid_field : String)
    (required : List (String × String)) : searchUuid output uuid_field required =
      (output.findRev? fun obj => decide (Matches obj uuid_field required)).bind fun obj =>
        value obj (some uuid_field) := by
  simp only [searchUuid, filter_eq_nil_iff_matches]
  rw [Hash.foldl_last]
  cases output.findRev? fun obj => decide (Matches obj uuid_field required) <;> rfl

theorem of_searchUuid {v : String} (h : searchUuid output uuid_field required = some v) :
    ∃ obj ∈ output, Matches obj uuid_field required ∧ value obj (some uuid_field) = some v := by
  rw [searchUuid_eq, Option.bind_eq_some_iff] at h
  obtain ⟨obj, hfind, hvalue⟩ := h
  obtain ⟨hmem, hmatch⟩ := Hash.mem_of_findRev? hfind
  exact ⟨obj, hmem, of_decide_eq_true hmatch, hvalue⟩

theorem exists_searchUuid (h : ∃ obj ∈ output, Matches obj uuid_field required)
    (hall : ∀ obj ∈ output, ∃ v, value obj (some uuid_field) = some v) :
    ∃ v, searchUuid output uuid_field required = some v := by
  obtain ⟨obj, hobj, hmatch⟩ := h
  obtain ⟨last, hlast⟩ := Hash.exists_findRev?
    (p := fun obj => decide (Matches obj uuid_field required)) hobj (decide_eq_true hmatch)
  rw [searchUuid_eq, hlast]
  exact hall last (Hash.mem_of_findRev? hlast).1

theorem mem_keys_of_value {obj : Row} {key v : String} (h : value obj (some key) = some v) :
    some key ∈ obj.keys := by
  rw [value, Option.join_eq_some_iff] at h
  exact Hash.mem_keys.mpr ⟨some v, h⟩

end Search

section Tables

/-- What is read of a listing. -/
def Keystone.output (k : Keystone) (l : Listing) (rows : List Record) : List Row :=
  prettytableToArray (some (k.print l.header rows))

theorem identityCommand_list {l : Listing} {rows : List Record}
    (h : w.state.records l = some rows) :
    identityCommand k (.list l) w =
      (some (k.print l.header rows), ⟨w.state, w.issued ++ [.list l]⟩) := by
  rw [identityCommand, Keystone.execute, h]
  rfl

theorem identityCommand_list_none {l : Listing} (h : w.state.records l = none) :
    identityCommand k (.list l) w = (none, ⟨w.state, w.issued ++ [.list l]⟩) := by
  rw [identityCommand, Keystone.execute, h]
  rfl

theorem Listing.header_nodup (l : Listing) : l.header.Nodup := by
  cases l <;> (rw [Listing.header]; decide)

theorem records_fit {s : State} {l : Listing} {rows : List Record} (h : s.records l = some rows) :
    ∀ r ∈ rows, r.Fits l.header := by
  have hmap {α : Type} {xs : List α} {record : α → Record} (h : some (xs.map record) = some rows)
      (hrecord : ∀ x, (record x).Fits l.header) : ∀ r ∈ rows, r.Fits l.header := by
    cases h
    exact List.forall_mem_map.mpr fun x _ => hrecord x
  cases l with
  | service => exact hmap h fun _ => rfl
  | endpoint => exact hmap h fun _ => rfl
  | tenant => exact hmap h fun _ => rfl
  | role => exact hmap h fun _ => rfl
  | user tenant_id =>
    cases tenant_id with
    | none => exact hmap h fun _ => rfl
    | some tenant_id =>
      rw [State.records] at h
      cases ht : s.tenant? tenant_id with
      | none =>
        rw [ht] at h
        cases h
      | some t =>
        rw [ht] at h
        exact hmap h fun _ => rfl
  | userRole tenant_id user_id =>
    rw [State.records] at h
    split at h
    next => exact hmap h fun _ => rfl
    next => cases h

/-- The hashes of a listing. -/
theorem mem_output {l : Listing} {rows : List Record} (hrows : ∀ r ∈ rows, r.Fits l.header)
    {obj : Row} : obj ∈ k.output l rows ↔ ∃ r ∈ rows, obj ∈ r.objects l.header := by
  apply mem_prettytableToArray (k.prints l rows hrows)
  · cases l <;> exact List.cons_ne_nil _ _
  · cases l <;> (rw [Listing.header]; decide)

/-- Each thing is shown. -/
theorem exists_output {l : Listing} {rows : List Record} (h : w.state.records l = some rows)
    {r : Record} (hr : r ∈ rows) : ∃ obj ∈ k.output l rows,
      Shows obj ((l.header.map Subtype.val).zip (r.cells.map Subtype.val)) := by
  have hrows := records_fit h
  obtain ⟨obj, hobj, hshow⟩ := Record.exists_shows l.header_nodup (hrows r hr)
  exact ⟨obj, (mem_output hrows).mpr ⟨r, hr, hobj⟩, hshow⟩

/-- Nothing else is shown but for further lines of some text. -/
theorem output_shows {l : Listing} {rows : List Record} (h : w.state.records l = some rows)
    {obj : Row} (hobj : obj ∈ k.output l rows) : ∃ r ∈ rows,
      Shows obj ((l.header.map Subtype.val).zip (r.cells.map Subtype.val)) ∨
      r.Breaks ∧
        Shows obj ((l.header.map Subtype.val).zip (List.replicate r.cells.length "")) := by
  have hrows := records_fit h
  obtain ⟨r, hr, hobj⟩ := (mem_output hrows).mp hobj
  exact ⟨r, hr, Record.objects_show l.header_nodup (hrows r hr) hobj⟩

end Tables

section Lookup

/-- A table shows the identifier of each thing, and a value under a key. -/
structure Lists {α : Type*} (l : Listing) (record : α → Record) (id field : α → Cell)
    (key : String) : Prop where
  shows_id : ∀ x, ("id", (id x).val) ∈
    (l.header.map Subtype.val).zip ((record x).cells.map Subtype.val)
  shows_key : ∀ x, (key, (field x).val) ∈
    (l.header.map Subtype.val).zip ((record x).cells.map Subtype.val)
  empty_id : ∀ x, ("id", "") ∈
    (l.header.map Subtype.val).zip (List.replicate (record x).cells.length "")
  empty_key : ∀ x, (key, "") ∈
    (l.header.map Subtype.val).zip (List.replicate (record x).cells.length "")

theorem service_lists : Lists .service Service.record Service.id Service.type "type" := by
  constructor <;> simp [Listing.header, Service.record]

theorem tenant_lists : Lists .tenant Tenant.record Tenant.id Tenant.name "name" := by
  constructor <;> simp [Listing.header, Tenant.record]

theorem role_lists : Lists .role Role.record Role.id Role.name "name" := by
  constructor <;> simp [Listing.header, Role.record]

theorem user_lists (tenant_id : Option String) :
    Lists (.user tenant_id) User.record User.id User.name "name" := by
  constructor <;> simp [Listing.header, User.record]

theorem userRole_lists (tenant_id user_id : String) (t : Tenant) (u : User) :
    Lists (.userRole tenant_id user_id) (fun r : Role => ⟨[r.id, r.name, u.id, t.id], none⟩) Role.id
      Role.name "name" := by
  constructor <;> simp [Listing.header]

variable {α : Type} {l : Listing} {xs : List α} {record : α → Record} {id field : α → Cell}
  {key val : String}

theorem matches_single {obj : Row} {v key val : String} (hid : value obj (some "id") = some v) :
    Matches obj "id" [(key, val)] ↔ value obj (some key) = some val := by
  rw [Matches, and_iff_right (mem_keys_of_value hid)]
  simp [eq_comm]

/-- What the hashes of a listing show, and that each thing is shown. -/
theorem output_value (h : w.state.records l = some (xs.map record))
    (hlists : Lists l record id field key) {obj : Row} (hobj : obj ∈ k.output l (xs.map record)) :
    ∃ x ∈ xs,
      (value obj (some "id") = some (id x).val ∧ value obj (some key) = some (field x).val) ∨
      (record x).Breaks ∧ value obj (some "id") = some "" ∧
        value obj (some key) = some "" := by
  obtain ⟨r, hr, hshows⟩ := output_shows h hobj
  obtain ⟨x, hx, rfl⟩ := List.mem_map.mp hr
  refine ⟨x, hx, ?_⟩
  rcases hshows with hshow | ⟨hfree, hshow⟩
  · exact Or.inl ⟨hshow _ _ (hlists.shows_id x), hshow _ _ (hlists.shows_key x)⟩
  · exact Or.inr ⟨hfree, hshow _ _ (hlists.empty_id x), hshow _ _ (hlists.empty_key x)⟩

/-- So is a further line of its text. -/
theorem exists_empty (h : w.state.records l = some (xs.map record))
    (hlists : Lists l record id field key) {x : α} (hx : x ∈ xs) (hbreaks : (record x).Breaks) :
    ∃ obj ∈ k.output l (xs.map record), value obj (some key) = some "" := by
  have hrows := records_fit h
  have hmem : record x ∈ xs.map record := List.mem_map_of_mem hx
  obtain ⟨obj, hobj, hshow⟩ := Record.exists_further l.header_nodup (hrows _ hmem) hbreaks
  exact ⟨obj, (mem_output hrows).mpr ⟨_, hmem, hobj⟩, hshow _ _ (hlists.empty_key x)⟩

theorem exists_value (h : w.state.records l = some (xs.map record))
    (hlists : Lists l record id field key) {x : α} (hx : x ∈ xs) :
    ∃ obj ∈ k.output l (xs.map record), value obj (some "id") = some (id x).val ∧
      value obj (some key) = some (field x).val := by
  obtain ⟨obj, hobj, hshow⟩ := exists_output h (List.mem_map_of_mem hx)
  exact ⟨obj, hobj, hshow _ _ (hlists.shows_id x), hshow _ _ (hlists.shows_key x)⟩

/-- Something with the value is found if there is something. -/
theorem exists_found (h : w.state.records l = some (xs.map record))
    (hlists : Lists l record id field key) {x : α} (hx : x ∈ xs) (hval : (field x).val = val) :
    ∃ v, searchUuid (k.output l (xs.map record)) "id" [(key, val)] = some v := by
  apply exists_searchUuid
  · obtain ⟨obj, hobj, hid, hkey⟩ := exists_value h hlists hx
    exact ⟨obj, hobj, (matches_single hid).mpr (hval ▸ hkey)⟩
  · intro obj hobj
    obtain ⟨x, -, ⟨hid, -⟩ | ⟨-, hid, -⟩⟩ := output_value h hlists hobj
    · exact ⟨_, hid⟩
    · exact ⟨_, hid⟩

/-- What is found has the value, unless that is empty and there is text of several lines. -/
theorem of_found (h : w.state.records l = some (xs.map record))
    (hlists : Lists l record id field key) (hreal : val ≠ "" ∨ ∀ x, (record x).free = none)
    {v : String} (hv : searchUuid (k.output l (xs.map record)) "id" [(key, val)] = some v) :
    ∃ x ∈ xs, (id x).val = v ∧ (field x).val = val := by
  obtain ⟨obj, hobj, hmatch, hvalue⟩ := of_searchUuid hv
  obtain ⟨x, hx, ⟨hid, hkey⟩ | ⟨hfree, hid, hkey⟩⟩ := output_value h hlists hobj
  · refine ⟨x, hx, Option.some.inj (hid.symm.trans hvalue), ?_⟩
    exact Option.some.inj (hkey.symm.trans ((matches_single hid).mp hmatch))
  · have hempty : "" = val := Option.some.inj (hkey.symm.trans ((matches_single hid).mp hmatch))
    obtain ⟨free, hfree, -⟩ := hfree
    rcases hreal with hne | hnone
    · exact absurd hempty.symm hne
    · exact absurd ((hnone x).symm.trans hfree) nofun

/-- The only thing with the value is what is found. -/
theorem found_eq (h : w.state.records l = some (xs.map record))
    (hlists : Lists l record id field key) (hnone : ∀ x, (record x).free = none) {x : α}
    (hx : x ∈ xs) (hval : (field x).val = val) (hunique : ∀ y ∈ xs, (field y).val = val → y = x) :
    searchUuid (k.output l (xs.map record)) "id" [(key, val)] = some (id x).val := by
  obtain ⟨v, hv⟩ := exists_found (k := k) h hlists hx hval
  obtain ⟨y, hy, rfl, hy'⟩ := of_found h hlists (Or.inr hnone) hv
  rw [hv, hunique y hy hy']

/-- `identity_uuid` for anything but an endpoint. -/
theorem identityUuid_eq {rows : List Record} (h : w.state.records l = some rows)
    (hl : l ≠ .endpoint) : identityUuid k resource l key val w =
      (some (searchUuid (k.output l rows) "id" [(key, val)]),
        ⟨w.state, w.issued ++ [.list l]⟩) := by
  unfold identityUuid
  rw [identityCommand_list h]
  cases l with
  | endpoint => exact absurd rfl hl
  | _ => rfl

theorem identityUuid_none (h : w.state.records l = none) :
    identityUuid k resource l key val w = (none, ⟨w.state, w.issued ++ [.list l]⟩) := by
  unfold identityUuid
  rw [identityCommand_list_none h]

theorem identityUuid_endpoint :
    identityUuid k resource .endpoint key val w =
      (some (searchUuid (k.output .endpoint (w.state.endpoints.map Endpoint.record)) "id"
        [(key, val), ("region", resource.endpoint_region.val)]),
        ⟨w.state, w.issued ++ [.list .endpoint]⟩) := by
  rw [identityUuid, identityCommand_list rfl]
  rfl

/-- An endpoint of the service in the region is found if there is one. -/
theorem exists_endpoint {e : Endpoint} (he : e ∈ w.state.endpoints) {service_uuid : String}
    (hservice : e.service_id.val = service_uuid) (hregion : e.region = resource.endpoint_region) :
    ∃ v, searchUuid (k.output .endpoint (w.state.endpoints.map Endpoint.record)) "id"
      [("service_id", service_uuid), ("region", resource.endpoint_region.val)] = some v := by
  have hlists : Lists .endpoint Endpoint.record Endpoint.id Endpoint.service_id "service_id" := by
    constructor <;> simp [Listing.header, Endpoint.record]
  have hrecords : w.state.records .endpoint = some (w.state.endpoints.map Endpoint.record) := rfl
  apply exists_searchUuid
  · obtain ⟨obj, hobj, hshow⟩ := exists_output (k := k) hrecords (List.mem_map_of_mem he)
    have hid := hshow _ _ (hlists.shows_id e)
    have hkey := hshow _ _ (hlists.shows_key e)
    have hplace := hshow "region" e.region.val (by simp [Listing.header, Endpoint.record])
    refine ⟨obj, hobj, mem_keys_of_value hid, ?_⟩
    rw [hservice] at hkey
    rw [hregion] at hplace
    simp [hkey, hplace]
  · intro obj hobj
    obtain ⟨x, -, ⟨hid, -⟩ | ⟨-, hid, -⟩⟩ := output_value hrecords hlists hobj
    · exact ⟨_, hid⟩
    · exact ⟨_, hid⟩

end Lookup

end CompassAdapters.Identity
