import CompassAdapters.Identity.Register

/-! `search_uuid` over rows of any kind: which rows it takes for the one that is asked for. -/
namespace CompassAdapters.Identity
open Ruby Openstack

section Rows

variable {κ ν : Type*} [DecidableEq κ] [DecidableEq ν]

/-- `hash[key]`; a key that is not there reads as `nil`. -/
def field (hash : Hash κ (Option ν)) (key : κ) : Option ν := (hash.get? key).join

/-- `required_hash.values - obj.values_at(*required_hash.keys)`. -/
def missing (required_hash obj : Hash κ (Option ν)) : List (Option ν) :=
  (required_hash.entries.map Prod.snd).filter fun v =>
    decide (v ∉ required_hash.keys.map (field obj))

/-- `search_uuid`, for rows with keys and values of any kind. -/
def searchRows (output : List (Hash κ (Option ν))) (uuid_field : κ)
    (required_hash : Hash κ (Option ν)) : Option ν :=
  output.foldl (fun rc obj =>
    if uuid_field ∈ obj.keys ∧ missing required_hash obj = [] then field obj uuid_field else rc)
    none

variable {output : List (Hash κ (Option ν))} {uuid_field : κ}
  {obj required_hash : Hash κ (Option ν)}

/-- A row has each required value under its own key. -/
def Agrees (required_hash obj : Hash κ (Option ν)) : Prop :=
  ∀ e ∈ required_hash.entries, field obj e.1 = e.2

/-- A row with the identifier has each required value under some required key. -/
def Resembles (uuid_field : κ) (required_hash obj : Hash κ (Option ν)) : Prop :=
  uuid_field ∈ obj.keys ∧ ∀ e ∈ required_hash.entries, ∃ k ∈ required_hash.keys, field obj k = e.2

theorem missing_eq_nil : missing required_hash obj = [] ↔
    ∀ e ∈ required_hash.entries, ∃ k ∈ required_hash.keys, field obj k = e.2 := by
  simp only [missing, List.filter_eq_nil_iff, decide_eq_true_iff, not_not]
  rw [List.forall_mem_map]
  simp only [List.mem_map]

instance instDecidableResembles (uuid_field : κ) (required_hash obj : Hash κ (Option ν)) :
    Decidable (Resembles uuid_field required_hash obj) :=
  decidable_of_iff (uuid_field ∈ obj.keys ∧ missing required_hash obj = [])
    (and_congr_right fun _ => missing_eq_nil)

omit [DecidableEq ν] in
theorem Agrees.resembles (h : Agrees required_hash obj) (hkey : uuid_field ∈ obj.keys) :
    Resembles uuid_field required_hash obj :=
  ⟨hkey, fun e he => ⟨e.1, List.mem_map_of_mem he, h e he⟩⟩

omit [DecidableEq ν] in
/-- With one required key there is no other place for its value. -/
theorem Resembles.agrees (h : Resembles uuid_field required_hash obj) {k : κ} {v : Option ν}
    (hone : required_hash.entries = [(k, v)]) : Agrees required_hash obj := by
  intro e he
  obtain ⟨k', hk', hv⟩ := h.2 e he
  rw [Hash.keys, hone, List.map_singleton, List.mem_singleton] at hk'
  rw [hone, List.mem_singleton] at he
  rw [← hv, hk', he]

theorem searchRows_eq : searchRows output uuid_field required_hash =
    (output.findRev? fun obj => Resembles uuid_field required_hash obj).bind fun obj =>
      field obj uuid_field := by
  have hmiss (obj : Hash κ (Option ν)) :
      (uuid_field ∈ obj.keys ∧ missing required_hash obj = []) ↔
        Resembles uuid_field required_hash obj := and_congr_right fun _ => missing_eq_nil
  simp only [searchRows, hmiss]
  rw [Hash.foldl_last]
  cases output.findRev? fun obj => Resembles uuid_field required_hash obj <;> rfl

/-- What a search by the fields is to find: the identifier of a row that agrees, and nothing only if
no row with an identifier does. -/
structure Finds (output : List (Hash κ (Option ν))) (uuid_field : κ)
    (required_hash : Hash κ (Option ν)) (rc : Option ν) : Prop where
  found : ∀ v, rc = some v →
    ∃ obj ∈ output, Agrees required_hash obj ∧ obj.get? uuid_field = some (some v)
  none_iff : rc = none ↔
    ∀ obj ∈ output, uuid_field ∈ obj.keys → ¬ Agrees required_hash obj

/-- The last row that resembles what is required has the identifier of one that agrees, or is
without one where no row agrees. -/
def LastAgrees (output : List (Hash κ (Option ν))) (uuid_field : κ)
    (required_hash : Hash κ (Option ν)) : Prop :=
  ∀ before obj after, output = before ++ obj :: after →
    Resembles uuid_field required_hash obj →
    (∀ later ∈ after, ¬ Resembles uuid_field required_hash later) →
    match field obj uuid_field with
    | some v => ∃ row ∈ output, Agrees required_hash row ∧ row.get? uuid_field = some (some v)
    | none => ∀ row ∈ output, uuid_field ∈ row.keys → ¬ Agrees required_hash row

theorem finds_iff_lastAgrees :
    Finds output uuid_field required_hash (searchRows output uuid_field required_hash) ↔
      LastAgrees output uuid_field required_hash := by
  rw [searchRows_eq]
  cases hlast : output.findRev? fun obj => Resembles uuid_field required_hash obj with
  | none =>
    have hno := Hash.findRev?_eq_none.mp hlast
    constructor
    · rintro - before obj after rfl hobj
      exact absurd hobj (hno obj (by simp))
    · intro _
      refine ⟨nofun, iff_of_true rfl ?_⟩
      intro obj hobj hkey hagree
      exact hno obj hobj (hagree.resembles hkey)
  | some obj =>
    obtain ⟨hobj, before, after, hout, hafter⟩ := Hash.findRev?_eq_some.mp hlast
    rw [Option.bind_some]
    constructor
    · rintro ⟨hfound, hnone⟩ before' obj' after' hout' hobj' hafter'
      have hlast' := Hash.findRev?_eq_some.mpr ⟨hobj', before', after', hout', hafter'⟩
      obtain rfl : obj = obj' := Option.some.inj (hlast.symm.trans hlast')
      cases hv : field obj uuid_field with
      | none => exact hnone.mp hv
      | some v => exact hfound v hv
    · intro h
      have hrow := h before obj after hout hobj hafter
      cases hv : field obj uuid_field with
      | none =>
        rw [hv] at hrow
        exact ⟨nofun, iff_of_true rfl hrow⟩
      | some v =>
        rw [hv] at hrow
        obtain ⟨row, hmem, hagree, hget⟩ := hrow
        refine ⟨?_, iff_of_false (Option.some_ne_none v) ?_⟩
        · rintro _ ⟨⟩
          exact ⟨row, hmem, hagree, hget⟩
        · intro hall
          exact hall row hmem (Hash.mem_keys.mpr ⟨_, hget⟩) hagree

/-- A row that has the required values, but not each under its own key. -/
def Misleads (uuid_field : κ) (required_hash obj : Hash κ (Option ν)) : Prop :=
  Resembles uuid_field required_hash obj ∧ ¬ Agrees required_hash obj

/-- The row is overruled by a later one. -/
def Overruled (uuid_field : κ) (required_hash : Hash κ (Option ν))
    (after : List (Hash κ (Option ν))) : Prop :=
  ∃ later ∈ after, Resembles uuid_field required_hash later

/-- A row that misleads is overruled, or has the identifier of an earlier row that agrees, or has
`nil` for it and no earlier row agrees. A row that agrees and has `nil` for its identifier is
overruled. -/
structure WellOrdered (output : List (Hash κ (Option ν))) (uuid_field : κ)
    (required_hash : Hash κ (Option ν)) : Prop where
  misleading : ∀ before obj after, output = before ++ obj :: after →
    Misleads uuid_field required_hash obj → Overruled uuid_field required_hash after ∨
      (∃ row ∈ before, Agrees required_hash row ∧ row.get? uuid_field = obj.get? uuid_field ∧
        obj.get? uuid_field ≠ some none) ∨
      (obj.get? uuid_field = some none ∧
        ∀ row ∈ before, uuid_field ∈ row.keys → ¬ Agrees required_hash row)
  nameless : ∀ before obj after, output = before ++ obj :: after →
    Agrees required_hash obj → obj.get? uuid_field = some none →
    Overruled uuid_field required_hash after

omit [DecidableEq ν] in
theorem lastAgrees_of_wellOrdered (h : WellOrdered output uuid_field required_hash) :
    LastAgrees output uuid_field required_hash := by
  intro before obj after hout hobj hafter
  have hnot : ¬ Overruled uuid_field required_hash after :=
    fun ⟨later, hmem, hlater⟩ => hafter later hmem hlater
  have hmem : obj ∈ output := by
    rw [hout]
    simp
  obtain ⟨id, hget⟩ := Hash.mem_keys.mp hobj.1
  by_cases hagree : Agrees required_hash obj
  · cases id with
    | none => exact absurd (h.nameless before obj after hout hagree hget) hnot
    | some id =>
      rw [field, hget]
      exact ⟨obj, hmem, hagree, hget⟩
  rcases h.misleading before obj after hout ⟨hobj, hagree⟩ with hover | hrow | ⟨hnil, hnone⟩
  · exact absurd hover hnot
  · obtain ⟨row, hrow, hrowAgrees, hsame, hid⟩ := hrow
    cases id with
    | none => exact absurd hget hid
    | some id =>
      rw [field, hget]
      refine ⟨row, ?_, hrowAgrees, hsame.trans hget⟩
      rw [hout]
      exact List.mem_append_left _ hrow
  · rw [field, hnil]
    intro row hrow hkey hrowAgrees
    rw [hout, List.mem_append, List.mem_cons] at hrow
    rcases hrow with hrow | rfl | hrow
    · exact hnone row hrow hkey hrowAgrees
    · exact hagree hrowAgrees
    · exact hafter row hrow (hrowAgrees.resembles hkey)

omit [DecidableEq ν] in
theorem wellOrdered_of_lastAgrees (h : LastAgrees output uuid_field required_hash) :
    WellOrdered output uuid_field required_hash := by
  have hlast {after : List (Hash κ (Option ν))}
      (hnot : ¬ Overruled uuid_field required_hash after) :
      ∀ later ∈ after, ¬ Resembles uuid_field required_hash later :=
    fun later hmem hlater => hnot ⟨later, hmem, hlater⟩
  constructor
  · rintro before obj after hout ⟨hobj, hagree⟩
    by_cases hover : Overruled uuid_field required_hash after
    · exact Or.inl hover
    have hrow := h before obj after hout hobj (hlast hover)
    obtain ⟨id, hget⟩ := Hash.mem_keys.mp hobj.1
    rw [field, hget] at hrow
    cases id with
    | none =>
      refine Or.inr (Or.inr ⟨hget, fun row hmem => hrow row ?_⟩)
      rw [hout]
      exact List.mem_append_left _ hmem
    | some id =>
      obtain ⟨row, hmem, hrowAgrees, hrowGet⟩ := hrow
      refine Or.inr (Or.inl ⟨row, ?_, hrowAgrees, hrowGet.trans hget.symm, by simp [hget]⟩)
      rw [hout, List.mem_append, List.mem_cons] at hmem
      rcases hmem with hmem | rfl | hmem
      · exact hmem
      · exact absurd hrowAgrees hagree
      · have hkey := Hash.mem_keys.mpr ⟨_, hrowGet⟩
        exact absurd (hrowAgrees.resembles hkey) (hlast hover row hmem)
  · intro before obj after hout hagree hnil
    by_contra hover
    have hkey := Hash.mem_keys.mpr ⟨_, hnil⟩
    have hrow := h before obj after hout (hagree.resembles hkey) (hlast hover)
    rw [field, hnil] at hrow
    refine hrow obj ?_ hkey hagree
    rw [hout]
    simp

/-- The search finds what it should exactly if no row comes last of those with the required values
whose identifier is not that of a row that agrees. -/
theorem searchRows_finds_iff (output : List (Hash κ (Option ν))) (uuid_field : κ)
    (required_hash : Hash κ (Option ν)) :
    Finds output uuid_field required_hash (searchRows output uuid_field required_hash) ↔
      WellOrdered output uuid_field required_hash :=
  finds_iff_lastAgrees.trans ⟨wellOrdered_of_lastAgrees, lastAgrees_of_wellOrdered⟩

omit [DecidableEq ν] in
/-- With one required key, and no row whose identifier is `nil`, nothing misleads. -/
theorem wellOrdered_of_single {k : κ} {v : Option ν} (hone : required_hash.entries = [(k, v)])
    (hid : ∀ obj ∈ output, obj.get? uuid_field ≠ some none) :
    WellOrdered output uuid_field required_hash := by
  constructor
  · rintro before obj after - ⟨hobj, hagree⟩
    exact absurd (hobj.agrees hone) hagree
  · rintro before obj after rfl - hnil
    exact absurd hnil (hid obj (by simp))

end Rows

/-- `searchUuid` is the search for required values that are not `nil`. -/
theorem searchUuid_eq_searchRows (output : List Row) (uuid_field : String)
    (required : List (String × String)) {required_hash : Row}
    (h : required_hash.entries = required.map fun e => (some e.1, some e.2)) :
    searchUuid output uuid_field required = searchRows output (some uuid_field) required_hash := by
  have hmissing (obj : Row) : missing required_hash obj =
      (required.map fun e => some e.2).filter fun v =>
        decide (v ∉ required.map fun e => value obj (some e.1)) := by
    rw [missing, Hash.keys, h, List.map_map, List.map_map, List.map_map]
    rfl
  simp only [searchUuid, searchRows, hmissing]
  rfl

/-- A row whose two values are swapped. -/
def swappedRow : Hash String (Option String) :=
  ((Hash.empty.store "id" (some "1")).store "key1" (some "b")).store "key2" (some "a")

def swappedRequired : Hash String (Option String) :=
  (Hash.empty.store "key1" (some "a")).store "key2" (some "b")

theorem searchRows_swapped : searchRows [swappedRow] "id" swappedRequired = some "1" ∧
    ¬ Finds [swappedRow] "id" swappedRequired (searchRows [swappedRow] "id" swappedRequired) := by
  have hfound : searchRows [swappedRow] "id" swappedRequired = some "1" := by decide
  refine ⟨hfound, ?_⟩
  intro h
  obtain ⟨obj, hobj, hagree, -⟩ := h.found "1" hfound
  obtain rfl := List.mem_singleton.mp hobj
  have hvalue : field swappedRow "key1" = some "a" := hagree ("key1", some "a") (by decide)
  exact absurd hvalue (by decide)

end CompassAdapters.Identity
