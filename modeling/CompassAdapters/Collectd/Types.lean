import CompassAdapters.Ruby.Hash
import CompassAdapters.Ruby.Text
import CompassAdapters.Ruby.Words
import Mathlib.Data.List.DropRight

/-! The types files of collectd as `kairosdb_writer.py` reads them, a type on a line with its data
sources. -/
namespace CompassAdapters.Collectd
open Ruby Ruby.Text

/-- `ds_fields` -/
structure DataSource where
  ds_name : List Char
  ds_type : List Char
  min : List Char
  max : List Char
  deriving DecidableEq

abbrev Types := Hash (List Char) (List DataSource)

section Source

/-- Commas at the end are taken away, and there must be four fields. -/
def dataSource (ds : List Char) : Option DataSource :=
  match (ds.rdropWhile (· == ',')).splitOn ':' with
  | [ds_name, ds_type, min, max] => some ⟨ds_name, ds_type, min, max⟩
  | _ => none

/-- A line defines a type unless it has a single field or is a comment. What is no data source is left
out with a warning. -/
def typeLine (line : List Char) : Option (List Char × List DataSource) :=
  match words line with
  | type_name :: field :: fields =>
    if type_name.head? = some '#' then none
    else some (type_name, (field :: fields).filterMap dataSource)
  | _ => none

def kairosdbParseTypesFile (types : Types) (file : List Char) : Types :=
  ((lines file).filterMap typeLine).foldl (fun types e => types.store e.1 e.2) types

end Source

/-- What a data source that was read is like. -/
structure DataSource.Valid (d : DataSource) : Prop where
  noColon : ∀ f ∈ [d.ds_name, d.ds_type, d.min, d.max], ':' ∉ f
  noSpace : ∀ f ∈ [d.ds_name, d.ds_type, d.min, d.max], ∀ c ∈ f, isSpace c = false
  noComma : d.max.getLast? ≠ some ','

def DataSource.text (d : DataSource) : List Char :=
  [':'].intercalate [d.ds_name, d.ds_type, d.min, d.max]

theorem DataSource.text_eq (d : DataSource) :
    d.text = d.ds_name ++ ':' :: d.ds_type ++ ':' :: d.min ++ [':'] ++ d.max := by
  simp [text, List.intercalate]

theorem DataSource.getLast?_text (d : DataSource) :
    d.text.getLast? = some ',' ↔ d.max.getLast? = some ',' := by
  rw [text_eq, List.getLast?_append, List.getLast?_concat]
  cases d.max.getLast? with
  | none => simp
  | some c => rfl

/-- The commas behind a text are all that is taken away. -/
theorem rdropWhile_commas {t : List Char} (ht : t.getLast? ≠ some ',') (n : ℕ) :
    (t ++ List.replicate n ',').rdropWhile (· == ',') = t := by
  induction n with
  | zero =>
    rw [List.replicate_zero, List.append_nil, List.rdropWhile_eq_self_iff]
    intro hne hlast
    exact ht (by rw [List.getLast?_eq_some_getLast hne, beq_iff_eq.mp hlast])
  | succ n ih =>
    rw [List.replicate_succ', ← List.append_assoc, List.rdropWhile_concat_pos _ _ _ (by simp), ih]

theorem rdropWhile_commas_spec (s : List Char) :
    (s.rdropWhile (· == ',')).getLast? ≠ some ',' ∧
      ∃ n, s = s.rdropWhile (· == ',') ++ List.replicate n ',' := by
  constructor
  · intro hlast
    have hne : s.rdropWhile (· == ',') ≠ [] := fun hnil => by simp [hnil] at hlast
    rw [List.getLast?_eq_some_getLast hne] at hlast
    exact List.rdropWhile_last_not _ _ hne (by simp [Option.some.inj hlast])
  · refine ⟨(s.rtakeWhile (· == ',')).length, ?_⟩
    have hcommas : s.rtakeWhile (· == ',') =
        List.replicate (s.rtakeWhile (· == ',')).length ',' :=
      List.eq_replicate_iff.mpr ⟨rfl, fun c hc => by simpa using List.mem_rtakeWhile_imp hc⟩
    rw [← hcommas, List.rdropWhile_append_rtakeWhile]

/-- What is read as a data source are its fields with commas behind them. -/
theorem dataSource_eq_some {ds : List Char} (hds : ∀ c ∈ ds, isSpace c = false) {d : DataSource} :
    dataSource ds = some d ↔ d.Valid ∧ ∃ n, ds = d.text ++ List.replicate n ',' := by
  constructor
  · intro h
    unfold dataSource at h
    split at h
    next ds_name ds_type min max hsplit =>
      have hd : d = ⟨ds_name, ds_type, min, max⟩ := (Option.some.inj h).symm
      subst hd
      obtain ⟨hlast, n, hn⟩ := rdropWhile_commas_spec ds
      have htext : ds.rdropWhile (· == ',') = DataSource.text ⟨ds_name, ds_type, min, max⟩ := by
        rw [DataSource.text, ← hsplit, List.intercalate_splitOn]
      rw [htext] at hlast hn
      refine ⟨⟨?_, ?_, ?_⟩, n, hn⟩
      · intro f hf
        exact notMem_of_mem_splitOn (hsplit ▸ hf)
      · intro f hf c hc
        apply hds
        rw [hn, DataSource.text_eq]
        simp only [List.mem_cons, List.not_mem_nil, or_false] at hf
        rcases hf with rfl | rfl | rfl | rfl <;> simp [hc]
      · exact fun hmax => hlast ((DataSource.getLast?_text _).mpr hmax)
    next => cases h
  · rintro ⟨hd, n, rfl⟩
    have hlast : d.text.getLast? ≠ some ',' := fun h => hd.noComma (d.getLast?_text.mp h)
    unfold dataSource
    rw [rdropWhile_commas hlast, DataSource.text,
      List.splitOn_intercalate ':' hd.noColon (List.cons_ne_nil _ _)]

/-- What a type that was read is like. -/
structure IsType (e : List Char × List DataSource) : Prop where
  ne_nil : e.1 ≠ []
  noSpace : ∀ c ∈ e.1, isSpace c = false
  notComment : e.1.head? ≠ some '#'
  valid : ∀ d ∈ e.2, d.Valid

theorem isType_of_typeLine {line : List Char} {e : List Char × List DataSource}
    (h : typeLine line = some e) : IsType e := by
  unfold typeLine at h
  split at h
  next type_name field fields hwords =>
    have hword {w : List Char} (hw : w ∈ type_name :: field :: fields) :
        w ≠ [] ∧ ∀ c ∈ w, isSpace c = false := of_mem_words (hwords ▸ hw)
    split at h
    next => cases h
    next hcomment =>
      cases h
      refine ⟨(hword List.mem_cons_self).1, (hword List.mem_cons_self).2, hcomment, ?_⟩
      intro d hd
      obtain ⟨ds, hds, hsome⟩ := List.mem_filterMap.mp hd
      exact ((dataSource_eq_some (hword (List.mem_cons_of_mem _ hds)).2).mp hsome).1
  next => cases h

/-- The fields that are written for a type. A comma is no data source, and stands where there is
none. -/
def typeFields (e : List Char × List DataSource) : List (List Char) :=
  if e.2 = [] then [[',']] else e.2.map fun d => d.text ++ [',']

def typeText (e : List Char × List DataSource) : List Char :=
  e.1 ++ (typeFields e).flatMap fun f => ' ' :: f

def typesText (types : Types) : List Char := types.entries.flatMap fun e => typeText e ++ ['\n']

theorem DataSource.Valid.noSpace_text {d : DataSource} (hd : d.Valid) :
    ∀ c ∈ d.text, isSpace c = false := by
  intro c hc
  have hfield {f : List Char} (hf : f ∈ [d.ds_name, d.ds_type, d.min, d.max]) (hc : c ∈ f) :
      isSpace c = false := hd.noSpace f hf c hc
  rw [text_eq] at hc
  simp only [List.mem_append, List.mem_cons, List.not_mem_nil, or_false] at hc
  rcases hc with ((((hc | rfl | hc) | rfl | hc) | rfl) | hc)
  · exact hfield (by simp) hc
  · decide
  · exact hfield (by simp) hc
  · decide
  · exact hfield (by simp) hc
  · decide
  · exact hfield (by simp) hc

theorem DataSource.Valid.noSpace_field {d : DataSource} (hd : d.Valid) :
    ∀ c ∈ d.text ++ [','], isSpace c = false :=
  List.forall_mem_append.mpr ⟨hd.noSpace_text, List.forall_mem_singleton.mpr rfl⟩

theorem IsType.word_of_mem {e : List Char × List DataSource} (he : IsType e) {f : List Char}
    (hf : f ∈ typeFields e) : f ≠ [] ∧ ∀ c ∈ f, isSpace c = false := by
  unfold typeFields at hf
  split at hf
  next =>
    rw [List.mem_singleton.mp hf]
    exact ⟨List.cons_ne_nil _ _, List.forall_mem_singleton.mpr rfl⟩
  next =>
    obtain ⟨d, hd, rfl⟩ := List.mem_map.mp hf
    refine ⟨List.append_ne_nil_of_right_ne_nil _ (List.cons_ne_nil _ _), ?_⟩
    exact (he.valid d hd).noSpace_field

/-- A type is written as words with a blank between them. -/
def IsType.row {e : List Char × List DataSource} (he : IsType e) : Row where
  indent := 0
  first := ⟨e.1, he.ne_nil, he.noSpace⟩
  rest := (typeFields e).attach.map fun f => (0, ⟨f.1, he.word_of_mem f.2⟩)

theorem IsType.row_text {e : List Char × List DataSource} (he : IsType e) :
    he.row.text = typeText e := by
  have hrest : (he.row.rest.flatMap fun e => List.replicate (e.1 + 1) ' ' ++ e.2.val) =
      (typeFields e).flatMap fun f => ' ' :: f := by
    conv_rhs => rw [← List.attach_map_subtype_val (typeFields e)]
    rw [row, List.flatMap_map, List.flatMap_map]
    rfl
  rw [Row.text, hrest]
  rfl

theorem IsType.row_words {e : List Char × List DataSource} (he : IsType e) :
    he.row.words = e.1 :: typeFields e := by
  conv_rhs => rw [← List.attach_map_subtype_val (typeFields e)]
  rw [Row.words, row, List.map_map]
  rfl

theorem IsType.typeFields_read {e : List Char × List DataSource} (he : IsType e) :
    (typeFields e).filterMap dataSource = e.2 := by
  unfold typeFields
  split
  next hnil => rw [hnil]; decide
  next =>
    have hread : ∀ d ∈ e.2, dataSource (d.text ++ [',']) = some d := by
      intro d hd
      exact (dataSource_eq_some (he.valid d hd).noSpace_field).mpr ⟨he.valid d hd, 1, rfl⟩
    rw [List.filterMap_map]
    calc e.2.filterMap (dataSource ∘ fun d => d.text ++ [',']) = e.2.filterMap some :=
          List.filterMap_congr hread
      _ = e.2 := List.filterMap_some

/-- A type is read back from its text. -/
theorem IsType.typeLine_text {e : List Char × List DataSource} (he : IsType e) :
    typeLine (typeText e) = some e := by
  obtain ⟨field, fields, hfields⟩ : ∃ field fields, typeFields e = field :: fields := by
    apply List.exists_cons_of_ne_nil
    unfold typeFields
    split
    next => exact List.cons_ne_nil _ _
    next hne => simpa using hne
  rw [typeLine, ← he.row_text, words_row, he.row_words, hfields]
  simp only [if_neg he.notComment, ← hfields, he.typeFields_read]

/-- `TypesDB`: the files are read one after the other. -/
def readTypes (files : List (List Char)) : Types := files.foldl kairosdbParseTypesFile Hash.empty

/-- What the files define, in the order in which it is read. -/
def typeLines (files : List (List Char)) : List (List Char × List DataSource) :=
  files.flatMap fun file => (lines file).filterMap typeLine

theorem readTypes_eq (files : List (List Char)) :
    readTypes files = (typeLines files).foldl (fun types e => types.store e.1 e.2) Hash.empty := by
  rw [readTypes, typeLines, List.foldl_flatMap]
  rfl

theorem isType_of_mem_typeLines {files : List (List Char)} {e : List Char × List DataSource}
    (he : e ∈ typeLines files) : IsType e := by
  obtain ⟨file, -, hfile⟩ := List.mem_flatMap.mp he
  obtain ⟨line, -, hline⟩ := List.mem_filterMap.mp hfile
  exact isType_of_typeLine hline

theorem isType_of_mem_readTypes {files : List (List Char)} {e : List Char × List DataSource}
    (he : e ∈ (readTypes files).entries) : IsType e := by
  obtain ⟨name, v⟩ := e
  rw [readTypes_eq, Hash.mem_entries] at he
  obtain ⟨e, hmem, rfl, rfl⟩ := Hash.of_get?_foldl_store he
  exact isType_of_mem_typeLines hmem

theorem typeLines_text {types : Types} (htypes : ∀ e ∈ types.entries, IsType e) :
    typeLines [typesText types] = types.entries := by
  have hlines : lines (typesText types) = types.entries.map typeText := by
    have hflat : typesText types = (types.entries.map typeText).flatMap fun l => l ++ ['\n'] := by
      rw [List.flatMap_map]
      rfl
    rw [hflat, lines_flatMap]
    intro l hl
    obtain ⟨e, he, rfl⟩ := List.mem_map.mp hl
    rw [← (htypes e he).row_text]
    exact newline_notMem_row _
  have hread : ∀ e ∈ types.entries, typeLine (typeText e) = some e := fun e he =>
    (htypes e he).typeLine_text
  calc typeLines [typesText types] = (types.entries.map typeText).filterMap typeLine := by
        rw [typeLines, List.flatMap_singleton, hlines]
    _ = types.entries.filterMap (typeLine ∘ typeText) := List.filterMap_map
    _ = types.entries.filterMap some := List.filterMap_congr hread
    _ = types.entries := List.filterMap_some

/-- The tables that some files give are those whose names are words that do not start with a `#` and
whose data sources have no blanks and no colons in their fields and no comma at their end. Each of
them is read back from its own text, and a type has its last definition in the files. -/
theorem readTypes_complete (types : Types) :
    ((∃ files, readTypes files = types) ↔ ∀ e ∈ types.entries, IsType e) ∧
      ((∀ e ∈ types.entries, IsType e) → readTypes [typesText types] = types) ∧
      ∀ files, readTypes files = types → ∀ name, types.get? name =
        ((typeLines files).findRev? fun e => e.1 = name).map Prod.snd := by
  have hback (htypes : ∀ e ∈ types.entries, IsType e) : readTypes [typesText types] = types := by
    rw [readTypes_eq, typeLines_text htypes]
    exact types.foldl_store_entries
  refine ⟨⟨?_, fun htypes => ⟨_, hback htypes⟩⟩, hback, ?_⟩
  · rintro ⟨files, rfl⟩ e he
    exact isType_of_mem_readTypes he
  · rintro files rfl name
    rw [readTypes_eq, Hash.get?_foldl_store, Hash.get?_empty, Option.or_none]

end CompassAdapters.Collectd
