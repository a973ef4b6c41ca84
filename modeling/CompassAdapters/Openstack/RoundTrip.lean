import CompassAdapters.Openstack.PrettyTable

/-! A table that is printed is read back as its rows. -/
namespace CompassAdapters.Openstack
open Ruby

section Tables

/-- Some columns with different headers, and rows with a cell for each of them. -/
structure Table where
  header : List Cell
  rows : List (List Cell)
  header_ne_nil : header ≠ []
  header_nodup : header.Nodup
  fits : ∀ cells ∈ rows, cells.length = header.length

/-- A table as it is printed: borders of any length, any number of blanks around a cell, and blank
lines before and after. -/
structure Rendering (t : Table) where
  before : List ℕ
  top : List Char
  header : List Padded
  middle : List Char
  rows : List (List Padded)
  bottom : List Char
  after : List ℕ
  header_texts : header.map Padded.text = t.header.map Cell.toList
  rows_texts : rows.map (List.map Padded.text) = t.rows.map (List.map Cell.toList)
  top_line : '\n' ∉ top
  middle_line : '\n' ∉ middle
  bottom_line : '\n' ∉ bottom

variable {t : Table}

def Rendering.lines (r : Rendering t) : List Line :=
  r.before.map .blank ++ [.border r.top, .row r.header, .border r.middle] ++ r.rows.map .row ++
    [.border r.bottom] ++ r.after.map .blank

def Rendering.text (r : Rendering t) : String := textOf r.lines

def Cell.padded (c : Cell) : Padded := ⟨0, c.toList, 0⟩

theorem map_text_padded (cells : List Cell) :
    (cells.map Cell.padded).map Padded.text = cells.map Cell.toList := by
  rw [List.map_map]
  rfl

/-- Every table can be printed. -/
def Table.rendering (t : Table) : Rendering t where
  before := []
  top := []
  header := t.header.map Cell.padded
  middle := []
  rows := t.rows.map (List.map Cell.padded)
  bottom := []
  after := []
  header_texts := map_text_padded t.header
  rows_texts := by
    rw [List.map_map]
    exact List.map_congr_left fun cells _ => map_text_padded cells
  top_line := List.not_mem_nil
  middle_line := List.not_mem_nil
  bottom_line := List.not_mem_nil

instance instInhabitedRendering (t : Table) : Inhabited (Rendering t) := ⟨t.rendering⟩

theorem map_fst_zip_sublist {α β : Type*} (xs : List α) (ys : List β) :
    ((xs.zip ys).map Prod.fst).Sublist xs := by
  induction xs generalizing ys with
  | nil => exact List.Sublist.refl []
  | cons x xs ih =>
    cases ys with
    | nil => exact List.nil_sublist _
    | cons y ys => exact (ih ys).cons_cons x

/-- The hash of a row: each header with the cell below it. -/
def Table.hash (t : Table) (cells : List Cell) : Row where
  entries := (t.header.map fun c => some c.val).zip (cells.map fun c => some c.val)
  nodup := by
    have hnodup : (t.header.map fun c : Cell => some c.val).Nodup :=
      t.header_nodup.map fun _ _ h => Subtype.ext (Option.some.inj h)
    exact hnodup.sublist (map_fst_zip_sublist _ _)

/-- The value in the last row of a property. -/
def Table.LastValue (t : Table) (property value : String) : Prop :=
  ∃ before p v after, t.rows = before ++ [p, v] :: after ∧ p.val = property ∧ v.val = value ∧
    ∀ cells ∈ after, ∀ c ∈ cells.head?, c.val ≠ property

/-- What is to be read of a table: its rows, or one hash where they are properties. -/
def Table.ReadAs (t : Table) (out : List Row) : Prop :=
  if t.header.map Subtype.val = ["Property", "Value"] then
    ∃ obj : Row, out = [obj] ∧ ∀ key val, obj.get? key = some val ↔
      ∃ property value, key = some property ∧ val = some value ∧ t.LastValue property value
  else out = t.rows.map t.hash

end Tables

section Reading

variable {t : Table}

theorem filterMap_blank (ns : List ℕ) : (ns.map Line.blank).filterMap Line.texts = [] := by
  rw [List.filterMap_map, List.filterMap_eq_nil_iff]
  intro n _
  rfl

theorem filterMap_row (rows : List (List Padded)) :
    (rows.map Line.row).filterMap Line.texts = rows.map (List.map Padded.text) := by
  rw [List.filterMap_map]
  exact congrFun List.filterMap_eq_map rows

theorem Rendering.texts (r : Rendering t) : r.lines.filterMap Line.texts =
    t.header.map Cell.toList :: t.rows.map (List.map Cell.toList) := by
  have hhead : [Line.border r.top, .row r.header, .border r.middle].filterMap Line.texts =
      [r.header.map Padded.text] := rfl
  have hbottom : [Line.border r.bottom].filterMap Line.texts = [] := rfl
  rw [← r.header_texts, ← r.rows_texts, Rendering.lines, List.filterMap_append,
    List.filterMap_append, List.filterMap_append, List.filterMap_append, filterMap_blank,
    filterMap_blank, filterMap_row, hhead, hbottom, List.append_nil, List.append_nil,
    List.nil_append, List.singleton_append]

/-- Padded cells are a line of the table. -/
theorem proper_row {cells : List Padded} {texts : List Cell}
    (h : cells.map Padded.text = texts.map Cell.toList) (hne : texts ≠ []) :
    (Line.row cells).Proper := by
  refine ⟨?_, ?_⟩
  · rintro rfl
    exact hne (List.map_eq_nil_iff.mp h.symm)
  · intro c hc
    obtain ⟨cell, -, htext⟩ := List.mem_map.mp (h ▸ List.mem_map_of_mem (f := Padded.text) hc)
    rw [← htext]
    exact cell.newline_notMem

theorem Rendering.proper (r : Rendering t) : ∀ l ∈ r.lines, l.Proper := by
  intro l hl
  simp only [lines, List.mem_append, List.mem_map, List.mem_cons, List.not_mem_nil,
    or_false] at hl
  rcases hl with (((⟨n, -, rfl⟩ | rfl | rfl | rfl) | ⟨cells, hcells, rfl⟩) | rfl) | ⟨n, -, rfl⟩
  · trivial
  · exact r.top_line
  · exact proper_row r.header_texts t.header_ne_nil
  · exact r.middle_line
  · obtain ⟨texts, htexts, heq⟩ := List.mem_map.mp
      (r.rows_texts ▸ List.mem_map_of_mem (f := List.map Padded.text) hcells)
    apply proper_row heq.symm
    rintro rfl
    exact t.header_ne_nil (List.length_eq_zero_iff.mp (t.fits [] htexts).symm)
  · exact r.bottom_line
  · trivial

theorem Table.newobj_eq (t : Table) {cells : List Cell} (hcells : cells ∈ t.rows) :
    newobj (t.header.map Subtype.val) (cells.map Subtype.val) = t.hash cells := by
  have hentries : (newobj (t.header.map Subtype.val) (cells.map Subtype.val)).entries =
      (t.hash cells).entries := by
    rw [entries_newobj (t.header_nodup.map Subtype.val_injective) (by simp [t.fits cells hcells]),
      List.map_map, List.map_map]
    rfl
  exact Hash.eq_of_entries hentries

/-- The rows are read one by one; what becomes of them depends on the header. -/
theorem prettytableToArray_text (r : Rendering t) : prettytableToArray (some r.text) =
    flatten (t.header.map Subtype.val) (t.rows.map t.hash) := by
  have hheader : columnsOf (t.header.map Cell.toList) ≠ [] := by
    rw [columnsOf_cells]
    exact fun hnil => t.header_ne_nil (List.map_eq_nil_iff.mp hnil)
  rw [Rendering.text, prettytableToArray_textOf r.proper r.texts hheader, columnsOf_cells,
    List.map_map]
  refine congrArg (flatten _) (List.map_congr_left ?_)
  intro cells hcells
  rw [Function.comp_apply, columnsOf_cells, t.newobj_eq hcells]

/-- The two cells of a property under its headers. -/
theorem hash_property (hproperties : t.header.map Subtype.val = ["Property", "Value"])
    (cells : List Cell) (hcells : cells ∈ t.rows) :
    ∃ p v, cells = [p, v] ∧ value (t.hash cells) (some "Property") = some p.val ∧
      value (t.hash cells) (some "Value") = some v.val := by
  have hlen : cells.length = 2 := by
    rw [t.fits cells hcells, ← List.length_map (f := Subtype.val), hproperties]
    rfl
  obtain ⟨p, v, rfl⟩ := List.length_eq_two.mp hlen
  have hentries : (t.hash [p, v]).entries =
      [(some "Property", some p.val), (some "Value", some v.val)] := by
    have hmap : t.header.map (fun c => some c.val) = ["Property", "Value"].map some := by
      rw [← hproperties, List.map_map]
      rfl
    show (t.header.map fun c => some c.val).zip ([p, v].map fun c => some c.val) = _
    rw [hmap]
    rfl
  refine ⟨p, v, rfl, ?_, ?_⟩
  · rw [value, Hash.get?, hentries]
    rfl
  · rw [value, Hash.get?, hentries]
    rfl

/-- The value in the last row whose property is the key. -/
theorem lastValue_iff (hproperties : t.header.map Subtype.val = ["Property", "Value"])
    {key val : Option String} :
    (∃ cells, (t.rows.findRev? fun cells => value (t.hash cells) (some "Property") = key) =
        some cells ∧ value (t.hash cells) (some "Value") = val) ↔
      ∃ property value, key = some property ∧ val = some value ∧ t.LastValue property value := by
  simp only [Hash.findRev?_eq_some]
  constructor
  · rintro ⟨cells, ⟨hkey, before, after, hrows, hafter⟩, hval⟩
    obtain ⟨p, v, rfl, hp, hv⟩ := hash_property hproperties cells (by simp [hrows])
    refine ⟨p.val, v.val, hkey.symm.trans hp, hval.symm.trans hv, before, p, v, after, hrows, rfl,
      rfl, ?_⟩
    intro cells hcells c hc heq
    obtain ⟨p', v', rfl, hp', -⟩ := hash_property hproperties cells
      (by simp [hrows, hcells])
    obtain rfl := Option.some.inj hc
    exact hafter _ hcells (hp'.trans ((congrArg some heq).trans (hp.symm.trans hkey)))
  · rintro ⟨property, val, rfl, rfl, before, p, v, after, hrows, rfl, rfl, hafter⟩
    obtain ⟨p', v', heq, hp, hv⟩ := hash_property hproperties [p, v] (by simp [hrows])
    obtain ⟨rfl, rfl⟩ : p = p' ∧ v = v' := by simpa using heq
    refine ⟨[p, v], ⟨hp, before, after, hrows, ?_⟩, hv⟩
    intro cells hcells heq
    obtain ⟨p', v', rfl, hp', -⟩ := hash_property hproperties cells
      (by simp [hrows, hcells])
    exact hafter _ hcells p' rfl (Option.some.inj (hp'.symm.trans heq))

/-- The round trip. -/
theorem prettytableToArray_rendering (t : Table) (r : Rendering t) :
    t.ReadAs (prettytableToArray (some r.text)) := by
  rw [prettytableToArray_text, flatten, Table.ReadAs]
  split
  next hproperties =>
    refine ⟨_, rfl, ?_⟩
    intro key val
    rw [List.foldl_map, Hash.get?_foldl_store, Hash.get?_empty, Option.or_none,
      Option.map_eq_some_iff, ← lastValue_iff hproperties]
  next => rfl

end Reading

end CompassAdapters.Openstack
