import CompassAdapters.Openstack.Parse

/-! Tables as they are printed, and that they are read back. -/
namespace CompassAdapters.Openstack
open Ruby

section Lines

/-- A cell with more than one blank on each side, perhaps. -/
structure Padded where
  left : ℕ
  text : List Char
  right : ℕ

def Padded.render (c : Padded) : List Char :=
  List.replicate (c.left + 1) ' ' ++ c.text ++ List.replicate (c.right + 1) ' '

inductive Line
  | blank (n : ℕ)
  | border (rest : List Char)
  | row (cells : List Padded)

namespace Line

def render : Line → List Char
  | blank n => List.replicate n ' '
  | border rest => ['+', '-', '-'] ++ rest
  | row cells => '|' :: cells.flatMap fun c => c.render ++ ['|']

/-- A line is one line, and a row has a cell. -/
def Proper : Line → Prop
  | blank _ => True
  | border rest => '\n' ∉ rest
  | row cells => cells ≠ [] ∧ ∀ c ∈ cells, '\n' ∉ c.text

/-- What a row says. -/
def texts : Line → Option (List (List Char))
  | blank _ => none
  | border _ => none
  | row cells => some (cells.map Padded.text)

end Line

/-- The columns that are read of some texts; a text with bars is more than one. -/
def columnsOf (texts : List (List Char)) : List String :=
  texts.flatMap fun t => (t.splitOn '|').map fun x => String.ofList (Text.strip x)

theorem blank_replicate (n : ℕ) : ∀ c ∈ List.replicate n ' ', Text.isBlank c = true := by
  intro c hc
  rw [List.eq_of_mem_replicate hc]
  rfl

theorem splitOn_row (cells : List Padded) :
    (cells.flatMap fun c => c.render ++ ['|']).splitOn '|' =
      (cells.flatMap fun c => c.render.splitOn '|') ++ [[]] := by
  induction cells with
  | nil => rfl
  | cons c cells ih =>
    rw [List.flatMap_cons, List.flatMap_cons, List.append_assoc, List.append_assoc,
      List.singleton_append, List.splitOn_append_cons_self, ih]

theorem render_concat (c : Padded) : ∃ s, c.render = s ++ [' '] :=
  ⟨List.replicate (c.left + 1) ' ' ++ c.text ++ List.replicate c.right ' ', by
    rw [Padded.render, List.replicate_succ' (n := c.right), ← List.append_assoc]⟩

theorem splitOn_render (c : Padded) :
    (c.render.splitOn '|').map (fun x => String.ofList (Text.strip x)) =
      (c.text.splitOn '|').map fun x => String.ofList (Text.strip x) := by
  have hstrip := congrArg (List.map String.ofList)
    (Text.map_strip_splitOn (c := '|') (by decide) (blank_replicate (c.left + 1))
      (blank_replicate (c.right + 1)) c.text)
  rwa [List.map_map, List.map_map] at hstrip

theorem strip_row {cells : List Padded} (hcells : cells ≠ []) :
    Text.strip (Line.row cells).render = (Line.row cells).render := by
  obtain ⟨init, c, rfl⟩ := (List.eq_nil_or_concat' cells).resolve_left hcells
  rw [Line.render, Text.strip_cons (by decide), List.flatMap_append, List.flatMap_singleton,
    ← List.append_assoc, Text.rstrip_concat (by decide)]

theorem columns_row {cells : List Padded} (hcells : cells ≠ []) :
    columns (Line.row cells).render = columnsOf (cells.map Padded.text) := by
  have hsplit : Text.split '|' (Line.row cells).render =
      [] :: cells.flatMap fun c => c.render.splitOn '|' := by
    rw [Text.split, Line.render, List.splitOn_cons_eq_if_modifyHead, if_pos (by decide),
      splitOn_row, ← List.cons_append, List.rdropWhile_concat_pos _ _ _ (by simp)]
    obtain ⟨init, c, rfl⟩ := (List.eq_nil_or_concat' cells).resolve_left hcells
    obtain ⟨s, hs⟩ := render_concat c
    obtain ⟨ps, p, hp⟩ := Text.splitOn_concat (c := '|') (x := ' ') (by decide) s
    rw [List.flatMap_append, List.flatMap_singleton, hs, hp, ← List.append_assoc,
      ← List.cons_append, List.rdropWhile_concat_neg]
    simp
  rw [columns, hsplit, List.map_cons, List.tail_cons, List.map_flatMap, columnsOf,
    List.flatMap_map]
  exact List.flatMap_congr fun c _ => splitOn_render c

/-- The lines of a text. -/
def textOf (lines : List Line) : String :=
  String.ofList (['\n'].intercalate (lines.map Line.render))

theorem newline_notMem {l : Line} (h : l.Proper) : '\n' ∉ l.render := by
  cases l with
  | blank n => simp [Line.render, List.mem_replicate]
  | border rest =>
    have hrest : '\n' ∉ rest := h
    simpa [Line.render] using hrest
  | row cells =>
    obtain ⟨-, hcells⟩ : cells ≠ [] ∧ ∀ c ∈ cells, '\n' ∉ c.text := h
    simp only [Line.render, List.mem_cons, List.mem_flatMap, List.mem_append, Padded.render,
      List.mem_replicate]
    rintro (hbar | ⟨c, hc, hin⟩)
    · exact absurd hbar (by decide)
    · simp [hcells c hc] at hin

theorem read_row {cells : List Padded} (hcells : cells ≠ []) (st : List String × List Row) :
    readLine st (Text.strip (Line.row cells).render) =
      if st.1 = [] then (columnsOf (cells.map Padded.text), st.2)
      else (st.1, st.2 ++ [newobj st.1 (columnsOf (cells.map Padded.text))]) := by
  rw [strip_row hcells, readLine, columns_row hcells]
  rfl

theorem read_blank (n : ℕ) (st : List String × List Row) :
    readLine st (Text.strip (Line.blank n).render) = st := by
  rw [Line.render, Text.strip_blank (blank_replicate n)]
  rfl

theorem read_border (rest : List Char) (st : List String × List Row) :
    readLine st (Text.strip (Line.border rest).render) = st := by
  have hstrip : ∃ rest', Text.strip (Line.border rest).render = ['+', '-', '-'] ++ rest' := by
    have hdash : Text.isBlank '-' = false := by decide
    refine ⟨Text.rstrip rest, ?_⟩
    rw [Line.render, List.cons_append, Text.strip_cons (by decide), List.cons_append,
      Text.rstrip_cons, if_neg (by simp [hdash]), List.cons_append, Text.rstrip_cons,
      if_neg (by simp [hdash])]
    rfl
  obtain ⟨rest', hstrip⟩ := hstrip
  rw [hstrip]
  rfl

/-- The loop over the lines of a table. -/
theorem foldl_readLine {lines : List Line} (h : ∀ l ∈ lines, l.Proper)
    {header : List (List Char)} {rows : List (List (List Char))}
    (htexts : lines.filterMap Line.texts = header :: rows) (hheader : columnsOf header ≠ []) :
    ((lines.map Line.render).map Text.strip).foldl readLine ([], []) =
      (columnsOf header, rows.map fun texts => newobj (columnsOf header) (columnsOf texts)) := by
  have hrows (lines : List Line) (h : ∀ l ∈ lines, l.Proper) (ret : List Row) :
      ((lines.map Line.render).map Text.strip).foldl readLine (columnsOf header, ret) =
        (columnsOf header, ret ++ (lines.filterMap Line.texts).map fun texts =>
          newobj (columnsOf header) (columnsOf texts)) := by
    induction lines generalizing ret with
    | nil => simp
    | cons l lines ih =>
      obtain ⟨hl, hlines⟩ := List.forall_mem_cons.mp h
      rw [List.map_cons, List.map_cons, List.foldl_cons]
      cases l with
      | blank n => rw [read_blank, ih hlines]; rfl
      | border rest => rw [read_border, ih hlines]; rfl
      | row cells =>
        rw [read_row hl.1, if_neg hheader, ih hlines, List.append_assoc]
        rfl
  induction lines with
  | nil => cases htexts
  | cons l lines ih =>
    obtain ⟨hl, hlines⟩ := List.forall_mem_cons.mp h
    rw [List.map_cons, List.map_cons, List.foldl_cons]
    cases l with
    | blank n => rw [read_blank]; exact ih hlines htexts
    | border rest => rw [read_border]; exact ih hlines htexts
    | row cells =>
      obtain ⟨rfl, hrest⟩ := List.cons.inj htexts
      rw [read_row hl.1, if_pos rfl, hrows lines hlines, hrest, List.nil_append]

/-- The rows of a table are read as hashes over its header. -/
theorem prettytableToArray_textOf {lines : List Line} (h : ∀ l ∈ lines, l.Proper)
    {header : List (List Char)} {rows : List (List (List Char))}
    (htexts : lines.filterMap Line.texts = header :: rows) (hheader : columnsOf header ≠ []) :
    prettytableToArray (some (textOf lines)) = flatten (columnsOf header)
      (rows.map fun texts => newobj (columnsOf header) (columnsOf texts)) := by
  have hlines : (textOf lines).toList.splitOn '\n' = lines.map Line.render := by
    rw [textOf, String.toList_ofList, List.splitOn_intercalate]
    · intro l hl
      obtain ⟨line, hline, rfl⟩ := List.mem_map.mp hl
      exact newline_notMem (h line hline)
    · rintro hnil
      rw [List.map_eq_nil_iff.mp hnil] at htexts
      cases htexts
  rw [prettytableToArray, hlines, foldl_readLine h htexts hheader]

end Lines

section Objects

variable {indicies cols : List String}

theorem newobj_concat (indicies cols : List String) (val : String) :
    newobj indicies (cols ++ [val]) =
      (newobj indicies cols).store indicies[(newobj indicies cols).entries.length]? (some val) :=
  List.foldl_append

/-- The columns of a header take the values in order. -/
theorem entries_newobj (hnodup : indicies.Nodup) (hlen : cols.length ≤ indicies.length) :
    (newobj indicies cols).entries = (indicies.map some).zip (cols.map some) := by
  induction cols using List.reverseRecOn with
  | nil => simp [newobj, Hash.empty]
  | append_singleton cols val ih =>
    rw [List.length_append, List.length_singleton] at hlen
    have hentries := ih (by omega)
    have hsize : (newobj indicies cols).entries.length = cols.length := by
      rw [hentries, List.length_zip, List.length_map, List.length_map]
      omega
    obtain ⟨before, index, after, rfl, hbefore⟩ : ∃ before index after,
        indicies = before ++ index :: after ∧ before.length = cols.length :=
      ⟨indicies.take cols.length, indicies[cols.length], indicies.drop (cols.length + 1),
        by rw [List.getElem_cons_drop, List.take_append_drop], by rw [List.length_take]; omega⟩
    have hkey : (before ++ index :: after)[cols.length]? = some index := by
      rw [← hbefore, List.getElem?_append_right (Nat.le_refl _), Nat.sub_self]
      rfl
    have hzip : ((before ++ index :: after).map some).zip (cols.map some) =
        (before.map some).zip (cols.map some) := by
      rw [← List.append_nil (cols.map some), List.map_append, List.zip_append (by simp [hbefore]),
        List.zip_nil_right, List.append_nil, List.append_nil]
    have hnew : some index ∉ ((before.map some).zip (cols.map some)).map Prod.fst := by
      rw [List.map_fst_zip (by simp [hbefore]), List.mem_map_of_injective (Option.some_injective _)]
      intro hmem
      exact (List.nodup_append.mp hnodup).2.2 index hmem index List.mem_cons_self rfl
    rw [newobj_concat, hsize, hkey]
    show Hash.storeEntries _ _ (newobj _ cols).entries = _
    rw [hentries, hzip, Hash.storeEntries_of_notMem hnew, List.map_append, List.map_append,
      List.zip_append (by simp [hbefore]), List.map_cons, List.map_singleton, List.zip_cons_cons,
      List.zip_nil_right]

/-- Values without a column go under `nil`. -/
theorem get?_newobj_append (hlen : indicies.length = cols.length) (hnodup : indicies.Nodup)
    (more : List String) (k : String) :
    (newobj indicies (cols ++ more)).get? (some k) = (newobj indicies cols).get? (some k) := by
  have hsize : indicies.length ≤ (newobj indicies cols).entries.length := by
    rw [entries_newobj hnodup (by omega), List.length_zip, List.length_map, List.length_map]
    omega
  have hmore (obj : Row) (hobj : indicies.length ≤ obj.entries.length) :
      (more.foldl (fun obj val => obj.store indicies[obj.entries.length]? (some val)) obj).get?
        (some k) = obj.get? (some k) := by
    induction more generalizing obj with
    | nil => rfl
    | cons val more ih =>
      have hnil : indicies[obj.entries.length]? = none := List.getElem?_eq_none hobj
      have hgrow (es : List (Option String × Option String)) :
          es.length ≤ (Hash.storeEntries none (some val) es).length := by
        have hmap := congrArg List.length (Hash.map_fst_storeEntries none (some val) es)
        rw [List.length_map] at hmap
        rw [hmap]
        split <;> simp
      rw [List.foldl_cons, hnil, ih, Hash.get?_store, Function.update_of_ne (Option.some_ne_none k)]
      exact hobj.trans (hgrow _)
  rw [newobj, List.foldl_append]
  exact hmore _ hsize

/-- An object has some values. -/
def Shows (obj : Row) (kvs : List (String × String)) : Prop :=
  ∀ k v, (k, v) ∈ kvs → value obj (some k) = some v

/-- A row has the values of its columns. -/
theorem shows_newobj (hnodup : indicies.Nodup) (hlen : cols.length ≤ indicies.length) :
    Shows (newobj indicies cols) (indicies.zip cols) := by
  intro k v hkv
  have hget : (newobj indicies cols).get? (some k) = some (some v) := by
    rw [← Hash.mem_entries, entries_newobj hnodup hlen, List.zip_map]
    exact List.mem_map.mpr ⟨(k, v), hkv, rfl⟩
  rw [value, hget]
  rfl

theorem mem_zip_append {α β : Type*} {xs : List α} {ys : List β} {p : α × β} (h : p ∈ xs.zip ys)
    (zs : List β) : p ∈ xs.zip (ys ++ zs) := by
  induction xs generalizing ys with
  | nil => cases h
  | cons x xs ih =>
    cases ys with
    | nil => cases h
    | cons y ys =>
      rw [List.cons_append, List.zip_cons_cons, List.mem_cons]
      rw [List.zip_cons_cons, List.mem_cons] at h
      exact h.imp_right ih

/-- So does a row whose last value is read as more than one. -/
theorem shows_newobj_append (hnodup : indicies.Nodup) (hlen : cols.length + 1 = indicies.length)
    (val : String) (more : List String) :
    Shows (newobj indicies (cols ++ val :: more)) (indicies.zip cols) := by
  intro k v hkv
  have hlast : indicies.length = (cols ++ [val]).length := by
    rw [List.length_append, List.length_singleton, hlen]
  have hshow := shows_newobj hnodup hlast.ge k v (mem_zip_append hkv [val])
  rw [List.append_cons, value, get?_newobj_append hlast hnodup]
  exact hshow

end Objects

section Tables

/-- Text that is read as it was printed. -/
def Clean (s : String) : Prop :=
  '|' ∉ s.toList ∧ '\n' ∉ s.toList ∧ Text.strip s.toList = s.toList

instance instDecidableClean (s : String) : Decidable (Clean s) :=
  inferInstanceAs (Decidable (_ ∧ _))

/-- A name, an identifier, a region or an address. -/
abbrev Cell := { s : String // Clean s }

def Cell.toList (c : Cell) : List Char := c.val.toList

/-- What a table says of one thing: cells, and perhaps any text in the last column. -/
structure Record where
  cells : List Cell
  free : Option String

/-- The rows for one thing. Text with more than one line makes more than one row. -/
def Record.texts (r : Record) : List (List (List Char)) :=
  match r.free with
  | none => [r.cells.map Cell.toList]
  | some free =>
    match free.toList.splitOn '\n' with
    | [] => []
    | line :: lines => (r.cells.map Cell.toList ++ [line]) ::
        lines.map fun line => List.replicate r.cells.length [] ++ [line]

/-- The text is a table of some things in some order. -/
def Prints (header : List Cell) (rows : List Record) (text : String) : Prop :=
  ∃ lines rows', (∀ l ∈ lines, Line.Proper l) ∧ text = textOf lines ∧ List.Perm rows' rows ∧
    lines.filterMap Line.texts = header.map Cell.toList :: rows'.flatMap Record.texts

theorem columnsOf_cells (cells : List Cell) :
    columnsOf (cells.map Cell.toList) = cells.map Subtype.val := by
  rw [columnsOf, List.flatMap_map, List.map_eq_flatMap]
  apply List.flatMap_congr
  intro c _
  have hclean : Clean c.val := c.property
  rw [Cell.toList, List.splitOn_eq_singleton hclean.1, List.map_singleton, hclean.2.2,
    String.ofList_toList]

def emptyCell : Cell := ⟨"", by decide⟩

variable {header : List Cell} {rows : List Record} {text : String}

theorem shows_line (hnodup : header.Nodup) {cells : List Cell}
    (hlen : cells.length + 1 = header.length) (line : List Char) :
    Shows (newobj (header.map Subtype.val) (columnsOf (cells.map Cell.toList ++ [line])))
      ((header.map Subtype.val).zip (cells.map Subtype.val)) := by
  have hcols : columnsOf (cells.map Cell.toList ++ [line]) =
      cells.map Subtype.val ++ (line.splitOn '|').map fun x => String.ofList (Text.strip x) := by
    rw [← columnsOf_cells, columnsOf, columnsOf, List.flatMap_append, List.flatMap_singleton]
  rw [hcols]
  cases hline : line.splitOn '|' with
  | nil => exact absurd hline (List.splitOn_ne_nil '|' line)
  | cons p ps =>
    apply shows_newobj_append
    · exact hnodup.map Subtype.val_injective
    · rw [List.length_map, List.length_map, hlen]

/-- The hashes that are read of the rows for one thing. -/
def Record.objects (header : List Cell) (r : Record) : List Row :=
  r.texts.map fun texts => newobj (header.map Subtype.val) (columnsOf texts)

/-- A thing has a cell for each column, but for the last one if that has any text. -/
def Record.Fits (header : List Cell) (r : Record) : Prop :=
  match r.free with
  | none => r.cells.length = header.length
  | some _ => r.cells.length + 1 = header.length

/-- One of the hashes shows the cells of the thing. -/
theorem Record.exists_shows {r : Record} (hnodup : header.Nodup) (hr : r.Fits header) :
    ∃ obj ∈ r.objects header,
      Shows obj ((header.map Subtype.val).zip (r.cells.map Subtype.val)) := by
  obtain ⟨cells, free⟩ := r
  cases free with
  | none =>
    have hlen : cells.length = header.length := hr
    refine ⟨_, List.mem_singleton_self _, ?_⟩
    simp only [columnsOf_cells]
    exact shows_newobj (hnodup.map Subtype.val_injective) (by simp [hlen])
  | some free =>
    cases hlines : free.toList.splitOn '\n' with
    | nil => exact absurd hlines (List.splitOn_ne_nil _ _)
    | cons line lines =>
      refine ⟨_, ?_, shows_line hnodup hr line⟩
      simp [objects, texts, hlines]

/-- The text in the last column has more than one line. -/
def Record.Breaks (r : Record) : Prop := ∃ free, r.free = some free ∧ '\n' ∈ free.toList

/-- A further line shows nothing in the columns before. -/
theorem shows_further (hnodup : header.Nodup) {n : ℕ} (hlen : n + 1 = header.length)
    (line : List Char) :
    Shows (newobj (header.map Subtype.val) (columnsOf (List.replicate n [] ++ [line])))
      ((header.map Subtype.val).zip (List.replicate n "")) := by
  have hempty : List.replicate n [] = (List.replicate n emptyCell).map Cell.toList := by
    rw [List.map_replicate]
    rfl
  have hval : List.replicate n "" = (List.replicate n emptyCell).map Subtype.val := by
    rw [List.map_replicate]
    rfl
  rw [hempty, hval]
  exact shows_line hnodup (by rw [List.length_replicate, hlen]) line

/-- The others show nothing but the text in the last column. -/
theorem Record.objects_show {r : Record} (hnodup : header.Nodup) (hr : r.Fits header) {obj : Row}
    (hobj : obj ∈ r.objects header) :
    Shows obj ((header.map Subtype.val).zip (r.cells.map Subtype.val)) ∨
    r.Breaks ∧
      Shows obj ((header.map Subtype.val).zip (List.replicate r.cells.length "")) := by
  obtain ⟨cells, free⟩ := r
  obtain ⟨texts, htexts, rfl⟩ := List.mem_map.mp hobj
  cases free with
  | none =>
    have hlen : cells.length = header.length := hr
    obtain rfl := List.mem_singleton.mp htexts
    simp only [columnsOf_cells]
    exact Or.inl (shows_newobj (hnodup.map Subtype.val_injective) (by simp [hlen]))
  | some free =>
    have hlen : cells.length + 1 = header.length := hr
    cases hlines : free.toList.splitOn '\n' with
    | nil => exact absurd hlines (List.splitOn_ne_nil _ _)
    | cons line lines =>
      simp only [Record.texts, hlines, List.mem_cons, List.mem_map] at htexts
      rcases htexts with rfl | ⟨line', hline', rfl⟩
      · exact Or.inl (shows_line hnodup hlen line)
      · refine Or.inr ⟨⟨free, rfl, ?_⟩, shows_further hnodup hlen line'⟩
        by_contra hnot
        rw [List.splitOn_eq_singleton hnot, List.cons.injEq] at hlines
        rw [← hlines.2] at hline'
        cases hline'

/-- Each further line makes such a hash. -/
theorem Record.exists_further {r : Record} (hnodup : header.Nodup) (hr : r.Fits header)
    (hbreaks : r.Breaks) : ∃ obj ∈ r.objects header,
      Shows obj ((header.map Subtype.val).zip (List.replicate r.cells.length "")) := by
  obtain ⟨cells, _⟩ := r
  obtain ⟨free, rfl, hmem⟩ := hbreaks
  match hlines : free.toList.splitOn '\n' with
  | [] => exact absurd hlines (List.splitOn_ne_nil _ _)
  | [line] =>
    have hjoin : ['\n'].intercalate (free.toList.splitOn '\n') = free.toList :=
      List.intercalate_splitOn '\n'
    rw [hlines, List.intercalate_singleton] at hjoin
    have hline : line ∈ free.toList.splitOn '\n' := by
      rw [hlines]
      exact List.mem_singleton_self line
    exact absurd (hjoin ▸ hmem) (Text.notMem_of_mem_splitOn hline)
  | line :: line' :: lines =>
    refine ⟨_, ?_, shows_further hnodup hr line'⟩
    simp [objects, texts, hlines]

/-- A row with one blank on each side of a cell. -/
def plainRow (texts : List (List Char)) : Line := .row (texts.map fun t => ⟨0, t, 0⟩)

/-- A table whose columns are not aligned. -/
def plainTable (header : List Cell) (rows : List Record) : String :=
  textOf (.border [] :: plainRow (header.map Cell.toList) :: .border [] ::
    (rows.flatMap Record.texts).map plainRow ++ [.border [], .blank 0])

theorem texts_plainRow (texts : List (List Char)) : (plainRow texts).texts = some texts := by
  rw [plainRow, Line.texts, List.map_map]
  exact congrArg some (List.map_id texts)

theorem proper_plainRow {texts : List (List Char)} (hne : texts ≠ [])
    (hlines : ∀ t ∈ texts, '\n' ∉ t) : (plainRow texts).Proper := by
  refine ⟨fun hnil => hne (List.map_eq_nil_iff.mp hnil), ?_⟩
  intro c hc
  obtain ⟨t, ht, rfl⟩ := List.mem_map.mp hc
  exact hlines t ht

theorem Cell.newline_notMem (c : Cell) : '\n' ∉ c.toList := c.property.2.1

theorem Record.proper_texts {r : Record} (hheader : header ≠ []) (hr : r.Fits header)
    {texts : List (List Char)} (htexts : texts ∈ r.texts) : (plainRow texts).Proper := by
  obtain ⟨cells, free⟩ := r
  have hcells (cells : List Cell) : ∀ t ∈ cells.map Cell.toList, '\n' ∉ t :=
    List.forall_mem_map.mpr fun c _ => c.newline_notMem
  cases free with
  | none =>
    have hlen : cells.length = header.length := hr
    obtain rfl := List.mem_singleton.mp htexts
    apply proper_plainRow _ (hcells cells)
    rintro hnil
    rw [List.map_eq_nil_iff.mp hnil] at hlen
    exact hheader (List.length_eq_zero_iff.mp hlen.symm)
  | some free =>
    have hline : ∃ first line, texts = first ++ [line] ∧ (∀ t ∈ first, '\n' ∉ t) ∧
        line ∈ free.toList.splitOn '\n' := by
      cases hlines : free.toList.splitOn '\n' with
      | nil => exact absurd hlines (List.splitOn_ne_nil _ _)
      | cons line lines =>
        simp only [Record.texts, hlines, List.mem_cons, List.mem_map] at htexts
        rcases htexts with rfl | ⟨line', hline', rfl⟩
        · exact ⟨_, line, rfl, hcells cells, List.mem_cons_self⟩
        · refine ⟨_, line', rfl, ?_, List.mem_cons_of_mem _ hline'⟩
          intro t ht
          rw [List.eq_of_mem_replicate ht]
          exact List.not_mem_nil
    obtain ⟨first, line, rfl, hfirst, hline⟩ := hline
    apply proper_plainRow (List.append_ne_nil_of_right_ne_nil first (List.cons_ne_nil line []))
    intro t ht
    rcases List.mem_append.mp ht with ht | ht
    · exact hfirst t ht
    · rw [List.mem_singleton.mp ht]
      exact Text.notMem_of_mem_splitOn hline

theorem prints_plainTable (hheader : header ≠ []) (hrows : ∀ r ∈ rows, r.Fits header) :
    Prints header rows (plainTable header rows) := by
  refine ⟨_, rows, ?_, rfl, List.Perm.refl rows, ?_⟩
  · have hhead : (plainRow (header.map Cell.toList)).Proper :=
      proper_plainRow (fun hnil => hheader (List.map_eq_nil_iff.mp hnil))
        (List.forall_mem_map.mpr fun c _ => c.newline_notMem)
    have hbody : ∀ l ∈ (rows.flatMap Record.texts).map plainRow, l.Proper := by
      intro l hl
      obtain ⟨texts, htexts, rfl⟩ := List.mem_map.mp hl
      obtain ⟨r, hr, htexts⟩ := List.mem_flatMap.mp htexts
      exact Record.proper_texts hheader (hrows r hr) htexts
    have hborder : (Line.border []).Proper := List.not_mem_nil
    intro l hl
    simp only [List.cons_append, List.mem_cons, List.mem_append, List.not_mem_nil, or_false] at hl
    rcases hl with rfl | rfl | rfl | hl | rfl | rfl
    · exact hborder
    · exact hhead
    · exact hborder
    · exact hbody l hl
    · exact hborder
    · trivial
  · have htexts : ((rows.flatMap Record.texts).map plainRow).filterMap Line.texts =
        rows.flatMap Record.texts := by
      rw [List.filterMap_map]
      have hsome : Line.texts ∘ plainRow = some := funext texts_plainRow
      rw [hsome, List.filterMap_some]
    rw [List.cons_append, List.cons_append, List.cons_append, List.filterMap_cons_none rfl,
      List.filterMap_cons_some (texts_plainRow _), List.filterMap_cons_none rfl,
      List.filterMap_append, htexts]
    simp [Line.texts]

/-- A table is read as the hashes of its things. -/
theorem mem_prettytableToArray (h : Prints header rows text) (hheader : header ≠ [])
    (hproperties : header.map Subtype.val ≠ ["Property", "Value"]) {obj : Row} :
    obj ∈ prettytableToArray (some text) ↔ ∃ r ∈ rows, obj ∈ r.objects header := by
  obtain ⟨lines, rows', hproper, rfl, hperm, htexts⟩ := h
  have hcolumns := columnsOf_cells header
  have hread := prettytableToArray_textOf hproper htexts
    (by rw [hcolumns]; exact fun hnil => hheader (List.map_eq_nil_iff.mp hnil))
  rw [hcolumns, flatten, if_neg hproperties] at hread
  rw [hread, List.mem_map]
  simp only [Record.objects, List.mem_map, List.mem_flatMap, ← hperm.mem_iff]
  constructor
  · rintro ⟨texts, ⟨r, hr, hmem⟩, rfl⟩
    exact ⟨r, hr, texts, hmem, rfl⟩
  · rintro ⟨r, hr, texts, hmem, rfl⟩
    exact ⟨texts, ⟨r, hr, hmem⟩, rfl⟩

end Tables

end CompassAdapters.Openstack
