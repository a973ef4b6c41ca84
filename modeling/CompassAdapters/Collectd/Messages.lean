import CompassAdapters.Collectd.Types

/-! The configuration of `kairosdb_writer.py` and the messages that it writes. -/
namespace CompassAdapters.Collectd
open Ruby Ruby.Text

/-- The globals. The code does not tell `None` from an empty text in them. -/
structure Settings where
  host : List Char
  port : ℤ
  lowercase_metric_names : Bool
  metricPrefix : List Char
  types : Types
  hostPostfix : List Char
  tags : List Char
  host_separator : List Char
  metric_separator : List Char
  protocol : List Char

/-- The children of the configuration. For the port there is what `int` makes of the text. -/
inductive Child
  | kairosDBHost (value : List Char)
  | kairosDBPort (value : Option ℤ)
  | typesDB (values : List (List Char))
  | lowercaseMetricNames
  | metricPrefix (value : List Char)
  | hostPostfix (value : List Char)
  | hostSeparator (value : List Char)
  | metricSeparator (value : List Char)
  | kairosDBProtocol (value : List Char)
  | tags (values : List (List Char))
  | other

/-- A value list of collectd, with the texts that `%d` gives for the time and `%f` for the values. -/
structure ValueList where
  plugin : List Char
  plugin_instance : List Char
  type : List Char
  type_instance : List Char
  time : Word
  values : List (Option Word)

/-- What comes of `kairosdb_write` once there is a connection. -/
inductive Written
  | unknownType
  | differingNumber
  | valueError
  | message (s : List Char)

section Source

def initialSettings : Settings :=
  ⟨[], 0, false, [], Hash.empty, [], [], ['_'], ['.'], ['t', 'c', 'p']⟩

variable (read : List Char → Option (List Char))

/-- A file that cannot be opened ends the loop with an error. -/
def typesDB (types : Types) : List (List Char) → Types × Bool
  | [] => (types, true)
  | path :: paths =>
    match read path with
    | none => (types, false)
    | some file => typesDB (kairosdbParseTypesFile types file) paths

def configChild (g : Settings) : Child → Settings × Bool
  | .kairosDBHost value => ({ g with host := value }, true)
  | .kairosDBPort none => (g, false)
  | .kairosDBPort (some port) => ({ g with port }, true)
  | .typesDB values =>
    let (types, opened) := typesDB read g.types values
    ({ g with types }, opened)
  | .lowercaseMetricNames => ({ g with lowercase_metric_names := true }, true)
  | .metricPrefix value => ({ g with metricPrefix := value }, true)
  | .hostPostfix value => ({ g with hostPostfix := value }, true)
  | .hostSeparator value => ({ g with host_separator := value }, true)
  | .metricSeparator value => ({ g with metric_separator := value }, true)
  | .kairosDBProtocol value => ({ g with protocol := value }, true)
  | .tags values => ({ g with tags := g.tags ++ values.flatMap fun v => v ++ [' '] }, true)
  | .other => (g, true)

def configChildren (g : Settings) : List Child → Settings × Bool
  | [] => (g, true)
  | child :: children =>
    match configChild read g child with
    | (g, false) => (g, false)
    | (g, true) => configChildren g children

/-- The globals are as they are when an error comes. The second component says whether there was
none. -/
def kairosdbConfig (g : Settings) (children : List Child) : Settings × Bool :=
  match configChildren read g children with
  | (g, false) => (g, false)
  | (g, true) =>
    let tags := g.tags.flatMap fun c => if c = '.' then g.host_separator else [c]
    ({ g with tags }, !g.host.isEmpty && g.port != 0)

variable (g : Settings)

/-- `maketrans` is an error unless the separator is one character. -/
def sanitizeField (field : List Char) : Option (List Char) :=
  match g.metric_separator with
  | [sep] =>
    let field := (field.rdropWhile isSpace).dropWhile isSpace
    let field := (field.filter fun c => !(c == '(' || c == ')')).map fun c =>
      if c = ' ' ∨ c = '.' then sep else c
    some (if g.lowercase_metric_names then field.map Char.toLower else field)
  | _ => none

/-- An instance that is empty is left out. -/
def instanceField (field : List Char) : Option (List (List Char)) :=
  if field = [] then some [] else (sanitizeField g field).map fun s => [s]

def metricFields (v : ValueList) : Option (List (List Char)) := do
  let plugin_instance ← instanceField g v.plugin_instance
  let type_instance ← instanceField g v.type_instance
  return [g.metricPrefix, g.hostPostfix].filter (fun field => !field.isEmpty) ++
    [v.plugin] ++ plugin_instance ++ [v.type] ++ type_instance

def metric (metric_fields : List (List Char)) (ds : DataSource) : List Char :=
  ['.'].intercalate (metric_fields ++ [ds.ds_name])

def put : List Char := ['p', 'u', 't']

/-- The loop over the values, each with its data source. A value that is `None` gives nothing. -/
def eachValue {α : Type} (v_type : List DataSource) (v : ValueList) (f : DataSource → Word → α) :
    List α :=
  (v_type.zip v.values).filterMap fun e => e.2.map (f e.1)

def putLine (metric_fields : List (List Char)) (v : ValueList) (ds : DataSource) (value : Word) :
    List Char :=
  put ++ ' ' :: (metric metric_fields ds ++
    ' ' :: (v.time.val ++ ' ' :: (value.val ++ ' ' :: g.tags)))

def kairosdbWrite (v : ValueList) : Written :=
  match g.types.get? v.type with
  | none => .unknownType
  | some v_type =>
    if v_type.length ≠ v.values.length then .differingNumber
    else
      match metricFields g v with
      | none => .valueError
      | some metric_fields =>
        .message (['\n'].intercalate (eachValue v_type v (putLine g metric_fields v) ++ [[]]))

end Source

/-- The globals after some configurations, each with the files as they are at its time. -/
def configured (configs : List ((List Char → Option (List Char)) × List Child)) : Settings :=
  configs.foldl (fun g c => (kairosdbConfig c.1 g c.2).1) initialSettings

theorem isType_typesDB {read : List Char → Option (List Char)} {paths : List (List Char)}
    {types : Types} (htypes : ∃ files, readTypes files = types) :
    ∃ files, readTypes files = (typesDB read types paths).1 := by
  induction paths generalizing types with
  | nil => exact htypes
  | cons path paths ih =>
    rw [typesDB]
    cases read path with
    | none => exact htypes
    | some file =>
      obtain ⟨files, rfl⟩ := htypes
      apply ih
      exact ⟨files ++ [file], by rw [readTypes, List.foldl_concat, readTypes]⟩

theorem types_configChild {read : List Char → Option (List Char)} {g : Settings}
    (hg : ∃ files, readTypes files = g.types) (child : Child) :
    ∃ files, readTypes files = (configChild read g child).1.types := by
  cases child with
  | typesDB values => exact isType_typesDB hg
  | kairosDBPort value => cases value <;> exact hg
  | _ => exact hg

theorem types_configChildren {read : List Char → Option (List Char)} {g : Settings}
    (hg : ∃ files, readTypes files = g.types) (children : List Child) :
    ∃ files, readTypes files = (configChildren read g children).1.types := by
  induction children generalizing g with
  | nil => exact hg
  | cons child children ih =>
    have hchild : ∃ files, readTypes files = (configChild read g child).1.types :=
      types_configChild hg child
    rw [configChildren]
    split
    next heq =>
      rw [heq] at hchild
      exact hchild
    next heq =>
      rw [heq] at hchild
      exact ih hchild

/-- Whatever the configurations are, the table is one that some files give. -/
theorem types_configured (configs : List ((List Char → Option (List Char)) × List Child)) :
    ∃ files, readTypes files = (configured configs).types := by
  induction configs using List.reverseRecOn with
  | nil => exact ⟨[], rfl⟩
  | append_singleton configs c ih =>
    have hchildren : ∃ files,
        readTypes files = (configChildren c.1 (configured configs) c.2).1.types :=
      types_configChildren ih c.2
    rw [configured, List.foldl_concat, ← configured, kairosdbConfig]
    split
    next heq =>
      rw [heq] at hchildren
      exact hchildren
    next heq =>
      rw [heq] at hchildren
      exact hchildren

/-- Text without blanks, which may be empty. -/
abbrev Unbroken (s : List Char) : Prop := ∀ c ∈ s, isSpace c = false

theorem isSpace_eq_false {c : Char} (h : 32 < c.toNat) : isSpace c = false := by
  rw [isSpace, Bool.or_eq_false_iff, Bool.and_eq_false_iff]
  refine ⟨?_, Or.inr ?_⟩
  · rw [beq_eq_false_iff_ne]
    rintro rfl
    exact absurd h (by decide)
  · rw [decide_eq_false_iff_not]
    omega

theorem isSpace_toLower (c : Char) : isSpace c.toLower = isSpace c := by
  unfold Char.toLower
  split
  next h =>
    have hc : 65 ≤ c.toNat ∧ c.toNat ≤ 90 := h
    rw [isSpace_eq_false (c := c) (by omega), isSpace_eq_false]
    show 32 < (c.val + ('a'.val - 'A'.val)).toNat
    rw [UInt32.toNat_add]
    have hval : c.val.toNat = c.toNat := rfl
    have h32 : ('a'.val - 'A'.val).toNat = 32 := by decide
    omega
  next => rfl

/-- An instance that is sanitized to text without blanks. -/
def Fits (g : Settings) (field : List Char) : Prop :=
  ∀ c ∈ (field.rdropWhile isSpace).dropWhile isSpace,
    if c = ' ' ∨ c = '.' then Unbroken g.metric_separator else isSpace c = false

theorem unbroken_map_toLower {s : List Char} : Unbroken (s.map Char.toLower) ↔ Unbroken s := by
  simp only [Unbroken, List.forall_mem_map, isSpace_toLower]

theorem sanitizeField_unbroken {g : Settings} {field s : List Char}
    (h : sanitizeField g field = some s) : Unbroken s ↔ Fits g field := by
  unfold sanitizeField at h
  split at h
  next sep hsep =>
    have hlower (s : List Char) :
        Unbroken (if g.lowercase_metric_names then s.map Char.toLower else s) ↔ Unbroken s := by
      split
      next => exact unbroken_map_toLower
      next => rfl
    rw [← Option.some.inj h, hlower, Unbroken, List.forall_mem_map]
    simp only [Fits, List.mem_filter, hsep, Unbroken, List.forall_mem_singleton]
    have hmap (c : Char) : isSpace (if c = ' ' ∨ c = '.' then sep else c) = false ↔
        if c = ' ' ∨ c = '.' then isSpace sep = false else isSpace c = false := by
      split
      next => rfl
      next => rfl
    simp only [hmap]
    refine ⟨fun hs c hc => ?_, fun hs c hc => hs c hc.1⟩
    by_cases hparen : c = '(' ∨ c = ')'
    · have hsolid : isSpace c = false := by rcases hparen with rfl | rfl <;> decide
      have hkept : ¬ (c = ' ' ∨ c = '.') := by rcases hparen with rfl | rfl <;> decide
      rw [if_neg hkept]
      exact hsolid
    · exact hs c ⟨hc, by simpa using hparen⟩
  next => cases h

theorem instanceField_unbroken {g : Settings} {field : List Char} {fields : List (List Char)}
    (h : instanceField g field = some fields) : (∀ f ∈ fields, Unbroken f) ↔ Fits g field := by
  unfold instanceField at h
  split at h
  next hnil =>
    rw [← Option.some.inj h, hnil]
    exact iff_of_true (fun f hf => absurd hf List.not_mem_nil) fun c hc =>
      absurd hc List.not_mem_nil
  next =>
    obtain ⟨s, hs, rfl⟩ := Option.map_eq_some_iff.mp h
    rw [List.forall_mem_singleton, sanitizeField_unbroken hs]

theorem metricFields_unbroken {g : Settings} {v : ValueList} {fields : List (List Char)}
    (h : metricFields g v = some fields) :
    (∀ f ∈ fields, Unbroken f) ↔ Unbroken g.metricPrefix ∧ Unbroken g.hostPostfix ∧
      Unbroken v.plugin ∧ Fits g v.plugin_instance ∧ Unbroken v.type ∧ Fits g v.type_instance := by
  obtain ⟨plugin_instance, hplugin, h⟩ := Option.bind_eq_some_iff.mp h
  obtain ⟨type_instance, htype, h⟩ := Option.bind_eq_some_iff.mp h
  have hglobals : (∀ f ∈ [g.metricPrefix, g.hostPostfix].filter fun field => !field.isEmpty,
      Unbroken f) ↔ ∀ f ∈ [g.metricPrefix, g.hostPostfix], Unbroken f := by
    refine ⟨fun hf f hmem => ?_, fun hf f hmem => hf f (List.mem_of_mem_filter hmem)⟩
    cases f with
    | nil => exact fun c hc => absurd hc List.not_mem_nil
    | cons c f => exact hf _ (List.mem_filter.mpr ⟨hmem, rfl⟩)
  rw [← Option.some.inj h, List.forall_mem_append, List.forall_mem_append, List.forall_mem_append,
    List.forall_mem_append, List.forall_mem_singleton, List.forall_mem_singleton, hglobals,
    List.forall_mem_cons, List.forall_mem_singleton, instanceField_unbroken hplugin,
    instanceField_unbroken htype]
  simp only [and_assoc]

theorem unbroken_intercalate {fs : List (List Char)} :
    Unbroken (['.'].intercalate fs) ↔ ∀ f ∈ fs, Unbroken f := by
  induction fs with
  | nil => simp [Unbroken, List.intercalate]
  | cons f fs ih =>
    rw [List.forall_mem_cons, ← ih]
    cases fs with
    | nil => simp [Unbroken, List.intercalate]
    | cons f' fs =>
      rw [List.intercalate_cons_cons, Unbroken, List.forall_mem_append, List.forall_mem_append,
        List.forall_mem_singleton, and_assoc]
      exact and_congr_right fun _ => and_iff_right rfl

theorem metric_unbroken {fields : List (List Char)} {ds : DataSource} (hds : ds.Valid) :
    Unbroken (metric fields ds) ↔ ∀ f ∈ fields, Unbroken f := by
  rw [metric, unbroken_intercalate, List.forall_mem_append, List.forall_mem_singleton]
  exact and_iff_left (hds.noSpace ds.ds_name List.mem_cons_self)

theorem metric_ne_nil {g : Settings} {v : ValueList} {fields : List (List Char)}
    (h : metricFields g v = some fields) (ds : DataSource) : metric fields ds ≠ [] := by
  have hfields : fields ≠ [] := by
    obtain ⟨plugin_instance, hplugin, h⟩ := Option.bind_eq_some_iff.mp h
    obtain ⟨type_instance, htype, h⟩ := Option.bind_eq_some_iff.mp h
    rw [← Option.some.inj h]
    simp
  obtain ⟨f, fs, rfl⟩ := List.exists_cons_of_ne_nil hfields
  rw [metric, List.cons_append, List.intercalate_cons_of_ne_nil (by simp)]
  simp

theorem kairosdbWrite_eq_message {g : Settings} {v : ValueList} {s : List Char} :
    kairosdbWrite g v = .message s ↔ ∃ v_type fields, g.types.get? v.type = some v_type ∧
      metricFields g v = some fields ∧ v_type.length = v.values.length ∧
      s = (eachValue v_type v (putLine g fields v)).flatMap fun l => l ++ ['\n'] := by
  unfold kairosdbWrite
  cases htype : g.types.get? v.type with
  | none => simp
  | some v_type =>
    by_cases hlength : v_type.length = v.values.length
    · cases hfields : metricFields g v with
      | none => simp [hlength]
      | some fields =>
        simp only [hlength, ne_eq, not_true_eq_false, if_false, intercalate_newline,
          Written.message.injEq, Option.some.injEq]
        constructor
        · rintro rfl
          exact ⟨v_type, fields, rfl, rfl, hlength, rfl⟩
        · rintro ⟨_, _, rfl, rfl, -, rfl⟩
          rfl
    · simp [hlength]

/-- What a reader makes of a message: the words of its lines. -/
def received (s : List Char) : List (List (List Char)) := (lines s).map words

/-- What it should read of a value. -/
def putRow (g : Settings) (metric_fields : List (List Char)) (v : ValueList) (ds : DataSource)
    (value : Word) : List (List Char) :=
  [put, metric metric_fields ds, v.time.val, value.val] ++ words g.tags

def putRows (g : Settings) (v : ValueList) : List (List (List Char)) :=
  match g.types.get? v.type, metricFields g v with
  | some v_type, some metric_fields => eachValue v_type v (putRow g metric_fields v)
  | _, _ => []

section Reading

variable {g : Settings} {v : ValueList} {v_type : List DataSource} {fields : List (List Char)}

theorem mem_eachValue {α : Type} {f : DataSource → Word → α} {x : α}
    (hx : x ∈ eachValue v_type v f) : ∃ ds ∈ v_type, ∃ value, f ds value = x := by
  obtain ⟨⟨ds, value⟩, he, hmap⟩ := List.mem_filterMap.mp hx
  obtain ⟨value, -, hfx⟩ := Option.map_eq_some_iff.mp hmap
  exact ⟨ds, (List.of_mem_zip he).1, value, hfx⟩

theorem exists_eachValue (hlength : v_type.length = v.values.length) {value : Word}
    (hvalue : some value ∈ v.values) :
    ∃ ds ∈ v_type, ∀ {α : Type} (f : DataSource → Word → α), f ds value ∈ eachValue v_type v f := by
  obtain ⟨i, hi, hget⟩ := List.mem_iff_getElem.mp hvalue
  have hi' : i < v_type.length := hlength ▸ hi
  have hzip : (v_type[i], some value) ∈ v_type.zip v.values := by
    refine List.mem_iff_getElem.mpr ⟨i, ?_, ?_⟩
    · rw [List.length_zip, hlength, min_self]
      exact hi
    · rw [List.getElem_zip, hget]
  exact ⟨v_type[i], List.getElem_mem hi', fun f => List.mem_filterMap.mpr ⟨_, hzip, rfl⟩⟩

theorem length_eachValue {α β : Type} (f : DataSource → Word → α) (f' : DataSource → Word → β) :
    (eachValue v_type v f).length = (eachValue v_type v f').length := by
  simp [eachValue, List.length_filterMap_eq_countP]

theorem eachValue_eq_nil {α : Type} (hnone : ∀ value ∈ v.values, value = none)
    (f : DataSource → Word → α) : eachValue v_type v f = [] := by
  rw [eachValue, List.filterMap_eq_nil_iff]
  rintro ⟨ds, value⟩ he
  obtain rfl := hnone value (List.of_mem_zip he).2
  rfl

theorem map_eachValue {α β : Type} {f : DataSource → Word → α} {f' : DataSource → Word → β}
    {h : α → β} (heq : ∀ ds ∈ v_type, ∀ value, h (f ds value) = f' ds value) :
    (eachValue v_type v f).map h = eachValue v_type v f' := by
  rw [eachValue, eachValue, List.map_filterMap]
  apply List.filterMap_congr
  rintro ⟨ds, value⟩ he
  cases value with
  | none => rfl
  | some value => exact congrArg some (heq ds (List.of_mem_zip he).1 value)

/-- The table gives data sources that were read. -/
theorem isType_of_get? (hg : ∃ files, readTypes files = g.types)
    (hget : g.types.get? v.type = some v_type) : IsType (v.type, v_type) := by
  obtain ⟨files, hfiles⟩ := hg
  apply isType_of_mem_readTypes
  rw [hfiles, Hash.mem_entries]
  exact hget

theorem words_putLine (hfields : metricFields g v = some fields) {ds : DataSource}
    (hunbroken : Unbroken (metric fields ds)) (value : Word) :
    words (putLine g fields v ds value) = putRow g fields v ds value := by
  have hput : words put = [put] := by decide
  have hmetric : words (metric fields ds) = [metric fields ds] :=
    words_word ⟨_, metric_ne_nil hfields ds, hunbroken⟩
  rw [putLine, words_append_space, words_append_space, words_append_space, words_append_space,
    hput, hmetric, words_word, words_word]
  rfl

theorem newline_notMem_putLine (htags : '\n' ∉ g.tags) {ds : DataSource}
    (hunbroken : Unbroken (metric fields ds)) (value : Word) :
    '\n' ∉ putLine g fields v ds value := by
  have hnot {s : List Char} (hs : Unbroken s) : '\n' ∉ s := by
    intro hmem
    exact absurd (hs _ hmem) (by decide)
  have hput : '\n' ∉ put := by decide
  simp [putLine, hput, hnot hunbroken, hnot v.time.property.2, hnot value.property.2, htags]

/-- The rows of a message whose texts have no blanks. -/
theorem received_of_unbroken (htype : IsType (v.type, v_type))
    (hfields : metricFields g v = some fields) (hunbroken : ∀ f ∈ fields, Unbroken f)
    (htags : '\n' ∉ g.tags) :
    received ((eachValue v_type v (putLine g fields v)).flatMap fun l => l ++ ['\n']) =
      eachValue v_type v (putRow g fields v) := by
  have hmetric {ds : DataSource} (hds : ds ∈ v_type) : Unbroken (metric fields ds) :=
    (metric_unbroken (htype.valid ds hds)).mpr hunbroken
  rw [received, lines_flatMap, map_eachValue]
  · exact fun ds hds value => words_putLine hfields (hmetric hds) value
  · intro l hl
    obtain ⟨ds, hds, value, rfl⟩ := mem_eachValue hl
    exact newline_notMem_putLine htags (hmetric hds) value

/-- A message with a value that is read as it should has no blanks in its texts. -/
theorem unbroken_of_received (htype : IsType (v.type, v_type))
    (hlength : v_type.length = v.values.length) {value : Word} (hvalue : some value ∈ v.values)
    (hread : received ((eachValue v_type v (putLine g fields v)).flatMap fun l => l ++ ['\n']) =
      eachValue v_type v (putRow g fields v)) :
    (∀ f ∈ fields, Unbroken f) ∧ '\n' ∉ g.tags := by
  obtain ⟨ds, hds, hmem⟩ := exists_eachValue hlength hvalue
  constructor
  · -- the metric of this value is a word of its row
    have hrow := hmem (putRow g fields v)
    rw [← hread] at hrow
    obtain ⟨line, -, hline⟩ := List.mem_map.mp hrow
    have hword : metric fields ds ∈ words line := by simp [hline, putRow]
    exact (metric_unbroken (htype.valid ds hds)).mp (of_mem_words hword).2
  · -- there are as many lines as values
    have hcount := congrArg List.length hread
    rw [received, List.length_map, length_eachValue _ (putLine g fields v)] at hcount
    have hline := newline_notMem_of_length hcount _ (hmem (putLine g fields v))
    intro htags
    exact hline (by simp [putLine, htags])

end Reading

/-- The rows of a message are read as they should exactly if there is no value at all or there are no
blanks in the texts of the configuration and of the value list, but for blanks around an instance and
spaces in it that the separator takes the place of. The names from the files are never in the way. -/
theorem received_eq_iff (configs : List ((List Char → Option (List Char)) × List Child))
    (v : ValueList) (s : List Char)
    (hwrite : kairosdbWrite (configured configs) v = .message s) :
    received s = putRows (configured configs) v ↔
      (∀ value ∈ v.values, value = none) ∨
        '\n' ∉ (configured configs).tags ∧ Unbroken (configured configs).metricPrefix ∧
          Unbroken (configured configs).hostPostfix ∧ Unbroken v.plugin ∧
          Fits (configured configs) v.plugin_instance ∧
          Fits (configured configs) v.type_instance := by
  have htypes := types_configured configs
  generalize configured configs = g at *
  obtain ⟨v_type, fields, hget, hfields, hlength, rfl⟩ := kairosdbWrite_eq_message.mp hwrite
  have htype : IsType (v.type, v_type) := isType_of_get? htypes hget
  have hclean := metricFields_unbroken hfields
  have hrows : putRows g v = eachValue v_type v (putRow g fields v) := by
    rw [putRows, hget, hfields]
  rw [hrows]
  constructor
  · intro hread
    rw [or_iff_not_imp_left]
    intro hvalues
    push Not at hvalues
    obtain ⟨value, hvalue, hne⟩ := hvalues
    obtain ⟨value, rfl⟩ := Option.ne_none_iff_exists'.mp hne
    obtain ⟨hunbroken, htags⟩ := unbroken_of_received htype hlength hvalue hread
    obtain ⟨hbefore, hbehind, hplugin, hinstance, -, hinstance'⟩ := hclean.mp hunbroken
    exact ⟨htags, hbefore, hbehind, hplugin, hinstance, hinstance'⟩
  · rintro (hnone | ⟨htags, hbefore, hbehind, hplugin, hinstance, hinstance'⟩)
    · rw [eachValue_eq_nil hnone, eachValue_eq_nil hnone]
      rfl
    · have hunbroken : ∀ f ∈ fields, Unbroken f :=
        hclean.mpr ⟨hbefore, hbehind, hplugin, hinstance, htype.noSpace, hinstance'⟩
      exact received_of_unbroken htype hfields hunbroken htags

/-- A space in an instance is replaced, and a space in the name of a plugin is in the way. -/
theorem received_eq_iff_spaces :
    let one : Word := ⟨['1'], List.cons_ne_nil _ _, List.forall_mem_singleton.mpr rfl⟩
    let configs : List ((List Char → Option (List Char)) × List Child) :=
      [(fun _ => some ['l', ' ', 'v', ':', 'G', ':', '0', ':', 'U'], [.typesDB [[]]])]
    let instanced : ValueList := ⟨['c'], ['a', ' ', 'b'], ['l'], [], one, [some one]⟩
    let broken : ValueList := ⟨['c', ' '], [], ['l'], [], one, [some one]⟩
    (∃ s, kairosdbWrite (configured configs) instanced = .message s ∧
      received s = putRows (configured configs) instanced) ∧
    ∃ s, kairosdbWrite (configured configs) broken = .message s ∧
      received s ≠ putRows (configured configs) broken := by
  refine ⟨⟨_, rfl, (received_eq_iff _ _ _ rfl).mpr (Or.inr ?_)⟩, ⟨_, rfl, fun h => ?_⟩⟩
  · have hnil : Unbroken [] := fun c hc => absurd hc List.not_mem_nil
    have hdot : Unbroken ['.'] := List.forall_mem_singleton.mpr rfl
    have hfits : ∀ c ∈ ['a', ' ', 'b'],
        if c = ' ' ∨ c = '.' then Unbroken ['.'] else isSpace c = false :=
      List.forall_mem_cons.mpr
        ⟨rfl, List.forall_mem_cons.mpr ⟨hdot, List.forall_mem_singleton.mpr rfl⟩⟩
    exact ⟨List.not_mem_nil, hnil, hnil, List.forall_mem_singleton.mpr rfl, hfits,
      fun c hc => absurd hc List.not_mem_nil⟩
  · rcases (received_eq_iff _ _ _ rfl).mp h with hnone | hclean
    · exact absurd (hnone _ List.mem_cons_self) (Option.some_ne_none _)
    · have hspace : isSpace ' ' = false := hclean.2.2.2.1 ' ' (by decide)
      exact absurd hspace (by decide)

end CompassAdapters.Collectd
