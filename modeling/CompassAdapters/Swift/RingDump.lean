import CompassAdapters.Ruby.Hash
import CompassAdapters.Ruby.Regex

/-! `parse_ring_output` of `ring_script.rb`: what is read from the lines that `swift-ring-builder`
prints. -/
namespace CompassAdapters.Swift
open Ruby Ruby.Regex

section Parser

/-- `output[:hosts][ip][device]`. -/
structure DeviceHash where
  id : Option String := none
  region : Option String := none
  zone : Option String := none
  ip : Option String := none
  port : Option String := none
  replication_ip : Option String := none
  replication_port : Option String := none
  device : Option String := none
  weight : Option String := none
  partitions : Option String := none
  balance : Option String := none
  deriving DecidableEq

/-- `output[:state]`. -/
structure RingState where
  build_version : Option String := none
  partitions : Option String := none
  replicas : Option String := none
  regions : Option String := none
  zones : Option String := none
  devices : Option String := none
  balance : Option String := none
  min_part_hours : Option String := none
  deriving DecidableEq

/-- `hosts` is empty where the key is missing. -/
structure ParsedRing where
  state : RingState
  hosts : Hash String (Hash String DeviceHash)

def digits : List Item := [.plus isDigit]

def dot : List Item := [.char (· == '.')]

/-- `\d+\.\d+`. -/
def fraction : List Item := digits ++ dot ++ digits

/-- `\d+\.\d+\.\d+\.\d+`. -/
def address : List Item := fraction ++ dot ++ fraction

def solid : List Item := [.plus isSolid]

/-- `[0-9.]+`. -/
def decimal : List Item := [.plus fun c => isDigit c || c == '.']

/-- `[-0-9.]+`. -/
def signed : List Item := [.plus fun c => c == '-' || isDigit c || c == '.']

def blanks : List Item := [.plus isSpace]

def buildVersion : Regex := ⟨false, lit "build version " ++ group digits⟩

def devicesRegion : Regex :=
  ⟨true, lit "Devices:" ++ blanks ++ lit "id" ++ blanks ++ lit "region" ++ blanks ++ lit "zone" ++
    blanks⟩

def devicesZone : Regex :=
  ⟨true, lit "Devices:" ++ blanks ++ lit "id" ++ blanks ++ lit "zone" ++ blanks⟩

/-- The columns of a line for a device, with the region and the address for replication, with the
region only, or without either. -/
inductive Layout
  | replication
  | region
  | zone
  deriving DecidableEq, Repr

def Layout.columns : Layout → List (List Item)
  | replication =>
    [digits, digits, digits, address, digits, address, digits, solid, decimal, digits, signed]
  | region => [digits, digits, digits, address, digits, solid, decimal, digits, signed]
  | zone => [digits, digits, address, digits, solid, decimal, digits, signed]

def Layout.regex (layout : Layout) : Regex := ⟨true, Regex.columns layout.columns⟩

def regionState : Regex :=
  ⟨false, group digits ++ lit " partitions, " ++ group fraction ++ lit " replicas, " ++
    group digits ++ lit " regions, " ++ group digits ++ lit " zones, " ++ group digits ++
    lit " devices, " ++ group fraction ++ lit " balance" ++ [.eol]⟩

def zoneState : Regex :=
  ⟨false, group digits ++ lit " partitions, " ++ group digits ++ lit " replicas, " ++
    group digits ++ lit " zones, " ++ group digits ++ lit " devices, " ++ group fraction ++
    lit " balance" ++ [.eol]⟩

def minHours : Regex :=
  ⟨true, lit "The minimum number of hours before a partition can be reassigned is " ++
    group digits ++ [.eol]⟩

/-- `$n`. -/
def nth (groups : List (List Char)) (n : ℕ) : String := String.ofList (groups.getD (n - 1) [])

/-- The keys that a line for a device sets. -/
def setDevice : Layout → List (List Char) → DeviceHash → DeviceHash
  | .replication, g, dev =>
    { dev with
      id := nth g 1, region := nth g 2, zone := nth g 3, ip := nth g 4, port := nth g 5
      replication_ip := nth g 6, replication_port := nth g 7, device := nth g 8
      weight := nth g 9, partitions := nth g 10, balance := nth g 11 }
  | .region, g, dev =>
    { dev with
      id := nth g 1, region := nth g 2, zone := nth g 3, ip := nth g 4, port := nth g 5
      device := nth g 6, weight := nth g 7, partitions := nth g 8, balance := nth g 9 }
  | .zone, g, dev =>
    { dev with
      id := nth g 1, zone := nth g 2, ip := nth g 3, port := nth g 4, device := nth g 5
      weight := nth g 6, partitions := nth g 7, balance := nth g 8 }

/-- The groups with the address and the name of the device. -/
def Layout.keys : Layout → ℕ × ℕ
  | replication => (4, 8)
  | region => (4, 6)
  | zone => (3, 5)

/-- `output[:hosts][ip][device] ||= {}`, and then its keys. -/
def ParsedRing.store (output : ParsedRing) (layout : Layout) (g : List (List Char)) : ParsedRing :=
  let ip := nth g layout.keys.1
  let device := nth g layout.keys.2
  { output with
    hosts := output.hosts.store2 ip device
      (setDevice layout g ((output.hosts.get2? ip device).getD {})) }

/-- The body of the loop over the lines. -/
def parseLine (output : ParsedRing) (line : String) : Except String ParsedRing :=
  let s := line.toList
  if let some g := search buildVersion s then
    .ok { output with state := { output.state with build_version := nth g 1 } }
  else if (search devicesRegion s).isSome then .ok output
  else if (search devicesZone s).isSome then .ok output
  else if let some g := search Layout.replication.regex s then .ok (output.store .replication g)
  else if let some g := search Layout.region.regex s then .ok (output.store .region g)
  else if let some g := search Layout.zone.regex s then .ok (output.store .zone g)
  else if let some g := search regionState s then
    .ok { output with
      state := { output.state with
        partitions := nth g 1, replicas := nth g 2, regions := nth g 3, zones := nth g 4
        devices := nth g 5, balance := nth g 6 } }
  else if let some g := search zoneState s then
    .ok { output with
      state := { output.state with
        partitions := nth g 1, replicas := nth g 2, zones := nth g 3, devices := nth g 4
        balance := nth g 5 } }
  else if let some g := search minHours s then
    .ok { output with state := { output.state with min_part_hours := nth g 1 } }
  else .error ("Cannot parse ring builder output for " ++ line)

def parseRingOutput (ring_data : List String) : Except String ParsedRing :=
  ring_data.foldlM parseLine ⟨{}, Hash.empty⟩

end Parser

section Printer

/-- A text that some items accept. -/
abbrev Field (f : List Item) : Type := {w : String // Accepts f w.toList}

/-- A device of a ring, as it is printed. -/
structure PrintedDevice where
  id : Field digits
  region : Field digits
  zone : Field digits
  ip : Field address
  port : Field digits
  replication_ip : Field address
  replication_port : Field digits
  device : Field solid
  weight : Field decimal
  partitions : Field digits
  balance : Field signed

/-- What is printed in each column. -/
def PrintedDevice.words (d : PrintedDevice) : Layout → List String
  | .replication =>
    [d.id.1, d.region.1, d.zone.1, d.ip.1, d.port.1, d.replication_ip.1, d.replication_port.1,
      d.device.1, d.weight.1, d.partitions.1, d.balance.1]
  | .region =>
    [d.id.1, d.region.1, d.zone.1, d.ip.1, d.port.1, d.device.1, d.weight.1, d.partitions.1,
      d.balance.1]
  | .zone =>
    [d.id.1, d.zone.1, d.ip.1, d.port.1, d.device.1, d.weight.1, d.partitions.1, d.balance.1]

/-- What is to be read from the line. -/
def PrintedDevice.entry (d : PrintedDevice) : Layout → DeviceHash
  | .replication =>
    ⟨d.id.1, d.region.1, d.zone.1, d.ip.1, d.port.1, d.replication_ip.1, d.replication_port.1,
      d.device.1, d.weight.1, d.partitions.1, d.balance.1⟩
  | .region =>
    ⟨d.id.1, d.region.1, d.zone.1, d.ip.1, d.port.1, none, none, d.device.1, d.weight.1,
      d.partitions.1, d.balance.1⟩
  | .zone =>
    ⟨d.id.1, none, d.zone.1, d.ip.1, d.port.1, none, none, d.device.1, d.weight.1,
      d.partitions.1, d.balance.1⟩

/-- The line of a device: its words, with white space before each and at the end. -/
structure Prints (layout : Layout) (d : PrintedDevice) (line : String) : Prop where
  cells : ∃ cells trail, line.toList = text cells trail ∧
    cells.map Cell.word = (d.words layout).map String.toList ∧ ∀ c ∈ trail, isSpace c = true
  isLine : IsLine line.toList

/-- The lines around those of the devices. -/
inductive Header
  | version (before : String) (n : Field digits) (after : String)
  | devicesRegion (u v w x : Field blanks) (after : String)
  | devicesZone (u v w : Field blanks) (after : String)
  | regionState (partitions : Field digits) (replicas : Field fraction)
      (regions zones devices : Field digits) (balance : Field fraction)
  | zoneState (partitions replicas zones devices : Field digits) (balance : Field fraction)
  | minHours (n : Field digits)

def Header.text : Header → String
  | version before n after => before ++ "build version " ++ n.1 ++ after
  | devicesRegion u v w x after =>
    "Devices:" ++ u.1 ++ "id" ++ v.1 ++ "region" ++ w.1 ++ "zone" ++ x.1 ++ after
  | devicesZone u v w after => "Devices:" ++ u.1 ++ "id" ++ v.1 ++ "zone" ++ w.1 ++ after
  | regionState partitions replicas regions zones devices balance =>
    partitions.1 ++ " partitions, " ++ replicas.1 ++ " replicas, " ++ regions.1 ++ " regions, " ++
      zones.1 ++ " zones, " ++ devices.1 ++ " devices, " ++ balance.1 ++ " balance"
  | zoneState partitions replicas zones devices balance =>
    partitions.1 ++ " partitions, " ++ replicas.1 ++ " replicas, " ++ zones.1 ++ " zones, " ++
      devices.1 ++ " devices, " ++ balance.1 ++ " balance"
  | minHours n => "The minimum number of hours before a partition can be reassigned is " ++ n.1

inductive DumpLine
  | header (h : Header)
  | device (d : PrintedDevice)

def DumpLine.device? : DumpLine → Option PrintedDevice
  | header _ => none
  | device d => some d

/-- A line as it is read, with the newline or without. -/
def DumpLine.Prints (layout : Layout) : DumpLine → String → Prop
  | header h, line => (line = h.text ∨ line = h.text ++ "\n") ∧ IsLine line.toList
  | device d, line => Swift.Prints layout d line

end Printer

section Headers

variable {is : List Item} {g v : List Char} {y : List (List Char)} {layout : Layout}

theorem mem_run_lit_append (w : String) (h : y ∈ run is g v) :
    y ∈ run (lit w ++ is) g (w.toList ++ v) := by
  refine (mem_run_append fun i hi => ?_).mpr ⟨w.toList, v, rfl, accepts_lit.mpr rfl, h⟩
  obtain ⟨c, -, rfl⟩ := List.mem_map.mp hi
  exact ⟨_, Or.inl rfl⟩

theorem mem_run_blanks_append (u : Field blanks) (h : y ∈ run is g v) :
    y ∈ run (blanks ++ is) g (u.1.toList ++ v) := by
  refine (mem_run_append fun i hi => ?_).mpr ⟨u.1.toList, v, rfl, u.2, h⟩
  exact ⟨_, Or.inr (List.mem_singleton.mp hi)⟩

theorem solid_digits : Solid digits := solid_plus fun _ => isSpace_of_isDigit

theorem solid_dot : Solid dot := solid_char fun c hc => by
  rw [beq_iff_eq.mp hc]
  rfl

theorem solid_fraction : Solid fraction := (solid_digits.append solid_dot).append solid_digits

theorem solid_address : Solid address := (solid_fraction.append solid_dot).append solid_fraction

theorem solid_solid : Solid solid := solid_plus fun _ hc => (Bool.not_eq_true' _).mp hc

theorem solid_decimal : Solid decimal := solid_plus fun c hc => by
  rcases (Bool.or_eq_true _ _).mp hc with hc | hc
  · exact isSpace_of_isDigit hc
  · rw [beq_iff_eq.mp hc]
    rfl

theorem solid_signed : Solid signed := solid_plus fun c hc => by
  rcases (Bool.or_eq_true _ _).mp hc with hc | hc
  · rcases (Bool.or_eq_true _ _).mp hc with hc | hc
    · rw [beq_iff_eq.mp hc]
      rfl
    · exact isSpace_of_isDigit hc
  · rw [beq_iff_eq.mp hc]
    rfl

theorem mem_run_group_append {f : List Item} (hf : Solid f) (u : Field f)
    (h : y ∈ run is (u.1.toList ++ v) v) :
    u.1.toList :: y ∈ run (group f ++ is) g (u.1.toList ++ v) :=
  (mem_run_group hf.plain).mpr ⟨u.1.toList, v, y, rfl, u.2, h, rfl⟩

theorem nil_mem_run_nil : [] ∈ run [] g v := List.mem_singleton_self _

theorem version_search (u : List Char) (n : Field digits) (w : List Char) :
    (search buildVersion (u ++ ("build version ".toList ++ (n.1.toList ++ w)))).isSome = true := by
  have hitems : buildVersion.items = lit "build version " ++ (group digits ++ []) := by
    rw [List.append_nil]
    rfl
  have hbol : buildVersion.bol = false := rfl
  refine search_isSome_of_suffix hbol (x := [n.1.toList]) ?_
  rw [hitems]
  exact mem_run_lit_append _ (mem_run_group_append solid_digits n nil_mem_run_nil)

theorem nil_mem_run_eol {tail : List Char} (htail : tail = [] ∨ tail = ['\n']) :
    [] ∈ run [.eol] g tail := by
  refine mem_run_eol.mpr ⟨?_, nil_mem_run_nil⟩
  rcases htail with rfl | rfl
  · exact Or.inl rfl
  · exact Or.inr rfl

theorem devicesRegion_search (u v w x : Field blanks) (rest : List Char) :
    (search Swift.devicesRegion ("Devices:".toList ++ (u.1.toList ++ ("id".toList ++ (v.1.toList ++
      ("region".toList ++ (w.1.toList ++ ("zone".toList ++ (x.1.toList ++ rest))))))))).isSome
      = true := by
  have hitems : Swift.devicesRegion.items = lit "Devices:" ++ (blanks ++ (lit "id" ++ (blanks ++
      (lit "region" ++ (blanks ++ (lit "zone" ++ (blanks ++ []))))))) := by
    simp only [List.append_nil, ← List.append_assoc]
    rfl
  refine search_isSome (x := []) ?_
  rw [hitems]
  exact mem_run_lit_append _ (mem_run_blanks_append u (mem_run_lit_append _
    (mem_run_blanks_append v (mem_run_lit_append _ (mem_run_blanks_append w (mem_run_lit_append _
      (mem_run_blanks_append x nil_mem_run_nil)))))))

theorem devicesZone_search (u v w : Field blanks) (rest : List Char) :
    (search Swift.devicesZone ("Devices:".toList ++ (u.1.toList ++ ("id".toList ++ (v.1.toList ++
      ("zone".toList ++ (w.1.toList ++ rest))))))).isSome = true := by
  have hitems : Swift.devicesZone.items = lit "Devices:" ++ (blanks ++ (lit "id" ++ (blanks ++
      (lit "zone" ++ (blanks ++ []))))) := by
    simp only [List.append_nil, ← List.append_assoc]
    rfl
  refine search_isSome (x := []) ?_
  rw [hitems]
  exact mem_run_lit_append _ (mem_run_blanks_append u (mem_run_lit_append _
    (mem_run_blanks_append v (mem_run_lit_append _ (mem_run_blanks_append w nil_mem_run_nil)))))

theorem regionState_search (partitions : Field digits) (replicas : Field fraction)
    (regions zones devices : Field digits) (balance : Field fraction) {tail : List Char}
    (htail : tail = [] ∨ tail = ['\n']) :
    (search Swift.regionState (partitions.1.toList ++ (" partitions, ".toList ++
      (replicas.1.toList ++ (" replicas, ".toList ++ (regions.1.toList ++ (" regions, ".toList ++
      (zones.1.toList ++ (" zones, ".toList ++ (devices.1.toList ++ (" devices, ".toList ++
      (balance.1.toList ++ (" balance".toList ++ tail))))))))))))).isSome = true := by
  have hitems : Swift.regionState.items = group digits ++ (lit " partitions, " ++
      (group fraction ++ (lit " replicas, " ++ (group digits ++ (lit " regions, " ++
      (group digits ++ (lit " zones, " ++ (group digits ++ (lit " devices, " ++
      (group fraction ++ (lit " balance" ++ [.eol]))))))))))) := by
    simp only [← List.append_assoc]
    rfl
  refine search_isSome (x := [partitions.1.toList, replicas.1.toList, regions.1.toList,
    zones.1.toList, devices.1.toList, balance.1.toList]) ?_
  rw [hitems]
  exact mem_run_group_append solid_digits partitions (mem_run_lit_append _
    (mem_run_group_append solid_fraction replicas (mem_run_lit_append _
      (mem_run_group_append solid_digits regions (mem_run_lit_append _
        (mem_run_group_append solid_digits zones (mem_run_lit_append _
          (mem_run_group_append solid_digits devices (mem_run_lit_append _
            (mem_run_group_append solid_fraction balance (mem_run_lit_append _
              (nil_mem_run_eol htail))))))))))))

theorem zoneState_search (partitions replicas zones devices : Field digits)
    (balance : Field fraction) {tail : List Char} (htail : tail = [] ∨ tail = ['\n']) :
    (search Swift.zoneState (partitions.1.toList ++ (" partitions, ".toList ++
      (replicas.1.toList ++ (" replicas, ".toList ++ (zones.1.toList ++ (" zones, ".toList ++
      (devices.1.toList ++ (" devices, ".toList ++ (balance.1.toList ++ (" balance".toList ++
      tail))))))))))).isSome = true := by
  have hitems : Swift.zoneState.items = group digits ++ (lit " partitions, " ++
      (group digits ++ (lit " replicas, " ++ (group digits ++ (lit " zones, " ++
      (group digits ++ (lit " devices, " ++ (group fraction ++
      (lit " balance" ++ [.eol]))))))))) := by
    simp only [← List.append_assoc]
    rfl
  refine search_isSome (x := [partitions.1.toList, replicas.1.toList, zones.1.toList,
    devices.1.toList, balance.1.toList]) ?_
  rw [hitems]
  exact mem_run_group_append solid_digits partitions (mem_run_lit_append _
    (mem_run_group_append solid_digits replicas (mem_run_lit_append _
      (mem_run_group_append solid_digits zones (mem_run_lit_append _
        (mem_run_group_append solid_digits devices (mem_run_lit_append _
          (mem_run_group_append solid_fraction balance (mem_run_lit_append _
            (nil_mem_run_eol htail))))))))))

theorem minHours_search (n : Field digits) {tail : List Char}
    (htail : tail = [] ∨ tail = ['\n']) :
    (search Swift.minHours
      ("The minimum number of hours before a partition can be reassigned is ".toList ++
        (n.1.toList ++ tail))).isSome = true := by
  have hitems : Swift.minHours.items =
      lit "The minimum number of hours before a partition can be reassigned is " ++
        (group digits ++ [.eol]) := by
    simp only [← List.append_assoc]
    rfl
  refine search_isSome (x := [n.1.toList]) ?_
  rw [hitems]
  exact mem_run_lit_append _ (mem_run_group_append solid_digits n (nil_mem_run_eol htail))

theorem head_append_field {f : List Item} (hf : Solid f) (u : Field f) (v : List Char) :
    ∀ c ∈ (u.1.toList ++ v).head?, isSpace c = false := by
  intro c hc
  rw [List.head?_append_of_ne_nil _ (hf.accepts u.2).1] at hc
  exact (hf.accepts u.2).2 c (List.mem_of_mem_head? hc)

/-- Each line around those of the devices matches its expression, and none but the one with the
version may begin with white space. -/
theorem header_search (h : Header) {tail : List Char} (htail : tail = [] ∨ tail = ['\n']) :
    (search buildVersion (h.text.toList ++ tail)).isSome = true ∨
    ((∀ c ∈ (h.text.toList ++ tail).head?, isSpace c = false) ∧
      ((search devicesRegion (h.text.toList ++ tail)).isSome = true ∨
      (search devicesZone (h.text.toList ++ tail)).isSome = true ∨
      (search regionState (h.text.toList ++ tail)).isSome = true ∨
      (search zoneState (h.text.toList ++ tail)).isSome = true ∨
      (search minHours (h.text.toList ++ tail)).isSome = true)) := by
  cases h with
  | version before n after =>
    have htext : (Header.version before n after).text =
        before ++ "build version " ++ n.1 ++ after := rfl
    rw [htext]
    simp only [String.toList_append, List.append_assoc]
    exact Or.inl (version_search _ n _)
  | devicesRegion u v w x after =>
    have htext : (Header.devicesRegion u v w x after).text =
        "Devices:" ++ u.1 ++ "id" ++ v.1 ++ "region" ++ w.1 ++ "zone" ++ x.1 ++ after := rfl
    rw [htext]
    simp only [String.toList_append, List.append_assoc]
    refine Or.inr ⟨fun c hc => ?_, Or.inl (devicesRegion_search u v w x _)⟩
    obtain rfl : 'D' = c := Option.some.inj hc
    rfl
  | devicesZone u v w after =>
    have htext : (Header.devicesZone u v w after).text =
        "Devices:" ++ u.1 ++ "id" ++ v.1 ++ "zone" ++ w.1 ++ after := rfl
    rw [htext]
    simp only [String.toList_append, List.append_assoc]
    refine Or.inr ⟨fun c hc => ?_, Or.inr (Or.inl (devicesZone_search u v w _))⟩
    obtain rfl : 'D' = c := Option.some.inj hc
    rfl
  | regionState partitions replicas regions zones devices balance =>
    have htext : (Header.regionState partitions replicas regions zones devices balance).text =
        partitions.1 ++ " partitions, " ++ replicas.1 ++ " replicas, " ++ regions.1 ++
          " regions, " ++ zones.1 ++ " zones, " ++ devices.1 ++ " devices, " ++ balance.1 ++
          " balance" :=
      rfl
    rw [htext]
    simp only [String.toList_append, List.append_assoc]
    exact Or.inr ⟨head_append_field solid_digits partitions _, Or.inr (Or.inr (Or.inl
      (regionState_search partitions replicas regions zones devices balance htail)))⟩
  | zoneState partitions replicas zones devices balance =>
    have htext : (Header.zoneState partitions replicas zones devices balance).text =
        partitions.1 ++ " partitions, " ++ replicas.1 ++ " replicas, " ++ zones.1 ++ " zones, " ++
          devices.1 ++ " devices, " ++ balance.1 ++ " balance" :=
      rfl
    rw [htext]
    simp only [String.toList_append, List.append_assoc]
    exact Or.inr ⟨head_append_field solid_digits partitions _, Or.inr (Or.inr (Or.inr (Or.inl
      (zoneState_search partitions replicas zones devices balance htail))))⟩
  | minHours n =>
    have htext : (Header.minHours n).text =
        "The minimum number of hours before a partition can be reassigned is " ++ n.1 := rfl
    rw [htext]
    simp only [String.toList_append, List.append_assoc]
    refine Or.inr ⟨fun c hc => ?_, Or.inr (Or.inr (Or.inr (Or.inr (minHours_search n htail))))⟩
    have hc' : 'T' = c := by simpa using hc
    rw [← hc']
    rfl

theorem search_layout_eq_none {s : List Char} (hs : IsLine s)
    (hhead : ∀ c ∈ s.head?, isSpace c = false) : search layout.regex s = none := by
  refine (search_bol_eq_none (r := layout.regex) rfl hs).mpr fun x hx => ?_
  cases s with
  | nil =>
    cases layout with
    | replication => cases hx
    | region => cases hx
    | zone => cases hx
  | cons c s =>
    have hspace := head_of_mem_run_columns hx c rfl
    rw [hhead c rfl] at hspace
    cases hspace

/-- A line without a device leaves the devices as they are. -/
theorem parseLine_header (output : ParsedRing) {h : Header} {line : String}
    (hprints : DumpLine.Prints layout (.header h) line) :
    ∃ output', parseLine output line = .ok output' ∧ output'.hosts = output.hosts := by
  obtain ⟨htext, hline⟩ := hprints
  obtain ⟨tail, htail, hlist⟩ :
      ∃ tail, (tail = [] ∨ tail = ['\n']) ∧ line.toList = h.text.toList ++ tail := by
    rcases htext with rfl | rfl
    · exact ⟨[], Or.inl rfl, (List.append_nil _).symm⟩
    · exact ⟨['\n'], Or.inr rfl, String.toList_append⟩
  have hmatch := header_search h htail
  rw [← hlist] at hmatch
  rw [parseLine]
  dsimp only
  split
  next => exact ⟨_, rfl, rfl⟩
  next hversion =>
    obtain ⟨hhead, hmatch⟩ := hmatch.resolve_left fun hsome => by
      cases hfound : search buildVersion line.toList with
      | none => rw [hfound] at hsome; cases hsome
      | some g => exact hversion g hfound
    have hlayout (layout : Layout) : search layout.regex line.toList = none :=
      search_layout_eq_none hline hhead
    rw [hlayout, hlayout, hlayout]
    dsimp only
    split
    next => exact ⟨_, rfl, rfl⟩
    next hregion =>
      split
      next => exact ⟨_, rfl, rfl⟩
      next hzone =>
        split
        next => exact ⟨_, rfl, rfl⟩
        next hregionState =>
          split
          next => exact ⟨_, rfl, rfl⟩
          next hzoneState =>
            split
            next => exact ⟨_, rfl, rfl⟩
            next hminHours =>
              exfalso
              rcases hmatch with hsome | hsome | hsome | hsome | hsome
              · exact hregion hsome
              · exact hzone hsome
              · obtain ⟨g, hg⟩ := Option.isSome_iff_exists.mp hsome
                exact hregionState g hg
              · obtain ⟨g, hg⟩ := Option.isSome_iff_exists.mp hsome
                exact hzoneState g hg
              · obtain ⟨g, hg⟩ := Option.isSome_iff_exists.mp hsome
                exact hminHours g hg

end Headers

section Devices

variable {layout : Layout} {d : PrintedDevice} {line : String}

theorem append_cons_of_notMem_left {c : Char} {u v a b : List Char} (h : u ++ c :: v = a ++ b)
    (hc : c ∉ a) : ∃ u', u' ++ c :: v = b := by
  rcases List.append_eq_append_iff.mp h with ⟨w, rfl, hv⟩ | ⟨w, rfl, hb⟩
  · cases w with
    | nil => exact ⟨[], hv⟩
    | cons e w =>
      rw [List.cons_append, List.cons.injEq] at hv
      obtain ⟨rfl, -⟩ := hv
      exact absurd (List.mem_append_right _ List.mem_cons_self) hc
  · exact ⟨w, hb.symm⟩

theorem append_cons_of_notMem_right {c : Char} {u v a b : List Char} (h : u ++ c :: v = a ++ b)
    (hc : c ∉ b) : ∃ v', a = u ++ c :: v' := by
  rcases List.append_eq_append_iff.mp h with ⟨w, rfl, hv⟩ | ⟨w, rfl, hb⟩
  · cases w with
    | nil =>
      rw [List.nil_append] at hv
      exact absurd (hv ▸ List.mem_cons_self) hc
    | cons e w =>
      rw [List.cons_append, List.cons.injEq] at hv
      obtain ⟨rfl, -⟩ := hv
      exact ⟨w, rfl⟩
  · rw [hb] at hc
    exact absurd (List.mem_append_right _ List.mem_cons_self) hc

/-- The characters of numbers and addresses. -/
def isNumeric (c : Char) : Prop := isDigit c = true ∨ c = '.' ∨ c = '-'

/-- Only numbers and addresses are accepted. -/
def Numeric (f : List Item) : Prop :=
  ∀ i ∈ f, ∃ p : Char → Bool, (i = .char p ∨ i = .plus p) ∧ ∀ c, p c = true → isNumeric c

theorem numeric_append {f f' : List Item} (hf : Numeric f) (hf' : Numeric f') :
    Numeric (f ++ f') := by
  intro i hi
  rcases List.mem_append.mp hi with hi | hi
  · exact hf i hi
  · exact hf' i hi

theorem numeric_digits : Numeric digits := fun _ hi =>
  ⟨_, Or.inr (List.mem_singleton.mp hi), fun _ => Or.inl⟩

theorem numeric_dot : Numeric dot := fun _ hi =>
  ⟨_, Or.inl (List.mem_singleton.mp hi), fun _ hc => Or.inr (Or.inl (beq_iff_eq.mp hc))⟩

theorem numeric_fraction : Numeric fraction :=
  numeric_append (numeric_append numeric_digits numeric_dot) numeric_digits

theorem numeric_address : Numeric address :=
  numeric_append (numeric_append numeric_fraction numeric_dot) numeric_fraction

theorem numeric_decimal : Numeric decimal := fun _ hi => by
  refine ⟨_, Or.inr (List.mem_singleton.mp hi), fun c hc => ?_⟩
  rcases (Bool.or_eq_true _ _).mp hc with hc | hc
  · exact Or.inl hc
  · exact Or.inr (Or.inl (beq_iff_eq.mp hc))

theorem numeric_signed : Numeric signed := fun _ hi => by
  refine ⟨_, Or.inr (List.mem_singleton.mp hi), fun c hc => ?_⟩
  rcases (Bool.or_eq_true _ _).mp hc with hc | hc
  · rcases (Bool.or_eq_true _ _).mp hc with hc | hc
    · exact Or.inr (Or.inr (beq_iff_eq.mp hc))
    · exact Or.inl hc
  · exact Or.inr (Or.inl (beq_iff_eq.mp hc))

/-- Each word is as its column has it. -/
theorem words_accepted (d : PrintedDevice) (layout : Layout) :
    List.Forall₂ Accepts layout.columns ((d.words layout).map String.toList) := by
  cases layout with
  | replication =>
    exact .cons d.id.2 (.cons d.region.2 (.cons d.zone.2 (.cons d.ip.2 (.cons d.port.2
      (.cons d.replication_ip.2 (.cons d.replication_port.2 (.cons d.device.2
        (.cons d.weight.2 (.cons d.partitions.2 (.cons d.balance.2 .nil))))))))))
  | region =>
    exact .cons d.id.2 (.cons d.region.2 (.cons d.zone.2 (.cons d.ip.2 (.cons d.port.2
      (.cons d.device.2 (.cons d.weight.2 (.cons d.partitions.2 (.cons d.balance.2 .nil))))))))
  | zone =>
    exact .cons d.id.2 (.cons d.zone.2 (.cons d.ip.2 (.cons d.port.2 (.cons d.device.2
      (.cons d.weight.2 (.cons d.partitions.2 (.cons d.balance.2 .nil)))))))

theorem solid_columns (layout : Layout) : ∀ f ∈ layout.columns, Solid f := by
  have hcolumn : ∀ f ∈ layout.columns, f = digits ∨ f = address ∨ f = solid ∨ f = decimal ∨
      f = signed := by
    cases layout with
    | replication => simp [Layout.columns]
    | region => simp [Layout.columns]
    | zone => simp [Layout.columns]
  intro f hf
  rcases hcolumn f hf with rfl | rfl | rfl | rfl | rfl
  · exact solid_digits
  · exact solid_address
  · exact solid_solid
  · exact solid_decimal
  · exact solid_signed

/-- The columns before and behind that of the name are numeric. -/
theorem columns_split (layout : Layout) : ∃ fs fs', layout.columns = fs ++ solid :: fs' ∧
    (∀ f ∈ fs, Numeric f) ∧ ∀ f ∈ fs', Numeric f := by
  have hbehind : ∀ f ∈ [decimal, digits, signed], Numeric f := by
    simp [numeric_decimal, numeric_digits, numeric_signed]
  cases layout with
  | replication =>
    refine ⟨[digits, digits, digits, address, digits, address, digits], _, rfl, ?_, hbehind⟩
    simp [numeric_digits, numeric_address]
  | region =>
    refine ⟨[digits, digits, digits, address, digits], _, rfl, ?_, hbehind⟩
    simp [numeric_digits, numeric_address]
  | zone =>
    refine ⟨[digits, digits, address, digits], _, rfl, ?_, hbehind⟩
    simp [numeric_digits, numeric_address]

theorem text_append (cells cells' : List Cell) (trail : List Char) :
    text (cells ++ cells') trail = text cells [] ++ text cells' trail := by
  simp [text]

/-- Numeric words with white space between them. -/
theorem white_or_numeric {fs : List (List Item)} {cells : List Cell} {trail : List Char}
    (hfs : ∀ f ∈ fs, Numeric f)
    (hcells : List.Forall₂ (fun cell f => Accepts f (Cell.word cell)) cells fs)
    (htrail : ∀ c ∈ trail, isSpace c = true) :
    ∀ c ∈ text cells trail, isSpace c = true ∨ isNumeric c := by
  induction hcells with
  | nil => exact fun c hc => Or.inl (htrail c hc)
  | cons hword _ ih =>
    obtain ⟨hf, hfs⟩ := List.forall_mem_cons.mp hfs
    intro c hc
    rw [text_cons, List.mem_append, List.mem_append] at hc
    rcases hc with hc | hc | hc
    · exact Or.inl (Cell.blank_space _ c hc).1
    · exact Or.inr (forall_of_accepts hf hword c hc)
    · exact ih hfs c hc

theorem letter_notMem {l : List Char} (hl : ∀ c ∈ l, isSpace c = true ∨ isNumeric c) {c : Char}
    (hc : c = 'd' ∨ c = 'v') : c ∉ l := by
  intro hmem
  rcases hc with rfl | rfl
  · rcases hl _ hmem with h | h | h | h <;> exact absurd h (by decide)
  · rcases hl _ hmem with h | h | h | h <;> exact absurd h (by decide)

/-- The words of the expression for the version would stand in the name of the device. -/
theorem search_buildVersion_device (hprints : Prints layout d line) :
    search buildVersion line.toList = none := by
  obtain ⟨cells, trail, hline, hwords, htrail⟩ := hprints.cells
  have haccepted := words_accepted d layout
  rw [← hwords, List.forall₂_map_right_iff] at haccepted
  obtain ⟨fs, fs', hcolumns, hfs, hfs'⟩ := columns_split layout
  rw [hcolumns] at haccepted
  have hbefore := List.forall₂_take_append _ _ _ haccepted.flip
  have hrest := List.forall₂_drop_append _ _ _ haccepted.flip
  have hsplit := List.take_append_drop fs.length cells
  generalize hcells : cells.take fs.length = before at hbefore hsplit
  generalize hcells' : cells.drop fs.length = rest at hrest hsplit
  cases hrest with
  | @cons cell _ after _ hname hafter =>
    have htext : line.toList =
        (text before [] ++ cell.blank) ++ (cell.word ++ text after trail) := by
      rw [hline, ← hsplit, text_append, text_cons, List.append_assoc]
    have hleft : ∀ c ∈ text before [] ++ cell.blank, isSpace c = true ∨ isNumeric c := by
      intro c hc
      rcases List.mem_append.mp hc with hc | hc
      · exact white_or_numeric hfs hbefore (fun _ h => absurd h List.not_mem_nil) c hc
      · exact Or.inl (cell.blank_space c hc).1
    have hright := white_or_numeric hfs' hafter htrail
    refine search_eq_none fun t ht x hx => ?_
    have hitems : buildVersion.items = lit "build version " ++ group digits := rfl
    rw [hitems] at hx
    obtain ⟨u, v, rfl, hu, -⟩ := (mem_run_append fun i hi => by
      obtain ⟨c, -, rfl⟩ := List.mem_map.mp hi
      exact ⟨_, Or.inl rfl⟩).mp hx
    rw [accepts_lit] at hu
    obtain ⟨w, hw⟩ := ht
    have hd : (w ++ "buil".toList) ++ 'd' :: (' ' :: 'v' :: ("ersion ".toList ++ v)) =
        (text before [] ++ cell.blank) ++ (cell.word ++ text after trail) := by
      rw [← htext, ← hw, hu]
      simp
    obtain ⟨w', hw'⟩ := append_cons_of_notMem_left hd (letter_notMem hleft (Or.inl rfl))
    have hv : (w' ++ ['d', ' ']) ++ 'v' :: ("ersion ".toList ++ v) =
        cell.word ++ text after trail := by
      rw [← hw', List.append_assoc]
      rfl
    obtain ⟨v', hv'⟩ := append_cons_of_notMem_right hv (letter_notMem hright (Or.inr rfl))
    have hblank : ' ' ∈ cell.word := by
      rw [hv']
      simp
    have hsolid := cell.word_solid ' ' hblank
    cases hsolid

theorem length_columns (d : PrintedDevice) (layout : Layout) :
    layout.columns.length = (d.words layout).length := by
  have hlength := (words_accepted d layout).length_eq
  rw [List.length_map] at hlength
  exact hlength

theorem columns_length_inj {layout' : Layout}
    (h : layout.columns.length = layout'.columns.length) : layout = layout' := by
  cases layout <;> cases layout' <;> first | rfl | cases h

/-- The line of a device matches the expression of its own layout only. -/
theorem search_layout_device (hprints : Prints layout d line) (layout' : Layout) :
    search layout'.regex line.toList =
      if layout' = layout then some ((d.words layout).map String.toList) else none := by
  obtain ⟨cells, trail, hline, hwords, htrail⟩ := hprints.cells
  have hrun (x : List (List Char)) : x ∈ run layout'.regex.items line.toList line.toList ↔
      x = (d.words layout).map String.toList ∧
        List.Forall₂ Accepts layout'.columns ((d.words layout).map String.toList) := by
    rw [hline, ← hwords]
    exact mem_run_columns (solid_columns layout') htrail
  split
  next h =>
    subst h
    refine search_bol_eq_some rfl hprints.isLine fun y => ?_
    rw [hrun, and_iff_left (words_accepted d layout')]
  next h =>
    refine (search_bol_eq_none rfl hprints.isLine).mpr fun x hx => h ?_
    have hlength := ((hrun x).mp hx).2.length_eq
    rw [List.length_map, ← length_columns] at hlength
    exact columns_length_inj hlength

theorem search_devicesHeader_device (hprints : Prints layout d line) {is : List Item} :
    search ⟨true, lit "Devices:" ++ is⟩ line.toList = none := by
  obtain ⟨cells, trail, hline, hwords, htrail⟩ := hprints.cells
  refine (search_bol_eq_none rfl hprints.isLine).mpr fun x hx => ?_
  obtain ⟨u, v, htext, hu, -⟩ := (mem_run_append fun i hi => by
    obtain ⟨c, -, rfl⟩ := List.mem_map.mp hi
    exact ⟨_, Or.inl rfl⟩).mp hx
  rw [accepts_lit] at hu
  have hhead : ∀ c ∈ (text cells trail).head?, isSpace c = true := head_text htrail
  rw [← hline, htext, hu] at hhead
  cases hhead 'D' rfl

/-- A line with a device stores the device. -/
theorem parseLine_device (output : ParsedRing) (hprints : Prints layout d line) :
    parseLine output line =
      .ok (output.store layout ((d.words layout).map String.toList)) := by
  have hregion : search devicesRegion line.toList = none := search_devicesHeader_device hprints
  have hzone : search devicesZone line.toList = none := search_devicesHeader_device hprints
  have hlayout := search_layout_device hprints
  rw [parseLine, search_buildVersion_device hprints, hregion, hzone, hlayout, hlayout, hlayout]
  cases layout with
  | replication => rfl
  | region => rfl
  | zone => rfl

theorem store_hosts (output : ParsedRing) (d : PrintedDevice) (layout : Layout)
    (hnew : output.hosts.get2? d.ip.1 d.device.1 = none) :
    (output.store layout ((d.words layout).map String.toList)).hosts =
      output.hosts.store2 d.ip.1 d.device.1 (d.entry layout) := by
  have hkeys : nth ((d.words layout).map String.toList) layout.keys.1 = d.ip.1 ∧
      nth ((d.words layout).map String.toList) layout.keys.2 = d.device.1 := by
    cases layout <;> exact ⟨String.ofList_toList, String.ofList_toList⟩
  rw [ParsedRing.store, hkeys.1, hkeys.2, hnew]
  have hentry : setDevice layout ((d.words layout).map String.toList) {} = d.entry layout := by
    cases layout <;>
      simp [setDevice, PrintedDevice.words, PrintedDevice.entry, nth, String.ofList_toList]
  rw [Option.getD_none, hentry]

end Devices

section Runs

variable {layout : Layout}

/-- `output[:hosts]` with the devices stored one after the other. -/
def storeDevices (layout : Layout) (ds : List PrintedDevice)
    (hosts : Hash String (Hash String DeviceHash)) : Hash String (Hash String DeviceHash) :=
  ds.foldl (fun h d => h.store2 d.ip.1 d.device.1 (d.entry layout)) hosts

/-- The lines of a dump, read one after the other, store its devices. -/
theorem foldlM_parseLine {dump : List DumpLine} {lines : List String}
    (hlines : List.Forall₂ (DumpLine.Prints layout) dump lines) (output : ParsedRing)
    (hnodup : ((dump.filterMap DumpLine.device?).map fun d => (d.ip.1, d.device.1)).Nodup)
    (hnew : ∀ d ∈ dump.filterMap DumpLine.device?,
      output.hosts.get2? d.ip.1 d.device.1 = none) :
    ∃ output', lines.foldlM parseLine output = .ok output' ∧
      output'.hosts = storeDevices layout (dump.filterMap DumpLine.device?) output.hosts := by
  induction hlines generalizing output with
  | nil => exact ⟨output, rfl, rfl⟩
  | @cons l line dump lines hprints _ ih =>
    cases l with
    | header h =>
      obtain ⟨mid, hmid, hhosts⟩ := parseLine_header output hprints
      rw [List.filterMap_cons_none rfl] at hnodup hnew ⊢
      obtain ⟨output', hrun, hout⟩ := ih mid hnodup fun d hd => by
        rw [hhosts]
        exact hnew d hd
      refine ⟨output', ?_, ?_⟩
      · rw [List.foldlM_cons, hmid]
        exact hrun
      · rw [hout, hhosts]
    | device d =>
      have hmid := parseLine_device output hprints
      have hcons : (DumpLine.device d :: dump).filterMap DumpLine.device? =
          d :: dump.filterMap DumpLine.device? := rfl
      rw [hcons] at hnodup hnew ⊢
      rw [List.map_cons, List.nodup_cons] at hnodup
      obtain ⟨hd, hnew⟩ := List.forall_mem_cons.mp hnew
      have hhosts := store_hosts output d layout hd
      obtain ⟨output', hrun, hout⟩ := ih _ hnodup.2 fun e he => by
        rw [hhosts, Hash.get2?_store2, if_neg fun hkey => ?_]
        · exact hnew e he
        · refine hnodup.1 (List.mem_map.mpr ⟨e, he, ?_⟩)
          rw [hkey.1, hkey.2]
      refine ⟨output', ?_, ?_⟩
      · rw [List.foldlM_cons, hmid]
        exact hrun
      · rw [hout, hhosts]
        rfl

/-- A dump of a ring is read back: each device is found under its address and its name, and nothing
else is found. -/
theorem parseRingOutput_dump {dump : List DumpLine} {ring_data : List String}
    (hprints : List.Forall₂ (DumpLine.Prints layout) dump ring_data)
    (hnodup : ((dump.filterMap DumpLine.device?).map fun d => (d.ip.1, d.device.1)).Nodup) :
    ∃ output, parseRingOutput ring_data = .ok output ∧ ∀ ip device e,
      output.hosts.get2? ip device = some e ↔
        ∃ d ∈ dump.filterMap DumpLine.device?, d.ip.1 = ip ∧ d.device.1 = device ∧
          d.entry layout = e := by
  obtain ⟨output, hrun, hhosts⟩ := foldlM_parseLine hprints ⟨{}, Hash.empty⟩ hnodup
    fun d _ => Hash.get2?_empty _ _
  refine ⟨output, hrun, fun ip device e => ?_⟩
  rw [hhosts]
  constructor
  · exact Hash.of_get2?_foldl_store2
  · rintro ⟨d, hd, rfl, rfl, rfl⟩
    obtain ⟨e, he⟩ := Hash.exists_get2?_foldl_store2 (fun d : PrintedDevice => d.ip.1)
      (fun d => d.device.1) (fun d => d.entry layout) hd
    obtain ⟨d', hd', hip, hdevice, rfl⟩ := Hash.of_get2?_foldl_store2 he
    obtain rfl := List.inj_on_of_nodup_map hnodup hd' hd (Prod.ext hip hdevice)
    exact he

/-- The line of a device with one blank before each word. -/
def PrintedDevice.line (d : PrintedDevice) (layout : Layout) : String :=
  (d.words layout).foldr (fun w rest => " " ++ w ++ rest) "\n"

theorem prints_line (d : PrintedDevice) (layout : Layout) : Prints layout d (d.line layout) := by
  have hsolid : ∀ w ∈ d.words layout, w.toList ≠ [] ∧ ∀ c ∈ w.toList, isSpace c = false := by
    intro w hw
    exact solid_words (solid_columns layout) (words_accepted d layout) _ (List.mem_map_of_mem hw)
  obtain ⟨cells, hcells, hline⟩ : ∃ cells : List Cell,
      cells.map Cell.word = (d.words layout).map String.toList ∧
      (d.line layout).toList = text cells ['\n'] := by
    rw [PrintedDevice.line]
    generalize d.words layout = words at hsolid
    induction words with
    | nil => exact ⟨[], rfl, rfl⟩
    | cons w words ih =>
      obtain ⟨hw, hwords⟩ := List.forall_mem_cons.mp hsolid
      obtain ⟨cells, hcells, hline⟩ := ih hwords
      have hblank : ∀ c ∈ [' '], isSpace c = true ∧ c ≠ '\n' :=
        List.forall_mem_singleton.mpr ⟨rfl, by decide⟩
      refine ⟨⟨[' '], w.toList, List.cons_ne_nil _ _, hblank, hw.1, hw.2⟩ :: cells, ?_, ?_⟩
      · rw [List.map_cons, List.map_cons, hcells]
      · rw [List.foldr_cons, String.toList_append, String.toList_append, hline, text_cons,
          List.append_assoc]
        rfl
  refine ⟨⟨cells, ['\n'], hline, hcells, List.forall_mem_singleton.mpr rfl⟩, ?_⟩
  have htext : text cells ['\n'] = text cells [] ++ ['\n'] := by simp [text]
  rw [IsLine, hline, htext, List.dropLast_concat]
  intro hmem
  obtain ⟨cell, -, hc⟩ : ∃ cell ∈ cells, '\n' ∈ cell.blank ++ cell.word := by
    rw [text, List.append_nil] at hmem
    exact List.mem_flatMap.mp hmem
  rcases List.mem_append.mp hc with hc | hc
  · exact (cell.blank_space _ hc).2 rfl
  · exact absurd (cell.word_solid _ hc) (by decide)

def ofDigits (w : String) (h : w.toList ≠ [] ∧ ∀ c ∈ w.toList, isDigit c = true) : Field digits :=
  ⟨w, accepts_plus.mpr h⟩

theorem accepts_dot : Accepts dot ".".toList := ⟨'.', [], rfl, rfl, rfl⟩

/-- Four numbers with dots between them. -/
def ofNumbers (a b c d : Field digits) : Field address :=
  ⟨a.1 ++ "." ++ b.1 ++ "." ++ (c.1 ++ "." ++ d.1), by
    simp only [String.toList_append]
    exact accepts_append (accepts_append (accepts_append (accepts_append a.2 accepts_dot) b.2)
      accepts_dot) (accepts_append (accepts_append c.2 accepts_dot) d.2)⟩

/-- A disk of a node. -/
def sampleDevice (id node name : String)
    (hid : id.toList ≠ [] ∧ ∀ c ∈ id.toList, isDigit c = true)
    (hnode : node.toList ≠ [] ∧ ∀ c ∈ node.toList, isDigit c = true)
    (hname : name.toList ≠ [] ∧ ∀ c ∈ name.toList, isSolid c = true) : PrintedDevice where
  id := ofDigits id hid
  region := ofDigits "1" (by decide)
  zone := ofDigits "2" (by decide)
  ip := ofNumbers (ofDigits "10" (by decide)) (ofDigits "0" (by decide)) (ofDigits "0" (by decide))
    (ofDigits node hnode)
  port := ofDigits "6000" (by decide)
  replication_ip := ofNumbers (ofDigits "10" (by decide)) (ofDigits "1" (by decide))
    (ofDigits "0" (by decide)) (ofDigits node hnode)
  replication_port := ofDigits "6003" (by decide)
  device := ⟨name, accepts_plus.mpr hname⟩
  weight := ⟨"100.00", accepts_plus.mpr (by decide)⟩
  partitions := ofDigits "512" (by decide)
  balance := ⟨"-0.20", accepts_plus.mpr (by decide)⟩

def sdb : PrintedDevice := sampleDevice "0" "5" "sdb" (by decide) (by decide) (by decide)

def sdc : PrintedDevice := sampleDevice "1" "5" "sdc" (by decide) (by decide) (by decide)

/-- Two devices of one node, with the line of the version before and no newline behind it. -/
theorem parseRingOutput_twoDevices :
    ∃ output, parseRingOutput
        ["object.builder, build version 2", sdb.line .region, sdc.line .region] = .ok output ∧
      ∀ ip device e, output.hosts.get2? ip device = some e ↔
        ∃ d ∈ [sdb, sdc], d.ip.1 = ip ∧ d.device.1 = device ∧ d.entry .region = e := by
  have hversion : DumpLine.Prints .region
      (.header (.version "object.builder, " (ofDigits "2" (by decide)) ""))
      "object.builder, build version 2" := by
    refine ⟨Or.inl (by decide), ?_⟩
    rw [IsLine]
    decide
  have hprints : List.Forall₂ (DumpLine.Prints .region)
      [.header (.version "object.builder, " (ofDigits "2" (by decide)) ""), .device sdb,
        .device sdc]
      ["object.builder, build version 2", sdb.line .region, sdc.line .region] :=
    .cons hversion (.cons (prints_line sdb .region) (.cons (prints_line sdc .region) .nil))
  exact parseRingOutput_dump hprints (by decide)

end Runs

end CompassAdapters.Swift
