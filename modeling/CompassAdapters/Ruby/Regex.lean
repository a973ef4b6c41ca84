import Mathlib.Data.List.Basic
import Mathlib.Data.List.Forall2
import Mathlib.Data.List.TakeWhile

/-! Regular expressions of Ruby without alternatives: single characters and repeated ones, groups,
and the anchors of a line. The matches at a place come in the order in which they are tried. -/
namespace Ruby

inductive Item
  | char (p : Char → Bool)
  | plus (p : Char → Bool)
  | star (p : Char → Bool)
  /-- `$` -/
  | eol
  | opening
  | closing

/-- With `bol` the expression begins with `^`. -/
structure Regex where
  bol : Bool
  items : List Item

/-- `\s`. -/
def isSpace (c : Char) : Bool := c == ' ' || (9 ≤ c.toNat && c.toNat ≤ 13)

/-- `\d`. -/
def isDigit (c : Char) : Bool := c.isDigit

/-- `\S`. -/
def isSolid (c : Char) : Bool := !isSpace c

namespace Regex

/-- The characters of a text. -/
def lit (s : String) : List Item := s.toList.map fun c => .char (· == c)

/-- `(…)`. -/
def group (f : List Item) : List Item := .opening :: f ++ [.closing]

/-- What a repetition leaves of a text, the longest repetition first. -/
def rests (p : Char → Bool) : List Char → List (List Char)
  | [] => [[]]
  | c :: cs => if p c then rests p cs ++ [c :: cs] else [c :: cs]

/-- The groups of the matches at the head of a text; `g` is the text from the open group on. -/
def run : List Item → List Char → List Char → List (List (List Char))
  | [], _, _ => [[]]
  | .char p :: is, g, s =>
    match s with
    | [] => []
    | c :: cs => if p c then run is g cs else []
  | .plus p :: is, g, s =>
    match s with
    | [] => []
    | c :: cs => if p c then (rests p cs).flatMap (run is g) else []
  | .star p :: is, g, s => (rests p s).flatMap (run is g)
  | .eol :: is, g, s => if s = [] ∨ s.head? = some '\n' then run is g s else []
  | .opening :: is, _, s => run is s s
  | .closing :: is, g, s => (run is g s).map fun groups => g.take (g.length - s.length) :: groups

/-- The search from a place on, which is at the start of a line or not. -/
def searchFrom (r : Regex) (start : Bool) : List Char → Option (List (List Char))
  | [] => if r.bol then none else (run r.items [] []).head?
  | c :: cs =>
    (if r.bol && !start then none else (run r.items (c :: cs) (c :: cs)).head?).or
      (searchFrom r (c == '\n') cs)

/-- `s =~ r`, with the groups of the first match. -/
def search (r : Regex) (s : List Char) : Option (List (List Char)) :=
  if s = [] then (run r.items [] []).head? else searchFrom r true s

section Run

variable {p : Char → Bool} {is f : List Item} {g s : List Char} {x : List (List Char)}

theorem mem_rests {v : List Char} : v ∈ rests p s ↔ ∃ u, s = u ++ v ∧ ∀ c ∈ u, p c = true := by
  induction s with
  | nil =>
    rw [rests, List.mem_singleton]
    constructor
    · rintro rfl
      exact ⟨[], rfl, nofun⟩
    · rintro ⟨u, hs, -⟩
      exact (List.append_eq_nil_iff.mp hs.symm).2
  | cons c cs ih =>
    have hnow : (∃ u, c :: cs = u ++ v ∧ ∀ d ∈ u, p d = true) ↔
        v = c :: cs ∨ (p c = true ∧ ∃ u, cs = u ++ v ∧ ∀ d ∈ u, p d = true) := by
      constructor
      · rintro ⟨u, hs, hu⟩
        cases u with
        | nil => exact Or.inl hs.symm
        | cons d u =>
          rw [List.cons_append, List.cons.injEq] at hs
          obtain ⟨rfl, hs⟩ := hs
          obtain ⟨hd, hu⟩ := List.forall_mem_cons.mp hu
          exact Or.inr ⟨hd, u, hs, hu⟩
      · rintro (rfl | ⟨hc, u, rfl, hu⟩)
        · exact ⟨[], rfl, nofun⟩
        · exact ⟨c :: u, rfl, List.forall_mem_cons.mpr ⟨hc, hu⟩⟩
    rw [hnow, rests]
    by_cases hc : p c = true
    · rw [if_pos hc, List.mem_append, ih, List.mem_singleton, or_comm, and_iff_right hc]
    · rw [if_neg hc, List.mem_singleton, or_iff_left fun h => hc h.1]

theorem mem_run_char : x ∈ run (.char p :: is) g s ↔
    ∃ c cs, s = c :: cs ∧ p c = true ∧ x ∈ run is g cs := by
  cases s with
  | nil => simp [run]
  | cons c cs =>
    rw [run]
    by_cases hc : p c = true
    · simp [hc]
    · simp [hc]

theorem mem_run_star : x ∈ run (.star p :: is) g s ↔
    ∃ u v, s = u ++ v ∧ (∀ c ∈ u, p c = true) ∧ x ∈ run is g v := by
  rw [run, List.mem_flatMap]
  simp only [mem_rests]
  constructor
  · rintro ⟨v, ⟨u, hs, hu⟩, hx⟩
    exact ⟨u, v, hs, hu, hx⟩
  · rintro ⟨u, v, hs, hu, hx⟩
    exact ⟨v, ⟨u, hs, hu⟩, hx⟩

theorem mem_run_plus : x ∈ run (.plus p :: is) g s ↔
    ∃ u v, s = u ++ v ∧ u ≠ [] ∧ (∀ c ∈ u, p c = true) ∧ x ∈ run is g v := by
  cases s with
  | nil =>
    rw [run]
    constructor
    · exact fun h => absurd h List.not_mem_nil
    · rintro ⟨u, v, hs, hne, -⟩
      exact absurd (List.append_eq_nil_iff.mp hs.symm).1 hne
  | cons c cs =>
    rw [run]
    constructor
    · intro hx
      split at hx
      next hc =>
        obtain ⟨v, hv, hrun⟩ := List.mem_flatMap.mp hx
        obtain ⟨u, rfl, hu⟩ := mem_rests.mp hv
        exact ⟨c :: u, v, rfl, List.cons_ne_nil c u, List.forall_mem_cons.mpr ⟨hc, hu⟩, hrun⟩
      next => exact absurd hx List.not_mem_nil
    · rintro ⟨u, v, hs, hne, hu, hx⟩
      cases u with
      | nil => exact absurd rfl hne
      | cons d u =>
        rw [List.cons_append, List.cons.injEq] at hs
        obtain ⟨rfl, rfl⟩ := hs
        obtain ⟨hc, hu⟩ := List.forall_mem_cons.mp hu
        rw [if_pos hc]
        exact List.mem_flatMap.mpr ⟨v, mem_rests.mpr ⟨u, rfl, hu⟩, hx⟩

theorem mem_run_eol : x ∈ run (.eol :: is) g s ↔
    (s = [] ∨ s.head? = some '\n') ∧ x ∈ run is g s := by
  rw [run]
  split
  next h => rw [and_iff_right h]
  next h => exact iff_of_false List.not_mem_nil fun h' => h h'.1

/-- What single and repeated characters accept. -/
def Accepts : List Item → List Char → Prop
  | [], w => w = []
  | .char p :: f, w => ∃ c v, w = c :: v ∧ p c = true ∧ Accepts f v
  | .plus p :: f, w => ∃ u v, w = u ++ v ∧ u ≠ [] ∧ (∀ c ∈ u, p c = true) ∧ Accepts f v
  | _ :: _, _ => False

/-- Single and repeated characters only, none of them white. -/
def Solid (f : List Item) : Prop :=
  f ≠ [] ∧ ∀ i ∈ f, ∃ p : Char → Bool, (i = .char p ∨ i = .plus p) ∧
    ∀ c, p c = true → isSpace c = false

theorem mem_run_append (hf : ∀ i ∈ f, ∃ p : Char → Bool, i = .char p ∨ i = .plus p) :
    x ∈ run (f ++ is) g s ↔ ∃ u v, s = u ++ v ∧ Accepts f u ∧ x ∈ run is g v := by
  induction f generalizing s with
  | nil =>
    constructor
    · exact fun hx => ⟨[], s, rfl, rfl, hx⟩
    · rintro ⟨u, v, rfl, rfl, hx⟩
      exact hx
  | cons i f ih =>
    obtain ⟨⟨p, hi⟩, hrest⟩ := List.forall_mem_cons.mp hf
    rcases hi with rfl | rfl
    · rw [List.cons_append, mem_run_char]
      constructor
      · rintro ⟨c, cs, rfl, hc, hx⟩
        obtain ⟨u, v, rfl, hu, hx⟩ := (ih hrest).mp hx
        exact ⟨c :: u, v, rfl, ⟨c, u, rfl, hc, hu⟩, hx⟩
      · rintro ⟨u, v, rfl, ⟨c, u, rfl, hc, hu⟩, hx⟩
        exact ⟨c, u ++ v, rfl, hc, (ih hrest).mpr ⟨u, v, rfl, hu, hx⟩⟩
    · rw [List.cons_append, mem_run_plus]
      constructor
      · rintro ⟨u, v, rfl, hne, hu, hx⟩
        obtain ⟨u', v', rfl, hu', hx⟩ := (ih hrest).mp hx
        exact ⟨u ++ u', v', (List.append_assoc _ _ _).symm, ⟨u, u', rfl, hne, hu, hu'⟩, hx⟩
      · rintro ⟨w, v, rfl, ⟨u, u', rfl, hne, hu, hu'⟩, hx⟩
        exact ⟨u, u' ++ v, List.append_assoc _ _ _, hne, hu, (ih hrest).mpr ⟨u', v, rfl, hu', hx⟩⟩

theorem mem_run_group (hf : ∀ i ∈ f, ∃ p : Char → Bool, i = .char p ∨ i = .plus p) :
    x ∈ run (group f ++ is) g s ↔
      ∃ u v groups, s = u ++ v ∧ Accepts f u ∧ groups ∈ run is s v ∧ x = u :: groups := by
  have hitems : group f ++ is = .opening :: (f ++ .closing :: is) := by simp [group]
  rw [hitems, run, mem_run_append hf]
  constructor
  · rintro ⟨u, v, rfl, hu, hx⟩
    obtain ⟨groups, hgroups, rfl⟩ := List.mem_map.mp hx
    have htake : (u ++ v).take ((u ++ v).length - v.length) = u := by simp
    exact ⟨u, v, groups, rfl, hu, hgroups, by rw [htake]⟩
  · rintro ⟨u, v, groups, rfl, hu, hgroups, rfl⟩
    have htake : (u ++ v).take ((u ++ v).length - v.length) = u := by simp
    refine ⟨u, v, rfl, hu, List.mem_map.mpr ⟨groups, hgroups, ?_⟩⟩
    rw [htake]

theorem Solid.plain (hf : Solid f) : ∀ i ∈ f, ∃ p : Char → Bool, i = .char p ∨ i = .plus p :=
  fun i hi => (hf.2 i hi).imp fun _ => And.left

theorem solid_plus (hp : ∀ c, p c = true → isSpace c = false) : Solid [.plus p] :=
  ⟨List.cons_ne_nil _ _, fun _ hi => ⟨p, Or.inr (List.mem_singleton.mp hi), hp⟩⟩

theorem solid_char (hp : ∀ c, p c = true → isSpace c = false) : Solid [.char p] :=
  ⟨List.cons_ne_nil _ _, fun _ hi => ⟨p, Or.inl (List.mem_singleton.mp hi), hp⟩⟩

theorem Solid.append {f' : List Item} (hf : Solid f) (hf' : Solid f') : Solid (f ++ f') := by
  refine ⟨fun h => hf.1 (List.append_eq_nil_iff.mp h).1, fun i hi => ?_⟩
  rcases List.mem_append.mp hi with hi | hi
  · exact hf.2 i hi
  · exact hf'.2 i hi

theorem isSpace_of_isDigit {c : Char} (h : isDigit c = true) : isSpace c = false := by
  by_contra hspace
  rw [Bool.not_eq_false, isSpace, Bool.or_eq_true, Bool.and_eq_true, beq_iff_eq,
    decide_eq_true_eq, decide_eq_true_eq] at hspace
  rw [isDigit, Char.isDigit, Bool.and_eq_true, decide_eq_true_eq, decide_eq_true_eq] at h
  have hlow : 48 ≤ c.toNat := h.1
  rcases hspace with rfl | hspace
  · exact absurd hlow (by decide)
  · omega

theorem accepts_lit {w : String} {u : List Char} : Accepts (lit w) u ↔ u = w.toList := by
  rw [lit]
  generalize w.toList = cs
  induction cs generalizing u with
  | nil => rfl
  | cons c cs ih =>
    rw [List.map_cons, Accepts]
    constructor
    · rintro ⟨d, v, rfl, hd, hv⟩
      rw [ih.mp hv, beq_iff_eq.mp hd]
    · rintro rfl
      exact ⟨c, cs, rfl, beq_self_eq_true c, ih.mpr rfl⟩

theorem accepts_plus {u : List Char} :
    Accepts [.plus p] u ↔ u ≠ [] ∧ ∀ c ∈ u, p c = true := by
  constructor
  · rintro ⟨u, v, rfl, hne, hu, rfl⟩
    rw [List.append_nil]
    exact ⟨hne, hu⟩
  · rintro ⟨hne, hu⟩
    exact ⟨u, [], (List.append_nil u).symm, hne, hu, rfl⟩

theorem accepts_append {f' : List Item} {u v : List Char} (hu : Accepts f u)
    (hv : Accepts f' v) : Accepts (f ++ f') (u ++ v) := by
  induction f generalizing u with
  | nil =>
    rw [hu]
    exact hv
  | cons i f ih =>
    cases i with
    | char p =>
      obtain ⟨c, w, rfl, hc, hw⟩ := hu
      exact ⟨c, w ++ v, rfl, hc, ih hw⟩
    | plus p =>
      obtain ⟨w, w', rfl, hne, hw, hw'⟩ := hu
      exact ⟨w, w' ++ v, List.append_assoc _ _ _, hne, hw, ih hw'⟩
    | star p => exact hu.elim
    | eol => exact hu.elim
    | opening => exact hu.elim
    | closing => exact hu.elim

/-- What the characters of the items have in common, all characters of an accepted text have. -/
theorem forall_of_accepts {q : Char → Prop}
    (hf : ∀ i ∈ f, ∃ p : Char → Bool, (i = .char p ∨ i = .plus p) ∧ ∀ c, p c = true → q c)
    {u : List Char} (hu : Accepts f u) : ∀ c ∈ u, q c := by
  induction f generalizing u with
  | nil =>
    rw [hu]
    exact nofun
  | cons i f ih =>
    obtain ⟨⟨p, hi, hp⟩, hrest⟩ := List.forall_mem_cons.mp hf
    rcases hi with rfl | rfl
    · obtain ⟨c, v, rfl, hc, hv⟩ := hu
      exact List.forall_mem_cons.mpr ⟨hp c hc, ih hrest hv⟩
    · obtain ⟨u, v, rfl, -, hu, hv⟩ := hu
      intro c hc
      rcases List.mem_append.mp hc with hc | hc
      · exact hp c (hu c hc)
      · exact ih hrest hv c hc

theorem ne_nil_of_accepts (hne : f ≠ []) {u : List Char} (hu : Accepts f u) : u ≠ [] := by
  rintro rfl
  cases f with
  | nil => exact hne rfl
  | cons i f =>
    cases i with
    | char p =>
      obtain ⟨c, v, hnil, -⟩ := hu
      exact absurd hnil (List.cons_ne_nil c v).symm
    | plus p =>
      obtain ⟨u, v, hnil, hu, -⟩ := hu
      exact hu (List.append_eq_nil_iff.mp hnil.symm).1
    | star p => exact hu.elim
    | eol => exact hu.elim
    | opening => exact hu.elim
    | closing => exact hu.elim

/-- What is accepted is a word. -/
theorem Solid.accepts (hf : Solid f) {u : List Char} (hu : Accepts f u) :
    u ≠ [] ∧ ∀ c ∈ u, isSpace c = false :=
  ⟨ne_nil_of_accepts hf.1 hu, forall_of_accepts hf.2 hu⟩

theorem solid_words {fs : List (List Item)} {ws : List (List Char)} (hfs : ∀ f ∈ fs, Solid f)
    (h : List.Forall₂ Accepts fs ws) : ∀ w ∈ ws, w ≠ [] ∧ ∀ c ∈ w, isSpace c = false := by
  induction h with
  | nil => exact fun w hw => absurd hw List.not_mem_nil
  | cons hword _ ih =>
    obtain ⟨hf, hfs⟩ := List.forall_mem_cons.mp hfs
    exact List.forall_mem_cons.mpr ⟨hf.accepts hword, ih hfs⟩

end Run

section Search

variable {f : List Item}

/-- Single and repeated characters match at the head of a text if they accept some of it. -/
theorem head?_run_isSome (hf : ∀ i ∈ f, ∃ p : Char → Bool, i = .char p ∨ i = .plus p)
    {g s : List Char} : (run f g s).head?.isSome ↔ ∃ u v, s = u ++ v ∧ Accepts f u := by
  have hmem (x : List (List Char)) : x ∈ run f g s ↔ ∃ u v, s = u ++ v ∧ Accepts f u ∧ x = [] := by
    rw [← List.append_nil f, mem_run_append hf]
    simp [run]
  rw [Option.isSome_iff_exists]
  constructor
  · rintro ⟨x, hx⟩
    obtain ⟨u, v, hs, hu, -⟩ := (hmem x).mp (List.mem_of_mem_head? hx)
    exact ⟨u, v, hs, hu⟩
  · rintro ⟨u, v, hs, hu⟩
    have hin : [] ∈ run f g s := (hmem []).mpr ⟨u, v, hs, hu, rfl⟩
    exact ⟨_, List.head?_eq_some_head (List.ne_nil_of_mem hin)⟩

/-- A place where a search may succeed: anywhere, or at the start of a line. -/
def Place (bol start : Bool) (u : List Char) : Prop :=
  bol = true → (u = [] ∧ start = true) ∨ u.getLast? = some '\n'

theorem place_cons {bol start : Bool} {c : Char} {u : List Char} :
    Place bol start (c :: u) ↔ Place bol (c == '\n') u := by
  cases u with
  | nil => simp [Place]
  | cons d u => simp [Place, List.getLast?_cons_cons]

theorem searchFrom_isSome (hf : ∀ i ∈ f, ∃ p : Char → Bool, i = .char p ∨ i = .plus p)
    (hne : f ≠ []) {bol start : Bool} {s : List Char} :
    (searchFrom ⟨bol, f⟩ start s).isSome ↔
      ∃ u w v, s = u ++ w ++ v ∧ Place bol start u ∧ Accepts f w := by
  induction s generalizing start with
  | nil =>
    refine iff_of_false ?_ ?_
    · rw [searchFrom]
      cases bol with
      | true => simp
      | false =>
        rw [if_neg Bool.false_ne_true, head?_run_isSome hf]
        rintro ⟨u, v, hnil, hu⟩
        exact ne_nil_of_accepts hne hu (List.append_eq_nil_iff.mp hnil.symm).1
    · rintro ⟨u, w, v, hnil, -, hw⟩
      have huw := (List.append_eq_nil_iff.mp hnil.symm).1
      exact ne_nil_of_accepts hne hw (List.append_eq_nil_iff.mp huw).2
  | cons c cs ih =>
    have htail : (searchFrom ⟨bol, f⟩ (c == '\n') cs).isSome = true ↔
        ∃ u w v, cs = u ++ w ++ v ∧ Place bol (c == '\n') u ∧ Accepts f w := ih
    rw [searchFrom, Option.isSome_or, Bool.or_eq_true, htail]
    constructor
    · rintro (hnow | ⟨u, w, v, rfl, hplace, hw⟩)
      · split at hnow
        next => cases hnow
        next hstart =>
          obtain ⟨w, v, hs, hw⟩ := (head?_run_isSome hf).mp hnow
          refine ⟨[], w, v, hs, ?_, hw⟩
          intro hbol
          exact Or.inl ⟨rfl, by simpa [hbol] using hstart⟩
      · exact ⟨c :: u, w, v, rfl, place_cons.mpr hplace, hw⟩
    · rintro ⟨u, w, v, hs, hplace, hw⟩
      cases u with
      | nil =>
        refine Or.inl ?_
        have hstart : ¬ (bol && !start) = true := by
          intro h
          rw [Bool.and_eq_true, Bool.not_eq_true'] at h
          rcases hplace h.1 with ⟨-, htrue⟩ | hlast
          · rw [h.2] at htrue
            cases htrue
          · cases hlast
        rw [if_neg hstart]
        exact (head?_run_isSome hf).mpr ⟨w, v, hs, hw⟩
      | cons d u =>
        obtain ⟨rfl, rfl⟩ := List.cons.inj hs
        exact Or.inr ⟨u, w, v, rfl, place_cons.mp hplace, hw⟩

/-- A search succeeds at some place of the text, or at the start of a line. -/
theorem search_isSome_iff (hf : ∀ i ∈ f, ∃ p : Char → Bool, i = .char p ∨ i = .plus p)
    (hne : f ≠ []) {bol : Bool} {s : List Char} (hs : s ≠ []) :
    (search ⟨bol, f⟩ s).isSome ↔
      ∃ u w v, s = u ++ w ++ v ∧ Place bol true u ∧ Accepts f w := by
  rw [search, if_neg hs, searchFrom_isSome hf hne]

end Search

section Columns

/-- `\s+(f)\s+(f')…\s*$`. -/
def columns (fs : List (List Item)) : List Item :=
  fs.flatMap (fun f => .plus isSpace :: group f) ++ [.star isSpace, .eol]

/-- A word with the white space before it. -/
structure Cell where
  blank : List Char
  word : List Char
  blank_ne : blank ≠ []
  blank_space : ∀ c ∈ blank, isSpace c = true ∧ c ≠ '\n'
  word_ne : word ≠ []
  word_solid : ∀ c ∈ word, isSpace c = false

/-- The text of some cells, with what stands behind them. -/
def text (cells : List Cell) (trail : List Char) : List Char :=
  cells.flatMap (fun cell => cell.blank ++ cell.word) ++ trail

variable {p : Char → Bool} {g s trail : List Char} {x : List (List Char)} {cells : List Cell}
  {fs : List (List Item)}

theorem text_cons (cell : Cell) (cells : List Cell) (trail : List Char) :
    text (cell :: cells) trail = cell.blank ++ (cell.word ++ text cells trail) := by
  simp [text]

/-- There is one way to cut off a longest part. -/
theorem append_eq_append {u v u' v' : List Char} (h : u ++ v = u' ++ v')
    (hu : ∀ c ∈ u, p c = true) (hu' : ∀ c ∈ u', p c = true) (hv : ∀ c ∈ v.head?, p c = false)
    (hv' : ∀ c ∈ v'.head?, p c = false) : u = u' ∧ v = v' := by
  have hcut {u v : List Char} (hu : ∀ c ∈ u, p c = true) (hv : ∀ c ∈ v.head?, p c = false) :
      (u ++ v).takeWhile p = u := by
    rw [List.takeWhile_append_of_pos hu]
    cases v with
    | nil => simp
    | cons c v => simp [hv c rfl]
  have heq : u = u' := by rw [← hcut hu hv, h, hcut hu' hv']
  subst heq
  exact ⟨rfl, List.append_cancel_left h⟩

theorem head_text (htrail : ∀ c ∈ trail, isSpace c = true) :
    ∀ c ∈ (text cells trail).head?, isSpace c = true := by
  intro c hc
  cases cells with
  | nil => exact htrail c (List.mem_of_mem_head? hc)
  | cons cell cells =>
    rw [text_cons, List.head?_append_of_ne_nil _ cell.blank_ne] at hc
    exact (cell.blank_space c (List.mem_of_mem_head? hc)).1

/-- The columns begin with white space, if there is anything. -/
theorem head_of_mem_run_columns (h : x ∈ run (columns fs) g s) :
    ∀ c ∈ s.head?, isSpace c = true := by
  cases fs with
  | nil =>
    obtain ⟨u, v, rfl, hu, hv⟩ := mem_run_star.mp h
    cases u with
    | nil =>
      intro c hc
      rcases (mem_run_eol.mp hv).1 with rfl | hnewline
      · cases hc
      · rw [List.nil_append, hnewline, Option.mem_some] at hc
        rw [← hc]
        rfl
    | cons d u =>
      rintro c hc
      obtain rfl : d = c := Option.some.inj hc
      exact hu d List.mem_cons_self
  | cons f fs =>
    obtain ⟨u, v, rfl, hne, hu, -⟩ := mem_run_plus.mp h
    intro c hc
    rw [List.head?_append_of_ne_nil _ hne] at hc
    exact hu c (List.mem_of_mem_head? hc)

theorem mem_run_no_columns (htrail : ∀ c ∈ trail, isSpace c = true) :
    x ∈ run (columns []) g trail ↔ x = [] := by
  constructor
  · intro hx
    obtain ⟨u, v, -, -, hx⟩ := mem_run_star.mp hx
    exact List.mem_singleton.mp (mem_run_eol.mp hx).2
  · rintro rfl
    refine mem_run_star.mpr ⟨trail, [], (List.append_nil trail).symm, htrail, ?_⟩
    exact mem_run_eol.mpr ⟨Or.inl rfl, List.mem_singleton_self _⟩

/-- Behind the last column no word is passed over. -/
theorem not_mem_run_no_columns (cell : Cell) :
    x ∉ run (columns []) g (text (cell :: cells) trail) := by
  intro hx
  obtain ⟨u, v, htext, hu, hx⟩ := mem_run_star.mp hx
  have heol := (mem_run_eol.mp hx).1
  obtain ⟨c, w, hword⟩ := List.exists_cons_of_ne_nil cell.word_ne
  have hc := cell.word_solid c (hword ▸ List.mem_cons_self)
  have hline {rest : List Char} : ¬ (c :: rest = [] ∨ (c :: rest).head? = some '\n') := by
    rintro (hnil | hnewline)
    · cases hnil
    · obtain rfl : c = '\n' := Option.some.inj hnewline
      cases hc
  rw [text_cons, List.append_eq_append_iff] at htext
  rcases htext with ⟨a, rfl, hrest⟩ | ⟨a, hblank, rfl⟩
  · -- nothing of the word is white
    have ha : a = [] := by
      cases a with
      | nil => rfl
      | cons d a =>
        rw [hword, List.cons_append, List.cons_append, List.cons.injEq] at hrest
        have hd := hu d (List.mem_append_right _ List.mem_cons_self)
        rw [← hrest.1, hc] at hd
        cases hd
    rw [ha, List.nil_append] at hrest
    rw [← hrest, hword] at heol
    exact hline heol
  · cases a with
    | nil =>
      rw [List.nil_append, hword] at heol
      exact hline heol
    | cons d a =>
      have hd := (cell.blank_space d (hblank ▸ List.mem_append_right _ List.mem_cons_self)).2
      rcases heol with hnil | hnewline
      · cases hnil
      · exact hd (Option.some.inj hnewline)

/-- The columns match the text of some cells just when there are as many, and each accepts its
word; the groups are the words. -/
theorem mem_run_columns (hfs : ∀ f ∈ fs, Solid f) (htrail : ∀ c ∈ trail, isSpace c = true) :
    x ∈ run (columns fs) g (text cells trail) ↔
      x = cells.map Cell.word ∧ List.Forall₂ Accepts fs (cells.map Cell.word) := by
  induction fs generalizing cells g x with
  | nil =>
    cases cells with
    | nil => simpa [text] using mem_run_no_columns htrail
    | cons cell cells => exact iff_of_false (not_mem_run_no_columns cell) fun h => by cases h.2
  | cons f fs ih =>
    obtain ⟨hf, hfs⟩ := List.forall_mem_cons.mp hfs
    have hcolumns : columns (f :: fs) = .plus isSpace :: (group f ++ columns fs) := by
      simp [columns]
    rw [hcolumns, mem_run_plus]
    simp only [mem_run_group hf.plain]
    cases cells with
    | nil =>
      refine iff_of_false ?_ fun h => by cases h.2
      rintro ⟨u, -, htext, -, -, w, v, groups, rfl, hw, -⟩
      obtain ⟨c, hc⟩ := List.exists_mem_of_ne_nil _ (hf.accepts hw).1
      have hsolid := (hf.accepts hw).2 c hc
      have hmem : c ∈ trail := by
        have htrail' : trail = u ++ (w ++ v) := htext
        rw [htrail']
        exact List.mem_append_right _ (List.mem_append_left _ hc)
      rw [htrail c hmem] at hsolid
      cases hsolid
    | cons cell cells =>
      rw [List.map_cons, List.forall₂_cons, text_cons]
      have hblank : ∀ c ∈ cell.blank, isSpace c = true := fun c hc => (cell.blank_space c hc).1
      have hhead {w v : List Char} (hne : w ≠ []) (hw : ∀ c ∈ w, isSpace c = false) :
          ∀ c ∈ (w ++ v).head?, isSpace c = false := by
        intro c hc
        rw [List.head?_append_of_ne_nil _ hne] at hc
        exact hw c (List.mem_of_mem_head? hc)
      constructor
      · rintro ⟨u, -, htext, hne, hu, w, v, groups, rfl, hw, hgroups, rfl⟩
        obtain ⟨hwne, hwsolid⟩ := hf.accepts hw
        obtain ⟨rfl, hrest⟩ := append_eq_append htext hblank hu
          (hhead cell.word_ne cell.word_solid) (hhead hwne hwsolid)
        -- the word ends where white space begins
        obtain ⟨rfl, rfl⟩ := append_eq_append (p := isSolid) hrest
          (fun c hc => by rw [isSolid, cell.word_solid c hc]; rfl)
          (fun c hc => by rw [isSolid, hwsolid c hc]; rfl)
          (fun c hc => by rw [isSolid, head_text htrail c hc]; rfl)
          (fun c hc => by rw [isSolid, head_of_mem_run_columns hgroups c hc]; rfl)
        obtain ⟨rfl, hall⟩ := (ih hfs).mp hgroups
        exact ⟨rfl, hw, hall⟩
      · rintro ⟨rfl, hw, hall⟩
        exact ⟨cell.blank, _, rfl, cell.blank_ne, hblank, cell.word, text cells trail,
          cells.map Cell.word, rfl, hw, (ih hfs).mpr ⟨rfl, hall⟩, rfl⟩

end Columns

section Lines

variable {r : Regex} {s : List Char}

/-- A line as `readlines` gives it: a newline stands at the end only. -/
def IsLine (s : List Char) : Prop := '\n' ∉ s.dropLast

theorem IsLine.tail {c d : Char} {s : List Char} (h : IsLine (c :: d :: s)) :
    c ≠ '\n' ∧ IsLine (d :: s) := by
  rw [IsLine, List.dropLast_cons_cons, List.mem_cons, not_or] at h
  exact ⟨Ne.symm h.1, h.2⟩

theorem searchFrom_false (hr : r.bol = true) (hs : IsLine s) : searchFrom r false s = none := by
  induction s with
  | nil => rw [searchFrom, if_pos hr]
  | cons c s ih =>
    rw [searchFrom, hr]
    cases s with
    | nil =>
      rw [searchFrom, if_pos hr]
      rfl
    | cons d s =>
      have hc : (c == '\n') = false := beq_false_of_ne hs.tail.1
      rw [hc, ih hs.tail.2]
      rfl

/-- An expression that begins with `^` is tried at the head of a line only. -/
theorem search_bol (hr : r.bol = true) (hs : IsLine s) : search r s = (run r.items s s).head? := by
  cases s with
  | nil => exact if_pos rfl
  | cons c s =>
    rw [search, if_neg (List.cons_ne_nil c s), searchFrom, hr]
    have hrest : searchFrom r (c == '\n') s = none := by
      cases s with
      | nil => rw [searchFrom, if_pos hr]
      | cons d s =>
        have hc : (c == '\n') = false := beq_false_of_ne hs.tail.1
        rw [hc]
        exact searchFrom_false hr hs.tail.2
    rw [hrest, Option.or_none]
    rfl

theorem search_bol_eq_none (hr : r.bol = true) (hs : IsLine s) :
    search r s = none ↔ ∀ x, x ∉ run r.items s s := by
  rw [search_bol hr hs, List.head?_eq_none_iff, List.eq_nil_iff_forall_not_mem]

/-- Where all matches have the same groups, these are found. -/
theorem search_bol_eq_some (hr : r.bol = true) (hs : IsLine s) {x : List (List Char)}
    (hx : ∀ y, y ∈ run r.items s s ↔ y = x) : search r s = some x := by
  rw [search_bol hr hs]
  cases hrun : run r.items s s with
  | nil =>
    have hmem := (hx x).mpr rfl
    rw [hrun] at hmem
    exact absurd hmem List.not_mem_nil
  | cons y ys =>
    have hy := (hx y).mp (hrun ▸ List.mem_cons_self)
    rw [hy]
    rfl

theorem search_isSome {x : List (List Char)} (hx : x ∈ run r.items s s) :
    (search r s).isSome = true := by
  have hhead : ((run r.items s s).head?).isSome = true := by
    rw [List.isSome_head?]
    exact List.ne_nil_of_mem hx
  cases s with
  | nil =>
    rw [search, if_pos rfl]
    exact hhead
  | cons c s =>
    rw [search, if_neg (List.cons_ne_nil c s), searchFrom, Bool.not_true, Bool.and_false,
      if_neg Bool.false_ne_true, Option.isSome_or, hhead]
    rfl

/-- What matches further on in a text is found as well, if the expression has no `^`. -/
theorem search_isSome_of_suffix (hr : r.bol = false) {u : List Char} {x : List (List Char)}
    (hx : x ∈ run r.items s s) : (search r (u ++ s)).isSome = true := by
  cases u with
  | nil => exact search_isSome hx
  | cons c u =>
    have hfrom (start : Bool) (u : List Char) : (searchFrom r start (u ++ s)).isSome = true := by
      induction u generalizing start with
      | nil =>
        have hhead : ((run r.items s s).head?).isSome = true := by
          rw [List.isSome_head?]
          exact List.ne_nil_of_mem hx
        cases s with
        | nil =>
          rw [List.append_nil, searchFrom, hr]
          exact hhead
        | cons d s =>
          rw [List.nil_append, searchFrom, hr, Bool.false_and, if_neg Bool.false_ne_true,
            Option.isSome_or, hhead]
          rfl
      | cons d u ih => rw [List.cons_append, searchFrom, Option.isSome_or, ih, Bool.or_true]
    rw [search, List.cons_append, if_neg (List.cons_ne_nil c _), ← List.cons_append]
    exact hfrom true (c :: u)

theorem search_eq_none (h : ∀ t, t <:+ s → ∀ x, x ∉ run r.items t t) : search r s = none := by
  have hnil (t : List Char) (ht : t <:+ s) : (run r.items t t).head? = none := by
    rw [List.head?_eq_none_iff, List.eq_nil_iff_forall_not_mem]
    exact h t ht
  have hfrom (start : Bool) (t : List Char) (ht : t <:+ s) : searchFrom r start t = none := by
    induction t generalizing start with
    | nil =>
      rw [searchFrom]
      split
      next => rfl
      next => exact hnil [] ht
    | cons c t ih =>
      rw [searchFrom, hnil _ ht, ih _ ((List.suffix_cons c t).trans ht), ite_self]
      rfl
  rw [search]
  split
  next => exact hnil [] (List.nil_suffix)
  next => exact hfrom true s (List.suffix_refl s)

end Lines

end Regex

end Ruby
