import CompassAdapters.Ruby.Substitution
import Mathlib.Data.List.Chain

/-! Paths of a URI joined with slashes. -/
namespace CompassAdapters.Openstack
open Ruby

def isSlash (c : Char) : Bool := c == '/'

/-- `/^\/+/` -/
def leadingSlashes : Regex := ⟨true, [.plus isSlash]⟩

/-- `/\/+$/` -/
def trailingSlashes : Regex := ⟨false, [.plus isSlash, .eol]⟩

/-- What a path gives to the join. -/
def segment (path : List Char) : List Char := trailingSlashes.sub [] (leadingSlashes.sub [] path)

def leadingslash (paths : List (List Char)) : List Char :=
  if paths.head?.bind List.head? = some '/' then ['/'] else []

def trailingslash (paths : List (List Char)) : List Char :=
  if paths.getLast?.bind List.getLast? = some '/' then ['/'] else []

def uriJoinPaths (paths : List (List Char)) : Option (List Char) :=
  if paths.length = 0 then none
  else some (leadingslash paths ++ ['/'].intercalate (paths.map segment) ++ trailingslash paths)

example : uriJoinPaths ["/path".toList, "//to/".toList, "/resource".toList] =
    some "/path/to/resource".toList := by decide

/-- Two slashes stand at the ends of a path only. -/
def NoInner (path : List Char) : Prop :=
  ∀ u v, path = u ++ '/' :: '/' :: v → (∀ c ∈ u, c = '/') ∨ ∀ c ∈ v, c = '/'

/-- Single slashes, and a slash at an end where the paths have one. -/
structure JoinsCleanly (paths : List (List Char)) (uri : List Char) : Prop where
  single : ¬ ['/', '/'] <:+: uri
  leading : uri.head? = some '/' ↔ paths.head?.bind List.head? = some '/'
  trailing : uri.getLast? = some '/' ↔ paths.getLast?.bind List.getLast? = some '/'

/-- A line ends with slashes that `/^\/+/` leaves there, behind the lines before it. -/
def Loose (before : List (List Char)) (line : List Char) : Prop :=
  line.getLast? = some '/' ∧ ((∃ c ∈ line, c ≠ '/') ∨ ∃ l ∈ before, l.head? = some '/')

/-- The last line ends so, and another one does. -/
def Uneven (path : List Char) : Prop :=
  ∃ before line between last, path.splitOn '\n' = before ++ line :: between ++ [last] ∧
    Loose before line ∧ Loose (before ++ line :: between) last

section Segment

variable {path : List Char}

theorem isSlash_iff {c : Char} : isSlash c = true ↔ c = '/' := beq_iff_eq

theorem any_isSlash {o : Option Char} : o.any isSlash = true ↔ o = some '/' := by
  cases o with
  | none => simp
  | some c => simp [isSlash]

theorem any_slash {lines : List (List Char)} {e : List Char → Option Char} :
    (lines.any fun l => (e l).any isSlash) = true ↔ ∃ l ∈ lines, e l = some '/' := by
  rw [List.any_eq_true]
  exact exists_congr fun l => and_congr_right fun _ => any_isSlash

theorem takes_leadingSlashes : Regex.Takes leadingSlashes.items isSlash := Regex.takes_plus

theorem takes_trailingSlashes : Regex.Takes trailingSlashes.items isSlash :=
  Regex.takes_plus_eol rfl

/-- A substitution takes slashes away that no other slash follows. -/
theorem exists_cut {r : Regex} (h : Regex.Takes r.items isSlash) (path : List Char) :
    ∃ a m b, path = a ++ m ++ b ∧ r.sub [] path = a ++ b ∧ (∀ c ∈ m, c = '/') ∧
      b.head? ≠ some '/' := by
  obtain ⟨a, m, b, hpath, hsub, hm, hb⟩ := h.sub_cut path
  refine ⟨a, m, b, hpath, hsub, fun c hc => isSlash_iff.mp (hm c hc), fun hhead => ?_⟩
  exact absurd (hb '/' hhead) (by decide)

theorem NoInner.sub {r : Regex} (h : Regex.Takes r.items isSlash) (hpath : NoInner path) :
    NoInner (r.sub [] path) := by
  obtain ⟨a, m, b, rfl, hsub, hm, hb⟩ := exists_cut h path
  rw [hsub]
  intro u v huv
  rcases List.append_eq_append_iff.mp huv with ⟨w, rfl, hw⟩ | ⟨w, rfl, hw⟩
  · -- both slashes stand behind what was taken
    rcases hpath (a ++ m ++ w) v (by rw [hw, List.append_assoc _ w]) with hu | hv
    · left
      intro c hc
      rcases List.mem_append.mp hc with hc | hc
      · exact hu c (List.mem_append_left _ (List.mem_append_left _ hc))
      · exact hu c (List.mem_append_right _ hc)
    · exact Or.inr hv
  · match w, hw with
    | [], hw => exact absurd (congrArg List.head? hw).symm hb
    | [d], hw => exact absurd (congrArg List.head? (List.cons.inj hw).2).symm hb
    | d :: d' :: w, hw =>
      rw [List.cons_append, List.cons_append, List.cons.injEq, List.cons.injEq] at hw
      obtain ⟨rfl, rfl, rfl⟩ := hw
      rcases hpath u (w ++ m ++ b) (by simp) with hu | hv
      · exact Or.inl hu
      · right
        intro c hc
        rcases List.mem_append.mp hc with hc | hc
        · exact hv c (by simp [hc])
        · exact hv c (by simp [hc])

theorem NoInner.segment (hpath : NoInner path) : NoInner (segment path) :=
  (hpath.sub takes_leadingSlashes).sub takes_trailingSlashes

theorem mem_sub {r : Regex} (h : Regex.Takes r.items isSlash) {c : Char} (hc : c ≠ '/') :
    c ∈ r.sub [] path ↔ c ∈ path := by
  obtain ⟨a, m, b, rfl, hsub, hm, -⟩ := exists_cut h path
  have hnot : c ∉ m := fun h => hc (hm c h)
  rw [hsub, List.mem_append, List.mem_append, List.mem_append, or_iff_left hnot]

theorem mem_segment {c : Char} (hc : c ≠ '/') : c ∈ segment path ↔ c ∈ path :=
  (mem_sub takes_trailingSlashes hc).trans (mem_sub takes_leadingSlashes hc)

theorem head?_leadingSlashes (path : List Char) :
    (leadingSlashes.sub [] path).head? ≠ some '/' := by
  intro hhead
  exact absurd (Regex.head?_sub_bol (p := isSlash) path '/' hhead) (by decide)

theorem head?_segment (path : List Char) : (segment path).head? ≠ some '/' := by
  obtain ⟨a, m, b, hpath, hsub, -, hb⟩ :=
    exists_cut takes_trailingSlashes (leadingSlashes.sub [] path)
  rw [segment, hsub]
  cases a with
  | nil => exact hb
  | cons c a =>
    have hhead := head?_leadingSlashes path
    rw [hpath] at hhead
    exact hhead

/-- Nothing is left of slashes only. -/
theorem segment_eq_nil : segment path = [] ↔ ∀ c ∈ path, c = '/' := by
  constructor
  · intro h c hc
    by_contra hne
    have hmem := (mem_segment hne).mpr hc
    rw [h] at hmem
    exact List.not_mem_nil hmem
  · intro h
    cases hs : segment path with
    | nil => rfl
    | cons c s =>
      have hhead := head?_segment path
      rw [hs] at hhead
      have hc : c ≠ '/' := fun h => hhead (congrArg some h)
      have hmem : c ∈ path := (mem_segment hc).mp (hs ▸ List.mem_cons_self)
      exact absurd (h c hmem) hc

/-- What `/^\/+/` leaves of a line. -/
theorem getLast?_dropWhile {line : List Char} :
    (line.dropWhile isSlash).getLast? = some '/' ↔
      line.getLast? = some '/' ∧ ∃ c ∈ line, c ≠ '/' := by
  have hline : line = line.takeWhile isSlash ++ line.dropWhile isSlash :=
    List.takeWhile_append_dropWhile.symm
  by_cases hall : ∀ c ∈ line, c = '/'
  · have hnil : line.dropWhile isSlash = [] :=
      List.dropWhile_eq_nil_iff.mpr fun c hc => isSlash_iff.mpr (hall c hc)
    rw [hnil]
    refine iff_of_false (by simp) ?_
    rintro ⟨-, c, hc, hne⟩
    exact hne (hall c hc)
  · have hne : line.dropWhile isSlash ≠ [] := fun h =>
      hall fun c hc => isSlash_iff.mp (List.dropWhile_eq_nil_iff.mp h c hc)
    have hlast : line.getLast? = (line.dropWhile isSlash).getLast? := by
      conv_lhs => rw [hline]
      exact List.getLast?_append_of_ne_nil _ hne
    rw [hlast, and_iff_left]
    push Not at hall
    exact hall

/-- What `/^\/+/` leaves of a line behind others. -/
def leadingCut (before : List (List Char)) (line : List Char) : List Char :=
  if !(before.any fun l => l.head?.any isSlash) && line.head?.any isSlash
  then line.dropWhile isSlash else line

theorem getLast?_leadingCut {before : List (List Char)} {line : List Char} :
    (leadingCut before line).getLast? = some '/' ↔ Loose before line := by
  rw [leadingCut, Loose]
  split
  next h =>
    rw [Bool.and_eq_true, Bool.not_eq_true', ← Bool.not_eq_true, any_slash] at h
    rw [or_iff_left h.1]
    exact getLast?_dropWhile
  next h =>
    rw [Bool.and_eq_true, Bool.not_eq_true', ← Bool.not_eq_true, any_slash, any_isSlash] at h
    refine (and_iff_left_of_imp fun hlast => ?_).symm
    by_cases hb : ∃ l ∈ before, l.head? = some '/'
    · exact Or.inr hb
    · have hhead : line.head? ≠ some '/' := fun hhead => h ⟨hb, hhead⟩
      cases line with
      | nil => cases hlast
      | cons c line =>
        exact Or.inl ⟨c, List.mem_cons_self, fun hc => hhead (congrArg some hc)⟩

theorem getLast?_rdropWhile {line : List Char} :
    (line.rdropWhile isSlash).getLast? ≠ some '/' := by
  intro h
  have hne : line.rdropWhile isSlash ≠ [] := by
    intro hnil
    rw [hnil] at h
    cases h
  rw [List.getLast?_eq_some_getLast hne, Option.some.injEq] at h
  exact List.rdropWhile_last_not isSlash line hne (isSlash_iff.mpr h)

/-- The lines that `/^\/+/` leaves, the last one apart. -/
theorem splitOn_leadingSlashes {init : List (List Char)} {last : List Char}
    (hpath : path.splitOn '\n' = init ++ [last]) :
    ∃ lines, (leadingSlashes.sub [] path).splitOn '\n' = lines ++ [leadingCut init last] ∧
      ∀ l, l ∈ lines ↔ ∃ before line between, init = before ++ line :: between ∧
        l = leadingCut before line := by
  refine ⟨Regex.cutFirst (fun l => l.head?.any isSlash) (List.dropWhile isSlash) false init, ?_, ?_⟩
  · have hsub := Regex.splitOn_sub_bol (p := isSlash) rfl path
    rw [hpath, Regex.cutFirst_append] at hsub
    exact hsub
  · intro l
    exact Regex.mem_cutFirst

/-- `/\/+$/` leaves slashes at the end of a text just when an earlier line ends with some too. -/
theorem getLast?_trailingSlashes {t : List Char} {lines : List (List Char)} {last : List Char}
    (ht : t.splitOn '\n' = lines ++ [last]) :
    (trailingSlashes.sub [] t).getLast? = some '/' ↔
      (∃ l ∈ lines, l.getLast? = some '/') ∧ last.getLast? = some '/' := by
  have hsub : ((trailingSlashes.sub [] t).splitOn '\n').getLast? =
      some (if !(lines.any fun l => l.getLast?.any isSlash) && last.getLast?.any isSlash
        then last.rdropWhile isSlash else last) := by
    rw [trailingSlashes, Regex.splitOn_sub_eol rfl, ht, Regex.getLast?_cutFirst]
  rw [Text.getLast?_splitOn (c := '\n') (by decide), hsub, Option.bind_some]
  split
  next h =>
    rw [Bool.and_eq_true, Bool.not_eq_true', ← Bool.not_eq_true, any_slash] at h
    exact iff_of_false getLast?_rdropWhile fun h' => h.1 h'.1
  next h =>
    rw [Bool.and_eq_true, Bool.not_eq_true', ← Bool.not_eq_true, any_slash, any_isSlash, not_and',
      not_not] at h
    exact (and_iff_right_of_imp h).symm

/-- Slashes stay behind at the end of a path just when it is uneven. -/
theorem getLast?_segment : (segment path).getLast? = some '/' ↔ Uneven path := by
  obtain ⟨init, last, hpath⟩ : ∃ init last, path.splitOn '\n' = init ++ [last] :=
    ⟨_, _, (List.dropLast_append_getLast (List.splitOn_ne_nil '\n' path)).symm⟩
  obtain ⟨lines, hlines, hmem⟩ := splitOn_leadingSlashes hpath
  rw [segment, getLast?_trailingSlashes hlines, getLast?_leadingCut]
  constructor
  · rintro ⟨⟨l, hl, hslash⟩, hlast⟩
    obtain ⟨before, line, between, rfl, rfl⟩ := (hmem l).mp hl
    exact ⟨before, line, between, last, hpath, getLast?_leadingCut.mp hslash, hlast⟩
  · rintro ⟨before, line, between, last', hpath', hline, hlast⟩
    obtain ⟨rfl, rfl⟩ := List.append_singleton_inj.mp (hpath'.symm.trans hpath)
    have hcut := (hmem _).mpr ⟨before, line, between, rfl, rfl⟩
    exact ⟨⟨_, hcut, getLast?_leadingCut.mpr hline⟩, hlast⟩

/-- The paths of one line are even. -/
theorem not_uneven (h : '\n' ∉ path) : ¬ Uneven path := by
  rintro ⟨before, line, between, last, hpath, -⟩
  rw [List.splitOn_eq_singleton h] at hpath
  have hlen := congrArg List.length hpath
  simp at hlen
  omega

theorem noInner_of_single (h : ¬ ['/', '/'] <:+: path) : NoInner path := by
  rintro u v rfl
  exact absurd ⟨u, v, by simp⟩ h

end Segment

section Join

/-- A text with no slash at its ends, and no two slashes in it. -/
structure Firm (s : List Char) : Prop where
  ne_nil : s ≠ []
  head : s.head? ≠ some '/'
  last : s.getLast? ≠ some '/'
  single : s.IsChain fun a b => ¬ (a = '/' ∧ b = '/')

theorem isChain_iff_not_infix {s : List Char} :
    (s.IsChain fun a b => ¬ (a = '/' ∧ b = '/')) ↔ ¬ ['/', '/'] <:+: s := by
  rw [List.isChain_iff_forall_rel_of_append_cons_cons]
  constructor
  · rintro h ⟨u, v, rfl⟩
    have heq : u ++ ['/', '/'] ++ v = u ++ '/' :: '/' :: v := by simp
    exact h heq ⟨rfl, rfl⟩
  · rintro h a b u v rfl ⟨rfl, rfl⟩
    exact h ⟨u, v, by simp⟩

theorem firm_segment {path : List Char} (hinner : NoInner path) (hsome : ∃ c ∈ path, c ≠ '/')
    (heven : ¬ Uneven path) : Firm (segment path) := by
  have hlast : (segment path).getLast? ≠ some '/' := fun h => heven (getLast?_segment.mp h)
  refine ⟨?_, head?_segment path, hlast, ?_⟩
  · intro hnil
    obtain ⟨c, hc, hne⟩ := hsome
    exact hne (segment_eq_nil.mp hnil c hc)
  · rw [List.isChain_iff_forall_rel_of_append_cons_cons]
    rintro a b u v hseg ⟨rfl, rfl⟩
    rcases hinner.segment u v hseg with hu | hv
    · apply head?_segment path
      rw [hseg]
      cases u with
      | nil => rfl
      | cons c u => exact congrArg some (hu c List.mem_cons_self)
    · apply hlast
      have hends : ∀ c ∈ '/' :: '/' :: v, c = '/' :=
        List.forall_mem_cons.mpr ⟨rfl, List.forall_mem_cons.mpr ⟨rfl, hv⟩⟩
      have hne : '/' :: '/' :: v ≠ [] := List.cons_ne_nil _ _
      rw [hseg, List.getLast?_append_of_ne_nil u hne, List.getLast?_eq_some_getLast hne]
      exact congrArg some (hends _ (List.getLast_mem hne))

theorem Firm.join {s t : List Char} (hs : Firm s) (ht : Firm t) : Firm (s ++ '/' :: t) := by
  refine ⟨List.append_ne_nil_of_left_ne_nil hs.ne_nil _, ?_, ?_, ?_⟩
  · rw [List.head?_append_of_ne_nil _ hs.ne_nil]
    exact hs.head
  · rw [List.getLast?_append_of_ne_nil _ (List.cons_ne_nil _ _), ← List.singleton_append,
      List.getLast?_append_of_ne_nil _ ht.ne_nil]
    exact ht.last
  · rw [List.isChain_append, List.isChain_cons]
    refine ⟨hs.single, ⟨?_, ht.single⟩, ?_⟩
    · rintro c hc ⟨-, rfl⟩
      exact ht.head hc
    · rintro c hc d - ⟨rfl, -⟩
      exact hs.last hc

theorem firm_intercalate {segments : List (List Char)} (hne : segments ≠ [])
    (h : ∀ s ∈ segments, Firm s) : Firm (['/'].intercalate segments) := by
  induction segments with
  | nil => exact absurd rfl hne
  | cons s segments ih =>
    obtain ⟨hs, hsegments⟩ := List.forall_mem_cons.mp h
    cases segments with
    | nil =>
      rw [List.intercalate_singleton]
      exact hs
    | cons t segments =>
      rw [List.intercalate_cons_cons, List.append_assoc, List.singleton_append]
      exact hs.join (ih (List.cons_ne_nil t segments) hsegments)

variable {paths : List (List Char)}

theorem joinsCleanly_of_firm (h : Firm (['/'].intercalate (paths.map segment))) :
    JoinsCleanly paths (leadingslash paths ++ ['/'].intercalate (paths.map segment) ++
      trailingslash paths) := by
  generalize ['/'].intercalate (paths.map segment) = s at h
  refine ⟨?_, ?_, ?_⟩
  · rw [← isChain_iff_not_infix, List.isChain_append, List.isChain_append]
    refine ⟨⟨?_, h.single, ?_⟩, ?_, ?_⟩
    · rw [leadingslash]
      split
      next => exact List.isChain_singleton _
      next => exact List.isChain_nil
    · rintro c - d hd ⟨-, rfl⟩
      exact h.head hd
    · rw [trailingslash]
      split
      next => exact List.isChain_singleton _
      next => exact List.isChain_nil
    · rintro c hc d - ⟨rfl, -⟩
      rw [List.getLast?_append_of_ne_nil _ h.ne_nil] at hc
      exact h.last hc
  · rw [List.append_assoc, leadingslash]
    split
    next hslash => exact iff_of_true rfl hslash
    next hslash =>
      refine iff_of_false ?_ hslash
      rw [List.nil_append, List.head?_append_of_ne_nil _ h.ne_nil]
      exact h.head
  · rw [trailingslash]
    split
    next hslash => exact iff_of_true List.getLast?_concat hslash
    next hslash =>
      refine iff_of_false ?_ hslash
      rw [List.append_nil, List.getLast?_append_of_ne_nil _ h.ne_nil]
      exact h.last

theorem intercalate_append_cons (before after : List (List Char)) (s : List Char) :
    ['/'].intercalate (before ++ s :: after) =
      before.flatMap (fun t => t ++ ['/']) ++ s ++ after.flatMap fun t => '/' :: t := by
  induction before with
  | nil =>
    induction after generalizing s with
    | nil => simp
    | cons t after ih =>
      have hrest := ih t
      rw [List.nil_append] at hrest ⊢
      rw [List.intercalate_cons_cons, hrest]
      simp
  | cons t before ih =>
    have hne : before ++ s :: after ≠ [] := by simp
    rw [List.cons_append, List.intercalate_cons_of_ne_nil hne, ih]
    simp

theorem uriJoinPaths_eq (hne : paths ≠ []) : uriJoinPaths paths =
    some (leadingslash paths ++ ['/'].intercalate (paths.map segment) ++ trailingslash paths) := by
  rw [uriJoinPaths, if_neg (by simpa using hne)]

/-- What precedes a path in the result. -/
def front (paths before : List (List Char)) : List Char :=
  leadingslash paths ++ (before.map segment).flatMap fun t => t ++ ['/']

/-- What follows a path in the result. -/
def back (paths after : List (List Char)) : List Char :=
  ((after.map segment).flatMap fun t => '/' :: t) ++ trailingslash paths

variable {before after : List (List Char)} {path : List Char}

theorem uriJoinPaths_around (hpaths : paths = before ++ path :: after) :
    uriJoinPaths paths = some (front paths before ++ segment path ++ back paths after) := by
  have hmap : paths.map segment = before.map segment ++ segment path :: after.map segment := by
    rw [hpaths, List.map_append, List.map_cons]
  have hne : paths ≠ [] := by simp [hpaths]
  rw [uriJoinPaths_eq hne, hmap, intercalate_append_cons, front, back]
  simp only [List.append_assoc]

/-- A slash precedes a path, but the first one. -/
theorem getLast?_front (hpaths : paths = before ++ path :: after) :
    (front paths before).getLast? = some '/' ∨
      front paths before = [] ∧ before = [] ∧ path.head? ≠ some '/' := by
  rcases List.eq_nil_or_concat before with rfl | ⟨before, t, rfl⟩
  · have hhead : paths.head?.bind List.head? = path.head? := by
      rw [hpaths]
      rfl
    have hfront : front paths [] = leadingslash paths := List.append_nil _
    rw [hfront, leadingslash, hhead]
    split
    next => exact Or.inl rfl
    next hslash => exact Or.inr ⟨rfl, rfl, hslash⟩
  · left
    have hfront : front paths (before.concat t) = front paths before ++ segment t ++ ['/'] := by
      simp [front]
    rw [hfront, List.getLast?_concat]

/-- A slash follows a path, but the last one. -/
theorem head?_back (hpaths : paths = before ++ path :: after) :
    (back paths after).head? = some '/' ∨
      back paths after = [] ∧ after = [] ∧ path.getLast? ≠ some '/' := by
  cases after with
  | nil =>
    have hlast : paths.getLast?.bind List.getLast? = path.getLast? := by
      rw [hpaths, List.getLast?_concat]
      rfl
    have hback : back paths [] = trailingslash paths := List.nil_append _
    rw [hback, trailingslash, hlast]
    split
    next => exact Or.inl rfl
    next hslash => exact Or.inr ⟨rfl, rfl, hslash⟩
  | cons t after => exact Or.inl rfl

theorem double_of_ends {s t : List Char} (hs : s.getLast? = some '/') (ht : t.head? = some '/') :
    ['/', '/'] <:+: s ++ t := by
  obtain ⟨u, rfl⟩ := List.getLast?_eq_some_iff.mp hs
  obtain ⟨v, rfl⟩ := List.head?_eq_some_iff.mp ht
  exact ⟨u, v, by simp⟩

theorem Uneven.getLast? (h : Uneven path) : path.getLast? = some '/' := by
  obtain ⟨before, line, between, last, hpath, -, hlast⟩ := h
  rw [Text.getLast?_splitOn (c := '\n') (by decide), hpath, List.getLast?_concat]
  exact hlast.1

/-- A slash that stays at the end of a path meets the next one. -/
theorem even_of_joinsCleanly {uri : List Char} (hmem : path ∈ paths)
    (huri : uriJoinPaths paths = some uri) (hclean : JoinsCleanly paths uri) : ¬ Uneven path := by
  intro huneven
  obtain ⟨before, after, hpaths⟩ := List.append_of_mem hmem
  obtain rfl := Option.some.inj (huri.symm.trans (uriJoinPaths_around hpaths))
  have hnext : (back paths after).head? = some '/' :=
    (head?_back hpaths).resolve_right fun h => h.2.2 huneven.getLast?
  have hdouble := double_of_ends (getLast?_segment.mpr huneven) hnext
  have hsingle := hclean.single
  rw [List.append_assoc] at hsingle
  exact hsingle (hdouble.trans (List.suffix_append _ _).isInfix)

/-- Only the empty path on its own may leave nothing. -/
theorem eq_singleton_of_joinsCleanly {uri : List Char} (hmem : path ∈ paths)
    (huri : uriJoinPaths paths = some uri) (hclean : JoinsCleanly paths uri)
    (hall : ∀ c ∈ path, c = '/') : paths = [[]] := by
  obtain ⟨before, after, hpaths⟩ := List.append_of_mem hmem
  rw [uriJoinPaths_around hpaths, segment_eq_nil.mpr hall, List.append_nil] at huri
  obtain rfl := Option.some.inj huri
  rcases getLast?_front hpaths with hfront | ⟨hfront, rfl, hhead⟩
  · rcases head?_back hpaths with hback | ⟨hback, rfl, hlast⟩
    · exact absurd (double_of_ends hfront hback) hclean.single
    · -- the last path is empty
      have htrailing := hclean.trailing
      rw [hback, List.append_nil, hpaths, List.getLast?_concat, ← hpaths] at htrailing
      exact absurd (htrailing.mp hfront) hlast
  · rcases head?_back hpaths with hback | ⟨-, rfl, -⟩
    · -- the first path is empty
      have hleading := hclean.leading
      rw [hfront, List.nil_append] at hleading
      have hpath := hleading.mp hback
      rw [hpaths] at hpath
      exact absurd hpath hhead
    · cases path with
      | nil => exact hpaths
      | cons c path => exact absurd (congrArg some (hall c List.mem_cons_self)) hhead

end Join

/-- Paths are joined cleanly just when each has something other than slashes and none is uneven, or
when there is the empty path only. -/
theorem uriJoinPaths_clean_iff {paths : List (List Char)} (hne : paths ≠ [])
    (hinner : ∀ p ∈ paths, NoInner p) :
    (∃ uri, uriJoinPaths paths = some uri ∧ JoinsCleanly paths uri) ↔
      paths = [[]] ∨ ∀ p ∈ paths, (∃ c ∈ p, c ≠ '/') ∧ ¬ Uneven p := by
  constructor
  · rintro ⟨uri, huri, hclean⟩
    by_cases hempty : paths = [[]]
    · exact Or.inl hempty
    · refine Or.inr fun p hp => ⟨?_, even_of_joinsCleanly hp huri hclean⟩
      by_contra hall
      push Not at hall
      exact hempty (eq_singleton_of_joinsCleanly hp huri hclean hall)
  · intro h
    refine ⟨_, uriJoinPaths_eq hne, ?_⟩
    rcases h with rfl | h
    · have huri : leadingslash [[]] ++ ['/'].intercalate ([[]].map segment) ++ trailingslash [[]] =
          [] := rfl
      rw [huri]
      exact ⟨by simp, by simp, by simp⟩
    · apply joinsCleanly_of_firm
      apply firm_intercalate (by simpa using hne)
      intro s hs
      obtain ⟨p, hp, rfl⟩ := List.mem_map.mp hs
      exact firm_segment (hinner p hp) (h p hp).1 (h p hp).2

theorem uriJoinPaths_clean_resource : ∃ uri,
    uriJoinPaths [['/', 'p'], ['t', 'o'], ['r', '/']] = some uri ∧
      JoinsCleanly [['/', 'p'], ['t', 'o'], ['r', '/']] uri := by
  refine (uriJoinPaths_clean_iff (List.cons_ne_nil _ _) ?_).mpr (Or.inr ?_)
  · simp only [List.forall_mem_cons]
    exact ⟨noInner_of_single (by decide), noInner_of_single (by decide),
      noInner_of_single (by decide), nofun⟩
  · simp only [List.forall_mem_cons]
    exact ⟨⟨⟨'p', by decide⟩, not_uneven (by decide)⟩, ⟨⟨'t', by decide⟩, not_uneven (by decide)⟩,
      ⟨⟨'r', by decide⟩, not_uneven (by decide)⟩, nofun⟩

/-- A lone slash is joined to two. -/
theorem uriJoinPaths_lone_slash : NoInner ['/'] ∧ uriJoinPaths [['/']] = some ['/', '/'] ∧
    ¬ ∃ uri, uriJoinPaths [['/']] = some uri ∧ JoinsCleanly [['/']] uri := by
  have hjoin : uriJoinPaths [['/']] = some ['/', '/'] := by decide
  refine ⟨noInner_of_single (by decide), hjoin, ?_⟩
  rintro ⟨uri, huri, hclean⟩
  obtain rfl := Option.some.inj (hjoin.symm.trans huri)
  exact hclean.single (List.infix_refl _)

end CompassAdapters.Openstack
