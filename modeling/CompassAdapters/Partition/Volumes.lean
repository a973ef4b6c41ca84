import CompassAdapters.Partition.KickstartMounts
import CompassAdapters.Shell.Variables

/-! The loops of the templates over the options that list mount points with sizes, the same in all
three scripts. -/
namespace CompassAdapters.Partition
open Shell Python KickstartLayout

/-- A field of such an option with an accepted mount point. -/
structure Volume where
  mount : String
  name : String
  size : String
  deriving DecidableEq

/-- `#for vol_and_size in $vol_sizes`, with what is made of the field of an accepted mount point. -/
def eachVolume {σ : Type} (body : σ → Volume → Option σ) (option : Option String) (st : σ) :
    Option σ :=
  (fields option).foldlM (fun st vol_and_size =>
    (splitOnce ' ' vol_and_size).bind fun (vol, vol_size) =>
      match volname (strip vol) with
      | none => some st
      | some name => body st ⟨strip vol, name, vol_size⟩) st

def volumeOf (vol_and_size : String) : Option Volume :=
  (splitOnce ' ' vol_and_size).bind fun (vol, vol_size) =>
    (volname (strip vol)).map fun name => ⟨strip vol, name, vol_size⟩

/-- The accepted mount points of an option with their names and sizes. -/
def volumes (option : Option String) : List Volume := (fields option).filterMap volumeOf

section Steps
variable {σ ι β : Type}

/-- A loop whose body leaves what a function says, where it does not fail. -/
theorem foldlM_eq_foldl {body : σ → ι → Option σ} {step : σ → ι → σ}
    (hbody : ∀ st x st', body st x = some st' → st' = step st x) {xs : List ι} {st st' : σ}
    (h : xs.foldlM body st = some st') : st' = xs.foldl step st := by
  induction xs generalizing st with
  | nil => exact (Option.some.inj h).symm
  | cons x xs ih =>
    rw [List.foldlM_cons] at h
    obtain ⟨mid, hmid, hrest⟩ := Option.bind_eq_some_iff.mp h
    rw [List.foldl_cons, ← hbody st x mid hmid]
    exact ih hrest

/-- A loop whose body fails for no element. -/
theorem mapM_eq_map {f : ι → Option β} {g : ι → β} {xs : List ι}
    (h : ∀ x ∈ xs, f x = some (g x)) : xs.mapM f = some (xs.map g) := by
  induction xs with
  | nil => rfl
  | cons x xs ih =>
    obtain ⟨hx, hxs⟩ := List.forall_mem_cons.mp h
    rw [List.mapM_cons, hx, ih hxs]
    rfl

end Steps

section Loops
variable {σ : Type} {body : σ → Volume → Option σ} {option : Option String} {st st' : σ}

theorem eachVolume_eq_some (h : eachVolume body option st = some st') :
    (volumes option).foldlM body st = some st' := by
  rw [eachVolume] at h
  rw [volumes]
  generalize fields option = fs at h ⊢
  induction fs generalizing st with
  | nil => exact h
  | cons f fs ih =>
    rw [List.foldlM_cons] at h
    cases hsplit : splitOnce ' ' f with
    | none =>
      rw [hsplit] at h
      cases h
    | some pair =>
      obtain ⟨vol, vol_size⟩ := pair
      rw [hsplit, Option.bind_some] at h
      cases hname : volname (strip vol) with
      | none =>
        have hskip : volumeOf f = none := by
          simp only [volumeOf, hsplit, Option.bind_some, hname, Option.map_none]
        rw [List.filterMap_cons_none hskip]
        simp only [hname] at h
        exact ih h
      | some name =>
        have htake : volumeOf f = some ⟨strip vol, name, vol_size⟩ := by
          simp only [volumeOf, hsplit, Option.bind_some, hname, Option.map_some]
        rw [List.filterMap_cons_some htake, List.foldlM_cons]
        simp only [hname] at h
        obtain ⟨mid, hmid, hrest⟩ := Option.bind_eq_some_iff.mp h
        rw [hmid]
        exact ih hrest

theorem eachVolume_preserves {P : σ → Prop}
    (hbody : ∀ st v st', body st v = some st' → P st → P st')
    (h : eachVolume body option st = some st') (hst : P st) : P st' := by
  have hloop := eachVolume_eq_some h
  clear h
  generalize volumes option = vs at hloop
  induction vs generalizing st with
  | nil =>
    obtain rfl : st = st' := Option.some.inj hloop
    exact hst
  | cons v vs ih =>
    rw [List.foldlM_cons] at hloop
    obtain ⟨mid, hmid, hrest⟩ := Option.bind_eq_some_iff.mp hloop
    exact ih (hbody st v mid hmid hst) hrest

end Loops

theorem volname_volumes {option : Option String} {v : Volume} (hv : v ∈ volumes option) :
    volname v.mount = some v.name := by
  obtain ⟨f, -, hf⟩ := List.mem_filterMap.mp hv
  obtain ⟨⟨vol, vol_size⟩, -, hvol⟩ := Option.bind_eq_some_iff.mp hf
  obtain ⟨name, hname, rfl⟩ := Option.map_eq_some_iff.mp hvol
  exact hname

theorem map_mount_volumes (o : Options) :
    (volumes o.partition).map Volume.mount = mountPoints o := by
  rw [volumes, mountPoints, List.map_filterMap]
  congr 1
  funext f
  rw [volumeOf, mountPoint]
  cases splitOnce ' ' f with
  | none => rfl
  | some pair =>
    obtain ⟨vol, vol_size⟩ := pair
    simp only [Option.bind_some]
    cases volname (strip vol) with
    | none => rfl
    | some name => rfl

section Names
variable {vol name : String}

/-- The name is that of the root, that of `swap`, or a path without its first slash. -/
theorem volname_cases (h : volname vol = some name) :
    (vol = "/" ∧ name = "root") ∨ (vol = "swap" ∧ name = "swap") ∨
      ∃ c path, vol.toList = '/' :: c :: path ∧
        name.toList = (c :: path).map fun c => if c = '/' then '_' else c := by
  rw [volname] at h
  split at h
  next hroot => exact Or.inl ⟨hroot, (Option.some.inj h).symm⟩
  next hroot =>
    split at h
    next hswap => exact Or.inr (Or.inl ⟨hswap, (Option.some.inj h).symm⟩)
    next hswap =>
      split at h
      next path hpath =>
        cases path with
        | nil =>
          have hvol : vol = "/" := by
            rw [← String.toList_inj, hpath]
            rfl
          exact absurd hvol hroot
        | cons c path =>
          refine Or.inr (Or.inr ⟨c, path, hpath, ?_⟩)
          rw [← Option.some.inj h, Shell.translate, String.toList_ofList, String.toList_ofList]
      next => cases h

theorem volname_ne_empty (h : volname vol = some name) : name ≠ "" := by
  rintro rfl
  rcases volname_cases h with ⟨-, h⟩ | ⟨-, h⟩ | ⟨c, path, -, h⟩
  · exact absurd h (by decide)
  · exact absurd h (by decide)
  · cases h

theorem isBlank_of_isNameChar {c : Char} (h : isNameChar c = true) : isBlank c = false := by
  rw [Bool.eq_false_iff]
  intro hblank
  rw [isBlank, Bool.or_eq_true, Bool.or_eq_true, beq_iff_eq, beq_iff_eq, beq_iff_eq] at hblank
  rcases hblank with (rfl | rfl) | rfl
  · cases h
  · cases h
  · cases h

theorem no_blank_of_isName (h : isName name = true) : ∀ c ∈ name.toList, isBlank c = false :=
  fun c hc => isBlank_of_isNameChar (List.all_eq_true.mp h c hc)

theorem isWord_of_isName (h : volname vol = some name) (hname : isName name = true) :
    IsWord name :=
  ⟨volname_ne_empty h, no_blank_of_isName hname⟩

/-- The slashes of a mount point are the only characters that its name does not have. -/
theorem mount_no_blank (h : volname vol = some name) (hname : isName name = true) :
    ∀ c ∈ vol.toList, isBlank c = false := by
  rcases volname_cases h with ⟨rfl, -⟩ | ⟨rfl, -⟩ | ⟨d, path, hvol, hpath⟩
  · decide
  · decide
  · rw [hvol]
    refine List.forall_mem_cons.mpr ⟨rfl, fun c hc => ?_⟩
    by_cases hslash : c = '/'
    · rw [hslash]
      rfl
    · refine no_blank_of_isName hname c ?_
      rw [hpath]
      exact List.mem_map.mpr ⟨c, hc, if_neg hslash⟩

end Names

end CompassAdapters.Partition
