import CompassAdapters.Shell.Words
import Mathlib.Data.List.TakeWhile

/-! What the partitioning scripts read of the volume manager and what they order. -/
namespace CompassAdapters.Partition
open Shell

inductive Command where
  | vgremove (vg : String)
  | pvremove (pv : String)
  | umount (partition : String)
  /-- `parted disk --script -- rm number` -/
  | partedRm (disk number : String)
  deriving DecidableEq, Repr

def Command.partedRm? : Command → Option (String × String)
  | .partedRm disk number => some (disk, number)
  | _ => none

/-- The pairs handed to `parted … rm`, in order. -/
def partedCalls (cs : List Command) : List (String × String) := cs.filterMap Command.partedRm?

def Command.vgremove? : Command → Option String
  | .vgremove vg => some vg
  | _ => none

def Command.pvremove? : Command → Option String
  | .pvremove pv => some pv
  | _ => none

def vgremoves (cs : List Command) : List String := cs.filterMap Command.vgremove?

def pvremoves (cs : List Command) : List String := cs.filterMap Command.pvremove?

/-- A row of `pvs`; a physical volume outside every group has the empty `vg`. -/
structure PvRow where
  pv : String
  vg : String
  pv_word : IsWord pv
  pv_colon : ':' ∉ pv.toList
  vg_blank : ∀ c ∈ vg.toList, isBlank c = false
  vg_colon : ':' ∉ vg.toList

/-- What `pvs --noheadings --separator :| cut -d: -f1,2` leaves of the row. -/
def PvRow.field (row : PvRow) : String := row.pv ++ ":" ++ row.vg

/-- A row of `pvs` for any device; a by-path link has colons in its name. -/
structure PhysicalVolume where
  pv : String
  vg : String
  pv_word : IsWord pv
  pv_absolute : pv.toList.head? = some '/'
  vg_blank : ∀ c ∈ vg.toList, isBlank c = false
  vg_colon : ':' ∉ vg.toList

/-- What `pvs --noheadings --separator :| cut -d: -f1` leaves of the row. -/
def PhysicalVolume.shown (row : PhysicalVolume) : String :=
  String.ofList (row.pv.toList.takeWhile (· != ':'))

theorem PhysicalVolume.shown_of_plain {row : PhysicalVolume} (h : ':' ∉ row.pv.toList) :
    row.shown = row.pv := by
  rw [shown, List.takeWhile_eq_self_iff.mpr (by simpa using fun c hc (e : c = ':') => h (e ▸ hc)),
    String.ofList_toList]

theorem PhysicalVolume.shown_plain (row : PhysicalVolume) : ':' ∉ row.shown.toList := by
  rw [shown, String.toList_ofList]
  intro h
  simpa using List.mem_takeWhile_imp h

theorem PhysicalVolume.shown_word (row : PhysicalVolume) : IsWord row.shown where
  ne_empty := by
    have hpv := row.pv_absolute
    rw [shown]
    cases hl : row.pv.toList with
    | nil => simp [hl] at hpv
    | cons c cs =>
      have hc : c = '/' := by simpa [hl] using hpv
      simp [hc]
  no_blank := by
    intro c hc
    rw [shown, String.toList_ofList] at hc
    exact row.pv_word.no_blank c ((List.takeWhile_prefix _).subset hc)

@[simp] theorem partedCalls_pvremove (pv : String) (cs : List Command) :
    partedCalls (.pvremove pv :: cs) = partedCalls cs := rfl

@[simp] theorem partedCalls_umount (partition : String) (cs : List Command) :
    partedCalls (.umount partition :: cs) = partedCalls cs := rfl

theorem partedCalls_append (cs ds : List Command) :
    partedCalls (cs ++ ds) = partedCalls cs ++ partedCalls ds := List.filterMap_append

theorem partedCalls_flatMap {α : Type*} (xs : List α) (f : α → List Command) :
    partedCalls (xs.flatMap f) = xs.flatMap fun x => partedCalls (f x) := by
  induction xs with
  | nil => rfl
  | cons x xs ih => rw [List.flatMap_cons, partedCalls_append, ih, List.flatMap_cons]

theorem vgremoves_map (vgs pvs : List String) :
    vgremoves (vgs.map Command.vgremove ++ pvs.map Command.pvremove) = vgs := by
  simp [vgremoves, List.filterMap_map, Function.comp_def, Command.vgremove?]

theorem pvremoves_map (vgs pvs : List String) :
    pvremoves (vgs.map Command.vgremove ++ pvs.map Command.pvremove) = pvs := by
  simp [pvremoves, List.filterMap_map, Function.comp_def, Command.pvremove?]

end CompassAdapters.Partition
