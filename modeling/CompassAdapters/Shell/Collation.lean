import Mathlib.Data.List.Sort

/-! `sort` in a locale. Lines that the locale does not tell apart are compared byte by byte, so
that the order is total. -/
namespace Shell

structure Collation where
  le : String → String → Prop
  decLe : DecidableRel le
  total : ∀ x y, le x y ∨ le y x
  trans : ∀ x y z, le x y → le y z → le x z
  antisymm : ∀ x y, le x y → le y x → x = y

namespace Collation

/-- The order of the characters. -/
def plain : Collation where
  le x y := x ≤ y
  decLe x y := inferInstanceAs (Decidable (x ≤ y))
  total x y := String.le_total x y
  trans _ _ _ := String.le_trans
  antisymm _ _ := String.le_antisymm

variable (c : Collation)

/-- `sort`. -/
def sort (ws : List String) : List String :=
  haveI := c.decLe
  ws.insertionSort c.le

@[simp] theorem sort_nil : c.sort [] = [] := rfl

theorem sort_perm (ws : List String) : (c.sort ws).Perm ws :=
  letI := c.decLe
  List.perm_insertionSort c.le ws

theorem mem_sort {ws : List String} {x : String} : x ∈ c.sort ws ↔ x ∈ ws :=
  (c.sort_perm ws).mem_iff

theorem sort_pairwise (ws : List String) : (c.sort ws).Pairwise c.le := by
  let _ := c.decLe
  have : Std.Total c.le := ⟨c.total⟩
  have : IsTrans String c.le := ⟨c.trans⟩
  exact List.pairwise_insertionSort c.le ws

/-- There is only one way to sort lines. -/
theorem sort_unique {xs ys : List String} (hxs : xs.Pairwise c.le) (h : xs.Perm ys) :
    c.sort ys = xs :=
  List.Perm.eq_of_pairwise (fun x y _ _ => c.antisymm x y) (c.sort_pairwise ys) hxs
    ((c.sort_perm ys).trans h.symm)

/-- The result does not depend on the order in which the lines come in. -/
theorem sort_eq_of_perm {xs ys : List String} (h : xs.Perm ys) : c.sort xs = c.sort ys :=
  c.sort_unique (c.sort_pairwise ys) ((c.sort_perm ys).trans h.symm)

/-- A line that comes once more stands next to one that is equal to it. -/
theorem sort_cons_of_eq {x : String} {xs before after : List String}
    (h : c.sort xs = before ++ x :: after) : c.sort (x :: xs) = before ++ x :: x :: after := by
  have hsorted := c.sort_pairwise xs
  rw [h, List.pairwise_append, List.pairwise_cons] at hsorted
  obtain ⟨hbefore, ⟨hx, hafter⟩, hacross⟩ := hsorted
  apply c.sort_unique
  · rw [List.pairwise_append, List.pairwise_cons, List.pairwise_cons]
    refine ⟨hbefore, ⟨List.forall_mem_cons.mpr ⟨?_, hx⟩, hx, hafter⟩, ?_⟩
    · exact (c.total x x).elim id id
    · intro y hy
      exact List.forall_mem_cons.mpr ⟨hacross y hy x List.mem_cons_self, hacross y hy⟩
  · have hperm := c.sort_perm xs
    rw [h] at hperm
    exact List.perm_middle.trans (hperm.cons x)

end Collation

end Shell
