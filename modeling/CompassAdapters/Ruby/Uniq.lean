import CompassAdapters.Matching.Links
import Mathlib.Data.List.Sort

/-! `uniq` of Ruby, which keeps the first of equal items, on lists that are sorted by a key. -/
namespace Ruby

variable {α β κ : Type*} [DecidableEq α] [DecidableEq β]

theorem eraseDups_filter (p : α → Bool) (xs : List α) :
    (xs.filter p).eraseDups = xs.eraseDups.filter p := by
  match xs with
  | [] => rfl
  | x :: xs =>
    have hlength : (xs.filter fun y => !y == x).length < xs.length + 1 :=
      Nat.lt_succ_of_le (List.length_filter_le _ _)
    rw [List.eraseDups_cons, List.filter_cons, List.filter_cons]
    by_cases hp : p x = true
    · rw [if_pos hp, if_pos hp, List.eraseDups_cons, List.filter_comm, eraseDups_filter p]
    · have hself : (xs.filter p).filter (fun y => !y == x) = xs.filter p := by
        rw [List.filter_eq_self]
        intro y hy
        have hne : y ≠ x := fun heq => hp (heq ▸ List.of_mem_filter hy)
        simpa using hne
      rw [if_neg hp, if_neg hp, ← eraseDups_filter p, List.filter_comm, hself]
termination_by xs.length

theorem eraseDups_cons_eq (x : α) (xs : List α) :
    (x :: xs).eraseDups = x :: xs.eraseDups.filter fun y => !y == x := by
  rw [List.eraseDups_cons, eraseDups_filter]

theorem eraseDups_sublist (xs : List α) : xs.eraseDups.Sublist xs := by
  induction xs with
  | nil => exact List.Sublist.slnil
  | cons x xs ih =>
    rw [eraseDups_cons_eq]
    exact (List.filter_sublist.trans ih).cons_cons x

/-- What is equal after a function may go before it. -/
theorem eraseDups_map_eraseDups (f : α → β) (xs : List α) :
    (xs.eraseDups.map f).eraseDups = (xs.map f).eraseDups := by
  induction xs with
  | nil => rfl
  | cons x xs ih =>
    have hfilter : ((xs.eraseDups.filter fun y => !y == x).map f).filter (fun z => !z == f x) =
        (xs.eraseDups.map f).filter fun z => !z == f x := by
      rw [List.filter_map, List.filter_map, List.filter_filter]
      congr 1
      apply List.filter_congr
      intro y _
      by_cases hy : y = x <;> simp [hy]
    rw [eraseDups_cons_eq, List.map_cons, List.map_cons, eraseDups_cons_eq, eraseDups_cons_eq,
      ← eraseDups_filter, hfilter, eraseDups_filter, ih]

/-- Lists with the same members, sorted by a key that tells them apart, are the same once every item
is there once. -/
theorem eraseDups_eq_of_sorted [LinearOrder κ] {key : α → κ} {xs ys : List α}
    (hmem : ∀ x, x ∈ xs ↔ x ∈ ys) (hkey : ∀ x ∈ xs, ∀ y ∈ xs, key x = key y → x = y)
    (hxs : xs.Pairwise fun x y => key x ≤ key y) (hys : ys.Pairwise fun x y => key x ≤ key y) :
    xs.eraseDups = ys.eraseDups := by
  have hperm : xs.eraseDups.Perm ys.eraseDups := by
    rw [List.perm_ext_iff_of_nodup (Matching.nodup_eraseDups xs) (Matching.nodup_eraseDups ys)]
    intro x
    rw [List.mem_eraseDups, List.mem_eraseDups, hmem]
  refine hperm.eq_of_pairwise ?_ (hxs.sublist (eraseDups_sublist xs))
    (hys.sublist (eraseDups_sublist ys))
  intro x y hx hy hle hle'
  rw [List.mem_eraseDups] at hx hy
  exact hkey x hx y ((hmem y).mpr hy) (le_antisymm hle hle')

end Ruby
