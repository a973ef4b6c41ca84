import CompassAdapters.Shell.Assoc
import CompassAdapters.Shell.Words

/-! Slices of a list that a script takes with `shift` and `head`, and slices of the values of an
associative array, which come in any order. -/
namespace Shell

/-- `shift n`, which fails for more than there are parameters and then keeps them. -/
def shift (n : ℕ) (params : List String) : List String :=
  if n ≤ params.length then params.drop n else params

/-- `head -n` of lines, where a number is given. -/
def head (n : Option ℕ) (lines : List String) : List String := n.elim lines fun n => lines.take n

@[simp] theorem setParams_nil (ws : List String) : setParams [] ws = ws := by
  rw [setParams]
  split
  next h => exact h.symm
  next => rfl

theorem setParams_self (ws : List String) : setParams ws ws = ws := ite_self ws

theorem head_eq_nil_iff {n : Option ℕ} {lines : List String} :
    head n lines = [] ↔ lines = [] ∨ n = some 0 := by
  cases n with
  | none => simp [head]
  | some n => simp [head, or_comm]

/-- `shift` and `head` cut out the slice of a list just when there is as much to shift away, or
nothing at all, or nothing is taken. -/
theorem head_shift_eq_iff {k : ℕ} {n : Option ℕ} {ws : List String} :
    head n (shift k ws) = head n (ws.drop k) ↔ k ≤ ws.length ∨ ws = [] ∨ n = some 0 := by
  by_cases hk : k ≤ ws.length
  · rw [shift, if_pos hk]
    exact iff_of_true rfl (Or.inl hk)
  · have hnone : ws.drop k = [] := List.drop_eq_nil_of_le (by omega)
    have hempty : head n [] = [] := head_eq_nil_iff.mpr (Or.inl rfl)
    rw [shift, if_neg hk, hnone, hempty, head_eq_nil_iff, or_iff_right hk]

namespace Bash

variable (b : Bash)

/-- A shell that lists the key `q` at place `k` and the other keys around it. -/
def moveKey (q : String) (k : ℕ) : Bash where
  toCollation := b.toCollation
  order place ks := if q ∈ ks ∧ k < ks.length then (ks.erase q).insertIdx k q else b.order place ks
  order_perm place ks := by
    split
    next h =>
      have hlength : (ks.erase q).length = ks.length - 1 := List.length_erase_of_mem h.1
      exact (List.perm_insertIdx q (ks.erase q) (by omega)).trans
        (List.perm_cons_erase h.1).symm
    next => exact b.order_perm place ks

theorem values_moveKey (place : ℕ) {k : ℕ} {a : AssocArray} {q : String} (hq : q ∈ a.keys)
    (hk : k < a.keys.length) : ((b.moveKey q k).values place a)[k]? = some (a.get q) := by
  have hlength : (a.keys.erase q).length = a.keys.length - 1 := List.length_erase_of_mem hq
  have horder : (b.moveKey q k).keys place a = (a.keys.erase q).insertIdx k q :=
    if_pos ⟨hq, hk⟩
  rw [values, horder, List.getElem?_map, List.getElem?_insertIdx_self, if_pos (by omega)]
  rfl

/-- A slice of the values is the same in every order just when there is only one value, or the
slice has none. -/
theorem forall_head_drop_values_iff {place k : ℕ} {n : Option ℕ} {a : AssocArray}
    {vs : List String} (hperm : ∀ b : Bash, (b.values place a).Perm vs) (hk : k ≤ vs.length) :
    (∀ b' : Bash, b'.toCollation = b.toCollation →
      head n ((b'.values place a).drop k) = head n (vs.drop k)) ↔
      (∀ x ∈ vs, ∀ y ∈ vs, x = y) ∨ k = vs.length ∨ n = some 0 := by
  constructor
  · intro h
    by_contra hnot
    push Not at hnot
    obtain ⟨⟨x, hx, y, hy, hne⟩, hlast, hsome⟩ := hnot
    have hlt : k < vs.length := lt_of_le_of_ne hk hlast
    have hkeys : k < a.keys.length := by
      have hlength := (hperm b).length_eq
      rw [values, List.length_map, keys, (b.order_perm place a.keys).length_eq] at hlength
      omega
    -- whatever value is wanted, some order has it first
    have hfirst (z : String) (hz : z ∈ vs) : vs[k]? = some z := by
      obtain ⟨q, hq, hzq⟩ := List.mem_map.mp ((hperm b).mem_iff.mpr hz)
      have hget := b.values_moveKey place (b.mem_keys.mp hq) hkeys
      have hslice := congrArg List.head? (h (b.moveKey q k) rfl)
      have hhead (ws : List String) : (head n (ws.drop k)).head? = ws[k]? := by
        cases n with
        | none => rw [head, Option.elim_none, List.head?_drop]
        | some n =>
          have hn : n ≠ 0 := fun hn => hsome (congrArg some hn)
          rw [head, Option.elim_some, List.head?_take, if_neg hn, List.head?_drop]
      rw [hhead, hhead, hget, hzq] at hslice
      exact hslice.symm
    exact hne (Option.some.inj ((hfirst x hx).symm.trans (hfirst y hy)))
  · rintro (heq | rfl | rfl) b' -
    · have hsame : b'.values place a = vs := by
        apply List.ext_getElem (hperm b').length_eq
        intro i hi hi'
        exact heq _ ((hperm b').mem_iff.mp (List.getElem_mem hi)) _ (List.getElem_mem hi')
      rw [hsame]
    · rw [List.drop_length, List.drop_eq_nil_of_le (hperm b').length_eq.le]
    · rfl

end Bash

end Shell
