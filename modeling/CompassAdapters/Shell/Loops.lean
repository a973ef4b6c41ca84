import CompassAdapters.Shell.Arrays
import Mathlib.Logic.Function.Iterate

/-! `while` loops with a bound on their rounds, and the loop that takes the elements with
subscript 0 of two indexed arrays as long as both have an element left. -/
namespace Shell

variable {σ : Type*}

/-- `none` when the loop is not done after `fuel` tests of its condition. -/
def whileLoop (cond : σ → Bool) (body : σ → σ) : ℕ → σ → Option σ
  | 0, _ => none
  | fuel + 1, s => if cond s then whileLoop cond body fuel (body s) else some s

theorem whileLoop_done {cond : σ → Bool} (body : σ → σ) (fuel : ℕ) {s : σ}
    (h : cond s = false) : whileLoop cond body (fuel + 1) s = some s := by
  simp [whileLoop, h]

theorem whileLoop_next {cond : σ → Bool} (body : σ → σ) (fuel : ℕ) {s : σ}
    (h : cond s = true) :
    whileLoop cond body (fuel + 1) s = whileLoop cond body fuel (body s) := by
  simp [whileLoop, h]

/-- A loop whose condition stays true does not end. -/
theorem whileLoop_diverges {cond : σ → Bool} {body : σ → σ} (I : σ → Prop)
    (hcond : ∀ s, I s → cond s = true) (hbody : ∀ s, I s → I (body s)) (fuel : ℕ) {s : σ}
    (hs : I s) : whileLoop cond body fuel s = none := by
  induction fuel generalizing s with
  | zero => rfl
  | succ fuel ih =>
    rw [whileLoop_next body fuel (hcond s hs)]
    exact ih (hbody s hs)

/-- A loop that is done stays so with more rounds at hand. -/
theorem whileLoop_add {cond : σ → Bool} {body : σ → σ} {fuel : ℕ} {s t : σ}
    (h : whileLoop cond body fuel s = some t) (more : ℕ) :
    whileLoop cond body (fuel + more) s = some t := by
  induction fuel generalizing s with
  | zero => cases h
  | succ fuel ih =>
    rw [Nat.succ_add_eq_add_succ, Nat.add_succ]
    rw [whileLoop] at h ⊢
    split at h
    next hc =>
      rw [if_pos hc]
      exact ih h
    next hc =>
      rw [if_neg hc]
      exact h

/-- The loop goes through `n` rounds and is done in the state `t`. -/
structure EndsAfter (cond : σ → Bool) (body : σ → σ) (n : ℕ) (s t : σ) : Prop where
  more : ∀ i < n, cond (body^[i] s) = true
  last : body^[n] s = t
  done : cond t = false

/-- The rounds of a loop that ends are the tests of its condition but one. -/
theorem EndsAfter.whileLoop_eq {cond : σ → Bool} {body : σ → σ} {n : ℕ} {s t : σ}
    (h : EndsAfter cond body n s t) : whileLoop cond body (n + 1) s = some t := by
  induction n generalizing s with
  | zero =>
    have hst : s = t := h.last
    subst hst
    exact whileLoop_done body 0 h.done
  | succ n ih =>
    have hfirst : cond s = true := h.more 0 (Nat.succ_pos n)
    rw [whileLoop_next body (n + 1) hfirst]
    apply ih
    refine ⟨fun i hi => ?_, h.last, h.done⟩
    exact h.more (i + 1) (Nat.succ_lt_succ hi)

/-- Two arrays and the variables that the body of the loop works on. The loop is `broken` when a
command of its body was an error that made the shell leave it. -/
structure Pairing (σ : Type*) where
  left : IndexedArray
  right : IndexedArray
  vars : σ
  broken : Bool

namespace Pairing

def ofWords (xs ys : List String) (vars : σ) : Pairing σ :=
  ⟨IndexedArray.ofWords xs, IndexedArray.ofWords ys, vars, false⟩

/-- `[ ${#left[@]} -gt 0 -a ${#right[@]} -gt 0 ]`, unless the loop was left. -/
def more (p : Pairing σ) : Bool :=
  !p.broken && decide (0 < p.left.count ∧ 0 < p.right.count)

/-- Both elements with subscript 0 are unset and handed to `assign`. -/
def take (assign : String → String → σ → Except σ σ) (p : Pairing σ) : Pairing σ :=
  match assign (p.left.elem 0) (p.right.elem 0) p.vars with
  | .ok vars => ⟨p.left.unset 0, p.right.unset 0, vars, p.broken⟩
  | .error vars => ⟨p.left.unset 0, p.right.unset 0, vars, true⟩

def loop (assign : String → String → σ → Except σ σ) (fuel : ℕ) (p : Pairing σ) :
    Option (Pairing σ) :=
  whileLoop more (take assign) fuel p

/-- `assign` does what `f` does for the elements of the arrays. -/
def Does (assign : String → String → σ → Except σ σ) (f : String → String → σ → σ)
    (xs ys : List String) : Prop :=
  ∀ x ∈ xs, ∀ y ∈ ys, ∀ vars, assign x y vars = .ok (f x y vars)

/-- What the loop comes to when it ends. -/
def result (f : String → String → σ → σ) (xs ys : List String) (vars : σ) : Pairing σ :=
  match xs, ys with
  | x :: xs, y :: ys =>
    ⟨none :: xs.map some, none :: ys.map some, f x y vars, !xs.isEmpty && !ys.isEmpty⟩
  | xs, ys => ofWords xs ys vars

theorem values_none_map_some (xs : List String) :
    IndexedArray.values (none :: xs.map some) = xs := by
  simp [IndexedArray.values, List.reduceOption]

theorem count_none_map_some (xs : List String) :
    IndexedArray.count (none :: xs.map some) = xs.length := by
  rw [IndexedArray.count, values_none_map_some]

variable {assign : String → String → σ → Except σ σ} {f : String → String → σ → σ}
  {xs ys : List String} {vars : σ}

theorem more_ofWords : more (ofWords xs ys vars) = decide (0 < xs.length ∧ 0 < ys.length) := by
  simp [more, ofWords, IndexedArray.count]

/-- The first round, in which both arrays have their element with subscript 0. -/
theorem take_ofWords {x y : String} (h : Does assign f (x :: xs) (y :: ys)) :
    take assign (ofWords (x :: xs) (y :: ys) vars) =
      ⟨none :: xs.map some, none :: ys.map some, f x y vars, false⟩ := by
  have hassign := h x List.mem_cons_self y List.mem_cons_self vars
  simp [take, ofWords, IndexedArray.ofWords, IndexedArray.elem, IndexedArray.unset, hassign]

theorem more_none (xs ys : List String) (vars : σ) :
    more ⟨none :: xs.map some, none :: ys.map some, vars, false⟩ =
      (!xs.isEmpty && !ys.isEmpty) := by
  simp only [more, count_none_map_some]
  cases xs <;> cases ys <;> simp

theorem loop_ends (hdoes : Does assign f xs ys) (h : ¬ (2 ≤ xs.length ∧ 2 ≤ ys.length))
    (fuel : ℕ) : loop assign (fuel + 2) (ofWords xs ys vars) = some (result f xs ys vars) := by
  rcases xs with - | ⟨x, xs⟩
  · exact whileLoop_done _ _ (by simp [more_ofWords])
  rcases ys with - | ⟨y, ys⟩
  · exact whileLoop_done _ _ (by simp [more_ofWords])
  -- one of the arrays had a single element, the one with subscript 0
  have hdone : (!xs.isEmpty && !ys.isEmpty) = false := by
    cases xs with
    | nil => rfl
    | cons x' xs =>
      cases ys with
      | nil => rfl
      | cons y' ys => exact absurd ⟨by simp, by simp⟩ h
  rw [loop, whileLoop_next _ _ (by simp [more_ofWords]), take_ofWords hdoes,
    whileLoop_done _ _ (by rw [more_none, hdone]), result, hdone]

/-- A loop that is left when its elements are gone ends after the first round or two. -/
theorem loop_breaks (hdoes : Does assign f xs ys) (hbad : ∀ vars, assign "" "" vars = .error vars)
    (fuel : ℕ) : loop assign (fuel + 3) (ofWords xs ys vars) = some (result f xs ys vars) := by
  by_cases h : 2 ≤ xs.length ∧ 2 ≤ ys.length
  · rcases xs with - | ⟨x, - | ⟨x', xs⟩⟩
    · exact absurd h.1 (by simp)
    · exact absurd h.1 (by simp)
    rcases ys with - | ⟨y, - | ⟨y', ys⟩⟩
    · exact absurd h.2 (by simp)
    · exact absurd h.2 (by simp)
    rw [loop, whileLoop_next _ _ (by simp [more_ofWords]), take_ofWords hdoes,
      whileLoop_next _ _ (by rw [more_none]; rfl)]
    simp [take, IndexedArray.elem, IndexedArray.unset, hbad, whileLoop, more, result]
  · exact loop_ends hdoes h (fuel + 1)

/-- The body ran for the first pair of a `zip`. -/
theorem result_vars (f : String → String → σ → σ) (vars : σ) :
    (result f xs ys vars).vars = ((xs.zip ys).take 1).foldl (fun v x => f x.1 x.2 v) vars := by
  cases xs <;> cases ys <;> rfl

/-- The body ran for the pairs of a `zip`. -/
theorem result_spec (f : String → String → σ → σ) (vars : σ)
    (h : ¬ (2 ≤ xs.length ∧ 2 ≤ ys.length)) :
    (result f xs ys vars).vars = (xs.zip ys).foldl (fun v x => f x.1 x.2 v) vars ∧
    (result f xs ys vars).left.values = xs.drop ys.length ∧
    (result f xs ys vars).right.values = ys.drop xs.length := by
  rcases xs with - | ⟨x, - | ⟨x', xs⟩⟩
  · simp [result, ofWords]
  · cases ys with
    | nil => simp [result, ofWords]
    | cons y ys => simp [result, IndexedArray.values, List.reduceOption]
  · rcases ys with - | ⟨y, - | ⟨y', ys⟩⟩
    · simp [result, ofWords]
    · simp [result, IndexedArray.values, List.reduceOption]
    · exact absurd ⟨by simp, by simp⟩ h

/-- Subscript 0 stays unset while others remain, so that two elements on each side are enough
for a loop that is never left to go round for ever. -/
theorem loop_diverges (hassign : ∀ x y vars, assign x y vars = .ok (f x y vars))
    (h : 2 ≤ xs.length ∧ 2 ≤ ys.length) (fuel : ℕ) :
    loop assign fuel (ofWords xs ys vars) = none := by
  rcases xs with - | ⟨x, - | ⟨x', xs⟩⟩
  · exact absurd h.1 (by simp)
  · exact absurd h.1 (by simp)
  rcases ys with - | ⟨y, - | ⟨y', ys⟩⟩
  · exact absurd h.2 (by simp)
  · exact absurd h.2 (by simp)
  have htail (a : Option String) (z : String) (zs : List String) :
      0 < IndexedArray.count (a :: some z :: zs.map some) := by
    cases a <;> simp [IndexedArray.count, IndexedArray.values, List.reduceOption]
  apply whileLoop_diverges fun p => ∃ a b, p.left = a :: some x' :: xs.map some ∧
    p.right = b :: some y' :: ys.map some ∧ p.broken = false
  · rintro p ⟨a, b, hl, hr, hb⟩
    simp [more, hl, hr, hb, htail]
  · rintro p ⟨a, b, hl, hr, hb⟩
    exact ⟨none, none, by simp [take, hassign, hl, IndexedArray.unset],
      by simp [take, hassign, hr, IndexedArray.unset], by simp [take, hassign, hb]⟩
  · exact ⟨some x, some y, rfl, rfl, rfl⟩

/-- The only outcome of a loop, given one. -/
theorem loop_eq_some {fuel fuel' : ℕ} {s p q : Pairing σ} (h : loop assign fuel s = some p)
    (h' : loop assign fuel' s = some q) : p = q := by
  have hp := whileLoop_add h fuel'
  have hq := whileLoop_add h' fuel
  rw [Nat.add_comm] at hq
  exact Option.some.inj (hp.symm.trans hq)

/-- The loop goes through as many rounds as the shorter list has elements, is not left before its
end, and has then done what `wanted` does for the elements with the same place, and nothing
else. -/
def InOrder (assign : String → String → σ → Except σ σ) (wanted : String → String → σ → σ)
    (xs ys : List String) : Prop :=
  ∀ vars, ∃ p, EndsAfter more (take assign) (min xs.length ys.length) (ofWords xs ys vars) p ∧
    p.broken = false ∧ p.vars = (xs.zip ys).foldl (fun v x => wanted x.1 x.2 v) vars

theorem result_endsAfter (hdoes : Does assign f xs ys) (vars : σ)
    (h : ¬ (2 ≤ xs.length ∧ 2 ≤ ys.length)) :
    EndsAfter more (take assign) (min xs.length ys.length) (ofWords xs ys vars)
      (result f xs ys vars) := by
  have hdone : more (result f xs ys vars) = false := by
    obtain ⟨-, hl, hr⟩ := result_spec f vars h
    rw [more, Bool.and_eq_false_iff, decide_eq_false_iff_not, IndexedArray.count,
      IndexedArray.count, hl, hr, List.length_drop, List.length_drop]
    exact Or.inr (by omega)
  rcases xs with - | ⟨x, xs⟩
  · exact ⟨fun i hi => absurd hi (by simp), by simp [result], hdone⟩
  rcases ys with - | ⟨y, ys⟩
  · exact ⟨fun i hi => absurd hi (by simp), by simp [result], hdone⟩
  have hone : min (x :: xs).length (y :: ys).length = 1 := by
    simp only [List.length_cons] at h ⊢
    omega
  have hbroken : (!xs.isEmpty && !ys.isEmpty) = false := by
    simp only [List.length_cons] at h
    cases xs <;> cases ys <;> simp at h ⊢
  rw [hone]
  refine ⟨fun i hi => ?_, ?_, hdone⟩
  · rw [Nat.lt_one_iff.mp hi]
    simp [more_ofWords]
  · rw [Function.iterate_one, take_ofWords hdoes, result, hbroken]

theorem take_left (p : Pairing σ) : (take assign p).left = p.left.unset 0 := by
  unfold take
  split <;> rfl

theorem take_right (p : Pairing σ) : (take assign p).right = p.right.unset 0 := by
  unfold take
  split <;> rfl

/-- However often the body runs, only the elements with subscript 0 are ever unset. -/
theorem count_iterate_take (assign : String → String → σ → Except σ σ) (vars : σ) (x : String)
    (xs : List String) (y : String) (ys : List String) (n : ℕ) :
    xs.length ≤ ((take assign)^[n] (ofWords (x :: xs) (y :: ys) vars)).left.count ∧
    ys.length ≤ ((take assign)^[n] (ofWords (x :: xs) (y :: ys) vars)).right.count := by
  have hinv : ∃ a b, ((take assign)^[n] (ofWords (x :: xs) (y :: ys) vars)).left =
      a :: xs.map some ∧
      ((take assign)^[n] (ofWords (x :: xs) (y :: ys) vars)).right = b :: ys.map some := by
    induction n with
    | zero => exact ⟨some x, some y, rfl, rfl⟩
    | succ n ih =>
      obtain ⟨a, b, hl, hr⟩ := ih
      rw [Function.iterate_succ_apply', take_left, take_right, hl, hr]
      exact ⟨none, none, rfl, rfl⟩
  have hcount (a : Option String) (zs : List String) :
      zs.length ≤ IndexedArray.count (a :: zs.map some) := by
    cases a <;> simp [IndexedArray.count, IndexedArray.values, List.reduceOption]
  obtain ⟨a, b, hl, hr⟩ := hinv
  rw [hl, hr]
  exact ⟨hcount a xs, hcount b ys⟩

/-- The loop does for the pairs what it does in its body, unless both lists have two elements. -/
theorem inOrder_iff [Nonempty σ] (hdoes : Does assign f xs ys)
    (wanted : String → String → σ → σ) :
    InOrder assign wanted xs ys ↔ ¬ (2 ≤ xs.length ∧ 2 ≤ ys.length) ∧ ∀ vars,
      (xs.zip ys).foldl (fun v x => f x.1 x.2 v) vars =
        (xs.zip ys).foldl (fun v x => wanted x.1 x.2 v) vars := by
  constructor
  · intro h
    have hends : ¬ (2 ≤ xs.length ∧ 2 ≤ ys.length) := by
      obtain ⟨vars⟩ := ‹Nonempty σ›
      obtain ⟨p, ⟨-, rfl, hdone⟩, hbroken, -⟩ := h vars
      rintro ⟨hx, hy⟩
      obtain ⟨x, xs, rfl⟩ := List.exists_cons_of_length_pos (by omega : 0 < xs.length)
      obtain ⟨y, ys, rfl⟩ := List.exists_cons_of_length_pos (by omega : 0 < ys.length)
      simp only [List.length_cons] at hx hy
      obtain ⟨hl, hr⟩ := count_iterate_take assign vars x xs y ys
        (min (x :: xs).length (y :: ys).length)
      rw [more, hbroken, Bool.not_false, Bool.true_and, decide_eq_false_iff_not] at hdone
      omega
    refine ⟨hends, fun vars => ?_⟩
    obtain ⟨p, hp, -, hvars⟩ := h vars
    have hloop : loop assign _ (ofWords xs ys vars) = some p := hp.whileLoop_eq
    obtain rfl := loop_eq_some hloop (result_endsAfter hdoes vars hends).whileLoop_eq
    rw [← hvars, (result_spec f vars hends).1]
  · rintro ⟨hends, hsame⟩ vars
    refine ⟨_, result_endsAfter hdoes vars hends, ?_, ?_⟩
    · rcases xs with - | ⟨x, xs⟩
      · rfl
      rcases ys with - | ⟨y, ys⟩
      · rfl
      simp only [List.length_cons] at hends
      cases xs <;> cases ys <;> simp [result] at hends ⊢
    · rw [(result_spec f vars hends).1, hsame]

end Pairing

end Shell
