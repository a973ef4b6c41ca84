import Mathlib.Data.List.Forall2

/-! Computations that end with a value or with an error, and loops of them. -/
namespace Effects

universe u

variable {ε : Type*} {e : ε}

section Steps

variable {α β : Type u} {x : Except ε α}

theorem bind_eq_ok {f : α → Except ε β} {b : β} :
    x >>= f = .ok b ↔ ∃ a, x = .ok a ∧ f a = .ok b := by
  cases x with
  | error e => exact iff_of_false nofun fun ⟨_, h, _⟩ => nomatch h
  | ok a =>
    constructor
    · exact fun h => ⟨a, rfl, h⟩
    · rintro ⟨b, hb, h⟩
      cases hb
      exact h

theorem map_eq_ok {f : α → β} {b : β} : x.map f = .ok b ↔ ∃ a, x = .ok a ∧ f a = b := by
  cases x with
  | error e => exact iff_of_false nofun fun ⟨_, h, _⟩ => nomatch h
  | ok a =>
    constructor
    · exact fun h => ⟨a, rfl, Except.ok.inj h⟩
    · rintro ⟨b, hb, rfl⟩
      cases hb
      rfl

theorem map_eq_error {f : α → β} : x.map f = .error e ↔ x = .error e := by
  cases x with
  | error e' => exact ⟨fun h => congrArg _ (Except.error.inj h), fun h => by cases h; rfl⟩
  | ok a => exact iff_of_false nofun nofun

end Steps

section Loops

variable {α : Type*} {β : Type u} {f : α → Except ε β} {xs : List α} {ys : List β}

theorem mapM_cons_eq_ok {x : α} {zs : List β} : (x :: xs).mapM f = .ok zs ↔
    ∃ y ys, zs = y :: ys ∧ f x = .ok y ∧ xs.mapM f = .ok ys := by
  rw [List.mapM_cons, bind_eq_ok]
  constructor
  · rintro ⟨y, hy, h⟩
    obtain ⟨ys, hys, h⟩ := bind_eq_ok.mp h
    cases h
    exact ⟨y, ys, rfl, hy, hys⟩
  · rintro ⟨y, ys, rfl, hy, hys⟩
    exact ⟨y, hy, bind_eq_ok.mpr ⟨ys, hys, rfl⟩⟩

/-- A loop that collects what its steps give ends with results that stand in a relation to the
items if and only if each step does. -/
theorem exists_mapM_forall₂ {R : α → β → Prop} :
    (∃ ys, xs.mapM f = .ok ys ∧ List.Forall₂ R xs ys) ↔ ∀ x ∈ xs, ∃ y, f x = .ok y ∧ R x y := by
  induction xs with
  | nil => exact iff_of_true ⟨[], rfl, .nil⟩ nofun
  | cons x xs ih =>
    rw [List.forall_mem_cons, ← ih]
    constructor
    · rintro ⟨zs, hzs, hall⟩
      obtain ⟨y, ys, rfl, hy, hys⟩ := mapM_cons_eq_ok.mp hzs
      obtain ⟨hxy, hall⟩ := List.forall₂_cons.mp hall
      exact ⟨⟨y, hy, hxy⟩, ys, hys, hall⟩
    · rintro ⟨⟨y, hy, hxy⟩, ys, hys, hall⟩
      exact ⟨y :: ys, mapM_cons_eq_ok.mpr ⟨y, ys, rfl, hy, hys⟩, .cons hxy hall⟩

theorem mapM_eq_ok : xs.mapM f = .ok ys ↔ List.Forall₂ (fun x y => f x = .ok y) xs ys := by
  induction xs generalizing ys with
  | nil =>
    rw [List.forall₂_nil_left_iff]
    exact ⟨fun h => (Except.ok.inj h).symm, fun h => h ▸ rfl⟩
  | cons x xs ih =>
    rw [mapM_cons_eq_ok, List.forall₂_cons_left_iff]
    constructor
    · rintro ⟨y, ys, rfl, hy, hys⟩
      exact ⟨y, ys, hy, ih.mp hys, rfl⟩
    · rintro ⟨y, ys, hy, hys, rfl⟩
      exact ⟨y, ys, rfl, hy, ih.mpr hys⟩

theorem exists_mapM_ok : (∃ ys, xs.mapM f = .ok ys) ↔ ∀ x ∈ xs, ∃ y, f x = .ok y := by
  have hall : (∃ ys, xs.mapM f = .ok ys ∧ List.Forall₂ (fun x y => f x = .ok y) xs ys) ↔
      ∀ x ∈ xs, ∃ y, f x = .ok y ∧ f x = .ok y := exists_mapM_forall₂
  simpa only [← mapM_eq_ok, and_self] using hall

/-- What each step of a loop gives, all that is collected has. -/
theorem forall_of_mapM {P : β → Prop} (hf : ∀ x y, f x = .ok y → P y) (h : xs.mapM f = .ok ys) :
    ∀ y ∈ ys, P y := by
  rw [mapM_eq_ok] at h
  induction h with
  | nil => exact nofun
  | cons hxy _ ih => exact List.forall_mem_cons.mpr ⟨hf _ _ hxy, ih⟩

theorem mapM_error (h : xs.mapM f = .error e) : ∃ x ∈ xs, f x = .error e := by
  induction xs with
  | nil => cases h
  | cons x xs ih =>
    rw [List.mapM_cons] at h
    cases hx : f x with
    | error e' =>
      rw [hx] at h
      cases h
      exact ⟨x, List.mem_cons_self, hx⟩
    | ok y =>
      cases hxs : xs.mapM f with
      | error e' =>
        rw [hx, hxs] at h
        cases h
        obtain ⟨z, hz, he⟩ := ih hxs
        exact ⟨z, List.mem_cons_of_mem x hz, he⟩
      | ok ys =>
        rw [hx, hxs] at h
        cases h

end Loops

end Effects
