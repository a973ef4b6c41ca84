import Mathlib.Data.List.Basic

/-! Computations that emit events one after another and may end by raising an error.
The events emitted before an error stay emitted. -/
namespace Effects

universe u

structure Traced (ε ω : Type*) (α : Type u) where
  events : List ω
  result : Except ε α

namespace Traced

variable {ε ω : Type*} {α β : Type u}

def emit (e : ω) : Traced ε ω PUnit.{u + 1} := ⟨[e], .ok ⟨⟩⟩

def raise (e : ε) : Traced ε ω α := ⟨[], .error e⟩

def lift (r : Except ε α) : Traced ε ω α := ⟨[], r⟩

protected def pure (a : α) : Traced ε ω α := ⟨[], .ok a⟩

protected def bind (x : Traced ε ω α) (f : α → Traced ε ω β) : Traced ε ω β :=
  match x.result with
  | .ok a => ⟨x.events ++ (f a).events, (f a).result⟩
  | .error e => ⟨x.events, .error e⟩

instance : Monad (Traced ε ω) where
  pure := Traced.pure
  bind := Traced.bind

/-- `try x except e: handler e`. -/
def handle (x : Traced ε ω α) (handler : ε → Traced ε ω α) : Traced ε ω α :=
  match x.result with
  | .ok _ => x
  | .error e => ⟨x.events ++ (handler e).events, (handler e).result⟩

@[simp] theorem pure_eq (a : α) : (pure a : Traced ε ω α) = ⟨[], .ok a⟩ := rfl

@[simp] theorem emit_bind (e : ω) (f : PUnit → Traced ε ω β) :
    (emit e >>= f : Traced ε ω β) = ⟨e :: (f ⟨⟩).events, (f ⟨⟩).result⟩ := rfl

@[simp] theorem raise_bind (e : ε) (f : α → Traced ε ω β) :
    (raise e >>= f : Traced ε ω β) = raise e := rfl

@[simp] theorem ok_bind (es : List ω) (a : α) (f : α → Traced ε ω β) :
    (⟨es, .ok a⟩ >>= f : Traced ε ω β) = ⟨es ++ (f a).events, (f a).result⟩ := rfl

@[simp] theorem error_bind (es : List ω) (e : ε) (f : α → Traced ε ω β) :
    (⟨es, .error e⟩ >>= f : Traced ε ω β) = ⟨es, .error e⟩ := rfl

@[simp] theorem lift_ok_bind (a : α) (f : α → Traced ε ω β) :
    (lift (.ok a) >>= f : Traced ε ω β) = f a := rfl

@[simp] theorem lift_error_bind (e : ε) (f : α → Traced ε ω β) :
    (lift (.error e) >>= f : Traced ε ω β) = raise e := rfl

@[simp] theorem handle_ok (es : List ω) (a : α) (h : ε → Traced ε ω α) :
    handle ⟨es, .ok a⟩ h = ⟨es, .ok a⟩ := rfl

@[simp] theorem handle_error (es : List ω) (e : ε) (h : ε → Traced ε ω α) :
    handle ⟨es, .error e⟩ h = ⟨es ++ (h e).events, (h e).result⟩ := rfl

@[simp] theorem handle_raise (e : ε) (h : ε → Traced ε ω α) :
    handle (raise e) h = h e := rfl

@[simp] theorem emit_events (e : ω) : (emit e : Traced ε ω PUnit).events = [e] := rfl

@[simp] theorem emit_result (e : ω) : (emit e : Traced ε ω PUnit).result = .ok ⟨⟩ := rfl

@[simp] theorem map_ok (f : α → β) (es : List ω) (a : α) :
    (f <$> ⟨es, .ok a⟩ : Traced ε ω β) = ⟨es, .ok (f a)⟩ := by
  change (⟨es ++ [], .ok (f a)⟩ : Traced ε ω β) = _
  rw [List.append_nil]

@[simp] theorem map_error (f : α → β) (es : List ω) (e : ε) :
    (f <$> ⟨es, .error e⟩ : Traced ε ω β) = ⟨es, .error e⟩ := rfl

@[simp] theorem raise_events (e : ε) : (raise e : Traced ε ω α).events = [] := rfl

@[simp] theorem raise_result (e : ε) : (raise e : Traced ε ω α).result = .error e := rfl

end Traced
end Effects
