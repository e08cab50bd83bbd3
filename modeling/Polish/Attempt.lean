import Polish.Operator
import Polish.ParseError
import Polish.Scan

/-!
Attempts to read something from a scan. An attempt ends well or with a fault, and either way tells
which operators it took up on the way.
-/

namespace Polish

/-- An operator was recognised, and its operands are read next. -/
structure Dispatch where
  operator : Operator
  /-- How many bytes had been read, the operator's symbol the last of them. -/
  offset : Nat
  deriving DecidableEq

/-- A cause of failure, and how many characters had been read. -/
structure Fault where
  cause : ParseError.Cause
  position : Nat
  deriving DecidableEq

structure Attempt (α : Type) where
  dispatches : List Dispatch
  outcome : Except Fault α

namespace Attempt

variable {α β : Type}

/-- Succeeds without reading. -/
protected def pure (a : α) : Attempt α := ⟨[], .ok a⟩

/-- One attempt after another: the second is made only if the first succeeds, and its operators come
behind the first's. -/
protected def bind (x : Attempt α) (f : α → Attempt β) : Attempt β :=
  match x.outcome with
  | .ok a => ⟨x.dispatches ++ (f a).dispatches, (f a).outcome⟩
  | .error fault => ⟨x.dispatches, .error fault⟩

instance : Monad Attempt where
  pure := Attempt.pure
  bind := Attempt.bind

/-- Fails where a scan has got to. -/
def fail (cause : ParseError.Cause) (s : Scan) : Attempt α := ⟨[], .error ⟨cause, s.column⟩⟩

/-- Tells that an operator was recognised where a scan has got to. -/
def dispatch (o : Operator) (s : Scan) : Attempt Unit := ⟨[⟨o, s.offset⟩], .ok ()⟩

@[simp] theorem pure_eq (a : α) : (pure a : Attempt α) = ⟨[], .ok a⟩ := rfl

@[simp] theorem ok_bind (ds : List Dispatch) (a : α) (f : α → Attempt β) :
    (⟨ds, .ok a⟩ : Attempt α) >>= f = ⟨ds ++ (f a).dispatches, (f a).outcome⟩ := rfl

@[simp] theorem error_bind (ds : List Dispatch) (fault : Fault) (f : α → Attempt β) :
    (⟨ds, .error fault⟩ : Attempt α) >>= f = ⟨ds, .error fault⟩ := rfl

protected theorem bind_pure (x : Attempt α) : x >>= pure = x := by
  rcases x with ⟨ds, fault | a⟩
  · rfl
  · rw [ok_bind, pure_eq, List.append_nil]

protected theorem bind_assoc {γ : Type} (x : Attempt α) (f : α → Attempt β) (g : β → Attempt γ) :
    x >>= f >>= g = x >>= fun a => f a >>= g := by
  rcases x with ⟨ds, fault | a⟩
  · rfl
  · rcases hf : f a with ⟨es, fault | b⟩
    · simp only [ok_bind, error_bind, hf]
    · simp only [ok_bind, hf, List.append_assoc]

instance : LawfulMonad Attempt := LawfulMonad.mk' Attempt Attempt.bind_pure (fun _ _ => rfl)
  Attempt.bind_assoc

/-- What is done after an attempt matters only for what the attempt can end with. -/
theorem bind_congr_of_ok {x : Attempt α} {f g : α → Attempt β}
    (h : ∀ a, x.outcome = .ok a → f a = g a) : x >>= f = x >>= g := by
  rcases x with ⟨ds, fault | a⟩
  · rfl
  · rw [ok_bind, ok_bind, h a rfl]

end Attempt

end Polish
