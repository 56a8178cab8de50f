import PocketLisp.Error.Basic

/-! Computations that change a state and may fail. What is done before a failure stays done. -/
namespace PocketLisp

/-- From a state to an outcome and the state it leaves. -/
def Run (σ α : Type) : Type := σ → Except Failure α × σ

namespace Run

variable {σ α β : Type}

@[inline] protected def pure (a : α) : Run σ α := fun s => (.ok a, s)

@[inline] protected def bind (x : Run σ α) (f : α → Run σ β) : Run σ β := fun s =>
  match x s with
  | (.ok a, s) => f a s
  | (.error e, s) => (.error e, s)

instance : Monad (Run σ) where
  pure := Run.pure
  bind := Run.bind

@[inline] def fail (e : Failure) : Run σ α := fun s => (.error e, s)

@[inline] def failFor (c : Cause) : Run σ α := fail (.because c)

@[inline] def get : Run σ σ := fun s => (.ok s, s)

@[inline] def modify (f : σ → σ) : Run σ Unit := fun s => (.ok (), f s)

@[inline] def ofExcept : Except Failure α → Run σ α
  | .ok a => Run.pure a
  | .error e => fail e

/-- A computation that only the surroundings can stop. -/
@[inline] def ofEscape : Except Escape α → Run σ α
  | .ok a => Run.pure a
  | .error e => fail (.escape e)

@[simp] theorem pure_apply (a : α) (s : σ) : (pure a : Run σ α) s = (.ok a, s) := rfl

theorem bind_ok {x : Run σ α} {f : α → Run σ β} {s s' : σ} {a : α} (h : x s = (.ok a, s')) :
    (x >>= f) s = f a s' := by
  show Run.bind x f s = _
  simp [Run.bind, h]

theorem bind_error {x : Run σ α} {f : α → Run σ β} {s s' : σ} {e : Failure}
    (h : x s = (.error e, s')) : (x >>= f) s = (.error e, s') := by
  show Run.bind x f s = _
  simp [Run.bind, h]

end Run

end PocketLisp
