import PocketLisp.Eval.Run
import PocketLisp.Event
import PocketLisp.Scope.Basic

/-! The state of an evaluation: the environment, and the events so far, the last one first. -/
namespace PocketLisp

structure EvalState where
  env : Env
  log : List Event

abbrev Eval (α : Type) := Run EvalState α

/-- What an evaluation goes by: how deep calls may be nested, and who listens.

A limit, and the depth of any call under it, is taken to have at most `digitLimit` digits, as every
limit has that is read from a setting. So it can be written, and a fault that states the limit or a
record that states the depth never lacks words because of it. -/
structure Conditions where
  limit : Int
  listener : Listener

/-- A way to evaluate an expression at a call depth. -/
abbrev Evaluator := Int → Value → Eval Value

namespace Eval

def env : Eval Env := fun s => (.ok s.env, s)

def modifyEnv (f : Env → Env) : Eval Unit := Run.modify fun s => { s with env := f s.env }

/-- Report an event; what cannot be reported does not go on. -/
def record (l : Listener) (room : Nat) (e : Event) : Eval Unit := do
  Run.ofEscape (l.hear room e)
  Run.modify fun s => { s with log := e :: s.log }

/-- Evaluate in a frame of its own and leave the frame at the end, also after a failure. -/
def inFrame {α : Type} (f : Frame) (x : Eval α) : Eval α := fun s =>
  let r := x { s with env := s.env.push f }
  (r.1, { r.2 with env := r.2.env.pop })

/-- A fault that blames no form yet blames this one. -/
def blaming {α : Type} (form : Value) (x : Eval α) : Eval α := fun s =>
  match x s with
  | (.error (.fault f), s) => (.error (.fault (f.blame form)), s)
  | r => r

def sequence (ev : Value → Eval Value) : List Value → Eval (List Value)
  | [] => pure []
  | e :: es => do
    let v ← ev e
    let vs ← sequence ev es
    pure (v :: vs)

/-- Fail because of a value, shown in the fault. -/
def failShowing {α : Type} (room : Nat) (cause : String → Cause) (v : Value) : Eval α := do
  let shown ← Run.ofEscape (v.renderWithin room)
  Run.failFor (cause shown)

end Eval

end PocketLisp
