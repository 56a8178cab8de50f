import PocketLisp.Eval.Evaluate
import PocketLisp.Reader.Parse
import PocketLisp.Session.Host

/-!
Interpreters. An interpreter keeps one global frame, so definitions stay from one call to the next.
A text is read as a whole before any of it is evaluated.
-/
namespace PocketLisp

structure Interpreter where
  /-- How deep calls of functions may be nested. -/
  maxDepth : Int
  env : Env

namespace Interpreter

/-- The frame of a new interpreter: `t` and `nil` are bound to themselves. -/
def globals : Env := (Env.empty.setVariable "t" Value.t).setVariable "nil" Value.nil

/-- A new interpreter; without a depth it takes the one that the settings ask for. -/
def new (maxDepth : Option Int) (h : Host) : Interpreter × Host :=
  let (depth, h) :=
    match maxDepth with
    | some n => (n, h)
    | none => h.configuredDepth
  (⟨depth, globals⟩, (h.ensureFrames depth).2)

end Interpreter

structure Session where
  host : Host
  interpreter : Interpreter

namespace Session

def start (vars : List (String × String)) (maxDepth : Option Int) (listener : Listener) : Session :=
  let (interpreter, host) := Interpreter.new maxDepth (.initial vars listener)
  ⟨host, interpreter⟩

def onHost (f : Host → Host) : Run Session Unit := Run.modify fun s => { s with host := f s.host }

/-- Running out of host frames as a fault. -/
def asFault {α : Type} (c : Cause) : Except Failure α → Except Failure α
  | .error (.escape .exhausted) => .error (.because c)
  | r => r

def reading {α : Type} (reader : Nat → String → Except Failure α) (code : String) : Run Session α :=
  fun s => (asFault .readerExhausted (reader s.host.frames code), s)

/-- Evaluate an expression in the global frame. The limit of the interpreter is in force meanwhile,
and the one before it afterwards. -/
def run (e : Value) : Run Session Value := fun s =>
  let (previous, host) := s.host.install (some s.interpreter.maxDepth)
  let (limit, host) := host.limit
  let (result, final) := PocketLisp.evaluate ⟨limit, host.listener⟩ host.frames 0 e ⟨s.interpreter.env, []⟩
  let host := { host with journal := final.log.map Entry.event ++ host.journal }
  let (_, host) := host.install previous
  (asFault .evaluatorExhausted result,
    { host := host, interpreter := { s.interpreter with env := final.env } })

/-- Evaluate the only expression of a text; a blank text has no value. -/
def evaluate (code : String) : Run Session (Option Value) := do
  match ← reading Reader.parse code with
  | none => pure none
  | some e =>
    onHost (·.record (.reading (Text.strip code)))
    let v ← run e
    pure (some v)

def runAll : List Value → Run Session (List Value)
  | [] => pure []
  | e :: es => do
    let v ← run e
    let vs ← runAll es
    pure (v :: vs)

def evaluateAll (code : String) : Run Session (List Value) := do
  let es ← reading Reader.parseAll code
  runAll es

end Session

end PocketLisp
