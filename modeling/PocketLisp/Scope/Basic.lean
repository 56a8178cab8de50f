import PocketLisp.Value.Print

/-!
Scopes. A frame binds names to values and, apart from them, names to functions. An environment is
a frame with the frames around it: lookup goes outward to the nearest frame that binds the name,
and writing changes the innermost frame only.
-/
namespace PocketLisp

/-- Bindings in the order in which the names were first bound. -/
abbrev Bindings (α : Type) := List (String × α)

namespace Bindings

def get? {α : Type} (name : String) : Bindings α → Option α
  | [] => none
  | (k, v) :: rest => if k = name then some v else get? name rest

/-- Bind a name. A name that is bound keeps its place. -/
def insert {α : Type} (name : String) (a : α) : Bindings α → Bindings α
  | [] => [(name, a)]
  | (k, v) :: rest => if k = name then (k, a) :: rest else (k, v) :: insert name a rest

@[simp] theorem get?_insert_self {α : Type} (name : String) (a : α) (b : Bindings α) :
    get? name (insert name a b) = some a := by
  induction b with
  | nil => simp [insert, get?]
  | cons p b ih =>
    by_cases h : p.1 = name <;> simp [insert, get?, h, ih]

theorem get?_insert_of_ne {α : Type} {name other : String} (a : α) (b : Bindings α)
    (h : other ≠ name) : get? other (insert name a b) = get? other b := by
  induction b with
  | nil => simp [insert, get?, h.symm]
  | cons p b ih =>
    by_cases hp : p.1 = name
    · simp [insert, get?, hp, h.symm]
    · simp only [insert, hp, if_false, get?, ih]

end Bindings

/-- A function of the language: parameters and one expression. Parameters are symbols unless the
host has made the function. -/
structure Function where
  params : List Value
  body : Value

namespace Function

def arity (f : Function) : Nat := f.params.length

def describe (room : Nat) (f : Function) : Except Escape String := do
  let params ← f.params.mapM (·.displayWithin room)
  let body ← f.body.renderWithin room
  .ok ("(lambda (" ++ " ".intercalate params ++ ") " ++ body ++ ")")

end Function

structure Frame where
  values : Bindings Value
  functions : Bindings Function

namespace Frame

def empty : Frame := ⟨[], []⟩

def setVariable (name : String) (v : Value) (f : Frame) : Frame :=
  { f with values := Bindings.insert name v f.values }

def setFunction (name : String) (g : Function) (f : Frame) : Frame :=
  { f with functions := Bindings.insert name g f.functions }

/-- Bind parameters to arguments, from left to right. Only symbols can be looked up. -/
def bindParams : List Value → List Value → Frame → Frame
  | .sym name :: params, v :: vs, f => bindParams params vs (f.setVariable name v)
  | _ :: params, _ :: vs, f => bindParams params vs f
  | _, _, f => f

/-- The bindings of a frame as a text: variables, then functions if there are any. -/
def describe (room : Nat) (f : Frame) : Except Escape String := do
  let values ← f.values.mapM fun p => do .ok (p.1 ++ ": " ++ (← p.2.inspectWithin room))
  let functions ← f.functions.mapM fun p => do .ok (p.1 ++ ": " ++ (← p.2.describe room))
  let tail := if functions.isEmpty then "" else "; " ++ ", ".intercalate functions
  .ok ("\x7b" ++ ", ".intercalate values ++ tail ++ "\x7d")

@[simp] theorem functions_setVariable (name : String) (v : Value) (f : Frame) :
    (f.setVariable name v).functions = f.functions := rfl

@[simp] theorem values_setFunction (name : String) (g : Function) (f : Frame) :
    (f.setFunction name g).values = f.values := rfl

end Frame

/-- A chain of frames: the innermost one, and the frames around it from the inside out. -/
structure Env where
  frame : Frame
  outer : List Frame

namespace Env

def empty : Env := ⟨.empty, []⟩

def frames (e : Env) : List Frame := e.frame :: e.outer

def valueOf? (name : String) (e : Env) : Option Value :=
  e.frames.findSome? fun f => Bindings.get? name f.values

def functionOf? (name : String) (e : Env) : Option Function :=
  e.frames.findSome? fun f => Bindings.get? name f.functions

def setVariable (name : String) (v : Value) (e : Env) : Env :=
  { e with frame := e.frame.setVariable name v }

def setFunction (name : String) (g : Function) (e : Env) : Env :=
  { e with frame := e.frame.setFunction name g }

def push (f : Frame) (e : Env) : Env := ⟨f, e.frames⟩

/-- Leave the innermost frame; the outermost one stays. -/
def pop (e : Env) : Env :=
  match e.outer with
  | [] => e
  | f :: fs => ⟨f, fs⟩

@[simp] theorem pop_push (f : Frame) (e : Env) : (e.push f).pop = e := rfl

def getValue (name : String) (e : Env) : Except Fault Value :=
  match e.valueOf? name with
  | some v => .ok v
  | none => .error { cause := .unboundVariable name, form := some (.sym name) }

def getFunction (name : String) (e : Env) : Except Fault Function :=
  match e.functionOf? name with
  | some f => .ok f
  | none => .error { cause := .undefinedFunction name, form := some (.sym name) }

/-- The innermost frame as a text, with a mark if there are frames around it. -/
def describe (room : Nat) (e : Env) : Except Escape String := do
  let s ← e.frame.describe room
  .ok (if e.outer.isEmpty then s else s ++ " -> ...")

def describeChain (room : Nat) (e : Env) : Except Escape String := do
  let frames ← e.frames.mapM (·.describe room)
  .ok ("<Environment chain: " ++ " -> ".intercalate frames ++ ">")

end Env

end PocketLisp
