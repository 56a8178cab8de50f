import PocketLisp.Scope.Basic

/-!
A store of scopes that share their surroundings. Each scope has a frame and possibly a parent that
was made before it, so every walk outward ends.
-/
namespace PocketLisp

structure Scope where
  frame : Frame
  parent : Option Nat

/-- Scopes in the order in which they were made. -/
structure Store where
  scopes : List Scope
  parent_lt : ∀ i p, (scopes[i]?.bind Scope.parent) = some p → p < i

namespace Store

def empty : Store := ⟨[], by simp⟩

def size (s : Store) : Nat := s.scopes.length

/-- The indices from a scope outward to its root. -/
def chain (s : Store) (i : Nat) : List Nat :=
  match h : s.scopes[i]? with
  | none => []
  | some scope =>
    match hp : scope.parent with
    | none => [i]
    | some p =>
      have : p < i := s.parent_lt i p (by simp [h, hp])
      i :: s.chain p
termination_by i

/-- Add a scope; a parent that is not in the store counts as none. -/
def new (s : Store) (parent : Option Nat) : Store where
  scopes := s.scopes ++ [⟨.empty, parent.filter (· < s.size)⟩]
  parent_lt := by
    intro i p h
    rcases Nat.lt_trichotomy i s.size with hi | hi | hi
    · exact s.parent_lt i p (by simpa [List.getElem?_append_left hi] using h)
    · subst hi
      have hp : parent.filter (· < s.size) = some p := by simpa [size] using h
      simpa using (Option.filter_eq_some_iff.mp hp).2
    · rw [List.getElem?_eq_none (by simp [size] at hi ⊢; omega)] at h
      simp at h

def modify (s : Store) (i : Nat) (f : Frame → Frame) : Store where
  scopes := s.scopes.modify i fun scope => { scope with frame := f scope.frame }
  parent_lt := by
    intro j p h
    refine s.parent_lt j p ?_
    rw [List.getElem?_modify] at h
    split at h <;> cases hj : s.scopes[j]? <;> simp_all

def setVariable (s : Store) (i : Nat) (name : String) (v : Value) : Store :=
  s.modify i (·.setVariable name v)

def setFunction (s : Store) (i : Nat) (name : String) (g : Function) : Store :=
  s.modify i (·.setFunction name g)

def frame? (s : Store) (i : Nat) : Option Frame := s.scopes[i]?.map Scope.frame

/-- The environment that a scope is: its frame and those of its ancestors. -/
def env (s : Store) (i : Nat) : Env :=
  match (s.chain i).filterMap s.frame? with
  | [] => .empty
  | f :: fs => ⟨f, fs⟩

/-- Put the frames of an environment back into the scopes it was made of. -/
def putEnv (s : Store) (i : Nat) (e : Env) : Store :=
  ((s.chain i).zip e.frames).foldl (fun s p => s.modify p.1 fun _ => p.2) s

def variableScope? (s : Store) (i : Nat) (name : String) : Option Nat :=
  (s.chain i).find? fun j => ((s.frame? j).bind fun f => Bindings.get? name f.values).isSome

def functionScope? (s : Store) (i : Nat) (name : String) : Option Nat :=
  (s.chain i).find? fun j => ((s.frame? j).bind fun f => Bindings.get? name f.functions).isSome

def getValue (s : Store) (i : Nat) (name : String) : Except Fault Value := (s.env i).getValue name

def getFunction (s : Store) (i : Nat) (name : String) : Except Fault Function := (s.env i).getFunction name

def hasVariable (s : Store) (i : Nat) (name : String) : Bool := (s.variableScope? i name).isSome

def hasFunction (s : Store) (i : Nat) (name : String) : Bool := (s.functionScope? i name).isSome

def root (s : Store) (i : Nat) : Nat := (s.chain i).getLast?.getD i

end Store

end PocketLisp
