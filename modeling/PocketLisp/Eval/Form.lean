import PocketLisp.Eval.Operator
import PocketLisp.Eval.State

/-!
Special forms. They take their operands unevaluated and check their shape before anything else.
The arguments `l`, `room` and `ev` are the listener, the host frames left and the evaluator for
subexpressions.
-/
namespace PocketLisp

inductive SpecialForm where
  | quote
  | setq
  | defun
  | cond
  deriving DecidableEq

namespace SpecialForm

def all : List SpecialForm := [.quote, .setq, .defun, .cond]

def name : SpecialForm → String
  | .quote => "quote"
  | .setq => "setq"
  | .defun => "defun"
  | .cond => "cond"

def ofName? (name : String) : Option SpecialForm := all.find? (·.name == name)

theorem ofName?_name (f : SpecialForm) : ofName? f.name = some f := by
  cases f <;> decide

end SpecialForm

/-- Names with a meaning that cannot be changed. -/
def isReserved (name : String) : Bool :=
  (Operator.ofName? name).isSome || (SpecialForm.ofName? name).isSome

namespace SpecialForm

/-- `(quote v)` is `v` itself. -/
def evalQuote : List Value → Eval Value
  | [v] => pure v
  | operands => Run.failFor (.quoteOperands operands.length)

/-- `(setq x e)` evaluates `e` and binds `x` to it in the innermost frame. -/
def evalSetq (l : Listener) (room : Nat) (ev : Evaluator) (depth : Int) : List Value → Eval Value
  | [.sym name, e] => do
    let v ← ev depth e
    Eval.record l room (.assigned name v)
    Eval.modifyEnv (·.setVariable name v)
    pure v
  | [other, _] => Eval.failShowing room .setqName other
  | _ => Run.failFor .setqOperands

def badParam? (params : List Value) : Option Value := params.find? fun p => !p.isSym

def paramNames (params : List Value) : List String :=
  params.filterMap fun
    | .sym name => some name
    | _ => none

def distinct : List String → Bool
  | [] => true
  | x :: xs => !xs.contains x && distinct xs

/-- `(defun f (p ...) body)` binds the function `f` in the innermost frame. -/
def evalDefun (l : Listener) (room : Nat) : List Value → Eval Value
  | [.sym name, params, body] =>
    if isReserved name then Run.failFor (.defunReserved name)
    else
      match params with
      | .list params =>
        match badParam? params with
        | some p => Eval.failShowing room .defunParameter p
        | none =>
          if distinct (paramNames params) then do
            Eval.record l room (.defined name params)
            Eval.modifyEnv (·.setFunction name ⟨params, body⟩)
            pure (.sym name)
          else Eval.failShowing room (.defunDuplicate name) (.list params)
      | other => Eval.failShowing room .defunParameters other
  | [other, _, _] => Eval.failShowing room .defunName other
  | _ => Run.failFor .defunOperands

/-- The tests and results of clauses, or the first clause that is not a list of two. -/
def clauses : List Value → Except Value (List (Value × Value))
  | [] => .ok []
  | .list [test, result] :: rest => (clauses rest).map ((test, result) :: ·)
  | other :: _ => .error other

/-- The test that always holds and is not evaluated. -/
def isOtherwise : Value → Bool
  | .sym name => name == "t"
  | _ => false

/-- The result of the first clause whose test holds; `nil` if there is none. -/
def firstMatch (ev : Value → Eval Value) : List (Value × Value) → Eval Value
  | [] => pure Value.nil
  | (test, result) :: rest =>
    if isOtherwise test then ev result
    else do
      let v ← ev test
      if v.isTruthy then ev result else firstMatch ev rest

/-- `(cond (test result) ...)` checks all clauses before it evaluates the first test. -/
def evalCond (room : Nat) (ev : Evaluator) (depth : Int) (operands : List Value) : Eval Value :=
  match clauses operands with
  | .ok cs => firstMatch (ev depth) cs
  | .error other => Eval.failShowing room .condClause other

def eval (f : SpecialForm) (l : Listener) (room : Nat) (ev : Evaluator) (depth : Int)
    (operands : List Value) : Eval Value :=
  match f with
  | .quote => evalQuote operands
  | .setq => evalSetq l room ev depth operands
  | .defun => evalDefun l room operands
  | .cond => evalCond room ev depth operands

end SpecialForm

end PocketLisp
