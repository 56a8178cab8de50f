import PocketLisp.Eval.Form

/-!
The evaluator. Numbers and the empty list are their own values; a symbol is the value bound to it
nearest, or itself; any other list is a special form, an operator or a call, by its head.

A call evaluates the body of the function in a fresh frame inside the caller's, so scoping is
dynamic. Calls are nested at most as deep as the conditions say. Every evaluation takes a host
frame, and so does every special form and every call; `room` is the number of frames left, and when
there is none the evaluation stops.
-/
namespace PocketLisp

/-- The name a form is dispatched on: a symbol, or the text of any other head. -/
def operatorName (room : Nat) : Value → Except Escape String
  | .sym name => .ok name
  | head => head.renderWithin room

/-- Call a function. It is looked up before the arguments are evaluated; then their number and the
depth of the call are checked, and that no parameter is a list. -/
def call (c : Conditions) (room : Nat) (ev : Evaluator) (depth : Int) (name : String)
    (operands : List Value) : Eval Value := do
  let env ← Eval.env
  let f ← Run.ofExcept ((env.getFunction name).mapError .fault)
  let args ← Eval.sequence (ev depth) operands
  if args.length ≠ f.arity then
    Run.failFor (.arity ("function " ++ name) (.exactly f.arity) args.length)
  else if c.limit ≤ depth then Run.failFor (.callDepth c.limit name)
  else if f.params.any Value.isList then Run.fail (.escape .listAsName)
  else do
    Eval.record c.listener room (.called name args (depth + 1))
    Eval.inFrame (Frame.bindParams f.params args .empty) (ev (depth + 1) f.body)

/-- Evaluate a list with a head. Operands of operators are evaluated by `direct`, those of special
forms and calls by `nested`, one host frame further. -/
def evalForm (c : Conditions) (room : Nat) (direct nested : Evaluator) (depth : Int) (name : String)
    (operands : List Value) : Eval Value :=
  match SpecialForm.ofName? name with
  | some f => f.eval c.listener room nested depth operands
  | none =>
    match Operator.ofName? name with
    | some op => do
      let args ← Eval.sequence (direct depth) operands
      Run.ofExcept (op.apply room args)
    | none => call c room nested depth name operands

def evalStep (c : Conditions) (room : Nat) (direct nested : Evaluator) : Evaluator
  | _, .num n => pure (.num n)
  | _, .sym name => do
    let env ← Eval.env
    pure ((env.valueOf? name).getD (.sym name))
  | _, .list [] => pure (.list [])
  | depth, .list (head :: operands) => do
    let name ← Run.ofEscape (operatorName room head)
    Eval.blaming (.list (head :: operands)) (evalForm c room direct nested depth name operands)
  | _, .foreign x => Run.failFor (.cannotEvaluate x.inspect)

/-- Evaluate an expression with so many host frames left. -/
def evaluate (c : Conditions) : (room : Nat) → Evaluator
  | 0 => fun _ _ => Run.fail (.escape .exhausted)
  | 1 => evalStep c 0 (fun _ _ => Run.fail (.escape .exhausted))
      (fun _ _ => Run.fail (.escape .exhausted))
  | room + 2 => evalStep c (room + 1) (evaluate c (room + 1)) (evaluate c room)

end PocketLisp
