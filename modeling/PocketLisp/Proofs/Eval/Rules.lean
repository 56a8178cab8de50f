import PocketLisp.Proofs.Eval.Request

/-!
The rules of evaluation, as a relation between the host frames left, what there is to do, the state
before, and the outcome with the state after. There is one rule for each way in which the evaluator
can go on or stop, so that what holds of every run is shown by induction on the rules. The relation
is the graph of the evaluator.
-/
namespace PocketLisp

/-- A fault that blames no form yet blames this one. -/
def blamed (form : Value) : Except Failure Value → Except Failure Value
  | .error (.fault f) => .error (.fault (f.blame form))
  | r => r

theorem blaming_apply (form : Value) (x : Eval Value) (s : EvalState) :
    Eval.blaming form x s = (blamed form (x s).1, (x s).2) := by
  unfold Eval.blaming blamed
  rcases x s with ⟨_ | _, s'⟩
  · rename_i f
    cases f <;> rfl
  · rfl

section Call

variable (c : Conditions) (room : Nat) (ev : Evaluator) (depth : Int) (name : String)

/-- What is left of a call once the function and the arguments are there. -/
def callWith (f : Function) (args : List Value) : Eval Value :=
  if args.length ≠ f.arity then
    Run.failFor (.arity ("function " ++ name) (.exactly f.arity) args.length)
  else if c.limit ≤ depth then Run.failFor (.callDepth c.limit name)
  else if f.params.any Value.isList then Run.fail (.escape .listAsName)
  else do
    Eval.record c.listener room (.called name args (depth + 1))
    Eval.inFrame (Frame.bindParams f.params args .empty) (ev (depth + 1) f.body)

variable {c room ev depth name} {s : EvalState} {operands : List Value}

theorem call_undefined {x : Fault} (h : s.env.getFunction name = .error x) :
    call c room ev depth name operands s = (.error (.fault x), s) := by
  unfold call
  rw [Run.bind_ok (show Eval.env s = (.ok s.env, s) from rfl), h]
  rfl

theorem call_defined {f : Function} (h : s.env.getFunction name = .ok f) :
    call c room ev depth name operands s =
      (Eval.sequence (ev depth) operands >>= callWith c room ev depth name f) s := by
  unfold call
  rw [Run.bind_ok (show Eval.env s = (.ok s.env, s) from rfl), h]
  rfl

variable {f : Function} {args : List Value}

theorem callWith_arity (h : args.length ≠ f.arity) :
    callWith c room ev depth name f args s =
      (.error (.because (.arity ("function " ++ name) (.exactly f.arity) args.length)), s) := by
  unfold callWith
  rw [if_pos h]
  rfl

theorem callWith_tooDeep (hlen : args.length = f.arity) (hdepth : c.limit ≤ depth) :
    callWith c room ev depth name f args s =
      (.error (.because (.callDepth c.limit name)), s) := by
  unfold callWith
  rw [if_neg (not_not_intro hlen), if_pos hdepth]
  rfl

theorem callWith_unbindable (hlen : args.length = f.arity) (hdepth : depth < c.limit)
    (hparams : f.params.any Value.isList = true) :
    callWith c room ev depth name f args s = (.error (.escape .listAsName), s) := by
  unfold callWith
  rw [if_neg (not_not_intro hlen), if_neg (by omega), if_pos hparams]
  rfl

theorem callWith_unheard {x : Escape} (hlen : args.length = f.arity) (hdepth : depth < c.limit)
    (hparams : f.params.any Value.isList = false)
    (hhear : c.listener.hear room (.called name args (depth + 1)) = .error x) :
    callWith c room ev depth name f args s = (.error (.escape x), s) := by
  unfold callWith
  rw [if_neg (not_not_intro hlen), if_neg (by omega), if_neg (by simp [hparams])]
  exact Run.bind_error (record_error hhear)

theorem callWith_body (hlen : args.length = f.arity) (hdepth : depth < c.limit)
    (hparams : f.params.any Value.isList = false)
    (hhear : c.listener.hear room (.called name args (depth + 1)) = .ok ()) :
    callWith c room ev depth name f args s =
      let r := ev (depth + 1) f.body (s.enter name f args (depth + 1))
      (r.1, r.2.leave) := by
  unfold callWith
  rw [if_neg (not_not_intro hlen), if_neg (by omega), if_neg (by simp [hparams])]
  exact Run.bind_ok (record_ok hhear)

end Call

/-- What there is to do: evaluate an expression; evaluate a list with a head of this name;
evaluate expressions from left to right into a list; find the clause that applies. -/
inductive Task where
  | expr (e : Value)
  | form (name : String) (operands : List Value)
  | all (es : List Value)
  | clauses (cs : List (Value × Value))

open SpecialForm in
/-- `Runs c room depth t s r`: with `room` host frames left, at a call depth, in the state `s`, the
task `t` comes to the outcome and the state `r`. -/
inductive Runs (c : Conditions) : Nat → Int → Task → EvalState →
    Except Failure Value × EvalState → Prop
  | exhausted {depth e s} : Runs c 0 depth (.expr e) s (.error (.escape .exhausted), s)
  | num {room depth n s} : Runs c (room + 1) depth (.expr (.num n)) s (.ok (.num n), s)
  | sym {room depth name s} : Runs c (room + 1) depth (.expr (.sym name)) s
      (.ok ((s.env.valueOf? name).getD (.sym name)), s)
  | empty {room depth s} : Runs c (room + 1) depth (.expr (.list [])) s (.ok (.list []), s)
  | foreign {room depth x s} : Runs c (room + 1) depth (.expr (.foreign x)) s
      (.error (.because (.cannotEvaluate x.inspect)), s)
  | nameless {room depth head operands s x} (hname : operatorName room head = .error x) :
      Runs c (room + 1) depth (.expr (.list (head :: operands))) s (.error (.escape x), s)
  | form {room depth head operands s name r s'} (hname : operatorName room head = .ok name)
      (h : Runs c room depth (.form name operands) s (r, s')) :
      Runs c (room + 1) depth (.expr (.list (head :: operands))) s
        (blamed (.list (head :: operands)) r, s')
  -- special forms
  | malformed {room depth name operands s f x} (hf : ofName? name = some f)
      (hq : f.check operands = .error x) :
      Runs c room depth (.form name operands) s (.error (x.failure room), s)
  | quote {room depth name operands s f v} (hf : ofName? name = some f)
      (hq : f.check operands = .ok (.quote v)) :
      Runs c room depth (.form name operands) s (.ok v, s)
  | assignFails {room depth name operands s f x e err s'} (hf : ofName? name = some f)
      (hq : f.check operands = .ok (.assign x e))
      (h : Runs c (room - 1) depth (.expr e) s (.error err, s')) :
      Runs c room depth (.form name operands) s (.error err, s')
  | assignUnheard {room depth name operands s f x e v s' err} (hf : ofName? name = some f)
      (hq : f.check operands = .ok (.assign x e))
      (h : Runs c (room - 1) depth (.expr e) s (.ok v, s'))
      (hhear : c.listener.hear room (.assigned x v) = .error err) :
      Runs c room depth (.form name operands) s (.error (.escape err), s')
  | assign {room depth name operands s f x e v s'} (hf : ofName? name = some f)
      (hq : f.check operands = .ok (.assign x e))
      (h : Runs c (room - 1) depth (.expr e) s (.ok v, s'))
      (hhear : c.listener.hear room (.assigned x v) = .ok ()) :
      Runs c room depth (.form name operands) s (.ok v, s'.assign x v)
  | defineUnheard {room depth name operands s f x g err} (hf : ofName? name = some f)
      (hq : f.check operands = .ok (.define x g))
      (hhear : c.listener.hear room (.defined x g.params) = .error err) :
      Runs c room depth (.form name operands) s (.error (.escape err), s)
  | define {room depth name operands s f x g} (hf : ofName? name = some f)
      (hq : f.check operands = .ok (.define x g))
      (hhear : c.listener.hear room (.defined x g.params) = .ok ()) :
      Runs c room depth (.form name operands) s (.ok (.sym x), s.define x g)
  | select {room depth name operands s f cs r} (hf : ofName? name = some f)
      (hq : f.check operands = .ok (.select cs))
      (h : Runs c (room - 1) depth (.clauses cs) s r) :
      Runs c room depth (.form name operands) s r
  -- operators
  | operandsFail {room depth name operands s op err s'} (hf : ofName? name = none)
      (hop : Operator.ofName? name = some op)
      (h : Runs c room depth (.all operands) s (.error err, s')) :
      Runs c room depth (.form name operands) s (.error err, s')
  | operator {room depth name operands s op vs s'} (hf : ofName? name = none)
      (hop : Operator.ofName? name = some op)
      (h : Runs c room depth (.all operands) s (.ok (.list vs), s')) :
      Runs c room depth (.form name operands) s (op.apply room vs, s')
  -- calls
  | undefined {room depth name operands s x} (hf : ofName? name = none)
      (hop : Operator.ofName? name = none) (hfun : s.env.getFunction name = .error x) :
      Runs c room depth (.form name operands) s (.error (.fault x), s)
  | argumentsFail {room depth name operands s f err s'} (hf : ofName? name = none)
      (hop : Operator.ofName? name = none) (hfun : s.env.getFunction name = .ok f)
      (h : Runs c (room - 1) depth (.all operands) s (.error err, s')) :
      Runs c room depth (.form name operands) s (.error err, s')
  | arity {room depth name operands s f vs s'} (hf : ofName? name = none)
      (hop : Operator.ofName? name = none) (hfun : s.env.getFunction name = .ok f)
      (h : Runs c (room - 1) depth (.all operands) s (.ok (.list vs), s'))
      (hlen : vs.length ≠ f.arity) :
      Runs c room depth (.form name operands) s
        (.error (.because (.arity ("function " ++ name) (.exactly f.arity) vs.length)), s')
  | tooDeep {room depth name operands s f vs s'} (hf : ofName? name = none)
      (hop : Operator.ofName? name = none) (hfun : s.env.getFunction name = .ok f)
      (h : Runs c (room - 1) depth (.all operands) s (.ok (.list vs), s'))
      (hlen : vs.length = f.arity) (hdepth : c.limit ≤ depth) :
      Runs c room depth (.form name operands) s (.error (.because (.callDepth c.limit name)), s')
  | unbindable {room depth name operands s f vs s'} (hf : ofName? name = none)
      (hop : Operator.ofName? name = none) (hfun : s.env.getFunction name = .ok f)
      (h : Runs c (room - 1) depth (.all operands) s (.ok (.list vs), s'))
      (hlen : vs.length = f.arity) (hdepth : depth < c.limit)
      (hparams : f.params.any Value.isList = true) :
      Runs c room depth (.form name operands) s (.error (.escape .listAsName), s')
  | callUnheard {room depth name operands s f vs s' err} (hf : ofName? name = none)
      (hop : Operator.ofName? name = none) (hfun : s.env.getFunction name = .ok f)
      (h : Runs c (room - 1) depth (.all operands) s (.ok (.list vs), s'))
      (hlen : vs.length = f.arity) (hdepth : depth < c.limit)
      (hparams : f.params.any Value.isList = false)
      (hhear : c.listener.hear room (.called name vs (depth + 1)) = .error err) :
      Runs c room depth (.form name operands) s (.error (.escape err), s')
  | call {room depth name operands s f vs s' r s''} (hf : ofName? name = none)
      (hop : Operator.ofName? name = none) (hfun : s.env.getFunction name = .ok f)
      (h : Runs c (room - 1) depth (.all operands) s (.ok (.list vs), s'))
      (hlen : vs.length = f.arity) (hdepth : depth < c.limit)
      (hparams : f.params.any Value.isList = false)
      (hhear : c.listener.hear room (.called name vs (depth + 1)) = .ok ())
      (hbody : Runs c (room - 1) (depth + 1) (.expr f.body) (s'.enter name f vs (depth + 1))
        (r, s'')) :
      Runs c room depth (.form name operands) s (r, s''.leave)
  -- expressions from left to right
  | nil {room depth s} : Runs c room depth (.all []) s (.ok (.list []), s)
  | firstFails {room depth e es s err s'} (h : Runs c room depth (.expr e) s (.error err, s')) :
      Runs c room depth (.all (e :: es)) s (.error err, s')
  | restFails {room depth e es s v s' err s''} (h : Runs c room depth (.expr e) s (.ok v, s'))
      (hs : Runs c room depth (.all es) s' (.error err, s'')) :
      Runs c room depth (.all (e :: es)) s (.error err, s'')
  | cons {room depth e es s v s' vs s''} (h : Runs c room depth (.expr e) s (.ok v, s'))
      (hs : Runs c room depth (.all es) s' (.ok (.list vs), s'')) :
      Runs c room depth (.all (e :: es)) s (.ok (.list (v :: vs)), s'')
  -- clauses
  | noClause {room depth s} : Runs c room depth (.clauses []) s (.ok .nil, s)
  | otherwise {room depth test result cs s r} (htest : isOtherwise test = true)
      (h : Runs c room depth (.expr result) s r) :
      Runs c room depth (.clauses ((test, result) :: cs)) s r
  | testFails {room depth test result cs s err s'} (htest : isOtherwise test = false)
      (h : Runs c room depth (.expr test) s (.error err, s')) :
      Runs c room depth (.clauses ((test, result) :: cs)) s (.error err, s')
  | testHolds {room depth test result cs s v s' r} (htest : isOtherwise test = false)
      (h : Runs c room depth (.expr test) s (.ok v, s')) (hv : v.isTruthy = true)
      (hr : Runs c room depth (.expr result) s' r) :
      Runs c room depth (.clauses ((test, result) :: cs)) s r
  | testDoesNot {room depth test result cs s v s' r} (htest : isOtherwise test = false)
      (h : Runs c room depth (.expr test) s (.ok v, s')) (hv : v.isTruthy = false)
      (hr : Runs c room depth (.clauses cs) s' r) :
      Runs c room depth (.clauses ((test, result) :: cs)) s r

section Step

variable {c : Conditions} {room : Nat} {direct nested : Evaluator} {depth : Int} {name : String}
  {operands : List Value}

theorem evalForm_special {f : SpecialForm} (hf : SpecialForm.ofName? name = some f) :
    evalForm c room direct nested depth name operands =
      SpecialForm.proceed c.listener room nested depth (f.check operands) := by
  unfold evalForm
  rw [hf]
  exact f.eval_eq_proceed ..

theorem evalForm_operator {op : Operator} (hf : SpecialForm.ofName? name = none)
    (hop : Operator.ofName? name = some op) :
    evalForm c room direct nested depth name operands =
      (Eval.sequence (direct depth) operands >>= fun args =>
        Run.ofExcept (op.apply room args)) := by
  unfold evalForm
  rw [hf]
  dsimp only
  rw [hop]

theorem evalForm_call (hf : SpecialForm.ofName? name = none)
    (hop : Operator.ofName? name = none) :
    evalForm c room direct nested depth name operands =
      call c room nested depth name operands := by
  unfold evalForm
  rw [hf]
  dsimp only
  rw [hop]

theorem evalStep_nameless {head : Value} {x : Escape} {s : EvalState}
    (hname : operatorName room head = .error x) :
    evalStep c room direct nested depth (.list (head :: operands)) s = (.error (.escape x), s) :=
  Run.bind_error (by rw [hname]; rfl)

theorem evalStep_form {head : Value} {s : EvalState} (hname : operatorName room head = .ok name) :
    evalStep c room direct nested depth (.list (head :: operands)) s =
      let r := evalForm c room direct nested depth name operands s
      (blamed (.list (head :: operands)) r.1, r.2) :=
  (Run.bind_ok (by rw [hname]; rfl)).trans (blaming_apply ..)

end Step

theorem ofExcept_apply {σ α : Type} (x : Except Failure α) (s : σ) :
    (Run.ofExcept x : Run σ α) s = (x, s) := by
  cases x <;> rfl

/-- The outcome is that calls would have been nested deeper than the limit. -/
def CutOff {α : Type} (limit : Int) (r : Except Failure α) : Prop :=
  ∃ f name, r = .error (.fault f) ∧ f.cause = .callDepth limit name

theorem cutOff_blamed {limit : Int} {form : Value} {r : Except Failure Value} :
    CutOff limit (blamed form r) ↔ CutOff limit r := by
  rcases r with (f | x) | v
  · constructor
    · rintro ⟨g, name, hg, hcause⟩
      cases hg
      exact ⟨f, name, rfl, f.cause_blame form ▸ hcause⟩
    · rintro ⟨g, name, hg, hcause⟩
      cases hg
      exact ⟨f.blame form, name, rfl, (f.cause_blame form).trans hcause⟩
  · rfl
  · rfl

namespace Runs

variable {c : Conditions} {room : Nat} {depth : Int}

/-! The evaluator follows the rules. -/

theorem of_sequence {ev : Value → Eval Value}
    (hev : ∀ e s, Runs c room depth (.expr e) s (ev e s)) (es : List Value) (s : EvalState) :
    Runs c room depth (.all es) s
      ((Eval.sequence ev es s).1.map .list, (Eval.sequence ev es s).2) := by
  induction es generalizing s with
  | nil => exact .nil
  | cons e es ih =>
    have first := hev e s
    rcases hv : ev e s with ⟨err | v, s'⟩
    · rw [hv] at first
      rw [show Eval.sequence ev (e :: es) s = (.error err, s') from Run.bind_error hv]
      exact .firstFails first
    · rw [hv] at first
      have rest := ih s'
      rcases hs : Eval.sequence ev es s' with ⟨err | vs, s''⟩
      · rw [hs] at rest
        rw [show Eval.sequence ev (e :: es) s = (.error err, s'') from
          (Run.bind_ok hv).trans (Run.bind_error hs)]
        exact .restFails first rest
      · rw [hs] at rest
        rw [show Eval.sequence ev (e :: es) s = (.ok (v :: vs), s'') from
          (Run.bind_ok hv).trans (Run.bind_ok hs)]
        exact .cons first rest

theorem of_firstMatch {ev : Value → Eval Value}
    (hev : ∀ e s, Runs c room depth (.expr e) s (ev e s)) (cs : List (Value × Value))
    (s : EvalState) :
    Runs c room depth (.clauses cs) s (SpecialForm.firstMatch ev cs s) := by
  induction cs generalizing s with
  | nil => exact .noClause
  | cons clause cs ih =>
    obtain ⟨test, result⟩ := clause
    unfold SpecialForm.firstMatch
    by_cases htest : SpecialForm.isOtherwise test = true
    · rw [if_pos htest]
      exact .otherwise htest (hev result s)
    · rw [if_neg htest]
      have htest : SpecialForm.isOtherwise test = false := by simpa using htest
      have first := hev test s
      rcases hv : ev test s with ⟨err | v, s'⟩
      · rw [hv] at first
        rw [Run.bind_error hv]
        exact .testFails htest first
      · rw [hv] at first
        rw [Run.bind_ok hv]
        cases hholds : v.isTruthy with
        | true => exact .testHolds htest first hholds (hev result s')
        | false => exact .testDoesNot htest first hholds (ih s')

theorem of_perform {nested : Evaluator} {name : String} {operands : List Value} {f : SpecialForm}
    {q : Request} (hnested : ∀ e s, Runs c (room - 1) depth (.expr e) s (nested depth e s))
    (hf : SpecialForm.ofName? name = some f) (hq : f.check operands = .ok q) (s : EvalState) :
    Runs c room depth (.form name operands) s (q.perform c.listener room nested depth s) := by
  cases q with
  | quote v => exact .quote hf hq
  | assign x e =>
    have first := hnested e s
    rcases hv : nested depth e s with ⟨err | v, s'⟩
    · rw [hv] at first
      rw [Request.perform_assignFails hv]
      exact .assignFails hf hq first
    · rw [hv] at first
      cases hhear : c.listener.hear room (.assigned x v) with
      | error err =>
        rw [Request.perform_assignUnheard hv hhear]
        exact .assignUnheard hf hq first hhear
      | ok u =>
        rw [Request.perform_assign hv hhear]
        exact .assign hf hq first hhear
  | define x g =>
    cases hhear : c.listener.hear room (.defined x g.params) with
    | error err =>
      rw [Request.perform_defineUnheard hhear]
      exact .defineUnheard hf hq hhear
    | ok u =>
      rw [Request.perform_define hhear]
      exact .define hf hq hhear
  | select cs => exact .select hf hq (of_firstMatch hnested cs s)

theorem of_call {nested : Evaluator} {name : String}
    (hnested : ∀ depth e s, Runs c (room - 1) depth (.expr e) s (nested depth e s))
    (hf : SpecialForm.ofName? name = none) (hop : Operator.ofName? name = none)
    (operands : List Value) (s : EvalState) :
    Runs c room depth (.form name operands) s
      (PocketLisp.call c room nested depth name operands s) := by
  cases hfun : s.env.getFunction name with
  | error x =>
    rw [call_undefined hfun]
    exact .undefined hf hop hfun
  | ok f =>
    rw [call_defined hfun]
    have args := of_sequence (hnested depth) operands s
    rcases hs : Eval.sequence (nested depth) operands s with ⟨err | vs, s'⟩
    · rw [hs] at args
      rw [Run.bind_error hs]
      exact .argumentsFail hf hop hfun args
    rw [hs] at args
    rw [Run.bind_ok hs]
    by_cases hlen : vs.length = f.arity
    case neg =>
      rw [callWith_arity hlen]
      exact .arity hf hop hfun args hlen
    by_cases hdepth : c.limit ≤ depth
    case pos =>
      rw [callWith_tooDeep hlen hdepth]
      exact .tooDeep hf hop hfun args hlen hdepth
    have hdepth : depth < c.limit := by omega
    cases hparams : f.params.any Value.isList with
    | true =>
      rw [callWith_unbindable hlen hdepth hparams]
      exact .unbindable hf hop hfun args hlen hdepth hparams
    | false =>
      cases hhear : c.listener.hear room (.called name vs (depth + 1)) with
      | error x =>
        rw [callWith_unheard hlen hdepth hparams hhear]
        exact .callUnheard hf hop hfun args hlen hdepth hparams hhear
      | ok u =>
        rw [callWith_body hlen hdepth hparams hhear]
        exact .call hf hop hfun args hlen hdepth hparams hhear (hnested ..)

theorem of_evalForm {direct nested : Evaluator}
    (hdirect : ∀ e s, Runs c room depth (.expr e) s (direct depth e s))
    (hnested : ∀ depth e s, Runs c (room - 1) depth (.expr e) s (nested depth e s))
    (name : String) (operands : List Value) (s : EvalState) :
    Runs c room depth (.form name operands) s
      (evalForm c room direct nested depth name operands s) := by
  cases hf : SpecialForm.ofName? name with
  | some f =>
    rw [evalForm_special hf]
    cases hq : f.check operands with
    | error x => exact .malformed hf hq
    | ok q => exact of_perform (hnested depth) hf hq s
  | none =>
    cases hop : Operator.ofName? name with
    | none =>
      rw [evalForm_call hf hop]
      exact of_call hnested hf hop operands s
    | some op =>
      rw [evalForm_operator hf hop]
      have args := of_sequence hdirect operands s
      rcases hs : Eval.sequence (direct depth) operands s with ⟨err | vs, s'⟩
      · rw [hs] at args
        rw [Run.bind_error hs]
        exact .operandsFail hf hop args
      · rw [hs] at args
        rw [Run.bind_ok hs, ofExcept_apply]
        exact .operator hf hop args

theorem of_evalStep {direct nested : Evaluator}
    (hdirect : ∀ depth e s, Runs c room depth (.expr e) s (direct depth e s))
    (hnested : ∀ depth e s, Runs c (room - 1) depth (.expr e) s (nested depth e s))
    (e : Value) (s : EvalState) :
    Runs c (room + 1) depth (.expr e) s (evalStep c room direct nested depth e s) := by
  cases e with
  | num n => exact .num
  | sym name => exact .sym
  | foreign x => exact .foreign
  | list items =>
    cases items with
    | nil => exact .empty
    | cons head operands =>
      cases hname : operatorName room head with
      | error x =>
        rw [evalStep_nameless hname]
        exact .nameless hname
      | ok name =>
        rw [evalStep_form hname]
        exact .form hname (of_evalForm (hdirect depth) hnested name operands s)

end Runs

theorem evaluate_succ (c : Conditions) (room : Nat) :
    evaluate c (room + 1) = evalStep c room (evaluate c room) (evaluate c (room - 1)) := by
  cases room <;> rfl

/-- Whatever the frames left, the evaluator follows the rules. -/
theorem runs_evaluate (c : Conditions) (room : Nat) (depth : Int) (e : Value) (s : EvalState) :
    Runs c room depth (.expr e) s (evaluate c room depth e s) := by
  induction room using Nat.strongRecOn generalizing depth e s with
  | ind room ih =>
    cases room with
    | zero => exact .exhausted
    | succ room =>
      rw [evaluate_succ]
      exact .of_evalStep (ih room (by omega)) (ih (room - 1) (by omega)) e s

namespace Runs

variable {c : Conditions} {room : Nat} {depth : Int} {t : Task} {s : EvalState}
  {r : Except Failure Value × EvalState}

/-- What holds between the states before and after a run: it is enough that it holds of each
assignment and definition, and of a call if it holds of its body. -/
theorem relates {R : EvalState → EvalState → Prop} (hrefl : ∀ s, R s s)
    (htrans : ∀ {s s' s''}, R s s' → R s' s'' → R s s'')
    (hassign : ∀ s x v, R s (s.assign x v))
    (hdefine : ∀ s x (g : Function), SpecialForm.badParam? g.params = none → R s (s.define x g))
    (hcall : ∀ {room depth name f args s r}, depth < c.limit →
      Runs c room (depth + 1) (.expr f.body) (s.enter name f args (depth + 1)) r →
      R (s.enter name f args (depth + 1)) r.2 → R s r.2.leave)
    (h : Runs c room depth t s r) : R s r.2 := by
  induction h with
  | exhausted | num | sym | empty | foreign | nameless | malformed | quote | defineUnheard
  | undefined | nil | noClause => exact hrefl _
  | form _ _ ih | assignFails _ _ _ ih | assignUnheard _ _ _ _ ih | select _ _ _ ih
  | operandsFail _ _ _ ih | operator _ _ _ ih | argumentsFail _ _ _ _ ih | arity _ _ _ _ _ ih
  | tooDeep _ _ _ _ _ _ ih | unbindable _ _ _ _ _ _ _ ih | callUnheard _ _ _ _ _ _ _ _ ih
  | firstFails _ ih | otherwise _ _ ih | testFails _ _ ih => exact ih
  | assign _ _ _ _ ih => exact htrans ih (hassign _ _ _)
  | define _ hq _ => exact hdefine _ _ _ (SpecialForm.of_check_define hq).2.2
  | restFails _ _ ih ihs | cons _ _ ih ihs | testHolds _ _ _ _ ih ihs
  | testDoesNot _ _ _ _ ih ihs => exact htrans ih ihs
  | call _ _ _ _ _ hdepth _ _ hbody ih ihbody => exact htrans ih (hcall hdepth hbody ihbody)

/-- What has been entered during a run has been left at its end. -/
theorem outer_eq (h : Runs c room depth t s r) : r.2.env.outer = s.env.outer := by
  refine h.relates (R := fun s s' => s'.env.outer = s.env.outer) (fun _ => rfl)
    (fun h h' => h'.trans h) (fun _ _ _ => rfl) (fun _ _ _ _ => rfl) ?_
  intro room depth name f args s r _ _ hbody
  rw [EvalState.env_leave hbody]

end Runs

/-- When a run with an outcome carries over to another limit and to other host frames: there are at
least as many, and where the outcome is that there are too few, just as many. -/
structure Relaxed (limit limit' : Int) (room room' : Nat) (r : Except Failure Value) : Prop where
  limit_le : limit ≤ limit'
  room_le : room ≤ room'
  depth : CutOff limit r → limit' = limit
  stack : r = .error (.escape .exhausted) → room' = room

namespace Relaxed

variable {limit limit' : Int} {room room' : Nat} {r : Except Failure Value}

theorem ok (h : Relaxed limit limit' room room' r) (v : Value) :
    Relaxed limit limit' room room' (.ok v) :=
  ⟨h.limit_le, h.room_le, fun ⟨_, _, he, _⟩ => (nomatch he), fun he => nomatch he⟩

theorem nested (h : Relaxed limit limit' room room' r) :
    Relaxed limit limit' (room - 1) (room' - 1) r :=
  ⟨h.limit_le, Nat.sub_le_sub_right h.room_le 1, h.depth, fun he => by rw [h.stack he]⟩

theorem of_blamed {form : Value} (h : Relaxed limit limit' (room + 1) (room' + 1) (blamed form r)) :
    Relaxed limit limit' room room' r :=
  ⟨h.limit_le, Nat.le_of_succ_le_succ h.room_le, fun he => h.depth (cutOff_blamed.mpr he),
    fun he => Nat.succ.inj (h.stack (by rw [he]; rfl))⟩

theorem hear {l : Listener} {e : Event} {x : Except Escape Unit}
    (h : Relaxed limit limit' room room' r) (hhear : l.hear room e = x)
    (hx : ∀ y, x = .error y → r = .error (.escape y)) : l.hear room' e = x := by
  refine ((settling_hear l e).keep h.room_le fun he => h.stack ?_).trans hhear
  exact hx .exhausted (hhear.symm.trans he)

end Relaxed

namespace Runs

/-- A run that is not cut off comes to the same under a higher limit, and one that does not give
up comes to the same with more host frames. -/
theorem relax {c : Conditions} {limit : Int} {room room' : Nat} {depth : Int} {t : Task}
    {s : EvalState} {r : Except Failure Value × EvalState} (h : Runs c room depth t s r)
    (hr : Relaxed c.limit limit room room' r.1) :
    Runs ⟨limit, c.listener⟩ room' depth t s r := by
  induction h generalizing room' with
  | exhausted =>
    rw [hr.stack rfl]
    exact .exhausted
  | num | sym | empty | foreign =>
    obtain ⟨k, rfl⟩ : ∃ k, room' = k + 1 := ⟨room' - 1, by have := hr.room_le; omega⟩
    constructor
  | @nameless room depth head operands s x hname =>
    obtain ⟨k, rfl⟩ : ∃ k, room' = k + 1 := ⟨room' - 1, by have := hr.room_le; omega⟩
    refine .nameless (.trans ?_ hname)
    refine (settling_operatorName head).keep (Nat.le_of_succ_le_succ hr.room_le) fun he => ?_
    refine Nat.succ.inj (hr.stack ?_)
    rw [Except.error.inj (hname.symm.trans he)]
  | @form room depth head operands s name r s' hname _ ih =>
    obtain ⟨k, rfl⟩ : ∃ k, room' = k + 1 := ⟨room' - 1, by have := hr.room_le; omega⟩
    refine .form (.trans ?_ hname) (ih hr.of_blamed)
    refine (settling_operatorName head).keep (Nat.le_of_succ_le_succ hr.room_le) fun he => ?_
    cases hname.symm.trans he
  | @malformed room depth name operands s f x hf hq =>
    rw [← x.settling_failure.keep hr.room_le fun he => hr.stack (congrArg Except.error he)]
    exact .malformed hf hq
  | quote hf hq => exact .quote hf hq
  | assignFails hf hq _ ih => exact .assignFails hf hq (ih hr.nested)
  | assignUnheard hf hq _ hhear ih =>
    refine .assignUnheard hf hq (ih (hr.ok _).nested) (hr.hear hhear fun y hy => ?_)
    rw [Except.error.inj hy]
  | assign hf hq _ hhear ih =>
    exact .assign hf hq (ih hr.nested) (hr.hear hhear fun _ hy => nomatch hy)
  | defineUnheard hf hq hhear =>
    refine .defineUnheard hf hq (hr.hear hhear fun y hy => ?_)
    rw [Except.error.inj hy]
  | define hf hq hhear => exact .define hf hq (hr.hear hhear fun _ hy => nomatch hy)
  | select hf hq _ ih => exact .select hf hq (ih hr.nested)
  | operandsFail hf hop _ ih => exact .operandsFail hf hop (ih hr)
  | @operator room depth name operands s op vs s' hf hop _ ih =>
    rw [← (op.settling_apply vs).keep hr.room_le hr.stack]
    exact .operator hf hop (ih (hr.ok _))
  | undefined hf hop hfun => exact .undefined hf hop hfun
  | argumentsFail hf hop hfun _ ih => exact .argumentsFail hf hop hfun (ih hr.nested)
  | arity hf hop hfun _ hlen ih => exact .arity hf hop hfun (ih (hr.ok _).nested) hlen
  | @tooDeep room depth name operands s f vs s' hf hop hfun _ hlen hdepth ih =>
    have hlimit : limit = c.limit := hr.depth ⟨_, name, rfl, rfl⟩
    subst hlimit
    exact .tooDeep hf hop hfun (ih (hr.ok _).nested) hlen hdepth
  | unbindable hf hop hfun _ hlen hdepth hparams ih =>
    exact .unbindable hf hop hfun (ih (hr.ok _).nested) hlen (Int.lt_of_lt_of_le hdepth hr.limit_le)
      hparams
  | callUnheard hf hop hfun _ hlen hdepth hparams hhear ih =>
    refine .callUnheard hf hop hfun (ih (hr.ok _).nested) hlen
      (Int.lt_of_lt_of_le hdepth hr.limit_le) hparams (hr.hear hhear fun y hy => ?_)
    rw [Except.error.inj hy]
  | call hf hop hfun _ hlen hdepth hparams hhear _ ih ihbody =>
    exact .call hf hop hfun (ih (hr.ok _).nested) hlen (Int.lt_of_lt_of_le hdepth hr.limit_le)
      hparams (hr.hear hhear fun _ hy => nomatch hy) (ihbody hr.nested)
  | nil => exact .nil
  | firstFails _ ih => exact .firstFails (ih hr)
  | restFails _ _ ih ihs => exact .restFails (ih (hr.ok _)) (ihs hr)
  | cons _ _ ih ihs => exact .cons (ih (hr.ok _)) (ihs (hr.ok _))
  | noClause => exact .noClause
  | otherwise htest _ ih => exact .otherwise htest (ih hr)
  | testFails htest _ ih => exact .testFails htest (ih hr)
  | testHolds htest _ hv _ ih ihr => exact .testHolds htest (ih (hr.ok _)) hv (ihr hr)
  | testDoesNot htest _ hv _ ih ihr => exact .testDoesNot htest (ih (hr.ok _)) hv (ihr hr)

theorem more_room {c : Conditions} {room room' : Nat} {depth : Int} {t : Task} {s : EvalState}
    {r : Except Failure Value × EvalState} (h : Runs c room depth t s r)
    (hr : r.1 ≠ .error (.escape .exhausted)) (hle : room ≤ room') : Runs c room' depth t s r :=
  h.relax ⟨Int.le_refl _, hle, fun _ => rfl, fun he => absurd he hr⟩

end Runs

end PocketLisp
