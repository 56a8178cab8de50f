import PocketLisp.Proofs.Eval.Rules

/-!
What goes on in the course of a run. A hook takes every evaluation of an expression, those of
subexpressions and bodies included, and may alter it; a condition holds throughout a run if no
alteration that respects the condition makes a difference. With the hook that alters nothing, the
same argument shows that the rules of evaluation determine the outcome.
-/
namespace PocketLisp

/-- Evaluation in which a hook takes every evaluation of an expression. -/
def evaluateVia (c : Conditions) (hook : Evaluator → Evaluator) : (room : Nat) → Evaluator
  | 0 => hook fun _ _ => Run.fail (.escape .exhausted)
  | 1 => hook (evalStep c 0 (hook fun _ _ => Run.fail (.escape .exhausted))
      (hook fun _ _ => Run.fail (.escape .exhausted)))
  | room + 2 => hook (evalStep c (room + 1) (evaluateVia c hook (room + 1))
      (evaluateVia c hook room))

theorem evaluateVia_succ (c : Conditions) (hook : Evaluator → Evaluator) (room : Nat) :
    evaluateVia c hook (room + 1) =
      hook (evalStep c room (evaluateVia c hook room) (evaluateVia c hook (room - 1))) := by
  cases room <;> rfl

theorem evaluateVia_id (c : Conditions) (room : Nat) : evaluateVia c id room = evaluate c room := by
  induction room using Nat.strongRecOn with
  | ind room ih =>
    cases room with
    | zero => rfl
    | succ room =>
      rw [evaluateVia_succ, evaluate_succ, ih room (by omega), ih (room - 1) (by omega), id]

/-- A moment at which the evaluation of an expression begins. -/
structure Moment where
  depth : Int
  expr : Value
  state : EvalState

/-- The condition holds whenever, in the course of a run, the evaluation of an expression begins:
altering the evaluations that begin otherwise has no effect. -/
def Throughout (c : Conditions) (room : Nat) (depth : Int) (e : Value) (s : EvalState)
    (P : Moment → Prop) : Prop :=
  ∀ hook : Evaluator → Evaluator,
    (∀ ev depth e s, P ⟨depth, e, s⟩ → hook ev depth e s = ev depth e s) →
    evaluateVia c hook room depth e s = evaluate c room depth e s

/-- Every evaluation of an expression in the course of a run begins under the one condition and ends
under the other: altering the evaluations that do not has no effect. -/
def EveryEvaluation (c : Conditions) (room : Nat) (depth : Int) (e : Value) (s : EvalState)
    (P : Moment → Prop) (Q : EvalState → Prop) : Prop :=
  ∀ hook : Evaluator → Evaluator,
    (∀ ev depth e s, P ⟨depth, e, s⟩ → Q (ev depth e s).2 → hook ev depth e s = ev depth e s) →
    evaluateVia c hook room depth e s = evaluate c room depth e s

namespace Task

def run (c : Conditions) (ev : Nat → Evaluator) (room : Nat) (depth : Int) : Task → Eval Value
  | .expr e => ev room depth e
  | .form name operands => evalForm c room (ev room) (ev (room - 1)) depth name operands
  | .all es => do pure (.list (← Eval.sequence (ev room depth) es))
  | .clauses cs => SpecialForm.firstMatch (ev room depth) cs

variable {c : Conditions} {ev : Nat → Evaluator} {room : Nat} {depth : Int} {es : List Value}
  {s s' : EvalState}

theorem sequence_of_run_ok {vs : List Value}
    (h : (all es).run c ev room depth s = (.ok (.list vs), s')) :
    Eval.sequence (ev room depth) es s = (.ok vs, s') := by
  rcases hs : Eval.sequence (ev room depth) es s with ⟨err | ws, s''⟩
  · rw [show (all es).run c ev room depth s = (.error err, s'') from Run.bind_error hs] at h
    cases h
  · rw [show (all es).run c ev room depth s = (.ok (.list ws), s'') from Run.bind_ok hs] at h
    cases h
    rfl

theorem sequence_of_run_error {err : Failure}
    (h : (all es).run c ev room depth s = (.error err, s')) :
    Eval.sequence (ev room depth) es s = (.error err, s') := by
  rcases hs : Eval.sequence (ev room depth) es s with ⟨err' | ws, s''⟩
  · rw [show (all es).run c ev room depth s = (.error err', s'') from Run.bind_error hs] at h
    cases h
    rfl
  · rw [show (all es).run c ev room depth s = (.ok (.list ws), s'') from Run.bind_ok hs] at h
    cases h

variable {name : String} {operands : List Value}

theorem run_special {f : SpecialForm} (hf : SpecialForm.ofName? name = some f) :
    (form name operands).run c ev room depth =
      SpecialForm.proceed c.listener room (ev (room - 1)) depth (f.check operands) :=
  evalForm_special hf

theorem run_call {f : Function} (hf : SpecialForm.ofName? name = none)
    (hop : Operator.ofName? name = none) (hfun : s.env.getFunction name = .ok f) :
    (form name operands).run c ev room depth s =
      (Eval.sequence (ev (room - 1) depth) operands >>=
        callWith c room (ev (room - 1)) depth name f) s := by
  rw [run, evalForm_call hf hop, call_defined hfun]

end Task

namespace Task

/-- What a task leads to without anything being looked up: the first task is part of the second. -/
inductive Part : Task → Task → Prop
  | form {room : Nat} {head : Value} {name : String} {operands : List Value}
      (hname : operatorName room head = .ok name) :
      Part (.form name operands) (.expr (.list (head :: operands)))
  | assigned {name x : String} {operands : List Value} {f : SpecialForm} {e : Value}
      (hq : f.check operands = .ok (.assign x e)) : Part (.expr e) (.form name operands)
  | selected {name : String} {operands : List Value} {f : SpecialForm} {cs : List (Value × Value)}
      (hq : f.check operands = .ok (.select cs)) : Part (.clauses cs) (.form name operands)
  | operands {name : String} {operands : List Value} : Part (.all operands) (.form name operands)
  | first {e : Value} {es : List Value} : Part (.expr e) (.all (e :: es))
  | rest {e : Value} {es : List Value} : Part (.all es) (.all (e :: es))
  | test {test result : Value} {cs : List (Value × Value)} :
      Part (.expr test) (.clauses ((test, result) :: cs))
  | result {test result : Value} {cs : List (Value × Value)} :
      Part (.expr result) (.clauses ((test, result) :: cs))
  | later {clause : Value × Value} {cs : List (Value × Value)} :
      Part (.clauses cs) (.clauses (clause :: cs))

end Task

/-- Conditions on tasks and states that last: parts of tasks have the one, runs keep the other, and
the body of a called function starts with both. -/
structure Lasting (c : Conditions) (T : Task → Prop) (S : Int → EvalState → Prop) : Prop where
  part : ∀ {t u : Task}, T t → u.Part t → T u
  run : ∀ {room : Nat} {depth : Int} {t : Task} {s : EvalState} {r : Except Failure Value × EvalState},
    T t → S depth s → Runs c room depth t s r → S depth r.2
  body : ∀ {room : Nat} {depth : Int} {name : String} {operands vs : List Value} {f : Function}
    {s s' : EvalState}, T (.all operands) → S depth s → s.env.getFunction name = .ok f →
    Runs c room depth (.all operands) s (.ok (.list vs), s') → depth < c.limit →
    T (.expr f.body) ∧ S (depth + 1) (s'.enter name f vs (depth + 1))

namespace Runs

variable {c : Conditions} {room : Nat} {depth : Int} {t : Task} {s : EvalState}
  {r : Except Failure Value × EvalState}

/-- A hook that alters no evaluation that begins and ends under lasting conditions does not alter a
run that starts under them. -/
theorem run_hooked {hook : Evaluator → Evaluator} {T : Task → Prop} {S : Int → EvalState → Prop}
    (lasting : Lasting c T S)
    (hhook : ∀ ev depth e s, T (.expr e) → S depth s → S depth (ev depth e s).2 →
      hook ev depth e s = ev depth e s)
    (h : Runs c room depth t s r) (ht : T t) (hs : S depth s) :
    t.run c (evaluateVia c hook) room depth s = r := by
  -- An expression with frames left is evaluated by one step of the evaluator.
  have opened : ∀ {room depth e s r}, T (.expr e) → S depth s → S depth r.2 →
      evalStep c room (evaluateVia c hook room) (evaluateVia c hook (room - 1)) depth e s = r →
      (Task.expr e).run c (evaluateVia c hook) (room + 1) depth s = r := by
    intro room depth e s r ht hs hend hstep
    rw [Task.run, evaluateVia_succ, hhook _ _ _ _ ht hs (by rw [hstep]; exact hend), hstep]
  induction h with
  | exhausted => exact hhook _ _ _ _ ht hs hs
  | num | sym | empty | foreign => exact opened ht hs hs rfl
  | nameless hname => exact opened ht hs hs (evalStep_nameless hname)
  | form hname h ih =>
    refine opened ht hs (lasting.run ht hs (.form hname h)) ?_
    have body := ih (lasting.part ht (.form hname)) hs
    rw [Task.run] at body
    rw [evalStep_form hname, body]
  | malformed hf hq => rw [Task.run_special hf, hq]; rfl
  | quote hf hq => rw [Task.run_special hf, hq]; rfl
  | assignFails hf hq _ ih =>
    rw [Task.run_special hf, hq]
    exact Request.perform_assignFails (ih (lasting.part ht (.assigned hq)) hs)
  | assignUnheard hf hq _ hhear ih =>
    rw [Task.run_special hf, hq]
    exact Request.perform_assignUnheard (ih (lasting.part ht (.assigned hq)) hs) hhear
  | assign hf hq _ hhear ih =>
    rw [Task.run_special hf, hq]
    exact Request.perform_assign (ih (lasting.part ht (.assigned hq)) hs) hhear
  | defineUnheard hf hq hhear =>
    rw [Task.run_special hf, hq, SpecialForm.proceed, Request.perform_defineUnheard hhear]
  | define hf hq hhear =>
    rw [Task.run_special hf, hq, SpecialForm.proceed, Request.perform_define hhear]
  | select hf hq _ ih =>
    rw [Task.run_special hf, hq]
    exact ih (lasting.part ht (.selected hq)) hs
  | operandsFail hf hop _ ih =>
    rw [Task.run, evalForm_operator hf hop]
    exact Run.bind_error (Task.sequence_of_run_error (ih (lasting.part ht .operands) hs))
  | operator hf hop _ ih =>
    rw [Task.run, evalForm_operator hf hop, Run.bind_ok (Task.sequence_of_run_ok (ih (lasting.part ht .operands) hs)),
      ofExcept_apply]
  | undefined hf hop hfun => rw [Task.run, evalForm_call hf hop, call_undefined hfun]
  | argumentsFail hf hop hfun _ ih =>
    rw [Task.run_call hf hop hfun]
    exact Run.bind_error (Task.sequence_of_run_error (ih (lasting.part ht .operands) hs))
  | arity hf hop hfun _ hlen ih =>
    rw [Task.run_call hf hop hfun, Run.bind_ok (Task.sequence_of_run_ok (ih (lasting.part ht .operands) hs)),
      callWith_arity hlen]
  | tooDeep hf hop hfun _ hlen hdepth ih =>
    rw [Task.run_call hf hop hfun, Run.bind_ok (Task.sequence_of_run_ok (ih (lasting.part ht .operands) hs)),
      callWith_tooDeep hlen hdepth]
  | unbindable hf hop hfun _ hlen hdepth hparams ih =>
    rw [Task.run_call hf hop hfun, Run.bind_ok (Task.sequence_of_run_ok (ih (lasting.part ht .operands) hs)),
      callWith_unbindable hlen hdepth hparams]
  | callUnheard hf hop hfun _ hlen hdepth hparams hhear ih =>
    rw [Task.run_call hf hop hfun, Run.bind_ok (Task.sequence_of_run_ok (ih (lasting.part ht .operands) hs)),
      callWith_unheard hlen hdepth hparams hhear]
  | @call room depth name operands s f vs s' r s'' hf hop hfun h hlen hdepth hparams hhear _ ih
      ihbody =>
    rw [Task.run_call hf hop hfun, Run.bind_ok (Task.sequence_of_run_ok (ih (lasting.part ht .operands) hs)),
      callWith_body hlen hdepth hparams hhear]
    obtain ⟨htbody, hsbody⟩ := lasting.body (lasting.part ht .operands) hs hfun h hdepth
    have body := ihbody htbody hsbody
    rw [Task.run] at body
    rw [body]
  | nil => rfl
  | firstFails _ ih =>
    exact Run.bind_error (Run.bind_error (ih (lasting.part ht .first) hs))
  | restFails h _ ih ihs =>
    have first := lasting.part ht .first
    have rest := Task.sequence_of_run_error
      (ihs (lasting.part ht .rest) (lasting.run first hs h))
    exact Run.bind_error ((Run.bind_ok (ih first hs)).trans (Run.bind_error rest))
  | cons h _ ih ihs =>
    have first := lasting.part ht .first
    have rest := Task.sequence_of_run_ok (ihs (lasting.part ht .rest) (lasting.run first hs h))
    exact Run.bind_ok ((Run.bind_ok (ih first hs)).trans (Run.bind_ok rest))
  | noClause => rfl
  | otherwise htest _ ih =>
    rw [Task.run, SpecialForm.firstMatch, if_pos htest]
    exact ih (lasting.part ht .result) hs
  | testFails htest _ ih =>
    rw [Task.run, SpecialForm.firstMatch, if_neg (by simp [htest])]
    exact Run.bind_error (ih (lasting.part ht .test) hs)
  | testHolds htest h hv _ ih ihr =>
    have test := lasting.part ht .test
    rw [Task.run, SpecialForm.firstMatch, if_neg (by simp [htest])]
    refine (Run.bind_ok (ih test hs)).trans ?_
    rw [if_pos hv]
    exact ihr (lasting.part ht .result) (lasting.run test hs h)
  | testDoesNot htest h hv _ ih ihr =>
    have test := lasting.part ht .test
    rw [Task.run, SpecialForm.firstMatch, if_neg (by simp [htest])]
    refine (Run.bind_ok (ih test hs)).trans ?_
    rw [if_neg (by simp [hv])]
    exact ihr (lasting.part ht .later) (lasting.run test hs h)

/-- A condition on the depth and the number of frames that still holds one call further lasts. -/
theorem lasting_depth {P : Int → Nat → Prop}
    (hstep : ∀ depth n, depth < c.limit → P depth n → P (depth + 1) (n + 1)) :
    Lasting c (fun _ => True) fun depth s => P depth s.env.outer.length where
  part _ _ := trivial
  run _ hs h := by
    rw [h.outer_eq]
    exact hs
  body := by
    intro room depth name operands vs f s s' _ hs _ h hdepth
    -- The body starts one frame further in than the arguments left the caller.
    have houter : (s'.enter name f vs (depth + 1)).env.outer.length = s.env.outer.length + 1 :=
      congrArg (·.length + 1) h.outer_eq
    exact ⟨trivial, houter ▸ hstep _ _ hdepth hs⟩

/-- A hook that alters nothing as long as the depth and the number of frames satisfy a condition
does not alter a run, if they do so at the start and still do one call further. -/
theorem run_via {hook : Evaluator → Evaluator} {P : Int → Nat → Prop}
    (hhook : ∀ ev depth e s, P depth s.env.outer.length → hook ev depth e s = ev depth e s)
    (hstep : ∀ depth n, depth < c.limit → P depth n → P (depth + 1) (n + 1))
    (h : Runs c room depth t s r) (hs : P depth s.env.outer.length) :
    t.run c (evaluateVia c hook) room depth s = r :=
  h.run_hooked (lasting_depth hstep) (fun ev depth e s _ hs _ => hhook ev depth e s hs) trivial hs

theorem evaluate_eq {e : Value} (h : Runs c room depth (.expr e) s r) :
    evaluate c room depth e s = r := by
  rw [← evaluateVia_id]
  exact h.run_via (P := fun _ _ => True) (fun _ _ _ _ _ => rfl) (fun _ _ _ _ => trivial) trivial

end Runs

theorem Lasting.everyEvaluation {c : Conditions} {T : Task → Prop} {S : EvalState → Prop}
    (lasting : Lasting c T fun _ => S) {e : Value} {s : EvalState} (he : T (.expr e)) (hs : S s)
    (room : Nat) (depth : Int) :
    EveryEvaluation c room depth e s (fun m => T (.expr m.expr) ∧ S m.state) S := by
  intro hook hhook
  have hrun := (runs_evaluate c room depth e s).run_hooked lasting
    (fun ev depth e s he hs hend => hhook ev depth e s ⟨he, hs⟩ hend) he hs
  exact hrun

end PocketLisp
