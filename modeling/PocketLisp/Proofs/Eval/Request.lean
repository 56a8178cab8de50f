import PocketLisp.Proofs.Eval.Room

/-!
Special forms in two steps: their operands are checked, which depends on nothing else and gives a
request or a refusal, and then what they ask for is done. The states that evaluation goes through
are named here as well.
-/
namespace PocketLisp

/-- What a special form asks for once its operands have been checked. -/
inductive Request where
  | quote (v : Value)
  | assign (name : String) (e : Value)
  | define (name : String) (f : Function)
  | select (clauses : List (Value × Value))

/-- What is wrong with the operands of a special form; a value may have to be shown. -/
inductive Refusal where
  | plain (cause : Cause)
  | showing (cause : String → Cause) (v : Value)

/-- The cause is that calls are nested too deeply. -/
def Cause.isCallDepth : Cause → Bool
  | .callDepth .. => true
  | _ => false

namespace Refusal

def failure (room : Nat) : Refusal → Failure
  | .plain cause => .because cause
  | .showing cause v =>
    match v.renderWithin room with
    | .ok shown => .because (cause shown)
    | .error e => .escape e

theorem settling_failure (r : Refusal) :
    Settling (.escape .exhausted) fun room => r.failure room := by
  cases r with
  | plain cause => exact .const fun he => nomatch he
  | showing cause v =>
    let failure : Except Escape String → Failure
      | .ok shown => .because (cause shown)
      | .error e => .escape e
    refine v.settling_renderWithin.follow (k := fun b _ => failure b) (fun _ => rfl) ?_
    intro b hb
    cases b with
    | ok shown => exact .const fun he => nomatch he
    | error e => exact .const fun he => hb (congrArg Except.error (Failure.escape.inj he))

end Refusal

namespace SpecialForm

def check : SpecialForm → List Value → Except Refusal Request
  | .quote, [v] => .ok (.quote v)
  | .quote, operands => .error (.plain (.quoteOperands operands.length))
  | .setq, [.sym name, e] => .ok (.assign name e)
  | .setq, [other, _] => .error (.showing .setqName other)
  | .setq, _ => .error (.plain .setqOperands)
  | .defun, [.sym name, params, body] =>
    if isReserved name then .error (.plain (.defunReserved name))
    else
      match params with
      | .list params =>
        match badParam? params with
        | some p => .error (.showing .defunParameter p)
        | none =>
          if distinct (paramNames params) then .ok (.define name ⟨params, body⟩)
          else .error (.showing (.defunDuplicate name) (.list params))
      | other => .error (.showing .defunParameters other)
  | .defun, [other, _, _] => .error (.showing .defunName other)
  | .defun, _ => .error (.plain .defunOperands)
  | .cond, operands =>
    match clauses operands with
    | .ok cs => .ok (.select cs)
    | .error other => .error (.showing .condClause other)

end SpecialForm

def Request.perform (l : Listener) (room : Nat) (ev : Evaluator) (depth : Int) :
    Request → Eval Value
  | .quote v => pure v
  | .assign name e => do
    let v ← ev depth e
    Eval.record l room (.assigned name v)
    Eval.modifyEnv (·.setVariable name v)
    pure v
  | .define name f => do
    Eval.record l room (.defined name f.params)
    Eval.modifyEnv (·.setFunction name f)
    pure (.sym name)
  | .select cs => SpecialForm.firstMatch (ev depth) cs

namespace SpecialForm

section Check

variable (l : Listener) (room : Nat) (ev : Evaluator) (depth : Int)

def proceed : Except Refusal Request → Eval Value
  | .ok q => q.perform l room ev depth
  | .error r => Run.fail (r.failure room)

theorem failShowing_eq (cause : String → Cause) (v : Value) :
    Eval.failShowing room cause v = proceed l room ev depth (.error (.showing cause v)) := by
  simp only [Eval.failShowing, proceed, Refusal.failure]
  cases v.renderWithin room <;> rfl

theorem evalSetq_eq (operands : List Value) :
    evalSetq l room ev depth operands = proceed l room ev depth (check .setq operands) := by
  rcases operands with _ | ⟨target, _ | ⟨e, _ | ⟨x, rest⟩⟩⟩
  · rfl
  · cases target <;> rfl
  · cases target with
    | sym name => rfl
    | num n => exact failShowing_eq ..
    | list vs => exact failShowing_eq ..
    | foreign x => exact failShowing_eq ..
  · cases target <;> rfl

theorem evalDefun_eq (operands : List Value) :
    evalDefun l room operands = proceed l room ev depth (check .defun operands) := by
  rcases operands with _ | ⟨target, _ | ⟨params, _ | ⟨body, _ | ⟨x, rest⟩⟩⟩⟩
  · rfl
  · cases target <;> rfl
  · cases target <;> rfl
  · cases target with
    | sym name =>
      simp only [evalDefun, check]
      by_cases hname : isReserved name
      · rw [if_pos hname, if_pos hname]
        rfl
      rw [if_neg hname, if_neg hname]
      cases params with
      | list params =>
        dsimp only
        cases badParam? params with
        | some p => exact failShowing_eq ..
        | none =>
          dsimp only
          by_cases hd : distinct (paramNames params)
          · rw [if_pos hd, if_pos hd]
            rfl
          · rw [if_neg hd, if_neg hd]
            exact failShowing_eq ..
      | num n => exact failShowing_eq ..
      | sym name => exact failShowing_eq ..
      | foreign x => exact failShowing_eq ..
    | num n => exact failShowing_eq ..
    | list vs => exact failShowing_eq ..
    | foreign x => exact failShowing_eq ..
  · cases target <;> rfl

/-- A special form checks its operands and then does what it asks for. -/
theorem eval_eq_proceed (f : SpecialForm) (operands : List Value) :
    f.eval l room ev depth operands = proceed l room ev depth (f.check operands) := by
  cases f with
  | quote => rcases operands with _ | ⟨v, _ | ⟨w, rest⟩⟩ <;> rfl
  | setq => exact evalSetq_eq ..
  | defun => exact evalDefun_eq ..
  | cond =>
    simp only [eval, evalCond, check]
    cases clauses operands with
    | ok cs => rfl
    | error other => exact failShowing_eq ..

end Check

theorem mem_of_clauses_error {operands : List Value} {other : Value}
    (h : clauses operands = .error other) : other ∈ operands := by
  fun_induction clauses operands with
  | case1 => cases h
  | case2 test result rest ih =>
    cases hrest : clauses rest with
    | error v =>
      rw [hrest] at h
      cases h
      exact List.mem_cons_of_mem _ (ih hrest)
    | ok cs =>
      rw [hrest] at h
      cases h
  | case3 =>
    cases h
    exact List.mem_cons_self

/-- What the check of the operands can come to. A refusal is a fault of syntax, and what it shows is
an operand or an item of one. -/
inductive Checked : SpecialForm → List Value → Except Refusal Request → Prop
  | quote {v : Value} : Checked .quote [v] (.ok (.quote v))
  | assign {name : String} {e : Value} : Checked .setq [.sym name, e] (.ok (.assign name e))
  | define {name : String} {params : List Value} {body : Value} (hname : isReserved name = false)
      (h : badParam? params = none) (hdistinct : distinct (paramNames params) = true) :
      Checked .defun [.sym name, .list params, body] (.ok (.define name ⟨params, body⟩))
  | select {operands : List Value} {cs : List (Value × Value)} (h : clauses operands = .ok cs) :
      Checked .cond operands (.ok (.select cs))
  | plain {f : SpecialForm} {operands : List Value} {cause : Cause}
      (h : cause.kind = .malformed) : Checked f operands (.error (.plain cause))
  | showing {f : SpecialForm} {operands : List Value} {cause : String → Cause} {v : Value}
      (h : ∀ text, (cause text).kind = .malformed)
      (hv : v ∈ operands ∨ ∃ items, .list items ∈ operands ∧ v ∈ items) :
      Checked f operands (.error (.showing cause v))

theorem checked_defun (operands : List Value) :
    Checked .defun operands (check .defun operands) := by
  rcases operands with _ | ⟨target, _ | ⟨params, _ | ⟨body, _ | ⟨x, rest⟩⟩⟩⟩
  · exact .plain rfl
  · cases target <;> exact .plain rfl
  · cases target <;> exact .plain rfl
  · cases target with
    | sym name =>
      simp only [check]
      by_cases hname : isReserved name
      · rw [if_pos hname]
        exact .plain rfl
      rw [if_neg hname]
      cases params with
      | list params =>
        dsimp only
        cases hbad : badParam? params with
        | some p =>
          exact .showing (fun _ => rfl) (.inr ⟨params, by simp, List.mem_of_find?_eq_some hbad⟩)
        | none =>
          dsimp only
          by_cases hd : distinct (paramNames params)
          · rw [if_pos hd]
            exact .define (by simpa using hname) hbad hd
          · rw [if_neg hd]
            exact .showing (fun _ => rfl) (.inl (by simp))
      | num n => exact .showing (fun _ => rfl) (.inl (by simp))
      | sym name => exact .showing (fun _ => rfl) (.inl (by simp))
      | foreign x => exact .showing (fun _ => rfl) (.inl (by simp))
    | num n => exact .showing (fun _ => rfl) (.inl (by simp))
    | list vs => exact .showing (fun _ => rfl) (.inl (by simp))
    | foreign x => exact .showing (fun _ => rfl) (.inl (by simp))
  · cases target <;> exact .plain rfl

theorem checked (f : SpecialForm) (operands : List Value) :
    Checked f operands (f.check operands) := by
  cases f with
  | quote =>
    rcases operands with _ | ⟨v, _ | ⟨w, rest⟩⟩
    · exact .plain rfl
    · exact .quote
    · exact .plain rfl
  | setq =>
    rcases operands with _ | ⟨target, _ | ⟨e, _ | ⟨x, rest⟩⟩⟩
    · exact .plain rfl
    · cases target <;> exact .plain rfl
    · cases target with
      | sym name => exact .assign
      | num n => exact .showing (fun _ => rfl) (.inl (by simp))
      | list vs => exact .showing (fun _ => rfl) (.inl (by simp))
      | foreign x => exact .showing (fun _ => rfl) (.inl (by simp))
    · cases target <;> exact .plain rfl
  | defun => exact checked_defun operands
  | cond =>
    simp only [check]
    cases hcs : clauses operands with
    | ok cs => exact .select hcs
    | error other => exact .showing (fun _ => rfl) (.inl (mem_of_clauses_error hcs))

theorem of_check_quote {f : SpecialForm} {operands : List Value} {v : Value}
    (h : f.check operands = .ok (.quote v)) : f = .quote ∧ operands = [v] := by
  have hchecked := f.checked operands
  rw [h] at hchecked
  cases hchecked
  exact ⟨rfl, rfl⟩

theorem of_check_assign {f : SpecialForm} {operands : List Value} {name : String} {e : Value}
    (h : f.check operands = .ok (.assign name e)) : f = .setq ∧ operands = [.sym name, e] := by
  have hchecked := f.checked operands
  rw [h] at hchecked
  cases hchecked
  exact ⟨rfl, rfl⟩

theorem of_check_define {f : SpecialForm} {operands : List Value} {name : String} {g : Function}
    (h : f.check operands = .ok (.define name g)) :
    f = .defun ∧ operands = [.sym name, .list g.params, g.body] ∧ badParam? g.params = none := by
  have hchecked := f.checked operands
  rw [h] at hchecked
  cases hchecked with
  | define _ hbad _ => exact ⟨rfl, rfl, hbad⟩

theorem guards_of_check_define {f : SpecialForm} {operands : List Value} {name : String}
    {g : Function} (h : f.check operands = .ok (.define name g)) :
    isReserved name = false ∧ distinct (paramNames g.params) = true := by
  have hchecked := f.checked operands
  rw [h] at hchecked
  cases hchecked with
  | define hname _ hdistinct => exact ⟨hname, hdistinct⟩

theorem of_check_select {f : SpecialForm} {operands : List Value} {cs : List (Value × Value)}
    (h : f.check operands = .ok (.select cs)) : f = .cond ∧ clauses operands = .ok cs := by
  have hchecked := f.checked operands
  rw [h] at hchecked
  cases hchecked with
  | select hcs => exact ⟨rfl, hcs⟩

theorem mem_of_clauses {operands : List Value} {cs : List (Value × Value)}
    (h : clauses operands = .ok cs) {clause : Value × Value} (hmem : clause ∈ cs) :
    .list [clause.1, clause.2] ∈ operands := by
  fun_induction clauses operands generalizing cs with
  | case1 =>
    cases h
    exact absurd hmem List.not_mem_nil
  | case2 test result rest ih =>
    cases hrest : clauses rest with
    | error other =>
      rw [hrest] at h
      cases h
    | ok ds =>
      rw [hrest] at h
      cases h
      rcases List.mem_cons.mp hmem with rfl | hmem
      · exact List.mem_cons_self
      · exact List.mem_cons_of_mem _ (ih hrest hmem)
  | case3 => cases h

end SpecialForm

namespace EvalState

def assign (name : String) (v : Value) (s : EvalState) : EvalState :=
  ⟨s.env.setVariable name v, .assigned name v :: s.log⟩

def define (name : String) (f : Function) (s : EvalState) : EvalState :=
  ⟨s.env.setFunction name f, .defined name f.params :: s.log⟩

/-- The state in which the body of a called function starts. -/
def enter (name : String) (f : Function) (args : List Value) (depth : Int) (s : EvalState) :
    EvalState :=
  ⟨s.env.push (Frame.bindParams f.params args .empty), .called name args depth :: s.log⟩

def leave (s : EvalState) : EvalState := { s with env := s.env.pop }

/-- A body that leaves the frames around its own as they are leaves the caller's environment. -/
theorem env_leave {name : String} {f : Function} {args : List Value} {depth : Int}
    {s s' : EvalState} (h : s'.env.outer = (s.enter name f args depth).env.outer) :
    s'.leave.env = s.env := by
  have houter : s'.env.outer = s.env.frame :: s.env.outer := h
  simp only [leave, Env.pop, houter]

end EvalState

theorem record_ok {l : Listener} {room : Nat} {e : Event} {s : EvalState}
    (h : l.hear room e = .ok ()) : Eval.record l room e s = (.ok (), ⟨s.env, e :: s.log⟩) := by
  unfold Eval.record
  rw [h]
  rfl

theorem record_error {l : Listener} {room : Nat} {e : Event} {x : Escape} {s : EvalState}
    (h : l.hear room e = .error x) : Eval.record l room e s = (.error (.escape x), s) := by
  unfold Eval.record
  rw [h]
  rfl

namespace Request

variable {l : Listener} {room : Nat} {ev : Evaluator} {depth : Int} {name : String} {s : EvalState}

theorem perform_assignFails {e : Value} {err : Failure} {s' : EvalState}
    (h : ev depth e s = (.error err, s')) :
    (assign name e).perform l room ev depth s = (.error err, s') :=
  Run.bind_error h

theorem perform_assignUnheard {e v : Value} {x : Escape} {s' : EvalState}
    (h : ev depth e s = (.ok v, s')) (hhear : l.hear room (.assigned name v) = .error x) :
    (assign name e).perform l room ev depth s = (.error (.escape x), s') :=
  (Run.bind_ok h).trans (Run.bind_error (record_error hhear))

theorem perform_assign {e v : Value} {s' : EvalState} (h : ev depth e s = (.ok v, s'))
    (hhear : l.hear room (.assigned name v) = .ok ()) :
    (assign name e).perform l room ev depth s = (.ok v, s'.assign name v) :=
  (Run.bind_ok h).trans (Run.bind_ok (record_ok hhear))

theorem perform_defineUnheard {f : Function} {x : Escape}
    (hhear : l.hear room (.defined name f.params) = .error x) :
    (define name f).perform l room ev depth s = (.error (.escape x), s) :=
  Run.bind_error (record_error hhear)

theorem perform_define {f : Function} (hhear : l.hear room (.defined name f.params) = .ok ()) :
    (define name f).perform l room ev depth s = (.ok (.sym name), s.define name f) :=
  Run.bind_ok (record_ok hhear)

end Request

end PocketLisp
