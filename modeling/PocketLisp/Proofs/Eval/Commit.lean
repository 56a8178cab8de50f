import PocketLisp.Proofs.Eval.Blame

/-!
What an evaluation leaves in its frame, also when it fails. The evaluations that start in that frame
in the course of it, and come to values, are listed in the order in which they do. Those of `setq`
and `defun` forms write one binding each, and nothing else is written: the frame at the end, and at
each return, is that of the start with the writes of the returns so far.
-/
namespace PocketLisp

/-- What a form that has come to a value has itself written. -/
def written (e v : Value) (env : Env) : Env :=
  match e with
  | .list [.sym head, .sym x, _] =>
    if head = SpecialForm.setq.name then env.setVariable x v else env
  | .list [.sym head, .sym x, .list params, body] =>
    if head = SpecialForm.defun.name then env.setFunction x ⟨params, body⟩ else env
  | _ => env

/-- An evaluation that has come to a value: the expression, the value and the state it left. -/
structure Return where
  expr : Value
  value : Value
  state : EvalState

/-- An environment after what returns have written, the first one first. -/
def commit (rets : List Return) (env : Env) : Env :=
  rets.foldl (fun env ret => written ret.expr ret.value env) env

@[simp] theorem commit_nil (env : Env) : commit [] env = env := rfl

@[simp] theorem commit_cons (ret : Return) (rets : List Return) (env : Env) :
    commit (ret :: rets) env = commit rets (written ret.expr ret.value env) := rfl

@[simp] theorem commit_append (rets later : List Return) (env : Env) :
    commit (rets ++ later) env = commit later (commit rets env) := List.foldl_append

/-- Each return has left the environment as the one before it had, but for what it has written. -/
def Chained : Env → List Return → Prop
  | _, [] => True
  | env, ret :: rets =>
    ret.state.env = written ret.expr ret.value env ∧ Chained ret.state.env rets

theorem Chained.append {env : Env} {rets later : List Return} (h : Chained env rets)
    (hlater : Chained (commit rets env) later) : Chained env (rets ++ later) := by
  induction rets generalizing env with
  | nil => exact hlater
  | cons ret rets ih =>
    obtain ⟨hret, hrets⟩ := h
    refine ⟨hret, ih hrets ?_⟩
    rwa [hret]

theorem Chained.state_eq {env : Env} {before later : List Return} {ret : Return}
    (h : Chained env (before ++ ret :: later)) :
    ret.state.env = commit (before ++ [ret]) env := by
  induction before generalizing env with
  | nil => exact h.1
  | cons first before ih =>
    obtain ⟨hfirst, hrest⟩ := h
    rw [ih hrest, hfirst]
    rfl

section Written

open SpecialForm

variable {v : Value} {env : Env}

theorem written_of_ne {name : String} (hsetq : name ≠ SpecialForm.setq.name)
    (hdefun : name ≠ SpecialForm.defun.name) (operands : List Value) :
    written (.list (.sym name :: operands)) v env = env := by
  unfold written
  split <;> simp_all

/-- Only a symbol is the name of a form that writes. -/
theorem written_head {room : Nat} {head : Value} {name : String}
    (hname : operatorName room head = .ok name) (operands : List Value) :
    written (.list (head :: operands)) v env = written (.list (.sym name :: operands)) v env := by
  cases head with
  | sym other =>
    cases hname
    rfl
  | num | list | foreign =>
    symm
    refine written_of_ne ?_ ?_ operands <;>
    · rintro rfl
      cases head_of_operatorName hname

end Written

/-- How much of a task there is to go through before the host frames get fewer. -/
def Task.rank : Task → Nat
  | .expr _ => 0
  | .all es => es.length + 1
  | .clauses cs => cs.length + 1
  | .form _ operands => operands.length + 2

namespace Stage

open SpecialForm

variable {c : Conditions} {p q : Stage}

/-- The runs that a run opens in its own frame, in order: all but that of the body of a function. -/
def parts (c : Conditions) (p : Stage) : List Stage :=
  match p.task with
  | .expr (.list (head :: operands)) =>
    match p.room with
    | 0 => []
    | room + 1 =>
      match operatorName room head with
      | .ok name => [{ p with room := room, task := .form name operands }]
      | .error _ => []
  | .expr _ => []
  | .form name operands =>
    match ofName? name with
    | some f =>
      match f.check operands with
      | .ok (.assign _ e) => [{ p with room := p.room - 1, task := .expr e }]
      | .ok (.select cs) => [{ p with room := p.room - 1, task := .clauses cs }]
      | _ => []
    | none =>
      match Operator.ofName? name with
      | some _ => [{ p with task := .all operands }]
      | none =>
        match p.state.env.getFunction name with
        | .ok _ => [{ p with room := p.room - 1, task := .all operands }]
        | .error _ => []
  | .all [] => []
  | .all (e :: es) =>
    { p with task := .expr e } ::
      match evaluate c p.room p.depth e p.state with
      | (.ok _, s) => [{ p with task := .all es, state := s }]
      | (.error _, _) => []
  | .clauses [] => []
  | .clauses ((test, result) :: cs) =>
    if isOtherwise test then [{ p with task := .expr result }]
    else { p with task := .expr test } ::
      match evaluate c p.room p.depth test p.state with
      | (.ok v, s) =>
        if v.isTruthy then [{ p with task := .expr result, state := s }]
        else [{ p with task := .clauses cs, state := s }]
      | (.error _, _) => []

theorem parts_exhausted {depth : Int} (e : Value) {s : EvalState} :
    parts c ⟨0, depth, .expr e, s⟩ = [] := by
  rcases e with _ | _ | (_ | _) | _ <;> rfl

/-- A run comes closer to the end of the host frames or of its task. -/
theorem Opens.descends (h : p.Opens c q) :
    Prod.Lex (· < ·) (· < ·) (q.room, q.task.rank) (p.room, p.task.rank) := by
  -- when there are no frames left, it is the task that gets smaller
  have part : ∀ {room m n : Nat}, m < n →
      Prod.Lex (· < ·) (· < ·) (room - 1, m) (room, n) := by
    intro room m n hmn
    cases room with
    | zero => exact .right _ hmn
    | succ room => exact .left _ _ (Nat.lt_succ_self room)
  cases h with
  | form => exact .left _ _ (Nat.lt_succ_self _)
  | assigned | body => exact part (Nat.succ_pos _)
  | selected _ hq =>
    refine part ?_
    obtain ⟨-, hcs⟩ := of_check_select hq
    simp [map_of_clauses hcs, Task.rank]
  | operands => exact .right _ (Nat.lt_succ_self _)
  | arguments => exact part (Nat.lt_succ_self _)
  | first | otherwise | test | result => exact .right _ (Nat.succ_pos _)
  | rest | later => exact .right _ (Nat.lt_succ_self _)

theorem opens_of_mem_parts (h : q ∈ p.parts c) :
    p.Opens c q ∧ q.state.env.outer = p.state.env.outer := by
  obtain ⟨room, depth, task, s⟩ := p
  cases task with
  | expr e =>
    rcases e with _ | _ | (_ | ⟨head, operands⟩) | _
    case list.cons =>
      cases room with
      | zero => simp [parts] at h
      | succ room =>
        cases hname : operatorName room head with
        | error x => simp [parts, hname] at h
        | ok name =>
          obtain rfl : q = ⟨room, depth, .form name operands, s⟩ := by simpa [parts, hname] using h
          exact ⟨.form hname, rfl⟩
    all_goals simp [parts] at h
  | form name operands =>
    cases hf : ofName? name with
    | some f =>
      cases hq : f.check operands with
      | error x => simp [parts, hf, hq] at h
      | ok request =>
        cases request with
        | quote v | define x g => simp [parts, hf, hq] at h
        | assign x e =>
          obtain rfl : q = ⟨room - 1, depth, .expr e, s⟩ := by simpa [parts, hf, hq] using h
          exact ⟨.assigned hf hq, rfl⟩
        | select cs =>
          obtain rfl : q = ⟨room - 1, depth, .clauses cs, s⟩ := by simpa [parts, hf, hq] using h
          exact ⟨.selected hf hq, rfl⟩
    | none =>
      cases hop : Operator.ofName? name with
      | some op =>
        obtain rfl : q = ⟨room, depth, .all operands, s⟩ := by simpa [parts, hf, hop] using h
        exact ⟨.operands hf hop, rfl⟩
      | none =>
        cases hfun : s.env.getFunction name with
        | error x => simp [parts, hf, hop, hfun] at h
        | ok f =>
          obtain rfl : q = ⟨room - 1, depth, .all operands, s⟩ := by
            simpa [parts, hf, hop, hfun] using h
          exact ⟨.arguments hf hop hfun, rfl⟩
  | all es =>
    cases es with
    | nil => simp [parts] at h
    | cons e es =>
      rcases he : evaluate c room depth e s with ⟨err | v, s'⟩
      · obtain rfl : q = ⟨room, depth, .expr e, s⟩ := by simpa [parts, he] using h
        exact ⟨.first, rfl⟩
      · rcases (by simpa [parts, he] using h :
          q = ⟨room, depth, .expr e, s⟩ ∨ q = ⟨room, depth, .all es, s'⟩) with rfl | rfl
        · exact ⟨.first, rfl⟩
        · have hruns := he ▸ runs_evaluate c room depth e s
          exact ⟨.rest hruns, hruns.outer_eq⟩
  | clauses cs =>
    rcases cs with _ | ⟨⟨test, result⟩, cs⟩
    case nil => simp [parts] at h
    cases htest : isOtherwise test with
    | true =>
      obtain rfl : q = ⟨room, depth, .expr result, s⟩ := by simpa [parts, htest] using h
      exact ⟨.otherwise htest, rfl⟩
    | false =>
      rcases he : evaluate c room depth test s with ⟨err | v, s'⟩
      · obtain rfl : q = ⟨room, depth, .expr test, s⟩ := by simpa [parts, htest, he] using h
        exact ⟨.test htest, rfl⟩
      · have hruns := he ▸ runs_evaluate c room depth test s
        cases hv : v.isTruthy with
        | true =>
          rcases (by simpa [parts, htest, he, hv] using h :
            q = ⟨room, depth, .expr test, s⟩ ∨ q = ⟨room, depth, .expr result, s'⟩) with rfl | rfl
          · exact ⟨.test htest, rfl⟩
          · exact ⟨.result htest hruns hv, hruns.outer_eq⟩
        | false =>
          rcases (by simpa [parts, htest, he, hv] using h :
            q = ⟨room, depth, .expr test, s⟩ ∨ q = ⟨room, depth, .clauses cs, s'⟩) with rfl | rfl
          · exact ⟨.test htest, rfl⟩
          · exact ⟨.later htest hruns hv, hruns.outer_eq⟩

/-- A run opens its parts, and besides them the body of a function, in a frame inside its own. -/
theorem Opens.mem_parts (h : p.Opens c q) : q ∈ p.parts c ∧ q.state.env.outer = p.state.env.outer ∨
    p.state.env.outer.length < q.state.env.outer.length := by
  cases h with
  | form hname => exact .inl ⟨by simp [parts, hname], rfl⟩
  | assigned hf hq => exact .inl ⟨by simp [parts, hf, hq], rfl⟩
  | selected hf hq => exact .inl ⟨by simp [parts, hf, hq], rfl⟩
  | operands hf hop => exact .inl ⟨by simp [parts, hf, hop], rfl⟩
  | arguments hf hop hfun => exact .inl ⟨by simp [parts, hf, hop, hfun], rfl⟩
  | body _ _ _ h =>
    exact .inr (by simp [EvalState.enter, Env.push, Env.frames, ← h.outer_eq])
  | @first room depth e es s =>
    exact .inl ⟨by simp [parts], rfl⟩
  | rest h => exact .inl ⟨by simp [parts, h.evaluate_eq], h.outer_eq⟩
  | otherwise htest => exact .inl ⟨by simp [parts, htest], rfl⟩
  | test htest => exact .inl ⟨by simp [parts, htest], rfl⟩
  | result htest h hv =>
    exact .inl ⟨by simp [parts, htest, h.evaluate_eq, hv], h.outer_eq⟩
  | later htest h hv =>
    exact .inl ⟨by simp [parts, htest, h.evaluate_eq, hv], h.outer_eq⟩

/-- What a run itself adds to the returns: that of its expression. -/
def own (c : Conditions) (p : Stage) : List Return :=
  match p.task, p.outcome c with
  | .expr e, (.ok v, s) => [⟨e, v, s⟩]
  | _, _ => []

/-- The evaluations that have come to values in the frame of a run, in the order in which they have
done so. -/
def returns (c : Conditions) (p : Stage) : List Return :=
  (p.parts c).attach.flatMap (fun q => q.val.returns c) ++ p.own c
termination_by (p.room, p.task.rank)
decreasing_by exact (opens_of_mem_parts q.property).1.descends

theorem returns_eq (c : Conditions) (p : Stage) :
    p.returns c = (p.parts c).flatMap (returns c) ++ p.own c := by
  rw [returns, List.flatMap_subtype (g := returns c) fun _ _ => rfl, List.unattach_attach]

section Own

variable {room : Nat} {depth : Int} {e v : Value} {s s' : EvalState} {err : Failure}

theorem own_of_ok (h : Runs c room depth (.expr e) s (.ok v, s')) :
    own c ⟨room, depth, .expr e, s⟩ = [⟨e, v, s'⟩] := by
  simp only [own, outcome_eq (p := ⟨room, depth, .expr e, s⟩) h]

theorem own_of_error (h : Runs c room depth (.expr e) s (.error err, s')) :
    own c ⟨room, depth, .expr e, s⟩ = [] := by
  simp only [own, outcome_eq (p := ⟨room, depth, .expr e, s⟩) h]

end Own

end Stage

/-- What a task has itself written when it has come to this: only that of a form is not that of
parts. -/
def Task.effect : Task → Except Failure Value → Env → Env
  | .form name operands, .ok v, env => written (.list (.sym name :: operands)) v env
  | _, _, env => env

theorem Task.effect_of_ne {name : String} (hsetq : name ≠ SpecialForm.setq.name)
    (hdefun : name ≠ SpecialForm.defun.name) (operands : List Value) (r : Except Failure Value)
    (env : Env) : (Task.form name operands).effect r env = env := by
  cases r with
  | error err => rfl
  | ok v => exact written_of_ne hsetq hdefun operands

theorem Task.effect_of_ofName?_eq_none {name : String} (h : SpecialForm.ofName? name = none)
    (operands : List Value) (r : Except Failure Value) (env : Env) :
    (Task.form name operands).effect r env = env := by
  refine effect_of_ne ?_ ?_ operands r env <;>
  · rintro rfl
    cases h.symm.trans (SpecialForm.ofName?_name _)

/-- The outcome of a run is what its returns say. -/
structure Stage.Documents (c : Conditions) (p : Stage) (r : Except Failure Value × EvalState) :
    Prop where
  env : r.2.env = p.task.effect r.1 (commit (p.returns c) p.state.env)
  chained : Chained p.state.env (p.returns c)

namespace Stage.Documents

variable {c : Conditions} {p q q' : Stage} {r r' : Except Failure Value × EvalState}

theorem idle (hparts : p.parts c = []) (hown : p.own c = [])
    (henv : r.2.env = p.task.effect r.1 p.state.env) : Documents c p r := by
  have hreturns : p.returns c = [] := by simp [returns_eq, hparts, hown]
  exact ⟨by simp [hreturns, henv], by simp [hreturns, Chained]⟩

theorem leaf {room : Nat} {depth : Int} {e v : Value} {s : EvalState}
    (h : Runs c room depth (.expr e) s (.ok v, s)) (hparts : parts c ⟨room, depth, .expr e, s⟩ = [])
    (hwritten : ∀ env, written e v env = env) :
    Documents c ⟨room, depth, .expr e, s⟩ (.ok v, s) := by
  have hreturns : returns c ⟨room, depth, .expr e, s⟩ = [⟨e, v, s⟩] := by
    simp [returns_eq, hparts, own_of_ok h]
  exact ⟨by simp [hreturns, hwritten, Task.effect], by simp [hreturns, Chained, hwritten]⟩

theorem form {room : Nat} {depth : Int} {head v : Value} {operands : List Value} {name : String}
    {s s' : EvalState} (hname : operatorName room head = .ok name)
    (hruns : Runs c room depth (.form name operands) s (.ok v, s'))
    (h : Documents c ⟨room, depth, .form name operands, s⟩ (.ok v, s')) :
    Documents c ⟨room + 1, depth, .expr (.list (head :: operands)), s⟩ (.ok v, s') := by
  let q : Stage := ⟨room, depth, .form name operands, s⟩
  have hreturns : returns c ⟨room + 1, depth, .expr (.list (head :: operands)), s⟩ =
      returns c q ++ [⟨.list (head :: operands), v, s'⟩] := by
    rw [returns_eq, own_of_ok (.form hname hruns)]
    simp [parts, hname, q]
  have henv : s'.env = written (.list (head :: operands)) v (commit (returns c q) s.env) := by
    rw [written_head hname]
    exact h.env
  refine ⟨?_, ?_⟩
  · rw [hreturns, commit_append]
    exact henv
  · rw [hreturns]
    exact h.chained.append ⟨henv, trivial⟩

theorem single (hparts : p.parts c = [q]) (hown : p.own c = []) (h : Documents c q r')
    (hstart : q.state = p.state) (henv : r.2.env = p.task.effect r.1 r'.2.env)
    (heffect : ∀ env, q.task.effect r'.1 env = env) : Documents c p r := by
  have hreturns : p.returns c = q.returns c := by
    rw [returns_eq]
    simp [hparts, hown]
  refine ⟨?_, hreturns ▸ hstart ▸ h.chained⟩
  rw [henv, h.env, heffect, hreturns, hstart]

/-- A run with two parts, the second of which goes on where the first ends. -/
theorem double {r'' : Except Failure Value × EvalState} (hparts : p.parts c = [q, q'])
    (hown : p.own c = []) (h : Documents c q r') (h' : Documents c q' r'')
    (hstart : q.state = p.state) (hgoes : q'.state = r'.2)
    (heffect : ∀ env, q.task.effect r'.1 env = env)
    (heffect' : ∀ env, q'.task.effect r''.1 env = env) (henv : r.2.env = r''.2.env)
    (hown' : ∀ env, p.task.effect r.1 env = env) : Documents c p r := by
  have hreturns : p.returns c = q.returns c ++ q'.returns c := by
    rw [returns_eq]
    simp [hparts, hown]
  have hmid : q'.state.env = commit (q.returns c) p.state.env := by
    rw [hgoes, h.env, heffect, hstart]
  constructor
  · rw [henv, h'.env, heffect', hown', hreturns, commit_append, hmid]
  · rw [hreturns]
    exact (hstart ▸ h.chained).append (hmid ▸ h'.chained)

end Stage.Documents

open SpecialForm Stage in
/-- What a run leaves is what its returns have written. -/
theorem Runs.documented {c : Conditions} {room : Nat} {depth : Int} {t : Task} {s : EvalState}
    {r : Except Failure Value × EvalState} (h : Runs c room depth t s r) :
    Documents c ⟨room, depth, t, s⟩ r := by
  -- the rules for expressions add the returns, those for `setq` and `defun` alone have an effect
  induction h with
  | @exhausted _ e _ =>
    exact .idle (parts_exhausted e) (own_of_error .exhausted) rfl
  | num => exact .leaf .num rfl fun _ => rfl
  | sym => exact .leaf .sym rfl fun _ => rfl
  | empty => exact .leaf .empty rfl fun _ => rfl
  | foreign => exact .idle rfl (own_of_error .foreign) rfl
  | nameless hname =>
    exact .idle (by simp [parts, hname]) (own_of_error (.nameless hname)) rfl
  | @form _ _ _ _ _ _ r _ hname h ih =>
    rcases r with (f | x) | v
    · exact .single (by simp [parts, hname]) (own_of_error (.form hname h)) ih rfl rfl fun _ => rfl
    · exact .single (by simp [parts, hname]) (own_of_error (.form hname h)) ih rfl rfl fun _ => rfl
    · exact .form hname h ih
  | malformed hf hq =>
    exact .idle (by simp [parts, hf, hq]) rfl rfl
  | quote hf hq =>
    obtain ⟨rfl, -⟩ := of_check_quote hq
    refine .idle (by simp [parts, hf, hq]) rfl ?_
    obtain rfl := name_of_ofName? hf
    exact (Task.effect_of_ne (by decide) (by decide) _ _ _).symm
  | assignFails hf hq _ ih =>
    exact .single (by simp [parts, hf, hq]) rfl ih rfl rfl fun _ => rfl
  | assignUnheard hf hq _ _ ih =>
    exact .single (by simp [parts, hf, hq]) rfl ih rfl rfl fun _ => rfl
  | assign hf hq _ _ ih =>
    refine .single (by simp [parts, hf, hq]) rfl ih rfl ?_ fun _ => rfl
    obtain ⟨rfl, rfl⟩ := of_check_assign hq
    obtain rfl := name_of_ofName? hf
    rfl
  | defineUnheard hf hq _ => exact .idle (by simp [parts, hf, hq]) rfl rfl
  | define hf hq _ =>
    refine .idle (by simp [parts, hf, hq]) rfl ?_
    obtain ⟨rfl, rfl, -⟩ := of_check_define hq
    obtain rfl := name_of_ofName? hf
    rfl
  | select hf hq _ ih =>
    refine .single (by simp [parts, hf, hq]) rfl ih rfl ?_ fun _ => rfl
    obtain ⟨rfl, -⟩ := of_check_select hq
    obtain rfl := name_of_ofName? hf
    exact (Task.effect_of_ne (by decide) (by decide) _ _ _).symm
  | operandsFail hf hop _ ih =>
    exact .single (by simp [parts, hf, hop]) rfl ih rfl rfl fun _ => rfl
  | operator hf hop _ ih =>
    refine .single (by simp [parts, hf, hop]) rfl ih rfl ?_ fun _ => rfl
    exact (Task.effect_of_ofName?_eq_none hf _ _ _).symm
  | undefined hf hop hfun => exact .idle (by simp [parts, hf, hop, hfun]) rfl rfl
  | argumentsFail hf hop hfun _ ih =>
    exact .single (by simp [parts, hf, hop, hfun]) rfl ih rfl rfl fun _ => rfl
  | arity hf hop hfun _ _ ih =>
    exact .single (by simp [parts, hf, hop, hfun]) rfl ih rfl rfl fun _ => rfl
  | tooDeep hf hop hfun _ _ _ ih =>
    exact .single (by simp [parts, hf, hop, hfun]) rfl ih rfl rfl fun _ => rfl
  | unbindable hf hop hfun _ _ _ _ ih =>
    exact .single (by simp [parts, hf, hop, hfun]) rfl ih rfl rfl fun _ => rfl
  | callUnheard hf hop hfun _ _ _ _ _ ih =>
    exact .single (by simp [parts, hf, hop, hfun]) rfl ih rfl rfl fun _ => rfl
  | call hf hop hfun _ _ _ _ _ hbody ih _ =>
    refine .single (by simp [parts, hf, hop, hfun]) rfl ih rfl ?_ fun _ => rfl
    rw [Task.effect_of_ofName?_eq_none hf]
    exact EvalState.env_leave hbody.outer_eq
  | nil => exact .idle rfl rfl rfl
  | firstFails h ih =>
    exact .single (by simp [parts, h.evaluate_eq]) rfl ih rfl rfl fun _ => rfl
  | restFails h _ ih ihs =>
    exact .double (by simp [parts, h.evaluate_eq]) rfl ih ihs rfl rfl (fun _ => rfl)
      (fun _ => rfl) rfl fun _ => rfl
  | cons h _ ih ihs =>
    exact .double (by simp [parts, h.evaluate_eq]) rfl ih ihs rfl rfl (fun _ => rfl)
      (fun _ => rfl) rfl fun _ => rfl
  | noClause => exact .idle rfl rfl rfl
  | otherwise htest _ ih => exact .single (by simp [parts, htest]) rfl ih rfl rfl fun _ => rfl
  | testFails htest h ih =>
    exact .single (by simp [parts, htest, h.evaluate_eq]) rfl ih rfl rfl fun _ => rfl
  | testHolds htest h hv _ ih ihr =>
    exact .double (by simp [parts, htest, h.evaluate_eq, hv]) rfl ih ihr rfl rfl (fun _ => rfl)
      (fun _ => rfl) rfl fun _ => rfl
  | testDoesNot htest h hv _ ih ihr =>
    exact .double (by simp [parts, htest, h.evaluate_eq, hv]) rfl ih ihr rfl rfl (fun _ => rfl)
      (fun _ => rfl) rfl fun _ => rfl

namespace Stage

variable {c : Conditions} {p q : Stage}

theorem Reaches.length_outer_le (h : p.Reaches c q) :
    p.state.env.outer.length ≤ q.state.env.outer.length := by
  induction h with
  | refl => exact Nat.le_refl _
  | tail _ hopens ih =>
    rcases hopens.mem_parts with ⟨-, houter⟩ | hlt
    · rwa [houter]
    · exact Nat.le_of_lt (Nat.lt_of_le_of_lt ih hlt)

theorem mem_own_iff {ret : Return} : ret ∈ q.own c ↔ q.task = .expr ret.expr ∧
    evaluate c q.room q.depth ret.expr q.state = (.ok ret.value, ret.state) := by
  obtain ⟨room, depth, task, s⟩ := q
  cases task with
  | form | all | clauses => simp [own]
  | expr e =>
    have hruns := runs_evaluate c room depth e s
    rcases he : evaluate c room depth e s with ⟨err | v, s'⟩
    · rw [own_of_error (he ▸ hruns)]
      simp only [List.not_mem_nil, false_iff, not_and]
      rintro hexpr hok
      cases hexpr
      cases he.symm.trans hok
    · rw [own_of_ok (he ▸ hruns), List.mem_singleton]
      constructor
      · rintro rfl
        exact ⟨rfl, he⟩
      · rintro ⟨hexpr, hok⟩
        obtain ⟨e', v', t⟩ := ret
        cases hexpr
        cases he.symm.trans hok
        rfl

/-- The returns of a run are those of all runs in its frame that it reaches. -/
theorem mem_returns_iff {ret : Return} : ret ∈ p.returns c ↔
    ∃ q, Reaches c p q ∧ q.state.env.outer = p.state.env.outer ∧ ret ∈ q.own c := by
  constructor
  · intro h
    induction p using returns.induct c with
    | case1 p ih =>
      rw [returns_eq] at h
      rcases List.mem_append.mp h with h | h
      · obtain ⟨q, hq, h⟩ := List.mem_flatMap.mp h
        obtain ⟨hopens, houter⟩ := opens_of_mem_parts hq
        obtain ⟨q', hreach, houter', hown⟩ := ih ⟨q, hq⟩ h
        exact ⟨q', hreach.head hopens, houter'.trans houter, hown⟩
      · exact ⟨p, .refl, rfl, h⟩
  · rintro ⟨q, hreach, houter, hown⟩
    induction hreach using Relation.ReflTransGen.head_induction_on with
    | refl =>
      rw [returns_eq]
      exact List.mem_append_right _ hown
    | @head p p' hopens hrest ih =>
      rw [returns_eq]
      rcases hopens.mem_parts with ⟨hmem, hsame⟩ | hlt
      · exact List.mem_append_left _ (List.mem_flatMap.mpr ⟨p', hmem, ih (houter.trans hsame.symm)⟩)
      · -- inside the body of a function there is a frame more around
        have hle := Reaches.length_outer_le hrest
        rw [houter] at hle
        exact absurd hlt (Nat.not_lt.mpr hle)

end Stage

section Untouched

variable (c : Conditions) (room : Nat) (depth : Int) {s : EvalState}

theorem exists_blamed_error (form : Value) (err : Failure) :
    ∃ e, blamed form (.error err) = .error e := by
  cases err <;> exact ⟨_, rfl⟩

theorem evaluate_of_form_error {head : Value} {name : String} {operands : List Value}
    {err : Failure} (hname : operatorName (room - 1) head = .ok name)
    (h : Runs c (room - 1) depth (.form name operands) s (.error err, s)) :
    ∃ e, evaluate c room depth (.list (head :: operands)) s = (.error e, s) := by
  cases room with
  | zero => exact ⟨_, rfl⟩
  | succ room =>
    obtain ⟨e, he⟩ := exists_blamed_error (.list (head :: operands)) err
    exact ⟨e, (Runs.form hname h).evaluate_eq.trans (by rw [he])⟩

theorem evaluate_of_malformed {f : SpecialForm} {operands : List Value}
    (h : Malformed f operands) :
    ∃ e, evaluate c room depth (.list (.sym f.name :: operands)) s = (.error e, s) := by
  obtain ⟨x, hx⟩ := SpecialForm.check_of_malformed h
  exact evaluate_of_form_error c room depth rfl (.malformed (SpecialForm.ofName?_name f) hx)

theorem evaluate_of_unbound {head : Value} {name : String} {operands : List Value}
    (hname : operatorName (room - 1) head = .ok name) (hreserved : isReserved name = false)
    (h : Unbound Frame.functions name s.env.frames) :
    ∃ e, evaluate c room depth (.list (head :: operands)) s = (.error e, s) := by
  obtain ⟨hop, hf⟩ : Operator.ofName? name = none ∧ SpecialForm.ofName? name = none := by
    simpa [isReserved] using hreserved
  have hnone : s.env.functionOf? name = none := unbound_iff.mp h
  obtain ⟨x, hfun⟩ : ∃ x, s.env.getFunction name = .error x := by
    rw [Env.getFunction, hnone]
    exact ⟨_, rfl⟩
  exact evaluate_of_form_error c room depth hname (.undefined hf hop hfun)

theorem env_evaluate_setq {x : String} {e : Value} {err : Failure}
    (h : (evaluate c room depth (.list [.sym "setq", .sym x, e]) s).1 = .error err) :
    (evaluate c room depth (.list [.sym "setq", .sym x, e]) s).2.env =
      (evaluate c (room - 2) depth e s).2.env := by
  cases room with
  | zero => rfl
  | succ room =>
    have hf := SpecialForm.ofName?_name .setq
    have hruns := runs_evaluate c (room - 1) depth e s
    have hform : ∀ {r s'}, Runs c room depth (.form "setq" [.sym x, e]) s (r, s') →
        evaluate c (room + 1) depth (.list [.sym "setq", .sym x, e]) s = (blamed _ r, s') :=
      fun hrun => (Runs.form rfl hrun).evaluate_eq
    rcases he : evaluate c (room - 1) depth e s with ⟨err' | v, s'⟩
    · rw [he] at hruns
      rw [hform (.assignFails hf rfl hruns)]
      exact congrArg (fun r => r.2.env) he.symm
    · rw [he] at hruns
      cases hhear : c.listener.hear room (.assigned x v) with
      | error y =>
        rw [hform (.assignUnheard hf rfl hruns hhear)]
        exact congrArg (fun r => r.2.env) he.symm
      | ok =>
        rw [hform (.assign hf rfl hruns hhear)] at h
        cases h

theorem SpecialForm.ofName?_operator (op : Operator) : ofName? op.name = none := by
  cases op <;> decide

theorem env_evaluate_operator {head : Value} {op : Operator} {operands : List Value}
    (hname : operatorName (room - 1) head = .ok op.name) :
    (evaluate c room depth (.list (head :: operands)) s).2.env =
      (Eval.sequence (evaluate c (room - 1) depth) operands s).2.env := by
  cases room with
  | zero => exact congrArg EvalState.env (sequence_exhausted c depth operands s).symm
  | succ room =>
    have hname : operatorName room head = .ok op.name := hname
    rw [evaluate_succ, evalStep_form hname,
      evalForm_operator (SpecialForm.ofName?_operator op) (Operator.ofName?_name op)]
    rw [Nat.add_sub_cancel]
    rcases hs : Eval.sequence (evaluate c room depth) operands s with ⟨err | vs, s'⟩
    · rw [Run.bind_error hs]
    · rw [Run.bind_ok hs, ofExcept_apply]

end Untouched

open Stage

/-- An evaluation, be it one that fails, leaves the environment with the writes of the `setq` and
`defun` forms that have come to values in its frame, in this order, and with no others; and each of
them left it with the writes up to its own. In particular, malformed special forms and calls of
functions that are bound nowhere leave all as it is, an assignment that fails leaves what the
expression for the value leaves, and operators and calls leave what their operands leave. -/
theorem evaluate_commits_returns (c : Conditions) (room : Nat) (depth : Int) (s : EvalState) :
    (∀ e : Value, let done := returns c ⟨room, depth, .expr e, s⟩
      (evaluate c room depth e s).2.env = commit done s.env ∧
      (∀ before ret later, done = before ++ ret :: later →
        ret.state.env = commit (before ++ [ret]) s.env) ∧
      ∀ ret, ret ∈ done ↔ ∃ q, Reaches c ⟨room, depth, .expr e, s⟩ q ∧
        q.state.env.outer = s.env.outer ∧ q.task = .expr ret.expr ∧
        evaluate c q.room q.depth ret.expr q.state = (.ok ret.value, ret.state)) ∧
    (∀ (f : SpecialForm) (operands : List Value), Malformed f operands →
      ∃ err, evaluate c room depth (.list (.sym f.name :: operands)) s = (.error err, s)) ∧
    (∀ (head : Value) (name : String) (operands : List Value),
      operatorName (room - 1) head = .ok name → isReserved name = false →
      Unbound Frame.functions name s.env.frames →
      ∃ err, evaluate c room depth (.list (head :: operands)) s = (.error err, s)) ∧
    (∀ (x : String) (e : Value) (err : Failure),
      (evaluate c room depth (.list [.sym "setq", .sym x, e]) s).1 = .error err →
      (evaluate c room depth (.list [.sym "setq", .sym x, e]) s).2.env =
        (evaluate c (room - 2) depth e s).2.env) ∧
    (∀ (head : Value) (op : Operator) (operands : List Value),
      operatorName (room - 1) head = .ok op.name →
      (evaluate c room depth (.list (head :: operands)) s).2.env =
        (Eval.sequence (evaluate c (room - 1) depth) operands s).2.env) ∧
    ∀ (head : Value) (name : String) (f : Function) (operands : List Value),
      operatorName (room - 1) head = .ok name → isReserved name = false →
      s.env.getFunction name = .ok f →
      (evaluate c room depth (.list (head :: operands)) s).2.env =
        (Eval.sequence (evaluate c (room - 2) depth) operands s).2.env := by
  refine ⟨fun e => ?_, fun _ _ => evaluate_of_malformed c room depth,
    fun _ _ _ => evaluate_of_unbound c room depth, fun _ _ _ => env_evaluate_setq c room depth,
    fun _ _ _ => env_evaluate_operator c room depth,
    fun _ _ _ _ => env_evaluate_call c room depth⟩
  have hdocuments := (runs_evaluate c room depth e s).documented
  refine ⟨hdocuments.env, fun before ret later hdone => ?_, fun ret => ?_⟩
  · exact (hdone ▸ hdocuments.chained).state_eq
  · simp only [mem_returns_iff, mem_own_iff]

end PocketLisp
