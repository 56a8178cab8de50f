import PocketLisp.Proofs.Eval.Course

/-!
Evaluation ends. A run that does not give up for want of host frames comes to the same with more of
them, and there are always frames enough: at a call one call fewer is allowed, and everything else
goes on with a smaller expression. The limit on calls bounds how many bodies are in progress.
-/
namespace PocketLisp

theorem Runs.list_of_all {c : Conditions} {room : Nat} {depth : Int} {es : List Value}
    {s s' : EvalState} {v : Value} (h : Runs c room depth (.all es) s (.ok v, s')) :
    ∃ vs, v = .list vs := by
  cases h with
  | nil => exact ⟨[], rfl⟩
  | cons _ _ => exact ⟨_, rfl⟩

/-- With frames enough, the task comes to an outcome. -/
def Task.Ends (c : Conditions) (depth : Int) (t : Task) (s : EvalState) : Prop :=
  ∃ room r, Runs c room depth t s r ∧ r.1 ≠ .error (.escape .exhausted)

namespace Task.Ends

variable {c : Conditions} {depth : Int}

theorem all {es : List Value} (h : ∀ e ∈ es, ∀ s, Ends c depth (.expr e) s) (s : EvalState) :
    Ends c depth (.all es) s := by
  induction es generalizing s with
  | nil => exact ⟨0, _, .nil, fun he => nomatch he⟩
  | cons e es ih =>
    obtain ⟨room, ⟨err | v, s'⟩, first, hr⟩ := h e List.mem_cons_self s
    · exact ⟨room, _, .firstFails first, hr⟩
    obtain ⟨room', ⟨err | w, s''⟩, rest, hr'⟩ := ih (fun e he => h e (List.mem_cons_of_mem _ he)) s'
    · exact ⟨max room room', _, .restFails (first.more_room hr (Nat.le_max_left ..))
        (rest.more_room hr' (Nat.le_max_right ..)), hr'⟩
    · obtain ⟨vs, rfl⟩ := rest.list_of_all
      exact ⟨max room room', _, .cons (first.more_room hr (Nat.le_max_left ..))
        (rest.more_room hr' (Nat.le_max_right ..)), fun he => nomatch he⟩

theorem clauses {cs : List (Value × Value)}
    (h : ∀ clause ∈ cs, ∀ s, Ends c depth (.expr clause.1) s ∧ Ends c depth (.expr clause.2) s)
    (s : EvalState) : Ends c depth (.clauses cs) s := by
  induction cs generalizing s with
  | nil => exact ⟨0, _, .noClause, fun he => nomatch he⟩
  | cons clause cs ih =>
    obtain ⟨test, result⟩ := clause
    cases htest : SpecialForm.isOtherwise test with
    | true =>
      obtain ⟨room, r, hrun, hr⟩ := (h _ List.mem_cons_self s).2
      exact ⟨room, r, .otherwise htest hrun, hr⟩
    | false =>
      obtain ⟨room, ⟨err | v, s'⟩, first, hr⟩ := (h _ List.mem_cons_self s).1
      · exact ⟨room, _, .testFails htest first, hr⟩
      cases hv : v.isTruthy with
      | true =>
        obtain ⟨room', r, rest, hr'⟩ := (h _ List.mem_cons_self s').2
        exact ⟨max room room', r, .testHolds htest (first.more_room hr (Nat.le_max_left ..)) hv
          (rest.more_room hr' (Nat.le_max_right ..)), hr'⟩
      | false =>
        obtain ⟨room', r, rest, hr'⟩ := ih (fun p hp => h p (List.mem_cons_of_mem _ hp)) s'
        exact ⟨max room room', r, .testDoesNot htest (first.more_room hr (Nat.le_max_left ..)) hv
          (rest.more_room hr' (Nat.le_max_right ..)), hr'⟩

theorem special {name : String} {operands : List Value} {f : SpecialForm}
    (hf : SpecialForm.ofName? name = some f)
    (hoperands : ∀ e ∈ operands, ∀ s, Ends c depth (.expr e) s)
    (hclauses : ∀ test result, .list [test, result] ∈ operands → ∀ s,
      Ends c depth (.expr test) s ∧ Ends c depth (.expr result) s) (s : EvalState) :
    Ends c depth (.form name operands) s := by
  cases hq : f.check operands with
  | error x =>
    obtain ⟨room, hroom⟩ := x.settling_failure.reached
    exact ⟨room, _, .malformed hf hq, fun he => hroom (Except.error.inj he)⟩
  | ok q =>
    cases q with
    | quote v => exact ⟨0, _, .quote hf hq, fun he => nomatch he⟩
    | assign x e =>
      obtain ⟨-, rfl⟩ := SpecialForm.of_check_assign hq
      obtain ⟨room, ⟨err | v, s'⟩, first, hr⟩ := hoperands e (by simp) s
      · exact ⟨room + 1, _, .assignFails hf hq first, hr⟩
      have heard := settling_hear c.listener (.assigned x v)
      obtain ⟨room', hroom'⟩ := heard.reached
      have hmore := first.more_room hr (Nat.le_max_left room room')
      have hsteady := heard.steady (Nat.le_succ_of_le (Nat.le_max_right room room')) hroom'
      cases hhear : c.listener.hear room' (.assigned x v) with
      | error err =>
        exact ⟨max room room' + 1, _, .assignUnheard hf hq hmore (hsteady.trans hhear),
          fun he => hroom' (by rw [hhear, Failure.escape.inj (Except.error.inj he)])⟩
      | ok u =>
        exact ⟨max room room' + 1, _, .assign hf hq hmore (hsteady.trans hhear),
          fun he => nomatch he⟩
    | define x g =>
      obtain ⟨room, hroom⟩ := (settling_hear c.listener (.defined x g.params)).reached
      cases hhear : c.listener.hear room (.defined x g.params) with
      | error err =>
        exact ⟨room, _, .defineUnheard hf hq hhear,
          fun he => hroom (by rw [hhear, Failure.escape.inj (Except.error.inj he)])⟩
      | ok u => exact ⟨room, _, .define hf hq hhear, fun he => nomatch he⟩
    | select cs =>
      have hcs := (SpecialForm.of_check_select hq).2
      obtain ⟨room, r, hrun, hr⟩ := clauses (fun p hp s =>
        hclauses p.1 p.2 (SpecialForm.mem_of_clauses hcs hp) s) s
      exact ⟨room + 1, r, .select hf hq hrun, hr⟩

/-- A call ends if the arguments do, and the bodies at the next depth where calls are allowed. -/
theorem call {name : String} {operands : List Value} (hf : SpecialForm.ofName? name = none)
    (hop : Operator.ofName? name = none)
    (hoperands : ∀ e ∈ operands, ∀ s, Ends c depth (.expr e) s)
    (hbody : depth < c.limit → ∀ e s, Ends c (depth + 1) (.expr e) s) (s : EvalState) :
    Ends c depth (.form name operands) s := by
  cases hfun : s.env.getFunction name with
  | error x => exact ⟨0, _, .undefined hf hop hfun, fun he => nomatch he⟩
  | ok f =>
    obtain ⟨room, ⟨err | w, s'⟩, args, hr⟩ := all hoperands s
    · exact ⟨room + 1, _, .argumentsFail hf hop hfun args, hr⟩
    obtain ⟨vs, rfl⟩ := args.list_of_all
    by_cases hlen : vs.length = f.arity
    case neg => exact ⟨room + 1, _, .arity hf hop hfun args hlen, fun he => nomatch he⟩
    by_cases hdepth : depth < c.limit
    case neg =>
      exact ⟨room + 1, _, .tooDeep hf hop hfun args hlen (Int.not_lt.mp hdepth),
        fun he => nomatch he⟩
    cases hparams : f.params.any Value.isList with
    | true =>
      exact ⟨room + 1, _, .unbindable hf hop hfun args hlen hdepth hparams, fun he => nomatch he⟩
    | false =>
      have heard := settling_hear c.listener (.called name vs (depth + 1))
      obtain ⟨room', hroom'⟩ := heard.reached
      cases hhear : c.listener.hear room' (.called name vs (depth + 1)) with
      | error err =>
        have hmore := args.more_room hr (Nat.le_max_left room room')
        have hsteady := heard.steady (Nat.le_succ_of_le (Nat.le_max_right room room')) hroom'
        exact ⟨max room room' + 1, _,
          .callUnheard hf hop hfun hmore hlen hdepth hparams (hsteady.trans hhear),
          fun he => hroom' (by rw [hhear, Failure.escape.inj (Except.error.inj he)])⟩
      | ok u =>
        obtain ⟨room'', ⟨r, s''⟩, body, hr''⟩ :=
          hbody hdepth f.body (s'.enter name f vs (depth + 1))
        let most := max room (max room' room'')
        have hmore : Runs c most depth (.all operands) s (.ok (.list vs), s') :=
          args.more_room hr (by omega)
        have hsteady := heard.steady (show room' ≤ most + 1 by omega) hroom'
        exact ⟨most + 1, _, .call hf hop hfun hmore hlen hdepth hparams (hsteady.trans hhear)
          (body.more_room hr'' (by omega)), hr''⟩

theorem expr {e : Value} (hsmaller : ∀ e', sizeOf e' < sizeOf e → ∀ s, Ends c depth (.expr e') s)
    (hbody : depth < c.limit → ∀ e s, Ends c (depth + 1) (.expr e) s) (s : EvalState) :
    Ends c depth (.expr e) s := by
  cases e with
  | num n => exact ⟨1, _, .num, fun he => nomatch he⟩
  | sym name => exact ⟨1, _, .sym, fun he => nomatch he⟩
  | foreign x => exact ⟨1, _, .foreign, fun he => nomatch he⟩
  | list items =>
    cases items with
    | nil => exact ⟨1, _, .empty, fun he => nomatch he⟩
    | cons head operands =>
      have named := settling_operatorName head
      obtain ⟨room, hroom⟩ := named.reached
      cases hname : operatorName room head with
      | error x =>
        exact ⟨room + 1, _, .nameless hname,
          fun he => hroom (by rw [hname, Failure.escape.inj (Except.error.inj he)])⟩
      | ok name =>
        have hoperands : ∀ e ∈ operands, ∀ s, Ends c depth (.expr e) s := by
          intro e he
          have := List.sizeOf_lt_of_mem he
          exact hsmaller e (by simp; omega)
        have hform : Ends c depth (.form name operands) s := by
          cases hf : SpecialForm.ofName? name with
          | some f =>
            refine special hf hoperands (fun test result he s => ?_) s
            have := List.sizeOf_lt_of_mem he
            simp only [Value.list.sizeOf_spec, List.cons.sizeOf_spec] at this
            exact ⟨hsmaller test (by simp; omega) s, hsmaller result (by simp; omega) s⟩
          | none =>
            cases hop : Operator.ofName? name with
            | none => exact call hf hop hoperands hbody s
            | some op =>
              obtain ⟨room, ⟨err | w, s'⟩, args, hr⟩ := all hoperands s
              · exact ⟨room, _, .operandsFail hf hop args, hr⟩
              obtain ⟨vs, rfl⟩ := args.list_of_all
              obtain ⟨room', hroom'⟩ := (op.settling_apply vs).reached
              have hsteady := (op.settling_apply vs).steady (Nat.le_max_right room room') hroom'
              exact ⟨max room room', _,
                .operator hf hop (args.more_room hr (Nat.le_max_left ..)), hsteady ▸ hroom'⟩
        obtain ⟨room', ⟨r, s'⟩, hrun, hr⟩ := hform
        have hsteady := named.steady (Nat.le_max_left room room') hroom
        refine ⟨max room room' + 1, _, .form (hsteady.trans hname)
          (hrun.more_room hr (Nat.le_max_right ..)), ?_⟩
        rcases r with (f | x) | v
        · exact fun he => nomatch he
        · exact hr
        · exact fun he => nomatch he

end Task.Ends

/-- Every expression comes to an outcome: by the calls that are still allowed, and for each number
of them by the size of the expression. -/
theorem ends_expr (c : Conditions) (depth : Int) (e : Value) (s : EvalState) :
    Task.Ends c depth (.expr e) s := by
  induction hn : (c.limit - depth).toNat using Nat.strongRecOn generalizing depth e s with
  | ind n ihdepth =>
    induction hsize : sizeOf e using Nat.strongRecOn generalizing e s with
    | ind size ihsize =>
      refine .expr (fun e' he' s => ihsize _ (hsize ▸ he') e' s rfl) (fun hdepth e s => ?_) s
      exact ihdepth (c.limit - (depth + 1)).toNat (by omega) (depth + 1) e s rfl

/-- Evaluation ends, whatever the functions in scope do: there are host frames enough for it to
come to a value or an error, and from then on more of them change neither that nor the state it
leaves. However many frames there are, the bodies in progress at any moment, each of which has a
frame of its own in the environment, are at most as many as the calls that the limit still allows
at the start. -/
theorem evaluate_settles (c : Conditions) (depth : Int) (e : Value) (s : EvalState) :
    (∃ least, (evaluate c least depth e s).1 ≠ .error (.escape .exhausted)) ∧
    (∀ room room', (evaluate c room depth e s).1 ≠ .error (.escape .exhausted) → room ≤ room' →
      evaluate c room' depth e s = evaluate c room depth e s) ∧
    ∀ room, Throughout c room depth e s fun m =>
      ∃ bodies : Nat, m.state.env.outer.length = s.env.outer.length + bodies ∧
        m.depth = depth + bodies ∧ bodies ≤ (c.limit - depth).toNat := by
  refine ⟨?_, ?_, ?_⟩
  · obtain ⟨least, r, hrun, hr⟩ := ends_expr c depth e s
    exact ⟨least, hrun.evaluate_eq ▸ hr⟩
  · intro room room' hr hle
    exact ((runs_evaluate c room depth e s).more_room hr hle).evaluate_eq
  · intro room hook hhook
    let P : Int → Nat → Prop := fun at_ n =>
      ∃ bodies : Nat, n = s.env.outer.length + bodies ∧ at_ = depth + bodies ∧
        bodies ≤ (c.limit - depth).toNat
    refine (runs_evaluate c room depth e s).run_via (P := P)
      (fun ev depth e s h => hhook ev depth e s h) ?_ ⟨0, by omega, by omega, by omega⟩
    rintro at_ n hlt ⟨bodies, hn, hat, hle⟩
    exact ⟨bodies + 1, by omega, by omega, by omega⟩

end PocketLisp
