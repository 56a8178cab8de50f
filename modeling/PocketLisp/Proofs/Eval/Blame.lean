import PocketLisp.Proofs.Eval.Closure
import PocketLisp.Proofs.Eval.Refinement

/-!
The form that a fault blames. A run fails with what it has opened, and an expression is blamed for a
fault that blames nothing yet; so a fault that blames something goes through every run around it as
it is. It comes from a form that fails of itself, when all that was evaluated for it has come to
values, and blames that form, or the name of the function if there is no such function.
-/
namespace PocketLisp

/-- A failure as a task hands it on: an expression is blamed for a fault that blames nothing yet. -/
def Task.handOn : Task → Failure → Failure
  | .expr e, .fault f => .fault (f.blame e)
  | _, err => err

theorem Fault.kind_blame (form : Value) (f : Fault) : (f.blame form).kind = f.kind := by
  rw [kind, cause_blame, kind]

theorem Fault.form_blame_of_none {form : Value} {f : Fault} (h : f.form = none) :
    (f.blame form).form = some form := by
  simp [blame, h]

namespace Stage

def outcome (c : Conditions) (p : Stage) : Except Failure Value × EvalState :=
  p.task.run c (evaluate c) p.room p.depth p.state

def Returns (c : Conditions) (p : Stage) : Prop := ∃ v s, p.outcome c = (.ok v, s)

section Outcome

variable {c : Conditions} {p q : Stage}

theorem runs_outcome (c : Conditions) (p : Stage) :
    Runs c p.room p.depth p.task p.state (p.outcome c) := by
  obtain ⟨room, depth, task, s⟩ := p
  cases task with
  | expr e => exact runs_evaluate c room depth e s
  | form name operands =>
    exact .of_evalForm (runs_evaluate c room depth) (runs_evaluate c (room - 1)) name operands s
  | clauses cs => exact .of_firstMatch (runs_evaluate c room depth) cs s
  | all es =>
    have h := Runs.of_sequence (runs_evaluate c room depth) es s
    rcases hs : Eval.sequence (evaluate c room depth) es s with ⟨err | vs, s'⟩
    · rw [hs] at h
      rwa [show outcome c ⟨room, depth, .all es, s⟩ = (.error err, s') from Run.bind_error hs]
    · rw [hs] at h
      rwa [show outcome c ⟨room, depth, .all es, s⟩ = (.ok (.list vs), s') from Run.bind_ok hs]

theorem outcome_eq {r : Except Failure Value × EvalState}
    (h : Runs c p.room p.depth p.task p.state r) : p.outcome c = r := by
  have hrun : p.task.run c (evaluateVia c id) p.room p.depth p.state = r :=
    h.run_via (P := fun _ _ => True) (fun _ _ _ _ _ => rfl) (fun _ _ _ _ => trivial) trivial
  rwa [funext (evaluateVia_id c)] at hrun

theorem Opens.outcome_error (h : p.Opens c q) {err : Failure} {s : EvalState}
    (hq : q.outcome c = (.error err, s)) :
    ∃ s', p.outcome c = (.error (p.task.handOn err), s') := by
  have hruns := q.runs_outcome c
  rw [hq] at hruns
  cases h with
  | form hname =>
    refine ⟨s, outcome_eq ?_⟩
    have hform := Runs.form hname hruns
    cases err <;> exact hform
  | assigned hf hcheck => exact ⟨_, outcome_eq (.assignFails hf hcheck hruns)⟩
  | selected hf hcheck => exact ⟨_, outcome_eq (.select hf hcheck hruns)⟩
  | operands hf hop => exact ⟨_, outcome_eq (.operandsFail hf hop hruns)⟩
  | arguments hf hop hfun => exact ⟨_, outcome_eq (.argumentsFail hf hop hfun hruns)⟩
  | body hf hop hfun h hlen hdepth hparams hhear =>
    exact ⟨_, outcome_eq (.call hf hop hfun h hlen hdepth hparams hhear hruns)⟩
  | first => exact ⟨_, outcome_eq (.firstFails hruns)⟩
  | rest h => exact ⟨_, outcome_eq (.restFails h hruns)⟩
  | otherwise htest => exact ⟨_, outcome_eq (.otherwise htest hruns)⟩
  | test htest => exact ⟨_, outcome_eq (.testFails htest hruns)⟩
  | result htest h hv => exact ⟨_, outcome_eq (.testHolds htest h hv hruns)⟩
  | later htest h hv => exact ⟨_, outcome_eq (.testDoesNot htest h hv hruns)⟩

theorem Opens.returns (h : p.Opens c q) (hp : p.Returns c) : q.Returns c := by
  rcases hq : q.outcome c with ⟨err | v, s⟩
  · obtain ⟨w, s', hw⟩ := hp
    obtain ⟨s'', herr⟩ := h.outcome_error hq
    cases hw.symm.trans herr
  · exact ⟨v, s, hq⟩

theorem Reaches.returns (h : p.Reaches c q) (hp : p.Returns c) : q.Returns c := by
  induction h with
  | refl => exact hp
  | tail _ hopens ih => exact hopens.returns ih

/-- A fault that blames something is the fault of every run in the course of which it arises. -/
theorem Reaches.outcome_fault (h : p.Reaches c q) {f : Fault} (hform : f.form ≠ none)
    (hq : (q.outcome c).1 = .error (.fault f)) : (p.outcome c).1 = .error (.fault f) := by
  induction h using Relation.ReflTransGen.head_induction_on with
  | refl => exact hq
  | head hopens _ ih =>
    obtain ⟨s', hs'⟩ := hopens.outcome_error (Prod.ext ih rfl)
    rw [hs']
    obtain ⟨v, hv⟩ := Option.ne_none_iff_exists'.mp hform
    unfold Task.handOn
    split
    · rename_i heq
      cases heq
      rw [Fault.blame_of_form hv]
    · rfl

/-- What a special form opens, by what the check of its operands comes to. -/
theorem Opens.of_special {room : Nat} {depth : Int} {name : String} {operands : List Value}
    {s : EvalState} {f : SpecialForm} (h : Opens c ⟨room, depth, .form name operands, s⟩ q)
    (hf : SpecialForm.ofName? name = some f) :
    (∃ x e, f.check operands = .ok (.assign x e) ∧ q = ⟨room - 1, depth, .expr e, s⟩) ∨
      ∃ cs, f.check operands = .ok (.select cs) ∧ q = ⟨room - 1, depth, .clauses cs, s⟩ := by
  cases h with
  | assigned hf' hq =>
    cases hf.symm.trans hf'
    exact .inl ⟨_, _, hq, rfl⟩
  | selected hf' hq =>
    cases hf.symm.trans hf'
    exact .inr ⟨_, hq, rfl⟩
  | operands hf' | arguments hf' | body hf' => cases hf.symm.trans hf'

/-- What a call opens once its arguments have come to values: they themselves, and the body if
nothing is in its way. -/
theorem Opens.of_call {room : Nat} {depth : Int} {name : String} {operands vs : List Value}
    {s s' : EvalState} {f : Function} (h : Opens c ⟨room, depth, .form name operands, s⟩ q)
    (hf : SpecialForm.ofName? name = none) (hop : Operator.ofName? name = none)
    (hfun : s.env.getFunction name = .ok f)
    (hargs : Runs c (room - 1) depth (.all operands) s (.ok (.list vs), s')) :
    q.Returns c ∨ (vs.length = f.arity ∧ depth < c.limit ∧ f.params.any Value.isList = false ∧
      c.listener.hear room (.called name vs (depth + 1)) = .ok ()) := by
  cases h with
  | assigned hf' | selected hf' => cases hf.symm.trans hf'
  | operands _ hop' => cases hop.symm.trans hop'
  | arguments => exact .inl ⟨_, _, outcome_eq hargs⟩
  | body _ _ hfun' hargs' hlen hdepth hparams hhear =>
    cases hfun.symm.trans hfun'
    have hsame := (outcome_eq (p := ⟨_, _, .all operands, s⟩) hargs).symm.trans (outcome_eq hargs')
    cases hsame
    exact .inr ⟨hlen, hdepth, hparams, hhear⟩

/-- All that a run has opened that fails of itself has come to values. -/
theorem Fails.opens_returns {err : Failure} (h : p.Fails c err) (hopens : p.Opens c q) :
    q.Returns c := by
  cases h with
  | exhausted => cases hopens
  | foreign => cases hopens
  | nameless hname =>
    cases hopens with
    | form hname' => cases hname.symm.trans hname'
  | malformed hf hq =>
    rcases hopens.of_special hf with ⟨_, _, hq', -⟩ | ⟨_, hq', -⟩ <;> cases hq.symm.trans hq'
  | defineUnheard hf hq =>
    rcases hopens.of_special hf with ⟨_, _, hq', -⟩ | ⟨_, hq', -⟩ <;> cases hq.symm.trans hq'
  | assignUnheard hf hq h =>
    obtain rfl := hopens.of_assign hf hq
    exact ⟨_, _, outcome_eq h⟩
  | operator hf hop h =>
    obtain rfl := hopens.of_operator hf hop
    exact ⟨_, _, outcome_eq h⟩
  | undefined hf hop hfun =>
    cases hopens with
    | assigned hf' | selected hf' => cases hf.symm.trans hf'
    | operands _ hop' => cases hop.symm.trans hop'
    | arguments _ _ hfun' | body _ _ hfun' => cases hfun.symm.trans hfun'
  | arity hf hop hfun h hlen =>
    rcases hopens.of_call hf hop hfun h with hreturns | ⟨hlen', -⟩
    · exact hreturns
    · exact absurd hlen' hlen
  | tooDeep hf hop hfun h _ hdepth =>
    rcases hopens.of_call hf hop hfun h with hreturns | ⟨-, hdepth', -⟩
    · exact hreturns
    · omega
  | unbindable hf hop hfun h _ _ hparams =>
    rcases hopens.of_call hf hop hfun h with hreturns | ⟨-, -, hparams', -⟩
    · exact hreturns
    · cases hparams.symm.trans hparams'
  | callUnheard hf hop hfun h _ _ _ hhear =>
    rcases hopens.of_call hf hop hfun h with hreturns | ⟨-, -, -, hhear'⟩
    · exact hreturns
    · cases hhear.symm.trans hhear'

theorem Reaches.through_expr {room room' : Nat} {depth depth' : Int} {e : Value}
    {s s' : EvalState} {name : String} {operands : List Value}
    (h : Reaches c ⟨room, depth, .expr e, s⟩ ⟨room', depth', .form name operands, s'⟩) :
    ∃ head, operatorName room' head = .ok name ∧ Reaches c ⟨room, depth, .expr e, s⟩
      ⟨room' + 1, depth', .expr (.list (head :: operands)), s'⟩ := by
  rcases h.cases_tail with heq | ⟨q, hreach, hopens⟩
  · cases heq
  · cases hopens with
    | form hname => exact ⟨_, hname, hreach⟩

/-- A fault of which a run fails of itself: it blames the name of a function that is bound nowhere,
or nothing. -/
inductive Blames : Stage → Fault → Prop
  | name {room depth name operands s f} (hkind : f.kind = .undefinedFunction)
      (hform : f.form = some (.sym name)) (hfree : Unbound Frame.functions name s.env.frames) :
      Blames ⟨room, depth, .form name operands, s⟩ f
  | nothing {room depth name operands s f} (hkind : f.kind ≠ .undefinedFunction)
      (hform : f.form = none) : Blames ⟨room, depth, .form name operands, s⟩ f

theorem Fails.blames {f : Fault} (h : p.Fails c (.fault f)) (hp : p.task.Only Reader.Legible) :
    Blames p f := by
  have nothing : ∀ {room depth name operands s} {r : Except Failure Value},
      Unblamed r → r = .error (.fault f) → Blames ⟨room, depth, .form name operands, s⟩ f := by
    intro room depth name operands s r hr herr
    obtain ⟨hform, hcall⟩ := hr f herr
    refine .nothing ?_ hform
    intro hkind
    rw [hkind] at hcall
    cases hcall
  generalize herr : Failure.fault f = err at h
  cases h with
  | exhausted | nameless | assignUnheard | defineUnheard | unbindable | callUnheard => cases herr
  | foreign => exact absurd hp Reader.not_legible_foreign
  | malformed _ hq =>
    exact nothing (SpecialForm.unblamed_check hq _) (congrArg Except.error herr.symm)
  | operator _ _ _ happly => exact nothing (Operator.unblamed_apply _ _ _) (herr ▸ happly)
  | undefined _ _ hfun =>
    cases herr
    obtain ⟨hkind, hfree⟩ := Env.unbound_of_getFunction hfun
    obtain ⟨-, rfl⟩ := Env.of_getFunction_error hfun
    exact .name hkind rfl hfree
  | arity | tooDeep =>
    cases herr
    exact .nothing (fun hkind => nomatch hkind) rfl

theorem Fails.outcome {err : Failure} (h : p.Fails c err) : ∃ s, p.outcome c = (.error err, s) := by
  cases h with
  | exhausted => exact ⟨_, outcome_eq .exhausted⟩
  | foreign => exact ⟨_, outcome_eq .foreign⟩
  | nameless hname => exact ⟨_, outcome_eq (.nameless hname)⟩
  | malformed hf hq => exact ⟨_, outcome_eq (.malformed hf hq)⟩
  | assignUnheard hf hq h hhear => exact ⟨_, outcome_eq (.assignUnheard hf hq h hhear)⟩
  | defineUnheard hf hq hhear => exact ⟨_, outcome_eq (.defineUnheard hf hq hhear)⟩
  | operator hf hop h happly =>
    have hruns := Runs.operator hf hop h
    rw [happly] at hruns
    exact ⟨_, outcome_eq hruns⟩
  | undefined hf hop hfun => exact ⟨_, outcome_eq (.undefined hf hop hfun)⟩
  | arity hf hop hfun h hlen => exact ⟨_, outcome_eq (.arity hf hop hfun h hlen)⟩
  | tooDeep hf hop hfun h hlen hdepth => exact ⟨_, outcome_eq (.tooDeep hf hop hfun h hlen hdepth)⟩
  | unbindable hf hop hfun h hlen hdepth hparams =>
    exact ⟨_, outcome_eq (.unbindable hf hop hfun h hlen hdepth hparams)⟩
  | callUnheard hf hop hfun h hlen hdepth hparams hhear =>
    exact ⟨_, outcome_eq (.callUnheard hf hop hfun h hlen hdepth hparams hhear)⟩

theorem returns_of_fails {room : Nat} {depth : Int} {head : Value} {operands : List Value}
    {s : EvalState} {name : String} {err : Failure} (hname : operatorName room head = .ok name)
    (h : Fails c ⟨room, depth, .form name operands, s⟩ err) {e : Value}
    (hq : Relation.TransGen (Opens c)
      ⟨room + 1, depth, .expr (.list (head :: operands)), s⟩ q) (he : q.task = .expr e) :
    q.Returns c := by
  obtain ⟨p, hopens, hreach⟩ := Relation.TransGen.head'_iff.mp hq
  cases hopens with
  | form hname' =>
    cases hname.symm.trans hname'
    rcases hreach.cases_head with rfl | ⟨p', hopens', hreach'⟩
    · cases he
    · exact Reaches.returns hreach' (h.opens_returns hopens')

end Outcome

end Stage

open Stage

/-- The fault of an expression blames the innermost form that fails: a list that was evaluated in
the course of it, for which everything else that was evaluated has come to values, or, if there is
no such function, the name that was looked up, which is bound nowhere from where the list was
evaluated. It is the fault of every evaluation around that list. -/
theorem fault_blames_innermost {c : Conditions} {room : Nat} {depth : Int} {e : Value}
    {s s' : EvalState} {f : Fault} (he : Reader.Legible e) (hs : s.env.Sound)
    (h : evaluate c room depth e s = (.error (.fault f), s')) :
    ∃ (room' : Nat) (depth' : Int) (head : Value) (operands : List Value) (t : EvalState),
      let q : Stage := ⟨room' + 1, depth', .expr (.list (head :: operands)), t⟩
      Reaches c ⟨room, depth, .expr e, s⟩ q ∧
      (∀ p e', Reaches c p q → p.task = .expr e' →
        (evaluate c p.room p.depth e' p.state).1 = .error (.fault f)) ∧
      (∀ p e', Relation.TransGen (Opens c) q p → p.task = .expr e' →
        ∃ v u, evaluate c p.room p.depth e' p.state = (.ok v, u)) ∧
      if f.kind = .undefinedFunction then
        ∃ name, operatorName room' head = .ok name ∧ f.form = some (.sym name) ∧
          Unbound Frame.functions name t.env.frames
      else f.form = some (.list (head :: operands)) := by
  have hruns := runs_evaluate c room depth e s
  rw [h] at hruns
  obtain ⟨q, err, hreach, hfails, hreason⟩ := hruns.origin rfl
  obtain ⟨htask, -⟩ := (lasting_sound c).reaches hreach ⟨he, hs⟩
  obtain ⟨g, rfl⟩ : ∃ g, err = .fault g := by
    cases err with
    | fault g => exact ⟨g, rfl⟩
    | escape x => cases hreason
  have hblames := hfails.blames htask
  obtain ⟨room', depth', name, operands, t, rfl⟩ :
      ∃ room' depth' name operands t, q = ⟨room', depth', .form name operands, t⟩ := by
    cases hblames <;> exact ⟨_, _, _, _, _, rfl⟩
  obtain ⟨head, hname, hthrough⟩ := Reaches.through_expr hreach
  let F : Value := .list (head :: operands)
  let q : Stage := ⟨room' + 1, depth', .expr F, t⟩
  have hset : (g.blame F).form ≠ none := by
    cases hblames with
    | name _ hform => simp [Fault.blame_of_form hform, hform]
    | nothing _ hform => simp [Fault.form_blame_of_none hform]
  -- the fault as it leaves the innermost form
  have hq : (q.outcome c).1 = .error (.fault (g.blame F)) := by
    obtain ⟨t', ht'⟩ := hfails.outcome
    obtain ⟨u, hu⟩ := (Opens.form hname).outcome_error ht'
    rw [hu]
    rfl
  obtain rfl : f = g.blame F := by
    have hwhole := hthrough.outcome_fault hset hq
    cases (congrArg Prod.fst h).symm.trans hwhole
    rfl
  refine ⟨room', depth', head, operands, t, hthrough, ?_, ?_, ?_⟩
  · rintro ⟨_, _, _, _⟩ e' hp rfl
    exact Reaches.outcome_fault hp hset hq
  · rintro ⟨_, _, _, _⟩ e' hp rfl
    exact returns_of_fails hname hfails hp rfl
  · rw [Fault.kind_blame]
    cases hblames with
    | name hkind hform hfree =>
      rw [if_pos hkind, Fault.blame_of_form hform]
      exact ⟨name, hname, hform, hfree⟩
    | nothing hkind hform =>
      rw [if_neg hkind]
      exact Fault.form_blame_of_none hform

/-- A function that negates what it is called with, which may be no number. -/
def negating : Env :=
  ((Env.empty.setVariable "t" .t).setVariable "nil" .nil).setFunction "f"
    ⟨[.sym "x"], .list [.sym "-", .sym "x"]⟩

open Reader in
theorem sound_negating : negating.Sound := by
  have hx : IsName "x" := by decide +kernel
  have hbody : Legible (.list [.sym "-", .sym "x"]) := legible_of_spells (spells_list
    (spellsAll_cons (spells_name (by decide +kernel)) (spellsAll_cons (spells_name hx)
      spellsAll_nil rfl) rfl))
  refine .of_every ((Env.every_empty.setVariable ?_).setVariable ?_ |>.setFunction ?_)
    (by decide) (by decide)
  · exact ⟨by decide +kernel, rfl⟩
  · exact ⟨by decide +kernel, rfl⟩
  · exact ⟨by decide +kernel, rfl, ⟨["x"], rfl, by simp, by simpa using hx⟩, hbody⟩

open Reader in
theorem fault_blames_innermost_negating :
    let e : Value := .list [.sym "list", .list [.sym "f", .sym "y"]]
    ∃ f s, Legible e ∧ negating.Sound ∧
      evaluate ⟨1, .quiet⟩ 9 0 e ⟨negating, []⟩ = (.error (.fault f), s) ∧
      ∃ q, Reaches ⟨1, .quiet⟩ ⟨9, 0, .expr e, ⟨negating, []⟩⟩ q ∧
        q.task = .expr (.list [.sym "-", .sym "x"]) := by
  intro e
  have hf : Spells "f" (.sym "f") := spells_name (by decide +kernel)
  have hy : Spells "y" (.sym "y") := spells_name (by decide +kernel)
  have hcall := spells_list (spellsAll_cons hf (spellsAll_cons hy spellsAll_nil rfl) rfl)
  have he : Legible e := legible_of_spells (spells_list
    (spellsAll_cons (spells_name (by decide +kernel)) (spellsAll_cons hcall spellsAll_nil rfl) rfl))
  obtain ⟨f, s, hrun, hkind, hform⟩ : ∃ f s,
      evaluate ⟨1, .quiet⟩ 9 0 e ⟨negating, []⟩ = (.error (.fault f), s) ∧
        f.kind = .wrongType ∧ f.form = some (.list [.sym "-", .sym "x"]) := ⟨_, _, rfl, rfl, rfl⟩
  obtain ⟨room, depth, head, operands, t, hreach, -, -, hblamed⟩ :=
    fault_blames_innermost he sound_negating hrun
  rw [if_neg (by simp [hkind]), hform] at hblamed
  cases hblamed
  exact ⟨f, s, he, sound_negating, hrun, _, hreach, rfl⟩

end PocketLisp
