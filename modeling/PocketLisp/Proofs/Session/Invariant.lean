import PocketLisp.Proofs.Eval.Soundness
import PocketLisp.Proofs.Session.Script

/-!
What stays so in a session, whatever texts it is given and whether they can be evaluated or not: the
environment of the interpreter is sound between calls and in every state in the course of a call.
So a form whose head is a number or a list is a call of an undefined function, as long as there are
host frames to print the head.
-/
namespace PocketLisp.Session

open Reader

/-- What can be asked of an interpreter: to evaluate the only expression of a text, or all. -/
inductive Call where
  | one (code : String)
  | all (code : String)

def Call.perform : Call → Run Session Unit
  | .one code => do
    let _ ← evaluate code
    pure ()
  | .all code => do
    let _ ← evaluateAll code
    pure ()

def opened (maxDepth : Option Int) (host : Host) : Session :=
  ⟨(Interpreter.new maxDepth host).2, (Interpreter.new maxDepth host).1⟩

/-- The session after calls, one after the other; those that fail count as well. -/
def after (calls : List Call) (s : Session) : Session :=
  calls.foldl (fun s call => (call.perform s).2) s

/-- In the course of a call, the evaluation of an expression of its text begins in this session. -/
inductive Evaluates : Call → Session → Value → Session → Prop
  | one {code : String} {s : Session} {e : Value} (h : parse s.host.frames code = .ok (some e)) :
      Evaluates (.one code) s e { s with host := s.host.record (.reading (Text.strip code)) }
  | all {code : String} {s t : Session} {before later vs : List Value} {e : Value}
      (h : parseAll s.host.frames code = .ok (before ++ e :: later))
      (hbefore : runAll before s = (.ok vs, t)) : Evaluates (.all code) s e t

def conditions (s : Session) : Conditions := ⟨s.interpreter.maxDepth, s.host.listener⟩

def state (s : Session) : EvalState := ⟨s.interpreter.env, []⟩

theorem outcome_eq (e : Value) (s : Session) :
    outcome e s = PocketLisp.evaluate s.conditions s.host.frames 0 e s.state := rfl

/-! One expression, then one call, then all of them. -/

theorem sound_run {s : Session} (hs : s.interpreter.env.Sound) {e : Value} (he : Legible e) :
    (run e s).2.interpreter.env.Sound := by
  rw [run_eq, outcome_eq]
  exact ((runs_evaluate s.conditions s.host.frames 0 e s.state).sound he hs).1

theorem sound_runAll {s : Session} (hs : s.interpreter.env.Sound) {es : List Value}
    (hes : ∀ e ∈ es, Legible e) : (runAll es s).2.interpreter.env.Sound :=
  runAll_keeps (P := fun t => t.interpreter.env.Sound) (fun e he _ ht => sound_run ht (hes e he)) hs

theorem discard_apply {α : Type} (x : Run Session α) (s : Session) :
    (do let _ ← x; pure () : Run Session Unit) s = ((x s).1.map fun _ => (), (x s).2) := by
  rcases hx : x s with ⟨err | a, t⟩
  · rw [Run.bind_error hx]
    rfl
  · rw [Run.bind_ok hx]
    rfl

theorem evaluate_unread {code : String} {s : Session}
    (h : ∀ e, parse s.host.frames code ≠ .ok (some e)) : (evaluate code s).2 = s := by
  cases hparse : parse s.host.frames code with
  | error err =>
    obtain ⟨err', herr⟩ := reading_error hparse
    rw [evaluate, Run.bind_error herr]
  | ok v =>
    cases v with
    | some e => exact absurd hparse (h e)
    | none =>
      rw [evaluate, Run.bind_ok (reading_ok hparse)]
      rfl

theorem evaluate_read {code : String} {s : Session} {e : Value}
    (h : parse s.host.frames code = .ok (some e)) :
    evaluate code s =
      let r := run e { s with host := s.host.record (.reading (Text.strip code)) }
      (r.1.map some, r.2) := by
  rw [evaluate, Run.bind_ok (reading_ok h)]
  refine (Run.bind_ok rfl).trans ?_
  rcases hv : run e { s with host := s.host.record (.reading (Text.strip code)) } with ⟨err | v, t⟩
  · exact Run.bind_error hv
  · exact Run.bind_ok hv

theorem evaluateAll_unread {code : String} {s : Session}
    (h : ∀ es, parseAll s.host.frames code ≠ .ok es) : (evaluateAll code s).2 = s := by
  cases hparse : parseAll s.host.frames code with
  | ok es => exact absurd hparse (h es)
  | error err =>
    obtain ⟨err', herr⟩ := reading_error hparse
    rw [evaluateAll, Run.bind_error herr]

theorem sound_perform {s : Session} (hs : s.interpreter.env.Sound) (call : Call) :
    (call.perform s).2.interpreter.env.Sound := by
  cases call with
  | one code =>
    rw [Call.perform, discard_apply]
    by_cases hread : ∃ e, parse s.host.frames code = .ok (some e)
    · obtain ⟨e, he⟩ := hread
      rw [evaluate_read he]
      exact sound_run hs ⟨_, code, he⟩
    · rw [evaluate_unread fun e he => hread ⟨e, he⟩]
      exact hs
  | all code =>
    rw [Call.perform, discard_apply]
    by_cases hread : ∃ es, parseAll s.host.frames code = .ok es
    · obtain ⟨es, hes⟩ := hread
      rw [evaluateAll_of_parseAll hes]
      exact sound_runAll hs fun e he => legible_of_mem_parseAll hes he
    · rw [evaluateAll_unread fun es hes => hread ⟨es, hes⟩]
      exact hs

theorem sound_after {s : Session} (hs : s.interpreter.env.Sound) (calls : List Call) :
    (after calls s).interpreter.env.Sound := by
  induction calls generalizing s with
  | nil => exact hs
  | cons call calls ih => exact ih (sound_perform hs call)

theorem sound_globals : Interpreter.globals.Sound := by
  have ht : IsName "t" := by decide +kernel
  have hnil : IsName "nil" := by decide +kernel
  refine .of_every ((Env.every_empty.setVariable ?_).setVariable ?_) (by decide) (by decide)
  · exact ⟨ht, rfl⟩
  · exact ⟨hnil, rfl⟩

theorem sound_opened (maxDepth : Option Int) (host : Host) :
    (opened maxDepth host).interpreter.env.Sound := sound_globals

theorem runAll_append_error {before later vs : List Value} {e : Value} {s t u : Session}
    {err : Failure} (hbefore : runAll before s = (.ok vs, t)) (he : run e t = (.error err, u)) :
    runAll (before ++ e :: later) s = (.error err, u) := by
  induction before generalizing s vs with
  | nil =>
    cases hbefore
    exact Run.bind_error he
  | cons x before ih =>
    obtain ⟨v, ws, t', hv, hws, rfl⟩ := runAll_cons_ok hbefore
    rw [List.cons_append, runAll, Run.bind_ok hv]
    exact Run.bind_error (ih hws)

namespace Evaluates

variable {call : Call} {s t : Session} {e : Value}

theorem legible (h : Evaluates call s e t) : Legible e := by
  cases h with
  | one h => exact ⟨_, _, h⟩
  | all h _ => exact legible_of_mem_parseAll h (by simp)

/-- What has been read is nested no deeper than there are host frames. -/
theorem nesting_le (h : Evaluates call s e t) : e.nesting ≤ t.host.frames := by
  cases h with
  | one h => exact (parse_ok_iff.mp h).2
  | all h hbefore =>
    have hall := (parseAll_ok_iff.mp h).2
    rw [Value.nestingList_append, Value.nestingList] at hall
    rw [frames_runAll hbefore]
    omega

theorem sound (h : Evaluates call s e t) (hs : s.interpreter.env.Sound) :
    t.interpreter.env.Sound := by
  cases h with
  | one _ => exact hs
  | all h hbefore =>
    have hall := sound_runAll hs fun x hx =>
      legible_of_mem_parseAll h (List.mem_append_left _ hx)
    rwa [hbefore] at hall

theorem perform_error (h : Evaluates call s e t) {err : Failure} {u : Session}
    (he : run e t = (.error err, u)) : call.perform s = (.error err, u) := by
  cases h with
  | one h =>
    rw [Call.perform, discard_apply, evaluate_read h, he]
    rfl
  | all h hbefore =>
    rw [Call.perform, discard_apply, evaluateAll_of_parseAll h, runAll_append_error hbefore he]
    rfl

end Evaluates

/-- A form whose head names nothing, on its own in a text: there are host frames enough to print the
head, because there were enough to read the form. -/
theorem run_anonymous {t : Session} {head : Value} {operands : List Value} {text : String}
    (ht : t.interpreter.env.Sound) (hhead : Legible head) (ha : head.isAnonymous = true)
    (htext : head.render = .ok text)
    (hframes : (Value.list (head :: operands)).nesting ≤ t.host.frames) :
    (run (.list (head :: operands)) t).1 =
        .error (.fault { cause := .undefinedFunction text, form := some (.sym text) }) ∧
      (run (.list (head :: operands)) t).2.interpreter = t.interpreter := by
  have hroom : head.nesting < t.host.frames := by
    rw [Value.nesting, Value.nestingList] at hframes
    omega
  have hs : t.state.env.Sound := ht
  rw [run_eq, outcome_eq, evaluate_anonymous hs hhead ha htext, anonymousFailure, if_pos hroom]
  exact ⟨rfl, rfl⟩

/-- Whatever an interpreter is asked, one call after the other: its environment is sound afterwards,
and in the course of the next call every evaluation is of what can be read and begins and ends in a
sound environment. A form of a text whose head is an integer, a finite floating-point number or a
list calls an undefined function; it changes no binding, and no operand of it is evaluated. So it is
with every such form in a sound environment, unless the host frames do not reach to print the head;
then it fails for that. -/
theorem calls_keep_sound (maxDepth : Option Int) (host : Host) (calls : List Call) :
    let s := after calls (opened maxDepth host)
    s.interpreter.env.Sound ∧
    (∀ call e t, Evaluates call s e t →
      EveryEvaluation t.conditions t.host.frames 0 e t.state
        (fun m => Legible m.expr ∧ m.state.env.Sound) (fun s' => s'.env.Sound) ∧
      ∀ head operands, e = .list (head :: operands) → head.isAnonymous = true →
        ∃ text, head.render = .ok text ∧
          (call.perform s).1 =
            .error (.fault { cause := .undefinedFunction text, form := some (.sym text) }) ∧
          (call.perform s).2.interpreter = t.interpreter ∧
          Throughout t.conditions t.host.frames 0 e t.state fun m => m.expr = e) ∧
    (∀ c room depth head operands s', Env.Sound s'.env → Legible head →
      head.isAnonymous = true →
      ∃ text, head.render = .ok text ∧
        PocketLisp.evaluate c room depth (.list (head :: operands)) s' =
          (.error (if head.nesting < room then
            .fault { cause := .undefinedFunction text, form := some (.sym text) }
            else .escape .exhausted), s') ∧
        Throughout c room depth (.list (head :: operands)) s'
          fun m => m.expr = .list (head :: operands)) := by
  intro s
  have hs : s.interpreter.env.Sound := sound_after (sound_opened maxDepth host) calls
  refine ⟨hs, ?_, ?_⟩
  · intro call e t h
    have ht := h.sound hs
    refine ⟨(lasting_sound t.conditions).everyEvaluation h.legible ht _ _, ?_⟩
    rintro head operands rfl ha
    have hhead := h.legible.item List.mem_cons_self
    obtain ⟨text, htext⟩ := render_of_legible hhead ha
    obtain ⟨hfault, hleft⟩ := run_anonymous ht hhead ha htext h.nesting_le
    have hcall := h.perform_error (Prod.ext hfault rfl)
    refine ⟨text, htext, ?_, ?_, throughout_anonymous ht hhead ha htext _ _ _ _⟩
    · rw [hcall]
    · rw [hcall]
      exact hleft
  · intro c room depth head operands s' hs' hhead ha
    obtain ⟨text, htext⟩ := render_of_legible hhead ha
    exact ⟨text, htext, evaluate_anonymous hs' hhead ha htext c room depth operands,
      throughout_anonymous hs' hhead ha htext c room depth operands⟩

/-- The empty list, in so many lists. -/
def nest : Nat → Value
  | 0 => .list []
  | n + 1 => .list [nest n]

def nestText : Nat → String
  | 0 => Style.printed.list []
  | n + 1 => Style.printed.list [nestText n]

def assignments (e : Value) : Nat → Value
  | 0 => e
  | n + 1 => .list [.sym "setq", .sym "x", assignments e n]

def assignmentsText (s : String) : Nat → String
  | 0 => s
  | n + 1 => Style.printed.list ["setq", "x", assignmentsText s n]

theorem nesting_nest (n : Nat) : (nest n).nesting = n + 1 := by
  induction n with
  | zero => rfl
  | succ n ih => simp [nest, Value.nesting, Value.nestingList, ih]

theorem nesting_assignments (e : Value) (n : Nat) :
    (assignments e n).nesting = e.nesting + n := by
  induction n with
  | zero => rfl
  | succ n ih =>
    simp [assignments, Value.nesting, Value.nestingList, ih]
    omega

theorem spells_nest (n : Nat) : Spells (nestText n) (nest n) := by
  induction n with
  | zero => exact spells_list spellsAll_nil
  | succ n ih => exact spells_list (spellsAll_cons ih spellsAll_nil rfl)

theorem spells_assignments {s : String} {e : Value} (h : Spells s e) (n : Nat) :
    Spells (assignmentsText s n) (assignments e n) := by
  have hsetq : Spells "setq" (.sym "setq") := spells_name (isName_of_isReserved (by decide))
  have hx : Spells "x" (.sym "x") := spells_name (by decide +kernel)
  induction n with
  | zero => exact h
  | succ n ih =>
    have hlast := spellsAll_cons ih spellsAll_nil rfl
    exact spells_list (spellsAll_cons hsetq (spellsAll_cons hx hlast rfl) rfl)

/-- Each assignment around an expression takes two host frames. -/
theorem evaluate_assignments {c : Conditions} {room : Nat} {depth : Int} {e : Value}
    {s : EvalState} (h : PocketLisp.evaluate c room depth e s = (.error (.escape .exhausted), s))
    (n : Nat) : PocketLisp.evaluate c (room + 2 * n) depth (assignments e n) s =
      (.error (.escape .exhausted), s) := by
  induction n with
  | zero => exact h
  | succ n ih =>
    have hname : operatorName (room + 2 * n + 1) (.sym "setq") = .ok "setq" := rfl
    have hf : SpecialForm.ofName? "setq" = some .setq := by decide
    have hcheck : SpecialForm.check .setq [.sym "x", assignments e n] =
        .ok (.assign "x" (assignments e n)) := rfl
    have hinner : (Request.assign "x" (assignments e n)).perform c.listener (room + 2 * n + 1)
        (PocketLisp.evaluate c (room + 2 * n)) depth s = (.error (.escape .exhausted), s) :=
      Request.perform_assignFails ih
    have hroom : room + 2 * (n + 1) = room + 2 * n + 1 + 1 := by omega
    rw [hroom, assignments, evaluate_succ, evalStep_form hname, evalForm_special hf, hcheck,
      SpecialForm.proceed, Nat.add_sub_cancel, hinner]
    rfl

/-- A form whose head is a list of four hundred levels, in as many assignments. -/
def buriedForm : Value := .list [nest 399]

def buriedText : String := assignmentsText (Style.printed.list [nestText 399]) 400

/-- The frames of a host with a new interpreter are enough to read the text and to come to the form,
but then not to print its head. So the form is evaluated, and it is not the function that is found
missing. -/
theorem exhausted_before_undefined :
    let s := opened (some 1) (.initial [] .quiet)
    (∃ t, Evaluates (.one buriedText) s (assignments buriedForm 400) t ∧
      PocketLisp.evaluate t.conditions (t.host.frames - 2 * 400) 0 buriedForm t.state =
        (.error (.escape .exhausted), t.state)) ∧
    (evaluate buriedText s).1 = .error (.because .evaluatorExhausted) := by
  intro s
  have hspells : Spells buriedText (assignments buriedForm 400) :=
    spells_assignments (spells_list (spellsAll_cons (spells_nest 399) spellsAll_nil rfl)) 400
  have hnesting : (assignments buriedForm 400).nesting = 801 := by
    simp [nesting_assignments, buriedForm, Value.nesting, Value.nestingList, nesting_nest]
  have hread : parse s.host.frames buriedText = .ok (some (assignments buriedForm 400)) :=
    parse_of_spells hspells (by rw [hnesting]; decide)
  have hbegins := Evaluates.one hread
  have hs : s.state.env.Sound := sound_globals
  have hhead := legible_of_spells (spells_nest 399)
  obtain ⟨text, htext⟩ := render_of_legible hhead rfl
  -- Of the 1008 frames, 208 are left for the form, and its head takes 400.
  have hform : PocketLisp.evaluate s.conditions 208 0 buriedForm s.state =
      (.error (.escape .exhausted), s.state) := by
    rw [buriedForm, evaluate_anonymous hs hhead rfl htext, anonymousFailure, nesting_nest,
      if_neg (by decide)]
  have hframes : s.host.frames = 208 + 2 * 400 := by decide
  have hwhole : outcome (assignments buriedForm 400) s = (.error (.escape .exhausted), s.state) := by
    rw [outcome_eq, hframes]
    exact evaluate_assignments hform 400
  refine ⟨⟨_, hbegins, ?_⟩, ?_⟩
  · show PocketLisp.evaluate s.conditions (s.host.frames - 2 * 400) 0 buriedForm s.state = _
    rw [hframes]
    exact hform
  · rw [evaluate_read hread]
    have halike : outcome (assignments buriedForm 400)
        { s with host := s.host.record (.reading (Text.strip buriedText)) } =
          outcome (assignments buriedForm 400) s := rfl
    simp only [run_eq, halike, hwhole]
    rfl

end PocketLisp.Session
