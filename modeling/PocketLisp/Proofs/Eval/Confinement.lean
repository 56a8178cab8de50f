import PocketLisp.Proofs.Eval.Course
import PocketLisp.Proofs.Number.Numeral

/-!
What evaluation can do to an environment. Only the innermost frame is written to, and only names
that the expression itself gives to `setq` or `defun`: what the body of a called function writes is
in a frame that is gone when the call has ended.
-/
namespace PocketLisp

namespace SpecialForm

theorem name_of_ofName? {name : String} {f : SpecialForm} (h : ofName? name = some f) :
    f.name = name := by
  simpa using List.find?_some h

theorem ofText?_name (f : SpecialForm) : Numeral.ofText? f.name = none := by
  cases f <;> decide +kernel

theorem print_number_ne_name (n : Number) (f : SpecialForm) : n.print ≠ .ok f.name := by
  intro h
  have unread : ∀ numeral, Numeral.ofText? f.name ≠ some numeral := by
    rw [ofText?_name]
    exact fun _ he => nomatch he
  cases n with
  | int n =>
    rw [Number.print, intText] at h
    split at h
    · rename_i hlimit
      obtain ⟨numeral, hread, -⟩ := Numeral.value_intChars hlimit
      refine unread numeral ?_
      rw [← Except.ok.inj h, Numeral.ofText?, String.toList_ofList, hread]
    · cases h
  | float x =>
    have htext : x.toText = f.name := Except.ok.inj h
    cases hx : x.isFinite with
    | true =>
      obtain ⟨numeral, hread, -⟩ := Numeral.value_toText hx
      exact unread numeral (htext ▸ hread)
    | false =>
      cases x with
      | finite negative code => cases hx
      | infinite negative => cases negative <;> cases f <;> exact absurd htext (by decide)
      | nan => cases f <;> exact absurd htext (by decide)

theorem printed_list_ne_name (parts : List String) (f : SpecialForm) :
    Style.printed.list parts ≠ f.name := by
  intro h
  have hhead := congrArg (·.toList.head?) h
  simp only [Style.list, Style.printed, String.toList_append] at hhead
  cases f <;> cases hhead

/-- Only the symbol itself is dispatched on as a special form. -/
theorem head_of_operatorName {room : Nat} {head : Value} {f : SpecialForm}
    (h : operatorName room head = .ok f.name) : head = .sym f.name := by
  cases head with
  | sym name => exact congrArg Value.sym (Except.ok.inj h)
  | num n => exact absurd h (print_number_ne_name n f)
  | list items =>
    cases room with
    | zero => cases h
    | succ room =>
      have hwrite : (Value.writeListWithin .printed room items).map Style.printed.list =
          .ok f.name := h
      cases hparts : Value.writeListWithin .printed room items with
      | error x =>
        rw [hparts] at hwrite
        cases hwrite
      | ok parts =>
        rw [hparts] at hwrite
        exact absurd (Except.ok.inj hwrite) (printed_list_ne_name parts f)
  | foreign x =>
    cases x with
    | absent => cases f <;> exact absurd (Except.ok.inj h) (by decide)
    | flag b => cases h
    | text s => cases h

end SpecialForm

namespace Value

/-- The first value is the second one or stands in it, at any level of lists. -/
inductive Within : Value → Value → Prop
  | refl (v : Value) : Within v v
  | item {v w : Value} {items : List Value} (hmem : w ∈ items) (h : Within v w) :
      Within v (.list items)

/-- A list that starts with the name of the special form and then this name stands in the
expression. -/
def Names (e : Value) (f : SpecialForm) (name : String) : Prop :=
  ∃ rest, Within (.list (.sym f.name :: .sym name :: rest)) e

theorem Names.item {e : Value} {items : List Value} {f : SpecialForm} {name : String}
    (hmem : e ∈ items) (h : e.Names f name) : (Value.list items).Names f name := by
  obtain ⟨rest, hrest⟩ := h
  exact ⟨rest, .item hmem hrest⟩

end Value

def Task.Names (t : Task) (f : SpecialForm) (x : String) : Prop :=
  match t with
  | .expr e => e.Names f x
  | .form name operands => (Value.list (.sym name :: operands)).Names f x
  | .all es => ∃ e ∈ es, e.Names f x
  | .clauses cs => ∃ clause ∈ cs, clause.1.Names f x ∨ clause.2.Names f x

/-- A form gives a special form the names that it gives it when its head is a symbol. -/
theorem Task.names_of_form {room : Nat} {head : Value} {name : String} {operands : List Value}
    {f : SpecialForm} {x : String} (hname : operatorName room head = .ok name)
    (h : (Task.form name operands).Names f x) :
    (Task.expr (.list (head :: operands))).Names f x := by
  obtain ⟨rest, hrest⟩ := h
  cases hrest with
  | refl => exact ⟨rest, SpecialForm.head_of_operatorName hname ▸ .refl _⟩
  | item hmem hw =>
    rcases List.mem_cons.mp hmem with rfl | hmem
    · cases hw
    · exact ⟨rest, .item (List.mem_cons_of_mem _ hmem) hw⟩

/-- Bindings that come from others by binding names that satisfy the condition. -/
inductive Bindings.Written {α : Type} (names : String → Prop) : Bindings α → Bindings α → Prop
  | refl (b : Bindings α) : Written names b b
  | insert {b b' : Bindings α} {x : String} (a : α) (h : Written names b b') (hx : names x) :
      Written names b (b'.insert x a)

namespace Bindings.Written

variable {α : Type} {names : String → Prop} {b b' b'' : Bindings α}

theorem trans (h : Written names b b') (h' : Written names b' b'') : Written names b b'' := by
  induction h' with
  | refl => exact h
  | insert a _ hx ih => exact .insert a ih hx

theorem mono {names' : String → Prop} (h : Written names b b') (hnames : ∀ x, names x → names' x) :
    Written names' b b' := by
  induction h with
  | refl => exact .refl _
  | insert a _ hx ih => exact .insert a ih (hnames _ hx)

theorem eq_of_none (h : Written names b b') (hnames : ∀ x, ¬names x) : b' = b := by
  cases h with
  | refl => rfl
  | insert a _ hx => exact absurd hx (hnames _)

theorem get?_eq (h : Written names b b') {x : String} (hx : ¬names x) :
    get? x b' = get? x b := by
  induction h with
  | refl => rfl
  | insert a _ hy ih =>
    rw [← ih]
    exact get?_insert_of_ne a _ fun he => hx (he ▸ hy)

theorem get?_ne_none (h : Written names b b') {x : String} (hx : get? x b ≠ none) :
    get? x b' ≠ none := by
  induction h with
  | refl => exact hx
  | @insert b' y a _ _ ih =>
    by_cases hxy : x = y
    · rw [hxy, get?_insert_self]
      exact fun he => nomatch he
    · rw [get?_insert_of_ne a b' hxy]
      exact ih

end Bindings.Written

/-- One environment comes from another by writing to the innermost frame only: to the variables
that the task gives to `setq`, and to the functions that it gives to `defun`. -/
structure Task.Writes (t : Task) (before after : Env) : Prop where
  outer : after.outer = before.outer
  values : Bindings.Written (t.Names .setq) before.frame.values after.frame.values
  functions : Bindings.Written (t.Names .defun) before.frame.functions after.frame.functions

namespace Task.Writes

variable {t u : Task} {env env' env'' : Env}

theorem refl (t : Task) (env : Env) : t.Writes env env := ⟨rfl, .refl _, .refl _⟩

theorem trans (h : t.Writes env env') (h' : t.Writes env' env'') : t.Writes env env'' :=
  ⟨h'.outer.trans h.outer, h.values.trans h'.values, h.functions.trans h'.functions⟩

theorem mono (h : t.Writes env env') (hnames : ∀ f x, t.Names f x → u.Names f x) :
    u.Writes env env' :=
  ⟨h.outer, h.values.mono (hnames .setq), h.functions.mono (hnames .defun)⟩

theorem operand {name : String} {operands : List Value} {e : Value} (hmem : e ∈ operands)
    (h : (Task.expr e).Writes env env') : (Task.form name operands).Writes env env' :=
  h.mono fun _ _ hx => hx.item (List.mem_cons_of_mem _ hmem)

theorem operands {name : String} {operands : List Value} (h : (Task.all operands).Writes env env') :
    (Task.form name operands).Writes env env' := by
  refine h.mono fun f x hx => ?_
  obtain ⟨e, hmem, hx⟩ := hx
  exact hx.item (List.mem_cons_of_mem _ hmem)

theorem first {e : Value} {es : List Value} (h : (Task.expr e).Writes env env') :
    (Task.all (e :: es)).Writes env env' :=
  h.mono fun _ _ hx => ⟨e, List.mem_cons_self, hx⟩

theorem rest {e : Value} {es : List Value} (h : (Task.all es).Writes env env') :
    (Task.all (e :: es)).Writes env env' :=
  h.mono fun _ _ ⟨e, hmem, hx⟩ => ⟨e, List.mem_cons_of_mem _ hmem, hx⟩

theorem test {test result : Value} {cs : List (Value × Value)}
    (h : (Task.expr test).Writes env env') :
    (Task.clauses ((test, result) :: cs)).Writes env env' :=
  h.mono fun _ _ hx => ⟨_, List.mem_cons_self, .inl hx⟩

theorem result {test result : Value} {cs : List (Value × Value)}
    (h : (Task.expr result).Writes env env') :
    (Task.clauses ((test, result) :: cs)).Writes env env' :=
  h.mono fun _ _ hx => ⟨_, List.mem_cons_self, .inr hx⟩

theorem later {clause : Value × Value} {cs : List (Value × Value)}
    (h : (Task.clauses cs).Writes env env') : (Task.clauses (clause :: cs)).Writes env env' :=
  h.mono fun _ _ ⟨clause, hmem, hx⟩ => ⟨clause, List.mem_cons_of_mem _ hmem, hx⟩

end Task.Writes

/-- A run writes to nothing but the innermost frame and the names given there. -/
theorem Runs.writes {c : Conditions} {room : Nat} {depth : Int} {t : Task} {s : EvalState}
    {r : Except Failure Value × EvalState} (h : Runs c room depth t s r) :
    t.Writes s.env r.2.env := by
  induction h with
  | exhausted | num | sym | empty | foreign | nameless | malformed | quote | defineUnheard
  | undefined | nil | noClause => exact .refl _ _
  | form hname _ ih => exact ih.mono fun _ _ hx => Task.names_of_form hname hx
  | assignFails _ hq _ ih | assignUnheard _ hq _ _ ih =>
    obtain ⟨-, rfl⟩ := SpecialForm.of_check_assign hq
    exact ih.operand (by simp)
  | @assign _ _ name _ _ f x e v _ hf hq _ _ ih =>
    obtain ⟨rfl, rfl⟩ := SpecialForm.of_check_assign hq
    have hsetq : (Task.form name [.sym x, e]).Names .setq x :=
      ⟨[e], SpecialForm.name_of_ofName? hf ▸ .refl _⟩
    refine Task.Writes.trans (ih.operand (by simp)) ⟨rfl, ?_, .refl _⟩
    exact .insert v (.refl _) hsetq
  | @define _ _ name _ _ f x g hf hq _ =>
    obtain ⟨rfl, rfl, -⟩ := SpecialForm.of_check_define hq
    have hdefun : (Task.form name [.sym x, .list g.params, g.body]).Names .defun x :=
      ⟨[.list g.params, g.body], SpecialForm.name_of_ofName? hf ▸ .refl _⟩
    exact ⟨rfl, .refl _, .insert g (.refl _) hdefun⟩
  | select _ hq _ ih =>
    have hcs := (SpecialForm.of_check_select hq).2
    refine ih.mono fun f x ⟨clause, hmem, hx⟩ => ?_
    have hclause := SpecialForm.mem_of_clauses hcs hmem
    rcases hx with hx | hx
    · exact (Value.Names.item (by simp) hx).item (List.mem_cons_of_mem _ hclause)
    · exact (Value.Names.item (by simp) hx).item (List.mem_cons_of_mem _ hclause)
  | operandsFail _ _ _ ih | operator _ _ _ ih | argumentsFail _ _ _ _ ih | arity _ _ _ _ _ ih
  | tooDeep _ _ _ _ _ _ ih | unbindable _ _ _ _ _ _ _ ih | callUnheard _ _ _ _ _ _ _ _ ih =>
    exact ih.operands
  | call _ _ _ _ _ _ _ _ hbody ih _ =>
    rw [EvalState.env_leave hbody.outer_eq]
    exact ih.operands
  | firstFails _ ih => exact ih.first
  | restFails _ _ ih ihs | cons _ _ ih ihs => exact ih.first.trans ihs.rest
  | otherwise _ _ ih => exact ih.result
  | testFails _ _ ih => exact ih.test
  | testHolds _ _ _ _ ih ihr => exact ih.test.trans ihr.result
  | testDoesNot _ _ _ _ ih ihr => exact ih.test.trans ihr.later

theorem outer_evaluate (c : Conditions) (room : Nat) (depth : Int) (e : Value) (s : EvalState) :
    (evaluate c room depth e s).2.env.outer = s.env.outer :=
  (runs_evaluate c room depth e s).outer_eq

/-- What is left of a call after its arguments does not change the caller's environment. -/
theorem env_callWith {c : Conditions} {room : Nat} {ev : Evaluator} {depth : Int} {name : String}
    (hev : ∀ e s, (ev (depth + 1) e s).2.env.outer = s.env.outer) (f : Function)
    (args : List Value) (s : EvalState) :
    (callWith c room ev depth name f args s).2.env = s.env := by
  by_cases hlen : args.length = f.arity
  case neg => rw [callWith_arity hlen]
  by_cases hdepth : depth < c.limit
  case neg => rw [callWith_tooDeep hlen (Int.not_lt.mp hdepth)]
  cases hparams : f.params.any Value.isList with
  | true => rw [callWith_unbindable hlen hdepth hparams]
  | false =>
    cases hhear : c.listener.hear room (.called name args (depth + 1)) with
    | error x => rw [callWith_unheard hlen hdepth hparams hhear]
    | ok u =>
      rw [callWith_body hlen hdepth hparams hhear]
      exact EvalState.env_leave (hev _ _)

theorem env_call {c : Conditions} {room : Nat} {ev : Evaluator} {depth : Int} {name : String}
    (hev : ∀ e s, (ev (depth + 1) e s).2.env.outer = s.env.outer) {s : EvalState} {f : Function}
    (hfun : s.env.getFunction name = .ok f) (operands : List Value) :
    (call c room ev depth name operands s).2.env =
      (Eval.sequence (ev depth) operands s).2.env := by
  rw [call_defined hfun]
  rcases hs : Eval.sequence (ev depth) operands s with ⟨err | vs, s'⟩
  · rw [Run.bind_error hs]
  · rw [Run.bind_ok hs]
    exact env_callWith hev f vs s'

theorem sequence_exhausted (c : Conditions) (depth : Int) (es : List Value) (s : EvalState) :
    (Eval.sequence (evaluate c 0 depth) es s).2 = s := by
  cases es with
  | nil => rfl
  | cons e es => rw [show Eval.sequence (evaluate c 0 depth) (e :: es) s =
      (.error (.escape .exhausted), s) from Run.bind_error rfl]

theorem env_evaluate_call (c : Conditions) (room : Nat) (depth : Int) {head : Value}
    {operands : List Value} {s : EvalState} {name : String} {f : Function}
    (hname : operatorName (room - 1) head = .ok name) (hreserved : isReserved name = false)
    (hfun : s.env.getFunction name = .ok f) :
    (evaluate c room depth (.list (head :: operands)) s).2.env =
      (Eval.sequence (evaluate c (room - 2) depth) operands s).2.env := by
  obtain ⟨hop, hf⟩ : Operator.ofName? name = none ∧ SpecialForm.ofName? name = none := by
    simpa [isReserved] using hreserved
  cases room with
  | zero => exact congrArg EvalState.env (sequence_exhausted c depth operands s).symm
  | succ room =>
    have hname : operatorName room head = .ok name := hname
    rw [evaluate_succ, evalStep_form hname, evalForm_call hf hop]
    exact env_call (outer_evaluate c (room - 1) (depth + 1)) hfun operands

/-- What evaluating an expression may do to an environment: nothing in the frames around the
innermost one; and in that one no binding goes away, and those that are new or different are of
names that the expression itself gives to `setq` and `defun`. -/
structure Env.ConfinedTo (e : Value) (before after : Env) : Prop where
  outer : after.outer = before.outer
  keepsValues : ∀ x, Bindings.get? x before.frame.values ≠ none →
    Bindings.get? x after.frame.values ≠ none
  keepsFunctions : ∀ x, Bindings.get? x before.frame.functions ≠ none →
    Bindings.get? x after.frame.functions ≠ none
  values : ∀ x, Bindings.get? x after.frame.values ≠ Bindings.get? x before.frame.values →
    e.Names .setq x
  functions : ∀ x, Bindings.get? x after.frame.functions ≠ Bindings.get? x before.frame.functions →
    e.Names .defun x

theorem Task.Writes.confinedTo {e : Value} {env env' : Env} (h : (Task.expr e).Writes env env') :
    Env.ConfinedTo e env env' where
  outer := h.outer
  keepsValues _ := h.values.get?_ne_none
  keepsFunctions _ := h.functions.get?_ne_none
  values _ hx := Classical.byContradiction fun hnot => hx (h.values.get?_eq hnot)
  functions _ hx := Classical.byContradiction fun hnot => hx (h.functions.get?_eq hnot)

theorem Task.Writes.eq_of_none {t : Task} {env env' : Env} (h : t.Writes env env')
    (hsetq : ∀ x, ¬t.Names .setq x) (hdefun : ∀ x, ¬t.Names .defun x) : env' = env := by
  obtain ⟨⟨values, functions⟩, outer⟩ := env
  obtain ⟨⟨values', functions'⟩, outer'⟩ := env'
  have houter : outer' = outer := h.outer
  have hvalues : values' = values := h.values.eq_of_none hsetq
  have hfunctions : functions' = functions := h.functions.eq_of_none hdefun
  rw [houter, hvalues, hfunctions]

/-- Nothing leaks out of a scope, whether evaluation comes to a value or fails: the environment
changes only as the expression itself says. A call leaves it as its operands alone leave it,
whatever the body does, and an expression that gives no name to `setq` or `defun` leaves it as it
is. -/
theorem evaluate_confined (c : Conditions) (room : Nat) (depth : Int) (e : Value)
    (s : EvalState) :
    Env.ConfinedTo e s.env (evaluate c room depth e s).2.env ∧
    (∀ head operands name f, e = .list (head :: operands) →
      operatorName (room - 1) head = .ok name → isReserved name = false →
      s.env.getFunction name = .ok f →
      (evaluate c room depth e s).2.env =
        (Eval.sequence (evaluate c (room - 2) depth) operands s).2.env) ∧
    ((∀ x, ¬e.Names .setq x) → (∀ x, ¬e.Names .defun x) →
      (evaluate c room depth e s).2.env = s.env) := by
  have writes := (runs_evaluate c room depth e s).writes
  refine ⟨writes.confinedTo, ?_, writes.eq_of_none⟩
  rintro head operands name f rfl hname hreserved hfun
  exact env_evaluate_call c room depth hname hreserved hfun

end PocketLisp
