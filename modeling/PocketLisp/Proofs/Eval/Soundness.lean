import PocketLisp.Proofs.Eval.Confinement
import PocketLisp.Proofs.Eval.DepthLimit
import PocketLisp.Proofs.Reader.Legible

/-!
Sound environments: the names in them are names that reading can produce, the values are values of
the language, and the functions are as `defun` makes them. Evaluating what reading can produce keeps
an environment sound in every state on the way. What is printed for a number or a list is no name,
so in a sound environment no such head is the head of a call.
-/
namespace PocketLisp

open Reader

/-- What holds of every variable and of every function that a frame binds. -/
structure Frame.Every (P : String → Value → Prop) (Q : String → Function → Prop) (f : Frame) :
    Prop where
  values : ∀ p ∈ f.values, P p.1 p.2
  functions : ∀ p ∈ f.functions, Q p.1 p.2

def Env.Every (P : String → Value → Prop) (Q : String → Function → Prop) (env : Env) : Prop :=
  ∀ f ∈ env.frames, f.Every P Q

section Every

variable {P : String → Value → Prop} {Q : String → Function → Prop}

namespace Frame

theorem every_empty : Frame.empty.Every P Q := ⟨by simp [empty], by simp [empty]⟩

namespace Every

variable {f : Frame}

theorem setVariable (h : f.Every P Q) {x : String} {v : Value} (hv : P x v) :
    (f.setVariable x v).Every P Q where
  values := by
    intro p hp
    rcases Bindings.mem_insert hp with rfl | hp
    · exact hv
    · exact h.values p hp
  functions := h.functions

theorem setFunction (h : f.Every P Q) {x : String} {g : Function} (hg : Q x g) :
    (f.setFunction x g).Every P Q where
  values := h.values
  functions := by
    intro p hp
    rcases Bindings.mem_insert hp with rfl | hp
    · exact hg
    · exact h.functions p hp

theorem bindParams (h : f.Every P Q) {names : List String} {args : List Value}
    (hargs : ∀ x ∈ names, ∀ v ∈ args, P x v) :
    (Frame.bindParams (names.map .sym) args f).Every P Q := by
  induction names generalizing args f with
  | nil => cases args <;> exact h
  | cons x names ih =>
    cases args with
    | nil => exact h
    | cons v args =>
      refine ih (h.setVariable (hargs x List.mem_cons_self v List.mem_cons_self)) fun y hy w hw => ?_
      exact hargs y (List.mem_cons_of_mem x hy) w (List.mem_cons_of_mem v hw)

end Every

end Frame

theorem Env.every_empty : Env.empty.Every P Q := by
  intro f hf
  rw [List.mem_singleton.mp hf]
  exact Frame.every_empty

namespace Env.Every

variable {env : Env}

theorem setVariable (h : env.Every P Q) {x : String} {v : Value} (hv : P x v) :
    (env.setVariable x v).Every P Q := by
  intro f hf
  rcases List.mem_cons.mp hf with rfl | hf
  · exact (h env.frame List.mem_cons_self).setVariable hv
  · exact h f (List.mem_cons_of_mem _ hf)

theorem setFunction (h : env.Every P Q) {x : String} {g : Function} (hg : Q x g) :
    (env.setFunction x g).Every P Q := by
  intro f hf
  rcases List.mem_cons.mp hf with rfl | hf
  · exact (h env.frame List.mem_cons_self).setFunction hg
  · exact h f (List.mem_cons_of_mem _ hf)

theorem push (h : env.Every P Q) {f : Frame} (hf : f.Every P Q) : (env.push f).Every P Q := by
  intro g hg
  rcases List.mem_cons.mp hg with rfl | hg
  · exact hf
  · exact h g hg

theorem of_valueOf? (h : env.Every P Q) {x : String} {v : Value} (hv : env.valueOf? x = some v) :
    P x v := by
  obtain ⟨frame, hframe, hget⟩ := List.exists_of_findSome?_eq_some hv
  exact (h frame hframe).values _ (Bindings.mem_of_get? hget)

theorem of_functionOf? (h : env.Every P Q) {x : String} {f : Function}
    (hf : env.functionOf? x = some f) : Q x f := by
  obtain ⟨frame, hframe, hget⟩ := List.exists_of_findSome?_eq_some hf
  exact (h frame hframe).functions _ (Bindings.mem_of_get? hget)

end Env.Every

end Every

/-- A function as `defun` makes it from what can be read. -/
structure Function.Sound (f : Function) : Prop where
  params : ∃ names : List String, f.params = names.map .sym ∧ names.Nodup ∧ ∀ x ∈ names, IsName x
  body : Legible f.body

structure Frame.Sound (f : Frame) : Prop where
  values : ∀ p ∈ f.values, IsName p.1 ∧ p.2.isProper = true
  functions : ∀ p ∈ f.functions, IsName p.1 ∧ isReserved p.1 = false ∧ p.2.Sound

def Env.global (env : Env) : Frame := env.outer.getLast?.getD env.frame

structure Env.Sound (env : Env) : Prop where
  frames : ∀ f ∈ env.frames, f.Sound
  t : Bindings.get? "t" env.global.values ≠ none
  nil : Bindings.get? "nil" env.global.values ≠ none

theorem Bindings.get?_insert_ne_none {α : Type} {x : String} {b : Bindings α}
    (h : b.get? x ≠ none) (y : String) (a : α) : (b.insert y a).get? x ≠ none := by
  by_cases hxy : x = y
  · simp [hxy]
  · rwa [get?_insert_of_ne a b hxy]

namespace Env

theorem global_push (f : Frame) (env : Env) : (env.push f).global = env.global := by
  simp [global, push, frames, List.getLast?_cons]

theorem values_global_setFunction (x : String) (g : Function) (env : Env) :
    (env.setFunction x g).global.values = env.global.values := by
  unfold global setFunction
  cases env.outer.getLast? <;> rfl

theorem get?_global_setVariable {env : Env} {x : String}
    (h : Bindings.get? x env.global.values ≠ none) (y : String) (v : Value) :
    Bindings.get? x (env.setVariable y v).global.values ≠ none := by
  unfold global setVariable at *
  cases hlast : env.outer.getLast? with
  | none =>
    rw [hlast] at h
    exact Bindings.get?_insert_ne_none h y v
  | some f =>
    rw [hlast] at h
    exact h

namespace Sound

variable {env : Env}

theorem every (h : env.Sound) :
    env.Every (fun x v => IsName x ∧ v.isProper = true)
      fun x g => IsName x ∧ isReserved x = false ∧ g.Sound :=
  fun f hf => ⟨(h.frames f hf).values, (h.frames f hf).functions⟩

theorem of_every
    (h : env.Every (fun x v => IsName x ∧ v.isProper = true)
      fun x g => IsName x ∧ isReserved x = false ∧ g.Sound)
    (ht : Bindings.get? "t" env.global.values ≠ none)
    (hnil : Bindings.get? "nil" env.global.values ≠ none) : env.Sound :=
  ⟨fun f hf => ⟨(h f hf).values, (h f hf).functions⟩, ht, hnil⟩

theorem setVariable (h : env.Sound) {x : String} {v : Value} (hx : IsName x)
    (hv : v.isProper = true) : (env.setVariable x v).Sound :=
  .of_every (h.every.setVariable ⟨hx, hv⟩) (get?_global_setVariable h.t x v)
    (get?_global_setVariable h.nil x v)

theorem setFunction (h : env.Sound) {x : String} {g : Function} (hx : IsName x)
    (hreserved : isReserved x = false) (hg : g.Sound) : (env.setFunction x g).Sound := by
  refine .of_every (h.every.setFunction ⟨hx, hreserved, hg⟩) ?_ ?_
  · rw [values_global_setFunction]
    exact h.t
  · rw [values_global_setFunction]
    exact h.nil

theorem push_bindParams (h : env.Sound) {names : List String} {args : List Value}
    (hnames : ∀ x ∈ names, IsName x) (hargs : ∀ v ∈ args, v.isProper = true) :
    (env.push (Frame.bindParams (names.map .sym) args .empty)).Sound := by
  refine .of_every (h.every.push (Frame.every_empty.bindParams fun x hx v hv => ?_)) ?_ ?_
  · exact ⟨hnames x hx, hargs v hv⟩
  · rw [global_push]
    exact h.t
  · rw [global_push]
    exact h.nil

theorem of_functionOf? (h : env.Sound) {x : String} {f : Function}
    (hf : env.functionOf? x = some f) : IsName x ∧ isReserved x = false ∧ f.Sound :=
  h.every.of_functionOf? hf

theorem of_valueOf? (h : env.Sound) {x : String} {v : Value} (hv : env.valueOf? x = some v) :
    v.isProper = true :=
  (h.every.of_valueOf? hv).2

end Sound

end Env

/-- If there is a value, it is one of the language. -/
def ProperOutcome (r : Except Failure Value) : Prop := ∀ v, r = .ok v → v.isProper = true

namespace ProperOutcome

theorem error (e : Failure) : ProperOutcome (.error e) := fun _ h => nomatch h

theorem ok {v : Value} (h : v.isProper = true) : ProperOutcome (.ok v) := by
  intro w hw
  cases hw
  exact h

theorem bind {α : Type} {x : Except Failure α} {f : α → Except Failure Value}
    (h : ∀ a, ProperOutcome (f a)) : ProperOutcome (x >>= f) := by
  cases x with
  | error e => exact .error e
  | ok a => exact h a

theorem blamed {r : Except Failure Value} (h : ProperOutcome r) (form : Value) :
    ProperOutcome (blamed form r) := by
  rcases r with (f | x) | v
  · exact .error _
  · exact .error _
  · exact h

end ProperOutcome

theorem Value.isProperList_iff {vs : List Value} :
    isProperList vs = true ↔ ∀ v ∈ vs, v.isProper = true := by
  induction vs with
  | nil => simp [isProperList]
  | cons v vs ih => simp [isProperList, ih]

theorem Value.isProper_ofBool (b : Bool) : (ofBool b).isProper = true := by
  cases b <;> rfl

namespace Operator

theorem num_of_inRange {op : Operator} {n : Option Number} {v : Value}
    (h : op.inRange n = .ok v) : ∃ m, v = .num m := by
  cases n with
  | none => cases h
  | some m =>
    cases h
    exact ⟨m, rfl⟩

theorem float_of_floatQuotient {x : Binary64} {ns : List Number} {v : Value}
    (h : floatQuotient x ns = .ok v) : ∃ y, v = .float y := by
  induction ns generalizing x with
  | nil => exact ⟨x, (Except.ok.inj h).symm⟩
  | cons n ns ih =>
    rw [floatQuotient] at h
    split at h
    · cases h
    · split at h
      · cases h
      · exact ih h

theorem num_of_quotient {n : Number} {ns : List Number} {v : Value}
    (h : quotient n ns = .ok v) : ∃ m, v = .num m := by
  have inexact {x : Binary64} {ms : List Number} (hv : floatQuotient x ms = .ok v) :
      ∃ m, v = .num m := by
    obtain ⟨y, rfl⟩ := float_of_floatQuotient hv
    exact ⟨.float y, rfl⟩
  unfold quotient at h
  split at h
  · exact inexact h
  · split at h
    · unfold exactQuotient at h
      dsimp only at h
      split at h
      · cases h
        exact ⟨_, rfl⟩
      · exact num_of_inRange h
    · split at h
      · cases h
      · exact inexact h

theorem proper_inRange (op : Operator) (n : Option Number) : ProperOutcome (op.inRange n) := by
  intro v h
  obtain ⟨m, rfl⟩ := num_of_inRange h
  rfl

theorem proper_quotient (n : Number) (ns : List Number) : ProperOutcome (quotient n ns) := by
  intro v h
  obtain ⟨m, rfl⟩ := num_of_quotient h
  rfl

theorem proper_divide (room : Nat) (n : Number) (ns : List Number) :
    ProperOutcome (divide room n ns) := by
  unfold divide
  split
  · split <;> exact .error _
  · exact proper_quotient n ns

theorem proper_compare (room : Nat) (a b : Value) : ProperOutcome (compare room a b) := by
  unfold compare
  split
  · exact .ok (Value.isProper_ofBool _)
  · exact .error _

theorem proper_apply (op : Operator) (room : Nat) {args : List Value}
    (h : ∀ v ∈ args, v.isProper = true) : ProperOutcome (op.apply room args) := by
  unfold apply
  split
  · exact .bind fun _ => proper_inRange _ _
  · exact .bind fun _ => proper_inRange _ _
  · exact .bind fun _ => .bind fun _ => proper_inRange _ _
  · exact .bind fun _ => .bind fun _ => proper_divide _ _ _
  · exact .bind fun _ => .bind fun _ => .ok (Value.isProper_ofBool _)
  · exact .bind fun _ => .bind fun _ => .ok (Value.isProper_ofBool _)
  · exact proper_compare _ _ _
  · exact .ok (Value.isProper_ofBool _)
  · exact .ok (Value.isProperList_iff.mpr h)
  · exact .error _

end Operator

namespace SpecialForm

theorem distinct_iff {xs : List String} : distinct xs = true ↔ xs.Nodup := by
  induction xs with
  | nil => simp [distinct]
  | cons x xs ih => simp [distinct, ih]

theorem eq_map_paramNames {params : List Value} (h : badParam? params = none) :
    params = (paramNames params).map .sym := by
  induction params with
  | nil => rfl
  | cons p params ih =>
    cases p with
    | sym x =>
      have hrest : badParam? params = none := by simpa [badParam?, Value.isSym] using h
      simpa [paramNames] using ih hrest
    | num n => simp [badParam?, Value.isSym] at h
    | list vs => simp [badParam?, Value.isSym] at h
    | foreign x => simp [badParam?, Value.isSym] at h

theorem sound_of_check_define {f : SpecialForm} {operands : List Value} {x : String} {g : Function}
    (hq : f.check operands = .ok (.define x g)) (h : ∀ e ∈ operands, Legible e) :
    IsName x ∧ isReserved x = false ∧ g.Sound := by
  obtain ⟨-, rfl, hbad⟩ := of_check_define hq
  obtain ⟨hreserved, hdistinct⟩ := guards_of_check_define hq
  have hparams : Legible (.list g.params) := h _ (by simp)
  have hnames : ∀ y ∈ paramNames g.params, IsName y := by
    intro y hy
    refine legible_sym_iff.mp (hparams.item ?_)
    rw [eq_map_paramNames hbad]
    exact List.mem_map_of_mem hy
  refine ⟨legible_sym_iff.mp (h _ (by simp)), hreserved, ?_, h _ (by simp)⟩
  exact ⟨_, eq_map_paramNames hbad, distinct_iff.mp hdistinct, hnames⟩

end SpecialForm

/-- All that a task has to evaluate satisfies a condition. -/
def Task.Only (E : Value → Prop) : Task → Prop
  | .expr e => E e
  | .form _ operands => ∀ e ∈ operands, E e
  | .all es => ∀ e ∈ es, E e
  | .clauses cs => ∀ clause ∈ cs, E clause.1 ∧ E clause.2

theorem Task.Only.part {E : Value → Prop}
    (hitem : ∀ {items : List Value} {v : Value}, E (.list items) → v ∈ items → E v) {t u : Task}
    (ht : t.Only E) (h : u.Part t) : u.Only E := by
  cases h with
  | form _ => exact fun e he => hitem ht (List.mem_cons_of_mem _ he)
  | assigned hq =>
    obtain ⟨-, rfl⟩ := SpecialForm.of_check_assign hq
    exact ht _ (by simp)
  | selected hq =>
    intro clause hclause
    have hmem := SpecialForm.mem_of_clauses (SpecialForm.of_check_select hq).2 hclause
    exact ⟨hitem (ht _ hmem) (by simp), hitem (ht _ hmem) (by simp)⟩
  | operands => exact ht
  | first => exact ht _ List.mem_cons_self
  | rest => exact fun e he => ht e (List.mem_cons_of_mem _ he)
  | test => exact (ht _ List.mem_cons_self).1
  | result => exact (ht _ List.mem_cons_self).2
  | later => exact fun clause hclause => ht clause (List.mem_cons_of_mem _ hclause)

/-- Conditions on expressions and on environments that evaluation keeps up: what is bound is a value
of the language, what is assigned or defined may be, and functions can be called. -/
structure Upkeep (E : Value → Prop) (S : Env → Prop) : Prop where
  item : ∀ {items : List Value} {v : Value}, E (.list items) → v ∈ items → E v
  proper : ∀ {e : Value}, E e → e.isProper = true
  value : ∀ {env : Env} {x : String} {v : Value}, S env → env.valueOf? x = some v →
    v.isProper = true
  assign : ∀ {env : Env} {x : String} {v : Value}, S env → E (.sym x) → v.isProper = true →
    S (env.setVariable x v)
  define : ∀ {env : Env} {f : SpecialForm} {operands : List Value} {x : String} {g : Function},
    S env → f.check operands = .ok (.define x g) → (∀ e ∈ operands, E e) → S (env.setFunction x g)
  params : ∀ {env : Env} {x : String} {f : Function}, S env → env.functionOf? x = some f →
    f.params.any Value.isList = false
  body : ∀ {env : Env} {x : String} {f : Function}, S env → env.functionOf? x = some f → E f.body
  enter : ∀ {env env' : Env} {x : String} {f : Function} {vs : List Value}, S env →
    env.functionOf? x = some f → S env' → (∀ v ∈ vs, v.isProper = true) →
    S (env'.push (Frame.bindParams f.params vs .empty))

/-- A run that starts under such conditions ends under them and comes to values of the language. -/
theorem Runs.upheld {E : Value → Prop} {S : Env → Prop} (upkeep : Upkeep E S) {c : Conditions}
    {room : Nat} {depth : Int} {t : Task} {s : EvalState} {r : Except Failure Value × EvalState}
    (h : Runs c room depth t s r) (ht : t.Only E) (hs : S s.env) :
    S r.2.env ∧ ProperOutcome r.1 := by
  have part : ∀ {t u : Task}, t.Only E → u.Part t → u.Only E := fun ht h => ht.part upkeep.item h
  induction h with
  | exhausted | foreign | nameless | malformed | defineUnheard | undefined =>
    exact ⟨hs, .error _⟩
  | num | empty | nil | noClause => exact ⟨hs, .ok rfl⟩
  | @sym _ _ name s =>
    refine ⟨hs, .ok ?_⟩
    cases hv : s.env.valueOf? name with
    | none => rfl
    | some v => exact upkeep.value hs hv
  | form hname _ ih =>
    have body := ih (part ht (.form hname)) hs
    exact ⟨body.1, body.2.blamed _⟩
  | quote _ hq =>
    obtain ⟨-, rfl⟩ := SpecialForm.of_check_quote hq
    exact ⟨hs, .ok (upkeep.proper (ht _ (by simp)))⟩
  | assignFails _ hq _ ih => exact ⟨(ih (part ht (.assigned hq)) hs).1, .error _⟩
  | assignUnheard _ hq _ _ ih => exact ⟨(ih (part ht (.assigned hq)) hs).1, .error _⟩
  | assign _ hq _ _ ih =>
    have value := ih (part ht (.assigned hq)) hs
    obtain ⟨-, rfl⟩ := SpecialForm.of_check_assign hq
    exact ⟨upkeep.assign value.1 (ht _ List.mem_cons_self) (value.2 _ rfl), value.2⟩
  | define _ hq _ => exact ⟨upkeep.define hs hq ht, .ok rfl⟩
  | select _ hq _ ih => exact ih (part ht (.selected hq)) hs
  | operandsFail _ _ _ ih | argumentsFail _ _ _ _ ih | arity _ _ _ _ _ ih
  | tooDeep _ _ _ _ _ _ ih | unbindable _ _ _ _ _ _ _ ih | callUnheard _ _ _ _ _ _ _ _ ih =>
    exact ⟨(ih (part ht .operands) hs).1, .error _⟩
  | @operator _ _ _ _ _ op vs _ _ _ _ ih =>
    have args := ih (part ht .operands) hs
    exact ⟨args.1, op.proper_apply _ (Value.isProperList_iff.mp (args.2 _ rfl))⟩
  | @call _ _ name _ _ f vs s' r s'' _ _ hfun _ _ _ _ _ hbody ih ihbody =>
    have args := ih (part ht .operands) hs
    have hf := Env.functionOf?_of_getFunction hfun
    have entered := upkeep.enter hs hf args.1 (Value.isProperList_iff.mp (args.2 _ rfl))
    have body := ihbody (upkeep.body hs hf) entered
    rw [EvalState.env_leave hbody.outer_eq]
    exact ⟨args.1, body.2⟩
  | firstFails _ ih => exact ⟨(ih (part ht .first) hs).1, .error _⟩
  | restFails _ _ ih ihs =>
    have first := ih (part ht .first) hs
    exact ⟨(ihs (part ht .rest) first.1).1, .error _⟩
  | cons _ _ ih ihs =>
    have first := ih (part ht .first) hs
    have rest := ihs (part ht .rest) first.1
    refine ⟨rest.1, .ok ?_⟩
    have hv := first.2 _ rfl
    have hvs : Value.isProperList _ = true := rest.2 _ rfl
    simp [Value.isProper, Value.isProperList, hv, hvs]
  | otherwise _ _ ih => exact ih (part ht .result) hs
  | testFails _ _ ih => exact ⟨(ih (part ht .test) hs).1, .error _⟩
  | testHolds _ _ _ _ ih ihr => exact ihr (part ht .result) (ih (part ht .test) hs).1
  | testDoesNot _ _ _ _ ih ihr => exact ihr (part ht .later) (ih (part ht .test) hs).1

theorem Upkeep.lasting {E : Value → Prop} {S : Env → Prop} (upkeep : Upkeep E S) (c : Conditions) :
    Lasting c (Task.Only E) fun _ s => S s.env where
  part ht h := ht.part upkeep.item h
  run ht hs h := (h.upheld upkeep ht hs).1
  body := by
    intro room depth name operands vs f s s' ht hs hfun h _
    obtain ⟨hs', hvs⟩ := h.upheld upkeep ht hs
    have hf := Env.functionOf?_of_getFunction hfun
    exact ⟨upkeep.body hs hf, upkeep.enter hs hf hs' (Value.isProperList_iff.mp (hvs _ rfl))⟩

theorem upkeep_sound : Upkeep Reader.Legible Env.Sound where
  item h hv := h.item hv
  proper := isProper_of_legible
  value hs := hs.of_valueOf?
  assign hs hx := hs.setVariable (legible_sym_iff.mp hx)
  define hs hq ht := by
    obtain ⟨hx, hreserved, hg⟩ := SpecialForm.sound_of_check_define hq ht
    exact hs.setFunction hx hreserved hg
  params := by
    intro env x f hs hf
    obtain ⟨-, -, ⟨names, hparams, -, -⟩, -⟩ := hs.of_functionOf? hf
    simp [hparams, Value.isList]
  body hs hf := (hs.of_functionOf? hf).2.2.body
  enter := by
    intro env env' x f vs hs hf hs' hvs
    obtain ⟨-, -, ⟨names, hparams, -, hnames⟩, -⟩ := hs.of_functionOf? hf
    rw [hparams]
    exact hs'.push_bindParams hnames hvs

theorem lasting_sound (c : Conditions) :
    Lasting c (Task.Only Reader.Legible) fun _ s => s.env.Sound :=
  upkeep_sound.lasting c

theorem Runs.sound {c : Conditions} {room : Nat} {depth : Int} {t : Task} {s : EvalState}
    {r : Except Failure Value × EvalState} (h : Runs c room depth t s r)
    (ht : t.Only Reader.Legible) (hs : s.env.Sound) : r.2.env.Sound ∧ ProperOutcome r.1 :=
  h.upheld upkeep_sound ht hs

/-- The heads that name nothing: integers, finite floating-point numbers and lists. -/
def Value.isAnonymous : Value → Bool
  | .num (.int _) => true
  | .num (.float x) => x.isFinite
  | .list _ => true
  | _ => false

theorem isName_of_isReserved {x : String} (h : isReserved x = true) : IsName x := by
  simp only [isReserved, Bool.or_eq_true, Option.isSome_iff_exists] at h
  rcases h with ⟨op, hop⟩ | ⟨f, hf⟩
  · have hname : op.name = x := by simpa using List.find?_some hop
    subst hname
    cases op <;> decide +kernel
  · have hname := SpecialForm.name_of_ofName? hf
    subst hname
    cases f <;> decide +kernel

theorem not_isName_print {n : Number} (h : (Value.num n).isAnonymous = true) {text : String}
    (htext : n.print = .ok text) : ¬IsName text := by
  intro hname
  cases n with
  | int n =>
    rw [Number.print, intText] at htext
    split at htext
    · rename_i hlimit
      cases htext
      obtain ⟨numeral, hread, -⟩ := Numeral.value_intChars hlimit
      have hnone := hname.notNumeral
      rw [Numeral.ofText?, String.toList_ofList, hread] at hnone
      cases hnone
    · cases htext
  | float x =>
    cases htext
    obtain ⟨numeral, hread, -⟩ := Numeral.value_toText h
    have hnone := hname.notNumeral
    rw [hread] at hnone
    cases hnone

theorem not_isName_list (parts : List String) : ¬IsName (Style.printed.list parts) := by
  intro hname
  have hopen : '(' ∈ (Style.printed.list parts).toList := by
    simp [Style.list, Style.printed]
  have hchars := hname.chars '(' hopen
  exact absurd hchars.1 (by decide)

/-- What is printed for a head that names nothing is no name. -/
theorem not_isName_render {head : Value} (h : head.isAnonymous = true) {text : String}
    (htext : head.render = .ok text) : ¬IsName text := by
  cases head with
  | num n => exact not_isName_print h htext
  | sym name => cases h
  | foreign x => cases h
  | list items =>
    have hwrite : (Value.writeList .printed items).map Style.printed.list = .ok text := htext
    cases hparts : Value.writeList .printed items with
    | error x =>
      rw [hparts] at hwrite
      cases hwrite
    | ok parts =>
      rw [hparts] at hwrite
      cases hwrite
      exact not_isName_list parts

section Anonymous

variable {head : Value} {text : String}

theorem dispatch_anonymous (ha : head.isAnonymous = true) :
    head.render = head.write .printed ∧
      ∀ room, operatorName room head = head.writeWithin .printed room := by
  cases head with
  | num n => exact ⟨rfl, fun _ => rfl⟩
  | list items => exact ⟨rfl, fun _ => rfl⟩
  | sym name => cases ha
  | foreign x => cases ha

theorem render_of_legible (h : Legible head) (ha : head.isAnonymous = true) :
    ∃ text, head.render = .ok text := by
  rw [(dispatch_anonymous ha).1]
  exact write_of_legible h

theorem operatorName_anonymous (h : Legible head) (ha : head.isAnonymous = true)
    (htext : head.render = .ok text) (room : Nat) :
    operatorName room head = if head.nesting ≤ room then .ok text else .error .exhausted := by
  obtain ⟨hrender, hname⟩ := dispatch_anonymous ha
  rw [hname]
  by_cases hroom : head.nesting ≤ room
  · rw [if_pos hroom, Value.writeWithin_of_nesting_le .printed hroom, ← hrender, htext]
  · rw [if_neg hroom, writeWithin_exhausted h (Nat.lt_of_not_le hroom)]

theorem getFunction_of_not_isName {env : Env} (h : env.Sound) {x : String} (hx : ¬IsName x) :
    env.getFunction x = .error { cause := .undefinedFunction x, form := some (.sym x) } := by
  have hnone : env.functionOf? x = none := by
    cases hf : env.functionOf? x with
    | none => rfl
    | some f => exact absurd (h.of_functionOf? hf).1 hx
  rw [Env.getFunction, hnone]

/-- What comes of a form whose head names nothing, by the host frames that are left to print it. -/
def anonymousFailure (head : Value) (text : String) (room : Nat) : Failure :=
  if head.nesting < room then
    .fault { cause := .undefinedFunction text, form := some (.sym text) }
  else .escape .exhausted

variable {s : EvalState} (hs : s.env.Sound) (h : Legible head) (ha : head.isAnonymous = true)
  (htext : head.render = .ok text)
include hs h ha htext

/-- The step does not depend on the evaluators for the operands, and leaves the state alone. -/
theorem evalStep_anonymous (c : Conditions) (room : Nat) (direct nested : Evaluator) (depth : Int)
    (operands : List Value) :
    evalStep c room direct nested depth (.list (head :: operands)) s =
      (.error (anonymousFailure head text (room + 1)), s) := by
  have hname := operatorName_anonymous h ha htext room
  by_cases hroom : head.nesting ≤ room
  · have hno := not_isName_render ha htext
    have hreserved : isReserved text = false := by
      simpa using fun hr => hno (isName_of_isReserved hr)
    obtain ⟨hop, hf⟩ : Operator.ofName? text = none ∧ SpecialForm.ofName? text = none := by
      simpa [isReserved] using hreserved
    rw [if_pos hroom] at hname
    rw [evalStep_form hname, evalForm_call hf hop, call_undefined (getFunction_of_not_isName hs hno),
      anonymousFailure, if_pos (Nat.lt_succ_of_le hroom)]
    rfl
  · rw [if_neg hroom] at hname
    rw [evalStep_nameless hname, anonymousFailure, if_neg (by omega)]

theorem evaluate_anonymous (c : Conditions) (room : Nat) (depth : Int) (operands : List Value) :
    evaluate c room depth (.list (head :: operands)) s =
      (.error (anonymousFailure head text room), s) := by
  cases room with
  | zero => rfl
  | succ room =>
    rw [evaluate_succ]
    exact evalStep_anonymous hs h ha htext c room _ _ depth operands

/-- No operand is evaluated: the only evaluation is that of the form. -/
theorem throughout_anonymous (c : Conditions) (room : Nat) (depth : Int) (operands : List Value) :
    Throughout c room depth (.list (head :: operands)) s
      fun m => m.expr = .list (head :: operands) := by
  intro hook hhook
  rw [evaluate_anonymous hs h ha htext]
  cases room with
  | zero => exact hhook _ _ _ _ rfl
  | succ room =>
    rw [evaluateVia_succ, hhook _ _ _ _ rfl]
    exact evalStep_anonymous hs h ha htext c room _ _ depth operands

end Anonymous

end PocketLisp
