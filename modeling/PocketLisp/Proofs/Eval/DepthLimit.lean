import PocketLisp.Proofs.Eval.Course

/-!
The limit on nested calls under two values. It shows in nothing but runs that are cut off: a run
that is not cut off is the same under a higher limit, and a run in which no body starts deeper than
a lower limit is the same under that one. The depths at which bodies start are read off the log.
-/
namespace PocketLisp

/-- The outcome is not that calls are nested too deeply, for no limit. -/
def Uncut {α : Type} (x : Except Failure α) : Prop := ∀ limit, ¬CutOff limit x

namespace Uncut

variable {α : Type}

theorem ok (a : α) : Uncut (.ok a : Except Failure α) := by
  rintro limit ⟨f, name, he, hcause⟩
  cases he

theorem escape (x : Escape) : Uncut (.error (.escape x) : Except Failure α) := by
  rintro limit ⟨f, name, he, hcause⟩
  cases he

theorem fault {f : Fault} (h : f.cause.isCallDepth = false) :
    Uncut (.error (.fault f) : Except Failure α) := by
  rintro limit ⟨g, name, he, hcause⟩
  cases he
  rw [hcause] at h
  cases h

theorem because {cause : Cause} (h : cause.isCallDepth = false) :
    Uncut (.error (.because cause) : Except Failure α) :=
  fault h

end Uncut

/-- A function cannot be called: there is none, or calls are nested too deeply. -/
def Fault.Kind.isOfCall : Fault.Kind → Bool
  | .undefinedFunction | .recursion => true
  | _ => false

/-- A fault, if there is one, blames no form yet, and it is not that a function cannot be called. -/
def Unblamed {α : Type} (x : Except Failure α) : Prop :=
  ∀ f, x = .error (.fault f) → f.form = none ∧ f.kind.isOfCall = false

namespace Unblamed

variable {α β : Type}

theorem ok (a : α) : Unblamed (.ok a : Except Failure α) := fun _ h => nomatch h

theorem escape (x : Escape) : Unblamed (.error (.escape x) : Except Failure α) :=
  fun _ h => nomatch h

theorem because {cause : Cause} (hkind : cause.kind.isOfCall = false) :
    Unblamed (.error (.because cause) : Except Failure α) := by
  intro f h
  cases h
  exact ⟨rfl, hkind⟩

theorem bind {x : Except Failure α} {f : α → Except Failure β} (hx : Unblamed x)
    (hf : ∀ a, Unblamed (f a)) : Unblamed (x >>= f) := by
  cases x with
  | error e =>
    intro g h
    cases h
    exact hx g rfl
  | ok a => exact hf a

end Unblamed

namespace Operator

theorem unblamed_number (op : Operator) (room : Nat) (v : Value) : Unblamed (op.number room v) := by
  unfold number
  cases v.asNumber? with
  | some n => exact .ok n
  | none =>
    dsimp only
    cases v.renderWithin room with
    | error e => exact .escape e
    | ok shown => exact .because rfl

theorem unblamed_numbers (op : Operator) (room : Nat) (vs : List Value) :
    Unblamed (op.numbers room vs) := by
  induction vs with
  | nil => exact .ok []
  | cons v vs ih => exact (op.unblamed_number room v).bind fun n => ih.bind fun ns => .ok _

theorem unblamed_inRange (op : Operator) (n : Option Number) : Unblamed (op.inRange n) := by
  cases h : op.inRange n with
  | error e =>
    rw [error_of_inRange h]
    exact .because rfl
  | ok v => exact .ok v

theorem unblamed_quotient (n : Number) (ns : List Number) : Unblamed (quotient n ns) := by
  cases h : quotient n ns with
  | error e =>
    rcases error_of_quotient h with rfl | rfl
    · exact .because rfl
    · exact .escape _
  | ok v => exact .ok v

theorem unblamed_divide (room : Nat) (n : Number) (ns : List Number) : Unblamed (divide room n ns) := by
  unfold divide
  split
  · split
    · exact .because rfl
    · exact .escape _
  · exact unblamed_quotient n ns

theorem unblamed_compare (room : Nat) (a b : Value) : Unblamed (compare room a b) := by
  unfold compare
  split
  · exact .ok _
  · exact .escape _

theorem unblamed_apply (op : Operator) (room : Nat) (args : List Value) :
    Unblamed (op.apply room args) := by
  unfold apply
  split
  · exact (unblamed_numbers .add room _).bind fun ns => unblamed_inRange _ _
  · exact (unblamed_numbers .mul room _).bind fun ns => unblamed_inRange _ _
  · exact (unblamed_number .sub room _).bind fun n =>
      (unblamed_numbers .sub room _).bind fun ns => unblamed_inRange _ _
  · exact (unblamed_number .div room _).bind fun n =>
      (unblamed_numbers .div room _).bind fun ns => unblamed_divide room n ns
  · exact (unblamed_number .less room _).bind fun m =>
      (unblamed_number .less room _).bind fun n => .ok _
  · exact (unblamed_number .greater room _).bind fun m =>
      (unblamed_number .greater room _).bind fun n => .ok _
  · exact unblamed_compare room _ _
  · exact .ok _
  · exact .ok _
  · exact .because rfl

end Operator

theorem SpecialForm.unblamed_check {f : SpecialForm} {operands : List Value} {x : Refusal}
    (h : f.check operands = .error x) (room : Nat) :
    Unblamed (.error (x.failure room) : Except Failure Value) := by
  have hchecked := f.checked operands
  rw [h] at hchecked
  cases hchecked with
  | plain hcause => exact .because (by rw [hcause]; rfl)
  | @showing _ _ cause v hcause =>
    simp only [Refusal.failure]
    cases v.renderWithin room with
    | error e => exact .escape e
    | ok text => exact .because (by rw [hcause]; rfl)

theorem Env.of_getFunction_error {env : Env} {name : String} {x : Fault}
    (h : env.getFunction name = .error x) : env.functionOf? name = none ∧
      x = { cause := .undefinedFunction name, form := some (.sym name) } := by
  unfold getFunction at h
  split at h
  · cases h
  · cases h
    exact ⟨‹_›, rfl⟩

/-- The log has grown, by bodies that started within the limit and by other events. -/
def Logged (limit : Int) (s s' : EvalState) : Prop :=
  ∃ new, s'.log = new ++ s.log ∧ ∀ name args k, .called name args k ∈ new → k ≤ limit

namespace Logged

variable {limit : Int} {s s' s'' : EvalState}

theorem refl (limit : Int) (s : EvalState) : Logged limit s s :=
  ⟨[], rfl, fun _ _ _ h => absurd h List.not_mem_nil⟩

theorem trans (h : Logged limit s s') (h' : Logged limit s' s'') : Logged limit s s'' := by
  obtain ⟨new, hlog, hnew⟩ := h
  obtain ⟨new', hlog', hnew'⟩ := h'
  refine ⟨new' ++ new, by rw [hlog', hlog, List.append_assoc], ?_⟩
  intro name args k hmem
  rcases List.mem_append.mp hmem with hmem | hmem
  · exact hnew' name args k hmem
  · exact hnew name args k hmem

theorem event {e : Event} (h : Logged limit s s') (hlog : s''.log = e :: s'.log)
    (he : ∀ name args k, e = .called name args k → k ≤ limit) : Logged limit s s'' := by
  refine h.trans ⟨[e], hlog, fun name args k hmem => ?_⟩
  exact he name args k (List.mem_singleton.mp hmem).symm

end Logged

namespace Bindings

variable {α : Type}

theorem mem_of_get? {name : String} {a : α} {b : Bindings α} (h : b.get? name = some a) :
    (name, a) ∈ b := by
  induction b with
  | nil => cases h
  | cons p b ih =>
    obtain ⟨k, v⟩ := p
    by_cases hk : k = name
    · rw [get?, if_pos hk] at h
      cases h
      exact hk ▸ List.mem_cons_self
    · rw [get?, if_neg hk] at h
      exact List.mem_cons_of_mem _ (ih h)

theorem mem_insert {name : String} {a : α} {b : Bindings α} {p : String × α}
    (h : p ∈ b.insert name a) : p = (name, a) ∨ p ∈ b := by
  induction b with
  | nil => exact .inl (List.mem_singleton.mp h)
  | cons q b ih =>
    obtain ⟨k, v⟩ := q
    by_cases hk : k = name
    · rw [insert, if_pos hk] at h
      rcases List.mem_cons.mp h with rfl | h
      · exact .inl (hk ▸ rfl)
      · exact .inr (List.mem_cons_of_mem _ h)
    · rw [insert, if_neg hk] at h
      rcases List.mem_cons.mp h with rfl | h
      · exact .inr List.mem_cons_self
      · exact (ih h).imp_right (List.mem_cons_of_mem _)

end Bindings

theorem Frame.functions_bindParams (params args : List Value) (f : Frame) :
    (bindParams params args f).functions = f.functions := by
  fun_induction bindParams params args f with
  | case1 name params v vs f ih => exact ih
  | case2 p params v vs f _ ih => exact ih
  | case3 => rfl

namespace Env

theorem functionOf?_of_getFunction {env : Env} {name : String} {f : Function}
    (h : env.getFunction name = .ok f) : env.functionOf? name = some f := by
  unfold getFunction at h
  split at h
  · rename_i g hg
    exact hg.trans (congrArg some (Except.ok.inj h))
  · cases h

/-- Every parameter of every function in scope is a symbol. -/
def Named (env : Env) : Prop :=
  ∀ f ∈ env.frames, ∀ p ∈ f.functions, ∀ v ∈ p.2.params, v.isSym = true

namespace Named

variable {env : Env}

theorem params {name : String} {f : Function} (h : env.Named)
    (hfun : env.getFunction name = .ok f) : f.params.any Value.isList = false := by
  obtain ⟨frame, hframe, hget⟩ :=
    List.exists_of_findSome?_eq_some (functionOf?_of_getFunction hfun)
  have hsym := h frame hframe _ (Bindings.mem_of_get? hget)
  rw [List.any_eq_false]
  intro v hv hlist
  cases v with
  | list vs => cases hsym _ hv
  | num n => cases hlist
  | sym name => cases hlist
  | foreign x => cases hlist

theorem setVariable (h : env.Named) (name : String) (v : Value) :
    (env.setVariable name v).Named := by
  intro f hf
  rcases List.mem_cons.mp hf with rfl | hf
  · exact h env.frame List.mem_cons_self
  · exact h f (List.mem_cons_of_mem _ hf)

theorem setFunction (h : env.Named) (name : String) {g : Function}
    (hg : ∀ v ∈ g.params, v.isSym = true) : (env.setFunction name g).Named := by
  intro f hf
  rcases List.mem_cons.mp hf with rfl | hf
  · intro p hp
    rcases Bindings.mem_insert hp with rfl | hp
    · exact hg
    · exact h env.frame List.mem_cons_self p hp
  · exact h f (List.mem_cons_of_mem _ hf)

theorem enter {s : EvalState} (h : s.env.Named) (name : String) (f : Function) (args : List Value)
    (depth : Int) : (s.enter name f args depth).env.Named := by
  intro g hg
  rcases List.mem_cons.mp hg with rfl | hg
  · intro p hp
    have hnil : (Frame.bindParams f.params args .empty).functions = [] :=
      Frame.functions_bindParams ..
    exact absurd (hnil ▸ hp) List.not_mem_nil
  · exact h g hg

end Named

end Env

theorem Runs.named {c : Conditions} {room : Nat} {depth : Int} {t : Task} {s : EvalState}
    {r : Except Failure Value × EvalState} (h : Runs c room depth t s r) (hs : s.env.Named) :
    r.2.env.Named := by
  refine h.relates (R := fun s s' => s.env.Named → s'.env.Named) (fun _ hs => hs)
    (fun h h' hs => h' (h hs)) ?_ ?_ ?_ hs
  · exact fun s x v hs => hs.setVariable x v
  · intro s x g hbad hs
    refine hs.setFunction x fun v hv => ?_
    simpa using List.find?_eq_none.mp hbad v hv
  · intro room depth name f args s r _ hbody _ hs
    rw [EvalState.env_leave hbody.outer_eq]
    exact hs

end PocketLisp
