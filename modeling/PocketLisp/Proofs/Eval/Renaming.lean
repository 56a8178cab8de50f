import PocketLisp.Proofs.Eval.Answer

/-!
Names exchanged for others, in values, functions and frames. Renamed values are written within the
same host frames and compare alike, operators have renamed answers, what is looked up is found
under the new name, and the checks of special forms come to the same. Only the names with a meaning
of their own have to stay, and the names that infinities print as, for these can be the head of a
call.
-/
namespace PocketLisp

open Reader

/-- An exchange of names for names. -/
structure Renaming where
  map : String → String
  injective : ∀ {x y}, map x = map y → x = y
  isName : ∀ {x}, IsName x → IsName (map x)
  reserved : ∀ {x}, isReserved x = true → map x = x
  t : map "t" = "t"
  nil : map "nil" = "nil"
  inf : map "inf" = "inf"
  negInf : map "-inf" = "-inf"

namespace Value

mutual

def rename (f : String → String) : Value → Value
  | .num n => .num n
  | .sym x => .sym (f x)
  | .list items => .list (renameList f items)
  | .foreign x => .foreign x

def renameList (f : String → String) : List Value → List Value
  | [] => []
  | v :: vs => v.rename f :: renameList f vs

end

@[simp] theorem renameList_eq_map (f : String → String) (vs : List Value) :
    renameList f vs = vs.map (rename f) := by
  induction vs with
  | nil => rfl
  | cons v vs ih => simp [renameList, ih]

end Value

def Function.rename (f : String → String) (g : Function) : Function :=
  ⟨g.params.map (Value.rename f), g.body.rename f⟩

/-- Rename what is bound, and change what it is bound to. -/
def Bindings.rename {α : Type} (f : String → String) (change : α → α) (b : Bindings α) :
    Bindings α :=
  b.map fun p => (f p.1, change p.2)

def Frame.rename (f : String → String) (frame : Frame) : Frame :=
  ⟨Bindings.rename f (Value.rename f) frame.values,
    Bindings.rename f (Function.rename f) frame.functions⟩

def Env.rename (f : String → String) (env : Env) : Env :=
  ⟨env.frame.rename f, env.outer.map (Frame.rename f)⟩

/-- What a cause says of itself, apart from names and values: the kind, and for a wrong number of
arguments both numbers. -/
def Cause.gist : Cause → Fault.Kind × Option (Expectation × Int)
  | .arity _ expected actual => (.arity, some (expected, actual))
  | cause => (cause.kind, none)

/-- Outcomes that correspond: values that do, faults of the same kind and with the same numbers of
arguments, or the same limit of the surroundings. -/
inductive Corresponds {α β : Type} (R : α → β → Prop) : Except Failure α → Except Failure β → Prop
  | value {a : α} {b : β} (h : R a b) : Corresponds R (.ok a) (.ok b)
  | fault {f g : Fault} (h : g.cause.gist = f.cause.gist) :
      Corresponds R (.error (.fault f)) (.error (.fault g))
  | escape {x : Escape} : Corresponds R (.error (.escape x)) (.error (.escape x))

namespace Corresponds

theorem bind {α β α' β' : Type} {R : α → β → Prop} {R' : α' → β' → Prop} {x : Except Failure α}
    {y : Except Failure β} {f : α → Except Failure α'} {g : β → Except Failure β'}
    (h : Corresponds R x y) (hf : ∀ a b, R a b → Corresponds R' (f a) (g b)) :
    Corresponds R' (x >>= f) (y >>= g) := by
  cases h with
  | value hab => exact hf _ _ hab
  | fault hgist => exact .fault hgist
  | escape => exact .escape

theorem error {α β : Type} {R : α → β → Prop} (err : Failure) :
    Corresponds R (.error err) (.error err) := by
  cases err with
  | fault f => exact .fault rfl
  | escape x => exact .escape

end Corresponds

/-! Writing and comparing renamed values. -/

namespace Value

variable (f : String → String)

mutual

theorem writeWithin_rename (st : Style) (room : Nat) (v : Value) :
    ((v.rename f).writeWithin st room).map (fun _ => ()) =
      (v.writeWithin st room).map fun _ => () := by
  match v, room with
  | .num n, _ => rfl
  | .sym x, _ => rfl
  | .foreign x, _ => rfl
  | .list items, 0 => rfl
  | .list items, room + 1 =>
    have hitems := writeListWithin_rename st room items
    simp only [rename, writeWithin]
    cases hs : writeListWithin st room items <;>
      cases hs' : writeListWithin st room (renameList f items) <;>
        simp_all [Except.map]

theorem writeListWithin_rename (st : Style) (room : Nat) (vs : List Value) :
    (writeListWithin st room (renameList f vs)).map (fun _ => ()) =
      (writeListWithin st room vs).map fun _ => () := by
  match vs with
  | [] => rfl
  | v :: vs =>
    have hv := writeWithin_rename st room v
    have hvs := writeListWithin_rename st room vs
    simp only [renameList, writeListWithin]
    cases h : v.writeWithin st room <;> cases h' : (v.rename f).writeWithin st room <;>
      cases hs : writeListWithin st room vs <;>
        cases hs' : writeListWithin st room (renameList f vs) <;>
          simp_all [Except.map, bind, Except.bind]

end

theorem renderWithin_rename (room : Nat) (v : Value) :
    ((v.rename f).renderWithin room).map (fun _ => ()) =
      (v.renderWithin room).map fun _ => () := by
  cases v with
  | num | sym | foreign => rfl
  | list items => exact writeWithin_rename f .printed room (.list items)

@[simp] theorem asNumber?_rename (v : Value) : (v.rename f).asNumber? = v.asNumber? := by
  cases v <;> rfl

@[simp] theorem isSym_rename (v : Value) : (v.rename f).isSym = v.isSym := by
  cases v <;> rfl

@[simp] theorem isList_rename (v : Value) : (v.rename f).isList = v.isList := by
  cases v <;> rfl

variable {f}

mutual

theorem sameWithin?_rename (hf : ∀ {x y}, f x = f y → x = y) (room : Nat) (a b : Value) :
    sameWithin? room (a.rename f) (b.rename f) = sameWithin? room a b := by
  match a, b with
  | .list as, .list bs =>
    have hitems := sameListWithin?_rename hf (room - framesPerLevel) as bs
    simp only [renameList_eq_map] at hitems
    simp [rename, sameWithin?, hitems]
  | .sym x, .sym y =>
    by_cases hxy : x = y
    · simp [rename, sameWithin?, hxy]
    · have hne : f x ≠ f y := fun h => hxy (hf h)
      simp [rename, sameWithin?, hxy, hne]
  | .num _, .num _ | .num _, .sym _ | .num _, .list _ | .num _, .foreign _ => rfl
  | .sym _, .num _ | .sym _, .list _ | .sym _, .foreign _ => rfl
  | .list _, .num _ | .list _, .sym _ | .list _, .foreign _ => rfl
  | .foreign _, .num _ | .foreign _, .sym _ | .foreign _, .list _ | .foreign _, .foreign _ => rfl

theorem sameListWithin?_rename (hf : ∀ {x y}, f x = f y → x = y) (room : Nat)
    (as bs : List Value) :
    sameListWithin? room (renameList f as) (renameList f bs) = sameListWithin? room as bs := by
  match as, bs with
  | [], [] | [], _ :: _ | _ :: _, [] => rfl
  | a :: as, b :: bs =>
    simp only [renameList, sameListWithin?, sameWithin?_rename hf room a b,
      sameListWithin?_rename hf room as bs]

end

end Value

theorem Refusal.corresponds_showing {α : Type} {R : α → α → Prop} (f : String → String)
    (cause cause' : String → Cause) (hcause : ∀ text text', (cause' text').gist = (cause text).gist)
    (v : Value) (room : Nat) :
    Corresponds R (.error ((Refusal.showing cause v).failure room))
      (.error ((Refusal.showing cause' (v.rename f)).failure room)) := by
  have hrender := v.renderWithin_rename f room
  simp only [Refusal.failure]
  cases hv : v.renderWithin room with
  | error x =>
    cases hv' : (v.rename f).renderWithin room with
    | error y =>
      simp only [hv, hv', Except.map, Except.error.injEq] at hrender
      rw [hrender]
      exact .escape
    | ok text => simp [hv, hv', Except.map] at hrender
  | ok text =>
    cases hv' : (v.rename f).renderWithin room with
    | error y => simp [hv, hv', Except.map] at hrender
    | ok text' => exact .fault (hcause text text')

namespace Operator

variable {f : String → String}

theorem corresponds_number (op : Operator) (room : Nat) (v : Value) :
    Corresponds Eq (op.number room v) (op.number room (v.rename f)) := by
  rw [number, number, Value.asNumber?_rename]
  cases v.asNumber? with
  | some n => exact .value rfl
  | none =>
    have hshown := Refusal.corresponds_showing (R := @Eq Number) f (.notNumeric op.name)
      (.notNumeric op.name) (fun _ _ => rfl) v room
    simp only [Refusal.failure] at hshown
    cases hv : v.renderWithin room <;> cases hv' : (v.rename f).renderWithin room <;>
      simpa [hv, hv'] using hshown

theorem corresponds_numbers (op : Operator) (room : Nat) (vs : List Value) :
    Corresponds Eq (op.numbers room vs) (op.numbers room (vs.map (Value.rename f))) := by
  induction vs with
  | nil => exact .value rfl
  | cons v vs ih =>
    refine (op.corresponds_number room v).bind ?_
    rintro n _ rfl
    refine ih.bind ?_
    rintro ns _ rfl
    exact .value rfl

/-- What an operator makes of numbers is a number or a truth value. -/
theorem atom_of_compute {op : Operator} {room : Nat} {ns : List Number} {v : Value}
    (h : op.compute room ns = .ok v) : (∃ n, v = .num n) ∨ ∃ b, v = .ofBool b := by
  unfold compute at h
  split at h
  · exact .inl (num_of_inRange h)
  · exact .inl (num_of_inRange h)
  · exact .inl (num_of_inRange h)
  · unfold divide at h
    split at h
    · split at h <;> cases h
    · exact .inl (num_of_quotient h)
  · cases h
    exact .inr ⟨_, rfl⟩
  · cases h
    exact .inr ⟨_, rfl⟩
  · cases h

end Operator

namespace Renaming

variable (m : Renaming)

def Follows : Except Failure Value → Except Failure Value → Prop :=
  Corresponds fun v w => w = v.rename m.map

@[simp] theorem rename_ofBool (b : Bool) : (Value.ofBool b).rename m.map = .ofBool b := by
  cases b with
  | false => exact congrArg Value.sym m.nil
  | true => exact congrArg Value.sym m.t

theorem follows_apply (op : Operator) (room : Nat) (vs : List Value) :
    m.Follows (op.apply room vs) (op.apply room (vs.map (Value.rename m.map))) := by
  cases haccepts : op.accepts vs.length with
  | false =>
    have haccepts' : op.accepts (vs.map (Value.rename m.map)).length = false := by
      simpa using haccepts
    rw [Operator.apply_of_not_accepts haccepts, Operator.apply_of_not_accepts haccepts',
      List.length_map]
    exact .fault rfl
  | true =>
    cases hop : op.isNumeric with
    | true =>
      rw [Operator.apply_of_isNumeric hop haccepts,
        Operator.apply_of_isNumeric hop (by simpa using haccepts)]
      refine (op.corresponds_numbers room vs).bind ?_
      rintro ns _ rfl
      cases hr : op.compute room ns with
      | error err => exact .error err
      | ok v =>
        refine .value ?_
        rcases Operator.atom_of_compute hr with ⟨n, rfl⟩ | ⟨b, rfl⟩
        · rfl
        · exact (m.rename_ofBool b).symm
    | false =>
      cases op with
      | add | sub | mul | div | less | greater => cases hop
      | list => exact .value (by simp [Value.rename])
      | atom =>
        rcases vs with _ | ⟨v, _ | ⟨w, vs⟩⟩
        · cases haccepts
        · have hatom : Operator.isAtom (v.rename m.map) = Operator.isAtom v := by
            rcases v with _ | _ | (_ | _) | _ <;> rfl
          refine .value ?_
          rw [m.rename_ofBool, hatom]
        · simp [Operator.accepts] at haccepts
      | equal =>
        rcases vs with _ | ⟨a, _ | ⟨b, _ | ⟨x, vs⟩⟩⟩
        · cases haccepts
        · cases haccepts
        · show m.Follows (Operator.compare room a b)
            (Operator.compare room (a.rename m.map) (b.rename m.map))
          rw [Operator.compare, Operator.compare, Value.sameWithin?_rename m.injective]
          cases a.sameWithin? room b with
          | none => exact .escape
          | some r => exact .value (m.rename_ofBool r).symm
        · simp [Operator.accepts] at haccepts

end Renaming

/-! Lookup and assignment. -/

namespace Bindings

variable {α : Type} {f : String → String} {change : α → α}

theorem get?_rename (hf : ∀ {x y}, f x = f y → x = y) (x : String) (b : Bindings α) :
    (b.rename f change).get? (f x) = (b.get? x).map change := by
  induction b with
  | nil => rfl
  | cons p b ih =>
    simp only [rename] at ih
    by_cases hx : p.1 = x
    · simp [rename, get?, hx]
    · have hne : f p.1 ≠ f x := fun h => hx (hf h)
      simp [rename, get?, hx, hne, ih]

theorem insert_rename (hf : ∀ {x y}, f x = f y → x = y) (x : String) (a : α) (b : Bindings α) :
    (b.insert x a).rename f change = (b.rename f change).insert (f x) (change a) := by
  induction b with
  | nil => rfl
  | cons p b ih =>
    simp only [rename] at ih
    by_cases hx : p.1 = x
    · simp [rename, insert, hx]
    · have hne : f p.1 ≠ f x := fun h => hx (hf h)
      simp [rename, insert, hx, hne, ih]

end Bindings

namespace Renaming

variable (m : Renaming)

theorem findSome?_rename {α : Type} {change : α → α} {bindings : Frame → Bindings α}
    (h : ∀ f : Frame, bindings (f.rename m.map) = (bindings f).rename m.map change)
    (fs : List Frame) (x : String) :
    ((fs.map (Frame.rename m.map)).findSome? fun f => (bindings f).get? (m.map x)) =
      (fs.findSome? fun f => (bindings f).get? x).map change := by
  induction fs with
  | nil => rfl
  | cons f fs ih =>
    rw [List.map_cons, List.findSome?_cons, List.findSome?_cons, ih, h,
      Bindings.get?_rename m.injective]
    cases (bindings f).get? x <;> rfl

theorem valueOf?_rename (env : Env) (x : String) :
    (env.rename m.map).valueOf? (m.map x) = (env.valueOf? x).map (Value.rename m.map) :=
  m.findSome?_rename (fun _ => rfl) env.frames x

theorem functionOf?_rename (env : Env) (x : String) :
    (env.rename m.map).functionOf? (m.map x) = (env.functionOf? x).map (Function.rename m.map) :=
  m.findSome?_rename (fun _ => rfl) env.frames x

theorem setVariable_rename (env : Env) (x : String) (v : Value) :
    (env.setVariable x v).rename m.map =
      (env.rename m.map).setVariable (m.map x) (v.rename m.map) := by
  simp only [Env.setVariable, Env.rename, Frame.setVariable, Frame.rename,
    Bindings.insert_rename m.injective]

theorem setFunction_rename (env : Env) (x : String) (g : Function) :
    (env.setFunction x g).rename m.map =
      (env.rename m.map).setFunction (m.map x) (g.rename m.map) := by
  simp only [Env.setFunction, Env.rename, Frame.setFunction, Frame.rename,
    Bindings.insert_rename m.injective]

theorem bindParams_rename (params vs : List Value) (f : Frame) :
    (Frame.bindParams params vs f).rename m.map =
      Frame.bindParams (params.map (Value.rename m.map)) (vs.map (Value.rename m.map))
        (f.rename m.map) := by
  induction params generalizing vs f with
  | nil => cases vs <;> rfl
  | cons p params ih =>
    cases vs with
    | nil => cases p <;> rfl
    | cons v vs =>
      cases p with
      | num | list | foreign => exact ih vs f
      | sym x =>
        have hset : (f.setVariable x v).rename m.map =
            (f.rename m.map).setVariable (m.map x) (v.rename m.map) := by
          simp only [Frame.setVariable, Frame.rename, Bindings.insert_rename m.injective]
        rw [Frame.bindParams, ih, hset]
        rfl

theorem pop_rename (env : Env) : (env.pop).rename m.map = (env.rename m.map).pop := by
  obtain ⟨f, fs⟩ := env
  cases fs <;> rfl

/-! The names that forms are dispatched on. -/

theorem isReserved_map (x : String) : isReserved (m.map x) = isReserved x := by
  cases hx : isReserved x with
  | true => rw [m.reserved hx, hx]
  | false =>
    cases hmap : isReserved (m.map x) with
    | false => rfl
    | true =>
      have hsame : m.map x = x := m.injective (m.reserved hmap)
      rw [hsame, hx] at hmap
      cases hmap

/-- Names that a form is dispatched on before and after: a name and the renamed one, or texts that
are no names, whatever they are. -/
inductive Dispatches : String → String → Prop
  | name {x : String} (h : IsName x) : Dispatches x (m.map x)
  | text {x y : String} (hx : ¬IsName x) (hy : ¬IsName y) : Dispatches x y

end Renaming

theorem ofName?_of_not_isReserved {x : String} (h : isReserved x = false) :
    SpecialForm.ofName? x = none ∧ Operator.ofName? x = none := by
  simp only [isReserved, Bool.or_eq_false_iff, Option.isSome_eq_false_iff,
    Option.isNone_iff_eq_none]
    at h
  exact ⟨h.2, h.1⟩

namespace Renaming

variable {m : Renaming}

theorem Dispatches.ofName? {x y : String} (h : m.Dispatches x y) :
    SpecialForm.ofName? y = SpecialForm.ofName? x ∧ Operator.ofName? y = Operator.ofName? x := by
  have unreserved : ∀ {x}, ¬IsName x → isReserved x = false :=
    fun hx => by simpa using mt isName_of_isReserved hx
  cases h with
  | text hx hy =>
    obtain ⟨hf, hop⟩ := ofName?_of_not_isReserved (unreserved hx)
    obtain ⟨hf', hop'⟩ := ofName?_of_not_isReserved (unreserved hy)
    rw [hf, hop, hf', hop']
    exact ⟨rfl, rfl⟩
  | name =>
    cases hx : isReserved x with
    | true =>
      rw [m.reserved hx]
      exact ⟨rfl, rfl⟩
    | false =>
      obtain ⟨hf, hop⟩ := ofName?_of_not_isReserved hx
      obtain ⟨hf', hop'⟩ := ofName?_of_not_isReserved ((m.isReserved_map x).trans hx)
      rw [hf, hop, hf', hop']
      exact ⟨rfl, rfl⟩

/-- Functions are found under the renamed name, and none under a text that is no name. -/
theorem Dispatches.functionOf? {x y : String} (h : m.Dispatches x y) {env : Env}
    (henv : env.Sound) :
    (env.rename m.map).functionOf? y = (env.functionOf? x).map (Function.rename m.map) := by
  cases h with
  | name => exact m.functionOf?_rename env x
  | text hx hy =>
    have hnone : env.functionOf? x = none := by
      cases hf : env.functionOf? x with
      | none => rfl
      | some f => exact absurd (henv.of_functionOf? hf).1 hx
    have hnone' : (env.rename m.map).functionOf? y = none := by
      have hnames : (env.rename m.map).Every (fun _ _ => True) fun z _ => IsName z := by
        intro f hf
        obtain ⟨g, hg, rfl⟩ :=
          List.mem_map.mp (show f ∈ env.frames.map (Frame.rename m.map) from hf)
        refine ⟨fun _ _ => trivial, fun p hp => ?_⟩
        obtain ⟨q, hq, rfl⟩ := List.mem_map.mp hp
        exact m.isName ((henv.frames g hg).functions q hq).1
      cases hf : (env.rename m.map).functionOf? y with
      | none => rfl
      | some f => exact absurd (hnames.of_functionOf? hf) hy
    rw [hnone, hnone']
    rfl

end Renaming

theorem not_isName_writeWithin {items : List Value} {room : Nat} {text : String}
    (h : (Value.list items).writeWithin .printed room = .ok text) : ¬IsName text := by
  cases room with
  | zero => cases h
  | succ room =>
    rw [Value.writeWithin] at h
    cases hparts : Value.writeListWithin .printed room items with
    | error x =>
      rw [hparts] at h
      cases h
    | ok parts =>
      rw [hparts] at h
      cases h
      exact not_isName_list parts

namespace Renaming

variable {m : Renaming}

/-- A head that is an infinity has a name for a text, and it stays. -/
theorem dispatches_print {n : Number} (h : Legible (.num n)) {text : String}
    (htext : n.print = .ok text) : m.Dispatches text text := by
  cases hn : (Value.num n).isAnonymous with
  | true =>
    have hno := not_isName_print hn htext
    exact .text hno hno
  | false =>
    rcases n with n | (_ | negative | _)
    · cases hn
    · cases hn
    · have hfixed : m.map text = text := by
        cases htext
        cases negative
        · exact m.inf
        · exact m.negInf
      have hname : IsName text := by
        cases htext
        cases negative <;> decide +kernel
      have hdispatches : m.Dispatches text (m.map text) := .name hname
      rwa [hfixed] at hdispatches
    · exact absurd h not_legible_nan

theorem operatorName_rename {head : Value} (h : Legible head) (room : Nat) :
    (∃ x, operatorName room head = .error x ∧ operatorName room (head.rename m.map) = .error x) ∨
    ∃ x y, operatorName room head = .ok x ∧ operatorName room (head.rename m.map) = .ok y ∧
      m.Dispatches x y := by
  cases head with
  | foreign x => exact absurd h not_legible_foreign
  | sym x => exact .inr ⟨x, m.map x, rfl, rfl, .name (legible_sym_iff.mp h)⟩
  | num n =>
    obtain ⟨text, htext⟩ := print_of_legible h
    exact .inr ⟨text, text, htext, htext, dispatches_print h htext⟩
  | list items =>
    have hwritten := (Value.list items).writeWithin_rename m.map .printed room
    cases hx : (Value.list items).writeWithin .printed room with
    | error x =>
      cases hy : ((Value.list items).rename m.map).writeWithin .printed room with
      | error y =>
        simp only [hx, hy, Except.map, Except.error.injEq] at hwritten
        exact .inl ⟨x, hx, hwritten ▸ hy⟩
      | ok text => simp [hx, hy, Except.map] at hwritten
    | ok text =>
      cases hy : ((Value.list items).rename m.map).writeWithin .printed room with
      | error y => simp [hx, hy, Except.map] at hwritten
      | ok text' =>
        exact .inr ⟨text, text', hx, hy,
          .text (not_isName_writeWithin hx) (not_isName_writeWithin hy)⟩

end Renaming

/-! The checks of special forms. -/

def Request.rename (f : String → String) : Request → Request
  | .quote v => .quote (v.rename f)
  | .assign x e => .assign (f x) (e.rename f)
  | .define x g => .define (f x) (g.rename f)
  | .select cs => .select (cs.map fun clause => (clause.1.rename f, clause.2.rename f))

/-- Checks that correspond: the same is asked for, or both are refused in the same way. -/
inductive Checks (f : String → String) : Except Refusal Request → Except Refusal Request → Prop
  | request (q : Request) : Checks f (.ok q) (.ok (q.rename f))
  | plain {cause cause' : Cause} (h : cause'.gist = cause.gist) :
      Checks f (.error (.plain cause)) (.error (.plain cause'))
  | showing {cause cause' : String → Cause} {v : Value}
      (h : ∀ text text', (cause' text').gist = (cause text).gist) :
      Checks f (.error (.showing cause v)) (.error (.showing cause' (v.rename f)))

namespace SpecialForm

variable {f : String → String}

theorem clauses_rename (operands : List Value) :
    clauses (operands.map (Value.rename f)) =
      ((clauses operands).map (List.map fun clause => (clause.1.rename f, clause.2.rename f))).mapError
        (Value.rename f) := by
  fun_induction clauses operands with
  | case1 => rfl
  | case2 test result rest ih =>
    simp only [List.map_cons, Value.rename, Value.renameList, clauses, ih]
    cases clauses rest <;> rfl
  | case3 other rest hshape =>
    rw [List.map_cons]
    rcases other with _ | _ | (_ | ⟨a, _ | ⟨b, _ | ⟨c, items⟩⟩⟩) | _
    · rfl
    · rfl
    · rfl
    · rfl
    · exact absurd rfl (hshape a b)
    · rfl
    · rfl

theorem badParam?_rename (params : List Value) :
    badParam? (params.map (Value.rename f)) = (badParam? params).map (Value.rename f) := by
  have hsym : ((fun p => !p.isSym) ∘ Value.rename f) = fun p => !p.isSym :=
    funext fun p => congrArg not (Value.isSym_rename f p)
  rw [badParam?, List.find?_map, hsym, badParam?]

theorem paramNames_rename (params : List Value) :
    paramNames (params.map (Value.rename f)) = (paramNames params).map f := by
  induction params with
  | nil => rfl
  | cons p params ih =>
    cases p with
    | sym x => simpa [paramNames, Value.rename] using ih
    | num | list | foreign => simpa [paramNames, Value.rename] using ih

theorem distinct_map (hf : ∀ {x y}, f x = f y → x = y) (xs : List String) :
    distinct (xs.map f) = distinct xs := by
  induction xs with
  | nil => rfl
  | cons x xs ih =>
    have hmem : f x ∈ xs.map f ↔ x ∈ xs := by
      refine ⟨fun h => ?_, List.mem_map_of_mem⟩
      obtain ⟨y, hy, hxy⟩ := List.mem_map.mp h
      exact hf hxy ▸ hy
    simp only [List.map_cons, distinct, ih, List.contains_eq_mem, hmem]

end SpecialForm

namespace Renaming

open SpecialForm

variable (m : Renaming)

theorem checks_defun (operands : List Value) :
    Checks m.map (check .defun operands)
      (check .defun (operands.map (Value.rename m.map))) := by
  rcases operands with _ | ⟨target, _ | ⟨params, _ | ⟨body, _ | ⟨x, rest⟩⟩⟩⟩
  · exact .plain rfl
  · cases target <;> exact .plain rfl
  · cases target <;> exact .plain rfl
  · cases target with
    | num | list | foreign => exact .showing fun _ _ => rfl
    | sym name =>
      simp only [List.map_cons, List.map_nil, Value.rename, check, m.isReserved_map]
      cases isReserved name with
      | true => exact .plain rfl
      | false =>
        cases params with
        | num | sym | foreign => exact .showing fun _ _ => rfl
        | list params =>
          simp only [Value.rename, Value.renameList_eq_map, badParam?_rename, paramNames_rename,
            distinct_map m.injective]
          cases badParam? params with
          | some p => exact .showing fun _ _ => rfl
          | none =>
            cases distinct (paramNames params) with
            | true => exact .request (.define name ⟨params, body⟩)
            | false =>
              have hshown : Value.list (params.map (Value.rename m.map)) =
                  (Value.list params).rename m.map := by simp [Value.rename]
              simp only [Option.map_none, hshown]
              exact .showing fun _ _ => rfl
  · cases target <;> exact .plain rfl

theorem checks (f : SpecialForm) (operands : List Value) :
    Checks m.map (f.check operands) (f.check (operands.map (Value.rename m.map))) := by
  cases f with
  | quote =>
    rcases operands with _ | ⟨v, _ | ⟨w, rest⟩⟩
    · exact .plain rfl
    · exact .request (.quote v)
    · exact .plain rfl
  | setq =>
    rcases operands with _ | ⟨target, _ | ⟨e, _ | ⟨x, rest⟩⟩⟩
    · exact .plain rfl
    · cases target <;> exact .plain rfl
    · cases target with
      | sym x => exact .request (.assign x e)
      | num | list | foreign => exact .showing fun _ _ => rfl
    · cases target <;> exact .plain rfl
  | defun => exact m.checks_defun operands
  | cond =>
    simp only [check, clauses_rename]
    cases clauses operands with
    | ok cs => exact .request (.select cs)
    | error other => exact .showing fun _ _ => rfl

variable {m} {f : SpecialForm} {operands : List Value}

theorem check_ok {q : Request} (h : f.check operands = .ok q) :
    f.check (operands.map (Value.rename m.map)) = .ok (q.rename m.map) := by
  have hchecks := m.checks f operands
  rw [h] at hchecks
  generalize f.check (operands.map (Value.rename m.map)) = r at hchecks
  cases hchecks
  rfl

theorem check_error {x : Refusal} (h : f.check operands = .error x) :
    ∃ y, f.check (operands.map (Value.rename m.map)) = .error y ∧ ∀ room,
      m.Follows (.error (x.failure room)) (.error (y.failure room)) := by
  have hchecks := m.checks f operands
  rw [h] at hchecks
  generalize f.check (operands.map (Value.rename m.map)) = r at hchecks
  cases hchecks with
  | plain hgist => exact ⟨_, rfl, fun _ => .fault hgist⟩
  | showing hgist => exact ⟨_, rfl, fun room => Refusal.corresponds_showing m.map _ _ hgist _ room⟩

@[simp] theorem isOtherwise_rename (test : Value) :
    isOtherwise (test.rename m.map) = isOtherwise test := by
  cases test with
  | num | list | foreign => rfl
  | sym x =>
    have hx : m.map x = "t" ↔ x = "t" :=
      ⟨fun h => m.injective (h.trans m.t.symm), fun h => h ▸ m.t⟩
    simp [Value.rename, isOtherwise, hx]

@[simp] theorem isTruthy_rename (v : Value) : (v.rename m.map).isTruthy = v.isTruthy := by
  cases v with
  | num | list | foreign => rfl
  | sym x =>
    have hx : m.map x = "nil" ↔ x = "nil" :=
      ⟨fun h => m.injective (h.trans m.nil.symm), fun h => h ▸ m.nil⟩
    simp [Value.rename, Value.isTruthy, bne, hx]

end Renaming

end PocketLisp
