import PocketLisp.Proofs.Binary64.Decimal
import PocketLisp.Proofs.Eval.Soundness

/-!
What the steps of evaluation come to that evaluate nothing themselves: printing a head, refusing
operands, recording an event, applying an operator. Whatever the host frames, they come to the same
unless these run out, and no other limit of the surroundings is met but one: an integer with too
many digits cannot be written, where a value has to be shown.

An operator looks at the number of its arguments first, then for one that is no number, then for a
divisor that is zero, then at the range of floating point.
-/
namespace PocketLisp

/-- The first magnitude with too many digits to be written. It is never to be computed. -/
@[irreducible]
def unwritten : Nat := Nat.pow 10 digitLimit

theorem intText_eq (n : Int) : intText n =
    if n.natAbs < unwritten then .ok (String.ofList (intChars n)) else .error .printLimit := by
  unfold unwritten
  rfl

/-- An integer with few enough digits to be written, or any floating-point number. -/
def Number.isWritable : Number → Bool
  | .int n => n.natAbs < unwritten
  | .float _ => true

namespace Value

mutual

/-- No integer in it has too many digits to be written. -/
def isWritable : Value → Bool
  | .num n => n.isWritable
  | .list items => isWritableList items
  | _ => true

def isWritableList : List Value → Bool
  | [] => true
  | v :: vs => v.isWritable && isWritableList vs

end

/-- An integer with too many digits to be written stands in it. -/
def HoldsLong (v : Value) : Prop := ∃ n : Int, unwritten ≤ n.natAbs ∧ Within (.int n) v

theorem isWritableList_eq_all (vs : List Value) : isWritableList vs = vs.all isWritable := by
  induction vs with
  | nil => rfl
  | cons v vs ih => simp [isWritableList, ih]

theorem isWritable_eq_false_of_within {v w : Value} (h : Within v w) (hv : v.isWritable = false) :
    w.isWritable = false := by
  induction h with
  | refl => exact hv
  | item hmem _ ih =>
    simp only [isWritable, isWritableList_eq_all, List.all_eq_false]
    exact ⟨_, hmem, by simpa using ih⟩

mutual

theorem holdsLong_of_isWritable {v : Value} (h : v.isWritable = false) : v.HoldsLong := by
  match v with
  | .num (.int n) => exact ⟨n, by simpa [isWritable, Number.isWritable] using h, .refl _⟩
  | .num (.float _) => cases h
  | .sym _ => cases h
  | .foreign _ => cases h
  | .list items =>
    obtain ⟨v, hmem, n, hn, hv⟩ := exists_holdsLong (show isWritableList items = false from h)
    exact ⟨n, hn, .item hmem hv⟩

theorem exists_holdsLong {vs : List Value} (h : isWritableList vs = false) :
    ∃ v ∈ vs, v.HoldsLong := by
  match vs with
  | [] => cases h
  | v :: vs =>
    rw [isWritableList, Bool.and_eq_false_iff] at h
    rcases h with h | h
    · exact ⟨v, List.mem_cons_self, holdsLong_of_isWritable h⟩
    · obtain ⟨w, hmem, hw⟩ := exists_holdsLong h
      exact ⟨w, List.mem_cons_of_mem v hmem, hw⟩

end

theorem holdsLong_iff {v : Value} : v.HoldsLong ↔ v.isWritable = false := by
  refine ⟨fun ⟨n, hn, h⟩ => isWritable_eq_false_of_within h ?_, holdsLong_of_isWritable⟩
  simpa [isWritable, Number.isWritable] using hn

end Value

theorem Number.print_eq (n : Number) :
    (n.isWritable = true ∧ ∃ text, n.print = .ok text) ∨
      (n.isWritable = false ∧ n.print = .error .printLimit) := by
  cases n with
  | int n =>
    by_cases hn : n.natAbs < unwritten
    · exact .inl ⟨by simp [isWritable, hn], _, by rw [print, intText_eq, if_pos hn]⟩
    · exact .inr ⟨by simp [isWritable, hn], by rw [print, intText_eq, if_neg hn]⟩
  | float x => exact .inl ⟨rfl, _, rfl⟩

namespace Value

mutual

/-- Writing a value of the language fails for the digits of an integer in it and for nothing else. -/
theorem write_cases (st : Style) {v : Value} (h : v.isProper = true) :
    (v.isWritable = true ∧ ∃ text, v.write st = .ok text) ∨
      (v.isWritable = false ∧ v.write st = .error .printLimit) := by
  match v with
  | .num n => exact n.print_eq
  | .sym name => exact .inl ⟨rfl, _, rfl⟩
  | .foreign x => cases h
  | .list items =>
    rw [isWritable, write]
    rcases writeList_cases st (show isProperList items = true from h) with ⟨hw, texts, hs⟩ | ⟨hw, hs⟩
    · exact .inl ⟨hw, _, by rw [hs]; rfl⟩
    · exact .inr ⟨hw, by rw [hs]; rfl⟩

theorem writeList_cases (st : Style) {vs : List Value} (h : isProperList vs = true) :
    (isWritableList vs = true ∧ ∃ texts, writeList st vs = .ok texts) ∨
      (isWritableList vs = false ∧ writeList st vs = .error .printLimit) := by
  match vs with
  | [] => exact .inl ⟨rfl, _, rfl⟩
  | v :: vs =>
    obtain ⟨hv, hvs⟩ : v.isProper = true ∧ isProperList vs = true := by simpa [isProperList] using h
    rw [isWritableList, writeList]
    rcases write_cases st hv with ⟨hw, text, hs⟩ | ⟨hw, hs⟩
    · rw [hw, hs]
      rcases writeList_cases st hvs with ⟨hws, texts, hss⟩ | ⟨hws, hss⟩
      · exact .inl ⟨by rw [hws]; rfl, _, by rw [hss]; rfl⟩
      · exact .inr ⟨by rw [hws]; rfl, by rw [hss]; rfl⟩
    · exact .inr ⟨by rw [hw]; rfl, by rw [hs]; rfl⟩

end

/-- Unless the frames run out, they make no difference to what is written. -/
theorem writeWithin_eq_write {st : Style} (hst : st.Plain) {v : Value} {room : Nat}
    (h : v.writeWithin st room ≠ .error .exhausted) : v.writeWithin st room = v.write st := by
  have hmore := (settling_writeWithin hst v).steady (Nat.le_max_left room v.nesting) h
  rw [← hmore, writeWithin_of_nesting_le st (Nat.le_max_right _ _)]

theorem writeWithin_cases {st : Style} (hst : st.Plain) {v : Value} (h : v.isProper = true)
    (room : Nat) :
    v.writeWithin st room = .error .exhausted ∨
      (v.isWritable = true ∧ ∃ text, v.writeWithin st room = .ok text) ∨
      (v.isWritable = false ∧ v.writeWithin st room = .error .printLimit) := by
  by_cases hroom : v.writeWithin st room = .error .exhausted
  · exact .inl hroom
  · rw [writeWithin_eq_write hst hroom]
    exact .inr (write_cases st h)

theorem renderWithin_of_isProper {v : Value} (h : v.isProper = true) (room : Nat) :
    v.renderWithin room = v.writeWithin .printed room := by
  cases v with
  | foreign x => cases h
  | num n => rfl
  | sym name => rfl
  | list items => rfl

end Value

/-- How an evaluation ends, as far as a host can tell: with a value, with a fault of some kind, or
because an integer has too many digits to be written. -/
inductive Verdict where
  | value (v : Value)
  | fault (kind : Fault.Kind)
  | unwritable

namespace Verdict

/-- A fault of this kind, in which a value is shown. -/
def showing (kind : Fault.Kind) (v : Value) : Verdict :=
  if v.isWritable then .fault kind else .unwritable

theorem holdsLong_of_showing {kind : Fault.Kind} {v : Value}
    (h : showing kind v = .unwritable) : v.HoldsLong := by
  rw [Value.holdsLong_iff]
  unfold showing at h
  split at h
  · cases h
  · exact Bool.eq_false_iff.mpr ‹_›

end Verdict

/-- What an operator has to say: a value, or a fault of some kind, in which a value may have to be
shown. -/
inductive Reply where
  | value (v : Value)
  | fault (kind : Fault.Kind)
  | showing (kind : Fault.Kind) (v : Value)

namespace Reply

def verdict : Reply → Verdict
  | .value v => .value v
  | .fault kind => .fault kind
  | .showing kind v => .showing kind v

end Reply

/-- An outcome and its verdict, if the host frames do not run out. A fault blames no form yet, and
it is not that something is no expression. -/
inductive Answers : Except Failure Value → Verdict → Prop
  | exhausted {a : Verdict} : Answers (.error (.escape .exhausted)) a
  | value {v : Value} : Answers (.ok v) (.value v)
  | fault {cause : Cause} (h : ∀ shown, cause ≠ .cannotEvaluate shown) :
      Answers (.error (.because cause)) (.fault cause.kind)
  | unwritable : Answers (.error (.escape .printLimit)) .unwritable

namespace Answers

theorem showing (cause : String → Cause) {v : Value} (h : v.isProper = true) {kind : Fault.Kind}
    (hkind : ∀ text, (cause text).kind = kind)
    (hcause : ∀ text shown, cause text ≠ .cannotEvaluate shown) (room : Nat) :
    Answers (.error ((Refusal.showing cause v).failure room)) (.showing kind v) := by
  simp only [Refusal.failure, Value.renderWithin_of_isProper h, Verdict.showing]
  rcases Value.writeWithin_cases Style.plain_printed h room with hs | ⟨hw, text, hs⟩ | ⟨hw, hs⟩
  · rw [hs]
    exact .exhausted
  · rw [hs, hw, ← hkind text]
    exact .fault (hcause text)
  · rw [hs, hw]
    exact .unwritable

end Answers

theorem Reader.isWritable_of_legible {v : Value} (h : Reader.Legible v) : v.isWritable = true := by
  obtain ⟨text, htext⟩ := Reader.write_of_legible h
  rcases Value.write_cases .printed (Reader.isProper_of_legible h) with ⟨hw, -⟩ | ⟨-, herror⟩
  · exact hw
  · cases htext.symm.trans herror

theorem operatorName_of_isProper {head : Value} (h : head.isProper = true) (room : Nat) :
    operatorName room head = head.writeWithin .printed room := by
  cases head with
  | foreign x => cases h
  | num n => rfl
  | sym name => rfl
  | list items => rfl

def Refusal.verdict : Refusal → Verdict
  | .plain cause => .fault cause.kind
  | .showing _ v => .showing .malformed v

theorem SpecialForm.answers_check {f : SpecialForm} {operands : List Value} {x : Refusal}
    (h : f.check operands = .error x) (hoperands : ∀ v ∈ operands, v.isProper = true)
    (room : Nat) : Answers (.error (x.failure room)) x.verdict := by
  have notExpression : ∀ {cause : Cause}, cause.kind = .malformed →
      ∀ shown, cause ≠ .cannotEvaluate shown := by
    rintro cause hkind shown rfl
    cases hkind
  have hchecked := f.checked operands
  rw [h] at hchecked
  cases hchecked with
  | plain hkind => exact .fault (notExpression hkind)
  | @showing _ _ cause v hkind hv =>
    refine .showing cause ?_ hkind (fun text => notExpression (hkind text)) room
    rcases hv with hv | ⟨items, hitems, hv⟩
    · exact hoperands v hv
    · exact Value.isProperList_iff.mp (hoperands _ hitems) v hv

/-- The value that is shown in the record of an event. -/
inductive Event.Shows : Event → Value → Prop
  | assigned {name : String} {v : Value} : Shows (.assigned name v) v
  | called {name : String} {args : List Value} {depth : Int} :
      Shows (.called name args depth) (.list args)

namespace Listener

/-- A listener copes with a value in a record: it does not ask for the record, does without it, or
the value can be written. -/
def copes (l : Listener) (v : Value) : Bool :=
  l.patient || l.rank > Level.debug.rank || v.isWritable

theorem hear_cases (l : Listener) {e : Event} {v : Value} (he : e.Shows v) (hv : v.isProper = true)
    (room : Nat) :
    l.hear room e = .error .exhausted ∨ (l.copes v = true ∧ l.hear room e = .ok ()) ∨
      (l.copes v = false ∧ l.hear room e = .error .printLimit) := by
  have hlevel : e.level.rank = Level.debug.rank := by cases he <;> rfl
  have hmessage :
      (∀ text, v.inspectWithin room = .ok text → ∃ said, e.messageWithin room = .ok said) ∧
      ∀ x, v.inspectWithin room = .error x → e.messageWithin room = .error x := by
    cases he with
    | assigned | called =>
      refine ⟨fun text htext => ?_, fun x hx => ?_⟩
      · simp only [Event.messageWithin, Event.messageBy, htext]
        exact ⟨_, rfl⟩
      · simp only [Event.messageWithin, Event.messageBy, hx]
        rfl
  by_cases hrank : Level.debug.rank < l.rank
  · exact .inr (.inl ⟨by simp [copes, hrank], by rw [hear, hlevel, if_pos hrank]⟩)
  rw [hear, hlevel, if_neg hrank]
  rcases Value.writeWithin_cases Style.plain_inspected hv room with hs | ⟨hw, text, hs⟩ | ⟨hw, hs⟩
  · rw [hmessage.2 _ hs]
    exact .inl rfl
  · obtain ⟨said, hsaid⟩ := hmessage.1 _ hs
    rw [hsaid]
    exact .inr (.inl ⟨by simp [copes, hw], rfl⟩)
  · rw [hmessage.2 _ hs]
    cases hpatient : l.patient with
    | true => exact .inr (.inl ⟨by simp [copes, hpatient], rfl⟩)
    | false => exact .inr (.inr ⟨by simp [copes, hpatient, hrank, hw], rfl⟩)

theorem hear_defined (l : Listener) (room : Nat) (x : String) {params : List Value}
    (h : SpecialForm.badParam? params = none) : l.hear room (.defined x params) = .ok () := by
  obtain ⟨names, rfl⟩ : ∃ names : List String, params = names.map .sym :=
    ⟨_, SpecialForm.eq_map_paramNames h⟩
  have hproper : (Value.list (names.map .sym)).isProper = true := by
    simp [Value.isProper, Value.isProperList_iff]
  have hwritable : (Value.list (names.map .sym)).isWritable = true := by
    simp [Value.isWritable, Value.isWritableList_eq_all]
  obtain ⟨text, htext⟩ : ∃ text, (Value.list (names.map .sym)).print = .ok text := by
    rcases Value.write_cases .printed hproper with ⟨-, hs⟩ | ⟨hw, -⟩
    · exact hs
    · cases hwritable.symm.trans hw
  have hmessage : ∃ said, (Event.defined x (names.map .sym)).messageWithin room = .ok said := by
    simp only [Event.messageWithin, Event.messageBy, htext]
    exact ⟨_, rfl⟩
  obtain ⟨said, hsaid⟩ := hmessage
  rw [hear, hsaid]
  split <;> rfl

end Listener

namespace Binary64

/-- A magnitude far above the unit is not rounded to zero. -/
theorem nearest_pos {n k : Nat} (hn : n ≠ 0) (hk : 52 < k) :
    0 < nearest (n * Nat.pow 2 k) 1 := by
  have hlog : (n * Nat.pow 2 k / 1).log2 - 52 = n.log2 + (k - 52) := by
    have hpow : (n * Nat.pow 2 k).log2 = n.log2 + k := log2_mul_two_pow hn k
    rw [Nat.div_one, hpow]
    omega
  have hrun : 0 < run := by decide
  rw [nearest_eq, hlog]
  exact Nat.add_pos_left (Nat.mul_pos (by omega) hrun) _

theorem one_eq : one = Nat.pow 2 1074 := by
  unfold one
  rfl

theorem isZero_round (negative : Bool) {num den : Nat} (h : 0 < nearest num den) :
    (round negative num den).isZero = false := by
  unfold round
  dsimp only
  split
  · simpa [isZero] using Nat.ne_of_gt h
  · rfl

/-- An integer other than zero is at least one, far above the unit. -/
theorem isZero_ofInt? {n : Int} {x : Binary64} (hn : n ≠ 0) (h : ofInt? n = some x) :
    x.isZero = false := by
  -- the exponent is named, so that the power is not computed
  obtain ⟨k, hk, hone⟩ : ∃ k, 52 < k ∧ one = Nat.pow 2 k := ⟨1074, by decide, one_eq⟩
  rw [← eq_of_finite? h]
  refine isZero_round _ ?_
  rw [hone]
  exact nearest_pos (Int.natAbs_ne_zero.mpr hn) hk

end Binary64

theorem Number.isZero_toFloat? {n : Number} {x : Binary64} (hn : n.isZero = false)
    (h : n.toFloat? = some x) : x.isZero = false := by
  cases n with
  | int n => exact Binary64.isZero_ofInt? (by simpa [isZero] using hn) h
  | float y =>
    cases h
    exact hn

namespace Operator

/-- No division in floating point is by zero, if no divisor is. -/
theorem floatQuotient_ne_noQuotient {ns : List Number} (h : ns.any Number.isZero = false)
    (x : Binary64) : floatQuotient x ns ≠ .error (.escape .noQuotient) := by
  induction ns generalizing x with
  | nil => simp [floatQuotient]
  | cons n ns ih =>
    obtain ⟨hn, hns⟩ : n.isZero = false ∧ ns.any Number.isZero = false := by simpa using h
    rw [floatQuotient]
    split
    · intro he
      cases he
    · rename_i y hy
      split
      · rename_i hnone
        rw [Binary64.div?_eq_none_iff, Number.isZero_toFloat? hn hy] at hnone
        cases hnone
      · exact ih hns _

theorem quotient_ne_noQuotient {n : Number} {ns : List Number}
    (h : (divisors n ns).any Number.isZero = false) :
    quotient n ns ≠ .error (.escape .noQuotient) := by
  unfold quotient
  cases ns with
  | nil => exact floatQuotient_ne_noQuotient h _
  | cons m ns =>
    dsimp only
    split
    · unfold exactQuotient
      dsimp only
      split
      · exact fun he => nomatch he
      · intro he
        cases error_of_inRange he
    · split
      · exact fun he => nomatch he
      · exact floatQuotient_ne_noQuotient h _

def isNumeric : Operator → Bool
  | .equal | .atom | .list => false
  | _ => true

def accepts : Operator → Nat → Bool
  | .less, n | .greater, n | .equal, n => n == 2
  | .atom, n => n == 1
  | .sub, n | .div, n => 1 ≤ n
  | .add, _ | .mul, _ | .list, _ => true

def ranged : Option Number → Reply
  | some n => .value (.num n)
  | none => .fault .wrongType

/-- What an operator makes of numbers, as many as it takes. -/
def reckon : Operator → List Number → Reply
  | .add, ns => ranged (sum ns)
  | .mul, ns => ranged (product ns)
  | .sub, n :: ns => ranged (difference n ns)
  | .div, n :: ns =>
    if (divisors n ns).any Number.isZero then .showing .divisionByZero (.list ((n :: ns).map .num))
    else
      match quotient n ns with
      | .ok v => .value v
      | .error _ => .fault .wrongType
  | .less, [m, n] => .value (.ofBool (m.lt n))
  | .greater, [m, n] => .value (.ofBool (n.lt m))
  | _, _ => .fault .arity

/-- What the other operators make of any values. -/
def arrange : Operator → List Value → Reply
  | .equal, [a, b] => .value (.ofBool (a.same b))
  | .atom, [v] => .value (.ofBool (isAtom v))
  | _, vs => .value (.list vs)

/-- What an operator has to say to any values. -/
def reply (op : Operator) (vs : List Value) : Reply :=
  if op.accepts vs.length then
    if op.isNumeric then
      match vs.find? (·.asNumber?.isNone) with
      | some v => .showing .wrongType v
      | none => op.reckon (vs.filterMap Value.asNumber?)
    else op.arrange vs
  else .fault .arity

def compute (op : Operator) (room : Nat) (ns : List Number) : Except Failure Value :=
  match op, ns with
  | .add, ns => op.inRange (sum ns)
  | .mul, ns => op.inRange (product ns)
  | .sub, n :: ns => op.inRange (difference n ns)
  | .div, n :: ns => divide room n ns
  | .less, [m, n] => .ok (Value.ofBool (m.lt n))
  | .greater, [m, n] => .ok (Value.ofBool (n.lt m))
  | op, ns => .error (op.arityFault ns.length)

section Apply

variable {op : Operator} {room : Nat} {vs : List Value}

theorem apply_of_not_accepts (h : op.accepts vs.length = false) :
    op.apply room vs = .error (op.arityFault vs.length) := by
  cases op with
  | add | mul | list => cases h
  | sub | div =>
    cases vs with
    | nil => rfl
    | cons v vs => simp [accepts] at h
  | atom =>
    rcases vs with _ | ⟨v, _ | ⟨w, vs⟩⟩
    · rfl
    · cases h
    · rfl
  | less | greater | equal =>
    rcases vs with _ | ⟨v, _ | ⟨w, _ | ⟨x, vs⟩⟩⟩
    · rfl
    · rfl
    · cases h
    · rfl

theorem numbers_pair (a b : Value) (k : Number → Number → Except Failure Value)
    (k' : List Number → Except Failure Value) (hk : ∀ m n, k' [m, n] = k m n) :
    (op.number room a >>= fun m => op.number room b >>= fun n => k m n) =
      op.numbers room [a, b] >>= k' := by
  simp only [numbers]
  cases op.number room a with
  | error e => rfl
  | ok m =>
    cases op.number room b with
    | error e => rfl
    | ok n => exact (hk m n).symm

theorem numbers_cons (v : Value) (vs : List Value) (k : Number → List Number → Except Failure Value)
    (k' : List Number → Except Failure Value) (hk : ∀ n ns, k' (n :: ns) = k n ns) :
    (op.number room v >>= fun n => op.numbers room vs >>= fun ns => k n ns) =
      op.numbers room (v :: vs) >>= k' := by
  simp only [numbers]
  cases op.number room v with
  | error e => rfl
  | ok n =>
    cases op.numbers room vs with
    | error e => rfl
    | ok ns => exact (hk n ns).symm

/-- The operators on numbers check all of their arguments before they do anything else. -/
theorem apply_of_isNumeric (hop : op.isNumeric = true) (h : op.accepts vs.length = true) :
    op.apply room vs = op.numbers room vs >>= op.compute room := by
  cases op with
  | equal | atom | list => cases hop
  | add | mul => rfl
  | sub | div =>
    cases vs with
    | nil => simp [accepts] at h
    | cons v vs => exact numbers_cons v vs _ _ fun _ _ => rfl
  | less | greater =>
    rcases vs with _ | ⟨v, _ | ⟨w, _ | ⟨x, vs⟩⟩⟩
    · cases h
    · cases h
    · exact numbers_pair v w _ _ fun _ _ => rfl
    · simp [accepts] at h

theorem numbers_map (op : Operator) (room : Nat) (ns : List Number) :
    op.numbers room (ns.map .num) = .ok ns := by
  induction ns with
  | nil => rfl
  | cons n ns ih =>
    rw [List.map_cons, numbers, ih]
    rfl

theorem numbers_append {e : Failure} {v : Value} (h : op.number room v = .error e)
    (ns : List Number) (rest : List Value) :
    op.numbers room (ns.map .num ++ v :: rest) = .error e := by
  induction ns with
  | nil =>
    rw [List.map_nil, List.nil_append, numbers, h]
    rfl
  | cons n ns ih =>
    rw [List.map_cons, List.cons_append, numbers, ih]
    rfl

theorem numbers_or_other (vs : List Value) :
    (∃ ns : List Number, vs = ns.map .num) ∨
      ∃ (ns : List Number) (v : Value) (rest : List Value),
        vs = ns.map .num ++ v :: rest ∧ v.asNumber? = none := by
  induction vs with
  | nil => exact .inl ⟨[], rfl⟩
  | cons v vs ih =>
    cases hv : v.asNumber? with
    | none => exact .inr ⟨[], v, vs, rfl, hv⟩
    | some n =>
      obtain rfl : v = .num n := by
        cases v with
        | num m => exact congrArg Value.num (Option.some.inj hv)
        | sym | list | foreign => cases hv
      rcases ih with ⟨ns, rfl⟩ | ⟨ns, w, rest, rfl, hw⟩
      · exact .inl ⟨n :: ns, rfl⟩
      · exact .inr ⟨n :: ns, w, rest, rfl, hw⟩

theorem find?_numbers (ns : List Number) :
    (ns.map Value.num).find? (·.asNumber?.isNone) = none := by simp [Value.asNumber?]

theorem reply_of_isNumeric (hop : op.isNumeric = true) (ns : List Number)
    (h : op.accepts ns.length = true) : op.reply (ns.map .num) = op.reckon ns := by
  have hall : (ns.map Value.num).filterMap Value.asNumber? = ns := by
    simp [List.filterMap_map, Function.comp_def, Value.asNumber?]
  simp only [reply, List.length_map, h, hop, if_true, find?_numbers, hall]

theorem find?_other (ns : List Number) {v : Value} (hv : v.asNumber? = none) (rest : List Value) :
    (ns.map Value.num ++ v :: rest).find? (·.asNumber?.isNone) = some v := by
  rw [List.find?_append, find?_numbers, Option.none_or, List.find?_cons_of_pos (by rw [hv]; rfl)]

theorem reply_of_other (hop : op.isNumeric = true) {ns : List Number} {v : Value}
    {rest : List Value} (hv : v.asNumber? = none)
    (h : op.accepts (ns.map Value.num ++ v :: rest).length = true) :
    op.reply (ns.map .num ++ v :: rest) = .showing .wrongType v := by
  simp only [reply, h, hop, if_true, find?_other ns hv rest]

theorem answers_number (op : Operator) (room : Nat) {v : Value} (h : v.isProper = true)
    (hv : v.asNumber? = none) :
    ∃ e, op.number room v = .error e ∧ Answers (.error e) (.showing .wrongType v) := by
  refine ⟨(Refusal.showing (.notNumeric op.name) v).failure room, ?_,
    .showing (.notNumeric op.name) h (fun _ => rfl) (by simp) room⟩
  rw [number, hv]
  dsimp only [Refusal.failure]
  cases v.renderWithin room <;> rfl

theorem answers_inRange (op : Operator) (n : Option Number) :
    Answers (op.inRange n) (ranged n).verdict := by
  cases n with
  | none => exact .fault (by simp)
  | some n => exact .value

theorem isProperList_map (ns : List Number) : Value.isProperList (ns.map .num) = true := by
  rw [Value.isProperList_iff]
  intro v hv
  obtain ⟨n, -, rfl⟩ := List.mem_map.mp hv
  rfl

theorem answers_divide (room : Nat) (n : Number) (ns : List Number) :
    Answers (divide room n ns) (reckon .div (n :: ns)).verdict := by
  rw [divide, reckon]
  by_cases hz : (divisors n ns).any Number.isZero = true
  · rw [if_pos hz, if_pos hz]
    have hproper : (Value.list (.sym Operator.div.name :: (n :: ns).map .num)).isProper = true := by
      simpa [Value.isProper, Value.isProperList] using isProperList_map (n :: ns)
    have hshown : Answers _ (.showing .divisionByZero _) :=
      .showing .divisionByZero hproper (fun _ => rfl) (by simp) room
    have hsame : Verdict.showing .divisionByZero
        (.list (.sym Operator.div.name :: (n :: ns).map .num)) =
          .showing .divisionByZero (.list ((n :: ns).map .num)) := by
      simp [Verdict.showing, Value.isWritable, Value.isWritableList]
    rw [hsame, Refusal.failure, List.map_cons] at hshown
    cases hrender : (Value.list (.sym Operator.div.name :: .num n :: ns.map .num)).renderWithin room
    · rw [hrender] at hshown
      exact hshown
    · rw [hrender] at hshown
      exact hshown
  · have hz : (divisors n ns).any Number.isZero = false := by simpa using hz
    rw [hz, if_neg Bool.false_ne_true, if_neg Bool.false_ne_true]
    cases hq : quotient n ns with
    | ok v => exact .value
    | error e =>
      rcases error_of_quotient hq with rfl | rfl
      · exact .fault (by simp)
      · exact absurd hq (quotient_ne_noQuotient hz)

theorem answers_compute (hop : op.isNumeric = true) {ns : List Number}
    (h : op.accepts ns.length = true) : Answers (op.compute room ns) (op.reckon ns).verdict := by
  cases op with
  | equal | atom | list => cases hop
  | add | mul => exact answers_inRange _ _
  | sub =>
    cases ns with
    | nil => simp [accepts] at h
    | cons n ns => exact answers_inRange _ _
  | div =>
    cases ns with
    | nil => simp [accepts] at h
    | cons n ns => exact answers_divide room n ns
  | less | greater =>
    rcases ns with _ | ⟨m, _ | ⟨n, _ | ⟨k, ns⟩⟩⟩
    · cases h
    · cases h
    · exact .value
    · simp [accepts] at h

theorem answers_arrange (hop : op.isNumeric = false) (h : op.accepts vs.length = true) :
    Answers (op.apply room vs) (op.arrange vs).verdict := by
  cases op with
  | add | sub | mul | div | less | greater => cases hop
  | list => exact .value
  | atom =>
    rcases vs with _ | ⟨v, _ | ⟨w, vs⟩⟩
    · cases h
    · exact .value
    · simp [accepts] at h
  | equal =>
    rcases vs with _ | ⟨a, _ | ⟨b, _ | ⟨x, vs⟩⟩⟩
    · cases h
    · cases h
    · show Answers (compare room a b) _
      rw [compare]
      split
      · rename_i r hr
        rw [Value.eq_same_of_sameWithin? hr]
        exact .value
      · exact .exhausted
    · simp [accepts] at h

/-- What an operator comes to is its answer, unless the host frames run out. -/
theorem answers_apply (op : Operator) (room : Nat) (h : ∀ v ∈ vs, v.isProper = true) :
    Answers (op.apply room vs) (op.reply vs).verdict := by
  cases haccepts : op.accepts vs.length with
  | false =>
    rw [apply_of_not_accepts haccepts, reply, haccepts]
    exact .fault (by simp)
  | true =>
    cases hop : op.isNumeric with
    | false =>
      have hreply : op.reply vs = op.arrange vs := by simp [reply, haccepts, hop]
      rw [hreply]
      exact answers_arrange hop haccepts
    | true =>
      rw [apply_of_isNumeric hop haccepts]
      rcases numbers_or_other vs with ⟨ns, rfl⟩ | ⟨ns, v, rest, rfl, hv⟩
      · have hns : op.accepts ns.length = true := by simpa using haccepts
        rw [numbers_map, reply_of_isNumeric hop ns hns]
        exact answers_compute hop hns
      · obtain ⟨e, he, hanswers⟩ := answers_number op room (h v (by simp)) hv
        rw [numbers_append he, reply_of_other hop hv haccepts]
        exact hanswers

/-- To say why it fails, an operator has to show an integer with too many digits: in a list where a
number is expected, or among numbers that are divided by zero. -/
inductive Overlong : Operator → List Value → Prop
  | operand {op : Operator} {ns : List Number} {items rest : List Value}
      (hop : op.isNumeric = true) (h : (Value.list items).HoldsLong) :
      Overlong op (ns.map .num ++ .list items :: rest)
  | dividend {n : Number} {ns : List Number} (hzero : (divisors n ns).any Number.isZero = true)
      (h : (Value.list ((n :: ns).map .num)).HoldsLong) : Overlong .div ((n :: ns).map .num)

theorem overlong_of_reckon {ns : List Number} (h : (op.reckon ns).verdict = .unwritable) :
    Overlong op (ns.map .num) := by
  have hranged : ∀ n, (ranged n).verdict ≠ .unwritable := by
    intro n
    cases n <;> exact fun he => nomatch he
  unfold reckon at h
  split at h
  · exact absurd h (hranged _)
  · exact absurd h (hranged _)
  · exact absurd h (hranged _)
  · split at h
    · exact .dividend ‹_› (Verdict.holdsLong_of_showing h)
    · split at h <;> cases h
  · cases h
  · cases h
  · cases h

theorem overlong_of_reply (h : (op.reply vs).verdict = .unwritable) : Overlong op vs := by
  cases haccepts : op.accepts vs.length with
  | false =>
    have hreply : op.reply vs = .fault .arity := by simp [reply, haccepts]
    rw [hreply] at h
    cases h
  | true =>
    cases hop : op.isNumeric with
    | false =>
      have hreply : op.reply vs = op.arrange vs := by simp [reply, haccepts, hop]
      rw [hreply] at h
      unfold arrange at h
      split at h <;> cases h
    | true =>
      rcases numbers_or_other vs with ⟨ns, rfl⟩ | ⟨ns, v, rest, rfl, hv⟩
      · have hns : op.accepts ns.length = true := by simpa using haccepts
        rw [reply_of_isNumeric hop ns hns] at h
        exact overlong_of_reckon h
      · rw [reply_of_other hop hv haccepts] at h
        have hlong := Verdict.holdsLong_of_showing h
        cases v with
        | list items => exact .operand hop hlong
        | num n => cases hv
        | sym name | foreign x => simp [Value.holdsLong_iff, Value.isWritable] at hlong

end Apply

end Operator

end PocketLisp
