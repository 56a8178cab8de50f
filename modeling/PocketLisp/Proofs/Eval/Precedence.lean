import PocketLisp.Proofs.Eval.Arithmetic
import PocketLisp.Proofs.Reader.Canonical

/-!
What an operator complains about, and in which order. It counts its arguments, then looks for one
that is no number, then for a divisor that is zero. Once nothing of that kind is left there is a
result, except that arithmetic in floating point may be out of range.
-/
namespace PocketLisp

theorem Number.isZero_iff {n : Number} :
    n.isZero = true ↔ n = .int 0 ∨ ∃ negative, n = .float (.zero negative) := by
  cases n with
  | int n => simp [isZero]
  | float x =>
    cases x with
    | finite negative code =>
      simp [isZero, Binary64.isZero, Binary64.zero, Fin.ext_iff]
    | infinite negative => simp [isZero, Binary64.isZero, Binary64.zero]
    | nan => simp [isZero, Binary64.isZero, Binary64.zero]

namespace Value

theorem nesting_le_of_mem {v : Value} {vs : List Value} (h : v ∈ vs) :
    v.nesting ≤ nestingList vs := by
  induction vs with
  | nil => simp at h
  | cons w vs ih =>
    rw [nestingList]
    rcases List.mem_cons.mp h with rfl | h
    · exact Nat.le_max_left _ _
    · exact Nat.le_trans (ih h) (Nat.le_max_right _ _)

theorem renderWithin_eq_print {v : Value} (h : v.isProper = true) (hw : v.isWritable = true)
    {room : Nat} (hroom : v.nesting ≤ room) :
    ∃ shown, v.print = .ok shown ∧ v.renderWithin room = .ok shown := by
  rcases write_cases .printed h with ⟨-, shown, hshown⟩ | ⟨hlong, -⟩
  · refine ⟨shown, hshown, ?_⟩
    rw [renderWithin_of_isProper h, writeWithin_of_nesting_le .printed hroom, hshown]
  · cases hw.symm.trans hlong

end Value

namespace Operator

/-- Nothing is wrong with the arguments: there are as many as it takes, they are numbers if numbers
are needed, and no divisor is zero. -/
structure Admits (op : Operator) (vs : List Value) : Prop where
  count : op.accepts vs.length = true
  numeric : op.isNumeric = true → ∀ v ∈ vs, v.asNumber? ≠ none
  nonzero : op = .div → ∀ n ns, vs = (n :: ns).map .num → ∀ d ∈ divisors n ns, d.isZero = false

/-- Floating point comes in: with an operand, with a reciprocal, or with a quotient of integers that
is not whole. -/
inductive Inexact : Operator → List Value → Prop
  | operand {op : Operator} {vs : List Value} {x : Binary64} (h : .float x ∈ vs) : Inexact op vs
  | reciprocal {v : Value} : Inexact .div [v]
  | fraction {a : Int} {bs : List Int} (h : ∀ q, a ≠ q * bs.prod) :
      Inexact .div ((a :: bs).map .int)

/-- What comes of applying an operator. -/
inductive Reacts (op : Operator) (vs : List Value) : Except Failure Value → Prop
  | miscounted (h : op.accepts vs.length = false) :
      Reacts op vs (.error (.because (.arity op.name op.expectation vs.length)))
  | notNumeric {v : Value} {shown : String} (h : op.accepts vs.length = true)
      (hop : op.isNumeric = true) (hv : vs.find? (·.asNumber?.isNone) = some v)
      (hshown : v.print = .ok shown) :
      Reacts op vs (.error (.because (.notNumeric op.name shown)))
  | zeroDivisor {n d : Number} {ns : List Number} {shown : String} (hop : op = .div)
      (hvs : vs = (n :: ns).map .num) (hd : d ∈ divisors n ns) (hzero : d.isZero = true) :
      Reacts op vs (.error (.because (.divisionByZero shown)))
  | outOfRange (h : op.Admits vs) (hop : op.isArithmetic = true) (hvs : op.Inexact vs) :
      Reacts op vs (.error (.because (.outOfRange op.name)))
  | value {v : Value} (h : op.Admits vs) (hv : v.isProper = true) : Reacts op vs (.ok v)

section Numbers

variable {op : Operator} {room : Nat}

theorem ints_or_float (ns : List Number) :
    (∃ ms : List Int, ns = ms.map .int) ∨ ∃ x : Binary64, .float x ∈ ns := by
  induction ns with
  | nil => exact .inl ⟨[], rfl⟩
  | cons n ns ih =>
    cases n with
    | float x => exact .inr ⟨x, by simp⟩
    | int m =>
      rcases ih with ⟨ms, rfl⟩ | ⟨x, hx⟩
      · exact .inl ⟨m :: ms, rfl⟩
      · exact .inr ⟨x, by simp [hx]⟩

theorem admits_numbers {ns : List Number} (h : op.accepts ns.length = true)
    (hzero : op = .div → ∀ n rest, ns = n :: rest → ∀ d ∈ divisors n rest, d.isZero = false) :
    op.Admits (ns.map .num) where
  count := by simpa using h
  numeric _ v hv := by
    obtain ⟨n, -, rfl⟩ := List.mem_map.mp hv
    simp [Value.asNumber?]
  nonzero hop n rest hvs :=
    hzero hop n rest (List.map_injective_iff.mpr (fun _ _ => Value.num.inj) hvs)

theorem inexact_of_ne_ints {ns : List Number} (h : ∀ ms : List Int, ns ≠ ms.map .int) :
    op.Inexact (ns.map .num) := by
  rcases ints_or_float ns with ⟨ms, hms⟩ | ⟨x, hx⟩
  · exact absurd hms (h ms)
  · exact .operand (List.mem_map.mpr ⟨_, hx, rfl⟩)

theorem inexact_of_quotient {n : Number} {ns : List Number} {e : Failure}
    (h : quotient n ns = .error e) : Operator.div.Inexact ((n :: ns).map .num) := by
  rcases ints_or_float (n :: ns) with ⟨ms, hms⟩ | ⟨x, hx⟩
  · obtain ⟨a, bs, rfl, rfl, rfl⟩ : ∃ a bs, ms = a :: bs ∧ n = .int a ∧ ns = bs.map .int := by
      cases ms with
      | nil => cases hms
      | cons a bs =>
        cases hms
        exact ⟨a, bs, rfl, rfl, rfl⟩
    by_cases hbs : bs = []
    · subst hbs
      exact .reciprocal
    · -- a whole quotient of integers does not fail
      rw [quotient_int a hbs, exactQuotient_eq] at h
      have hwhole : ¬bs.prod ∣ a := by
        intro hdvd
        rw [if_pos hdvd] at h
        cases h
      rw [← List.map_cons, ← map_int]
      exact .fraction fun q hq => hwhole ⟨q, hq.trans (mul_comm _ _)⟩
  · exact .operand (List.mem_map.mpr ⟨_, hx, rfl⟩)

theorem reacts_inRange {vs : List Value} (h : op.Admits vs) (hop : op.isArithmetic = true)
    {n : Option Number} (hn : n = none → op.Inexact vs) : Reacts op vs (op.inRange n) := by
  cases n with
  | none => exact .outOfRange h hop (hn rfl)
  | some n => exact .value h rfl

theorem reacts_divide (hroom : 1 ≤ room) {n : Number} {ns : List Number}
    (hw : ∀ m ∈ n :: ns, m.isWritable = true) :
    Reacts .div ((n :: ns).map .num) (divide room n ns) := by
  rw [divide]
  by_cases hz : (divisors n ns).any Number.isZero = true
  · obtain ⟨d, hd, hzero⟩ := List.any_eq_true.mp hz
    obtain ⟨shown, -, hshown⟩ : ∃ shown, _ ∧
        (Value.list (.sym Operator.div.name :: (n :: ns).map .num)).renderWithin room =
          .ok shown := by
      refine Value.renderWithin_eq_print ?_ ?_ ?_
      · simpa [Value.isProper, Value.isProperList] using isProperList_map (n :: ns)
      · simpa [Value.isWritable, Value.isWritableList, Value.isWritableList_eq_all] using hw
      · have hflat : ∀ ms : List Number, Value.nestingList (ms.map .num) = 0 := by
          intro ms
          induction ms with
          | nil => rfl
          | cons m ms ih => simp [Value.nestingList, Value.nesting, ih]
        simpa [Value.nesting, Value.nestingList, hflat] using hroom
    rw [if_pos hz]
    rw [List.map_cons] at hshown
    rw [hshown]
    exact .zeroDivisor rfl rfl hd hzero
  · have hfine : ∀ d ∈ divisors n ns, d.isZero = false := by simpa using hz
    have hadmits : Operator.div.Admits ((n :: ns).map .num) := by
      refine admits_numbers (by simp [accepts]) fun _ m rest hms => ?_
      cases hms
      exact hfine
    rw [if_neg hz]
    cases hq : quotient n ns with
    | ok v => exact .value hadmits (proper_quotient n ns v hq)
    | error e =>
      rcases error_of_quotient hq with rfl | rfl
      · exact .outOfRange hadmits rfl (inexact_of_quotient hq)
      · exact absurd hq (quotient_ne_noQuotient (by simpa using hz))

theorem reacts_compute (hop : op.isNumeric = true) {ns : List Number}
    (h : op.accepts ns.length = true) (hroom : 1 ≤ room) (hw : ∀ n ∈ ns, n.isWritable = true) :
    Reacts op (ns.map .num) (op.compute room ns) := by
  have hadmits : op ≠ .div → op.Admits (ns.map .num) :=
    fun hne => admits_numbers h fun hdiv => absurd hdiv hne
  cases op with
  | equal | atom | list => cases hop
  | add =>
    refine reacts_inRange (hadmits (by simp)) rfl fun hnone => ?_
    exact inexact_of_ne_ints fun ms hms => by simp [hms, sum_int] at hnone
  | mul =>
    refine reacts_inRange (hadmits (by simp)) rfl fun hnone => ?_
    exact inexact_of_ne_ints fun ms hms => by simp [hms, product_int] at hnone
  | sub =>
    cases ns with
    | nil => simp [accepts] at h
    | cons n ns =>
      refine reacts_inRange (hadmits (by simp)) rfl fun hnone => ?_
      refine inexact_of_ne_ints fun ms hms => ?_
      cases ms with
      | nil => cases hms
      | cons m ms =>
        cases hms
        simp [difference_int] at hnone
  | div =>
    cases ns with
    | nil => simp [accepts] at h
    | cons n ns => exact reacts_divide hroom hw
  | less | greater =>
    rcases ns with _ | ⟨m, _ | ⟨n, _ | ⟨k, ns⟩⟩⟩
    · cases h
    · cases h
    · exact .value (hadmits (by simp)) (Value.isProper_ofBool _)
    · simp [accepts] at h

end Numbers

section Values

variable {op : Operator} {room : Nat} {vs : List Value}

theorem admits_of_not_isNumeric (hop : op.isNumeric = false) (h : op.accepts vs.length = true) :
    op.Admits vs where
  count := h
  numeric hnumeric := by cases hop.symm.trans hnumeric
  nonzero hdiv := by cases hdiv; cases hop

theorem reacts_arrange (hop : op.isNumeric = false) (h : op.accepts vs.length = true)
    (hproper : ∀ v ∈ vs, v.isProper = true)
    (hroom : Value.framesPerLevel * Value.nestingList vs ≤ room) : Reacts op vs (op.apply room vs) := by
  have hadmits := admits_of_not_isNumeric hop h
  cases op with
  | add | sub | mul | div | less | greater => cases hop
  | list => exact .value hadmits (Value.isProperList_iff.mpr hproper)
  | atom =>
    rcases vs with _ | ⟨v, _ | ⟨w, vs⟩⟩
    · cases h
    · exact .value hadmits (Value.isProper_ofBool _)
    · simp [accepts] at h
  | equal =>
    rcases vs with _ | ⟨a, _ | ⟨b, _ | ⟨x, vs⟩⟩⟩
    · cases h
    · cases h
    · have ha : Value.framesPerLevel * a.nesting ≤ room :=
        Nat.le_trans (Nat.mul_le_mul_left _ (Value.nesting_le_of_mem (by simp))) hroom
      show Reacts .equal [a, b] (compare room a b)
      rw [compare, Value.sameWithin?_of_nesting_le ha]
      exact .value hadmits (Value.isProper_ofBool _)
    · simp [accepts] at h

theorem reacts_apply (hproper : ∀ v ∈ vs, v.isProper = true)
    (hwritable : ∀ v ∈ vs, v.isWritable = true)
    (hroom : Value.framesPerLevel * (Value.list vs).nesting ≤ room) :
    Reacts op vs (op.apply room vs) := by
  have hlevels : Value.framesPerLevel * Value.nestingList vs + Value.framesPerLevel ≤ room := hroom
  have hframes : Value.framesPerLevel = 3 := rfl
  cases haccepts : op.accepts vs.length with
  | false => exact apply_of_not_accepts haccepts ▸ .miscounted haccepts
  | true =>
    cases hop : op.isNumeric with
    | false => exact reacts_arrange hop haccepts hproper (by omega)
    | true =>
      rw [apply_of_isNumeric hop haccepts]
      rcases numbers_or_other vs with ⟨ns, rfl⟩ | ⟨ns, v, rest, rfl, hv⟩
      · rw [numbers_map]
        refine reacts_compute hop (by simpa using haccepts) (by omega) fun n hn => ?_
        exact hwritable (.num n) (List.mem_map.mpr ⟨n, hn, rfl⟩)
      · have hmem : v ∈ ns.map .num ++ v :: rest := by simp
        have hnesting : v.nesting ≤ room := by
          have hitem := Value.nesting_le_of_mem hmem
          rw [hframes] at hlevels
          omega
        obtain ⟨shown, hprint, hshown⟩ : ∃ shown, _ ∧ v.renderWithin room = .ok shown :=
          Value.renderWithin_eq_print (hproper v hmem) (hwritable v hmem) hnesting
        have herror : op.number room v = .error (.because (.notNumeric op.name shown)) := by
          simp only [number, hv, hshown]
        rw [numbers_append herror]
        exact .notNumeric haccepts hop (find?_other ns hv rest) hprint

namespace Reacts

variable {r : Except Failure Value} {f : Fault}

theorem eq_arity (h : Reacts op vs r) (hcount : op.accepts vs.length = false) :
    r = .error (.because (.arity op.name op.expectation vs.length)) := by
  cases h with
  | miscounted => rfl
  | notNumeric haccepts => cases hcount.symm.trans haccepts
  | zeroDivisor hop hvs =>
    subst hop hvs
    simp [accepts] at hcount
  | outOfRange hadmits => cases hcount.symm.trans hadmits.count
  | value hadmits => cases hcount.symm.trans hadmits.count

theorem count_of_arity (h : Reacts op vs (.error (.fault f))) (hf : f.kind = .arity) :
    op.accepts vs.length = false := by
  cases h with
  | miscounted hcount => exact hcount
  | notNumeric | zeroDivisor | outOfRange => cases hf

theorem eq_notNumeric (h : Reacts op vs r) (hcount : op.accepts vs.length = true)
    (hop : op.isNumeric = true) {v : Value} (hv : vs.find? (·.asNumber?.isNone) = some v) :
    ∃ shown, v.print = .ok shown ∧ r = .error (.because (.notNumeric op.name shown)) := by
  have hnot : ¬op.Admits vs := by
    intro hadmits
    have hnone : v.asNumber? = none := by simpa using List.find?_some hv
    exact hadmits.numeric hop v (List.mem_of_find?_eq_some hv) hnone
  cases h with
  | miscounted hmis => cases hcount.symm.trans hmis
  | notNumeric _ _ hw hshown =>
    cases hv.symm.trans hw
    exact ⟨_, hshown, rfl⟩
  | zeroDivisor _ hvs => cases hv.symm.trans (hvs ▸ find?_numbers _)
  | outOfRange hadmits => exact absurd hadmits hnot
  | value hadmits => exact absurd hadmits hnot

theorem other_of_notNumeric {shown : String}
    (h : Reacts op vs (.error (.because (.notNumeric op.name shown)))) :
    ∃ v ∈ vs, v.asNumber? = none := by
  cases h with
  | notNumeric _ _ hv => exact ⟨_, List.mem_of_find?_eq_some hv, by simpa using List.find?_some hv⟩

theorem zeroDivisor_iff {n : Number} {ns : List Number}
    (h : Reacts .div ((n :: ns).map .num) r) :
    (∃ f, r = .error (.fault f) ∧ f.kind = .divisionByZero) ↔
      ∃ d ∈ divisors n ns, d.isZero = true := by
  constructor
  · rintro ⟨f, rfl, hf⟩
    cases h with
    | miscounted | notNumeric | outOfRange => cases hf
    | zeroDivisor _ hvs hd hzero =>
      cases List.map_injective_iff.mpr (fun _ _ => Value.num.inj) hvs
      exact ⟨_, hd, hzero⟩
  · rintro ⟨d, hd, hzero⟩
    have hnot : ¬Operator.div.Admits ((n :: ns).map .num) := by
      intro hadmits
      cases (hadmits.nonzero rfl n ns rfl d hd).symm.trans hzero
    cases h with
    | miscounted hmis => simp [accepts] at hmis
    | notNumeric _ _ hv => cases hv.symm.trans (find?_numbers _)
    | zeroDivisor => exact ⟨_, rfl, rfl⟩
    | outOfRange hadmits => exact absurd hadmits hnot
    | value hadmits => exact absurd hadmits hnot

theorem of_admits (h : Reacts op vs r) (hadmits : op.Admits vs) :
    (∃ v, r = .ok v ∧ v.isProper = true) ∨
      op.isArithmetic = true ∧ r = .error (.because (.outOfRange op.name)) ∧ op.Inexact vs := by
  cases h with
  | miscounted hmis => cases hadmits.count.symm.trans hmis
  | notNumeric _ hop hv =>
    have hnone := List.find?_some hv
    exact absurd (by simpa using hnone) (hadmits.numeric hop _ (List.mem_of_find?_eq_some hv))
  | zeroDivisor hop hvs hd hzero =>
    cases (hadmits.nonzero hop _ _ hvs _ hd).symm.trans hzero
  | outOfRange _ hop hvs => exact .inr ⟨hop, rfl, hvs⟩
  | value _ hv => exact .inl ⟨_, rfl, hv⟩

end Reacts

/-- An operator complains of the number of its arguments just when that is wrong; otherwise of the
first argument that is no number, if it needs numbers, just when there is one; otherwise of division
by zero just when a divisor is zero, an integer or not, of either sign. Otherwise it comes to a value
of the language, or arithmetic is out of range where floating point comes in. No limit of the host
is met. -/
theorem apply_complains_in_order (hproper : ∀ v ∈ vs, v.isProper = true)
    (hwritable : ∀ v ∈ vs, v.isWritable = true)
    (hroom : Value.framesPerLevel * (Value.list vs).nesting ≤ room) :
    ((∃ f, op.apply room vs = .error (.fault f) ∧ f.kind = .arity) ↔
      op.accepts vs.length = false) ∧
    (op.accepts vs.length = false →
      op.apply room vs = .error (.because (.arity op.name op.expectation vs.length))) ∧
    (op.accepts vs.length = true → op.isNumeric = true →
      ((∃ shown, op.apply room vs = .error (.because (.notNumeric op.name shown))) ↔
        ∃ v ∈ vs, v.asNumber? = none) ∧
      ∀ v, vs.find? (·.asNumber?.isNone) = some v → ∃ shown, v.print = .ok shown ∧
        op.apply room vs = .error (.because (.notNumeric op.name shown))) ∧
    (∀ n ns, op = .div → vs = (n :: ns).map .num →
      ((∃ f, op.apply room vs = .error (.fault f) ∧ f.kind = .divisionByZero) ↔
        ∃ d ∈ if ns = [] then [n] else ns, d = .int 0 ∨ ∃ negative, d = .float (.zero negative))) ∧
    (op.Admits vs → (∃ v, op.apply room vs = .ok v ∧ v.isProper = true) ∨
      op.isArithmetic = true ∧ op.apply room vs = .error (.because (.outOfRange op.name)) ∧
        op.Inexact vs) ∧
    ∀ x, op.apply room vs ≠ .error (.escape x) := by
  have h : Reacts op vs (op.apply room vs) := reacts_apply hproper hwritable hroom
  refine ⟨⟨?_, fun hcount => ⟨_, h.eq_arity hcount, rfl⟩⟩, h.eq_arity,
    fun hcount hop => ⟨⟨?_, ?_⟩, fun v hv => h.eq_notNumeric hcount hop hv⟩, ?_, h.of_admits, ?_⟩
  · rintro ⟨f, hf, hkind⟩
    exact (hf ▸ h).count_of_arity hkind
  · rintro ⟨shown, hshown⟩
    exact (hshown ▸ h).other_of_notNumeric
  · rintro ⟨v, hmem, hv⟩
    obtain ⟨w, hw⟩ : ∃ w, vs.find? (·.asNumber?.isNone) = some w :=
      Option.isSome_iff_exists.mp (List.find?_isSome.mpr ⟨v, hmem, by simp [hv]⟩)
    obtain ⟨shown, -, hshown⟩ := h.eq_notNumeric hcount hop hw
    exact ⟨shown, hshown⟩
  · rintro n ns rfl rfl
    have hdivisors : divisors n ns = if ns = [] then [n] else ns := by simp [divisors]
    simp only [h.zeroDivisor_iff, ← hdivisors, Number.isZero_iff]
  · intro x hx
    cases hx ▸ h

def zeros : List Value := [.int 0, .float (.zero true)]

theorem apply_complains_in_order_zeros :
    (∀ v ∈ zeros, v.isProper = true) ∧ (∀ v ∈ zeros, v.isWritable = true) ∧
      Value.framesPerLevel * (Value.list zeros).nesting ≤ 3 ∧
      ∃ f, Operator.div.apply 3 zeros = .error (.fault f) ∧ f.kind = .divisionByZero := by
  have hproper : ∀ v ∈ zeros, v.isProper = true := by decide
  have hwritable : ∀ v ∈ zeros, v.isWritable = true := by
    have hpow : ∀ k, 0 < Nat.pow 10 k := fun k => Nat.pow_pos (by decide)
    have hpos : 0 < unwritten := by
      unfold unwritten
      exact hpow digitLimit
    simp [zeros, Value.isWritable, Number.isWritable, hpos]
  have hroom : Value.framesPerLevel * (Value.list zeros).nesting ≤ 3 := by decide
  have hzero := (apply_complains_in_order hproper hwritable hroom).2.2.2.1 (.int 0)
    [.float (.zero true)] rfl rfl
  exact ⟨hproper, hwritable, hroom, hzero.mpr ⟨.float (.zero true), by simp, .inr ⟨true, rfl⟩⟩⟩

end Values

end Operator

end PocketLisp
