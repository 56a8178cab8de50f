import Mathlib.Algebra.BigOperators.Group.List.Basic
import Mathlib.Algebra.BigOperators.Ring.List
import PocketLisp.Proofs.Binary64.Nearest
import PocketLisp.Proofs.Eval.Answer

/-!
Arithmetic on integers is exact, whatever their size and number: a sum, a difference and a product
are integers, and a quotient is one just when it is whole. Any other quotient becomes what the exact
fraction is rounded to, unless that is out of range. One floating-point operand is enough for the
result to be no integer.
-/
namespace PocketLisp.Operator

/-- The operators that compute a number from numbers. -/
def isArithmetic : Operator → Bool
  | .add | .sub | .mul | .div => true
  | _ => false

theorem isNumeric_of_isArithmetic {op : Operator} (h : op.isArithmetic = true) :
    op.isNumeric = true := by
  cases op <;> first | rfl | cases h

/-! Folds of integers stay among the integers. -/

section Integers

variable {f : Number → Number → Option Number} {g : Int → Int → Int}

theorem foldlM_int (h : ∀ m n, f (.int m) (.int n) = some (.int (g m n))) (m : Int)
    (ns : List Int) : (ns.map Number.int).foldlM f (.int m) = some (.int (ns.foldl g m)) := by
  induction ns generalizing m with
  | nil => rfl
  | cons n ns ih => simp [h, ih]

theorem sum_int (ns : List Int) : sum (ns.map .int) = some (.int ns.sum) := by
  rw [sum, foldlM_int Number.add?_int, List.sum_eq_foldl]

theorem product_int (ns : List Int) : product (ns.map .int) = some (.int ns.prod) := by
  rw [product, foldlM_int Number.mul?_int, List.prod_eq_foldl]

theorem foldl_sub (n : Int) (ns : List Int) : ns.foldl (· - ·) n = n - ns.sum := by
  induction ns generalizing n with
  | nil => simp
  | cons m ns ih => simp [ih, sub_sub]

theorem difference_int (n : Int) (ns : List Int) :
    difference (.int n) (ns.map .int) = some (.int (if ns = [] then -n else n - ns.sum)) := by
  cases ns with
  | nil => rfl
  | cons m ns =>
    have hfold := foldlM_int Number.sub?_int n (m :: ns)
    rwa [foldl_sub] at hfold

theorem exactQuotient_eq (a : Int) (bs : List Int) : exactQuotient a bs =
    if bs.prod ∣ a then .ok (.int (a / bs.prod))
    else Operator.div.inRange ((Binary64.ofRatio? a bs.prod).map .float) := by
  rw [exactQuotient, ← List.prod_eq_foldl]
  simp only [← Int.dvd_iff_emod_eq_zero]

theorem integers?_map (ns : List Int) : integers? (ns.map .int) = some ns := by
  induction ns with
  | nil => rfl
  | cons n ns ih =>
    simp only [integers?, List.map_cons, List.mapM_cons] at ih ⊢
    rw [ih]
    rfl

theorem quotient_int (a : Int) {bs : List Int} (h : bs ≠ []) :
    quotient (.int a) (bs.map .int) = exactQuotient a bs := by
  cases bs with
  | nil => exact absurd rfl h
  | cons b bs =>
    have hints := integers?_map (b :: bs)
    rw [List.map_cons] at hints ⊢
    simp only [quotient, hints]

theorem map_int (ns : List Int) : ns.map Value.int = (ns.map Number.int).map .num := by simp

theorem apply_int {op : Operator} (hop : op.isNumeric = true) (room : Nat) {ns : List Int}
    (h : op.accepts ns.length = true) :
    op.apply room (ns.map .int) = op.compute room (ns.map .int) := by
  rw [map_int, apply_of_isNumeric hop (by simpa using h), numbers_map]
  rfl

theorem apply_div_int (room : Nat) (a : Int) {bs : List Int} (h : bs ≠ []) (hb : ∀ b ∈ bs, b ≠ 0) :
    Operator.div.apply room ((a :: bs).map .int) = exactQuotient a bs := by
  have hzero : (divisors (.int a) (bs.map .int)).any Number.isZero = false := by
    simpa [divisors, h, Number.isZero] using hb
  rw [apply_int rfl room (by simp [accepts]), ← quotient_int a h]
  simp [compute, divide, hzero]

end Integers

/-! An operation is carried out in floating point as soon as one operand is. -/

theorem isInt_of_combine? {f : Int → Int → Int} {g : Binary64 → Binary64 → Binary64}
    {a b n : Number} (h : Number.combine? f g a b = some n) : n.isInt = (a.isInt && b.isInt) := by
  have hfloat : ∀ {p : Option (Binary64 × Binary64)},
      (p.map fun p => Number.float (g p.1 p.2)) = some n → n.isInt = false := by
    intro p hp
    obtain ⟨_, -, rfl⟩ := Option.map_eq_some_iff.mp hp
    rfl
  cases a with
  | float x => exact hfloat h
  | int a =>
    cases b with
    | float y => exact hfloat h
    | int b =>
      cases h
      rfl

theorem isInt_of_foldlM {f : Number → Number → Option Number}
    (hf : ∀ {a b n}, f a b = some n → n.isInt = (a.isInt && b.isInt)) {m n : Number}
    {ns : List Number} (h : ns.foldlM f m = some n) : n.isInt = (m.isInt && ns.all (·.isInt)) := by
  induction ns generalizing m with
  | nil =>
    cases h
    simp
  | cons k ns ih =>
    rw [List.foldlM_cons] at h
    obtain ⟨l, hl, hrest⟩ := Option.bind_eq_some_iff.mp h
    rw [ih hrest, hf hl, List.all_cons, Bool.and_assoc]

theorem isInt_of_difference {m n : Number} {ns : List Number} (h : difference m ns = some n) :
    n.isInt = (m.isInt && ns.all (·.isInt)) := by
  cases ns with
  | nil =>
    cases h
    cases m <;> rfl
  | cons k ns => exact isInt_of_foldlM isInt_of_combine? h

theorem all_isInt_of_integers? {ns : List Number} {ms : List Int} (h : integers? ns = some ms) :
    ns.all (·.isInt) = true := by
  induction ns generalizing ms with
  | nil => rfl
  | cons n ns ih =>
    cases n with
    | float x => cases h
    | int n =>
      rw [integers?, List.mapM_cons] at h
      obtain ⟨_, -, hrest⟩ := Option.bind_eq_some_iff.mp h
      obtain ⟨ks, hks, -⟩ := Option.bind_eq_some_iff.mp hrest
      exact ih hks

theorem float_of_quotient {n : Number} {ns : List Number} {v : Value} (h : quotient n ns = .ok v)
    (hns : (n :: ns).all (·.isInt) = false) : ∃ y, v = .float y := by
  unfold quotient at h
  split at h
  · exact float_of_floatQuotient h
  · split at h
    · rename_i hints
      have hall := all_isInt_of_integers? hints
      cases hns.symm.trans (show (Number.int _ :: ns).all (·.isInt) = true from hall)
    · split at h
      · cases h
      · exact float_of_floatQuotient h

theorem float_of_inRange {op : Operator} {n : Option Number} {v : Value}
    (h : op.inRange n = .ok v) (hn : ∀ m, n = some m → m.isInt = false) : ∃ y, v = .float y := by
  cases n with
  | none => cases h
  | some m =>
    cases h
    cases m with
    | int m => cases hn _ rfl
    | float y => exact ⟨y, rfl⟩

theorem float_of_compute {op : Operator} (hop : op.isArithmetic = true) {room : Nat}
    {ns : List Number} {v : Value} (h : op.compute room ns = .ok v)
    (hns : ns.all (·.isInt) = false) : ∃ y, v = .float y := by
  cases op with
  | less | greater | equal | atom | list => cases hop
  | add | mul =>
    refine float_of_inRange h fun m hm => ?_
    rw [isInt_of_foldlM isInt_of_combine? hm, hns, Bool.and_false]
  | sub =>
    cases ns with
    | nil => cases hns
    | cons n ns => exact float_of_inRange h fun m hm => isInt_of_difference hm ▸ hns
  | div =>
    cases ns with
    | nil => cases hns
    | cons n ns =>
      simp only [compute, divide] at h
      split at h
      · split at h <;> cases h
      · exact float_of_quotient h hns

theorem number_of_asNumber?_eq_none (op : Operator) (room : Nat) {v : Value}
    (h : v.asNumber? = none) : ∃ e, op.number room v = .error e := by
  rw [number, h]
  dsimp only
  split
  · exact ⟨_, rfl⟩
  · exact ⟨_, rfl⟩

theorem float_of_apply {op : Operator} (hop : op.isArithmetic = true) {room : Nat}
    {vs : List Value} {v : Value} {x : Binary64} (hx : .float x ∈ vs)
    (h : op.apply room vs = .ok v) : ∃ y, v = .float y := by
  have haccepts : op.accepts vs.length = true := by
    by_contra hnot
    cases h.symm.trans (apply_of_not_accepts (by simpa using hnot))
  rw [apply_of_isNumeric (isNumeric_of_isArithmetic hop) haccepts] at h
  rcases numbers_or_other vs with ⟨ns, rfl⟩ | ⟨ns, w, rest, rfl, hw⟩
  · rw [numbers_map] at h
    refine float_of_compute hop h ?_
    obtain ⟨n, hn, hnum⟩ := List.mem_map.mp hx
    cases hnum
    exact List.all_eq_false.mpr ⟨_, hn, by simp [Number.isInt]⟩
  · obtain ⟨e, he⟩ := op.number_of_asNumber?_eq_none room hw
    rw [numbers_append he] at h
    cases h

/-- What is not whole is rounded once. -/
theorem exactQuotient_of_not_dvd {a : Int} {bs : List Int} (hb : ∀ b ∈ bs, b ≠ 0)
    (h : ¬bs.prod ∣ a) :
    (|(a / bs.prod : ℚ)| < 2 ^ 1024 - 2 ^ 970 →
      ∃ x, exactQuotient a bs = .ok (.float x) ∧
        ∀ y, Binary64.RoundsTo (a / bs.prod) y ↔ y = x) ∧
    (2 ^ 1024 - 2 ^ 970 ≤ |(a / bs.prod : ℚ)| →
      exactQuotient a bs = .error (.because (.outOfRange "/"))) := by
  have hprod : bs.prod ≠ 0 := List.prod_ne_zero fun h0 => hb 0 h0 rfl
  have ha : a ≠ 0 := by
    rintro rfl
    exact h (dvd_zero _)
  rw [exactQuotient_eq, if_neg h]
  cases hx : Binary64.ofRatio? a bs.prod with
  | none =>
    have hrange := (Binary64.ofRatio?_eq_none_iff hprod).mp hx
    exact ⟨fun hlt => absurd hlt hrange.not_gt, fun _ => rfl⟩
  | some x =>
    have hrounds := Binary64.roundsTo_of_ofRatio? hprod ha hx
    refine ⟨fun _ => ⟨x, rfl, fun y => ⟨fun hy => hy.unique hrounds, fun hy => hy ▸ hrounds⟩⟩, ?_⟩
    intro hge
    cases hx.symm.trans ((Binary64.ofRatio?_eq_none_iff hprod).mpr hge)

theorem inRange_float_ne_int (op : Operator) (x : Option Binary64) (q : Int) :
    op.inRange (x.map .float) ≠ .ok (.int q) := by
  cases x with
  | none => exact fun h => nomatch h
  | some x => exact fun h => nomatch h

theorem exactQuotient_eq_int_iff {a : Int} {bs : List Int} (hb : ∀ b ∈ bs, b ≠ 0) (q : Int) :
    exactQuotient a bs = .ok (.int q) ↔ a = q * bs.prod := by
  have hprod : bs.prod ≠ 0 := List.prod_ne_zero fun h0 => hb 0 h0 rfl
  rw [exactQuotient_eq]
  split
  · rename_i hdvd
    simp only [Except.ok.injEq, Value.num.injEq, Number.int.injEq]
    rw [Int.ediv_eq_iff_eq_mul_left hprod hdvd]
  · rename_i hdvd
    constructor
    · intro hint
      exact absurd hint (inRange_float_ne_int _ _ q)
    · rintro rfl
      exact absurd (dvd_mul_left _ _) hdvd

/-- Sums, differences and products of integers are exact. A quotient of integers is an integer just
when it is whole; otherwise it is the one number that the exact fraction is rounded to, or out of
range. One operand in floating point makes for a result in floating point, if there is one. -/
theorem arithmetic_is_exact (room : Nat) :
    (∀ ns : List Int, Operator.add.apply room (ns.map .int) = .ok (.int ns.sum) ∧
      Operator.mul.apply room (ns.map .int) = .ok (.int ns.prod)) ∧
    (∀ (n : Int) (ns : List Int), Operator.sub.apply room ((n :: ns).map .int) =
      .ok (.int (if ns = [] then -n else n - ns.sum))) ∧
    (∀ (a : Int) (bs : List Int), bs ≠ [] → (∀ b ∈ bs, b ≠ 0) →
      (∀ q, Operator.div.apply room ((a :: bs).map .int) = .ok (.int q) ↔ a = q * bs.prod) ∧
      ((∀ q, a ≠ q * bs.prod) →
        (|(a / bs.prod : ℚ)| < 2 ^ 1024 - 2 ^ 970 →
          ∃ x, Operator.div.apply room ((a :: bs).map .int) = .ok (.float x) ∧
            ∀ y, Binary64.RoundsTo (a / bs.prod) y ↔ y = x) ∧
        (2 ^ 1024 - 2 ^ 970 ≤ |(a / bs.prod : ℚ)| →
          Operator.div.apply room ((a :: bs).map .int) =
            .error (.because (.outOfRange "/"))))) ∧
    ∀ (op : Operator) (vs : List Value) (x : Binary64) (v : Value), op.isArithmetic = true →
      .float x ∈ vs → op.apply room vs = .ok v → ∃ y, v = .float y := by
  refine ⟨fun ns => ⟨?_, ?_⟩, fun n ns => ?_, fun a bs hbs hb => ?_,
    fun op vs x v hop hx h => float_of_apply hop hx h⟩
  · rw [apply_int rfl room rfl, compute, sum_int]
    rfl
  · rw [apply_int rfl room rfl, compute, product_int]
    rfl
  · rw [apply_int rfl room (by simp [accepts]), List.map_cons, compute, difference_int]
    rfl
  · rw [apply_div_int room a hbs hb]
    refine ⟨exactQuotient_eq_int_iff hb, fun hwhole => exactQuotient_of_not_dvd hb ?_⟩
    rintro ⟨q, hq⟩
    exact hwhole q (hq.trans (mul_comm _ _))

end PocketLisp.Operator
