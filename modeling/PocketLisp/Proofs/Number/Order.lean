import Mathlib.Order.RelClasses
import Mathlib.Order.WithBot
import PocketLisp.Eval.Operator
import PocketLisp.Proofs.Binary64.Nearest

/-!
Comparison of numbers, whatever their form, is comparison of their mathematical values. Integers are
not rounded on the way, so numbers of both forms, taken together, are in a strict weak order, in
which two of them are level exactly if they have the same value.
-/
namespace PocketLisp

namespace Number

/-- The mathematical value of a number: a fraction, or one of the infinities. What is not a number
has none. -/
def amount? : Number → Option (WithBot (WithTop ℚ))
  | .int n => some ((n : ℚ) : WithTop ℚ)
  | .float (.finite negative code) => some ((Binary64.exact negative code : ℚ) : WithTop ℚ)
  | .float (.infinite negative) => some (if negative then ⊥ else ⊤)
  | .float .nan => none

def Place.amount : Place → WithBot (WithTop ℚ)
  | .bottom => ⊥
  | .point units => ((units / Binary64.one : ℚ) : WithTop ℚ)
  | .top => ⊤

theorem amount?_eq (n : Number) : n.amount? = n.place?.map Place.amount := by
  cases n with
  | int n =>
    have hunits : ((n * Binary64.one : Int) : ℚ) / Binary64.one = n := by
      rw [Int.cast_mul, Int.cast_natCast, mul_div_cancel_right₀ _ Binary64.one_cast_pos.ne']
    simp only [amount?, place?, Place.amount, Option.map_some, hunits]
  | float x =>
    cases x with
    | finite negative code => rfl
    | infinite negative => cases negative <;> rfl
    | nan => rfl

theorem Place.lt_iff (p q : Place) : p.lt q = true ↔ p.amount < q.amount := by
  have hpoint (m n : Int) : (m : ℚ) / Binary64.one < n / Binary64.one ↔ m < n := by
    rw [div_lt_div_iff_of_pos_right Binary64.one_cast_pos, Int.cast_lt]
  cases p with
  | bottom =>
    cases q with
    | bottom => exact iff_of_false Bool.false_ne_true (lt_irrefl _)
    | point n => exact iff_of_true rfl (WithBot.bot_lt_coe _)
    | top => exact iff_of_true rfl (WithBot.bot_lt_coe _)
  | point m =>
    cases q with
    | bottom => exact iff_of_false Bool.false_ne_true not_lt_bot
    | point n =>
      rw [Place.lt, decide_eq_true_eq, Place.amount, Place.amount, WithBot.coe_lt_coe,
        WithTop.coe_lt_coe, hpoint]
    | top => exact iff_of_true rfl (WithBot.coe_lt_coe.mpr (WithTop.coe_lt_top _))
  | top => exact iff_of_false Bool.false_ne_true not_top_lt

theorem Place.amount_injective : Function.Injective Place.amount := by
  intro p q h
  have hpq : p.lt q = false := Bool.eq_false_iff.mpr fun hlt => ((lt_iff p q).mp hlt).ne h
  have hqp : q.lt p = false := Bool.eq_false_iff.mpr fun hlt => ((lt_iff q p).mp hlt).ne h.symm
  cases p with
  | bottom =>
    cases q with
    | bottom => rfl
    | point n => cases hpq
    | top => cases hpq
  | point m =>
    cases q with
    | bottom => cases hqp
    | point n =>
      rw [Place.lt, decide_eq_false_iff_not] at hpq hqp
      rw [show m = n by omega]
    | top => cases hpq
  | top =>
    cases q with
    | bottom => cases hqp
    | point n => cases hqp
    | top => rfl

/-- A number is less than another exactly if both have a value and the one is below the other. -/
theorem lt_iff (a b : Number) :
    a.lt b = true ↔ ∃ p ∈ a.amount?, ∃ q ∈ b.amount?, p < q := by
  rw [amount?_eq, amount?_eq, lt]
  cases a.place? with
  | none => simp
  | some p =>
    cases b.place? with
    | none => simp
    | some q => simpa using Place.lt_iff p q

theorem amount?_eq_none_iff {n : Number} : n.amount? = none ↔ n = .float .nan := by
  cases n with
  | int n => simp [amount?]
  | float x => cases x <;> simp [amount?]

/-- The numbers that can be compared: all integers, and all floating-point numbers that are
numbers. -/
abbrev Comparable : Type := { n : Number // n ≠ .float .nan }

theorem Comparable.exists_amount (a : Comparable) : ∃ p, a.val.amount? = some p :=
  Option.ne_none_iff_exists'.mp (mt amount?_eq_none_iff.mp a.property)

theorem Comparable.lt_iff {a b : Comparable} {p q : WithBot (WithTop ℚ)}
    (hp : a.val.amount? = some p) (hq : b.val.amount? = some q) :
    a.val.lt b.val = true ↔ p < q := by
  rw [Number.lt_iff, hp, hq]
  simp

theorem Comparable.level_iff (a b : Comparable) :
    (¬a.val.lt b.val = true ∧ ¬b.val.lt a.val = true) ↔ a.val.amount? = b.val.amount? := by
  obtain ⟨p, hp⟩ := a.exists_amount
  obtain ⟨q, hq⟩ := b.exists_amount
  rw [Comparable.lt_iff hp hq, Comparable.lt_iff hq hp, hp, hq, Option.some.injEq, not_lt, not_lt,
    and_comm, le_antisymm_iff]

theorem isStrictWeakOrder_lt :
    IsStrictWeakOrder Comparable fun a b => a.val.lt b.val = true where
  irrefl a := by
    obtain ⟨p, hp⟩ := a.exists_amount
    rw [Comparable.lt_iff hp hp]
    exact lt_irrefl p
  trans a b c := by
    obtain ⟨p, hp⟩ := a.exists_amount
    obtain ⟨q, hq⟩ := b.exists_amount
    obtain ⟨r, hr⟩ := c.exists_amount
    rw [Comparable.lt_iff hp hq, Comparable.lt_iff hq hr, Comparable.lt_iff hp hr]
    exact lt_trans
  incomp_trans a b c := by
    rw [Comparable.level_iff, Comparable.level_iff, Comparable.level_iff]
    exact Eq.trans

end Number

namespace Operator

open Number

theorem apply_less (room : Nat) (a b : Number) :
    Operator.less.apply room [.num a, .num b] = .ok (.ofBool (a.lt b)) := rfl

theorem apply_greater (room : Nat) (a b : Number) :
    Operator.greater.apply room [.num a, .num b] = .ok (.ofBool (b.lt a)) := rfl

/-- The operator that asks whether a number is less than another answers that it is. -/
def Precedes (room : Nat) (a b : Number) : Prop :=
  Operator.less.apply room [.num a, .num b] = .ok Value.t

theorem precedes_iff {room : Nat} {a b : Number} : Precedes room a b ↔ a.lt b = true := by
  rw [Precedes, apply_less]
  cases a.lt b <;> simp [Value.ofBool, Value.t, Value.nil]

/-- Integers of any size and floating-point numbers are in one strict weak order, infinities
included: an order of mathematical values, in which numbers of the same value are level. No
comparison fails, and the two operators that compare mirror each other, also for what is not a
number. -/
theorem comparison_orders_numbers (room : Nat) :
    IsStrictWeakOrder Comparable (fun a b => Precedes room a b) ∧
    (∀ a b : Comparable, (¬Precedes room a b ∧ ¬Precedes room b a) ↔
      a.val.amount? = b.val.amount?) ∧
    (∀ a b : Number, Precedes room a b ↔ ∃ p ∈ a.amount?, ∃ q ∈ b.amount?, p < q) ∧
    ∀ a b : Number, ∃ answer : Bool,
      Operator.less.apply room [.num a, .num b] = .ok (.ofBool answer) ∧
      Operator.greater.apply room [.num b, .num a] = .ok (.ofBool answer) := by
  simp only [precedes_iff]
  exact ⟨isStrictWeakOrder_lt, Comparable.level_iff, Number.lt_iff,
    fun a b => ⟨a.lt b, apply_less room a b, apply_greater room b a⟩⟩

end Operator

end PocketLisp
