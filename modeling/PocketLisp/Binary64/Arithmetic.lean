import PocketLisp.Binary64.Basic

/-! Arithmetic and comparison: each operation is carried out exactly and rounded once. -/
namespace PocketLisp.Binary64

def neg : Binary64 → Binary64
  | .finite negative code => .finite (!negative) code
  | .infinite negative => .infinite (!negative)
  | .nan => .nan

/-- A sum of nothing is a negative zero only if both parts are. -/
def add : Binary64 → Binary64 → Binary64
  | .nan, _ => .nan
  | _, .nan => .nan
  | .infinite a, .infinite b => if a = b then .infinite a else .nan
  | .infinite a, _ => .infinite a
  | _, .infinite b => .infinite b
  | .finite a c, .finite b d =>
    let sum := signed a (units c) + signed b (units d)
    if sum = 0 then zero (a && b) else round (sum < 0) sum.natAbs 1

def sub (x y : Binary64) : Binary64 := add x (neg y)

def mul : Binary64 → Binary64 → Binary64
  | .nan, _ => .nan
  | _, .nan => .nan
  | .infinite a, .infinite b => .infinite (a != b)
  | .infinite a, .finite b d => if d.val = 0 then .nan else .infinite (a != b)
  | .finite a c, .infinite b => if c.val = 0 then .nan else .infinite (a != b)
  | .finite a c, .finite b d => round (a != b) (units c * units d) one

/-- The quotient; there is none when the divisor is a zero. -/
def div? (x y : Binary64) : Option Binary64 :=
  if y.isZero then none
  else
    match x, y with
    | .nan, _ => some .nan
    | _, .nan => some .nan
    | .infinite _, .infinite _ => some .nan
    | .infinite a, .finite b _ => some (.infinite (a != b))
    | .finite a _, .infinite b => some (zero (a != b))
    | .finite a c, .finite b d => some (round (a != b) (units c * one) (units d))

def finite? : Binary64 → Option Binary64
  | .finite negative code => some (.finite negative code)
  | _ => none

def ofInt? (n : Int) : Option Binary64 := (round (n < 0) (n.natAbs * one) 1).finite?

/-- The nearest number to a quotient of integers; none when it is out of range. -/
def ofRatio? (num den : Int) : Option Binary64 :=
  (round ((num < 0) != (den < 0)) (num.natAbs * one) den.natAbs).finite?

/-- Equality of numbers: zeros of either sign are equal, and what is not a number equals nothing. -/
def eq : Binary64 → Binary64 → Bool
  | .finite a c, .finite b d => signed a (units c) == signed b (units d)
  | .infinite a, .infinite b => a == b
  | _, _ => false

theorem eq_of_finite? {x y : Binary64} (h : x.finite? = some y) : x = y := by
  cases x with
  | finite negative code => exact Option.some.inj h
  | infinite negative => cases h
  | nan => cases h

theorem div?_eq_none_iff {x y : Binary64} : div? x y = none ↔ y.isZero = true := by
  unfold div?
  split
  · simp [*]
  · rename_i h
    simp only [h, Bool.false_eq_true, iff_false]
    split <;> simp

end PocketLisp.Binary64
