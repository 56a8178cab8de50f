/-!
Floating-point numbers of sixty-four bits.

A finite magnitude is held by its code: its place in the list of all finite magnitudes in order,
with 0 for zero. Every finite magnitude is a whole multiple of the least positive one, the unit
2^-1074, so exact values are integers. Codes below 2^53 are their own number of units; from there
on, each further run of 2^52 codes doubles the spacing.
-/
namespace PocketLisp

namespace Binary64

/-- The number of codes with one spacing. -/
def run : Nat := Nat.pow 2 52

/-- The first code past the finite magnitudes. -/
def overflow : Nat := 2047 * run

/-- The number of units in one. -/
def one : Nat := Nat.pow 2 1074

/-- The spacing at a code is two to this power, in units. -/
def spacing (code : Nat) : Nat := code / run - 1

/-- The magnitude with a given code, in units. -/
def units (code : Nat) : Nat := (code - spacing code * run) * Nat.pow 2 (spacing code)

/-- The quotient rounded to the nearest whole number, a half to the even neighbour. -/
def roundDiv (a b : Nat) : Nat :=
  let q := a / b
  let r := a % b
  if 2 * r < b then q else if b < 2 * r then q + 1 else q + q % 2

/-- The code nearest to `num / den` units, of two equally near ones the even one. Codes from
`overflow` on stand for magnitudes that are out of range. -/
def nearest (num den : Nat) : Nat :=
  let s := (num / den).log2 - 52
  s * run + roundDiv num (den * Nat.pow 2 s)

end Binary64

/-- A floating-point number: a signed finite magnitude, an infinity, or not a number. -/
inductive Binary64 where
  | finite (negative : Bool) (code : Fin Binary64.overflow)
  | infinite (negative : Bool)
  | nan
  deriving DecidableEq

namespace Binary64

def zero (negative : Bool) : Binary64 := .finite negative ⟨0, by decide⟩

/-- The number nearest to `num / den` units, infinite when that is out of range. -/
def round (negative : Bool) (num den : Nat) : Binary64 :=
  let code := nearest num den
  if h : code < overflow then .finite negative ⟨code, h⟩ else .infinite negative

def unit : Binary64 := round false one 1

def signed (negative : Bool) (n : Nat) : Int := if negative then -(n : Int) else n

def isFinite : Binary64 → Bool
  | .finite .. => true
  | _ => false

def isZero : Binary64 → Bool
  | .finite _ code => code.val == 0
  | _ => false

theorem units_eq_self {code : Nat} (h : code < 2 * run) : units code = code := by
  have hs : spacing code = 0 := by
    have : code / run < 2 := Nat.div_lt_of_lt_mul (by omega)
    unfold spacing
    omega
  simp [units, hs]

theorem roundDiv_self (m : Nat) {b : Nat} (hb : 0 < b) : roundDiv (m * b) b = m := by
  simp [roundDiv, Nat.mul_div_cancel m hb, hb]

end Binary64

end PocketLisp
