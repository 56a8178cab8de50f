import PocketLisp.Binary64.Arithmetic

/-!
Decimal numbers and the floating-point numbers nearest to them.

Reading rounds the exact decimal once. Writing takes the fewest digits that read back: on the grid
of one digit, then of two, and so on, it tries the two neighbours of the exact value, and of two
that read back takes the nearer, or the even one if they are equally near.
-/
namespace PocketLisp

/-- A decimal number `digits` times ten to the power `exponent`. -/
structure Decimal where
  digits : Nat
  exponent : Int
  deriving DecidableEq

namespace Binary64

/-- The number nearest to a decimal. Decimals past every finite number, and those too small to be
told from zero, are settled by their size alone. -/
def ofDecimal (negative : Bool) (d : Decimal) : Binary64 :=
  if d.digits = 0 then zero negative
  else if 400 < d.exponent then .infinite negative
  else if d.exponent + (d.digits.log2 + 1 : Nat) < -400 then zero negative
  else if 0 ≤ d.exponent then round negative (d.digits * Nat.pow 10 d.exponent.toNat * one) 1
  else round negative (d.digits * one) (Nat.pow 10 (-d.exponent).toNat)

/-- A power of ten larger than any reciprocal of a positive finite number. -/
def scale : Nat := 400

/-- The largest power of ten not above `num / one` times ten to the power `scale`. -/
def magnitude (num : Nat) : Nat := (Nat.toDigits 10 (num * Nat.pow 10 scale / one)).length - 1

/-- The two decimals with this many digits between which a code lies, the nearer one first, or the
even one if they are equally near; `lead` is the magnitude of the code. -/
def neighbours (code : Fin overflow) (lead places : Nat) : Decimal × Decimal :=
  let num := units code * Nat.pow 10 scale
  let shift := lead + 1 - places
  let den := one * Nat.pow 10 shift
  let exponent : Int := (shift : Int) - scale
  let below : Decimal := ⟨num / den, exponent⟩
  let above : Decimal := ⟨num / den + 1, exponent⟩
  let twice := 2 * (num % den)
  let first := if twice < den then true else if den < twice then false else num / den % 2 == 0
  if first then (below, above) else (above, below)

def readsBack (code : Fin overflow) (d : Decimal) : Bool := ofDecimal false d == .finite false code

def firstReadingBack? (code : Fin overflow) (near far : Decimal) : Option Decimal :=
  if readsBack code near then some near else if readsBack code far then some far else none

/-- The decimal with this many digits that reads back as the code and is nearest to it, if any. -/
def decimalAt? (code : Fin overflow) (lead places : Nat) : Option Decimal :=
  let p := neighbours code lead places
  firstReadingBack? code p.1 p.2

def exactDecimal (code : Fin overflow) : Decimal := ⟨units code * Nat.pow 5 1074, -1074⟩

/-- The decimal with the fewest digits that reads back as the code. Seventeen digits are always
enough. -/
def shortest (code : Fin overflow) : Decimal :=
  let lead := magnitude (units code)
  ((List.range' 1 17).findSome? (decimalAt? code lead)).getD (exactDecimal code)

end Binary64

end PocketLisp
