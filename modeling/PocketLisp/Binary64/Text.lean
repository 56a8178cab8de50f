import PocketLisp.Binary64.Decimal

/-! The written form of floating-point numbers. -/
namespace PocketLisp.Binary64

/-- How a decimal is laid out: the powers of ten of the leading digit that are written without an
exponent, and the least number of digits of an exponent. -/
structure Layout where
  leastPlain : Int
  greatestPlain : Int
  exponentWidth : Nat

/-- Numbers from 0.0001 up to 10^16 are written plainly, always with a point; the others have an
exponent with its sign and two digits at least. -/
def layout : Layout := ⟨-4, 15, 2⟩

/-- The digits of a decimal without the zeros at the end, and the power of ten of its first digit. -/
def leading (d : Decimal) : List Char × Int :=
  let ds := Nat.toDigits 10 d.digits
  ((ds.reverse.dropWhile (· == '0')).reverse, d.exponent + ds.length - 1)

/-- Digits with the point in its place. The first digit stands for ten to the power `lead`. -/
def plain (ds : List Char) (lead : Int) : List Char :=
  if lead < 0 then '0' :: '.' :: List.replicate (-lead - 1).toNat '0' ++ ds
  else
    let whole := lead.toNat + 1
    if ds.length ≤ whole then ds ++ List.replicate (whole - ds.length) '0' ++ ['.', '0']
    else ds.take whole ++ '.' :: ds.drop whole

/-- Digits with an exponent: one before the point, the others after it. -/
def withExponent (width : Nat) (ds : List Char) (lead : Int) : List Char :=
  let mantissa :=
    match ds with
    | [] => ['0']
    | [c] => [c]
    | c :: cs => c :: '.' :: cs
  let power := Nat.toDigits 10 lead.natAbs
  mantissa ++ 'e' :: (if lead < 0 then '-' else '+') ::
    (List.replicate (width - power.length) '0' ++ power)

def magnitudeText (code : Fin overflow) : List Char :=
  if code.val = 0 then ['0', '.', '0']
  else
    let (ds, lead) := leading (shortest code)
    if layout.leastPlain ≤ lead ∧ lead ≤ layout.greatestPlain then plain ds lead
    else withExponent layout.exponentWidth ds lead

/-- The fewest digits that read back, with a minus sign for negative numbers and for the negative
zero. -/
def toText : Binary64 → String
  | .nan => "nan"
  | .infinite negative => if negative then "-inf" else "inf"
  | .finite negative code =>
    String.ofList (if negative then '-' :: magnitudeText code else magnitudeText code)

end PocketLisp.Binary64
