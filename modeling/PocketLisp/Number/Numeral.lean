import PocketLisp.Binary64.Decimal
import PocketLisp.Value.Print

/-!
Numerals: the texts that denote numbers. An integer numeral is a run of digits with an optional
sign; any other numeral has a point or an exponent and denotes a floating-point number.
-/
namespace PocketLisp

inductive Numeral where
  | integer (negative : Bool) (digits : List Char)
  | decimal (negative : Bool) (whole fraction : List Char) (exponent : Int)
  deriving DecidableEq

namespace Numeral

/-- Take a sign off the front: whether it is a minus, and the rest. -/
def splitSign : List Char → Bool × List Char
  | '-' :: cs => (true, cs)
  | '+' :: cs => (false, cs)
  | cs => (false, cs)

def digitsValue (ds : List Char) : Nat := ds.foldl (fun n c => 10 * n + (c.toNat - '0'.toNat)) 0

/-- The exponent written after a mantissa; none written is zero. -/
def exponent? : List Char → Option Int
  | [] => some 0
  | c :: cs =>
    let (negative, ds) := splitSign cs
    if (c = 'e' ∨ c = 'E') ∧ ds ≠ [] ∧ ds.all Char.isDigit then
      some (Binary64.signed negative (digitsValue ds))
    else none

def ofChars? (cs : List Char) : Option Numeral :=
  let (negative, body) := splitSign cs
  let whole := body.takeWhile Char.isDigit
  match body.dropWhile Char.isDigit with
  | [] => if whole = [] then none else some (.integer negative whole)
  | '.' :: rest =>
    let fraction := rest.takeWhile Char.isDigit
    if whole = [] ∧ fraction = [] then none
    else (exponent? (rest.dropWhile Char.isDigit)).map (.decimal negative whole fraction)
  | rest => if whole = [] then none else (exponent? rest).map (.decimal negative whole [])

def ofText? (s : String) : Option Numeral := ofChars? s.toList

/-- The number that a numeral denotes. Integers may not have too many digits, zeros in front
included. -/
def value : Numeral → Except Escape Number
  | .integer negative ds =>
    if ds.length ≤ digitLimit then .ok (.int (Binary64.signed negative (digitsValue ds)))
    else .error (.readLimit ds.length)
  | .decimal negative whole fraction exponent =>
    .ok (.float (Binary64.ofDecimal negative
      ⟨digitsValue (whole ++ fraction), exponent - fraction.length⟩))

end Numeral

/-- The number that a text denotes; any other text is a fault. -/
def parseNumber (s : String) : Except Failure Number :=
  match Numeral.ofText? s with
  | some n => n.value.mapError .escape
  | none => .error (.because (.notANumber (Text.quoted s)))

/-- The value of an atom: a number if it is a numeral, and a symbol otherwise. -/
def atomValue (s : String) : Except Escape Value :=
  match Numeral.ofText? s with
  | some n => n.value.map .num
  | none => .ok (.sym s)

end PocketLisp
