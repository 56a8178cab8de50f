import PocketLisp.Binary64.Arithmetic

/-! Numbers of the language: integers of any size and floating-point numbers. -/
namespace PocketLisp

inductive Number where
  | int (n : Int)
  | float (x : Binary64)
  deriving DecidableEq

namespace Number

def isInt : Number → Bool
  | .int _ => true
  | .float _ => false

/-- The floating-point form of a number; an integer out of range has none. -/
def toFloat? : Number → Option Binary64
  | .int n => Binary64.ofInt? n
  | .float x => some x

def toFloats? (a b : Number) : Option (Binary64 × Binary64) :=
  a.toFloat?.bind fun x => b.toFloat?.map fun y => (x, y)

/-- An operation that is exact on integers and otherwise carried out in floating point. -/
def combine? (onInts : Int → Int → Int) (onFloats : Binary64 → Binary64 → Binary64) :
    Number → Number → Option Number
  | .int m, .int n => some (.int (onInts m n))
  | a, b => (a.toFloats? b).map fun p => .float (onFloats p.1 p.2)

def add? : Number → Number → Option Number := combine? (· + ·) Binary64.add
def sub? : Number → Number → Option Number := combine? (· - ·) Binary64.sub
def mul? : Number → Number → Option Number := combine? (· * ·) Binary64.mul

def neg : Number → Number
  | .int n => .int (-n)
  | .float x => .float x.neg

def isZero : Number → Bool
  | .int n => n == 0
  | .float x => x.isZero

/-- Where a number lies on the line: below or above every finite number, at an exact number of
units, or nowhere. -/
inductive Place where
  | bottom
  | point (units : Int)
  | top
  deriving DecidableEq

/-- What is not a number has no place. -/
def place? : Number → Option Place
  | .int n => some (.point (n * Binary64.one))
  | .float (.finite negative code) => some (.point (Binary64.signed negative (Binary64.units code)))
  | .float (.infinite negative) => some (if negative then .bottom else .top)
  | .float .nan => none

def Place.lt : Place → Place → Bool
  | .point m, .point n => m < n
  | .bottom, .bottom => false
  | .bottom, _ => true
  | .top, _ => false
  | .point _, .bottom => false
  | .point _, .top => true

/-- Comparison of exact values; false if either has none. -/
def lt (a b : Number) : Bool :=
  match a.place?, b.place? with
  | some p, some q => p.lt q
  | _, _ => false

/-- Equality of numbers of the same form. -/
def same : Number → Number → Bool
  | .int m, .int n => m == n
  | .float x, .float y => x.eq y
  | _, _ => false

@[simp] theorem add?_int (m n : Int) : add? (.int m) (.int n) = some (.int (m + n)) := rfl
@[simp] theorem sub?_int (m n : Int) : sub? (.int m) (.int n) = some (.int (m - n)) := rfl
@[simp] theorem mul?_int (m n : Int) : mul? (.int m) (.int n) = some (.int (m * n)) := rfl

end Number

end PocketLisp
