import PocketLisp.Value.Print

/-!
Built-in operators, applied to values. Each checks the number of its arguments first, then that
they are numbers if it needs numbers, then divisors, and computes last.
-/
namespace PocketLisp

inductive Operator where
  | add
  | sub
  | mul
  | div
  | less
  | greater
  | equal
  | atom
  | list
  deriving DecidableEq

namespace Operator

def all : List Operator := [.add, .sub, .mul, .div, .less, .greater, .equal, .atom, .list]

def name : Operator → String
  | .add => "+"
  | .sub => "-"
  | .mul => "*"
  | .div => "/"
  | .less => "<"
  | .greater => ">"
  | .equal => "equal"
  | .atom => "atom"
  | .list => "list"

def ofName? (name : String) : Option Operator := all.find? (·.name == name)

def expectation : Operator → Expectation
  | .less | .greater | .equal => .exactly 2
  | .atom => .exactly 1
  | .sub | .div => .phrase "at least 1"
  | .add | .mul | .list => .phrase "at least 0"

def arityFault (op : Operator) (count : Nat) : Failure :=
  .because (.arity op.name op.expectation count)

def number (op : Operator) (room : Nat) (v : Value) : Except Failure Number :=
  match v.asNumber? with
  | some n => .ok n
  | none =>
    match v.renderWithin room with
    | .ok shown => .error (.because (.notNumeric op.name shown))
    | .error e => .error (.escape e)

/-- The arguments as numbers; the first one that is no number is a fault. -/
def numbers (op : Operator) (room : Nat) : List Value → Except Failure (List Number)
  | [] => .ok []
  | v :: vs => do
    let n ← op.number room v
    let ns ← op.numbers room vs
    .ok (n :: ns)

def inRange (op : Operator) : Option Number → Except Failure Value
  | some n => .ok (.num n)
  | none => .error (.because (.outOfRange op.name))

def sum (ns : List Number) : Option Number := ns.foldlM Number.add? (.int 0)

def product (ns : List Number) : Option Number := ns.foldlM Number.mul? (.int 1)

/-- The first number less all others; a single number is negated. -/
def difference (n : Number) : List Number → Option Number
  | [] => some n.neg
  | ns => ns.foldlM Number.sub? n

/-- Divide in floating point from left to right. -/
def floatQuotient (x : Binary64) : List Number → Except Failure Value
  | [] => .ok (.float x)
  | n :: ns =>
    match n.toFloat? with
    | none => .error (.because (.outOfRange Operator.div.name))
    | some y =>
      match x.div? y with
      | none => .error (.escape .noQuotient)
      | some z => floatQuotient z ns

/-- The integers among numbers, if all of them are. -/
def integers? (ns : List Number) : Option (List Int) :=
  ns.mapM fun
    | .int n => some n
    | .float _ => none

/-- The exact quotient of integers: an integer if it is whole, and the nearest floating-point
number otherwise. -/
def exactQuotient (a : Int) (bs : List Int) : Except Failure Value :=
  let b := bs.foldl (· * ·) 1
  if a % b = 0 then .ok (.int (a / b))
  else Operator.div.inRange ((Binary64.ofRatio? a b).map .float)

/-- The first number divided by all others; a single number has its reciprocal taken in floating
point. -/
def quotient (n : Number) (ns : List Number) : Except Failure Value :=
  match ns with
  | [] => floatQuotient Binary64.unit [n]
  | ns =>
    match n, integers? ns with
    | .int a, some bs => exactQuotient a bs
    | n, _ =>
      match n.toFloat? with
      | none => .error (.because (.outOfRange Operator.div.name))
      | some x => floatQuotient x ns

/-- The numbers divided by: all but the first, or the only one. -/
def divisors (n : Number) (ns : List Number) : List Number := if ns.isEmpty then [n] else ns

def divide (room : Nat) (n : Number) (ns : List Number) : Except Failure Value :=
  if (divisors n ns).any Number.isZero then
    match (Value.list (.sym Operator.div.name :: .num n :: ns.map .num)).renderWithin room with
    | .ok shown => .error (.because (.divisionByZero shown))
    | .error e => .error (.escape e)
  else quotient n ns

def compare (room : Nat) (a b : Value) : Except Failure Value :=
  match a.sameWithin? room b with
  | some r => .ok (Value.ofBool r)
  | none => .error (.escape .exhausted)

/-- An atom is anything but a list with items. -/
def isAtom : Value → Bool
  | .list (_ :: _) => false
  | _ => true

def apply (op : Operator) (room : Nat) (args : List Value) : Except Failure Value :=
  match op, args with
  | .add, vs => do op.inRange (sum (← op.numbers room vs))
  | .mul, vs => do op.inRange (product (← op.numbers room vs))
  | .sub, v :: vs => do
    let n ← op.number room v
    let ns ← op.numbers room vs
    op.inRange (difference n ns)
  | .div, v :: vs => do
    let n ← op.number room v
    let ns ← op.numbers room vs
    divide room n ns
  | .less, [a, b] => do
    let m ← op.number room a
    let n ← op.number room b
    .ok (Value.ofBool (m.lt n))
  | .greater, [a, b] => do
    let m ← op.number room a
    let n ← op.number room b
    .ok (Value.ofBool (n.lt m))
  | .equal, [a, b] => compare room a b
  | .atom, [v] => .ok (Value.ofBool (isAtom v))
  | .list, vs => .ok (.list vs)
  | op, vs => .error (op.arityFault vs.length)

theorem ofName?_name (op : Operator) : ofName? op.name = some op := by
  cases op <;> decide

end Operator

end PocketLisp
