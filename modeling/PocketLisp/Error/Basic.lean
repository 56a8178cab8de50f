import PocketLisp.Value.Basic
import PocketLisp.Text.Blank

/-!
What can go wrong.

A `Fault` is an error of the language: a cause, and where known the position in the text and the
form that failed. An `Escape` is a limit of the surroundings; the language cannot report it as a
fault of the program.
-/
namespace PocketLisp

/-- The kinds of fault that a host can tell apart. -/
inductive Fault.Kind where
  | general
  | malformed
  | unboundVariable
  | undefinedFunction
  | arity
  | wrongType
  | divisionByZero
  | numberFormat
  | recursion
  deriving DecidableEq

/-- How many operands are expected: a number, or a phrase that ends in one. -/
inductive Expectation where
  | exactly (n : Int)
  | phrase (text : String)
  deriving DecidableEq

namespace Expectation

def text : Expectation → String
  | .exactly n => toString n
  | .phrase text => text

/-- One argument is expected when the last word is the number one. A phrase without words does not
say how many. -/
def noun? (e : Expectation) : Option String :=
  (Text.lastWord? e.text).map fun w => if w = "1" then "argument" else "arguments"

end Expectation

/-- Why an expression cannot be read or evaluated. Values appear in their printed form. -/
inductive Cause where
  | endOfInput
  | missingClose
  | unexpectedClose
  | quoteWithoutExpression
  | extraClose
  | extraToken (shown : String)
  | notANumber (shown : String)
  | unboundVariable (name : String)
  | undefinedFunction (name : String)
  | arity (name : String) (expected : Expectation) (actual : Int)
  | notNumeric (operator shown : String)
  | outOfRange (operator : String)
  | divisionByZero (shown : String)
  | cannotEvaluate (shown : String)
  | quoteOperands (count : Nat)
  | setqOperands
  | setqName (shown : String)
  | defunOperands
  | defunName (shown : String)
  | defunReserved (name : String)
  | defunParameters (shown : String)
  | defunParameter (shown : String)
  | defunDuplicate (name shown : String)
  | condClause (shown : String)
  | callDepth (limit : Int) (name : String)
  | readerExhausted
  | evaluatorExhausted
  | stated (kind : Fault.Kind) (text : String)
  deriving DecidableEq

namespace Cause

def kind : Cause → Fault.Kind
  | .endOfInput | .missingClose | .unexpectedClose | .quoteWithoutExpression | .extraClose
  | .extraToken _ => .malformed
  | .notANumber _ => .numberFormat
  | .unboundVariable _ => .unboundVariable
  | .undefinedFunction _ => .undefinedFunction
  | .arity .. => .arity
  | .notNumeric .. | .outOfRange _ | .cannotEvaluate _ => .wrongType
  | .divisionByZero _ => .divisionByZero
  | .quoteOperands _ | .setqOperands | .setqName _ | .defunOperands | .defunName _
  | .defunReserved _ | .defunParameters _ | .defunParameter _ | .defunDuplicate ..
  | .condClause _ => .malformed
  | .callDepth .. | .readerExhausted | .evaluatorExhausted => .recursion
  | .stated kind _ => kind

def text : Cause → String
  | .endOfInput => "Unexpected end of input"
  | .missingClose => "Missing closing delimiter ')'"
  | .unexpectedClose => "Unexpected closing delimiter ')'"
  | .quoteWithoutExpression => "Quote is missing its expression"
  | .extraClose => "Extra closing delimiter ')'"
  | .extraToken shown => "Unexpected token " ++ shown ++ " after expression"
  | .notANumber shown => "Cannot convert " ++ shown ++ " to a number"
  | .unboundVariable name => "Undefined variable: " ++ name
  | .undefinedFunction name => "Undefined function: " ++ name
  | .arity name expected actual =>
    name ++ " expects " ++ expected.text ++ " " ++ expected.noun?.getD "arguments" ++ ", got " ++
      toString actual
  | .notNumeric operator shown => operator ++ " requires numeric arguments, got " ++ shown
  | .outOfRange operator => operator ++ ": result is out of range for a float"
  | .divisionByZero shown => "Division by zero: " ++ shown
  | .cannotEvaluate shown => "Cannot evaluate " ++ shown
  | .quoteOperands count => "quote requires exactly 1 argument, got " ++ toString count
  | .setqOperands => "setq requires exactly 2 arguments: (setq var value)"
  | .setqName shown => "setq first argument must be a symbol, got " ++ shown
  | .defunOperands => "defun requires exactly 3 arguments: (defun name (params...) body)"
  | .defunName shown => "defun name must be a symbol, got " ++ shown
  | .defunReserved name => "defun cannot redefine built-in " ++ name
  | .defunParameters shown => "defun parameters must be a list, got " ++ shown
  | .defunParameter shown => "defun parameter must be a symbol, got " ++ shown
  | .defunDuplicate name shown => "defun " ++ name ++ " has duplicate parameters " ++ shown
  | .condClause shown => "cond clause must be a list of (test result), got " ++ shown
  | .callDepth limit name =>
    "Maximum call depth " ++ toString limit ++ " exceeded in " ++ name
  | .readerExhausted => "Input is nested too deeply to read"
  | .evaluatorExhausted => "Host stack exhausted during evaluation"
  | .stated _ text => text

end Cause

structure Fault where
  cause : Cause
  line : Option Int := none
  column : Option Int := none
  form : Option Value := none

namespace Fault

def kind (f : Fault) : Kind := f.cause.kind

/-- The text of the cause, without the position. -/
def text (f : Fault) : String := f.cause.text

/-- The text with the position in front, when both line and column are known. -/
def message (f : Fault) : String :=
  match f.line, f.column with
  | some line, some column =>
    "line " ++ toString line ++ ", column " ++ toString column ++ ": " ++ f.text
  | _, _ => f.text

/-- Blame a form unless one is blamed already. -/
def blame (form : Value) (f : Fault) : Fault :=
  match f.form with
  | none => { f with form := some form }
  | some _ => f

@[simp] theorem cause_blame (form : Value) (f : Fault) : (f.blame form).cause = f.cause := by
  unfold blame
  split <;> rfl

theorem blame_of_form {form v : Value} {f : Fault} (h : f.form = some v) : f.blame form = f := by
  simp [blame, h]

end Fault

/-- Why bytes are no text, and the bytes at fault: the first and the one past the last. -/
structure Undecodable where
  first : UInt8
  start : Nat
  stop : Nat
  reason : String
  deriving DecidableEq

/-- A limit of the surroundings. -/
inductive Escape where
  /-- A numeral with more digits than may be read. -/
  | readLimit (digits : Nat)
  /-- An integer with more digits than may be printed. -/
  | printLimit
  /-- A foreign object where a value is to be printed. -/
  | notAValue (shown : String)
  /-- No host frames are left. -/
  | exhausted
  /-- A floating-point division without a quotient. -/
  | noQuotient
  /-- An expected number of arguments given by a phrase without words. -/
  | noWords
  /-- A list where a name is to be bound. -/
  | listAsName
  /-- A null character in the name of a file. -/
  | nullInName
  | undecodable (fault : Undecodable)
  deriving DecidableEq

/-- The greatest number of digits of an integer that can be read or printed. -/
def digitLimit : Nat := 4300

namespace Undecodable

def message (u : Undecodable) : String :=
  let digits := String.ofList [Nat.digitChar (u.first.toNat / 16), Nat.digitChar (u.first.toNat % 16)]
  let place :=
    if u.stop = u.start + 1 then "byte 0x" ++ digits ++ " in position " ++ toString u.start
    else "bytes in position " ++ toString u.start ++ "-" ++ toString (u.stop - 1)
  "'utf-8' codec can't decode " ++ place ++ ": " ++ u.reason

end Undecodable

namespace Escape

/-- The text of the limit; running out of host frames has none. -/
def message? : Escape → Option String
  | .readLimit digits =>
    some ("Exceeds the limit (" ++ toString digitLimit ++ " digits) for integer string conversion: " ++
      "value has " ++ toString digits ++
      " digits; use sys.set_int_max_str_digits() to increase the limit")
  | .printLimit =>
    some ("Exceeds the limit (" ++ toString digitLimit ++ " digits) for integer string conversion; " ++
      "use sys.set_int_max_str_digits() to increase the limit")
  | .notAValue shown => some ("Not a minilisp value: " ++ shown)
  | .exhausted => none
  | .noQuotient => some "float division by zero"
  | .noWords => some "list index out of range"
  | .listAsName => some "unhashable type: 'list'"
  | .nullInName => some "embedded null byte"
  | .undecodable fault => some fault.message

end Escape

inductive Failure where
  | fault (f : Fault)
  | escape (e : Escape)

namespace Failure

def because (c : Cause) : Failure := .fault { cause := c }

end Failure

def Fault.wrongArity (name : String) (expected : Expectation) (actual : Int) (form : Option Value) :
    Except Escape Fault :=
  match expected.noun? with
  | some _ => .ok { cause := .arity name expected actual, form := form }
  | none => .error .noWords

end PocketLisp
