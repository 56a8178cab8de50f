import PocketLisp.Text.Blank

/-!
Tokens. The delimiters `(`, `)` and `'` are tokens of their own; blanks separate tokens; any other
run of characters is one token.
-/
namespace PocketLisp

/-- A piece of text, with the line and column where it starts if they are known. -/
structure Token where
  text : String
  line : Option Int := none
  column : Option Int := none
  deriving DecidableEq

namespace Token

def isDelimiter (c : Char) : Bool := c == '(' || c == ')' || c == '\x27'

def isAtomChar (c : Char) : Bool := !isDelimiter c && !Text.isBlank c

/-- A run of characters that has begun and not ended: the column of the first character, and the
characters so far, the last one first. -/
structure Partial where
  column : Nat
  chars : List Char

def placed (text : List Char) (line column : Nat) : Token :=
  { text := String.ofList text, line := some line, column := some column }

def flush (line : Nat) (begun : Option Partial) (rest : List Token) : List Token :=
  match begun with
  | none => rest
  | some p => .placed p.chars.reverse line p.column :: rest

def extend (column : Nat) (c : Char) : Option Partial → Partial
  | none => ⟨column, [c]⟩
  | some p => ⟨p.column, c :: p.chars⟩

/-- The tokens of the characters from a position on. Only a newline begins a line. -/
def scan (line column : Nat) (begun : Option Partial) : List Char → List Token
  | [] => flush line begun []
  | c :: cs =>
    if c = '\n' then flush line begun (scan (line + 1) 1 none cs)
    else if isDelimiter c then
      flush line begun (.placed [c] line column :: scan line (column + 1) none cs)
    else if Text.isBlank c then flush line begun (scan line (column + 1) none cs)
    else scan line (column + 1) (some (extend column c begun)) cs

def ofText (s : String) : List Token := scan 1 1 none s.toList

/-- What a token adds to the number of open parentheses. -/
def weight (t : Token) : Int := if t.text = "(" then 1 else if t.text = ")" then -1 else 0

end Token

def parenBalance (s : String) : Int := (Token.ofText s).foldl (fun n t => n + t.weight) 0

end PocketLisp
