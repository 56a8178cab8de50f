import PocketLisp.Reader.Parse

/-! A cursor over tokens, moved one token or one expression at a time. -/
namespace PocketLisp

/-- A place in a sequence of tokens: how many are passed, and those that are left. -/
structure Cursor where
  position : Nat
  rest : List Token

namespace Cursor

def start (ts : List Token) : Cursor := ⟨0, ts⟩

def peek (c : Cursor) : Option Token := c.rest.head?

def atEnd (c : Cursor) : Bool := c.rest.isEmpty

/-- Go on to a later part of the rest. -/
def moveTo (c : Cursor) (rest : List Token) : Cursor :=
  ⟨c.position + (c.rest.length - rest.length), rest⟩

/-- Take the next token; at the end the cursor stays. -/
def advance (c : Cursor) : Option Token × Cursor :=
  match c.rest with
  | [] => (none, c)
  | t :: ts => (some t, c.moveTo ts)

/-- Read one expression. The cursor stops behind what was read, also when it is faulty. -/
def expr (room : Nat) (c : Cursor) : Except Failure Value × Cursor :=
  let r := Reader.readExpr room c.rest
  (r.1, c.moveTo r.2)

def exprs (room : Nat) (c : Cursor) : Except Failure (List Value) × Cursor :=
  let r := Reader.readAll room c.rest
  (r.1, c.moveTo r.2)

end Cursor

end PocketLisp
