import PocketLisp.Binary64.Text
import PocketLisp.Error.Basic
import PocketLisp.Text.Quoted

/-!
Two written forms of values. `print` gives the text that reads back as the value; `inspect` shows
what a value is made of, foreign objects included.
-/
namespace PocketLisp

/-- Decimal digits with a minus sign in front of negative numbers. -/
def intChars (n : Int) : List Char :=
  if n < 0 then '-' :: Nat.toDigits 10 n.natAbs else Nat.toDigits 10 n.natAbs

/-- An integer in writing, if it has few enough digits. -/
def intText (n : Int) : Except Escape String :=
  if n.natAbs < Nat.pow 10 digitLimit then .ok (String.ofList (intChars n)) else .error .printLimit

def Number.print : Number → Except Escape String
  | .int n => intText n
  | .float x => .ok x.toText

def Foreign.inspect : Foreign → String
  | .absent => "None"
  | .flag true => "True"
  | .flag false => "False"
  | .text s => Text.quoted s

/-- A way to write values: the brackets of lists, what stands between items, and the texts of
symbols and of foreign objects. -/
structure Style where
  opening : String
  separator : String
  closing : String
  name : String → String
  foreign : Foreign → Except Escape String

namespace Style

/-- Lists in parentheses, symbols by name; foreign objects have no text. -/
def printed : Style := ⟨"(", " ", ")", id, fun x => .error (.notAValue x.inspect)⟩

/-- Lists in square brackets, symbols marked as such, foreign objects shown. -/
def inspected : Style :=
  ⟨"[", ", ", "]", fun name => "Symbol(" ++ Text.quoted name ++ ")", fun x => .ok x.inspect⟩

def list (st : Style) (parts : List String) : String :=
  st.opening ++ st.separator.intercalate parts ++ st.closing

end Style

namespace Value

mutual

/-- The text of a value in a style. The first item without a text is what stops it. -/
def write (st : Style) : Value → Except Escape String
  | .num n => n.print
  | .sym name => .ok (st.name name)
  | .list items => (writeList st items).map st.list
  | .foreign x => st.foreign x

def writeList (st : Style) : List Value → Except Escape (List String)
  | [] => .ok []
  | v :: vs => do
    let s ← v.write st
    let ss ← writeList st vs
    .ok (s :: ss)

end

mutual

/-- The text of a value, written with so many host frames left; each level of lists takes one. -/
def writeWithin (st : Style) (room : Nat) : Value → Except Escape String
  | .num n => n.print
  | .sym name => .ok (st.name name)
  | .list items =>
    match room with
    | 0 => .error .exhausted
    | room + 1 => (writeListWithin st room items).map st.list
  | .foreign x => st.foreign x

def writeListWithin (st : Style) (room : Nat) : List Value → Except Escape (List String)
  | [] => .ok []
  | v :: vs => do
    let s ← v.writeWithin st room
    let ss ← writeListWithin st room vs
    .ok (s :: ss)

end

mutual

/-- With a host frame for each level, writing is not held up by them. -/
theorem writeWithin_of_nesting_le (st : Style) {room : Nat} {v : Value} (h : v.nesting ≤ room) :
    v.writeWithin st room = v.write st := by
  match v, room with
  | .num _, _ => rfl
  | .sym _, _ => rfl
  | .foreign _, _ => rfl
  | .list items, 0 => exact absurd h (by simp [nesting])
  | .list items, room + 1 =>
    have h' : nestingList items ≤ room := by simpa [nesting] using h
    simp only [writeWithin, write, writeListWithin_of_nesting_le st h']

theorem writeListWithin_of_nesting_le (st : Style) {room : Nat} {vs : List Value}
    (h : nestingList vs ≤ room) : writeListWithin st room vs = writeList st vs := by
  match vs with
  | [] => rfl
  | v :: vs =>
    have hv : v.nesting ≤ room := Nat.le_trans (Nat.le_max_left _ _) h
    have hvs : nestingList vs ≤ room := Nat.le_trans (Nat.le_max_right _ _) h
    simp only [writeListWithin, writeList, writeWithin_of_nesting_le st hv,
      writeListWithin_of_nesting_le st hvs]

end

/-- The text that reads back as the value. -/
def print (v : Value) : Except Escape String := v.write .printed

def inspect (v : Value) : Except Escape String := v.write .inspected

/-- The text of a result; the absent one prints as `nil`. -/
def render : Value → Except Escape String
  | .foreign .absent => .ok "nil"
  | v => v.print

def inspectWithin (room : Nat) (v : Value) : Except Escape String := v.writeWithin .inspected room

def renderWithin (room : Nat) : Value → Except Escape String
  | .foreign .absent => .ok "nil"
  | v => v.writeWithin .printed room

theorem renderWithin_of_nesting_le {room : Nat} {v : Value} (h : v.nesting ≤ room) :
    v.renderWithin room = v.render := by
  unfold renderWithin render
  split
  · rfl
  · exact writeWithin_of_nesting_le .printed h

/-- The bare form of a value in running text: names and texts without quotation marks. -/
def displayWithin (room : Nat) : Value → Except Escape String
  | .sym name => .ok name
  | .foreign (.text s) => .ok s
  | v => v.inspectWithin room

end Value

end PocketLisp
