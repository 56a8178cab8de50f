import PocketLisp.Number.Numeral
import PocketLisp.Reader.Token

/-!
Reading values from tokens: an atom, a list of expressions in parentheses, or a quotation mark and
the expression it quotes.

The reader goes through the tokens once and keeps the constructs that are open, the innermost one
first. Each of them takes a host frame, so they are bounded by the room there is.
-/
namespace PocketLisp

namespace Reader

/-- A construct that waits for expressions: a list, with the token that opened it and its items so
far, the last one first, or a quotation mark. -/
inductive Open where
  | list (start : Token) (items : List Value)
  | quote (mark : Token)

/-- Hand an expression to the innermost open construct. A quotation mark is complete with it, so
what it makes goes on to the next one. Either nothing is open and the expression stands alone, or
these constructs are still open. -/
def deliver (v : Value) : List Open → Value ⊕ List Open
  | [] => .inl v
  | .quote _ :: opens => deliver v.quote opens
  | .list start items :: opens => .inr (.list start (v :: items) :: opens)

def faultAt (c : Cause) (t : Token) : Failure :=
  .fault { cause := c, line := t.line, column := t.column }

def endFault : List Open → Failure
  | [] => .because .endOfInput
  | .list start _ :: _ => faultAt .missingClose start
  | .quote mark :: _ => faultAt .quoteWithoutExpression mark

/-- Read on until the outermost open construct is complete: the value or the failure, and the
tokens that are left.

The room is the number of constructs that may be open at once. The frames in which the next token
is looked at and passed do not count; they are there also when the room is zero. -/
def read (room : Nat) : List Open → List Token → Except Failure Value × List Token
  | opens, [] => (.error (endFault opens), [])
  | opens, t :: ts =>
    if t.text = "(" then
      if room ≤ opens.length then (.error (.escape .exhausted), ts)
      else read room (.list t [] :: opens) ts
    else if t.text = ")" then
      match opens with
      | .list _ items :: outer =>
        match deliver (.list items.reverse) outer with
        | .inl v => (.ok v, ts)
        | .inr opens => read room opens ts
      | _ => (.error (faultAt .unexpectedClose t), ts)
    else if t.text = "'" then
      if room ≤ opens.length then (.error (.escape .exhausted), ts)
      else read room (.quote t :: opens) ts
    else
      match atomValue t.text with
      | .error e => (.error (.escape e), ts)
      | .ok v =>
        match deliver v opens with
        | .inl v => (.ok v, ts)
        | .inr opens => read room opens ts

theorem length_read_le (room : Nat) (opens : List Open) (ts : List Token) :
    (read room opens ts).2.length ≤ ts.length - 1 := by
  induction ts generalizing opens with
  | nil => simp [read]
  | cons t ts ih =>
    have step : ∀ opens, (read room opens ts).2.length ≤ ts.length :=
      fun opens => Nat.le_trans (ih opens) (Nat.sub_le _ _)
    simp only [read, List.length_cons, Nat.add_sub_cancel]
    repeat' split
    all_goals first | exact step _ | exact Nat.le_refl _

def readExpr (room : Nat) (ts : List Token) : Except Failure Value × List Token := read room [] ts

/-- Read expressions until the tokens end or one cannot be read. -/
def readAll (room : Nat) (ts : List Token) : Except Failure (List Value) × List Token :=
  match ts with
  | [] => (.ok [], [])
  | t :: ts =>
    match h : readExpr room (t :: ts) with
    | (.error e, rest) => (.error e, rest)
    | (.ok v, rest) =>
      have shorter : rest.length < (t :: ts).length := by
        have := length_read_le room [] (t :: ts)
        simp only [readExpr] at h
        simp only [h, List.length_cons, Nat.add_sub_cancel] at this
        exact Nat.lt_succ_of_le this
      let more := readAll room rest
      (more.1.map (v :: ·), more.2)
termination_by ts.length
decreasing_by exact shorter

/-- The first expression of a sequence of tokens, whatever follows it; none if there is no token. -/
def parseTokens (room : Nat) (ts : List Token) : Except Failure (Option Value) :=
  match ts with
  | [] => .ok none
  | ts => (readExpr room ts).1.map some

/-- The only expression of a text; none if the text is blank. A token after it is a fault. -/
def parse (room : Nat) (s : String) : Except Failure (Option Value) :=
  match Token.ofText s with
  | [] => .ok none
  | ts =>
    match readExpr room ts with
    | (.error e, _) => .error e
    | (.ok v, []) => .ok (some v)
    | (.ok _, extra :: _) =>
      if extra.text = ")" then .error (faultAt .extraClose extra)
      else .error (faultAt (.extraToken (Text.quoted extra.text)) extra)

def parseAll (room : Nat) (s : String) : Except Failure (List Value) :=
  (readAll room (Token.ofText s)).1

end Reader

end PocketLisp
