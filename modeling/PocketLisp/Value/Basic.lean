import PocketLisp.Number.Basic

/-!
Values. Code and data are the same: a program is read as a value and evaluated to a value.

A program that embeds the language may also hand it objects that are no values of the language;
these are `foreign`, and most operations refuse them.
-/
namespace PocketLisp

/-- Objects of the embedding program. -/
inductive Foreign where
  | absent
  | flag (b : Bool)
  | text (s : String)
  deriving DecidableEq

inductive Value where
  | num (n : Number)
  | sym (name : String)
  | list (items : List Value)
  | foreign (x : Foreign)

instance : Inhabited Value := ⟨.list []⟩

namespace Value

abbrev int (n : Int) : Value := .num (.int n)
abbrev float (x : Binary64) : Value := .num (.float x)

def t : Value := .sym "t"

/-- The answer of a test that fails, and the only value that counts as false. -/
def nil : Value := .sym "nil"

/-- The expression that evaluates to `v` itself. -/
def quote (v : Value) : Value := .list [.sym "quote", v]

def ofBool (b : Bool) : Value := if b then t else nil

def isTruthy : Value → Bool
  | .sym name => name != "nil"
  | _ => true

def isSym : Value → Bool
  | .sym _ => true
  | _ => false

def isList : Value → Bool
  | .list _ => true
  | _ => false

def asNumber? : Value → Option Number
  | .num n => some n
  | _ => none

mutual

/-- How deep lists are nested in a value; the empty list has one level. -/
def nesting : Value → Nat
  | .list items => nestingList items + 1
  | _ => 0

def nestingList : List Value → Nat
  | [] => 0
  | v :: vs => max v.nesting (nestingList vs)

end

mutual

def isProper : Value → Bool
  | .list items => isProperList items
  | .foreign _ => false
  | _ => true

def isProperList : List Value → Bool
  | [] => true
  | v :: vs => v.isProper && isProperList vs

end

mutual

/-- Same shape, and the same symbol, integer or equal floating-point number at each leaf. Integers
and floating-point numbers are never the same. -/
def same : Value → Value → Bool
  | .list as, .list bs => sameList as bs
  | .num m, .num n => m.same n
  | .sym a, .sym b => a == b
  | .foreign x, .foreign y => x == y
  | _, _ => false

def sameList : List Value → List Value → Bool
  | [], [] => true
  | a :: as, b :: bs => a.same b && sameList as bs
  | _, _ => false

end

/-- The host frames that comparing two lists takes, their items not counted. -/
def framesPerLevel : Nat := 3

mutual

/-- Compare within the host frames that are left. Lists of different lengths are told apart without
a look at their items, and the first pair of items that differ ends the comparison. -/
def sameWithin? (room : Nat) : Value → Value → Option Bool
  | .list as, .list bs =>
    if as.length ≠ bs.length then some false
    else if room < framesPerLevel then none
    else sameListWithin? (room - framesPerLevel) as bs
  | .num m, .num n => some (m.same n)
  | .sym a, .sym b => some (a == b)
  | .foreign x, .foreign y => some (x == y)
  | _, _ => some false

def sameListWithin? (room : Nat) : List Value → List Value → Option Bool
  | [], [] => some true
  | a :: as, b :: bs =>
    match sameWithin? room a b with
    | some true => sameListWithin? room as bs
    | r => r
  | _, _ => some false

end

theorem sameList_of_length_ne : ∀ {as bs : List Value}, as.length ≠ bs.length →
    sameList as bs = false
  | [], [], h => absurd rfl h
  | [], _ :: _, _ => by simp [sameList]
  | _ :: _, [], _ => by simp [sameList]
  | a :: as, b :: bs, h => by
    have h' : as.length ≠ bs.length := fun e => h (by simp [e])
    simp [sameList, sameList_of_length_ne h']

mutual

/-- What a bounded comparison finds is so. -/
theorem eq_same_of_sameWithin? {room : Nat} {a b : Value} {r : Bool}
    (h : sameWithin? room a b = some r) : r = a.same b := by
  cases a <;> cases b <;> simp_all [sameWithin?, same]
  case list.list as bs =>
    split at h
    · rename_i e
      split at h
      · cases h
      · exact eq_sameList_of_sameListWithin? h
    · rename_i e
      cases h
      exact (sameList_of_length_ne e).symm

theorem eq_sameList_of_sameListWithin? {room : Nat} {as bs : List Value} {r : Bool}
    (h : sameListWithin? room as bs = some r) : r = sameList as bs := by
  match as, bs with
  | [], [] => simp_all [sameListWithin?, sameList]
  | [], _ :: _ => simp_all [sameListWithin?, sameList]
  | _ :: _, [] => simp_all [sameListWithin?, sameList]
  | a :: as, b :: bs =>
    rw [sameListWithin?] at h
    split at h
    · rename_i e
      simp [sameList, ← eq_same_of_sameWithin? e, eq_sameList_of_sameListWithin? h]
    · rename_i e
      cases r with
      | true => exact absurd h e
      | false => simp [sameList, ← eq_same_of_sameWithin? h]

end

@[simp] theorem isTruthy_ofBool (b : Bool) : (ofBool b).isTruthy = b := by
  cases b <;> decide

end Value

end PocketLisp
