import PocketLisp.Event

/-! What a program gives off while it runs: text on its two outputs, and events. -/
namespace PocketLisp

inductive Entry where
  | out (text : String)
  | err (text : String)
  | event (e : Event)

namespace Entry

def outText : Entry → String
  | .out text => text
  | _ => ""

/-- The error output shows events of at least the given rank as lines. -/
def errText (rank : Nat) : Entry → String
  | .out _ => ""
  | .err text => text
  | .event e =>
    if rank ≤ e.level.rank then
      match e.record? with
      | some line => line ++ "\n"
      | none => ""
    else ""

def record? : Entry → Option String
  | .event e => e.record?
  | _ => none

end Entry

/-- Entries, the last one first. -/
abbrev Journal := List Entry

namespace Journal

def outText (j : Journal) : String := String.join (j.reverse.map Entry.outText)

/-- What was written as errors, without any events. -/
def errText (j : Journal) : String :=
  String.join (j.reverse.map fun
    | .err text => text
    | _ => "")

/-- Errors and the events of at least the given rank. -/
def errTextFrom (rank : Nat) (j : Journal) : String := String.join (j.reverse.map (Entry.errText rank))

def records (j : Journal) : List String := j.reverse.filterMap Entry.record?

end Journal

end PocketLisp
