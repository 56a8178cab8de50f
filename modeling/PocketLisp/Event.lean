import PocketLisp.Value.Print

/-! Events worth a record, how a record is written, and who listens. -/
namespace PocketLisp

inductive Level where
  | debug
  | info
  | warning
  | error
  | critical
  deriving DecidableEq

namespace Level

def rank : Level → Nat
  | .debug => 10
  | .info => 20
  | .warning => 30
  | .error => 40
  | .critical => 50

def name : Level → String
  | .debug => "DEBUG"
  | .info => "INFO"
  | .warning => "WARNING"
  | .error => "ERROR"
  | .critical => "CRITICAL"

end Level

inductive SettingFault where
  | notAnInteger
  | notPositive
  deriving DecidableEq

inductive Event where
  | settingIgnored (name raw : String) (fault : SettingFault)
  | frameLimitRaised (old new : Nat)
  | reading (code : String)
  | assigned (name : String) (v : Value)
  | defined (name : String) (params : List Value)
  | called (name : String) (args : List Value) (depth : Int)
  | chunkFailed (chunk : String)

namespace Event

def level : Event → Level
  | .settingIgnored .. => .warning
  | _ => .debug

def source : Event → String
  | .settingIgnored .. | .frameLimitRaised .. => "minilisp.config"
  | .reading _ => "minilisp.interpreter"
  | .assigned .. => "minilisp.evaluation.special_forms.setq_form"
  | .defined .. => "minilisp.evaluation.special_forms.defun_form"
  | .called .. => "minilisp.evaluation.apply"
  | .chunkFailed _ => "minilisp.shell"

/-- What an event says, with values shown in the given way. A value that cannot be shown leaves it
without words; the depth of a call can always be shown (see `Conditions`). -/
def messageBy (shown : Value → Except Escape String) : Event → Except Escape String
  | .settingIgnored name raw fault =>
    .ok ("Ignoring " ++ name ++ "=" ++ Text.quoted raw ++ ": " ++
      match fault with
      | .notAnInteger => "not an integer"
      | .notPositive => "must be positive")
  | .frameLimitRaised old new =>
    .ok ("raising recursion limit " ++ toString old ++ " -> " ++ toString new)
  | .reading code => .ok ("evaluate " ++ code)
  | .assigned name v => do .ok ("setq " ++ name ++ " = " ++ (← shown v))
  | .defined name params => do .ok ("defun " ++ name ++ " " ++ (← (Value.list params).print))
  | .called name args depth => do
    .ok ("call " ++ name ++ " " ++ (← shown (.list args)) ++ " at depth " ++ toString depth)
  | .chunkFailed chunk => .ok ("chunk failed: " ++ Text.quoted chunk)

def message (e : Event) : Except Escape String := e.messageBy Value.inspect

/-- What an event says, put into words with so many host frames left. -/
def messageWithin (room : Nat) (e : Event) : Except Escape String :=
  e.messageBy (Value.inspectWithin room)

/-- The record of an event; an event without words leaves none. -/
def record? (e : Event) : Option String :=
  match e.message with
  | .ok message => some (e.level.name ++ ":" ++ e.source ++ ":" ++ message)
  | .error _ => none

end Event

/-- Who listens to events: from which rank on they are put into words, at once and by whoever
reports them. A patient listener does without a record that has no words, as handlers of records
do unless they are told otherwise; any other one has the report fail.

It is assumed that a listener does nothing else to the program it listens to: a report fails as said
here or for want of frames, and in no other way. Results are for every listener, patient or not; one
that needs a patient listener has that among its hypotheses. -/
structure Listener where
  rank : Nat
  patient : Bool

namespace Listener

def quiet : Listener := ⟨Level.warning.rank, true⟩

/-- Report an event with so many host frames left. Nobody is patient enough when there are none. -/
def hear (l : Listener) (room : Nat) (e : Event) : Except Escape Unit :=
  if e.level.rank < l.rank then .ok ()
  else
    match e.messageWithin room with
    | .ok _ => .ok ()
    | .error .exhausted => .error .exhausted
    | .error x => if l.patient then .ok () else .error x

end Listener

end PocketLisp
