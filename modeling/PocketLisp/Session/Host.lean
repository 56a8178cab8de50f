import PocketLisp.Session.Journal
import PocketLisp.Text.DecimalDigit
import PocketLisp.Text.Uppercase

/-!
The host that interpreters run in: settings from environment variables, the call depth limit in
force, the number of host frames, who listens, and the journal.
-/
namespace PocketLisp

/-- Read an integer as settings write it: an optional sign, then digits of any script, with single
underscores between them. -/
def settingInteger? (s : String) : Option Int :=
  let (negative, body) :=
    match Text.stripChars s.toList with
    | '-' :: cs => (true, cs)
    | '+' :: cs => (false, cs)
    | cs => (false, cs)
  (digits? body).bind fun ds =>
    if ds.length ≤ digitLimit then
      some (Binary64.signed negative (ds.foldl (fun n d => 10 * n + d) 0))
    else none
where
  /-- The digits of a number, with at most one underscore between two of them. -/
  digits? : List Char → Option (List Nat)
    | [] => none
    | [c] => (Text.decimalDigit? c).map ([·])
    | c :: '_' :: cs => (Text.decimalDigit? c).bind fun d => (digits? cs).map (d :: ·)
    | c :: cs => (Text.decimalDigit? c).bind fun d => (digits? cs).map (d :: ·)

structure Host where
  /-- Environment variables. -/
  vars : List (String × String)
  /-- The call depth limit in force, if one is installed. -/
  installed : Option Int
  /-- The number of host frames that evaluation may take. -/
  frames : Nat
  listener : Listener
  journal : Journal

namespace Host

def initialFrames : Nat := 1000
def defaultDepth : Int := 1000

/-- The host frames that one call of a function may take. -/
def framesPerCall : Int := 8

/-- The host is never asked for more frames. -/
def greatestFrames : Int := 15000

def depthVar : String := "MINILISP_MAX_DEPTH"
def levelVar : String := "MINILISP_LOG_LEVEL"

def initial (vars : List (String × String)) (listener : Listener) : Host :=
  ⟨vars, none, initialFrames, listener, []⟩

def write (e : Entry) (h : Host) : Host := { h with journal := e :: h.journal }

def record (e : Event) (h : Host) : Host := h.write (.event e)

def var? (name : String) (h : Host) : Option String := (h.vars.find? (·.1 == name)).map (·.2)

/-- A positive integer from a variable; if it is unset or empty, or holds anything else, the
default. -/
def intVar (name : String) (default : Int) (h : Host) : Int × Host :=
  match (h.var? name).filter (· ≠ "") with
  | none => (default, h)
  | some raw =>
    match settingInteger? raw with
    | none => (default, h.record (.settingIgnored name raw .notAnInteger))
    | some n =>
      if 0 < n then (n, h) else (default, h.record (.settingIgnored name raw .notPositive))

def configuredDepth (h : Host) : Int × Host := h.intVar depthVar defaultDepth

/-- Names of levels that records can be asked from, with the least rank they show. -/
def levelRank? : String → Option Nat
  | "CRITICAL" | "FATAL" => some 50
  | "ERROR" => some 40
  | "WARN" | "WARNING" => some 30
  | "INFO" => some 20
  | "DEBUG" => some 10
  | "NOTSET" => some 0
  | _ => none

/-- The level that the settings ask for; an unknown one counts as `WARNING`. -/
def levelName (h : Host) : String :=
  let name := Text.upper (Text.strip ((h.var? levelVar).getD ""))
  if (levelRank? name).isSome then name else "WARNING"

/-- Make room for calls nested so deep. The number of frames only grows. -/
def ensureFrames (depth : Int) (h : Host) : Nat × Host :=
  let wanted := min (depth * framesPerCall + 1000) greatestFrames
  if (h.frames : Int) < wanted then
    (wanted.toNat, { h.record (.frameLimitRaised h.frames wanted.toNat) with frames := wanted.toNat })
  else (h.frames, h)

/-- Install a call depth limit, or none; the one it replaces is returned. -/
def install (limit : Option Int) (h : Host) : Option Int × Host :=
  (h.installed, { h with installed := limit })

/-- The call depth limit: the one installed, or else the one that the settings ask for. -/
def limit (h : Host) : Int × Host :=
  match h.installed with
  | some n => (n, h)
  | none => h.configuredDepth

@[simp] theorem limit_install (n : Int) (h : Host) :
    (h.install (some n)).2.limit = (n, (h.install (some n)).2) := rfl

end Host

end PocketLisp
