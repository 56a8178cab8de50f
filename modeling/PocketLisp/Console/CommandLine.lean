import PocketLisp.Console.Arguments
import PocketLisp.Console.Directory
import PocketLisp.Session.Shell
import PocketLisp.Text.Utf8

/-! The program as a whole: from arguments, settings, files and input to output and exit status. -/
namespace PocketLisp

/-- How the program ends: an exit status or an escape, and what it wrote. -/
structure Ending where
  status : Except Escape Nat
  out : String
  err : String

namespace CommandLine

/-- The lines of input. Only a newline ends a line, and the last line may lack it. -/
def inputLines (s : String) : List String :=
  let lines := s.splitOn "\n"
  if lines.getLast? = some "" then lines.dropLast else lines

/-- The text of a file: its characters, with every kind of newline as one. -/
def fileText (bytes : List UInt8) : Except Escape String :=
  match Text.decodeUtf8 bytes with
  | .ok s => .ok (String.ofList (Text.plainNewlines s.toList))
  | .error fault => .error (.undecodable fault)

def readReport (file : String) (fault : FileFault) : String :=
  "Error reading " ++ file ++ ": [Errno " ++ toString fault.code ++ "] " ++ fault.reason ++ ": " ++
    Text.quoted file ++ "\n"

def rank (level : Option String) (vars : List (String × String)) : Nat :=
  (Host.levelRank? (level.getD (Host.initial vars .quiet).levelName)).getD 30

/-- A session whose events are shown from a rank on, as far as they can be. -/
def session (rank : Nat) (vars : List (String × String)) : Session :=
  Session.start vars none ⟨rank, true⟩

def ending (rank : Nat) (status : Except Escape Nat) (journal : Journal) : Ending :=
  ⟨status, journal.outText, journal.errTextFrom rank⟩

/-- The status after a script: one if any chunk failed. -/
def scriptStatus : Except Failure Nat → Except Escape Nat
  | .ok failures => .ok (if failures = 0 then 0 else 1)
  | .error (.escape e) => .error e
  | .error (.fault _) => .ok 1

def runBytes (bytes : List UInt8) (session : Session) : Except Escape Nat × Journal :=
  match fileText bytes with
  | .error e => (.error e, session.host.journal)
  | .ok text =>
    let r := Session.runText text session
    (scriptStatus r.1, r.2.host.journal)

/-- Run a file in a session. A name with a null character is not even looked for. -/
def runFile (read : FileReader) (file : String) (session : Session) : Except Escape Nat × Journal :=
  if file.toList.contains '\x00' then (.error .nullInName, session.host.journal)
  else
    match read file with
    | .error fault => (.ok 1, .err (readReport file fault) :: session.host.journal)
    | .ok bytes => runBytes bytes session

def runShell (lines : List String) (session : Session) : Except Escape Nat × Journal :=
  let talk : Run Shell Unit := do
    Shell.print (Shell.intro ++ "\n")
    Shell.converse lines
  let r := talk (Shell.start session)
  (scriptStatus (r.1.map fun _ => 0), r.2.session.host.journal)

def run (args : List String) (vars : List (String × String)) (read : FileReader) (input : String) :
    Ending :=
  match Arguments.parse args with
  | .error refusal =>
    ⟨.ok 2, "", Arguments.usage ++ "minilisp: error: " ++ refusal.message ++ "\n"⟩
  | .ok .help => ⟨.ok 0, Arguments.helpText, ""⟩
  | .ok (.run file level) =>
    let rank := rank level vars
    let (status, journal) :=
      match file with
      | some file => runFile read file (session rank vars)
      | none => runShell (inputLines input) (session rank vars)
    ending rank status journal

end CommandLine

end PocketLisp
