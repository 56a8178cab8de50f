import PocketLisp.Console.CommandLine

/-! The program on a real console. -/
namespace PocketLisp.Console

def environment : IO (List (String × String)) := do
  let mut vars := []
  for name in [Host.depthVar, Host.levelVar] do
    if let some value ← IO.getEnv name then vars := (name, value) :: vars
  return vars

def readBytes (file : String) : IO (Except FileFault (List UInt8)) := do
  try
    return .ok (← IO.FS.readBinFile file).toList
  catch
    | .noFileOrDirectory _ code reason => return .error ⟨code.toNat, reason⟩
    | .inappropriateType _ code reason => return .error ⟨code.toNat, reason⟩
    | .permissionDenied _ code reason => return .error ⟨code.toNat, reason⟩
    | e => return .error ⟨5, toString e⟩

/-- Write what is new in a journal. -/
def flushJournal (rank : Nat) (journal : Journal) : IO Unit := do
  for entry in journal.reverse do
    match entry with
    | .out text => IO.print text
    | entry => IO.eprint (entry.errText rank)
  (← IO.getStdout).flush

def finish (status : Except Escape Nat) : IO UInt32 := do
  match status with
  | .ok n => return n.toUInt32
  | .error e =>
    IO.eprintln ("Error: " ++ e.message?.getD "host stack exhausted")
    return 1

partial def interact (rank : Nat) (shell : Shell) : IO UInt32 := do
  IO.print shell.prompt.text
  (← IO.getStdout).flush
  let line ← (← IO.getStdin).getLine
  let text :=
    if line.isEmpty then Shell.endLine else String.ofList (line.toList.takeWhile (· != '\n'))
  let (result, shell) := Shell.feed text shell
  flushJournal rank shell.session.host.journal
  let session := { shell.session with host := { shell.session.host with journal := [] } }
  match result with
  | .ok false => interact rank { shell with session := session }
  | .ok true => return 0
  | .error (.escape e) => finish (.error e)
  | .error (.fault _) => return 1

end PocketLisp.Console

open PocketLisp in
def main (args : List String) : IO UInt32 := do
  let vars ← Console.environment
  match Arguments.parse args with
  | .ok (.run none level) =>
    let rank := CommandLine.rank level vars
    let session := CommandLine.session rank vars
    Console.flushJournal rank session.host.journal
    IO.println Shell.intro
    let host := { session.host with journal := [] }
    Console.interact rank (Shell.start { session with host := host })
  | .ok (.run (some file) _) =>
    let bytes ← Console.readBytes file
    let ending := CommandLine.run args vars (fun _ => bytes) ""
    IO.print ending.out
    IO.eprint ending.err
    Console.finish ending.status
  | _ =>
    let ending := CommandLine.run args vars (fun _ => .error .absent) ""
    IO.print ending.out
    IO.eprint ending.err
    Console.finish ending.status
