import PocketLisp.Session.Chunk
import PocketLisp.Session.Interpreter

/-! Running a whole text, chunk by chunk. A fault in one chunk is reported and the next one runs. -/
namespace PocketLisp

namespace Session

/-- The text of a value, if there are host frames enough to print it. -/
def printed (v : Value) : Run Session String := fun s =>
  match v.renderWithin s.host.frames with
  | .ok text => (.ok text, s)
  | .error e => (.error (.escape e), s)

/-- Print values, one on a line after a lead. -/
def printAll (lead : String) : List Value → Run Session Unit
  | [] => pure ()
  | v :: vs => do
    let text ← printed v
    onHost (·.write (.out (lead ++ text ++ "\n")))
    printAll lead vs

def tryAll (chunk : String) : Run Session (Except Fault (List Value)) := fun s =>
  match evaluateAll chunk s with
  | (.ok vs, s) => (.ok (.ok vs), s)
  | (.error (.fault f), s) => (.ok (.error f), s)
  | (.error (.escape e), s) => (.error (.escape e), s)

def runChunk (chunk : String) : Run Session Bool := do
  match ← tryAll chunk with
  | .ok vs =>
    printAll "" vs
    pure true
  | .error f =>
    onHost (·.record (.chunkFailed chunk))
    onHost (·.write (.err ("Error: " ++ f.message ++ "\n")))
    pure false

/-- Run chunks in order and count those that fail. -/
def runChunks : List String → Run Session Nat
  | [] => pure 0
  | chunk :: rest => do
    let fine ← runChunk chunk
    let failures ← runChunks rest
    pure (if fine then failures else failures + 1)

def runText (s : String) : Run Session Nat := runChunks (Chunk.ofText s)

end Session

end PocketLisp
