import PocketLisp.Session.Script

/-!
The shell: lines are collected until their parentheses balance, and then evaluated. The words `exit`
and `quit` end it when nothing is pending, and the end of input, or a line `EOF`, always does.
-/
namespace PocketLisp

/-- What the shell asks for: a new expression, or the rest of one. -/
inductive Prompt where
  | primary
  | continuation
  deriving DecidableEq

def Prompt.text : Prompt → String
  | .primary => "lisp> "
  | .continuation => "... "

structure Shell where
  session : Session
  /-- The text of an expression that is not complete. -/
  pending : String
  prompt : Prompt

namespace Shell

def intro : String := "minilisp interpreter\nType 'exit' or 'quit' to leave."

def endLine : String := "EOF"

def start (session : Session) : Shell := ⟨session, "", .primary⟩

def inSession {α : Type} (x : Run Session α) : Run Shell α := fun s =>
  let r := x s.session
  (r.1, { s with session := r.2 })

def print (text : String) : Run Shell Unit := inSession (Session.onHost (·.write (.out text)))

inductive Reaction where
  /-- Stop at a word that asks for it. -/
  | leave
  /-- Stop at the end of input. -/
  | finish
  | ignore
  /-- Keep the text until its parentheses balance. -/
  | wait (text : String)
  | evaluate (text : String)
  deriving DecidableEq

/-- The reaction to a line, by the text that is pending and the line alone. -/
def reaction (pending line : String) : Reaction :=
  let word := Text.strip line
  if pending.isEmpty && (word == "exit" || word == "quit") then .leave
  else if word == endLine then .finish
  else if pending.isEmpty && word.isEmpty then .ignore
  else
    let text := pending ++ line ++ "\n"
    if 0 < parenBalance text then .wait text else .evaluate text

def perform : Reaction → Run Shell Bool
  | .leave => pure true
  | .finish => do
    print "\n"
    pure true
  | .ignore => pure false
  | .wait text => do
    Run.modify fun s => { s with pending := text, prompt := .continuation }
    pure false
  | .evaluate text => do
    Run.modify fun s => { s with pending := "", prompt := .primary }
    match ← inSession (Session.tryAll text) with
    | .ok vs => inSession (Session.printAll "=> " vs)
    | .error f => print ("Error: " ++ f.message ++ "\n")
    pure false

/-- Take a line; the answer says whether the shell is to stop. -/
def feed (line : String) : Run Shell Bool := do
  let shell ← Run.get
  perform (reaction shell.pending line)

/-- Take lines until one stops the shell; after the last one comes the end of input. Each line is
asked for with the prompt. -/
def converse : List String → Run Shell Unit
  | [] => do
    let shell ← Run.get
    print shell.prompt.text
    let _ ← feed endLine
    pure ()
  | line :: lines => do
    let shell ← Run.get
    print shell.prompt.text
    if ← feed line then pure () else converse lines

end Shell

end PocketLisp
