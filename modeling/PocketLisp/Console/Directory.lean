/-!
Files to read: why one cannot be read, and a directory of files held in memory.

A path is walked name by name. Around the directory there are others, of which nothing is known.
-/
namespace PocketLisp

/-- Why a file cannot be read: the number of the system's error, and its text. -/
structure FileFault where
  code : Nat
  reason : String
  deriving DecidableEq

namespace FileFault

def absent : FileFault := ⟨2, "No such file or directory"⟩
def notADirectory : FileFault := ⟨20, "Not a directory"⟩
def isADirectory : FileFault := ⟨21, "Is a directory"⟩
def nameTooLong : FileFault := ⟨36, "File name too long"⟩

end FileFault

/-- A way to read files. -/
abbrev FileReader := String → Except FileFault (List UInt8)

/-- Files by name, without directories in between. -/
structure Directory where
  files : List (String × List UInt8)

namespace Directory

/-- The greatest number of bytes in a name. -/
def nameLimit : Nat := 255

/-- The greatest number of bytes in a path. -/
def pathLimit : Nat := 4095

/-- Where a walk has come: to the directory itself, to one of those around it, or to a file. -/
inductive Spot where
  | here
  | elsewhere
  | file (bytes : List UInt8)

def lookup (d : Directory) (name : String) : Spot → Option Spot
  | .here => (d.files.find? (·.1 == name)).map fun p => .file p.2
  | _ => none

/-- Go on by one part of a path. There is no way on from a file, and an empty part or a dot stays. -/
def enter (d : Directory) (spot : Spot) (name : String) : Except FileFault Spot :=
  match spot with
  | .file _ => .error .notADirectory
  | spot =>
    if name = "" ∨ name = "." then .ok spot
    else if name = ".." then .ok .elsewhere
    else if nameLimit < name.utf8ByteSize then .error .nameTooLong
    else
      match d.lookup name spot with
      | some next => .ok next
      | none => .error .absent

/-- The parts of a path between slashes. -/
def parts : List Char → List (List Char)
  | [] => [[]]
  | '/' :: cs => [] :: parts cs
  | c :: cs =>
    match parts cs with
    | [] => [[c]]
    | p :: ps => (c :: p) :: ps

/-- Where a path leads. One that starts with a slash is walked from the root. -/
def walk (d : Directory) (path : String) : Except FileFault Spot :=
  let names := (parts path.toList).map String.ofList
  names.foldlM d.enter (if names.head? = some "" then .elsewhere else .here)

/-- Read a file. -/
def read (d : Directory) : FileReader := fun path =>
  if path.isEmpty then .error .absent
  else if pathLimit < path.utf8ByteSize then .error .nameTooLong
  else
    match d.walk path with
    | .ok (.file bytes) => .ok bytes
    | .ok _ => .error .isADirectory
    | .error fault => .error fault

end Directory

end PocketLisp
