import PocketLisp.Text.DecimalDigit
import PocketLisp.Text.Quoted
import PocketLisp.Text.Uppercase

/-!
The arguments of the command line: an optional file, and options. Long options may be shortened and
may have their value after `=`; the argument `--` ends the options.
-/
namespace PocketLisp.Arguments

inductive Flag where
  | help
  | logLevel
  deriving DecidableEq

def spellings : List (String × Flag) :=
  [("-h", .help), ("--help", .help), ("--log-level", .logLevel)]

def isLong (name : String) : Bool := name.toList.take 2 == ['-', '-']

def Flag.title : Flag → String
  | .help => "-h/--help"
  | .logLevel => "--log-level"

/-- What is written together with an option: nothing, a value after `=`, or the characters after a
one-letter option, an `=` between them left out. -/
inductive Attached where
  | nothing
  | value (text : String)
  | letters (text : List Char)

inductive Role where
  | plain
  | endOfOptions
  | unknown
  | flag (f : Flag) (attached : Attached)

inductive Refusal where
  | ambiguous (arg : String) (candidates : List String)
  | ignoredValue (f : Flag) (value : String)
  | missingValue (f : Flag)
  | invalidChoice (f : Flag) (value : String)
  | unrecognized (args : List String)

inductive Request where
  | help
  | run (file level : Option String)

def levels : List String := ["DEBUG", "INFO", "WARNING", "ERROR", "CRITICAL"]

def Refusal.message : Refusal → String
  | .ambiguous arg candidates =>
    "ambiguous option: " ++ arg ++ " could match " ++ ", ".intercalate candidates
  | .ignoredValue f value =>
    "argument " ++ f.title ++ ": ignored explicit argument " ++ Text.quoted value
  | .missingValue f => "argument " ++ f.title ++ ": expected one argument"
  | .invalidChoice f value =>
    "argument " ++ f.title ++ ": invalid choice: " ++ Text.quoted value ++ " (choose from " ++
      ", ".intercalate (levels.map Text.quoted) ++ ")"
  | .unrecognized args => "unrecognized arguments: " ++ " ".intercalate args

def usage : String :=
  "usage: minilisp [-h] [--log-level \x7b" ++ ",".intercalate levels ++ "\x7d] [file]\n"

def helpText : String :=
  usage ++ "\npositional arguments:\n" ++
    "  file                  file to run (if omitted, starts the REPL)\n" ++
    "\noptions:\n" ++
    "  -h, --help            show this help message and exit\n" ++
    "  --log-level \x7b" ++ ",".intercalate levels ++ "\x7d\n" ++
    "                        logging level (default from MINILISP_LOG_LEVEL)\n"

/-- An argument cut at its first `=`, if it has one. -/
def splitValue (cs : List Char) : List Char × Option (List Char) :=
  match cs.dropWhile (· != '=') with
  | [] => (cs, none)
  | _ :: value => (cs.takeWhile (· != '='), some value)

def attach (value : Option (List Char)) : Attached :=
  match value with
  | none => .nothing
  | some cs => .value (String.ofList cs)

/-- A run of decimal digits of any script, and at least one. -/
def isDigits (cs : List Char) : Bool :=
  !cs.isEmpty && cs.all fun c => (Text.decimalDigit? c).isSome

/-- A minus sign and a number, whole or with a point; a newline may follow. -/
def isNegativeNumber : List Char → Bool
  | '-' :: cs =>
    let body := if cs.getLast? = some '\n' then cs.dropLast else cs
    let whole := body.takeWhile fun c => (Text.decimalDigit? c).isSome
    match body.dropWhile fun c => (Text.decimalDigit? c).isSome with
    | [] => !whole.isEmpty
    | '.' :: fraction => isDigits fraction
    | _ => false
  | _ => false

/-- The role of an argument that starts with a dash and is spelled like no option. It may be a
shortened long option or a short one with letters after it; a negative number, or anything with a
space in it, is plain. -/
def dashedRole (arg : String) (cs : List Char) : Except Refusal Role :=
  let (stem, value) := splitValue cs
  let candidates : List (String × Flag × Attached) :=
    match cs with
    | '-' :: '-' :: _ =>
      (spellings.filter fun s => stem.isPrefixOf s.1.toList).map fun s => (s.1, s.2, attach value)
    | dash :: letter :: rest =>
      (spellings.filter fun s => s.1.toList == [dash, letter]).map fun s =>
        (s.1, s.2, Attached.letters rest)
    | _ => []
  match candidates with
  | [(_, f, attached)] => .ok (.flag f attached)
  | [] => .ok (if isNegativeNumber cs || cs.contains ' ' then .plain else .unknown)
  | several => .error (.ambiguous arg (several.map (·.1)))

def role (arg : String) : Except Refusal Role :=
  match arg.toList with
  | '-' :: cs =>
    if arg == "--" then .ok .endOfOptions
    else
      match spellings.find? (·.1 == arg) with
      | some (_, f) => .ok (.flag f .nothing)
      | none =>
        if cs.isEmpty then .ok .plain
        else
          let (stem, value) := splitValue ('-' :: cs)
          match value, spellings.find? (·.1.toList == stem) with
          | some v, some (name, f) =>
            .ok (.flag f (if isLong name then .value (String.ofList v) else .letters v))
          | _, _ => dashedRole arg ('-' :: cs)
  | _ => .ok .plain

/-- The roles of all arguments; those behind the end of the options are plain. -/
def roles : List String → Except Refusal (List (String × Role))
  | [] => .ok []
  | arg :: args => do
    match ← role arg with
    | .endOfOptions => .ok ((arg, .endOfOptions) :: args.map fun a => (a, .plain))
    | r =>
      let rest ← roles args
      .ok ((arg, r) :: rest)

/-- Characters after the help option are the same option again, to the last of them; anything else
is a value, which it does not take. -/
def helpLetters : List Char → Except Refusal Unit
  | ['h'] => .ok ()
  | 'h' :: cs => helpLetters cs
  | cs => .error (.ignoredValue .help (String.ofList cs))

/-- What has been found so far. Arguments that nothing wants are kept, the last one first. -/
structure Found where
  fileTaken : Bool := false
  file : Option String := none
  level : Option String := none
  extras : List String := []

/-- Take the value of the level option. The mark that ends options is no value: it takes back the
level found so far. -/
def setLevel (value : String) (found : Found) : Except Refusal Found :=
  let level := Text.upper value
  if value = "--" then .ok { found with level := none }
  else if levels.contains level then .ok { found with level := some level }
  else .error (.invalidChoice .logLevel level)

/-- Go through the arguments in order. The first plain one is the file. -/
def walk (found : Found) : List (String × Role) → Except Refusal Request
  | [] =>
    if found.extras.isEmpty then .ok (.run found.file found.level)
    else .error (.unrecognized found.extras.reverse)
  | (_, .flag .help .nothing) :: _ => .ok .help
  | (_, .flag .help (.value v)) :: _ => .error (.ignoredValue .help v)
  | (_, .flag .help (.letters cs)) :: _ => (helpLetters cs).map fun _ => .help
  | (_, .flag .logLevel (.value v)) :: rest => do walk (← setLevel v found) rest
  | (_, .flag .logLevel _) :: (v, .plain) :: rest => do walk (← setLevel v found) rest
  | (_, .flag .logLevel _) :: _ => .error (.missingValue .logLevel)
  | (arg, .unknown) :: rest => walk { found with extras := arg :: found.extras } rest
  | (arg, .plain) :: (stop, .endOfOptions) :: rest =>
    if found.fileTaken then walk { found with extras := stop :: arg :: found.extras } rest
    else walk { found with fileTaken := true, file := some arg } rest
  | (arg, .plain) :: rest =>
    if found.fileTaken then walk { found with extras := arg :: found.extras } rest
    else walk { found with fileTaken := true, file := some arg } rest
  | (stop, .endOfOptions) :: rest =>
    if found.fileTaken then walk { found with extras := stop :: found.extras } rest
    else
      match rest with
      | [] => walk { found with fileTaken := true } []
      | (arg, _) :: rest => walk { found with fileTaken := true, file := some arg } rest

def parse (args : List String) : Except Refusal Request := do walk {} (← roles args)

end PocketLisp.Arguments
