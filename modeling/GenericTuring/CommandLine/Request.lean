import GenericTuring.CommandLine.Flag

/-!
Requests: what the words on the command line ask for.
-/

namespace GenericTuring.CommandLine

inductive Command where
  | generate
  | interactive
  | run
  | check
  deriving DecidableEq, Repr

namespace Command

def all : List Command := [generate, interactive, run, check]

def word : Command → String
  | generate => "generate"
  | interactive => "interactive"
  | run => "run"
  | check => "check"

def ofWord? (word : String) : Option Command := all.find? fun c => c.word == word

def flags : Command → List Flag
  | generate => [.help, .output, .naming, .name]
  | interactive => [.help, .tape, .maxSteps]
  | run => [.help, .tape, .maxSteps, .trace]
  | check => [.help]

end Command

def globalFlags : List Flag := [.help, .version, .verbose]

inductive Destination where
  | console
  | file (name : String)
  /-- A file was asked for, but its name is missing. -/
  | unnamed
  deriving DecidableEq, Repr

inductive Reach where
  | standard
  | steps (count : Int)
  /-- A limit was asked for, but the number is missing. -/
  | missing
  deriving DecidableEq, Repr

structure Arguments where
  file : String := "-"
  output : Destination := .console
  /-- The naming of states, unless its name is missing. -/
  naming : Option String := some "escape"
  name : Option String := none
  tape : Option String := none
  maxSteps : Reach := .standard
  trace : Bool := false
  deriving DecidableEq, Repr

structure Request where
  verbosity : Nat
  /-- Nothing is asked for if no command is given. -/
  command : Option (Command × Arguments)
  deriving DecidableEq, Repr

inductive Stop where
  | help (command : Option Command)
  | version
  | misuse (command : Option Command) (message : String)
  deriving DecidableEq, Repr

inductive Word where
  | plain (text : String)
  | dashes
  | flag (text : String) (flag : Flag) (spelling : String) (attached : Option (List Char))
  | unknown (text : String)

def Word.text : Word → String
  | plain text => text
  | dashes => "--"
  | flag text _ _ _ => text
  | unknown text => text

def readWords (command : Option Command) (flags : List Flag) :
    List String → Except Stop (List Word)
  | [] => .ok []
  | "--" :: rest => .ok (.dashes :: rest.map .plain)
  | text :: rest =>
    match readWord flags text with
    | .error several => .error (.misuse command
        ("ambiguous option: " ++ text ++ " could match " ++ ", ".intercalate several))
    | .ok reading => do
      let word : Word := match reading with
        | .plain => .plain text
        | .flag f spelling attached => .flag text f spelling attached
        | .unknown => .unknown text
      return word :: (← readWords command flags rest)

def plainFront? : List Word → Option String
  | .plain text :: _ => some text
  | _ => none

def flagMisuse (command : Option Command) (e : FlagError) : Stop :=
  .misuse command ("argument " ++ e.flag.label ++ ": " ++ e.message)

def invalidChoice (value : String) (choices : List String) : String :=
  "invalid choice: " ++ Text.quoted value ++ " (choose from " ++
    ", ".intercalate (choices.map Text.quoted) ++ ")"

/-- What a flag of a command does to the arguments. A flag that takes a value may still come without
one; the tape is then empty, and there is no name. -/
def Arguments.set (command : Command) (a : Arguments) (use : Flag × Option String) :
    Except Stop Arguments :=
  match use with
  | (.help, _) => .error (.help (some command))
  | (.version, _) => .error .version
  | (.verbose, _) => .ok a
  | (.output, none) => .ok { a with output := .unnamed }
  | (.output, some "-") => .ok { a with output := .console }
  | (.output, some file) => .ok { a with output := .file file }
  | (.naming, none) => .ok { a with naming := none }
  | (.naming, some scheme) =>
    let choices := ["escape", "ordinal"]
    if scheme ∈ choices then .ok { a with naming := some scheme }
    else .error (flagMisuse (some command) ⟨.naming, invalidChoice scheme choices⟩)
  | (.name, name) => .ok { a with name := some (name.getD "") }
  | (.tape, tape) => .ok { a with tape := some (tape.getD "") }
  | (.maxSteps, none) => .ok { a with maxSteps := .missing }
  | (.maxSteps, some count) =>
    match Text.readInt? count with
    | some n => .ok { a with maxSteps := .steps n }
    | none =>
      .error (flagMisuse (some command) ⟨.maxSteps, "invalid int value: " ++ Text.quoted count⟩)
  | (.trace, _) => .ok { a with trace := true }

structure Progress where
  arguments : Arguments
  /-- A file has been given, or its place has been passed. -/
  filePassed : Bool
  extras : List String

/-- Goes through the words after a command. The first plain word is the file; two dashes before or after
it belong to it. Whatever is not understood is kept. -/
def Progress.follow (command : Command) (s : Progress) (words : List Word) :
    Except Stop Progress :=
  match words with
  | [] => .ok s
  | .flag _ f spelling attached :: rest =>
    match unpack command.flags (plainFront? rest) f spelling attached with
    | .error e => .error (flagMisuse (some command) e)
    | .ok u => do
      let arguments ← u.flags.foldlM (Arguments.set command) s.arguments
      let s := { s with arguments }
      match rest with
      | [] => return s
      | next :: more => if u.usesNext then s.follow command more else s.follow command (next :: more)
  | .unknown text :: rest => { s with extras := s.extras ++ [text] }.follow command rest
  | .plain text :: rest =>
    if s.filePassed then { s with extras := s.extras ++ [text] }.follow command rest
    else
      let s := { s with arguments := { s.arguments with file := text }, filePassed := true }
      match rest with
      | .dashes :: more => s.follow command more
      | rest => s.follow command rest
  | .dashes :: rest =>
    if s.filePassed then { s with extras := s.extras ++ ["--"] }.follow command rest
    else
      match rest with
      | .plain text :: more =>
        { s with arguments := { s.arguments with file := text }, filePassed := true }.follow
          command more
      | rest => { s with filePassed := true }.follow command rest
termination_by words.length

def readArguments (command : Command) (texts : List String) :
    Except Stop (Arguments × List String) := do
  let words ← readWords (some command) command.flags texts
  let blank : Arguments := if command = .run then { tape := some "" } else {}
  let s ← Progress.follow command ⟨blank, false, []⟩ words
  return (s.arguments, s.extras)

def readGlobal (verbosity : Nat) (extras : List String) (words : List Word) :
    Except Stop (Request × List String) :=
  match words with
  | [] => .ok (⟨verbosity, none⟩, extras)
  | .flag _ f spelling attached :: rest =>
    match unpack globalFlags none f spelling attached with
    | .error e => .error (flagMisuse none e)
    | .ok u => do
      let verbosity ← u.flags.foldlM (fun n (use : Flag × Option String) => match use.1 with
        | .help => .error (.help none)
        | .version => .error .version
        | _ => .ok (n + 1)) verbosity
      readGlobal verbosity extras rest
  | .unknown text :: rest => readGlobal verbosity (extras ++ [text]) rest
  | .plain text :: rest =>
    match Command.ofWord? text with
    | none => .error (.misuse none
        ("argument <command>: " ++ invalidChoice text (Command.all.map Command.word)))
    | some command => do
      let (arguments, more) ← readArguments command (rest.map Word.text)
      return (⟨verbosity, some (command, arguments)⟩, extras ++ more)
  | .dashes :: rest =>
    match rest with
    | [] => .ok (⟨verbosity, none⟩, extras ++ ["--"])
    | _ :: _ => .error (.misuse none
        ("argument <command>: " ++ invalidChoice "--" (Command.all.map Command.word)))

def Request.read (texts : List String) : Except Stop Request := do
  let words ← readWords none globalFlags texts
  let (request, extras) ← readGlobal 0 [] words
  if extras.isEmpty then return request
  else .error (.misuse none ("unrecognized arguments: " ++ " ".intercalate extras))

end GenericTuring.CommandLine
