import GenericTuring.Build
import GenericTuring.CommandLine.Help
import GenericTuring.FileTree
import GenericTuring.Listing
import GenericTuring.Shell
import GenericTuring.Text.Utf8

/-!
The commands. A command is given a program and its arguments, and reports what it writes, which file is
to be saved and how it ends: with 0 if all went well, 1 if the program is at fault, 2 if a file or the
command line is, and 3 if the machine rejects its tape.
-/

namespace GenericTuring.CommandLine

structure Clock where
  time : String
  elapsed : String

inductive Event where
  | shown (text : String)
  | reported (text : String)
  | logged (entry : Log.Entry)
  deriving DecidableEq, Repr

inductive Crash where
  | parsing (crash : Program.Crash)
  | session (crash : Shell.Crash)
  | missingLimit
  | missingFile
  | nullInPath (error : FileError)
  deriving DecidableEq, Repr

def Crash.message : Crash → String
  | parsing crash => crash.message
  | session crash => crash.message
  | missingLimit => "'<=' not supported between instances of 'list' and 'int'"
  | missingFile => "expected str, bytes or os.PathLike object, not list"
  | nullInPath error => error.message

inductive Ending where
  | exit (code : Nat)
  | crashed (crash : Crash)
  deriving DecidableEq, Repr

structure Report where
  events : List Event
  /-- A file to be saved, and its content. -/
  save : Option (Path × String) := none
  ending : Ending
  deriving DecidableEq, Repr

namespace Report

def after (events : List Event) (r : Report) : Report := { r with events := events ++ r.events }

def output (r : Report) : String :=
  String.join (r.events.filterMap fun e => match e with
    | .shown text => some text
    | _ => none)

def errors (clock : Clock) (verbosity : Nat) (r : Report) : String :=
  String.join (r.events.filterMap fun e => match e with
    | .shown _ => none
    | .reported text => some text
    | .logged entry => if entry.isShown verbosity then some (entry.text clock.time ++ "\n") else none)

end Report

structure Source where
  text : String
  file : String

inductive LoadError where
  | missing (path : Path)
  | unreachable (error : FileError)
  | undecodable (path : Path) (error : Text.Utf8Error)

def LoadError.message : LoadError → String
  | missing path => "program file not found: " ++ path.text
  | unreachable error => error.message
  | undecodable path error => s!"program file is not valid UTF-8: {path.text} ({error.message})"

namespace Source

def isStdin (file : String) : Bool := file == "-"

def ofStdin (stdin : List Char) : Source := ⟨String.ofList stdin, "<stdin>"⟩

def ofBytes (file : String) (bytes : List UInt8) : Except LoadError Source :=
  match Text.decodeUtf8 bytes with
  | .error e => .error (.undecodable (.ofText file) e)
  | .ok cs => .ok ⟨String.ofList (Text.normalizeNewlines cs), file⟩

def load (files : FileTree) (stdin : List Char) (file : String) : Except LoadError Source :=
  if isStdin file then .ok (ofStdin stdin)
  else
    let path := Path.ofText file
    match files.find path with
    | .ok (.file bytes) => ofBytes file bytes
    | .error .tooLong => .error (.unreachable ⟨.tooLong, path⟩)
    | _ => .error (.missing path)

end Source

def Arguments.settings? (a : Arguments) : Option Settings :=
  match a.maxSteps with
  | .standard => some { recordTrace := a.trace }
  | .steps count => some { recordTrace := a.trace, maxSteps := count }
  | .missing => none

def Arguments.options (a : Arguments) : Listing.Options :=
  let standard : Listing.Options := { naming := a.naming }
  match a.name with
  | none | some "" => standard
  | some name => { standard with name }

def settingsWarnings (s : Settings) : List Event :=
  s.warnings.map fun w => .logged ⟨.warning, "gentm.runtime", "RuntimeConfig: " ++ w⟩

def check (a : Arguments) (table : Table) : Report :=
  let definitions := (table.program.map fun p => p.definitions.length).getD 0
  let file := (table.program.map Program.file).getD ""
  let summary := s!"{a.file}: {definitions} definition(s), {table.rows.length} specialised " ++
    s!"state(s), {table.transitions.length} transition(s)\n"
  let warnings := table.unreachable.map fun d =>
    s!"{d.loc.inFile file}: warning: unreachable state '{d.name}'\n"
  { events := (summary :: warnings).map .shown, ending := .exit 0 }

def generate (a : Arguments) (source : Source) (table : Table) : Report :=
  let options := a.options
  let warnings := options.warnings.map fun w =>
    Event.logged ⟨.warning, "gentm.codegen", "GeneratorConfig: " ++ w⟩
  match Listing.write options table with
  | .error e =>
    { events := warnings ++ [.reported (e.diagnostic.render (some source.text) ++ "\n")],
      ending := .exit 1 }
  | .ok text =>
    let names := Listing.names options.scheme table
    let events := warnings ++ [.logged ⟨.info, "gentm.codegen",
      s!"generated {table.transitions.length} transition(s) for {names.length} state(s)"⟩]
    match a.output with
    | .console => { events := events ++ [.shown text], ending := .exit 0 }
    | .file name => { events, save := some (.ofText name, text), ending := .exit 0 }
    | .unnamed => { events, ending := .crashed .missingFile }

def noLimit : Report := { events := [], ending := .crashed .missingLimit }

def runWith (a : Arguments) (settings : Settings) (table : Table) : Report :=
  let warnings := settingsWarnings settings
  let (fault, machine) := (Machine.new table (.ofText (a.tape.getD "")) settings).run
  let trace := if a.trace then machine.trace.map fun r => Event.shown (r.text ++ "\n") else []
  match fault with
  | some fault =>
    { events := warnings ++ trace ++ [.reported (fault.diagnostic.render ++ "\n")],
      ending := .exit 3 }
  | none =>
    let verdict := s!"accepted after {machine.state.steps} step(s)"
    { events := warnings ++ [.logged ⟨.info, "gentm.runtime", verdict⟩] ++ trace ++
        [.shown (verdict ++ "\n"), .shown ("tape: " ++ machine.state.tape.render ++ "\n")],
      ending := .exit 0 }

def run (a : Arguments) (table : Table) : Report :=
  match a.settings? with
  | some settings => runWith a settings table
  | none => noLimit

def tapePrompt : String := "Input tape (space or _ for blank): "

def session (settings : Settings) (table : Table) (tape : String) : Shell.Session :=
  .start (.new table tape settings)

def converse (a : Arguments) (table : Table) (tape : String) (lines : List String) : Report :=
  match a.settings? with
  | none => noLimit
  | some settings =>
    let transcript := (session settings table tape).run lines
    { events := settingsWarnings settings ++ [.shown transcript.output] ++
        transcript.log.map .logged
      ending := (transcript.crash.map fun c => .crashed (.session c)).getD (.exit 0) }

def interactive (a : Arguments) (table : Table) (lines : List String) : Report :=
  -- The first line of input is the tape, unless it is given.
  match a.tape, lines with
  | some tape, lines => converse a table tape lines
  | none, tape :: lines => (converse a table tape lines).after [.shown tapePrompt]
  | none, [] => { events := [.shown tapePrompt], ending := .exit 0 }

def prepare (clock : Clock) (loaded : Except LoadError Source) :
    Except Report (List Event × Source × Table) :=
  match loaded with
  | .error e => .error { events := [.logged ⟨.error, "gentm", e.message⟩], ending := .exit 2 }
  | .ok source =>
    let build := Build.ofSource clock.elapsed source.text source.file
    let log := build.log.map Event.logged
    match build.table with
    | .error (.refused d) => .error
        { events := log ++ [.reported (d.render (some source.text) ++ "\n")], ending := .exit 1 }
    | .error (.crashed crash) => .error { events := log, ending := .crashed (.parsing crash) }
    | .ok table => .ok (log, source, table)

def perform (clock : Clock) (command : Command) (a : Arguments)
    (loaded : Except LoadError Source) (lines : List String) : Report :=
  match prepare clock loaded with
  | .error report => report
  | .ok (events, source, table) =>
    let report := match command with
      | .check => check a table
      | .generate => generate a source table
      | .run => run a table
      | .interactive => interactive a table lines
    report.after events

def Stop.report : Stop → Report
  | .help command => { events := [.shown (helpText command)], ending := .exit 0 }
  | .version => { events := [.shown (programName ++ " " ++ versionNumber ++ "\n")], ending := .exit 0 }
  | .misuse command message =>
    { events := [.reported (usage command ++ speaker command ++ ": error: " ++ message ++ "\n")],
      ending := .exit 2 }

def noCommand : Report := { events := [.reported (helpText none)], ending := .exit 2 }

def Report.saveFailed (r : Report) (e : FileError) : Report :=
  -- A null character in the path is no fault of the system, and the command breaks off.
  if e.fault = .nullInPath then { events := r.events, ending := .crashed (.nullInPath e) }
  else { events := r.events ++ [.logged ⟨.error, "gentm", e.message⟩], ending := .exit 2 }

def saveFile (files : FileTree) (path : Path) (text : String) : Option FileError × FileTree :=
  -- The tree comes back even if making the directories or writing fails.
  match files.makeDirectories path.root path.parent.parts.reverse with
  | .error e => (some e, files)
  | .ok files =>
    match files.write path text.toUTF8.toList with
    | .error e => (some e, files)
    | .ok files => (none, files)

def Report.settle (files : FileTree) (r : Report) : Report × FileTree :=
  match r.save with
  | none => (r, files)
  | some (path, text) =>
    match saveFile files path text with
    | (some e, files) => (r.saveFailed e, files)
    | (none, files) => (r, files)

structure Run where
  stdout : String
  stderr : String
  files : FileTree
  ending : Ending

/-- The program as a whole, on the words of its command line, its standard input and a tree of files. A
program read from standard input leaves no lines for the debugger. -/
def execute (clock : Clock) (words : List String) (stdin : String) (files : FileTree) : Run :=
  let stdin := Text.normalizeNewlines stdin.toList
  let finish := fun (verbosity : Nat) (result : Report × FileTree) =>
    (⟨result.1.output, result.1.errors clock verbosity, result.2, result.1.ending⟩ : Run)
  match Request.read words with
  | .error stop => finish 0 (stop.report, files)
  | .ok ⟨verbosity, none⟩ => finish verbosity (noCommand, files)
  | .ok ⟨verbosity, some (command, a)⟩ =>
    let lines := if Source.isStdin a.file then [] else Text.inputLines stdin
    let report := perform clock command a (Source.load files stdin a.file) lines
    finish verbosity (report.settle files)

end GenericTuring.CommandLine
