import GenericTuring.CommandLine

/-!
The program on a real console with real files. The commands report what to write; this module writes it.
-/

namespace GenericTuring.Console

open CommandLine

def clock : Clock := ⟨"00:00:00", "0.000"⟩

partial def readAll (stream : IO.FS.Stream) (text : String := "") : IO String := do
  let line ← stream.getLine
  if line.isEmpty then return text else readAll stream (text ++ line)

def nextLine (stream : IO.FS.Stream) : IO (Option String) := do
  let line ← stream.getLine
  if line.isEmpty then return none
  return (Text.inputLines (Text.normalizeNewlines line.toList)).head?

def load (file : String) : IO (Except LoadError Source) := do
  if Source.isStdin file then
    let text ← readAll (← IO.getStdin)
    return .ok (Source.ofStdin (Text.normalizeNewlines text.toList))
  if (Path.ofText file).hasNull then return .error (.missing (.ofText file))
  try
    let bytes ← IO.FS.readBinFile file
    return Source.ofBytes file bytes.toList
  catch _ => return .error (.missing (.ofText file))

def write (verbosity : Nat) (event : Event) : IO Unit := do
  let report : Report := { events := [event], ending := .exit 0 }
  let out ← IO.getStdout
  out.putStr report.output
  out.flush
  (← IO.getStderr).putStr (report.errors clock verbosity)

def finish (ending : Ending) : IO UInt32 := do
  match ending with
  | .exit code => return code.toUInt32
  | .crashed crash =>
    (← IO.getStderr).putStrLn crash.message
    return 1

def fault? : IO.Error → Option FileFault
  | .noFileOrDirectory .. => some .notFound
  | .alreadyExists .. => some .alreadyThere
  | .inappropriateType _ code _ =>
    [FileFault.notDirectory, .isDirectory].find? fun f => f.number? = some code.toNat
  | _ => none

def attempt (path : Path) (act : String → IO Unit) : IO (Option String) := do
  try
    act path.text
    return none
  catch e => return some ((fault? e).elim (toString e) fun f => FileError.message ⟨f, path⟩)

def save (path : Path) (text : String) : IO (Option String) := do
  match ← attempt path.parent fun file => IO.FS.createDirAll file with
  | some message => return some message
  | none => attempt path fun file => IO.FS.writeFile file text

def deliver (verbosity : Nat) (report : Report) : IO UInt32 := do
  report.events.forM (write verbosity)
  match report.save with
  | none => finish report.ending
  | some (path, text) =>
    if path.hasNull then return ← finish (report.saveFailed ⟨.nullInPath, path⟩).ending
    match ← save path text with
    | none => finish report.ending
    | some message =>
      write verbosity (.logged ⟨.error, "gentm", message⟩)
      return 2

partial def talk (verbosity : Nat) (stream : IO.FS.Stream) (s : Shell.Session) : IO UInt32 := do
  write verbosity (.shown Shell.prompt)
  let line ← nextLine stream
  let reply := s.handle (line.getD "EOF")
  write verbosity (.shown reply.output)
  reply.log.forM fun entry => write verbosity (.logged entry)
  match reply.signal with
  | .goOn => talk verbosity stream reply.session
  | .leave => finish (.exit 0)
  | .crash crash => finish (.crashed (.session crash))

def interact (verbosity : Nat) (a : Arguments) (table : Table) : IO UInt32 := do
  let stream ← IO.getStdin
  let tape ← match a.tape with
    | some tape => pure (some tape)
    | none =>
      write verbosity (.shown tapePrompt)
      nextLine stream
  match tape, a.settings? with
  | none, _ => finish (.exit 0)
  | some _, none => deliver verbosity noLimit
  | some tape, some settings =>
    let s := session settings table tape
    (settingsWarnings settings).forM (write verbosity)
    write verbosity (.shown s.opening)
    talk verbosity stream s

def execute (words : List String) : IO UInt32 := do
  match Request.read words with
  | .error stop => deliver 0 stop.report
  | .ok ⟨verbosity, none⟩ => deliver verbosity noCommand
  | .ok ⟨verbosity, some (command, a)⟩ =>
    let loaded ← load a.file
    if command = .interactive && !Source.isStdin a.file then
      match prepare clock loaded with
      | .error report => deliver verbosity report
      | .ok (events, _, table) =>
        events.forM (write verbosity)
        interact verbosity a table
    else deliver verbosity (perform clock command a loaded [])

end GenericTuring.Console

def main (words : List String) : IO UInt32 := GenericTuring.Console.execute words
