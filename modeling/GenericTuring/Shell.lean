import GenericTuring.Debugger
import GenericTuring.Log

/-!
The command shell of the debugger: one command a line, an empty line repeats the last one.
-/

namespace GenericTuring

namespace Shell

def prompt : String := "(gentm) "

def introduction : String :=
  "Interactive turing machine debugger.\n" ++
  "Commands: step (s, next, n), continue (c, run), break (b) <state|line>,\n" ++
  "clear [id|state], breakpoints, inspect (i) [radius], tape <text>,\n" ++
  "reset, quit (q). Type 'help <command>' for details."

inductive Command where
  | step
  | resume
  | reset
  | tape
  | setBreakpoint
  | clearBreakpoints
  | listBreakpoints
  | inspect
  | quit
  | endOfInput
  | help
  deriving DecidableEq, Repr

namespace Command

def ofWord? (word : String) : Option Command :=
  [("step", step), ("s", step), ("next", step), ("n", step),
    ("continue", resume), ("c", resume), ("run", resume),
    ("reset", reset), ("tape", tape),
    ("break", setBreakpoint), ("b", setBreakpoint),
    ("clear", clearBreakpoints), ("breakpoints", listBreakpoints),
    ("inspect", inspect), ("i", inspect),
    ("quit", quit), ("q", quit), ("EOF", endOfInput), ("help", help)].lookup word

def help? : Command → Option String
  | step => some "step: apply one transition."
  | resume => some "continue: run until a breakpoint, acceptance or failure."
  | reset => some "reset: return to the initial tape and start state."
  | tape => some "tape <text>: load a new input tape and reset. Spaces and _ are blank."
  | setBreakpoint =>
    some "break <state|line>: stop in every instance of a state, or before a rule line."
  | clearBreakpoints => some "clear [id|state]: remove one breakpoint, or all of them."
  | listBreakpoints => some "breakpoints: list breakpoints."
  | inspect => some "inspect [radius]: show state, step count and the tape around the head."
  | quit => some "quit: leave the debugger."
  | endOfInput => none
  | help => some "List available commands with \"help\" or detailed help with \"help cmd\"."

end Command

def overview : String :=
  "\nDocumented commands (type help <topic>):\n" ++
  "========================================\n" ++
  "b      breakpoints  clear     help  inspect  next  quit   run  step\n" ++
  "break  c            continue  i     n        q     reset  s    tape\n" ++
  "\nUndocumented commands:\n" ++
  "======================\n" ++
  "EOF\n\n"

inductive Crash where
  /-- The text is made of digit signs and yet is no numeral. -/
  | badNumeral (text : String)
  | longNumeral (digits : Nat)
  | fault (fault : Fault)
  deriving DecidableEq, Repr

def numeralLimit : Nat := 200

def Crash.message : Crash → String
  | badNumeral text =>
    "invalid literal for int() with base 10: " ++
      String.ofList ((Text.quoted text).toList.take numeralLimit)
  | longNumeral digits =>
    s!"Exceeds the limit ({Text.digitLimit} digits) for integer string conversion: value has " ++
      s!"{digits} digits; use sys.set_int_max_str_digits() to increase the limit"
  | fault f => f.diagnostic.render

inductive Signal where
  | goOn
  | leave
  | crash (crash : Crash)
  deriving DecidableEq, Repr

structure Session where
  debugger : Debugger
  /-- The last command line, which an empty line repeats. -/
  lastLine : String

structure Reply where
  output : String
  session : Session
  signal : Signal := .goOn
  log : List Log.Entry := []

def numberOr {α : Type} (text : String) (number : Int → α) (other : α) : Except Crash α :=
  if Text.isDigits text then
    match Text.readInt? text with
    | some n => .ok (number n)
    | none =>
      let digits := (text.toList.takeWhile Text.isDecimal).length
      .error (if Text.digitLimit < digits then .longNumeral digits else .badNumeral text)
  else .ok other

namespace Session

def start (debugger : Debugger) : Session := ⟨debugger, ""⟩

def view (s : Session) : String := s.debugger.inspect.render

def opening (s : Session) : String := s.view ++ "\n" ++ introduction ++ "\n"

def say (s : Session) (text : String) : Reply := ⟨text ++ "\n", s, .goOn, []⟩

def crash (s : Session) (c : Crash) : Reply := ⟨"", s, .crash c, []⟩

def verdictLines (o : Outcome) : List String :=
  let message := o.fault.elim "" fun f => f.diagnostic.message
  let verdict := match o.status with
    | .accepted => ["accepted: machine has entered the finish state"]
    | .stuck => [message]
    | .stepLimit => ["stopped: " ++ message]
    | .breakpoint | .running => (o.breakpoint.map fun b => "breakpoint " ++ b.text).toList
  let ended := if o.status.isFinished && o.taken == 0 then
    ["session is over; use 'reset' to start again"] else []
  verdict ++ ended

def report (s : Session) : Except Fault (Outcome × Debugger) → Reply
  | .error f => s.crash (.fault f)
  | .ok (o, d) =>
    let s := { s with debugger := d }
    s.say ("\n".intercalate (verdictLines o ++ [s.view]))

def setBreakpoint (s : Session) (text : String) : Reply :=
  if text.isEmpty then s.say "usage: break <state|line>"
  else match numberOr text Watch.line (.state text) with
    | .error c => s.crash c
    | .ok watch =>
      match (Debugger.addBreakpoint watch).run s.debugger with
      | .error e d => { s with debugger := d }.say ("error: " ++ e.message)
      | .ok b d =>
        { { s with debugger := d }.say ("breakpoint " ++ b.text ++ " created") with
          log := [⟨.debug, "gentm.debugger", "added breakpoint " ++ b.text⟩] }

def clearBreakpoints (s : Session) (text : String) : Reply :=
  let selection :=
    if text.isEmpty then .ok .all else numberOr text Selection.byId (.onState text)
  match selection with
  | .error c => s.crash c
  | .ok selection =>
    match (Debugger.clearBreakpoints selection).run s.debugger with
    | .error e d => { s with debugger := d }.say ("error: " ++ e.message)
    | .ok removed d =>
      { s with debugger := d }.say s!"removed {removed.length} breakpoint(s)"

def listBreakpoints (s : Session) : Reply :=
  match s.debugger.breakpoints with
  | [] => s.say "no breakpoints"
  | list => s.say ("\n".intercalate (list.map Breakpoint.text))

def inspect (s : Session) (text : String) : Reply :=
  match numberOr text some none with
  | .error c => s.crash c
  | .ok radius => s.say (s.debugger.inspect radius).render

def help (s : Session) (topic : String) : Reply :=
  if topic.isEmpty then ⟨overview, s, .goOn, []⟩
  else s.say (((Command.ofWord? topic).bind Command.help?).getD ("*** No help on " ++ topic))

def unknown (s : Session) (line : String) : Reply :=
  s.say ("unknown command: " ++ (Text.firstWord? line.toList).getD "")

def perform (s : Session) (command : Command) (arg : String) : Reply :=
  match command with
  | .step => s.report s.debugger.step
  | .resume => s.report s.debugger.resume
  | .reset =>
    let s := { s with debugger := s.debugger.reset }
    s.say s.view
  | .tape =>
    let s := { s with debugger := s.debugger.reset (some arg) }
    s.say s.view
  | .setBreakpoint => s.setBreakpoint arg
  | .clearBreakpoints => s.clearBreakpoints arg
  | .listBreakpoints => s.listBreakpoints
  | .inspect => s.inspect arg
  | .quit => ⟨"", s, .leave, []⟩
  | .endOfInput => { s.say "" with signal := .leave }
  | .help => s.help arg

def isWordChar (c : Char) : Bool := c.isAlphanum || c == '_'

/-- Carries out a line that is trimmed and not empty. A question mark stands for the word help. A line
that begins with an exclamation mark names no command and is not remembered. -/
def dispatch (s : Session) (line : List Char) : Reply :=
  match line with
  | '!' :: _ => s.unknown (String.ofList line)
  | _ =>
    let line := match line with
      | '?' :: rest => "help ".toList ++ rest
      | _ => line
    let text := String.ofList line
    let s := { s with lastLine := if text = "EOF" then "" else text }
    let word := String.ofList (line.takeWhile isWordChar)
    let arg := String.ofList (Text.trim (line.dropWhile isWordChar))
    match Command.ofWord? word with
    | some command => s.perform command arg
    | none => s.unknown text

def handle (s : Session) (line : String) : Reply :=
  match Text.trim line.toList with
  | [] =>
    match Text.trim s.lastLine.toList with
    | [] => ⟨"", s, .goOn, []⟩
    | last => s.dispatch last
  | trimmed => s.dispatch trimmed

structure Transcript where
  output : String
  log : List Log.Entry
  session : Session
  crash : Option Crash

def converse (s : Session) : List String → Transcript
  -- The end of the input counts as a last line.
  | [] =>
    let reply := s.handle "EOF"
    ⟨prompt ++ reply.output, reply.log, reply.session, none⟩
  | line :: rest =>
    let reply := s.handle line
    let output := prompt ++ reply.output
    match reply.signal with
    | .leave => ⟨output, reply.log, reply.session, none⟩
    | .crash c => ⟨output, reply.log, reply.session, some c⟩
    | .goOn =>
      let more := reply.session.converse rest
      { more with output := output ++ more.output, log := reply.log ++ more.log }

def run (s : Session) (input : List String) : Transcript :=
  let transcript := s.converse input
  { transcript with output := s.opening ++ transcript.output }

end Session

end Shell

end GenericTuring
