import GenericTuring.Diagnostic
import GenericTuring.Table
import GenericTuring.Tape

/-!
Machines: a table at work on a tape. A step applies one transition; a run takes steps until the machine
accepts, is stuck, or has used up its limit.
-/

namespace GenericTuring

structure Settings where
  maxSteps : Int := 100000
  recordTrace : Bool := false
  /-- How far around the head the debugger shows the tape. -/
  window : Int := 5

def Settings.warnings (s : Settings) : List String :=
  (if s.maxSteps ≤ 0 then ["max_steps must be positive"] else []) ++
    if s.window < 0 then ["window must be non-negative"] else []

structure Configuration where
  key : Key
  tape : Tape
  head : Int
  steps : Nat

structure Record where
  step : Nat
  key : Key
  read : Symbol
  transition : Transition
  headBefore : Int
  headAfter : Int
  deriving DecidableEq, Repr

namespace Record

def text (r : Record) : String :=
  let t := r.transition
  Text.alignRight 6 (toString r.step) ++ "  " ++ r.key.text ++ " " ++ r.read.spelling ++ " -> " ++
    t.write.spelling ++ "; " ++ t.target.text ++ " " ++ t.move.keyword

end Record

inductive Fault where
  | halted (step : Nat)
  | stuck (key : Key) (symbol : Symbol) (head : Int) (step : Nat)
  | stepLimit (limit : Int) (key : Key) (step : Nat)
  deriving DecidableEq, Repr

namespace Fault

def diagnostic : Fault → Diagnostic
  | halted step => .of (.stopped .halted step)
  | stuck key symbol head step => .of (.stopped (.stuck key.text symbol.spelling head) step)
  | stepLimit limit key step => .of (.stopped (.stepLimit limit key.text) step)

end Fault

namespace Configuration

def initial (table : Table) (tape : Tape) : Configuration := ⟨table.start, tape, 0, 0⟩

def halted (c : Configuration) : Bool := c.key == Key.finish

def symbol (c : Configuration) : Symbol := c.tape.read c.head

def next? (table : Table) (c : Configuration) : Option Transition := table.lookup c.key c.symbol

def apply (c : Configuration) (t : Transition) : Record × Configuration :=
  let head := c.head + t.move.offset
  (⟨c.steps + 1, c.key, c.symbol, t, c.head, head⟩,
    ⟨t.target, c.tape.write c.head t.write, head, c.steps + 1⟩)

def step (table : Table) (c : Configuration) : Except Fault (Record × Configuration) :=
  if c.halted then .error (.halted c.steps)
  else match c.next? table with
    | none => .error (.stuck c.key c.symbol c.head c.steps)
    | some t => .ok (c.apply t)

end Configuration

structure Machine where
  table : Table
  settings : Settings
  initialTape : Tape
  state : Configuration
  /-- The recorded steps, the last one first. -/
  history : List Record

namespace Machine

def new (table : Table) (tape : Tape := .empty) (settings : Settings := {}) : Machine :=
  ⟨table, settings, tape, .initial table tape, []⟩

def reset (m : Machine) (tape : Option Tape := none) : Machine :=
  .new m.table (tape.getD m.initialTape) m.settings

def halted (m : Machine) : Bool := m.state.halted

def trace (m : Machine) : List Record := m.history.reverse

def next? (m : Machine) : Option Transition := m.state.next? m.table

/-- Puts a kept configuration in place of the present one. The recorded steps stay. -/
def restore (m : Machine) (kept : Configuration) : Machine := { m with state := kept }

def writeCell (m : Machine) (pos : Int) (symbol : Symbol) : Machine :=
  { m with state := { m.state with tape := m.state.tape.write pos symbol } }

def step (m : Machine) : Except Fault (Record × Machine) :=
  match m.state.step m.table with
  | .error fault => .error fault
  | .ok (record, state) =>
    let history := if m.settings.recordTrace then record :: m.history else m.history
    .ok (record, { m with state, history })

/-- Takes steps until the machine accepts, at most `budget` of them. A run that neither accepts nor is
stuck fails with the limit it was given. Either way the machine stays where it is. -/
def runFor (limit : Int) : (budget : Nat) → Machine → Option Fault × Machine
  | 0, m => if m.halted then (none, m) else (some (.stepLimit limit m.state.key m.state.steps), m)
  | budget + 1, m =>
    if m.halted then (none, m)
    else match m.step with
      | .error fault => (some fault, m)
      | .ok (_, m) => runFor limit budget m

def run (m : Machine) (limit : Option Int := none) : Option Fault × Machine :=
  -- A negative limit allows no step.
  let limit := limit.getD m.settings.maxSteps
  runFor limit limit.toNat m

end Machine

end GenericTuring
