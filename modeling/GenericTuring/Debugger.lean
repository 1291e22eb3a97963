import GenericTuring.Dictionary
import GenericTuring.Machine

/-!
The debugger: a machine with breakpoints. A breakpoint stops in every state that comes from one
definition, or before a rule on one source line.
-/

namespace GenericTuring

inductive Status where
  | running
  | breakpoint
  | accepted
  | stuck
  | stepLimit
  deriving DecidableEq, Repr

namespace Status

def text : Status → String
  | running => "running"
  | breakpoint => "breakpoint"
  | accepted => "accepted"
  | stuck => "stuck"
  | stepLimit => "step-limit"

def isFinished : Status → Bool
  | accepted | stuck | stepLimit => true
  | running | breakpoint => false

end Status

inductive Watch where
  | state (name : String)
  | line (number : Int)
  deriving DecidableEq, Repr

structure Breakpoint where
  id : Nat
  watch : Watch
  deriving DecidableEq, Repr

def Breakpoint.text (b : Breakpoint) : String :=
  match b.watch with
  | .state name => s!"#{b.id} state {name}"
  | .line number => s!"#{b.id} line {number}"

inductive Selection where
  | all
  | byId (id : Int)
  | onState (name : String)
  deriving DecidableEq, Repr

inductive BreakpointError where
  | noRuleOnLine (number : Int)
  | noState (name : String)
  | noBreakpoint (id : Int)
  | noBreakpointOn (name : String)
  deriving DecidableEq, Repr

namespace BreakpointError

def message : BreakpointError → String
  | noRuleOnLine number => s!"no specialised rule on line {number}"
  | noState name => s!"no such state: '{name}'"
  | noBreakpoint id => s!"no breakpoint #{id}"
  | noBreakpointOn name => s!"no breakpoint on state '{name}'"

def diagnostic (e : BreakpointError) : Diagnostic := .of (.breakpoint e.message)

end BreakpointError

structure Outcome where
  status : Status
  taken : Nat := 0
  last : Option Record := none
  breakpoint : Option Breakpoint := none
  fault : Option Fault := none

structure Snapshot where
  key : Key
  head : Int
  steps : Nat
  status : Status
  radius : Int
  window : List Symbol
  /-- Zero if no rule applies. -/
  ruleLine : Nat
  ruleSource : String

def Snapshot.render (s : Snapshot) : String :=
  let rule := if s.ruleLine = 0 then []
    else [Text.alignRight 5 (toString s.ruleLine) ++ " | " ++ Text.strip s.ruleSource]
  "\n".intercalate ([s!"state {s.key.text}  step {s.steps}  head {s.head}"] ++ rule ++
    ["tape  " ++ Tape.renderCells s.window, "      " ++ Text.spaces s.radius ++ "^"])

structure Debugger where
  machine : Machine
  /-- The breakpoints with the keys that they are kept under. -/
  entries : List (Int × Breakpoint)
  nextId : Nat
  status : Status
  fault : Option Fault

namespace Debugger

def breakpoints (d : Debugger) : List Breakpoint := d.entries.map Prod.snd

def freshStatus (m : Machine) : Status := if m.halted then .accepted else .running

def new (table : Table) (tape : String := "") (settings : Settings := {}) : Debugger :=
  let machine := Machine.new table (.ofText tape) settings
  ⟨machine, [], 1, freshStatus machine, none⟩

def reset (d : Debugger) (tape : Option String := none) : Debugger :=
  let machine := d.machine.reset (tape.map fun text => .ofText text)
  { d with machine, status := freshStatus machine, fault := none }

def knownStates (d : Debugger) : List String :=
  match d.machine.table.program with
  | some p => p.definitions.map Definition.name
  | none => d.machine.table.keys.map Term.head

/-- A change in place. What has been changed stays so if an error ends it. -/
abbrev InPlace := EStateM BreakpointError Debugger

def refusal? (d : Debugger) : Watch → Option BreakpointError
  | .line number =>
    if d.machine.table.transitions.any fun (_, _, t) => (t.loc.line : Int) == number then none
    else some (.noRuleOnLine number)
  | .state name => if name ∈ d.knownStates then none else some (.noState name)

def addBreakpoint (watch : Watch) : InPlace Breakpoint := do
  let d ← get
  match d.refusal? watch with
  | some e => throw e
  | none =>
    let added : Breakpoint := ⟨d.nextId, watch⟩
    modify fun now => { now with entries := Dictionary.assign (added.id : Int) added now.entries }
    modify fun now => { now with nextId := now.nextId + 1 }
    return added

def pop (key : Int) : InPlace (Option Breakpoint) := do
  let d ← get
  set { d with entries := Dictionary.remove key d.entries }
  return d.entries.lookup key

def clearBreakpoints : Selection → InPlace (List Breakpoint)
  | .all => do
    let d ← get
    set { d with entries := [] }
    return d.breakpoints
  | .byId id => do
    match ← pop id with
    | none => throw (.noBreakpoint id)
    | some b => return [b]
  | .onState name => do
    let d ← get
    let removed := d.breakpoints.filter fun b => b.watch == .state name
    if removed.isEmpty then throw (.noBreakpointOn name)
    else
      removed.forM fun b => discard (pop b.id)
      return removed

def matchesNow (m : Machine) (b : Breakpoint) : Bool :=
  match b.watch with
  | .state name => m.state.key.head == name
  | .line number =>
    match m.next? with
    | some t => (t.loc.line : Int) == number
    | none => false

def hit? (d : Debugger) : Option Breakpoint := d.breakpoints.find? (matchesNow d.machine)

/-- Takes at most `budget` further steps, `taken` having been taken before. Acceptance is noticed before
a breakpoint, and a breakpoint before the limit. Only running with a limit stops at breakpoints; a
single step does not. -/
def advanceFor (limit : Option Int) :
    (budget taken : Nat) → Option Record → Debugger → Except Fault (Outcome × Debugger)
  | 0, taken, last, d =>
    match limit with
    | none => .ok ({ status := d.status, taken, last }, d)
    | some limit =>
      let fault : Fault := .stepLimit limit d.machine.state.key d.machine.state.steps
      .ok ({ status := .stepLimit, taken, last, fault := some fault },
        { d with status := .stepLimit, fault := some fault })
  | budget + 1, taken, last, d =>
    match d.machine.step with
    | .error (.stuck key symbol head step) =>
      let fault : Fault := .stuck key symbol head step
      .ok ({ status := .stuck, taken, last, fault := some fault },
        { d with status := .stuck, fault := some fault })
    | .error fault => .error fault
    | .ok (record, machine) =>
      let d := { d with machine }
      if machine.halted then
        .ok ({ status := .accepted, taken := taken + 1, last := some record },
          { d with status := .accepted })
      else
        match (if limit.isSome then d.hit? else none) with
        | some b =>
          .ok ({ status := .breakpoint, taken := taken + 1, last := some record,
                 breakpoint := some b },
            { d with status := .breakpoint })
        | none => advanceFor limit budget (taken + 1) (some record) d

def advance (limit : Option Int) (budget : Nat) (d : Debugger) : Except Fault (Outcome × Debugger) :=
  if d.status.isFinished then .ok ({ status := d.status, fault := d.fault }, d)
  else advanceFor limit budget 0 none { d with status := .running }

def step (d : Debugger) : Except Fault (Outcome × Debugger) := d.advance none 1

def resume (d : Debugger) (limit : Option Int := none) : Except Fault (Outcome × Debugger) :=
  let limit := limit.getD d.machine.settings.maxSteps
  d.advance (some limit) limit.toNat

def inspect (d : Debugger) (radius : Option Int := none) : Snapshot :=
  let radius := radius.getD d.machine.settings.window
  let state := d.machine.state
  let line := d.machine.next?.elim 0 fun t => t.loc.line
  { key := state.key, head := state.head, steps := state.steps, status := d.status, radius,
    window := state.tape.window state.head radius, ruleLine := line,
    ruleSource := if line = 0 then "" else d.machine.table.sourceLine line }

end Debugger

end GenericTuring
