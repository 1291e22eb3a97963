import GenericTuring.Diagnostic.Code
import GenericTuring.Diagnostic.Span

/-!
Diagnostics: every error the program reports, with the cause it names, a code, a place, notes and a
hint, and the text it is shown as.
-/

namespace GenericTuring

inductive SyntaxCause where
  | plain (message : String)
  | multipleStart (previous : Option Span)
  | missingStart
  | reservedName (name : String)
  | redeclaration (name : String) (expected got : Int) (first : Option Span)
  | duplicateRule (name symbol : String) (first : Option Span)
  | undeclaredPlaceholder (name definition : String)
  deriving DecidableEq, Repr

inductive ResolutionCause where
  | plain (message : String)
  | undefinedState (name : String)
  | arityMismatch (name : String) (expected got : Int)
  | instantiationCycle (cycle : List String)
  deriving DecidableEq, Repr

inductive RunCause where
  | plain (message : String)
  | stuck (state symbol : String) (head : Int)
  | stepLimit (limit : Int) (state : String)
  | halted
  deriving DecidableEq, Repr

inductive Cause where
  | plain (message : String)
  /-- The source line at fault is kept with the cause. -/
  | malformed (cause : SyntaxCause) (sourceLine : String)
  /-- The chain lists the states from the start to the one at fault. -/
  | unresolved (cause : ResolutionCause) (chain : List String)
  | unwritable (message : String)
  /-- The number of steps taken so far is kept with the cause. -/
  | stopped (cause : RunCause) (step : Int)
  | breakpoint (message : String)
  deriving DecidableEq, Repr

namespace SyntaxCause

def message : SyntaxCause → String
  | plain message => message
  | multipleStart _ => "start state is already declared"
  | missingStart => "no start state declared"
  | reservedName name => s!"'{name}' is a built-in state and cannot be redefined"
  | redeclaration name expected got _ =>
    s!"state '{name}' was declared with {expected} generic parameter(s), redeclared with {got}"
  | duplicateRule name symbol _ => s!"state '{name}' already handles input {symbol}"
  | undeclaredPlaceholder name definition =>
    s!"'{name}' is neither a parameter of '{definition}' nor a defined state"

def code : SyntaxCause → Code
  | plain _ => .unexpectedInput
  | multipleStart _ => .multipleStart
  | missingStart => .missingStart
  | reservedName _ => .reservedName
  | redeclaration .. => .redeclaration
  | duplicateRule .. => .duplicateRule
  | undeclaredPlaceholder .. => .undeclaredPlaceholder

def hint? : SyntaxCause → Option String
  | multipleStart _ => some "a program has exactly one 'start = ...' line"
  | missingStart => some "add a line such as 'start = my_state'"
  | _ => none

def earlier (message : String) (span : Option Span) : List Note :=
  match span with
  | some s => if s.isKnown then [{ message, span := some s }] else []
  | none => []

def notes : SyntaxCause → List Note
  | multipleStart previous => earlier "first declared here" previous
  | redeclaration _ _ _ first => earlier "first declared here" first
  | duplicateRule _ _ first => earlier "previous rule is here" first
  | _ => []

end SyntaxCause

namespace ResolutionCause

def message : ResolutionCause → String
  | plain message => message
  | undefinedState name => s!"no such state: '{name}'"
  | arityMismatch name expected got =>
    s!"state '{name}' takes {expected} generic argument(s), {got} supplied"
  | instantiationCycle cycle =>
    "infinitely expanding generic instantiation: " ++ " -> ".intercalate cycle

def code : ResolutionCause → Code
  | plain _ => .undefinedState
  | undefinedState _ => .undefinedState
  | arityMismatch .. => .arityMismatch
  | instantiationCycle _ => .instantiationCycle

def hint? : ResolutionCause → Option String
  | instantiationCycle _ =>
    some ("each instantiation wraps its argument in another layer; " ++
      "pass the parameter through unchanged instead")
  | _ => none

end ResolutionCause

namespace RunCause

def message (step : Int) : RunCause → String
  | plain message => message
  | stuck state symbol head =>
    s!"rejected: state '{state}' has no rule for input {symbol} (head {head}, step {step})"
  | stepLimit limit state => s!"step limit of {limit} reached in state '{state}' without accepting"
  | halted => "machine has already entered the finish state"

def code : RunCause → Code
  | plain _ => .stuck
  | stuck .. => .stuck
  | stepLimit .. => .stepLimit
  | halted => .halted

def hint? : RunCause → Option String
  | stepLimit .. => some "raise --max-steps if the machine legitimately needs more"
  | halted => some "reset the machine to run it again"
  | _ => none

end RunCause

namespace Cause

def message : Cause → String
  | plain message => message
  | malformed cause _ => cause.message
  | unresolved cause _ => cause.message
  | unwritable message => message
  | stopped cause step => cause.message step
  | breakpoint message => message

def code : Cause → Code
  | plain _ => .unexpectedInput
  | malformed cause _ => cause.code
  | unresolved cause _ => cause.code
  | unwritable _ => .unsupportedSymbol
  | stopped cause _ => cause.code
  | breakpoint _ => .invalidBreakpoint

def hint? : Cause → Option String
  | malformed cause _ => cause.hint?
  | unresolved cause _ => cause.hint?
  | stopped cause _ => cause.hint?
  | _ => none

def notes : Cause → List Note
  | malformed cause _ => cause.notes
  | unresolved _ (first :: others) =>
    [{ message := "reached via " ++ " -> ".intercalate (first :: others) }]
  | _ => []

end Cause

structure Diagnostic where
  cause : Cause
  code : Code
  span : Span
  notes : List Note
  hint : String
  deriving DecidableEq, Repr

namespace Diagnostic

def of (cause : Cause) (span : Span := .unknown) (hint : String := "") (code : Option Code := none)
    (notes : List Note := []) : Diagnostic where
  cause := cause
  code := code.getD cause.code
  span := span.orUnknown
  notes := notes ++ cause.notes
  hint := cause.hint?.getD hint

def message (d : Diagnostic) : String := d.cause.message

def phase (d : Diagnostic) : Phase := d.code.phase

def addNote (d : Diagnostic) (note : Note) : Diagnostic := { d with notes := d.notes ++ [note] }

def render (d : Diagnostic) (source : Option String := none) : String :=
  let known := d.span.isKnown
  let place := if known then d.span.text ++ ": " else ""
  let headline := s!"{place}error: {d.message} [{d.code.text}]"
  let shown := match source with
    | some text => if known then (excerpt text d.span.line d.span.column).toList else []
    | none => []
  let advice := if d.hint.isEmpty then [] else ["hint: " ++ d.hint]
  "\n".intercalate (headline :: shown ++ d.notes.map Note.text ++ advice)

end Diagnostic

end GenericTuring
