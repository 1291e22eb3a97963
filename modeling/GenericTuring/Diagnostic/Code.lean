import GenericTuring.Text.Numeral
import GenericTuring.Text.Quoted

/-!
Error codes: a series and a number, with the phase and the category of error that they stand for.
-/

namespace GenericTuring

inductive Phase where
  | parsing
  | resolution
  | generation
  | execution
  | debugging
  deriving DecidableEq, Repr

namespace Phase

def all : List Phase := [parsing, resolution, generation, execution, debugging]

def label : Phase → String
  | parsing => "syntax"
  | resolution => "resolution"
  | generation => "codegen"
  | execution => "runtime"
  | debugging => "debugger"

def ofLabel? (label : String) : Option Phase := all.find? fun p => p.label == label

end Phase

inductive Category where
  | unexpectedInput | invalidSymbol | multipleStart | missingStart | reservedName | redeclaration
  | duplicateRule | undeclaredPlaceholder | undefinedState | arityMismatch | instantiationCycle
  | unsupportedSymbol | stuck | stepLimit | halted | invalidBreakpoint
  deriving DecidableEq, Repr

namespace Category

def all : List Category :=
  [unexpectedInput, invalidSymbol, multipleStart, missingStart, reservedName, redeclaration,
  duplicateRule, undeclaredPlaceholder, undefinedState, arityMismatch, instantiationCycle,
  unsupportedSymbol, stuck, stepLimit, halted, invalidBreakpoint]

def label : Category → String
  | unexpectedInput => "UNEXPECTED_INPUT"
  | invalidSymbol => "INVALID_SYMBOL"
  | multipleStart => "MULTIPLE_START"
  | missingStart => "MISSING_START"
  | reservedName => "RESERVED_NAME"
  | redeclaration => "REDECLARATION"
  | duplicateRule => "DUPLICATE_RULE"
  | undeclaredPlaceholder => "UNDECLARED_PLACEHOLDER"
  | undefinedState => "UNDEFINED_STATE"
  | arityMismatch => "ARITY_MISMATCH"
  | instantiationCycle => "INSTANTIATION_CYCLE"
  | unsupportedSymbol => "UNSUPPORTED_SYMBOL"
  | stuck => "STUCK"
  | stepLimit => "STEP_LIMIT"
  | halted => "HALTED"
  | invalidBreakpoint => "INVALID_BREAKPOINT"

def ofLabel? (label : String) : Option Category := all.find? fun c => c.label == label

def ordinal (c : Category) : Nat := all.idxOf c + 1

end Category

structure Code where
  series : String
  number : Int
  category : Category
  phase : Phase
  deriving DecidableEq, Repr

namespace Code

def text (code : Code) : String := code.series ++ "-" ++ Text.zeroPadded 4 code.number

def same (a b : Code) : Bool := a.series == b.series && a.number == b.number

def description (code : Code) : String :=
  "ErrorCode(" ++ Text.quoted code.text ++ ", " ++ code.category.label ++ ")"

def unexpectedInput : Code := ⟨"GTM", 1001, .unexpectedInput, .parsing⟩
def invalidSymbol : Code := ⟨"GTM", 1002, .invalidSymbol, .parsing⟩
def multipleStart : Code := ⟨"GTM", 1010, .multipleStart, .parsing⟩
def missingStart : Code := ⟨"GTM", 1011, .missingStart, .parsing⟩
def reservedName : Code := ⟨"GTM", 1020, .reservedName, .parsing⟩
def redeclaration : Code := ⟨"GTM", 1021, .redeclaration, .parsing⟩
def duplicateRule : Code := ⟨"GTM", 1030, .duplicateRule, .parsing⟩
def undeclaredPlaceholder : Code := ⟨"GTM", 1040, .undeclaredPlaceholder, .parsing⟩
def undefinedState : Code := ⟨"GTM", 3001, .undefinedState, .resolution⟩
def arityMismatch : Code := ⟨"GTM", 3002, .arityMismatch, .resolution⟩
def instantiationCycle : Code := ⟨"GTM", 3003, .instantiationCycle, .resolution⟩
def unsupportedSymbol : Code := ⟨"GTM", 4001, .unsupportedSymbol, .generation⟩
def stuck : Code := ⟨"GTM", 5001, .stuck, .execution⟩
def stepLimit : Code := ⟨"GTM", 5002, .stepLimit, .execution⟩
def halted : Code := ⟨"GTM", 5003, .halted, .execution⟩
def invalidBreakpoint : Code := ⟨"GTM", 6001, .invalidBreakpoint, .debugging⟩

def catalogue : List (String × Code) :=
  [("UNEXPECTED_INPUT", unexpectedInput), ("INVALID_SYMBOL", invalidSymbol),
  ("MULTIPLE_START", multipleStart), ("MISSING_START", missingStart),
  ("RESERVED_NAME", reservedName), ("GENERIC_REDECLARATION", redeclaration),
  ("DUPLICATE_RULE", duplicateRule), ("UNDECLARED_PLACEHOLDER", undeclaredPlaceholder),
  ("UNDEFINED_STATE", undefinedState), ("ARITY_MISMATCH", arityMismatch),
  ("INSTANTIATION_CYCLE", instantiationCycle), ("UNSUPPORTED_SYMBOL", unsupportedSymbol),
  ("STUCK", stuck), ("STEP_LIMIT", stepLimit), ("HALTED", halted),
  ("INVALID_BREAKPOINT", invalidBreakpoint)]

end Code

end GenericTuring
