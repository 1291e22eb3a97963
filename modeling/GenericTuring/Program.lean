import GenericTuring.Key
import GenericTuring.Loc
import GenericTuring.Move
import GenericTuring.Symbol
import GenericTuring.Text.Lines

/-!
Programs: a start reference and the definitions of states. A definition may have parameters, which its
rules mention and which a reference to it supplies.
-/

namespace GenericTuring

inductive Label where
  | state (name : String)
  | param (name : String)
  deriving DecidableEq, Repr

namespace Label

def name : Label → String
  | state name => name
  | param name => name

def isState : Label → Bool
  | state _ => true
  | param _ => false

def param? : Label → Option String
  | state _ => none
  | param name => some name

end Label

abbrev Ref := Term (Located Label)

namespace Ref

def name (ref : Ref) : String := (Term.head ref).val.name

def loc (ref : Ref) : Loc := (Term.head ref).loc

def text (ref : Ref) : String := Term.written (fun a => a.val.name) ref

def params (ref : Ref) : List String := (Term.atoms ref).filterMap fun a => a.val.param?

def isState (ref : Ref) : Bool := (Term.head ref).val.isState

def states (ref : Ref) : List Ref := (Term.subterms ref).filter isState

def instantiate? (env : List (String × Key)) (ref : Ref) : Option Key :=
  Term.bind? (fun a => match a.val with
    | .state name => some (.atom name)
    | .param name => env.lookup name) ref

end Ref

structure Rule where
  read : Symbol
  write : Symbol
  target : Ref
  move : Move
  loc : Loc
  deriving DecidableEq, Repr

structure Definition where
  name : String
  params : List String
  rules : List Rule
  loc : Loc
  deriving DecidableEq, Repr

namespace Definition

def arity (d : Definition) : Nat := d.params.length

def isGeneric (d : Definition) : Bool := !d.params.isEmpty

def ruleFor? (d : Definition) (symbol : Symbol) : Option Rule :=
  d.rules.find? fun r => r.read = symbol

end Definition

structure Program where
  definitions : List Definition
  start : Ref
  startLoc : Loc
  source : String
  file : String

namespace Program

def definition? (p : Program) (name : String) : Option Definition :=
  p.definitions.find? fun d => d.name = name

def sourceLine (p : Program) (line : Nat) : String := Text.lineAt p.source line

end Program

end GenericTuring
