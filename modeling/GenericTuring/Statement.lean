import GenericTuring.Program

/-!
Statements: the lines of a program before they are gathered into definitions. In a statement every name
is just a name; which of them are parameters is settled later.
-/

namespace GenericTuring

abbrev RawRef := Term (Located String)

namespace RawRef

def name (ref : RawRef) : String := (Term.head ref).val

def loc (ref : RawRef) : Loc := (Term.head ref).loc

def text (ref : RawRef) : String := Term.written (fun a => a.val) ref

end RawRef

structure RuleLine where
  head : String
  params : List String
  read : Located Symbol
  write : Located Symbol
  target : RawRef
  move : Move
  loc : Loc
  deriving DecidableEq, Repr

inductive Statement where
  /-- A line `start = target`. -/
  | start (target : RawRef) (loc : Loc)
  | rule (line : RuleLine)
  deriving DecidableEq, Repr

def Symbol.looksBlank : Symbol → Bool
  | .blank => false
  | .mark text => text == "_" || text == " "

namespace Statement

def blankLooking : Statement → List (Located Symbol)
  | start .. => []
  | rule line => [line.read, line.write].filter fun s => s.val.looksBlank

end Statement

end GenericTuring
