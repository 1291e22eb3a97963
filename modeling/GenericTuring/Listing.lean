import GenericTuring.Diagnostic
import GenericTuring.Table
import GenericTuring.Text.Blank

/-!
Listings: a table written out as transition lines for a simulator. A listing has a header with a name,
the initial and the accepting state, and two lines for each transition.
-/

namespace GenericTuring.Listing

inductive Naming where
  /-- By their key, with brackets and underscores escaped. -/
  | escape
  /-- By their place in the table; the accepting state keeps its name. -/
  | ordinal
  deriving DecidableEq, Repr

structure Options where
  name : String := "generated turing machine"
  /-- The naming asked for, if it has a name. Whatever is not known stands for escaping. -/
  naming : Option String := some "escape"

namespace Options

def scheme (o : Options) : Naming := if o.naming = some "ordinal" then .ordinal else .escape

def warnings (o : Options) : List String :=
  (if o.naming ∈ [some "escape", some "ordinal"] then []
    else ["unknown naming scheme " ++ o.naming.elim "[]" Text.quoted ++ ", using 'escape'"]) ++
  if o.name.toList.contains '\n' then ["machine name contains a newline; it will be cut"] else []

def title (o : Options) : String := Text.lineAt o.name 1

end Options

inductive WriteError where
  | unsupported (mark : String) (key : Key)
  /-- A transition leads to a state that the table has no row for. No program gives such a table. -/
  | unnamed (key : Key)
  deriving DecidableEq, Repr

def WriteError.diagnostic : WriteError → Diagnostic
  | unsupported mark key =>
    .of (.unwritable ("symbol " ++ Text.quoted mark ++ " used by state '" ++ key.text ++
      "' cannot be written in the simulator format"))
  | unnamed key => .of (.unwritable s!"state '{key.text}' has no name")

def namedKeys (t : Table) : List Key :=
  if Key.finish ∈ t.keys then t.keys else t.keys ++ [Key.finish]

def names (naming : Naming) (t : Table) : List (Key × String) :=
  match naming with
  | .escape => (namedKeys t).map fun key => (key, key.escaped)
  | .ordinal => (namedKeys t).zipIdx.map fun (key, i) =>
    (key, if key = Key.finish then finishName else s!"q{i}")

def nameOf (names : List (Key × String)) (key : Key) : Except WriteError String :=
  match names.lookup key with
  | some name => .ok name
  | none => .error (.unnamed key)

/-- A symbol in a transition line. Commas separate the parts of a line, and white space around a line is
dropped when it is read, so neither can be written. -/
def writeSymbol (key : Key) : Symbol → Except WriteError String
  | .blank => .ok "_"
  | .mark text =>
    if text = "," || Text.isBlankText text then .error (.unsupported text key) else .ok text

def writeTransition (names : List (Key × String)) (entry : Key × Symbol × Transition) :
    Except WriteError (List String) := do
  let (key, symbol, t) := entry
  let source ← nameOf names key
  let read ← writeSymbol key symbol
  let target ← nameOf names t.target
  let write ← writeSymbol key t.write
  return [source ++ "," ++ read, target ++ "," ++ write ++ "," ++ t.move.letter]

def lines (o : Options) (t : Table) : Except WriteError (List String) := do
  let names := names o.scheme t
  let start ← nameOf names t.start
  let accept ← nameOf names Key.finish
  let body ← t.transitions.mapM (writeTransition names)
  return ["name: " ++ o.title, "init: " ++ start, "accept: " ++ accept] ++
    body.flatMap fun pair => "" :: pair

def write (o : Options) (t : Table) : Except WriteError String := do
  return String.join ((← lines o t).map (· ++ "\n"))

end GenericTuring.Listing
