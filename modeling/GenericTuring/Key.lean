import GenericTuring.Term

/-!
Keys: the names of concrete states. A key is the name of a definition with keys for its parameters.
-/

namespace GenericTuring

abbrev Key := Term String

def finishName : String := "finish"

namespace Key

def finish : Key := .atom finishName

/-- A key in the form `name<arg><arg>`. -/
def text : Key → String
  | .atom name => name
  | .app f x => text f ++ "<" ++ text x ++ ">"

def escapeChar (c : Char) : List Char :=
  if c = '_' then ['_', '_']
  else if c = '<' then ['_', 'L']
  else if c = '>' then ['_', 'R']
  else [c]

def escaped (key : Key) : String :=
  String.ofList (key.text.toList.flatMap escapeChar)

end Key

end GenericTuring
