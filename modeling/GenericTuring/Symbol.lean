import GenericTuring.Text.Digit

/-!
Tape symbols: a cell is blank or carries a mark.
-/

namespace GenericTuring

inductive Symbol where
  | blank
  | mark (text : String)
  deriving DecidableEq, Repr, Inhabited

namespace Symbol

/-- How a symbol is spelt in a program: an underscore for the blank, digits bare, any other mark
between single quotes. -/
def spelling : Symbol → String
  | blank => "_"
  | mark text => if Text.isDigits text then text else "'" ++ text ++ "'"

def cell (empty : String) : Symbol → String
  | blank => empty
  | mark text => text

def ofChar (c : Char) : Symbol :=
  if c = ' ' || c = '_' then blank else mark (String.singleton c)

end Symbol

end GenericTuring
