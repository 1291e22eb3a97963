import GenericTuring.Text.Upper

/-!
Head movements.
-/

namespace GenericTuring

inductive Move where
  | prev
  | current
  | next
  deriving DecidableEq, Repr, Inhabited

namespace Move

def all : List Move := [prev, current, next]

def keyword : Move → String
  | prev => "prev"
  | current => "current"
  | next => "next"

def offset : Move → Int
  | prev => -1
  | current => 0
  | next => 1

def letter : Move → String
  | prev => "<"
  | current => "-"
  | next => ">"

def ofWord? (word : String) : Option Move :=
  all.find? fun m => Text.upper m.keyword == Text.upper word

def ofLetter? (text : String) : Option Move :=
  all.find? fun m => m.letter == text

end Move

end GenericTuring
