/-!
Lines of a text. For display a text breaks at each of eleven line ends; locations in a program count
the line feed alone.
-/

namespace GenericTuring.Text

def isLineEnd (c : Char) : Bool :=
  c == '\n' || c == '\r' || c == '\x0b' || c == '\x0c' || c == '\x1c' || c == '\x1d' ||
    c == '\x1e' || c == '\u0085' || c == '\u2028' || c == '\u2029'

/-- The displayed lines of a text, without their ends. A carriage return and the line feed after it end
one line, and nothing follows the last line end. -/
def lines : List Char → List (List Char)
  | [] => []
  | '\r' :: '\n' :: rest => [] :: lines rest
  | c :: rest =>
    if isLineEnd c then [] :: lines rest
    else match lines rest with
      | [] => [[c]]
      | line :: more => (c :: line) :: more

def lineAt (text : String) (number : Nat) : String :=
  match number with
  | 0 => ""
  | n + 1 => (((lines text.toList)[n]?).map String.ofList).getD ""

def normalizeNewlines : List Char → List Char
  | [] => []
  | '\r' :: '\n' :: rest => '\n' :: normalizeNewlines rest
  | c :: rest => (if c = '\r' then '\n' else c) :: normalizeNewlines rest

def splitAt (separator : Char) : List Char → List (List Char)
  | [] => [[]]
  | c :: rest =>
    if c = separator then [] :: splitAt separator rest
    else match splitAt separator rest with
      | [] => [[c]]
      | piece :: more => (c :: piece) :: more

def inputLines (cs : List Char) : List String :=
  let pieces := splitAt '\n' cs
  let whole := if pieces.getLast? = some [] then pieces.dropLast else pieces
  whole.map String.ofList

end GenericTuring.Text
