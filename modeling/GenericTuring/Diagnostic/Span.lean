import GenericTuring.Loc
import GenericTuring.Text.Lines
import GenericTuring.Text.Numeral

/-!
Where an error is and what is noted about it: spans, notes, and the excerpt that shows the source line
with a caret under the column.
-/

namespace GenericTuring

/-- A file, line and column. Lines and columns count from one, and zero is unknown. -/
structure Span where
  file : String
  line : Int
  column : Int
  deriving DecidableEq, Repr

namespace Span

def unknown : Span := ⟨"", 0, 0⟩

def ofLoc (file : String) (loc : Loc) : Span := ⟨file, loc.line, loc.column⟩

def isKnown (s : Span) : Bool := 0 < s.line

def orUnknown (s : Span) : Span := if s.isKnown then s else unknown

def text (s : Span) : String :=
  if s.file.isEmpty && s.line = 0 then "<unknown location>"
  else
    let file := if s.file.isEmpty then [] else [s.file]
    let column := if 0 < s.column then [toString s.column] else []
    let place := if 0 < s.line then toString s.line :: column else []
    ":".intercalate (file ++ place)

end Span

structure Note where
  message : String
  span : Option Span := none
  label : String := "note"
  deriving DecidableEq, Repr

namespace Note

def text (note : Note) : String :=
  let message := if note.label.isEmpty then note.message else note.label ++ ": " ++ note.message
  match note.span with
  | some span => if span.isKnown then span.text ++ ": " ++ message else message
  | none => message

end Note

def excerpt (source : String) (line column : Int) : Option String :=
  -- Nothing is shown for a line outside the source.
  if line < 1 then none
  else
    ((Text.lines source.toList)[line.toNat - 1]?).map fun shown =>
      let number := toString line
      let first := number ++ " | " ++ String.ofList shown
      if 0 < column then
        first ++ "\n" ++ Text.spaces number.length ++ " | " ++ Text.spaces (column - 1) ++ "^"
      else first

end GenericTuring
