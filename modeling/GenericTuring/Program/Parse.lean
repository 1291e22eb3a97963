import GenericTuring.Diagnostic
import GenericTuring.Grammar.Productions
import GenericTuring.Program.Assembly
import GenericTuring.Text.Blank

/-!
From text to program: scanning the lines, refusing marks that look blank, and assembling what is left.
An error in the text is placed where the scan of its line got furthest.
-/

namespace GenericTuring

open Grammar

inductive SyntaxError where
  /-- `found` is the next word, if there is one, and `expected` the production that failed there. -/
  | unexpected (found : Option String) (expected : Option Production) (loc : Loc)
  | nested (depth : Nat) (loc : Loc)
  | looksBlank (symbol : Located Symbol)
  | assembly (error : AssemblyError)
  deriving DecidableEq, Repr

namespace Nesting

/-- How deep angle brackets nest: the depth at this place, and the greatest depth so far with the
offset where it was reached first. -/
structure Scan where
  depth : Nat
  deepest : Nat
  offset : Nat

def Scan.step (s : Scan) (offset : Nat) (c : Char) : Scan :=
  -- Brackets close at least at the end of a line, and a closing bracket with no partner counts for
  -- nothing.
  if c = '<' then
    if s.deepest < s.depth + 1 then ⟨s.depth + 1, s.depth + 1, offset⟩
    else { s with depth := s.depth + 1 }
  else if c = '>' then { s with depth := s.depth - 1 }
  else if c = '\n' then { s with depth := 0 }
  else s

def Scan.run (s : Scan) (offset : Nat) : List Char → Scan
  | [] => s
  | c :: cs => (s.step offset c).run (offset + 1) cs

def error (text : List Char) : SyntaxError :=
  let scan := Scan.run ⟨0, 0, 0⟩ 0 text
  .nested scan.deepest (Loc.ofOffset text scan.offset)

end Nesting

namespace SyntaxError

def lineStart (text : List Char) (offset : Nat) : Nat :=
  offset - ((text.take offset).reverse.takeWhile (· != '\n')).length

/-- The error for a text that the grammar matches up to `stop` only, given what failed in the line that
holds `stop`. It moves to the furthest failure if that lies beyond. -/
def atStop (text : List Char) (stop : Nat) (failures : List Failure) : SyntaxError :=
  let beyond := (furthest failures).filter fun f => stop < f.offset
  let offset := beyond.elim stop Failure.offset
  .unexpected (Text.firstWord? (text.drop offset)) (beyond.bind Failure.production)
    (Loc.ofOffset text offset)

def expectation? : Production → Option String
  | .movement => some "a movement (prev, current or next)"
  | .symbol | .blank | .digit | .quoted => some "a tape symbol (a digit, _ or 'c')"
  | .name | .stateHead => some "a state name"
  | .reference => some "a state reference"
  | .params => some "'<' or a tape symbol"
  | .args => some "'<' or a movement"
  | .startLine => some "'='"
  | _ => none

def diagnostic (source file : String) : SyntaxError → Diagnostic
  | unexpected found expected loc =>
    let message := "unexpected " ++ Text.quoted (found.getD "end of input")
    let hint := (expected.bind expectation?).elim "" ("expected " ++ ·)
    .of (.malformed (.plain message) (Text.lineAt source loc.line)) (.ofLoc file loc) hint
  | nested depth loc =>
    let message := s!"state reference nested {depth} levels deep is too deep to parse"
    .of (.malformed (.plain message) (Text.lineAt source loc.line)) (.ofLoc file loc)
      "split the reference across intermediate states"
  | looksBlank symbol =>
    let mark := symbol.val.cell "_"
    let message := s!"quoted symbol '{mark}' is indistinguishable from the blank"
    .of (.malformed (.plain message) "") (.ofLoc file symbol.loc) "write _ for the blank cell"
      (some .invalidSymbol)
  | assembly (.secondStart loc first) =>
    .of (.malformed (.multipleStart (some (.ofLoc file first))) (Text.lineAt source loc.line))
      (.ofLoc file loc)
  | assembly .noStart => .of (.malformed .missingStart "")
  | assembly (.reservedName loc) =>
    .of (.malformed (.reservedName finishName) (Text.lineAt source loc.line)) (.ofLoc file loc)
  | assembly (.repeatedParam param loc) =>
    .of (.malformed (.plain s!"generic parameter '{param}' is declared twice")
      (Text.lineAt source loc.line)) (.ofLoc file loc)
  | assembly (.redeclared name expected got loc first) =>
    .of (.malformed (.redeclaration name expected got (some (.ofLoc file first)))
      (Text.lineAt source loc.line)) (.ofLoc file loc)
  | assembly (.duplicateRule name read loc first) =>
    .of (.malformed (.duplicateRule name read.spelling (some (.ofLoc file first)))
      (Text.lineAt source loc.line)) (.ofLoc file loc)
  | assembly (.paramWithArgs param loc) =>
    .of (.malformed (.plain s!"generic parameter '{param}' cannot take arguments")
      (Text.lineAt source loc.line)) (.ofLoc file loc)
  | assembly (.undeclared name owner loc) =>
    .of (.malformed (.undeclaredPlaceholder name owner) (Text.lineAt source loc.line))
      (.ofLoc file loc)

end SyntaxError

inductive Scanned where
  | complete (statements : List Statement)
  /-- The grammar matches the text up to the offset only. -/
  | stopped (offset : Nat)
  | tooDeep

namespace Statement

def scan (text : List Char) : Scanned :=
  match (Grammar.program (Cursor.ofOffset text 0)).verdict with
  | .matched statements next =>
    if next.rest.isEmpty then .complete statements else .stopped next.offset
  | .failed => .stopped 0
  | .tooDeep => .tooDeep

def blankLooking? (statements : List Statement) : Option (Located Symbol) :=
  (statements.flatMap blankLooking).head?

end Statement

namespace Program

inductive Crash where
  | overflow
  deriving DecidableEq, Repr

def Crash.message : Crash → String
  | overflow => "maximum recursion depth exceeded"

end Program

inductive Failed (ε : Type) where
  | refused (reason : ε)
  | crashed (crash : Program.Crash)
  deriving DecidableEq, Repr

def Failed.map {ε ρ : Type} (f : ε → ρ) : Failed ε → Failed ρ
  | refused reason => .refused (f reason)
  | crashed crash => .crashed crash

namespace Program

/-- The failure for a text that the grammar matches up to `stop` only. The line that holds `stop` is
scanned again for the place of the error. It may begin inside a comment, so that brackets come up which
the scan of the text has passed over; if they nest too deeply, nothing is there to report it. -/
def failureAt (text : List Char) (stop : Nat) : Failed SyntaxError :=
  let again := Grammar.line (Cursor.ofOffset text (SyntaxError.lineStart text stop))
  if again.verdict.isTooDeep then .crashed .overflow
  else .refused (.atStop text stop again.failures)

def parse (source file : String) : Except (Failed SyntaxError) Program :=
  let text := source.toList
  match Statement.scan text with
  | .tooDeep => .error (.refused (Nesting.error text))
  | .stopped offset => .error (failureAt text offset)
  | .complete statements =>
    match Statement.blankLooking? statements with
    | some symbol => .error (.refused (.looksBlank symbol))
    | none => (assemble source file statements).mapError fun e => .refused (.assembly e)

end Program

end GenericTuring
