import GenericTuring.Grammar.Scanner
import GenericTuring.Statement

/-!
The grammar of programs. There is one scanner for each production, and it gives the value that the
matched text stands for.
-/

namespace GenericTuring.Grammar

open Scanner

def layout : Scanner (List Char) := named .layout (take layoutLexeme)

def lineEnd : Scanner (List Char) := named .lineEnd (take lineEndLexeme)

def lineComment : Scanner (List Char) := named .lineComment (take lineCommentLexeme)

def name : Scanner String := named .name do
  return String.ofList (← take nameLexeme)

def movementWord (move : Move) : Scanner Move := do
  let _ ← take (wholeWord move.keyword)
  return move

def movement : Scanner Move :=
  named .movement (orElse (movementWord .prev) (orElse (movementWord .current) (movementWord .next)))

def blank : Scanner Symbol := named .blank do
  let _ ← take (exactly ['_'])
  return .blank

def digit : Scanner Symbol := named .digit do
  return .mark (String.ofList (← take digitLexeme))

def quoted : Scanner Symbol := named .quoted do
  let text ← take quotedLexeme
  return .mark (String.ofList (text.drop 1).dropLast)

def symbol : Scanner Symbol := named .symbol (orElse blank (orElse digit quoted))

def bracketed {α : Type} (item : Scanner α) : Scanner (List α) := do
  let _ ← literal "<"
  let _ ← layout
  let first ← item
  let others ← many (group do
    let _ ← layout
    let _ ← literal ","
    let _ ← layout
    item)
  let _ ← layout
  let _ ← literal ">"
  return first :: others

def params : Scanner (List String) := named .params (bracketed name)

def stateHead : Scanner (String × List String) := named .stateHead do
  let head ← name
  let _ ← layout
  let list ← optional params
  return (head, list.getD [])

def reference : (limit : Nat) → Scanner RawRef
  | 0 => giveUp
  | limit + 1 => named .reference do
    let loc ← here
    let head ← name
    let _ ← layout
    let list ← optional (named .args (bracketed (reference limit)))
    return .ofArgs ⟨head, loc⟩ (list.getD [])

/-- How deeply the arguments of a reference may nest. The number stands for the stack that a scan may
use. How much of the stack a level takes depends on where an argument stands in its list, and that is
not modelled: about 160 levels fit where the first arguments nest, and about 100 where later ones do. -/
def nestingLimit : Nat := 200

def args : Scanner (List RawRef) := named .args (bracketed (reference nestingLimit))

def startLine : Scanner Statement := named .startLine do
  let loc ← here
  let _ ← literal "start"
  let _ ← layout
  let _ ← literal "="
  let _ ← layout
  let target ← reference nestingLimit
  return .start target loc

def locatedSymbol : Scanner (Located Symbol) := do
  let loc ← here
  let value ← symbol
  return ⟨value, loc⟩

def ruleLine : Scanner Statement := named .ruleLine do
  let loc ← here
  let (head, list) ← stateHead
  let _ ← layout
  let read ← locatedSymbol
  let _ ← layout
  let _ ← literal "="
  let _ ← layout
  let write ← locatedSymbol
  let _ ← layout
  let _ ← literal ";"
  let _ ← layout
  let target ← reference nestingLimit
  let _ ← layout
  let move ← movement
  return .rule ⟨head, list, read, write, target, move, loc⟩

def statement : Scanner Statement := named .statement (orElse startLine ruleLine)

def line : Scanner (Option Statement) := named .line do
  let _ ← layout
  let found ← optional statement
  let _ ← layout
  let _ ← optional lineComment
  return found

def program : Scanner (List Statement) := named .program do
  let closed ← many (group do
    let found ← line
    let _ ← lineEnd
    return found)
  let last ← line
  return (closed ++ [last]).filterMap id

def Production.scanner : Production → Scanner Unit
  | .program => (fun _ => ()) <$> Grammar.program
  | .line => (fun _ => ()) <$> Grammar.line
  | .lineEnd => (fun _ => ()) <$> Grammar.lineEnd
  | .statement => (fun _ => ()) <$> Grammar.statement
  | .startLine => (fun _ => ()) <$> Grammar.startLine
  | .ruleLine => (fun _ => ()) <$> Grammar.ruleLine
  | .stateHead => (fun _ => ()) <$> Grammar.stateHead
  | .params => (fun _ => ()) <$> Grammar.params
  | .reference => (fun _ => ()) <$> Grammar.reference nestingLimit
  | .args => (fun _ => ()) <$> Grammar.args
  | .symbol => (fun _ => ()) <$> Grammar.symbol
  | .blank => (fun _ => ()) <$> Grammar.blank
  | .digit => (fun _ => ()) <$> Grammar.digit
  | .quoted => (fun _ => ()) <$> Grammar.quoted
  | .movement => (fun _ => ()) <$> Grammar.movement
  | .name => (fun _ => ()) <$> Grammar.name
  | .layout => (fun _ => ()) <$> Grammar.layout
  | .lineComment => (fun _ => ()) <$> Grammar.lineComment

inductive Reach where
  | whole (length : Nat)
  | part (length : Nat)
  | none (failure : Option Failure)
  | tooDeep

def Production.reach (production : Production) (text : List Char) : Reach :=
  match production.scanner (Cursor.ofOffset text 0) with
  | ⟨.matched _ next, _⟩ => if next.rest.isEmpty then .whole next.offset else .part next.offset
  | ⟨.failed, failures⟩ => .none (furthest failures)
  | ⟨.tooDeep, _⟩ => .tooDeep

end GenericTuring.Grammar
