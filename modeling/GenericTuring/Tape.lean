import Std.Data.TreeMap
import GenericTuring.Symbol
import GenericTuring.Text.Quoted

/-!
Tapes: cells numbered by the integers, all but finitely many of them blank.
-/

namespace GenericTuring

/-- The cells that carry a mark. A cell also remembers when it was first marked, which orders the
listing of a tape and nothing else. -/
structure Tape where
  marks : Std.TreeMap Int String
  order : Std.TreeMap Int Nat
  clock : Nat

namespace Tape

def empty : Tape := ⟨∅, ∅, 0⟩

def read (t : Tape) (pos : Int) : Symbol :=
  match t.marks[pos]? with
  | some text => .mark text
  | none => .blank

def write (t : Tape) (pos : Int) : Symbol → Tape
  -- Writing the blank takes the mark away.
  | .blank => ⟨t.marks.erase pos, t.order.erase pos, t.clock⟩
  | .mark text =>
    if t.marks.contains pos then { t with marks := t.marks.insert pos text }
    else ⟨t.marks.insert pos text, t.order.insert pos t.clock, t.clock + 1⟩

def ofCells (cells : List (Int × Symbol)) : Tape :=
  -- Where a position is repeated the last symbol counts.
  let last := fun pos => (cells.reverse.lookup pos).getD .blank
  (cells.map Prod.fst).eraseDups.foldl (fun t pos => t.write pos (last pos)) empty

def ofText (text : String) (offset : Int := 0) : Tape :=
  (text.toList.zipIdx.map fun (c, i) => (offset + (i : Int), Symbol.ofChar c)).foldl
    (fun t cell => t.write cell.1 cell.2) empty

def cells (t : Tape) : List (Int × String) := t.marks.toList

def size (t : Tape) : Nat := t.marks.size

def same (t u : Tape) : Bool := t.cells == u.cells

def bounds (t : Tape) : Option (Int × Int) := do
  return (← t.marks.minKey?, ← t.marks.maxKey?)

def positions (lo hi : Int) : List Int :=
  (List.range (hi - lo + 1).toNat).map fun (i : Nat) => lo + (i : Int)

def window (t : Tape) (center radius : Int) : List Symbol :=
  (positions (center - radius) (center + radius)).map t.read

def renderCells (symbols : List Symbol) (empty : String := "_") : String :=
  String.join (symbols.map (Symbol.cell empty))

def render (t : Tape) (empty : String := "_") : String :=
  match t.bounds with
  | none => ""
  | some (lo, hi) => renderCells ((positions lo hi).map t.read) empty

def listing (t : Tape) : List (Int × String) :=
  t.cells.mergeSort fun a b => (t.order[a.1]?).getD 0 ≤ (t.order[b.1]?).getD 0

def description (t : Tape) : String :=
  let cell := fun (c : Int × String) => toString c.1 ++ ": " ++ Text.quoted c.2
  "Tape(\x7b" ++ ", ".intercalate (t.listing.map cell) ++ "\x7d)"

end Tape

end GenericTuring
