/-!
Places in a program text. Lines and columns count from one, and a line ends at a line feed.
-/

namespace GenericTuring

structure Loc where
  line : Nat
  column : Nat
  deriving DecidableEq, Repr, Inhabited

namespace Loc

def start : Loc := ⟨1, 1⟩

def step (loc : Loc) (c : Char) : Loc :=
  if c = '\n' then ⟨loc.line + 1, 1⟩ else ⟨loc.line, loc.column + 1⟩

def advance (loc : Loc) (cs : List Char) : Loc := cs.foldl step loc

def ofOffset (text : List Char) (offset : Nat) : Loc := start.advance (text.take offset)

def inFile (loc : Loc) (file : String) : String :=
  s!"{file}:{loc.line}:{loc.column}"

theorem advance_append (loc : Loc) (xs ys : List Char) :
    loc.advance (xs ++ ys) = (loc.advance xs).advance ys :=
  List.foldl_append

end Loc

structure Located (α : Type) where
  val : α
  loc : Loc
  deriving DecidableEq, Repr

end GenericTuring
