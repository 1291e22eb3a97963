import GenericTuring.Program

/-!
Tables: the transitions of the concrete states that a program gives rise to.
-/

namespace GenericTuring

structure Transition where
  write : Symbol
  target : Key
  move : Move
  /-- The place of the rule that the transition comes from. -/
  loc : Loc
  deriving DecidableEq, Repr

abbrev Row := List (Symbol × Transition)

/-- The accepting state is no part of a table: it is `Key.finish` for all of them. -/
structure Table where
  start : Key
  /-- A row for each state, in the order in which states are first reached. -/
  rows : List (Key × Row)
  /-- The definitions that no state comes from. -/
  unreachable : List Definition
  program : Option Program

namespace Table

def keys (t : Table) : List Key := t.rows.map Prod.fst

def row (t : Table) (key : Key) : Row := (t.rows.lookup key).getD []

def lookup (t : Table) (key : Key) (symbol : Symbol) : Option Transition :=
  (t.row key).lookup symbol

def transitions (t : Table) : List (Key × Symbol × Transition) :=
  t.rows.flatMap fun (key, row) => row.map fun (symbol, tr) => (key, symbol, tr)

def instancesOf (t : Table) (name : String) : List Key := t.keys.filter fun key => key.head = name

def sourceLine (t : Table) (line : Nat) : String :=
  match t.program with
  | some p => p.sourceLine line
  | none => ""

end Table

end GenericTuring
