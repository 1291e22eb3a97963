import GenericTuring.Grammar.Lexeme
import GenericTuring.Loc

/-!
Scanners: ordered choice and greedy repetition over a program text. Besides its result a scanner keeps
every failed attempt made on the way, in the order in which the attempts were given up, so that an
error can point at the furthest place that was reached.
-/

namespace GenericTuring.Grammar

inductive Production where
  | program | line | lineEnd | statement | startLine | ruleLine | stateHead | params | reference | args
  | symbol | blank | digit | quoted | movement | name | layout | lineComment
  deriving DecidableEq, Repr

namespace Production

def all : List Production :=
  [program, line, lineEnd, statement, startLine, ruleLine, stateHead, params, reference, args,
  symbol, blank, digit, quoted, movement, name, layout, lineComment]

def label : Production → String
  | program => "program"
  | line => "line"
  | lineEnd => "eol"
  | statement => "statement"
  | startLine => "start_stmt"
  | ruleLine => "rule_stmt"
  | stateHead => "state_head"
  | params => "params"
  | reference => "reference"
  | args => "args"
  | symbol => "symbol"
  | blank => "blank"
  | digit => "digit"
  | quoted => "quoted"
  | movement => "movement"
  | name => "name"
  | layout => "_"
  | lineComment => "line_comment"

def ofLabel? (label : String) : Option Production :=
  all.find? fun p => p.label == label

end Production

structure Cursor where
  rest : List Char
  offset : Nat
  loc : Loc

namespace Cursor

def ofOffset (text : List Char) (offset : Nat) : Cursor :=
  ⟨text.drop offset, offset, Loc.ofOffset text offset⟩

def skip (c : Cursor) (taken rest : List Char) : Cursor :=
  ⟨rest, c.offset + taken.length, c.loc.advance taken⟩

end Cursor

/-- A part of the grammar that was tried at an offset and did not match. Only productions have names. -/
structure Failure where
  production : Option Production
  offset : Nat
  deriving DecidableEq, Repr

inductive Verdict (α : Type) where
  | matched (value : α) (next : Cursor)
  | failed
  /-- References are nested more deeply than a scanner follows them. -/
  | tooDeep

def Verdict.isTooDeep {α : Type} : Verdict α → Bool
  | tooDeep => true
  | _ => false

structure Attempt (α : Type) where
  verdict : Verdict α
  failures : List Failure

def Scanner (α : Type) := Cursor → Attempt α

namespace Scanner

variable {α β : Type}

def succeed (value : α) : Scanner α := fun c => ⟨.matched value c, []⟩

def andThen (p : Scanner α) (f : α → Scanner β) : Scanner β := fun c =>
  match p c with
  | ⟨.matched value next, failures⟩ =>
    let second := f value next
    ⟨second.verdict, failures ++ second.failures⟩
  | ⟨.failed, failures⟩ => ⟨.failed, failures⟩
  | ⟨.tooDeep, failures⟩ => ⟨.tooDeep, failures⟩

instance : Monad Scanner where
  pure := succeed
  bind := andThen

def here : Scanner Loc := fun c => ⟨.matched c.loc c, []⟩

def giveUp : Scanner α := fun _ => ⟨.tooDeep, []⟩

def take (lexeme : Lexeme) : Scanner (List Char) := fun c =>
  match lexeme c.rest with
  | some (taken, rest) => ⟨.matched taken (c.skip taken rest), []⟩
  | none => ⟨.failed, []⟩

def noting (production : Option Production) (p : Scanner α) : Scanner α := fun c =>
  match p c with
  | ⟨.failed, failures⟩ => ⟨.failed, failures ++ [⟨production, c.offset⟩]⟩
  | attempt => attempt

def named (production : Production) (p : Scanner α) : Scanner α := noting (some production) p

def group (p : Scanner α) : Scanner α := noting none p

def literal (text : String) : Scanner (List Char) := group (take (exactly text.toList))

def orElse (p q : Scanner α) : Scanner α := fun c =>
  match p c with
  | ⟨.failed, failures⟩ =>
    let second := q c
    ⟨second.verdict, failures ++ second.failures⟩
  | attempt => attempt

def optional (p : Scanner α) : Scanner (Option α) := fun c =>
  -- At the end of the text the part is not tried.
  if c.rest.isEmpty then ⟨.matched none c, []⟩
  else match p c with
    | ⟨.matched value next, failures⟩ => ⟨.matched (some value) next, failures⟩
    | ⟨.failed, failures⟩ => ⟨.matched none c, failures⟩
    | ⟨.tooDeep, failures⟩ => ⟨.tooDeep, failures⟩

/-- As many repetitions as there are. It stops at the end of the text and after a repetition that takes
nothing. -/
def many (p : Scanner α) (c : Cursor) : Attempt (List α) :=
  if c.rest.isEmpty then ⟨.matched [] c, []⟩
  else match p c with
    | ⟨.matched value next, failures⟩ =>
      if next.rest.length < c.rest.length then
        match many p next with
        | ⟨.matched values last, more⟩ => ⟨.matched (value :: values) last, failures ++ more⟩
        | ⟨.failed, more⟩ => ⟨.failed, failures ++ more⟩
        | ⟨.tooDeep, more⟩ => ⟨.tooDeep, failures ++ more⟩
      else ⟨.matched [value] next, failures⟩
    | ⟨.failed, failures⟩ => ⟨.matched [] c, failures⟩
    | ⟨.tooDeep, failures⟩ => ⟨.tooDeep, failures⟩
termination_by c.rest.length

end Scanner

/-- The failure to report: the latest named one at the furthest offset. A failure without a name counts
only while nothing else has been seen. -/
def furthest (failures : List Failure) : Option Failure :=
  failures.foldl (fun best failure =>
    match best with
    | none => some failure
    | some b =>
      if b.offset ≤ failure.offset && failure.production.isSome then some failure else best) none

end GenericTuring.Grammar
