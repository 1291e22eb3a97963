import GenericTuring.Proofs.Spelling
import GenericTuring.Proofs.Terms

/-!
The written form of programs, said without scanning: lines with at most one statement each, whose tokens
stand in order with layout around them. Where a statement keeps the place of a token, the token stands
at that place.
-/

namespace GenericTuring

namespace Grammar

structure Cursor.Passes (c : Cursor) (taken : List Char) (next : Cursor) : Prop where
  rest_eq : c.rest = taken ++ next.rest
  offset_eq : next.offset = c.offset + taken.length
  loc_eq : next.loc = c.loc.advance taken

/-- What follows the opening of a comment: it ends with the first `*/` in it. -/
def Closing (body : List Char) : Prop :=
  ∃ inner, body = inner ++ ['*', '/'] ∧ ¬ ['*', '/'] <:+: inner ++ ['*']

inductive Layout : List Char → Prop
  | nil : Layout []
  | blank {c : Char} {rest : List Char} (hc : c = ' ' ∨ c = '\t') (hrest : Layout rest) :
      Layout (c :: rest)
  | comment {body rest : List Char} (hbody : Closing body) (hrest : Layout rest) :
      Layout ('/' :: '*' :: (body ++ rest))

def Gap (c next : Cursor) : Prop := ∃ gap, Layout gap ∧ c.Passes gap next

inductive Token where
  | start
  | name (text : String)
  | symbol (s : Symbol)
  | move (m : Move)
  | sign (c : Char)
  deriving DecidableEq

def signs : List Char := ['=', ';', '<', '>', ',']

namespace Token

/-- How a token is spelt before the characters `rest`. No keyword is a name, and a name takes in all the
name characters there are. A digit may be quoted or not. -/
inductive Spells : Token → (word rest : List Char) → Prop
  | start {rest : List Char} : Spells .start "start".toList rest
  | name {text : String} {rest : List Char} (hname : IsName text) (hkeyword : text ∉ keywords)
      (hrest : ∀ c ∈ rest.head?, isNameChar c = false) : Spells (.name text) text.toList rest
  | blank {rest : List Char} : Spells (.symbol .blank) ['_'] rest
  | digit {c : Char} {rest : List Char} (hc : c.isDigit = true) :
      Spells (.symbol (.mark (String.singleton c))) [c] rest
  | quoted {c : Char} {rest : List Char} (hcr : c ≠ '\r') (hlf : c ≠ '\n') :
      Spells (.symbol (.mark (String.singleton c))) ['\'', c, '\''] rest
  | move {m : Move} {rest : List Char} : Spells (.move m) m.keyword.toList rest
  | sign {c : Char} {rest : List Char} (hc : c ∈ signs) : Spells (.sign c) [c] rest

def Stands (token : Token) (c next : Cursor) : Prop :=
  ∃ word, token.Spells word next.rest ∧ c.Passes word next

end Token

abbrev Placed := Token × Option Loc

inductive Spaced : Cursor → List Placed → Cursor → Prop
  | done {c next : Cursor} (hgap : Gap c next) : Spaced c [] next
  | token {c here after next : Cursor} {token : Token} {place : Option Loc} {tokens : List Placed}
      (hgap : Gap c here) (hplace : ∀ loc ∈ place, here.loc = loc) (htoken : token.Stands here after)
      (hrest : Spaced after tokens next) : Spaced c ((token, place) :: tokens) next

def sign (c : Char) : Placed := (.sign c, none)

def listTokens : List (List Placed) → List Placed
  | [] => []
  | first :: others => sign '<' :: (first ++ others.flatMap (sign ',' :: ·) ++ [sign '>'])

end Grammar

open Grammar

def RawRef.tokens (ref : RawRef) : List Placed :=
  (.name ref.name, some ref.loc) :: listTokens (ref.args.attach.map fun arg => RawRef.tokens arg.1)
termination_by Term.depth ref
decreasing_by
  exact Term.depth_lt_of_mem_inner (Term.mem_inner_of_mem_args arg.2 (Term.self_mem_subterms _))

theorem RawRef.tokens_eq (ref : RawRef) : RawRef.tokens ref =
    (.name ref.name, some ref.loc) :: listTokens ((Term.args ref).map RawRef.tokens) := by
  rw [RawRef.tokens]
  simp

theorem RawRef.tokens_ofArgs (head : String) (loc : Loc) (args : List RawRef) :
    RawRef.tokens (.ofArgs ⟨head, loc⟩ args) =
      (.name head, some loc) :: listTokens (args.map RawRef.tokens) := by
  rw [RawRef.tokens_eq, RawRef.name, RawRef.loc, Term.head_ofArgs, Term.args_ofArgs]

def RuleLine.tokens (line : RuleLine) : List Placed :=
  (.name line.head, some line.loc) :: listTokens (line.params.map fun x => [(.name x, none)]) ++
    [(.symbol line.read.val, some line.read.loc), sign '=',
      (.symbol line.write.val, some line.write.loc), sign ';'] ++
    RawRef.tokens line.target ++ [(.move line.move, none)]

namespace Statement

def tokens : Statement → List Placed
  | start target loc => (.start, some loc) :: sign '=' :: RawRef.tokens target
  | rule line => line.tokens

def target : Statement → RawRef
  | start target _ => target
  | rule line => line.target

end Statement

namespace Grammar

def Inscribed (c : Cursor) (found : Option Statement) (next : Cursor) : Prop :=
  ∃ mid, Spaced c (found.elim [] Statement.tokens) mid ∧
    (mid = next ∨ ∃ body, mid.Passes ('/' :: '/' :: body) next ∧ ∀ x ∈ body, x ≠ '\r' ∧ x ≠ '\n')

def Breaks (c next : Cursor) : Prop := c.Passes ['\n'] next ∨ c.Passes ['\r', '\n'] next

inductive Lines : Cursor → List Statement → Prop
  | last {c next : Cursor} {found : Option Statement} (hline : Inscribed c found next)
      (hend : next.rest = []) : Lines c found.toList
  | more {c mid next : Cursor} {found : Option Statement} {statements : List Statement}
      (hline : Inscribed c found mid) (hbreak : Breaks mid next) (hrest : Lines next statements) :
      Lines c (found.toList ++ statements)

def Written (text : List Char) (statements : List Statement) : Prop :=
  Lines (Cursor.ofOffset text 0) statements

end Grammar

end GenericTuring
