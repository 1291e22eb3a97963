import GenericTuring.Move
import GenericTuring.Text.Word

/-!
The smallest pieces of a program text. Each function splits a piece off the front of the text and gives
back the piece and the rest, or nothing if no such piece stands there.
-/

namespace GenericTuring.Grammar

abbrev Lexeme := List Char → Option (List Char × List Char)

def exactly : List Char → Lexeme
  | [], text => some ([], text)
  | _ :: _, [] => none
  | p :: ps, c :: cs => if p = c then (exactly ps cs).map fun s => (c :: s.1, s.2) else none

def oneOf (test : Char → Bool) : Lexeme
  | [] => none
  | c :: cs => if test c then some ([c], cs) else none

def commentEnd : Lexeme
  | [] => none
  | '*' :: '/' :: cs => some (['*', '/'], cs)
  | c :: cs => (commentEnd cs).map fun s => (c :: s.1, s.2)

theorem commentEnd_append {text taken rest : List Char}
    (h : commentEnd text = some (taken, rest)) : taken ++ rest = text := by
  fun_induction commentEnd text generalizing taken with
  | case1 => simp at h
  | case2 cs =>
    obtain ⟨rfl, rfl⟩ := Prod.mk.inj (Option.some.inj h)
    rfl
  | case3 c cs _ ih =>
    obtain ⟨s, hs, heq⟩ := Option.map_eq_some_iff.1 h
    obtain ⟨rfl, rfl⟩ := Prod.mk.inj heq
    simp [ih hs]

def layoutSplit (text : List Char) : List Char × List Char :=
  -- A comment that nothing closes is no layout.
  match text with
  | '/' :: '*' :: cs =>
    match _h : commentEnd cs with
    | none => ([], text)
    | some (comment, rest) =>
      let more := layoutSplit rest
      ('/' :: '*' :: comment ++ more.1, more.2)
  | c :: cs =>
    if c = ' ' || c = '\t' then
      let more := layoutSplit cs
      (c :: more.1, more.2)
    else ([], text)
  | [] => ([], [])
termination_by text.length
decreasing_by
  · have := congrArg List.length (commentEnd_append _h)
    simp at this ⊢
    omega
  · simp

def layoutLexeme : Lexeme := fun text => some (layoutSplit text)

def lineCommentLexeme : Lexeme
  | '/' :: '/' :: cs =>
    let inLine := fun c => c != '\r' && c != '\n'
    some ('/' :: '/' :: cs.takeWhile inLine, cs.dropWhile inLine)
  | _ => none

def lineEndLexeme : Lexeme
  | '\n' :: cs => some (['\n'], cs)
  | '\r' :: '\n' :: cs => some (['\r', '\n'], cs)
  | _ => none

def wholeWord (word : String) : Lexeme := fun text =>
  (exactly word.toList text).filter fun s => Text.atWordEnd s.2

def keywords : List String := "start" :: Move.all.map Move.keyword

def isNameStart (c : Char) : Bool := c.isAlpha

def isNameChar (c : Char) : Bool := c.isAlphanum || c == '_'

def nameLexeme : Lexeme
  | [] => none
  | c :: cs =>
    if isNameStart c && !keywords.any fun w => (wholeWord w (c :: cs)).isSome then
      some (c :: cs.takeWhile isNameChar, cs.dropWhile isNameChar)
    else none

def digitLexeme : Lexeme := oneOf Char.isDigit

def quotedLexeme : Lexeme
  | '\'' :: c :: '\'' :: cs =>
    if c != '\r' && c != '\n' then some (['\'', c, '\''], cs) else none
  | _ => none

end GenericTuring.Grammar
