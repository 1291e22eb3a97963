import GenericTuring.Proofs.Places
import GenericTuring.Proofs.ProgramText
import GenericTuring.Proofs.Texts
import Mathlib

/-!
Rule lines as they are printed. A printed line is scanned into the line it was printed from, its places
aside, exactly if both symbols are spelt as programs have them. A digit sign of another script is
spelt bare, as if it were a digit of programs, and no program has it so.
-/

namespace GenericTuring

open Grammar

section Printing

def Grammar.listText : List (List Char) → List Char
  | [] => []
  | first :: others => '<' :: (first ++ others.flatMap (fun item => ',' :: ' ' :: item) ++ ['>'])

theorem Grammar.listText_concat {items : List (List Char)} (h : items ≠ []) (item : List Char) :
    listText (items ++ [item]) = (listText items).dropLast ++ ',' :: ' ' :: item ++ ['>'] := by
  cases items with
  | nil => simp at h
  | cons first others =>
    have hends : listText (first :: others) =
        '<' :: (first ++ others.flatMap fun item => ',' :: ' ' :: item) ++ ['>'] := by simp [listText]
    rw [hends, List.dropLast_concat]
    simp [listText]

theorem Grammar.mem_listText {items : List (List Char)} {c : Char} (h : c ∈ listText items) :
    c ∈ ['<', '>', ',', ' '] ∨ ∃ item ∈ items, c ∈ item := by
  cases items with
  | nil => simp [listText] at h
  | cons first others =>
    simp only [listText, List.mem_cons, List.mem_append, List.mem_flatMap, List.not_mem_nil, or_false] at h
    rcases h with rfl | (hfirst | ⟨item, hitem, rfl | rfl | hc⟩) | rfl
    · simp
    · exact .inr ⟨first, List.mem_cons_self, hfirst⟩
    · simp
    · simp
    · exact .inr ⟨item, List.mem_cons_of_mem first hitem, hc⟩
    · simp

theorem Term.argList_app {α : Type} (spell : α → String) (f x : Term α) :
    '<' :: (argList spell (app f x)).toList ++ ['>'] =
      listText ((app f x).args.map fun y => (written spell y).toList) := by
  induction f generalizing x with
  | atom a => simp [argList, args, listText, written]
  | app g y ihg _ =>
    have hne : (app g y).args.map (fun z => (written spell z).toList) ≠ [] := by simp [args]
    have hargs : (app (app g y) x).args = (app g y).args ++ [x] := rfl
    rw [hargs, List.map_append, List.map_singleton, listText_concat hne, ← ihg y, List.dropLast_concat]
    simp [argList, written]

theorem Term.toList_written {α : Type} (spell : α → String) (t : Term α) :
    (written spell t).toList =
      (spell t.head).toList ++ listText (t.args.map fun x => (written spell x).toList) := by
  cases t with
  | atom a => simp [written, withArgs, head, args, listText]
  | app f x =>
    rw [← argList_app]
    simp [written, withArgs, head]

theorem Term.depth_map {α β : Type} (f : α → β) (t : Term α) : (t.map f).depth = t.depth := by
  induction t with
  | atom a => rfl
  | app g x ihg ihx => exact congrArg₂ (fun m n => max m (n + 1)) ihg ihx

def RuleLine.text (line : RuleLine) : String :=
  Term.written id (.ofArgs line.head (line.params.map .atom)) ++ " " ++ line.read.val.spelling ++ " = " ++
    line.write.val.spelling ++ "; " ++ RawRef.text line.target ++ " " ++ line.move.keyword

def RuleLine.opening (line : RuleLine) : List Char :=
  line.head.toList ++ listText (line.params.map String.toList) ++ [' ']

theorem RuleLine.toList_text (line : RuleLine) : line.text.toList =
    line.opening ++ line.read.val.spelling.toList ++ " = ".toList ++ line.write.val.spelling.toList ++
      "; ".toList ++ (RawRef.text line.target).toList ++ [' '] ++ line.move.keyword.toList := by
  have hparams : (line.params.map Term.atom).map (fun x => (Term.written id x).toList) =
      line.params.map String.toList := by
    simp [Term.written, Term.withArgs]
  simp only [text, opening, String.toList_append]
  rw [Term.toList_written, Term.head_ofArgs, Term.args_ofArgs, hparams]
  rfl

end Printing

section Symbols

def Symbol.Misspelt : Symbol → Prop
  | .blank => False
  | .mark text => Text.isDigits text = true ∧ text.toList.all Char.isDigit = false

instance : DecidablePred Symbol.Misspelt
  | .blank => inferInstanceAs (Decidable False)
  | .mark _ => inferInstanceAs (Decidable (_ ∧ _))

theorem Text.isDigits_singleton (c : Char) : isDigits (String.singleton c) = isDigitSign c := by
  simp [isDigits]

theorem Text.isDigitSign_of_isDigit {c : Char} (h : c.isDigit = true) : isDigitSign c = true := by
  obtain ⟨hlo, hhi⟩ := Bool.and_eq_true_iff.1 h
  have hrange : 0x30 ≤ c.toNat ∧ c.toNat ≤ 0x39 := ⟨of_decide_eq_true hlo, of_decide_eq_true hhi⟩
  simp [isDigitSign, CodeRanges.contains, decimalRanges, hrange]

/-- All other digit signs come after the digits of programs. -/
theorem Text.le_toNat_of_isDigitSign {c : Char} (h : isDigitSign c = true) (hdigit : c.isDigit = false) :
    0xb2 ≤ c.toNat := by
  have hranges : (decimalRanges ++ ornamentalDigitRanges).all
      (fun r => r == (0x30, 0x39) || 0xb2 ≤ r.1) = true := by decide
  obtain ⟨r, hr, hbounds⟩ := exists_range_of_isDigitSign h
  have hkind := List.all_eq_true.1 hranges r hr
  simp only [Bool.or_eq_true, beq_iff_eq, decide_eq_true_eq] at hkind
  rcases hkind with rfl | hlarge
  · have hsmall : c.isDigit = true :=
      Bool.and_eq_true_iff.2 ⟨decide_eq_true hbounds.1, decide_eq_true hbounds.2⟩
    simp [hsmall] at hdigit
  · omega

theorem Symbol.exists_of_misspelt {s : Symbol} (hs : IsSymbol s) (h : s.Misspelt) :
    ∃ c, s.spelling.toList = [c] ∧ Text.isDigitSign c = true ∧ c.isDigit = false := by
  cases s with
  | blank => exact h.elim
  | mark text =>
    obtain ⟨c, rfl, _, _⟩ := hs
    obtain ⟨hdigits, hall⟩ := h
    refine ⟨c, by simp [spelling, hdigits], ?_, by simpa using hall⟩
    rwa [Text.isDigits_singleton] at hdigits

/-- A symbol is spelt as programs have it unless it is misspelt. -/
theorem Symbol.spells_spelling {s : Symbol} (hs : IsSymbol s) (h : ¬ s.Misspelt) (rest : List Char) :
    (Token.symbol s).Spells s.spelling.toList rest := by
  cases s with
  | blank => exact .blank
  | mark text =>
    obtain ⟨c, rfl, hcr, hlf⟩ := hs
    by_cases hc : c.isDigit = true
    · have hspelling : (Symbol.mark (String.singleton c)).spelling.toList = [c] := by
        simp [spelling, Text.isDigits_singleton, Text.isDigitSign_of_isDigit hc]
      rw [hspelling]
      exact .digit hc
    · have hspelling : (Symbol.mark (String.singleton c)).spelling.toList = ['\'', c, '\''] := by
        have hsign : Text.isDigits (String.singleton c) = false := by
          simpa [Misspelt, hc] using h
        simp [spelling, hsign]
      rw [hspelling]
      exact .quoted hcr hlf

theorem Symbol.not_misspelt_of_spells {s : Symbol} {rest : List Char}
    (h : (Token.symbol s).Spells s.spelling.toList rest) : ¬ s.Misspelt := by
  intro hmisspelt
  obtain ⟨c, hspelling, _, hdigit⟩ := exists_of_misspelt h.isSymbol hmisspelt
  rw [hspelling] at h
  cases h with
  | blank => exact hmisspelt
  | digit hc => simp [hc] at hdigit

def Symbol.ReadsBack (s : Symbol) : Prop :=
  ∃ next, Grammar.symbol.Matches (Cursor.ofOffset s.spelling.toList 0) s next ∧ next.rest = []

theorem Symbol.readsBack_iff {s : Symbol} (hs : IsSymbol s) : s.ReadsBack ↔ ¬ s.Misspelt := by
  constructor
  · rintro ⟨next, hmatch, hend⟩
    obtain ⟨word, hspells, hpass⟩ := stands_of_symbol hmatch
    have hword : s.spelling.toList = word := by simpa [Cursor.ofOffset, hend] using hpass.rest_eq
    exact not_misspelt_of_spells (hword ▸ hspells)
  · intro h
    let c := Cursor.ofOffset s.spelling.toList 0
    have hpass : c.Passes s.spelling.toList (c.skip s.spelling.toList []) :=
      Cursor.passes_skip (by simp [c, Cursor.ofOffset])
    exact ⟨_, matches_symbol ⟨_, spells_spelling hs h [], hpass⟩, rfl⟩

end Symbols

namespace Grammar

def Spread (c : Cursor) (tokens : List Placed) (next : Cursor) : Prop :=
  ∀ rest last, Spaced next rest last → Spaced c (tokens ++ rest) last

section Spreading

variable {c mid next : Cursor} {tokens more : List Placed} {rest : List Char}

theorem Spread.append (h : Spread c tokens mid) (hmore : Spread mid more next) :
    Spread c (tokens ++ more) next := by
  intro rest last hrest
  rw [List.append_assoc]
  exact h _ _ (hmore rest last hrest)

theorem Spread.refl (c : Cursor) : Spread c [] c := fun _ _ hrest => hrest

theorem exists_spread_token {token : Token} {word : List Char} (hspells : token.Spells word rest)
    (hrest : c.rest = word ++ rest) (place : Option Loc) (hplace : ∀ loc ∈ place, c.loc = loc) :
    ∃ next, next.rest = rest ∧ Spread c [(token, place)] next :=
  ⟨c.skip word rest, rfl, fun _ _ hmore =>
    Token.Stands.spaced ⟨word, hspells, Cursor.passes_skip hrest⟩ hplace hmore⟩

theorem exists_spread_sign {x : Char} (hx : x ∈ signs) (hrest : c.rest = x :: rest) :
    ∃ next, next.rest = rest ∧ Spread c [sign x] next :=
  exists_spread_token (Token.Spells.sign hx) hrest none (by simp)

theorem exists_spread_space (hrest : c.rest = ' ' :: rest) :
    ∃ next, next.rest = rest ∧ Spread c [] next :=
  ⟨c.skip [' '] rest, rfl, fun _ _ hmore =>
    Gap.spaced ⟨[' '], .blank (.inl rfl) .nil, Cursor.passes_skip hrest⟩ hmore⟩

theorem exists_spread_sign_space {x : Char} (hx : x ∈ signs) (hrest : c.rest = x :: ' ' :: rest) :
    ∃ next, next.rest = rest ∧ Spread c [sign x] next := by
  obtain ⟨mid, hmid, hsign⟩ := exists_spread_sign hx hrest
  obtain ⟨next, hnext, hgap⟩ := exists_spread_space hmid
  exact ⟨next, hnext, hsign.append hgap⟩

theorem exists_spread_symbol {s : Symbol} (hs : IsSymbol s) (h : ¬ s.Misspelt)
    (hrest : c.rest = s.spelling.toList ++ rest) :
    ∃ next, next.rest = rest ∧ Spread c [(.symbol s, some c.loc)] next :=
  exists_spread_token (Symbol.spells_spelling hs h rest) hrest (some c.loc) (by simp)

end Spreading

/-- Where the text stands before anything that cannot belong to a name, there are the tokens of a value
that is the same. -/
def Rereads {α : Type} (tokens : α → List Placed) (same : α → α → Prop) (value : α)
    (text : List Char) : Prop :=
  ∀ ⦃c rest⦄, c.rest = text ++ rest → (∀ x ∈ rest.head?, isNameChar x = false) →
    ∃ again next, same value again ∧ next.rest = rest ∧ Spread c (tokens again) next

section Lists

variable {α : Type} {tokens : α → List Placed} {same : α → α → Prop} {values : List α}
  {texts : List (List Char)} {c : Cursor} {rest : List Char}

theorem exists_spread_others (h : List.Forall₂ (Rereads tokens same) values texts)
    (hrest : c.rest = texts.flatMap (fun item => ',' :: ' ' :: item) ++ '>' :: rest) :
    ∃ again next, List.Forall₂ same values again ∧ next.rest = '>' :: rest ∧
      Spread c (again.flatMap fun value => sign ',' :: tokens value) next := by
  induction h generalizing c with
  | nil => exact ⟨[], c, .nil, hrest, .refl c⟩
  | @cons value text values texts hvalue _ ih =>
    simp only [List.flatMap_cons, List.cons_append, List.append_assoc] at hrest
    obtain ⟨afterComma, hcomma, hsign⟩ := exists_spread_sign_space (by decide) hrest
    obtain ⟨again, afterItem, hsame, hitem, htokens⟩ := hvalue hcomma (by cases texts <;> simp <;> decide)
    obtain ⟨others, next, hothers, hend, hmore⟩ := ih hitem
    refine ⟨again :: others, next, .cons hsame hothers, hend, ?_⟩
    exact hsign.append (htokens.append hmore)

/-- A printed list is one of the same values. -/
theorem exists_spread_list (h : List.Forall₂ (Rereads tokens same) values texts)
    (hrest : c.rest = listText texts ++ rest) :
    ∃ again next, List.Forall₂ same values again ∧ next.rest = rest ∧
      Spread c (listTokens (again.map tokens)) next := by
  cases h with
  | nil => exact ⟨[], c, .nil, hrest, .refl c⟩
  | @cons value text values texts hvalue hvalues =>
    simp only [listText, List.cons_append, List.append_assoc, List.nil_append] at hrest
    obtain ⟨afterOpen, hopen, hsign⟩ := exists_spread_sign (by decide) hrest
    obtain ⟨again, afterItem, hsame, hitem, htokens⟩ := hvalue hopen (by cases texts <;> simp <;> decide)
    obtain ⟨others, beforeClose, hothers, hend, hmore⟩ := exists_spread_others hvalues hitem
    obtain ⟨next, hnext, hclose⟩ := exists_spread_sign (by decide) hend
    refine ⟨again :: others, next, .cons hsame hothers, hnext, ?_⟩
    rw [List.map_cons, listTokens, List.flatMap_map]
    exact hsign.append ((htokens.append hmore).append hclose)

end Lists

def IsFree (x : String) : Prop := IsName x ∧ x ∉ keywords

theorem rereads_name {x : String} (h : IsFree x) :
    Rereads (fun x => [(.name x, none)]) Eq x x.toList := by
  intro c rest hrest hnot
  obtain ⟨next, hnext, hspread⟩ := exists_spread_token (.name h.1 h.2 hnot) hrest none (by simp)
  exact ⟨x, next, rfl, hnext, hspread⟩

end Grammar

def RawRef.SameAs (ref again : RawRef) : Prop :=
  Term.map (fun a => a.val) ref = Term.map (fun a => a.val) again

theorem RawRef.SameAs.ofArgs {ref : RawRef} {args : List RawRef} (loc : Loc)
    (h : List.Forall₂ RawRef.SameAs (Term.args ref) args) :
    RawRef.SameAs ref (.ofArgs ⟨ref.name, loc⟩ args) := by
  have hargs : (Term.args ref).map (Term.map fun a => a.val) = args.map (Term.map fun a => a.val) :=
    map_eq_map_of_forall₂ h fun _ _ hsame => hsame
  rw [SameAs, ← Term.ofArgs_head_args (Term.map _ ref),
    ← Term.ofArgs_head_args (Term.map _ (Term.ofArgs _ args)), Term.head_map, Term.head_map,
    Term.args_map, Term.args_map, Term.head_ofArgs, Term.args_ofArgs, hargs]
  rfl

theorem RawRef.SameAs.depth_eq {ref again : RawRef} (h : RawRef.SameAs ref again) :
    Term.depth ref = Term.depth again := by
  rw [← Term.depth_map (fun a => a.val) ref, h, Term.depth_map]

theorem RawRef.toList_text (ref : RawRef) : (RawRef.text ref).toList =
    ref.name.toList ++ listText ((Term.args ref).map fun arg => (RawRef.text arg).toList) :=
  Term.toList_written _ ref

/-- A printed reference is one to the same. -/
theorem RawRef.rereads {ref : RawRef} (h : ∀ a ∈ Term.atoms ref, IsFree a.val) :
    Rereads RawRef.tokens RawRef.SameAs ref (RawRef.text ref).toList := by
  fun_induction RawRef.tokens ref with
  | case1 ref ih =>
    have hargs : List.Forall₂ (Rereads RawRef.tokens RawRef.SameAs) (Term.args ref)
        ((Term.args ref).map fun arg => (RawRef.text arg).toList) := by
      rw [List.forall₂_map_right_iff, List.forall₂_same]
      intro arg harg
      exact ih ⟨arg, harg⟩ fun a ha => h a (Term.mem_atoms_of_mem_args harg ha)
    intro c rest hrest hnot
    rw [RawRef.toList_text, List.append_assoc] at hrest
    obtain ⟨hname, hkeyword⟩ := h _ (Term.head_mem_atoms ref)
    have hafter : ∀ x ∈ (listText ((Term.args ref).map fun arg => (RawRef.text arg).toList) ++ rest).head?,
        isNameChar x = false := by
      cases hlist : Term.args ref with
      | nil => simpa [listText] using hnot
      | cons first others => simp [listText]; decide
    obtain ⟨mid, hmid, hhead⟩ :=
      exists_spread_token (.name hname hkeyword hafter) hrest (some c.loc) (by simp)
    obtain ⟨args, next, hsame, hnext, hlist⟩ := exists_spread_list hargs hmid
    refine ⟨.ofArgs ⟨ref.name, c.loc⟩ args, next, SameAs.ofArgs c.loc hsame, hnext, ?_⟩
    rw [RawRef.tokens_ofArgs]
    exact hhead.append hlist

structure RuleLine.SameAs (line again : RuleLine) : Prop where
  head : line.head = again.head
  params : line.params = again.params
  read : line.read.val = again.read.val
  write : line.write.val = again.write.val
  target : RawRef.SameAs line.target again.target
  move : line.move = again.move

structure RuleLine.Writable (line : RuleLine) : Prop where
  head : IsFree line.head
  params : ∀ x ∈ line.params, IsFree x
  read : IsSymbol line.read.val
  write : IsSymbol line.write.val
  target : ∀ a ∈ Term.atoms line.target, IsFree a.val

theorem Grammar.Written.writable {text : List Char} {statements : List Statement}
    (h : Written text statements) {line : RuleLine} (hline : .rule line ∈ statements) :
    line.Writable := by
  have hname : ∀ x place, ((.name x, place) : Placed) ∈ line.tokens → IsFree x := by
    intro x place hx
    obtain ⟨_, _, hspells⟩ := h.spells hline hx
    exact hspells.name_free
  obtain ⟨_, _, hread⟩ : ∃ word rest, (Token.symbol line.read.val).Spells word rest :=
    h.spells hline (t := (_, some line.read.loc)) (by simp [Statement.tokens, RuleLine.tokens])
  obtain ⟨_, _, hwrite⟩ : ∃ word rest, (Token.symbol line.write.val).Spells word rest :=
    h.spells hline (t := (_, some line.write.loc)) (by simp [Statement.tokens, RuleLine.tokens])
  refine ⟨hname _ (some line.loc) ?_, fun x hx => hname x none ?_, hread.isSymbol, hwrite.isSymbol,
    fun a ha => hname _ (some a.loc) ?_⟩
  · exact List.mem_cons_self
  · have hitem : [((Token.name x, none) : Placed)] ∈ line.params.map fun x => [(.name x, none)] :=
      List.mem_map.2 ⟨x, hx, rfl⟩
    simp [RuleLine.tokens, mem_listTokens hitem (List.mem_singleton_self _)]
  · simp [RuleLine.tokens, RawRef.mem_tokens_of_mem_atoms ha]

theorem RuleLine.Writable.exists_spread_opening {line : RuleLine} (h : line.Writable) {c : Cursor}
    {rest : List Char} (hrest : c.rest = line.opening ++ rest) :
    ∃ next, next.rest = rest ∧ Spread c
      ((.name line.head, some c.loc) :: listTokens (line.params.map fun x => [(.name x, none)])) next := by
  have hparams : List.Forall₂ (Rereads (fun x => [(.name x, none)]) Eq) line.params
      (line.params.map String.toList) := by
    rw [List.forall₂_map_right_iff, List.forall₂_same]
    exact fun x hx => rereads_name (h.params x hx)
  rw [RuleLine.opening, List.append_assoc, List.append_assoc] at hrest
  have hafter : ∀ x ∈ (listText (line.params.map String.toList) ++ ([' '] ++ rest)).head?,
      isNameChar x = false := by
    cases line.params <;> simp [listText] <;> decide
  obtain ⟨afterHead, hhead, hname⟩ :=
    exists_spread_token (.name h.head.1 h.head.2 hafter) hrest (some c.loc) (by simp)
  obtain ⟨params, afterList, hsame, hlist, htokens⟩ := exists_spread_list hparams hhead
  obtain rfl : line.params = params := List.forall₂_eq_eq_eq ▸ hsame
  obtain ⟨next, hnext, hgap⟩ := exists_spread_space hlist
  refine ⟨next, hnext, ?_⟩
  have hspread := (hname.append htokens).append hgap
  rwa [List.append_nil] at hspread

/-- A printed line whose symbols are spelt right is a program of the same line. -/
theorem RuleLine.Writable.exists_written {line : RuleLine} (h : line.Writable)
    (hread : ¬ line.read.val.Misspelt) (hwrite : ¬ line.write.val.Misspelt) :
    ∃ again, line.SameAs again ∧ Written line.text.toList [.rule again] := by
  let c := Cursor.ofOffset line.text.toList 0
  have hrest : c.rest = line.opening ++ (line.read.val.spelling.toList ++ ' ' :: '=' :: ' ' ::
      (line.write.val.spelling.toList ++ ';' :: ' ' :: ((RawRef.text line.target).toList ++
        ' ' :: (line.move.keyword.toList ++ [])))) := by
    simp [c, Cursor.ofOffset, RuleLine.toList_text]
  obtain ⟨c₁, h₁, hopening⟩ := h.exists_spread_opening hrest
  obtain ⟨c₂, h₂, hfirst⟩ := exists_spread_symbol h.read hread h₁
  obtain ⟨c₃, h₃, hgap⟩ := exists_spread_space h₂
  obtain ⟨c₄, h₄, hequals⟩ := exists_spread_sign_space (by decide) h₃
  obtain ⟨c₅, h₅, hsecond⟩ := exists_spread_symbol h.write hwrite h₄
  obtain ⟨c₆, h₆, hsemicolon⟩ := exists_spread_sign_space (by decide) h₅
  obtain ⟨target, c₇, htarget, h₇, href⟩ := RawRef.rereads h.target h₆ (by simp; decide)
  obtain ⟨c₈, h₈, hspace⟩ := exists_spread_space h₇
  obtain ⟨last, hlast, hmove⟩ := exists_spread_token (.move (m := line.move)) h₈ none (by simp)
  let again : RuleLine := ⟨line.head, line.params, ⟨line.read.val, c₁.loc⟩, ⟨line.write.val, c₄.loc⟩,
    target, line.move, c.loc⟩
  have hspread : Spread c again.tokens last := by
    have hsymbols := hfirst.append <| hgap.append <| hequals.append <| hsecond.append hsemicolon
    exact ((hopening.append hsymbols).append href).append (hspace.append hmove)
  have hspaced := hspread [] last (.done (.refl last))
  rw [List.append_nil] at hspaced
  have hline : Inscribed c (some (.rule again)) last := ⟨last, hspaced, .inl rfl⟩
  exact ⟨again, ⟨rfl, rfl, rfl, rfl, htarget, rfl⟩, .last hline hlast⟩

namespace Grammar

structure Guarded (before : List Char) : Prop where
  last : ∀ x ∈ before.getLast?, x = ' '
  inLine : ∀ x ∈ before, x ≠ '\r' ∧ x ≠ '\n'
  opening : before.IsChain fun a b => a = '/' → b ≠ '/' ∧ b ≠ '*'

def Foreign (d : Char) : Prop :=
  isNameChar d = false ∧ d ∉ [' ', '\t', '/', '\'', '=', ';', '<', '>', ',', '\r', '\n']

section Foreign

variable {d : Char} {before word rest after : List Char} {c next : Cursor}

theorem Guarded.of_append (h : Guarded (word ++ before)) : Guarded before := by
  refine ⟨fun x hx => h.last x ?_, fun x hx => h.inLine x (List.mem_append_right word hx),
    h.opening.right_of_append⟩
  rw [Option.mem_def] at hx ⊢
  rw [List.getLast?_append, hx, Option.some_or]

/-- A comment does not begin before the character. -/
theorem Foreign.not_comment (hd : Foreign d) (h : Guarded before) {x : Char} (hx : x = '/' ∨ x = '*')
    (heq : before ++ d :: after = '/' :: x :: rest) : False := by
  cases before with
  | nil =>
    obtain ⟨rfl, _⟩ := List.cons.inj heq
    exact hd.2 (by simp)
  | cons a before =>
    obtain ⟨rfl, htail⟩ := List.cons.inj heq
    cases before with
    | nil => exact absurd (h.last '/' rfl) (by decide)
    | cons b before =>
      obtain ⟨rfl, _⟩ := List.cons.inj htail
      have hnot := (List.isChain_cons_cons.1 h.opening).1 rfl
      rcases hx with rfl | rfl
      · exact hnot.1 rfl
      · exact hnot.2 rfl

theorem Foreign.notMem_layout (hd : Foreign d) (h : Guarded before)
    (hlayout : Layout (before ++ d :: after)) : False := by
  generalize hgap : before ++ d :: after = gap at hlayout
  induction hlayout generalizing before with
  | nil => simp at hgap
  | blank hx _ ih =>
    cases before with
    | nil =>
      obtain ⟨rfl, _⟩ := List.cons.inj hgap
      rcases hx with rfl | rfl
      · exact hd.2 (by simp)
      · exact hd.2 (by simp)
    | cons a before =>
      have htail : Guarded ([a] ++ before) := h
      exact ih htail.of_append (List.cons.inj hgap).2
  | comment _ _ _ => exact hd.not_comment h (.inr rfl) hgap

theorem Foreign.notMem_word (hd : Foreign d) (h : Guarded before) {token : Token}
    (hspells : token.Spells (before ++ d :: after) rest) : False := by
  have hnames : ∀ {text : List Char}, text.all isNameChar = true → before ++ d :: after ≠ text := by
    rintro _ hall rfl
    simp [hd.1] at hall
  generalize hword : before ++ d :: after = word at hspells
  cases hspells with
  | start => exact hnames (by decide) hword
  | name hname _ _ => exact hnames (List.all_eq_true.2 fun x hx => hname.char hx) hword
  | blank => exact hnames (by decide) hword
  | digit hc => exact hnames (by simp [isNameChar, Char.isAlphanum, hc]) hword
  | @quoted x _ _ _ =>
    -- The character would stand right after a quote, and it stands after a space.
    rcases before with _ | ⟨a, _ | ⟨b, before⟩⟩
    · obtain ⟨rfl, _⟩ := List.cons.inj hword
      exact hd.2 (by simp)
    · obtain ⟨rfl, _⟩ := List.cons.inj hword
      exact absurd (h.last '\'' rfl) (by decide)
    · have hmem : d ∈ ['\''] := by
        have htail := (List.cons.inj (List.cons.inj hword).2).2
        rw [← htail]
        simp
      obtain rfl := List.mem_singleton.1 hmem
      exact hd.2 (by simp)
  | @move m _ => exact hnames (by cases m <;> decide) hword
  | @sign x _ hx =>
    have hmem : d ∈ [x] := by
      rw [← hword]
      simp
    obtain rfl := List.mem_singleton.1 hmem
    simp only [signs, List.mem_cons, List.not_mem_nil, or_false] at hx
    refine hd.2 ?_
    simp only [List.mem_cons, List.not_mem_nil, or_false]
    tauto

/-- Before the character stands nothing that would hide it. -/
def Waits (d : Char) (c : Cursor) : Prop := ∃ before after, Guarded before ∧ c.rest = before ++ d :: after

theorem Waits.of_passes (h : Waits d c) (hpass : c.Passes word next)
    (hword : ∀ before after, Guarded before → word ≠ before ++ d :: after) : Waits d next := by
  obtain ⟨before, after, hguarded, hrest⟩ := h
  rw [hpass.rest_eq] at hrest
  rcases List.append_eq_append_iff.1 hrest with ⟨mid, rfl, hnext⟩ | ⟨mid, rfl, hmid⟩
  · exact ⟨mid, after, hguarded.of_append, hnext⟩
  · cases mid with
    | nil => exact ⟨[], after, ⟨by simp, by simp, .nil⟩, by simpa using hmid.symm⟩
    | cons x mid =>
      obtain ⟨rfl, _⟩ := List.cons.inj hmid
      exact absurd rfl (hword before mid hguarded)

theorem Waits.of_spaced (hd : Foreign d) {tokens : List Placed} (hspaced : Spaced c tokens next)
    (h : Waits d c) : Waits d next := by
  have hgap : ∀ {c next}, Waits d c → Gap c next → Waits d next := by
    rintro c next h ⟨gap, hlayout, hpass⟩
    exact h.of_passes hpass fun before after hguarded heq =>
      hd.notMem_layout hguarded (heq ▸ hlayout)
  induction hspaced with
  | done hdone => exact hgap h hdone
  | token hlayout _ htoken _ ih =>
    obtain ⟨word, hspells, hpass⟩ := htoken
    exact ih ((hgap h hlayout).of_passes hpass fun before after hguarded heq =>
      hd.notMem_word hguarded (heq ▸ hspells))

/-- What is written as a line ends before the character. -/
theorem Waits.of_inscribed (hd : Foreign d) {found : Option Statement} (h : Waits d c)
    (hline : Inscribed c found next) : Waits d next := by
  obtain ⟨mid, hspaced, hend⟩ := hline
  have hmid := h.of_spaced hd hspaced
  rcases hend with rfl | ⟨body, hpass, _⟩
  · exact hmid
  · obtain ⟨before, after, hguarded, hrest⟩ := hmid
    exact (hd.not_comment hguarded (.inl rfl) (hrest.symm.trans hpass.rest_eq)).elim

theorem Waits.not_lines (hd : Foreign d) {statements : List Statement} (h : Waits d c) :
    ¬ Lines c statements := by
  intro hlines
  cases hlines with
  | last hline hend =>
    obtain ⟨before, after, _, hrest⟩ := h.of_inscribed hd hline
    simp [hend] at hrest
  | more hline hbreak _ =>
    obtain ⟨before, after, hguarded, hrest⟩ := h.of_inscribed hd hline
    obtain ⟨x, more, hmore, hx⟩ : ∃ x more, before ++ d :: after = x :: more ∧ (x = '\r' ∨ x = '\n') := by
      rw [← hrest]
      cases hbreak with
      | inl hfeed => exact ⟨'\n', _, hfeed.rest_eq, .inr rfl⟩
      | inr hreturn => exact ⟨'\r', _, hreturn.rest_eq, .inl rfl⟩
    cases before with
    | nil =>
      obtain ⟨rfl, _⟩ := List.cons.inj hmore
      rcases hx with rfl | rfl
      · exact hd.2 (by simp)
      · exact hd.2 (by simp)
    | cons a before =>
      obtain ⟨rfl, _⟩ := List.cons.inj hmore
      have hline := hguarded.inLine a List.mem_cons_self
      exact hx.elim hline.1 hline.2

end Foreign

/-- A digit sign that is no digit of programs is foreign to them. -/
theorem foreign_of_isDigitSign {d : Char} (h : Text.isDigitSign d = true) (hdigit : d.isDigit = false) :
    Foreign d := by
  have hnat := Text.le_toNat_of_isDigitSign h hdigit
  constructor
  · cases hname : isNameChar d with
    | false => rfl
    | true =>
      have hsmall := toNat_of_isNameChar hname
      omega
  · intro hmem
    have hall : [' ', '\t', '/', '\'', '=', ';', '<', '>', ',', '\r', '\n'].all (·.toNat < 0xb2) = true := by
      decide
    have hsmall := List.all_eq_true.1 hall d hmem
    simp only [decide_eq_true_eq] at hsmall
    omega

theorem guarded_of_plain {cs : List Char} (h : ∀ x ∈ cs, x ∉ ['/', '\r', '\n']) :
    Guarded (cs ++ [' ']) := by
  refine ⟨by simp, fun x hx => ?_, ?_⟩
  · cases List.mem_append.1 hx with
    | inl hmem =>
      have hnot := h x hmem
      simp only [List.mem_cons, List.not_mem_nil, or_false, not_or] at hnot
      exact hnot.2
    | inr hspace =>
      obtain rfl := List.mem_singleton.1 hspace
      decide
  · refine List.isChain_append.2 ⟨?_, by simp, by simp⟩
    refine (List.pairwise_of_forall_mem_list fun x hx y _ => ?_).isChain
    rintro rfl
    exact absurd (h '/' hx) (by simp)

/-- Quotes keep a slash from opening a comment. -/
theorem Guarded.append_symbol {before word rest : List Char} {s : Symbol} (h : Guarded before)
    (hspells : (Token.symbol s).Spells word rest) : Guarded (before ++ (word ++ " = ".toList)) := by
  have hspace : ∀ x ∈ before.getLast?, ∀ y ∈ (word ++ " = ".toList).head?,
      x = '/' → y ≠ '/' ∧ y ≠ '*' := by
    rintro x hx y _ rfl
    exact absurd (h.last '/' hx) (by decide)
  have hword : (∀ x ∈ word ++ " = ".toList, x ≠ '\r' ∧ x ≠ '\n') ∧
      (word ++ " = ".toList).IsChain fun a b => a = '/' → b ≠ '/' ∧ b ≠ '*' := by
    cases hspells with
    | blank => exact ⟨by simp, by simp⟩
    | @digit c _ hc =>
      have hne : c ≠ '\r' ∧ c ≠ '\n' := by
        constructor
        · rintro rfl
          exact absurd hc (by decide)
        · rintro rfl
          exact absurd hc (by decide)
      exact ⟨by simpa using hne, by simp⟩
    | @quoted c _ hcr hlf => exact ⟨by simp [hcr, hlf], by simp⟩
  refine ⟨fun x hx => ?_, fun x hx => ?_, List.isChain_append.2 ⟨h.opening, hword.2, hspace⟩⟩
  · obtain rfl : ' ' = x := by simpa [List.getLast?_append] using hx
    rfl
  · exact (List.mem_append.1 hx).elim (h.inLine x) (hword.1 x)

end Grammar

theorem RuleLine.Writable.guarded_opening {line : RuleLine} (h : line.Writable) :
    Guarded line.opening := by
  apply guarded_of_plain
  have hname : ∀ x : String, IsFree x → ∀ c ∈ x.toList, c ∉ ['/', '\r', '\n'] := by
    intro x hx c hc hmem
    have hnot : ['/', '\r', '\n'].all (!isNameChar ·) = true := by decide
    have hfalse := List.all_eq_true.1 hnot c hmem
    simp [hx.1.char hc] at hfalse
  intro c hc
  cases List.mem_append.1 hc with
  | inl hhead => exact hname _ h.head c hhead
  | inr hlist =>
    rcases mem_listText hlist with hsign | ⟨item, hitem, hc⟩
    · simp only [List.mem_cons, List.not_mem_nil, or_false] at hsign
      rcases hsign with rfl | rfl | rfl | rfl <;> decide
    · obtain ⟨x, hx, rfl⟩ := List.mem_map.1 hitem
      exact hname x (h.params x hx) c hc

/-- A line with a symbol that is misspelt is printed as something that is no program. -/
theorem RuleLine.Writable.not_written {line : RuleLine} (h : line.Writable)
    (hmisspelt : line.read.val.Misspelt ∨ line.write.val.Misspelt) (statements : List Statement) :
    ¬ Written line.text.toList statements := by
  have hwaits : ∃ d, Foreign d ∧ Waits d (Cursor.ofOffset line.text.toList 0) := by
    let last := "; ".toList ++ ((RawRef.text line.target).toList ++ ' ' :: line.move.keyword.toList)
    by_cases hread : line.read.val.Misspelt
    · obtain ⟨d, hspelling, hsign, hdigit⟩ := Symbol.exists_of_misspelt h.read hread
      refine ⟨d, foreign_of_isDigitSign hsign hdigit, line.opening,
        " = ".toList ++ (line.write.val.spelling.toList ++ last), h.guarded_opening, ?_⟩
      simp [Cursor.ofOffset, RuleLine.toList_text, hspelling, last]
    · obtain ⟨d, hspelling, hsign, hdigit⟩ :=
        Symbol.exists_of_misspelt h.write (hmisspelt.resolve_left hread)
      refine ⟨d, foreign_of_isDigitSign hsign hdigit,
        line.opening ++ (line.read.val.spelling.toList ++ " = ".toList), last,
        h.guarded_opening.append_symbol (Symbol.spells_spelling h.read hread []), ?_⟩
      simp [Cursor.ofOffset, RuleLine.toList_text, hspelling, last]
  obtain ⟨d, hforeign, hd⟩ := hwaits
  exact hd.not_lines hforeign

namespace RuleLine

def ReadsBack (line : RuleLine) : Prop :=
  ∃ again, Statement.scan line.text.toList = .complete [.rule again] ∧
    Statement.blankLooking? [.rule again] = none ∧ line.SameAs again

theorem SameAs.blankLooking?_eq_none {line again : RuleLine} {statements : List Statement}
    (h : line.SameAs again) (hblank : Statement.blankLooking? statements = none)
    (hline : .rule line ∈ statements) : Statement.blankLooking? [.rule again] = none := by
  simp only [Statement.blankLooking?, List.head?_eq_none_iff, List.flatMap_eq_nil_iff] at hblank ⊢
  have hnone := hblank _ hline
  simp only [Statement.blankLooking, List.filter_eq_nil_iff, List.mem_cons, List.not_mem_nil, or_false,
    forall_eq_or_imp, forall_eq, h.read, h.write] at hnone ⊢
  exact hnone

/-- A rule line of any text, with references nested no deeper than a scan follows them, is read back from
what it is printed as exactly if neither of its symbols is misspelt, that is, a digit sign other than the
digits of programs. If one of them is, the line is printed as something that is no program. The grammar
matches the spelling of a symbol as that symbol exactly if it is not misspelt. -/
theorem printed_line_reads_back {text : List Char} {statements : List Statement} {line : RuleLine}
    (hscan : Statement.scan text = .complete statements)
    (hblank : Statement.blankLooking? statements = none) (hline : .rule line ∈ statements)
    (hdepth : Term.depth line.target ≤ nestingLimit) :
    (line.ReadsBack ↔ ¬ line.read.val.Misspelt ∧ ¬ line.write.val.Misspelt) ∧
    (line.read.val.Misspelt ∨ line.write.val.Misspelt →
      ∀ others, Statement.scan line.text.toList ≠ .complete others) ∧
    ∀ s ∈ [line.read.val, line.write.val], s.ReadsBack ↔ ¬ s.Misspelt := by
  have hwritable : line.Writable := (written_of_scan hscan).writable hline
  have hrefused : line.read.val.Misspelt ∨ line.write.val.Misspelt →
      ∀ others, Statement.scan line.text.toList ≠ .complete others :=
    fun hmisspelt others hothers => hwritable.not_written hmisspelt others (written_of_scan hothers)
  refine ⟨⟨?_, ?_⟩, hrefused, ?_⟩
  · rintro ⟨again, hagain, _⟩
    rw [← not_or]
    exact fun hmisspelt => hrefused hmisspelt _ hagain
  · rintro ⟨hread, hwrite⟩
    obtain ⟨again, hsame, hwritten⟩ := hwritable.exists_written hread hwrite
    have hdepth' : Term.depth again.target ≤ nestingLimit := by
      rwa [← RawRef.SameAs.depth_eq hsame.target]
    refine ⟨again, scan_of_written hwritten ?_, hsame.blankLooking?_eq_none hblank hline, hsame⟩
    intro s hs
    obtain rfl := List.mem_singleton.1 hs
    exact hdepth'
  · intro s hs
    simp only [List.mem_cons, List.not_mem_nil, or_false] at hs
    rcases hs with rfl | rfl
    · exact Symbol.readsBack_iff hwritable.read
    · exact Symbol.readsBack_iff hwritable.write

/-- A rule line without a space in it, whose symbols are the marks of quotes and comments. -/
def cramped : String := "start=go<finish,finish>\ngo<k,l>'''='/';go<l,go<k,l>>/**/prev"

set_option maxRecDepth 20000 in
theorem printed_line_reads_back_cramped : ∃ statements line,
    Statement.scan cramped.toList = .complete statements ∧
    Statement.blankLooking? statements = none ∧ .rule line ∈ statements ∧
    Term.depth line.target ≤ nestingLimit ∧
    line.text = "go<k, l> ''' = '/'; go<l, go<k, l>> prev" ∧ line.ReadsBack := by
  obtain ⟨p, hp, -⟩ := exists_ok_of_any (x := Program.parse cramped "cramped")
    (t := fun p => p.definitions.length == 1) (by decide_cbv)
  obtain ⟨statements, hscan, hblank, _⟩ := Program.parse_eq_ok.1 hp
  have hany : (Statement.ruleLines (Statement.scan cramped.toList).statements).any (fun line =>
      line.text == "go<k, l> ''' = '/'; go<l, go<k, l>> prev" && Term.depth line.target ≤ nestingLimit &&
        !decide line.read.val.Misspelt && !decide line.write.val.Misspelt) = true := by decide_cbv
  rw [hscan] at hany
  obtain ⟨line, hline, hshape⟩ := List.any_eq_true.1 hany
  obtain ⟨⟨⟨htext, hdepth⟩, hread⟩, hwrite⟩ : ((line.text = _ ∧ Term.depth line.target ≤ nestingLimit) ∧
      ¬ line.read.val.Misspelt) ∧ ¬ line.write.val.Misspelt := by simpa using hshape
  have hmem := Statement.mem_ruleLines.1 hline
  obtain ⟨hback, _⟩ := printed_line_reads_back hscan hblank hmem hdepth
  exact ⟨statements, line, hscan, hblank, hmem, hdepth, htext, hback.2 ⟨hread, hwrite⟩⟩

set_option maxRecDepth 20000 in
/-- A raised two is printed bare, and the line is not read back. -/
theorem raised_digit_not_read_back : ∃ statements line,
    Statement.scan "start = a\na '²' = 0; a next\n".toList = .complete statements ∧
    Statement.blankLooking? statements = none ∧ .rule line ∈ statements ∧
    Term.depth line.target ≤ 100 ∧ line.text = "a ² = 0; a next" ∧ line.read.val = .mark "²" ∧
    ¬ line.ReadsBack ∧ (∀ others, Statement.scan line.text.toList ≠ .complete others) ∧
    ¬ line.read.val.ReadsBack := by
  obtain ⟨p, hp, -⟩ := exists_ok_of_any (x := Program.parse "start = a\na '²' = 0; a next\n" "<input>")
    (t := fun p => p.definitions.length == 1) (by decide_cbv)
  obtain ⟨statements, hscan, hblank, _⟩ := Program.parse_eq_ok.1 hp
  have hany : (Statement.ruleLines (Statement.scan "start = a\na '²' = 0; a next\n".toList).statements).any
      (fun line => line.text == "a ² = 0; a next" && Term.depth line.target ≤ 100 &&
        line.read.val == .mark "²") = true := by decide_cbv
  rw [hscan] at hany
  obtain ⟨line, hline, hshape⟩ := List.any_eq_true.1 hany
  obtain ⟨⟨htext, hdepth⟩, hread⟩ : (line.text = "a ² = 0; a next" ∧ Term.depth line.target ≤ 100) ∧
      line.read.val = .mark "²" := by simpa using hshape
  have hmisspelt : line.read.val.Misspelt := by
    rw [hread]
    decide_cbv
  have hmem := Statement.mem_ruleLines.1 hline
  have hwritable : line.Writable := (written_of_scan hscan).writable hmem
  have hrefused : ∀ others, Statement.scan line.text.toList ≠ .complete others :=
    fun others hothers => hwritable.not_written (.inl hmisspelt) others (written_of_scan hothers)
  refine ⟨statements, line, hscan, hblank, hmem, hdepth, htext, hread, ?_, hrefused, ?_⟩
  · rintro ⟨again, hagain, _⟩
    exact hrefused _ hagain
  · exact fun hback => (Symbol.readsBack_iff hwritable.read).1 hback hmisspelt

end RuleLine

end GenericTuring
