import GenericTuring.Proofs.Lexemes
import GenericTuring.Proofs.Scanners

/-!
Whatever the scan of a text takes for a program is one: each production takes only what its value is
written as. A name may be scanned where a keyword stands before a word character of another alphabet, so
the productions take this from the place where they end, and a line never ends before a word character.
-/

namespace GenericTuring

namespace Grammar

open Scanner

def Clean (c : Cursor) : Prop := ∀ x ∈ c.rest.head?, Text.isWord x = true → isNameChar x = true

section Places

variable {c mid here after next : Cursor} {tokens : List Placed} {token : Token} {place : Option Loc}

theorem clean_of_head {x : Char} {rest : List Char} (hrest : c.rest = x :: rest)
    (hx : isNameChar x = true ∨ Text.isWord x = false) : Clean c := by
  intro y hy hword
  obtain rfl : x = y := by simpa [hrest] using hy
  cases hx with
  | inl hname => exact hname
  | inr hother => simp [hother] at hword

/-- The characters that a program has outside names, numerals and quotes. -/
theorem isWord_eq_false {x : Char}
    (h : x ∈ [' ', '\t', '/', '\'', '=', ';', '<', '>', ',', '\r', '\n']) : Text.isWord x = false := by
  have hall : [' ', '\t', '/', '\'', '=', ';', '<', '>', ',', '\r', '\n'].all (!Text.isWord ·) = true := by
    decide +kernel
  simpa using List.all_eq_true.1 hall x h

theorem Layout.head_mem {gap : List Char} (h : Layout gap) :
    gap = [] ∨ ∃ x rest, gap = x :: rest ∧ x ∈ [' ', '\t', '/'] := by
  cases h with
  | nil => exact .inl rfl
  | blank hc _ => exact .inr ⟨_, _, rfl, by cases hc <;> simp_all⟩
  | comment _ _ => exact .inr ⟨_, _, rfl, by simp⟩

/-- A token begins with a character of names or a quote, or it is a sign. -/
theorem Token.Spells.exists_head {word rest : List Char} (h : token.Spells word rest) :
    ∃ x more, word = x :: more ∧ (isNameChar x = true ∨ x = '\'' ∨ x ∈ signs ∧ token = .sign x) := by
  cases h with
  | start => exact ⟨'s', _, rfl, .inl (by decide)⟩
  | name hname _ _ =>
    obtain ⟨x, more, rfl, hx, _⟩ := hname
    exact ⟨x, more, by simp, .inl (isNameChar_of_isNameStart hx)⟩
  | blank => exact ⟨'_', [], rfl, .inl (by decide)⟩
  | digit hc => exact ⟨_, [], rfl, .inl (by simp [isNameChar, Char.isAlphanum, hc])⟩
  | quoted _ _ => exact ⟨'\'', _, rfl, .inr (.inl rfl)⟩
  | @move m _ => cases m <;> exact ⟨_, _, rfl, .inl (by decide)⟩
  | sign hc => exact ⟨_, [], rfl, .inr (.inr ⟨hc, rfl⟩)⟩

theorem Gap.trans (h : Gap c mid) (hmore : Gap mid next) : Gap c next := by
  obtain ⟨gap, hgap, hpass⟩ := h
  obtain ⟨more, hlayout, hmore⟩ := hmore
  refine ⟨gap ++ more, ?_, hpass.trans hmore⟩
  clear hpass hmore
  induction hgap with
  | nil => exact hlayout
  | blank hc _ ih => exact .blank hc ih
  | comment hbody _ ih =>
    rw [List.cons_append, List.cons_append, List.append_assoc]
    exact .comment hbody ih

theorem Gap.refl (c : Cursor) : Gap c c := ⟨[], .nil, c.passes_refl⟩

theorem Gap.spaced (h : Gap c mid) (hrest : Spaced mid tokens next) : Spaced c tokens next := by
  cases hrest with
  | done hgap => exact .done (h.trans hgap)
  | token hgap hplace htoken hrest => exact .token (h.trans hgap) hplace htoken hrest

theorem Token.Stands.spaced (h : token.Stands c mid) (hplace : ∀ loc ∈ place, c.loc = loc)
    (hrest : Spaced mid tokens next) : Spaced c ((token, place) :: tokens) next :=
  .token (.refl c) hplace h hrest

theorem Token.Stands.clean (h : token.Stands c next) : Clean c := by
  obtain ⟨word, hspells, hpass⟩ := h
  obtain ⟨x, more, rfl, hx⟩ := hspells.exists_head
  refine clean_of_head hpass.rest_eq (hx.imp_right fun hother => isWord_eq_false ?_)
  simp only [signs, List.mem_cons, List.not_mem_nil, or_false] at hother ⊢
  tauto

theorem Gap.clean (h : Gap c next) (hnext : Clean next) : Clean c := by
  obtain ⟨gap, hgap, hpass⟩ := h
  cases hgap.head_mem with
  | inl hnil =>
    intro x hx
    exact hnext x (by simpa [hpass.rest_eq, hnil] using hx)
  | inr hhead =>
    obtain ⟨x, rest, rfl, hx⟩ := hhead
    refine clean_of_head hpass.rest_eq (.inr (isWord_eq_false ?_))
    simp only [List.mem_cons, List.not_mem_nil, or_false] at hx ⊢
    tauto

theorem Spaced.clean (h : Spaced c tokens next) (hnext : Clean next) : Clean c := by
  cases h with
  | done hgap => exact hgap.clean hnext
  | token hgap _ htoken _ => exact hgap.clean htoken.clean

end Places

section Tokens

variable {c mid next : Cursor} {tokens : List Placed}

theorem gap_of_layout {taken : List Char} (h : layout.Matches c taken next) : Gap c next := by
  obtain ⟨rest, hsplit, rfl⟩ := matches_take.1 (matches_named.1 h)
  obtain ⟨rfl, rfl⟩ := Prod.mk.inj (Option.some.inj hsplit)
  exact ⟨_, layout_layoutSplit c.rest, c.passes_skip (layoutSplit_append_eq c.rest).symm⟩

theorem passes_of_literal {text : String} {taken : List Char} (h : (literal text).Matches c taken next) :
    c.Passes text.toList next := by
  obtain ⟨rest, hsplit, rfl⟩ := matches_take.1 (matches_group.1 h)
  obtain ⟨rfl, htext⟩ := exactly_eq_some.1 hsplit
  exact c.passes_skip htext

theorem stands_of_sign {x : Char} {taken : List Char} (hx : x ∈ signs)
    (h : (literal (String.singleton x)).Matches c taken next) : (Token.sign x).Stands c next := by
  have hpass := passes_of_literal h
  rw [String.toList_singleton] at hpass
  exact ⟨[x], .sign hx, hpass⟩

theorem stands_of_name {text : String} (h : name.Matches c text next) (hnext : Clean next) :
    (Token.name text).Stands c next := by
  obtain ⟨taken, rest, hsplit, rfl, rfl⟩ := matches_take_pure.1 (matches_named.1 h)
  obtain ⟨htext, hname, hrest, hkeyword⟩ := name_of_nameLexeme hsplit
  have hend : Text.atWordEnd rest = true := by
    cases rest with
    | nil => rfl
    | cons x rest =>
      have hx : isNameChar x = false := hrest x rfl
      cases hword : Text.isWord x with
      | false => simp [Text.atWordEnd, hword]
      | true => simp [hnext x rfl hword] at hx
  refine ⟨taken, ?_, c.passes_skip htext⟩
  have hspells : (Token.name (String.ofList taken)).Spells (String.ofList taken).toList rest :=
    .name hname (hkeyword hend) hrest
  rwa [String.toList_ofList] at hspells

theorem stands_of_symbol {s : Symbol} (h : symbol.Matches c s next) : (Token.symbol s).Stands c next := by
  rw [symbol, matches_named, matches_orElse, matches_orElse] at h
  obtain h | ⟨_, h | ⟨_, h⟩⟩ := h
  · obtain ⟨_, rest, hsplit, rfl, rfl⟩ := matches_take_pure.1 (matches_named.1 h)
    obtain ⟨rfl, htext⟩ := exactly_eq_some.1 hsplit
    exact ⟨_, .blank, c.passes_skip htext⟩
  · obtain ⟨_, rest, hsplit, rfl, rfl⟩ := matches_take_pure.1 (matches_named.1 h)
    obtain ⟨x, hx, rfl, htext⟩ := digitLexeme_eq_some.1 hsplit
    exact ⟨_, .digit hx, c.passes_skip htext⟩
  · obtain ⟨_, rest, hsplit, rfl, rfl⟩ := matches_take_pure.1 (matches_named.1 h)
    obtain ⟨x, hcr, hlf, rfl, htext⟩ := quotedLexeme_eq_some.1 hsplit
    exact ⟨_, .quoted hcr hlf, c.passes_skip htext⟩

theorem stands_of_movementWord {m move : Move} (h : (movementWord m).Matches c move next) :
    (Token.move move).Stands c next := by
  obtain ⟨_, rest, hsplit, rfl, rfl⟩ := matches_take_pure.1 h
  obtain ⟨rfl, htext, _⟩ := wholeWord_eq_some.1 hsplit
  exact ⟨_, .move, c.passes_skip htext⟩

theorem stands_of_movement {move : Move} (h : movement.Matches c move next) :
    (Token.move move).Stands c next := by
  rw [movement, matches_named, matches_orElse, matches_orElse] at h
  obtain h | ⟨_, h | ⟨_, h⟩⟩ := h
  · exact stands_of_movementWord h
  · exact stands_of_movementWord h
  · exact stands_of_movementWord h

end Tokens

def Reads {α : Type} (p : Scanner α) (tokens : α → List Placed) : Prop :=
  ∀ ⦃c value mid rest next⦄, p.Matches c value mid → Spaced mid rest next → Clean next →
    Spaced c (tokens value ++ rest) next

section Productions

variable {c mid next : Cursor} {rest : List Placed}

theorem reads_name : Reads name fun x => [(.name x, none)] := by
  intro c x mid rest next h hrest hnext
  exact (stands_of_name h (hrest.clean hnext)).spaced (by simp) hrest

theorem spaced_of_sign {x : Char} {taken : List Char} (hx : x ∈ signs)
    (h : (literal (String.singleton x)).Matches c taken mid) (hrest : Spaced mid rest next) :
    Spaced c (sign x :: rest) next :=
  (stands_of_sign hx h).spaced (by simp) hrest

/-- The repetitions of a comma and an item. -/
theorem Reads.others {α : Type} {item : Scanner α} {tokens : α → List Placed} (h : Reads item tokens) :
    Reads (many (group do
        let _ ← layout
        let _ ← literal ","
        let _ ← layout
        item)) fun values => values.flatMap fun value => sign ',' :: tokens value := by
  intro c values mid rest next hmatch
  refine many_induction (P := fun c values mid => Spaced mid rest next → Clean next →
    Spaced c (values.flatMap (fun value => sign ',' :: tokens value) ++ rest) next) ?_ ?_ hmatch
  · intro c hrest _
    exact hrest
  · intro c value mid values last hitem ih hrest hnext
    simp only [matches_group, matches_bind] at hitem
    obtain ⟨_, _, hbefore, _, _, hcomma, _, _, hafter, hvalue⟩ := hitem
    have hothers := h hvalue (ih hrest hnext) hnext
    have hall := (gap_of_layout hbefore).spaced
      (spaced_of_sign (x := ',') (by decide) hcomma ((gap_of_layout hafter).spaced hothers))
    simpa using hall

theorem Reads.bracketed {α : Type} {item : Scanner α} {tokens : α → List Placed}
    (h : Reads item tokens) : Reads (bracketed item) fun values => listTokens (values.map tokens) := by
  intro c values mid rest next hmatch hrest hnext
  simp only [Grammar.bracketed, matches_bind] at hmatch
  obtain ⟨_, _, hopen, _, _, hbefore, first, _, hfirst, hmatch⟩ := hmatch
  obtain ⟨others, _, hothers, hmatch⟩ := matches_bind.1 hmatch
  simp only [matches_bind, matches_pure] at hmatch
  obtain ⟨_, _, hafter, _, _, hclose, rfl, rfl⟩ := hmatch
  have hend := (gap_of_layout hafter).spaced (spaced_of_sign (x := '>') (by decide) hclose hrest)
  have hitems := h hfirst (h.others hothers hend hnext) hnext
  have hall := spaced_of_sign (x := '<') (by decide) hopen ((gap_of_layout hbefore).spaced hitems)
  simpa [listTokens, List.flatMap_map] using hall

/-- A bracketed list that may be missing. -/
theorem Reads.optional {α : Type} {item : Scanner α} {tokens : α → List Placed} {production : Production}
    (h : Reads item tokens) : Reads (optional (named production (Grammar.bracketed item)))
      fun found => listTokens ((found.getD []).map tokens) := by
  intro c found mid rest next hmatch hrest hnext
  obtain ⟨values, rfl, _, hmatch⟩ | ⟨rfl, rfl, _⟩ := matches_optional.1 hmatch
  · exact h.bracketed (matches_named.1 hmatch) hrest hnext
  · exact hrest

theorem reads_reference (limit : Nat) : Reads (reference limit) RawRef.tokens := by
  induction limit with
  | zero =>
    intro c ref mid rest next h
    exact absurd h not_matches_giveUp
  | succ limit ih =>
    intro c ref mid rest next h hrest hnext
    simp only [reference, matches_named, matches_bind, matches_here, matches_pure] at h
    obtain ⟨_, _, ⟨rfl, rfl⟩, head, _, hhead, _, _, hgap, list, _, hlist, rfl, rfl⟩ := h
    have hargs := (gap_of_layout hgap).spaced (ih.optional hlist hrest hnext)
    rw [RawRef.tokens_ofArgs]
    exact (stands_of_name hhead (hargs.clean hnext)).spaced (by simp) hargs

theorem spaced_of_stateHead {head : String} {params : List String}
    (h : stateHead.Matches c (head, params) mid) (hrest : Spaced mid rest next) (hnext : Clean next) :
    Spaced c ((.name head, some c.loc) :: listTokens (params.map fun x => [(.name x, none)]) ++ rest)
      next := by
  simp only [stateHead, matches_named, matches_bind, matches_pure, Prod.mk.injEq] at h
  obtain ⟨_, _, hhead, _, _, hgap, list, _, hlist, ⟨rfl, rfl⟩, rfl⟩ := h
  have hparams := (gap_of_layout hgap).spaced (reads_name.optional hlist hrest hnext)
  exact (stands_of_name hhead (hparams.clean hnext)).spaced (by simp) hparams

theorem spaced_of_startLine {s : Statement} (h : startLine.Matches c s mid)
    (hrest : Spaced mid rest next) (hnext : Clean next) : Spaced c (s.tokens ++ rest) next := by
  simp only [startLine, matches_named, matches_bind, matches_here, matches_pure] at h
  obtain ⟨_, _, ⟨rfl, rfl⟩, _, _, hstart, _, _, hbefore, _, _, hsign, _, _, hafter, target, _, htarget,
    rfl, rfl⟩ := h
  have htokens := (gap_of_layout hbefore).spaced (spaced_of_sign (x := '=') (by decide) hsign
    ((gap_of_layout hafter).spaced (reads_reference _ htarget hrest hnext)))
  exact .token (.refl _) (by simp) ⟨_, .start, passes_of_literal hstart⟩ htokens

theorem spaced_of_locatedSymbol {s : Located Symbol} (h : locatedSymbol.Matches c s mid)
    (hrest : Spaced mid rest next) : Spaced c ((.symbol s.val, some s.loc) :: rest) next := by
  simp only [locatedSymbol, matches_bind, matches_here, matches_pure] at h
  obtain ⟨_, _, ⟨rfl, rfl⟩, value, _, hvalue, rfl, rfl⟩ := h
  exact (stands_of_symbol hvalue).spaced (by simp) hrest

theorem spaced_of_ruleLine {s : Statement} (h : ruleLine.Matches c s mid) (hrest : Spaced mid rest next)
    (hnext : Clean next) : Spaced c (s.tokens ++ rest) next := by
  simp only [ruleLine, matches_named, matches_bind, matches_here, matches_pure] at h
  obtain ⟨_, _, ⟨rfl, rfl⟩, ⟨head, params⟩, _, hhead, _, _, hgap₁, read, _, hread, _, _, hgap₂, _, _,
    hsign₁, _, _, hgap₃, write, _, hwrite, _, _, hgap₄, _, _, hsign₂, _, _, hgap₅, target, _, htarget,
    _, _, hgap₆, move, _, hmove, rfl, rfl⟩ := h
  have hmove : Spaced _ ((.move move, none) :: rest) next :=
    (gap_of_layout hgap₆).spaced ((stands_of_movement hmove).spaced (by simp) hrest)
  have htarget := (gap_of_layout hgap₅).spaced (reads_reference _ htarget hmove hnext)
  have hsemicolon := (gap_of_layout hgap₄).spaced (spaced_of_sign (x := ';') (by decide) hsign₂ htarget)
  have hwrite := (gap_of_layout hgap₃).spaced (spaced_of_locatedSymbol hwrite hsemicolon)
  have hequals := (gap_of_layout hgap₂).spaced (spaced_of_sign (x := '=') (by decide) hsign₁ hwrite)
  have hread := (gap_of_layout hgap₁).spaced (spaced_of_locatedSymbol hread hequals)
  have hall := spaced_of_stateHead hhead hread hnext
  simpa [Statement.tokens, RuleLine.tokens] using hall

theorem reads_statement : Reads statement Statement.tokens := by
  intro c s mid rest next h hrest hnext
  rw [statement, matches_named, matches_orElse] at h
  obtain h | ⟨_, h⟩ := h
  · exact spaced_of_startLine h hrest hnext
  · exact spaced_of_ruleLine h hrest hnext

theorem inscribed_of_line {found : Option Statement} (h : line.Matches c found next)
    (hnext : Clean next) : Inscribed c found next := by
  simp only [line, matches_named, matches_bind, matches_pure] at h
  obtain ⟨_, _, hbefore, statement?, _, hfound, _, mid, hafter, _, _, hcomment, rfl, rfl⟩ := h
  have hend : (mid = next ∨ ∃ body, mid.Passes ('/' :: '/' :: body) next ∧
      ∀ x ∈ body, x ≠ '\r' ∧ x ≠ '\n') ∧ Clean mid := by
    obtain ⟨_, _, _, hcomment⟩ | ⟨_, rfl, _⟩ := matches_optional.1 hcomment
    · obtain ⟨rest, hsplit, rfl⟩ := matches_take.1 (matches_named.1 hcomment)
      obtain ⟨body, rfl, htext, hbody, _⟩ := lineCommentLexeme_eq_some.1 hsplit
      exact ⟨.inr ⟨body, mid.passes_skip htext, hbody⟩,
        clean_of_head htext (.inr (isWord_eq_false (by simp)))⟩
    · exact ⟨.inl rfl, hnext⟩
  refine ⟨mid, (gap_of_layout hbefore).spaced ?_, hend.1⟩
  obtain ⟨s, rfl, _, hs⟩ | ⟨rfl, rfl, _⟩ := matches_optional.1 hfound
  · simpa using reads_statement hs (.done (gap_of_layout hafter)) hend.2
  · exact .done (gap_of_layout hafter)

theorem breaks_of_lineEnd {taken : List Char} (h : lineEnd.Matches c taken next) : Breaks c next := by
  obtain ⟨rest, hsplit, rfl⟩ := matches_take.1 (matches_named.1 h)
  obtain ⟨rfl | rfl, htext⟩ := lineEndLexeme_eq_some.1 hsplit
  · exact .inl (c.passes_skip htext)
  · exact .inr (c.passes_skip htext)

theorem Breaks.clean (h : Breaks c next) : Clean c := by
  cases h with
  | inl hfeed => exact clean_of_head hfeed.rest_eq (.inr (isWord_eq_false (by simp)))
  | inr hreturn => exact clean_of_head hreturn.rest_eq (.inr (isWord_eq_false (by simp)))

theorem lines_of_program {statements : List Statement} (h : program.Matches c statements next)
    (hend : next.rest = []) : Lines c statements := by
  rw [program, matches_named] at h
  obtain ⟨closed, mid, hclosed, h⟩ := matches_bind.1 h
  obtain ⟨last, _, hlast, hpure⟩ := matches_bind.1 h
  obtain ⟨rfl, rfl⟩ := matches_pure.1 hpure
  have hclean : Clean next := by
    intro x hx
    simp [hend] at hx
  have hlines : Lines mid last.toList := .last (inscribed_of_line hlast hclean) hend
  have hvalue : (closed ++ [last]).filterMap id = closed.filterMap id ++ last.toList := by
    cases last <;> simp
  rw [hvalue]
  refine many_induction (P := fun c closed mid => Lines mid last.toList →
    Lines c (closed.filterMap id ++ last.toList)) ?_ ?_ hclosed hlines
  · intro c hlines
    exact hlines
  · intro c found mid closed last hline ih hlines
    simp only [matches_group, matches_bind, matches_pure] at hline
    obtain ⟨_, _, hline, _, _, hbreak, rfl, rfl⟩ := hline
    have hbreak := breaks_of_lineEnd hbreak
    have hall : Lines c (found.toList ++ _) :=
      .more (inscribed_of_line hline hbreak.clean) hbreak (ih hlines)
    cases found <;> simpa using hall

end Productions

theorem written_of_scan {text : List Char} {statements : List Statement}
    (h : Statement.scan text = .complete statements) : Written text statements := by
  simp only [Statement.scan] at h
  split at h
  · next statements next hmatch =>
    split at h
    · next hend =>
      obtain rfl := Scanned.complete.inj h
      exact lines_of_program hmatch (List.isEmpty_iff.1 hend)
    · simp at h
  · simp at h
  · simp at h

theorem mem_listTokens {items : List (List Placed)} {item : List Placed} {t : Placed}
    (hitem : item ∈ items) (ht : t ∈ item) : t ∈ listTokens items := by
  cases items with
  | nil => simp at hitem
  | cons first others =>
    simp only [listTokens, List.mem_cons, List.mem_append, List.mem_flatMap]
    cases List.mem_cons.1 hitem with
    | inl hfirst => exact .inr (.inl (.inl (hfirst ▸ ht)))
    | inr hother => exact .inr (.inl (.inr ⟨item, hother, .inr ht⟩))

theorem Spaced.exists_passes {c next : Cursor} {tokens : List Placed} (h : Spaced c tokens next) :
    ∃ taken, c.Passes taken next := by
  induction h with
  | done hgap =>
    obtain ⟨gap, _, hpass⟩ := hgap
    exact ⟨gap, hpass⟩
  | token hgap _ htoken _ ih =>
    obtain ⟨gap, _, hpass⟩ := hgap
    obtain ⟨word, _, hword⟩ := htoken
    obtain ⟨taken, hrest⟩ := ih
    exact ⟨gap ++ word ++ taken, (hpass.trans hword).trans hrest⟩

theorem Inscribed.exists_passes {c next : Cursor} {found : Option Statement}
    (h : Inscribed c found next) : ∃ taken, c.Passes taken next := by
  obtain ⟨mid, hspaced, hend⟩ := h
  obtain ⟨taken, hpass⟩ := hspaced.exists_passes
  cases hend with
  | inl heq => exact ⟨taken, heq ▸ hpass⟩
  | inr hcomment =>
    obtain ⟨body, hbody, _⟩ := hcomment
    exact ⟨_, hpass.trans hbody⟩

theorem Breaks.exists_passes {c next : Cursor} (h : Breaks c next) : ∃ taken, c.Passes taken next := by
  cases h with
  | inl hpass => exact ⟨_, hpass⟩
  | inr hpass => exact ⟨_, hpass⟩

def Placed.Follows (c : Cursor) (t : Placed) : Prop :=
  ∃ taken here next, c.Passes taken here ∧ t.1.Stands here next ∧ ∀ loc ∈ t.2, here.loc = loc

theorem Placed.Follows.of_passes {c mid : Cursor} {t : Placed} {taken : List Char}
    (h : c.Passes taken mid) (ht : Placed.Follows mid t) : Placed.Follows c t := by
  obtain ⟨more, here, next, hpass, hstands⟩ := ht
  exact ⟨taken ++ more, here, next, h.trans hpass, hstands⟩

theorem Spaced.follows {c next : Cursor} {tokens : List Placed} (h : Spaced c tokens next) {t : Placed}
    (ht : t ∈ tokens) : Placed.Follows c t := by
  induction h with
  | done _ => simp at ht
  | @token c here after next _ _ _ hgap hplace htoken _ ih =>
    obtain ⟨gap, _, hpass⟩ := hgap
    cases List.mem_cons.1 ht with
    | inl heq => exact ⟨gap, here, after, hpass, heq ▸ htoken, heq ▸ hplace⟩
    | inr hmem =>
      obtain ⟨word, _, hword⟩ := htoken
      exact .of_passes (hpass.trans hword) (ih hmem)

theorem Lines.follows {c : Cursor} {statements : List Statement} (h : Lines c statements)
    {s : Statement} (hs : s ∈ statements) {t : Placed} (ht : t ∈ s.tokens) : Placed.Follows c t := by
  have hline : ∀ {c next found}, Inscribed c found next → s ∈ found.toList → Placed.Follows c t := by
    intro c next found hline hfound
    obtain ⟨mid, hspaced, _⟩ := hline
    obtain rfl : found = some s := by simpa using hfound
    exact hspaced.follows ht
  induction h with
  | last hinscribed _ => exact hline hinscribed hs
  | more hinscribed hbreak _ ih =>
    cases List.mem_append.1 hs with
    | inl hfound => exact hline hinscribed hfound
    | inr hmem =>
      obtain ⟨_, hpass⟩ := hinscribed.exists_passes
      obtain ⟨_, hnext⟩ := hbreak.exists_passes
      exact .of_passes (hpass.trans hnext) (ih hmem)

theorem Lines.spells {c : Cursor} {statements : List Statement} (h : Lines c statements)
    {s : Statement} (hs : s ∈ statements) {t : Placed} (ht : t ∈ s.tokens) :
    ∃ word rest, t.1.Spells word rest := by
  obtain ⟨_, _, next, _, ⟨word, hspells, _⟩, _⟩ := h.follows hs ht
  exact ⟨word, next.rest, hspells⟩

theorem Token.Spells.name_free {text : String} {word rest : List Char}
    (h : (Token.name text).Spells word rest) : IsName text ∧ text ∉ keywords := by
  cases h with
  | name hname hkeyword _ => exact ⟨hname, hkeyword⟩

theorem Token.Spells.isSymbol {s : Symbol} {word rest : List Char}
    (h : (Token.symbol s).Spells word rest) : IsSymbol s := by
  cases h with
  | blank => trivial
  | @digit c _ hc =>
    refine ⟨c, rfl, ?_, ?_⟩
    · rintro rfl
      exact absurd hc (by decide)
    · rintro rfl
      exact absurd hc (by decide)
  | quoted hcr hlf => exact ⟨_, rfl, hcr, hlf⟩

end Grammar

open Grammar

theorem RawRef.mem_tokens_of_mem_atoms {ref : RawRef} {a : Located String} (h : a ∈ Term.atoms ref) :
    (.name a.val, some a.loc) ∈ RawRef.tokens ref := by
  rw [Term.atoms_eq_map_head] at h
  obtain ⟨s, hs, rfl⟩ := List.mem_map.1 h
  clear h
  fun_induction RawRef.tokens ref with
  | case1 ref ih =>
    cases List.mem_cons.1 hs with
    | inl heq => simp [heq, RawRef.name, RawRef.loc]
    | inr hinner =>
      rw [Term.inner_eq_flatMap] at hinner
      obtain ⟨arg, harg, hs⟩ := List.mem_flatMap.1 hinner
      refine List.mem_cons_of_mem _ (mem_listTokens ?_ (ih ⟨arg, harg⟩ hs))
      exact List.mem_map.2 ⟨⟨arg, harg⟩, List.mem_attach _ _, rfl⟩

namespace Statement

theorem mem_tokens_of_mem_target {s : Statement} {t : Placed} (h : t ∈ RawRef.tokens s.target) :
    t ∈ s.tokens := by
  cases s with
  | start target loc => exact List.mem_cons_of_mem _ (List.mem_cons_of_mem _ h)
  | rule line => exact List.mem_append_left _ (List.mem_append_right _ h)

theorem mem_tokens_of_mem_subterms {s : Statement} {ref : RawRef} (h : ref ∈ Term.subterms s.target) :
    (.name ref.name, some ref.loc) ∈ s.tokens :=
  mem_tokens_of_mem_target
    (RawRef.mem_tokens_of_mem_atoms (Term.mem_atoms_of_mem_subterms h (Term.head_mem_atoms ref)))

variable {text : List Char} {statements : List Statement}

theorem spelt_of_scan (h : scan text = .complete statements) : ∀ s ∈ statements, s.Spelt := by
  intro s hs
  have hspells : ∀ t ∈ s.tokens, ∃ word rest, t.1.Spells word rest :=
    fun t ht => (written_of_scan h).spells hs ht
  have hname : ∀ x place, ((.name x, place) : Placed) ∈ s.tokens → IsName x := by
    intro x place hx
    obtain ⟨word, rest, hspells⟩ := hspells _ hx
    exact hspells.name_free.1
  have hsymbol : ∀ x place, ((.symbol x, place) : Placed) ∈ s.tokens → IsSymbol x := by
    intro x place hx
    obtain ⟨word, rest, hspells⟩ := hspells _ hx
    exact hspells.isSymbol
  cases s with
  | start target loc =>
    intro a ha
    exact hname _ (some a.loc) (by simp [tokens, RawRef.mem_tokens_of_mem_atoms ha])
  | rule line =>
    refine ⟨hname line.head (some line.loc) ?_, fun x hx => hname x none ?_,
      hsymbol _ (some line.read.loc) ?_, hsymbol _ (some line.write.loc) ?_,
      fun a ha => hname _ (some a.loc) ?_⟩
    · exact List.mem_cons_self
    · have hitem : [((Token.name x, none) : Placed)] ∈ line.params.map fun x => [(.name x, none)] :=
        List.mem_map.2 ⟨x, hx, rfl⟩
      simp [tokens, RuleLine.tokens, mem_listTokens hitem (List.mem_singleton_self _)]
    · simp [tokens, RuleLine.tokens]
    · simp [tokens, RuleLine.tokens]
    · simp [tokens, RuleLine.tokens, RawRef.mem_tokens_of_mem_atoms ha]

theorem head_notMem_keywords (h : scan text = .complete statements) {line : RuleLine}
    (hline : rule line ∈ statements) : line.head ∉ keywords := by
  have hmem : ((.name line.head, some line.loc) : Placed) ∈ (rule line).tokens := List.mem_cons_self
  obtain ⟨word, rest, hspells⟩ := (written_of_scan h).spells hline hmem
  exact hspells.name_free.2

end Statement

end GenericTuring
