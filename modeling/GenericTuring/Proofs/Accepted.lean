import GenericTuring.Proofs.Scanned

/-!
Whatever is written as a program is scanned as one. Layout is always skipped as far as it goes, so a token
that comes next stands right after it; and what follows a name, a list, a reference or a movement cannot
be taken for a part of it.
-/

namespace GenericTuring

namespace Grammar

open Scanner

def Cursor.settle (c : Cursor) : Cursor := c.skip (layoutSplit c.rest).1 (layoutSplit c.rest).2

def AtEnd (c : Cursor) : Prop :=
  c.rest = [] ∨ ∃ x more, c.rest = x :: more ∧ (x = '\r' ∨ x = '\n' ∨ x = '/' ∧ more.head? = some '/')

section Settling

variable {c mid next : Cursor} {token : Token} {place : Option Loc} {tokens : List Placed}

theorem matches_layout (c : Cursor) : layout.Matches c (layoutSplit c.rest).1 c.settle :=
  matches_named.2 (matches_take.2 ⟨_, rfl, rfl⟩)

theorem matches_layout_of_settled (h : c.settle = c) : layout.Matches c (layoutSplit c.rest).1 c := by
  have hlayout := matches_layout c
  rwa [h] at hlayout

theorem settle_eq_of_layoutSplit (h : (layoutSplit c.rest).1 = []) : c.settle = c := by
  have hrest : (layoutSplit c.rest).2 = c.rest := by
    simpa [h] using layoutSplit_append_eq c.rest
  simp [Cursor.settle, Cursor.skip, h, hrest, Loc.advance]

theorem Gap.settle_eq (h : Gap c next) : c.settle = next.settle := by
  obtain ⟨gap, hgap, hpass⟩ := h
  have hsplit := layoutSplit_of_layout hgap next.rest
  simp only [Cursor.settle, Cursor.skip, hpass.rest_eq, hsplit, Cursor.mk.injEq, true_and,
    List.length_append, hpass.offset_eq, hpass.loc_eq, Loc.advance_append, and_true]
  omega

theorem length_settle_le (c : Cursor) : c.settle.rest.length ≤ c.rest.length := by
  have hlength := congrArg List.length (layoutSplit_append_eq c.rest)
  simp only [List.length_append] at hlength
  simp only [Cursor.settle, Cursor.skip]
  omega

theorem layoutSplit_cons {x : Char} (more : List Char) (hspace : x ≠ ' ') (htab : x ≠ '\t')
    (hslash : x ≠ '/' ∨ more.head? ≠ some '*') : (layoutSplit (x :: more)).1 = [] := by
  rw [layoutSplit.eq_def]
  split
  · next cs heq =>
    obtain ⟨rfl, rfl⟩ := List.cons.inj heq
    simp at hslash
  · next y cs _ heq =>
    obtain ⟨rfl, rfl⟩ := List.cons.inj heq
    simp [hspace, htab]
  · rfl

theorem Token.Stands.settle_eq (h : token.Stands c next) : c.settle = c := by
  obtain ⟨word, hspells, hpass⟩ := h
  obtain ⟨x, more, rfl, hx⟩ := hspells.exists_head
  have hnot : x ≠ ' ' ∧ x ≠ '\t' ∧ x ≠ '/' := by
    have hchar : isNameChar x = true ∨ x ∈ '\'' :: signs := by
      simp only [List.mem_cons]
      tauto
    refine ⟨?_, ?_, ?_⟩ <;> rintro rfl <;> revert hchar <;> decide
  apply settle_eq_of_layoutSplit
  rw [hpass.rest_eq, List.cons_append]
  exact layoutSplit_cons _ hnot.1 hnot.2.1 (.inl hnot.2.2)

theorem Token.Stands.length_lt (h : token.Stands c next) : next.rest.length < c.rest.length := by
  obtain ⟨word, hspells, hpass⟩ := h
  obtain ⟨x, more, rfl, _⟩ := hspells.exists_head
  rw [hpass.rest_eq, List.length_append, List.length_cons]
  omega

theorem Token.Stands.rest_ne_nil (h : token.Stands c next) : c.rest ≠ [] := by
  intro hnil
  have hlength := h.length_lt
  simp [hnil] at hlength

theorem Token.Stands.length_settle_lt (h : token.Stands c next) :
    next.settle.rest.length < c.rest.length :=
  Nat.lt_of_le_of_lt (length_settle_le next) h.length_lt

theorem AtEnd.settle_eq (h : AtEnd c) : c.settle = c := by
  apply settle_eq_of_layoutSplit
  cases h with
  | inl hnil => rw [hnil, layoutSplit.eq_def]
  | inr hcons =>
    obtain ⟨x, more, hrest, hx⟩ := hcons
    rw [hrest]
    obtain rfl | rfl | ⟨rfl, hmore⟩ := hx
    · exact layoutSplit_cons _ (by decide) (by decide) (.inl (by decide))
    · exact layoutSplit_cons _ (by decide) (by decide) (.inl (by decide))
    · exact layoutSplit_cons _ (by decide) (by decide) (.inr (by simp [hmore]))

/-- The first of the tokens stands after the layout that stands here. -/
theorem Spaced.first (h : Spaced c ((token, place) :: tokens) next) :
    ∃ after, token.Stands c.settle after ∧ (∀ loc ∈ place, c.settle.loc = loc) ∧
      Spaced after tokens next := by
  cases h with
  | @token _ here after _ _ _ _ hgap hplace htoken hrest =>
    have hhere : c.settle = here := hgap.settle_eq.trans htoken.settle_eq
    exact ⟨after, hhere ▸ htoken, hhere ▸ hplace, hrest⟩

theorem Spaced.rest_ne_nil (h : Spaced c ((token, place) :: tokens) next) : c.settle.rest ≠ [] := by
  obtain ⟨after, htoken, _, _⟩ := h.first
  exact htoken.rest_ne_nil

/-- No token is empty. -/
theorem Spaced.length_le (h : Spaced c tokens next) :
    tokens.length + next.rest.length ≤ c.rest.length := by
  have hgap : ∀ {c next : Cursor}, Gap c next → next.rest.length ≤ c.rest.length := by
    rintro c next ⟨gap, _, hpass⟩
    simp [hpass.rest_eq]
  induction h with
  | done hdone => simpa using hgap hdone
  | token hbefore _ htoken _ ih =>
    have hbefore := hgap hbefore
    have htoken := htoken.length_lt
    rw [List.length_cons]
    omega

theorem Spaced.settle_eq_settle (h : Spaced c [] next) : c.settle = next.settle := by
  cases h with
  | done hgap => exact hgap.settle_eq

theorem Spaced.settle_eq (h : Spaced c [] next) (hend : AtEnd next) : c.settle = next :=
  h.settle_eq_settle.trans hend.settle_eq

theorem Spaced.settled (h : Spaced c tokens next) (hend : AtEnd next) :
    Spaced c.settle tokens next := by
  cases tokens with
  | nil =>
    rw [h.settle_eq hend]
    exact .done (.refl next)
  | cons t tokens =>
    obtain ⟨after, htoken, hplace, hrest⟩ := h.first
    exact .token (.refl _) hplace htoken hrest

end Settling

section Tokens

variable {c mid next : Cursor}

theorem Cursor.Passes.take {lexeme : Lexeme} {word : List Char} (h : c.Passes word next)
    (hlexeme : lexeme (word ++ next.rest) = some (word, next.rest)) :
    (take lexeme).Matches c word next :=
  matches_take.2 ⟨next.rest, h.rest_eq ▸ hlexeme, h.eq_skip⟩

theorem Cursor.Passes.literal {text : String} (h : c.Passes text.toList next) :
    (literal text).Matches c text.toList next :=
  matches_group.2 (h.take (exactly_eq_some.2 ⟨rfl, rfl⟩))

theorem literal_fails {text : String} (h : ∀ rest, c.rest ≠ text.toList ++ rest) :
    (literal text).Fails c :=
  fails_group.2 (fails_take.2 (exactly_eq_none h))

theorem matches_start (h : Token.start.Stands c next) :
    (literal "start").Matches c "start".toList next := by
  obtain ⟨_, hspells, hpass⟩ := h
  cases hspells
  exact hpass.literal

theorem matches_sign {x : Char} {text : String} (htext : text.toList = [x])
    (h : (Token.sign x).Stands c next) : (literal text).Matches c [x] next := by
  obtain ⟨_, hspells, hpass⟩ := h
  cases hspells with
  | sign _ =>
    rw [← htext] at hpass ⊢
    exact hpass.literal

theorem matches_name {text : String} (h : (Token.name text).Stands c next) :
    name.Matches c text next := by
  obtain ⟨_, hspells, hpass⟩ := h
  cases hspells with
  | name hname hkeyword hrest =>
    refine matches_named.2 (matches_take_pure.2 ⟨text.toList, next.rest, ?_, by simp, hpass.eq_skip⟩)
    rw [hpass.rest_eq]
    exact nameLexeme_append hname hkeyword hrest

theorem name_fails {x : Char} {more : List Char} (hrest : c.rest = x :: more)
    (hx : isNameStart x = false) : name.Fails c := by
  refine fails_named.2 (Fails.bind (fails_take.2 ?_))
  simp [hrest, nameLexeme, hx]

theorem blank_fails {x : Char} {more : List Char} (hrest : c.rest = x :: more) (hx : x ≠ '_') :
    blank.Fails c := by
  refine fails_named.2 (Fails.bind (fails_take.2 (exactly_eq_none ?_)))
  intro rest
  simp [hrest, hx]

theorem matches_symbol {s : Symbol} (h : (Token.symbol s).Stands c next) : symbol.Matches c s next := by
  obtain ⟨_, hspells, hpass⟩ := h
  rw [symbol, matches_named, matches_orElse, matches_orElse]
  cases hspells with
  | blank =>
    exact .inl (matches_named.2 (matches_take_pure.2
      ⟨_, next.rest, exactly_eq_some.2 ⟨rfl, hpass.rest_eq⟩, rfl, hpass.eq_skip⟩))
  | @digit x _ hx =>
    have hblank : x ≠ '_' := by
      rintro rfl
      exact absurd hx (by decide)
    refine .inr ⟨blank_fails hpass.rest_eq hblank, .inl (matches_named.2 (matches_take_pure.2
      ⟨[x], next.rest, digitLexeme_eq_some.2 ⟨x, hx, rfl, hpass.rest_eq⟩, ?_, hpass.eq_skip⟩))⟩
    simp
  | @quoted x _ hcr hlf =>
    have hdigit : digitLexeme c.rest = none := by
      rw [hpass.rest_eq]
      rfl
    refine .inr ⟨blank_fails hpass.rest_eq (by decide),
      .inr ⟨fails_named.2 (Fails.bind (fails_take.2 hdigit)), matches_named.2 (matches_take_pure.2
        ⟨_, next.rest, quotedLexeme_eq_some.2 ⟨x, hcr, hlf, rfl, hpass.rest_eq⟩, ?_, hpass.eq_skip⟩)⟩⟩
    simp

theorem matches_movementWord {m : Move} (h : (Token.move m).Stands c next)
    (hend : Text.atWordEnd next.rest = true) : (movementWord m).Matches c m next := by
  obtain ⟨_, hspells, hpass⟩ := h
  cases hspells with
  | move =>
    exact matches_take_pure.2
      ⟨_, next.rest, wholeWord_eq_some.2 ⟨rfl, hpass.rest_eq, hend⟩, rfl, hpass.eq_skip⟩

theorem movementWord_fails {m other : Move} (h : (Token.move m).Stands c next) (hne : other ≠ m) :
    (movementWord other).Fails c := by
  obtain ⟨_, hspells, hpass⟩ := h
  refine Fails.bind (fails_take.2 ?_)
  cases hspells with
  | move =>
    rw [hpass.rest_eq]
    cases other <;> cases m <;> first | rfl | exact absurd rfl hne

theorem matches_movement {m : Move} (h : (Token.move m).Stands c next)
    (hend : Text.atWordEnd next.rest = true) : movement.Matches c m next := by
  have hword := matches_movementWord h hend
  rw [movement, matches_named, matches_orElse, matches_orElse]
  cases m with
  | prev => exact .inl hword
  | current => exact .inr ⟨movementWord_fails h (by decide), .inl hword⟩
  | next => exact .inr ⟨movementWord_fails h (by decide), .inr ⟨movementWord_fails h (by decide), hword⟩⟩

end Tokens

section Signs

variable {c next : Cursor} {token : Token} {x : Char}

theorem sign_fails {text : String} (htext : text.toList = [x]) (h : ∀ more, c.rest ≠ x :: more) :
    (literal text).Fails c :=
  literal_fails fun more => by simpa [htext] using h more

/-- Only a sign is spelt with a sign in front. -/
theorem Token.Stands.head_ne (h : token.Stands c next) (hx : x ∈ signs) (hne : token ≠ .sign x)
    (more : List Char) : c.rest ≠ x :: more := by
  intro hrest
  obtain ⟨word, hspells, hpass⟩ := h
  obtain ⟨y, others, rfl, hy⟩ := hspells.exists_head
  obtain rfl : y = x := (List.cons.inj (hpass.rest_eq.symm.trans hrest)).1
  obtain hname | rfl | ⟨_, htoken⟩ := hy
  · have hall : signs.all (!isNameChar ·) = true := by decide
    have hnot := List.all_eq_true.1 hall y hx
    simp [hname] at hnot
  · exact absurd hx (by decide)
  · exact hne htoken

theorem AtEnd.head_ne (h : AtEnd c) (hx : x ∉ ['\r', '\n', '/']) (more : List Char) :
    c.rest ≠ x :: more := by
  intro hrest
  cases h with
  | inl hnil => simp [hnil] at hrest
  | inr hcons =>
    obtain ⟨y, others, heq, hy⟩ := hcons
    obtain rfl : y = x := (List.cons.inj (heq.symm.trans hrest)).1
    exact hx (by simp; tauto)

end Signs

def Opens (tokens : List Placed) : Prop := ∃ place more, tokens = (.sign '<', place) :: more

theorem not_opens_cons {t : Placed} {rest : List Placed} (h : t.1 ≠ .sign '<') :
    ¬ Opens (t :: rest) := by
  rintro ⟨place, more, heq⟩
  exact h (congrArg Prod.fst (List.cons.inj heq).1)

/-- Where the tokens stand before others that open no bracket, the scanner takes them and gives the
value. -/
def Accepts {α : Type} (p : Scanner α) (value : α) (tokens : List Placed) : Prop :=
  ∀ ⦃c rest next⦄, AtEnd next → ¬ Opens rest → Spaced c (tokens ++ rest) next →
    ∃ mid, p.Matches c.settle value mid ∧ Spaced mid rest next ∧
      mid.rest.length < c.settle.rest.length

section Lists

variable {α : Type} {item : Scanner α} {tokens : α → List Placed} {c next : Cursor}
  {rest : List Placed} {values : List α}

theorem accepts_name (x : String) : Accepts name x [(.name x, none)] := by
  intro c rest next _ _ h
  obtain ⟨after, htoken, _, hrest⟩ := h.first
  exact ⟨after, matches_name htoken, hrest, htoken.length_lt⟩

theorem Spaced.unopened (h : Spaced c rest next) (hend : AtEnd next) (hopen : ¬ Opens rest)
    (more : List Char) : c.settle.rest ≠ '<' :: more := by
  cases rest with
  | nil =>
    rw [h.settle_eq hend]
    exact hend.head_ne (by decide) more
  | cons t rest =>
    obtain ⟨after, htoken, _, _⟩ := h.first
    refine htoken.head_ne (by decide) (fun heq => hopen ?_) more
    exact ⟨t.2, rest, by rw [← heq]⟩

theorem not_opens_others (values : List α) :
    ¬ Opens ((values.flatMap fun value => sign ',' :: tokens value) ++ sign '>' :: rest) := by
  cases values with
  | nil => exact not_opens_cons (by decide)
  | cons value values => exact not_opens_cons (by decide)

/-- The repetitions of a comma and an item. -/
theorem exists_matches_others (hitem : ∀ value ∈ values, Accepts item value (tokens value))
    (hend : AtEnd next)
    (h : Spaced c ((values.flatMap fun value => sign ',' :: tokens value) ++ sign '>' :: rest) next) :
    ∃ mid, Matches (many (group do
        let _ ← layout
        let _ ← literal ","
        let _ ← layout
        item)) c values mid ∧ Spaced mid (sign '>' :: rest) next ∧ mid.rest.length ≤ c.rest.length := by
  induction values generalizing c with
  | nil =>
    obtain ⟨after, hclose, _, _⟩ := h.first
    have hcomma : (literal ",").Fails c.settle :=
      sign_fails rfl (hclose.head_ne (by decide) (by decide))
    exact ⟨c, matches_many_nil (.inr (fails_group.2 ((matches_layout c).bind_fails hcomma.bind))), h,
      Nat.le_refl _⟩
  | cons value values ih =>
    rw [List.flatMap_cons, List.cons_append, List.cons_append, List.append_assoc] at h
    obtain ⟨after, hcomma, _, hrest⟩ := h.first
    obtain ⟨mid, hvalue, hothers, hshorter⟩ := hitem value (by simp) hend (not_opens_others values) hrest
    obtain ⟨last, hmany, hlast, hlength⟩ := ih (fun v hv => hitem v (by simp [hv])) hothers
    have hafter := hcomma.length_settle_lt
    have hbefore := length_settle_le c
    refine ⟨last, matches_many_cons (matches_group.2 <| (matches_layout c).bind <|
      (matches_sign rfl hcomma).bind <| (matches_layout after).bind hvalue) ?_ hmany, hlast, ?_⟩
    · omega
    · omega

theorem accepts_bracketed {first : α} {others : List α}
    (hitem : ∀ value ∈ first :: others, Accepts item value (tokens value)) :
    Accepts (bracketed item) (first :: others) (listTokens ((first :: others).map tokens)) := by
  intro c rest next hend hopen h
  have hlist : listTokens ((first :: others).map tokens) ++ rest = sign '<' :: (tokens first ++
      ((others.flatMap fun value => sign ',' :: tokens value) ++ sign '>' :: rest)) := by
    simp [listTokens, List.flatMap_map]
  rw [hlist] at h
  obtain ⟨after, hopening, _, hitems⟩ := h.first
  obtain ⟨mid, hfirst, hothers, hfirstLength⟩ :=
    hitem first (by simp) hend (not_opens_others others) hitems
  obtain ⟨last, hmany, hlast, hmanyLength⟩ :=
    exists_matches_others (fun value hvalue => hitem value (by simp [hvalue])) hend hothers
  obtain ⟨beyond, hclosing, _, hrest⟩ := hlast.first
  refine ⟨beyond, ?_, hrest, ?_⟩
  · exact (matches_sign rfl hopening).bind <| (matches_layout after).bind <| hfirst.bind <|
      Matches.bind hmany <| (matches_layout last).bind <| (matches_sign rfl hclosing).bind <|
      matches_pure.2 ⟨rfl, rfl⟩
  · have hafter := hopening.length_settle_lt
    have hbeyond := hclosing.length_lt
    have hbefore := length_settle_le last
    omega

/-- A bracketed list, which is missing where there are no values. -/
theorem exists_matches_list (production : Production)
    (hitem : ∀ value ∈ values, Accepts item value (tokens value)) (hend : AtEnd next)
    (hopen : ¬ Opens rest) (h : Spaced c (listTokens (values.map tokens) ++ rest) next) :
    ∃ found mid, (optional (named production (bracketed item))).Matches c.settle found mid ∧
      found.getD [] = values ∧ Spaced mid rest next ∧ mid.rest.length ≤ c.settle.rest.length := by
  cases values with
  | nil =>
    have hopening : (literal "<").Fails c.settle := sign_fails rfl (h.unopened hend hopen)
    exact ⟨none, c.settle, matches_optional.2 (.inr ⟨rfl, rfl, .inr (fails_named.2 hopening.bind)⟩), rfl,
      h.settled hend, Nat.le_refl _⟩
  | cons first others =>
    obtain ⟨mid, hmatch, hrest, hlength⟩ := accepts_bracketed hitem hend hopen h
    have hne : c.settle.rest ≠ [] := by
      intro hnil
      simp [hnil] at hlength
    exact ⟨some (first :: others), mid,
      matches_optional.2 (.inl ⟨_, rfl, hne, matches_named.2 hmatch⟩), rfl, hrest, Nat.le_of_lt hlength⟩

end Lists

theorem accepts_reference {limit : Nat} {ref : RawRef} (h : Term.depth ref ≤ limit) :
    Accepts (reference limit) ref (RawRef.tokens ref) := by
  induction limit generalizing ref with
  | zero => exact absurd (Term.depth_pos ref) (by omega)
  | succ limit ih =>
    intro c rest next hend hopen hspaced
    rw [RawRef.tokens_eq, List.cons_append] at hspaced
    obtain ⟨after, hhead, hplace, hrest⟩ := hspaced.first
    have hitem : ∀ arg ∈ Term.args ref, Accepts (reference limit) arg (RawRef.tokens arg) := by
      intro arg harg
      apply ih
      have hdepth := Term.depth_lt_of_mem_inner
        (Term.mem_inner_of_mem_args harg (Term.self_mem_subterms arg))
      omega
    obtain ⟨found, mid, hlist, hfound, hmid, hlength⟩ :=
      exists_matches_list .args hitem hend hopen hrest
    refine ⟨mid, ?_, hmid, Nat.lt_of_le_of_lt hlength hhead.length_settle_lt⟩
    refine matches_named.2 <| (matches_here.2 ⟨rfl, rfl⟩).bind <| (matches_name hhead).bind <|
      (matches_layout after).bind <| hlist.bind <| matches_pure.2 ⟨?_, rfl⟩
    rw [hfound, hplace ref.loc rfl]
    exact (Term.ofArgs_head_args ref).symm

section Statements

variable {c mid next : Cursor} {rest : List Placed}

theorem exists_matches_stateHead {head : String} {params : List String} {loc : Loc}
    (hend : AtEnd next) (hopen : ¬ Opens rest)
    (h : Spaced c ((.name head, some loc) :: listTokens (params.map fun x => [(.name x, none)]) ++ rest)
      next) :
    c.settle.loc = loc ∧ ∃ mid, stateHead.Matches c.settle (head, params) mid ∧
      Spaced mid rest next := by
  obtain ⟨after, hhead, hplace, hrest⟩ := h.first
  obtain ⟨found, mid, hlist, hfound, hmid, _⟩ :=
    exists_matches_list .params (fun x _ => accepts_name x) hend hopen hrest
  refine ⟨hplace loc rfl, mid, ?_, hmid⟩
  exact matches_named.2 <| (matches_name hhead).bind <| (matches_layout after).bind <| hlist.bind <|
    matches_pure.2 ⟨by rw [hfound], rfl⟩

theorem exists_matches_locatedSymbol {s : Located Symbol}
    (h : Spaced c ((.symbol s.val, some s.loc) :: rest) next) :
    ∃ mid, locatedSymbol.Matches c.settle s mid ∧ Spaced mid rest next := by
  obtain ⟨after, hsymbol, hplace, hrest⟩ := h.first
  refine ⟨after, (matches_here.2 ⟨rfl, rfl⟩).bind <| (matches_symbol hsymbol).bind <|
    matches_pure.2 ⟨?_, rfl⟩, hrest⟩
  rw [hplace s.loc rfl]

theorem exists_matches_startLine {target : RawRef} {loc : Loc}
    (hdepth : Term.depth target ≤ nestingLimit) (hend : AtEnd next)
    (h : Spaced c (Statement.start target loc).tokens next) :
    ∃ mid, startLine.Matches c.settle (.start target loc) mid ∧ Spaced mid [] next := by
  obtain ⟨after, hstart, hplace, h⟩ := h.first
  obtain ⟨beyond, hequals, _, h⟩ := h.first
  rw [← List.append_nil (RawRef.tokens target)] at h
  obtain ⟨mid, htarget, hrest, _⟩ := accepts_reference hdepth hend (by simp [Opens]) h
  refine ⟨mid, ?_, hrest⟩
  exact matches_named.2 <| (matches_here.2 ⟨rfl, rfl⟩).bind <| (matches_start hstart).bind <|
    (matches_layout after).bind <| (matches_sign rfl hequals).bind <| (matches_layout beyond).bind <|
    htarget.bind <| matches_pure.2 ⟨by rw [hplace loc rfl], rfl⟩

theorem AtEnd.atWordEnd (h : AtEnd c) : Text.atWordEnd c.rest = true := by
  cases h with
  | inl hnil => simp [hnil, Text.atWordEnd]
  | inr hcons =>
    obtain ⟨x, more, hrest, hx⟩ := hcons
    have hword : Text.isWord x = false := isWord_eq_false (by simp; tauto)
    simp [hrest, Text.atWordEnd, hword]

theorem Gap.atWordEnd (h : Gap c next) (hnext : Text.atWordEnd next.rest = true) :
    Text.atWordEnd c.rest = true := by
  obtain ⟨gap, hgap, hpass⟩ := h
  rw [hpass.rest_eq]
  cases hgap.head_mem with
  | inl hnil => simpa [hnil] using hnext
  | inr hhead =>
    obtain ⟨x, more, rfl, hx⟩ := hhead
    have hword : Text.isWord x = false := by
      apply isWord_eq_false
      simp only [List.mem_cons, List.not_mem_nil, or_false] at hx ⊢
      tauto
    simp [Text.atWordEnd, hword]

/-- A movement ends its line, so no word character follows it. -/
theorem exists_matches_movement {m : Move} (hend : AtEnd next)
    (h : Spaced c [(.move m, none)] next) :
    ∃ mid, movement.Matches c.settle m mid ∧ Spaced mid [] next := by
  obtain ⟨mid, hmove, _, hrest⟩ := h.first
  refine ⟨mid, matches_movement hmove ?_, hrest⟩
  cases hrest with
  | done hgap => exact hgap.atWordEnd hend.atWordEnd

theorem exists_matches_ruleLine {line : RuleLine} (hdepth : Term.depth line.target ≤ nestingLimit)
    (hend : AtEnd next) (h : Spaced c line.tokens next) :
    ∃ mid, ruleLine.Matches c.settle (.rule line) mid ∧ Spaced mid [] next := by
  simp only [RuleLine.tokens, List.append_assoc] at h
  obtain ⟨hloc, a₁, hhead, h⟩ := exists_matches_stateHead hend (not_opens_cons (by simp)) h
  obtain ⟨a₂, hread, h⟩ := exists_matches_locatedSymbol h
  obtain ⟨a₃, hequals, _, h⟩ := h.first
  obtain ⟨a₄, hwrite, h⟩ := exists_matches_locatedSymbol h
  obtain ⟨a₅, hsemicolon, _, h⟩ := h.first
  obtain ⟨a₆, htarget, h, _⟩ := accepts_reference hdepth hend (not_opens_cons (by simp)) h
  obtain ⟨a₇, hmove, h⟩ := exists_matches_movement hend h
  refine ⟨a₇, ?_, h⟩
  refine matches_named.2 <| (matches_here.2 ⟨rfl, rfl⟩).bind <| hhead.bind <|
    (matches_layout a₁).bind <| hread.bind <| (matches_layout a₂).bind <|
    (matches_sign rfl hequals).bind <| (matches_layout a₃).bind <| hwrite.bind <|
    (matches_layout a₄).bind <| (matches_sign rfl hsemicolon).bind <| (matches_layout a₅).bind <|
    htarget.bind <| (matches_layout a₆).bind <| hmove.bind <| matches_pure.2 ⟨?_, rfl⟩
  rw [hloc]

/-- A name that begins like the keyword goes on with a character of names, which is no layout and no
sign. -/
theorem start_fails_or_equals_fails {x : String} (h : (Token.name x).Stands c next) :
    (literal "start").Fails c ∨ ∃ mid, (literal "start").Matches c "start".toList mid ∧
      mid.settle = mid ∧ (literal "=").Fails mid ∧ mid.offset ≤ next.offset := by
  obtain ⟨_, hspells, hpass⟩ := h
  cases hspells with
  | name hname hkeyword hrest =>
    by_cases hstart : ∃ others, c.rest = "start".toList ++ others
    · obtain ⟨others, hothers⟩ := hstart
      obtain ⟨more, hx, hmore⟩ := exists_append_of_name
        (fun y hy => (isName_of_mem_keywords (by decide)).char hy) hrest
        (hpass.rest_eq.symm.trans hothers)
      cases more with
      | nil =>
        have hkey : x = "start" := String.toList_injective (by simpa using hx)
        exact absurd (by rw [hkey]; decide) hkeyword
      | cons y more =>
        have hy : isNameChar y = true := hname.char (by simp [hx])
        have hnot : y ≠ ' ' ∧ y ≠ '\t' ∧ y ≠ '/' ∧ y ≠ '=' := by
          refine ⟨?_, ?_, ?_, ?_⟩ <;> rintro rfl <;> revert hy <;> decide
        refine .inr ⟨c.skip "start".toList others, (c.passes_skip hothers).literal, ?_, ?_, ?_⟩
        · apply settle_eq_of_layoutSplit
          rw [show (c.skip "start".toList others).rest = y :: (more ++ next.rest) from hmore]
          exact layoutSplit_cons _ hnot.1 hnot.2.1 (.inl hnot.2.2.1)
        · refine sign_fails rfl fun rest heq => ?_
          exact hnot.2.2.2 (List.cons.inj (hmore.symm.trans heq)).1
        · have hlength := congrArg List.length hx
          rw [List.length_append] at hlength
          have hskip : (c.skip "start".toList others).offset = c.offset + "start".toList.length := rfl
          rw [hpass.offset_eq, hskip]
          omega
    · exact .inl (literal_fails fun others heq => hstart ⟨others, heq⟩)

/-- Where a name stands, no start line does. -/
theorem startLine_fails {x : String} (h : (Token.name x).Stands c next) : startLine.Fails c := by
  refine fails_named.2 ((matches_here.2 ⟨rfl, rfl⟩).bind_fails ?_)
  rcases start_fails_or_equals_fails h with hstart | ⟨mid, hstart, hsettle, hequals, _⟩
  · exact hstart.bind
  · exact hstart.bind_fails ((matches_layout_of_settled hsettle).bind_fails hequals.bind)

theorem exists_matches_statement {s : Statement} (hdepth : Term.depth s.target ≤ nestingLimit)
    (hend : AtEnd next) (h : Spaced c s.tokens next) :
    ∃ mid, statement.Matches c.settle s mid ∧ Spaced mid [] next := by
  cases s with
  | start target loc =>
    obtain ⟨mid, hmatch, hrest⟩ := exists_matches_startLine hdepth hend h
    exact ⟨mid, matches_named.2 (matches_orElse.2 (.inl hmatch)), hrest⟩
  | rule line =>
    obtain ⟨_, hhead, _, _⟩ := h.first
    obtain ⟨mid, hmatch, hrest⟩ := exists_matches_ruleLine hdepth hend h
    exact ⟨mid, matches_named.2 (matches_orElse.2 (.inr ⟨startLine_fails hhead, hmatch⟩)), hrest⟩

theorem AtEnd.statement_fails (h : AtEnd c) : c.rest = [] ∨ statement.Fails c := by
  refine h.imp_right fun hcons => ?_
  obtain ⟨x, more, hrest, hx⟩ := hcons
  have hnot : x ≠ 's' ∧ isNameStart x = false := by
    obtain rfl | rfl | ⟨rfl, _⟩ := hx <;> decide
  have hstart : (literal "start").Fails c := by
    apply literal_fails
    intro others heq
    exact hnot.1 (List.cons.inj (hrest.symm.trans heq)).1
  have hname : name.Fails c := name_fails hrest hnot.2
  refine fails_named.2 (Fails.orElse (fails_named.2 ?_) (fails_named.2 ?_))
  · exact (matches_here.2 ⟨rfl, rfl⟩).bind_fails hstart.bind
  · exact (matches_here.2 ⟨rfl, rfl⟩).bind_fails (fails_named.2 hname.bind).bind

end Statements

section Lines

variable {c mid next : Cursor} {found : Option Statement}

def Ends (c : Cursor) : Prop := ∀ x ∈ c.rest.head?, x = '\r' ∨ x = '\n'

theorem Breaks.ends (h : Breaks c next) : Ends c := by
  intro x hx
  cases h with
  | inl hfeed =>
    obtain rfl : '\n' = x := by simpa [hfeed.rest_eq] using hx
    exact .inr rfl
  | inr hreturn =>
    obtain rfl : '\r' = x := by simpa [hreturn.rest_eq] using hx
    exact .inl rfl

theorem Ends.atEnd (h : Ends c) : AtEnd c := by
  cases hrest : c.rest with
  | nil => exact .inl hrest
  | cons x more =>
    have hx := h x (by simp [hrest])
    exact .inr ⟨x, more, hrest, by tauto⟩

theorem Ends.lineComment_fails (h : Ends c) : c.rest = [] ∨ lineComment.Fails c := by
  cases hrest : c.rest with
  | nil => exact .inl rfl
  | cons x more =>
    refine .inr (fails_named.2 (fails_take.2 ?_))
    rw [hrest]
    obtain rfl | rfl := h x (by simp [hrest])
    · rfl
    · rfl

theorem matches_line (hdepth : ∀ s ∈ found, Term.depth s.target ≤ nestingLimit)
    (h : Inscribed c found next) (hend : Ends next) : line.Matches c found next := by
  obtain ⟨mid, hspaced, hcomment⟩ := h
  have hmid : AtEnd mid ∧ ∃ body, (optional lineComment).Matches mid body next := by
    obtain rfl | ⟨body, hpass, hbody⟩ := hcomment
    · exact ⟨hend.atEnd, none, matches_optional.2 (.inr ⟨rfl, rfl, hend.lineComment_fails⟩)⟩
    · refine ⟨.inr ⟨'/', '/' :: (body ++ next.rest), hpass.rest_eq, by simp⟩,
        some ('/' :: '/' :: body), ?_⟩
      refine matches_optional.2 (.inl ⟨_, rfl, by simp [hpass.rest_eq], matches_named.2 (hpass.take ?_)⟩)
      exact lineCommentLexeme_eq_some.2 ⟨body, rfl, rfl, hbody, hend⟩
  obtain ⟨hatEnd, body, hbody⟩ := hmid
  have hfound : ∃ last, (optional statement).Matches c.settle found last ∧ last.settle = mid := by
    cases found with
    | none =>
      have hsettle : c.settle = mid := hspaced.settle_eq hatEnd
      rw [hsettle]
      exact ⟨mid, matches_optional.2 (.inr ⟨rfl, rfl, hatEnd.statement_fails⟩), hatEnd.settle_eq⟩
    | some s =>
      obtain ⟨last, hmatch, hrest⟩ := exists_matches_statement (hdepth s rfl) hatEnd hspaced
      have hne : c.settle.rest ≠ [] := by
        cases s with
        | start _ _ => exact hspaced.rest_ne_nil
        | rule _ => exact hspaced.rest_ne_nil
      exact ⟨last, matches_optional.2 (.inl ⟨s, rfl, hne, hmatch⟩), hrest.settle_eq hatEnd⟩
  obtain ⟨last, hmatch, hlast⟩ := hfound
  have hlayout := matches_layout last
  rw [hlast] at hlayout
  exact matches_named.2 <| (matches_layout c).bind <| hmatch.bind <| hlayout.bind <| hbody.bind <|
    matches_pure.2 ⟨rfl, rfl⟩

theorem Inscribed.length_le (h : Inscribed c found next) :
    (found.elim [] Statement.tokens).length + next.rest.length ≤ c.rest.length := by
  obtain ⟨mid, hspaced, hcomment⟩ := h
  have hlength := hspaced.length_le
  obtain rfl | ⟨body, hpass, _⟩ := hcomment
  · exact hlength
  · have hrest := congrArg List.length hpass.rest_eq
    rw [List.length_append] at hrest
    omega

theorem Breaks.length_lt (h : Breaks c next) : next.rest.length < c.rest.length := by
  cases h with
  | inl hfeed => simp [hfeed.rest_eq]
  | inr hreturn =>
    rw [hreturn.rest_eq, List.length_append]
    exact Nat.lt_add_of_pos_left (by decide)

theorem Breaks.exists_matches (h : Breaks c next) : ∃ taken, lineEnd.Matches c taken next := by
  cases h with
  | inl hfeed => exact ⟨_, matches_named.2 (hfeed.take (lineEndLexeme_eq_some.2 ⟨.inl rfl, rfl⟩))⟩
  | inr hreturn => exact ⟨_, matches_named.2 (hreturn.take (lineEndLexeme_eq_some.2 ⟨.inr rfl, rfl⟩))⟩

theorem exists_matches_program {statements : List Statement} (h : Lines c statements)
    (hdepth : ∀ s ∈ statements, Term.depth s.target ≤ nestingLimit) :
    ∃ next, program.Matches c statements next ∧ next.rest = [] := by
  have hlines : ∃ closed mid last next, Matches (many (group do
        let found ← line
        let _ ← lineEnd
        return found)) c closed mid ∧ line.Matches mid last next ∧ next.rest = [] ∧
      statements = (closed ++ [last]).filterMap id := by
    induction h with
    | @last c next found hline hend =>
      have hends : Ends next := by
        intro x hx
        simp [hend] at hx
      have hmatch := matches_line (fun s hs => hdepth s (by simp_all)) hline hends
      have hbreak : lineEnd.Fails next := fails_named.2 (fails_take.2 (by rw [hend]; rfl))
      refine ⟨[], c, found, next, ?_, hmatch, hend, by cases found <;> rfl⟩
      exact matches_many_nil (.inr (fails_group.2 (hmatch.bind_fails hbreak.bind)))
    | @more c mid next found statements hline hbreak _ ih =>
      obtain ⟨closed, beyond, last, final, hmany, hlast, hend, rfl⟩ :=
        ih fun s hs => hdepth s (by simp_all)
      obtain ⟨taken, hlineEnd⟩ := hbreak.exists_matches
      have hmatch := matches_line (fun s hs => hdepth s (by simp_all)) hline hbreak.ends
      refine ⟨found :: closed, beyond, last, final, ?_, hlast, hend, by cases found <;> simp⟩
      refine matches_many_cons (matches_group.2 <| hmatch.bind <| hlineEnd.bind <|
        matches_pure.2 ⟨rfl, rfl⟩) ?_ hmany
      have hshorter := hbreak.length_lt
      have hlength := hline.length_le
      omega
  obtain ⟨closed, mid, last, next, hmany, hlast, hend, rfl⟩ := hlines
  exact ⟨next, matches_named.2 <| Matches.bind hmany <| hlast.bind <| matches_pure.2 ⟨rfl, rfl⟩, hend⟩

end Lines

theorem scan_of_written {text : List Char} {statements : List Statement} (h : Written text statements)
    (hdepth : ∀ s ∈ statements, Term.depth s.target ≤ nestingLimit) :
    Statement.scan text = .complete statements := by
  obtain ⟨next, hmatch, hend⟩ := exists_matches_program h hdepth
  have hverdict : (program (Cursor.ofOffset text 0)).verdict = .matched statements next := hmatch
  simp [Statement.scan, hverdict, hend]

end Grammar

end GenericTuring
