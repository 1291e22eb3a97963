import GenericTuring.Proofs.ErrorPlaces
import Mathlib

/-!
Where parsing breaks off. Without comments the line that holds an error is scanned again just as it was
scanned before, so nothing new comes up. But a comment may begin on a line above; then the line is scanned
from inside the comment, and brackets that nest too deeply there break parsing off.
-/

namespace GenericTuring

open Text

namespace Grammar

open Scanner

def Commented (cs : List Char) : Prop := ['/', '*'] <:+: cs

section Inline

variable {α β : Type} {p q : Scanner α} {f : α → Scanner β} {c next : Cursor}

/-- What stands between the places goes beyond the end of a line only in comments. -/
def Cursor.InlineTo (c next : Cursor) : Prop :=
  ∃ taken, c.Passes taken next ∧ (¬Commented c.rest → '\n' ∉ taken)

def Inline (p : Scanner α) : Prop := ∀ c value next, p.Matches c value next → c.InlineTo next

theorem Cursor.Passes.not_commented {taken : List Char} (h : c.Passes taken next)
    (hc : ¬Commented c.rest) : ¬Commented next.rest := by
  intro hnext
  apply hc
  rw [h.rest_eq]
  exact hnext.trans (List.suffix_append _ _).isInfix

theorem Cursor.InlineTo.refl (c : Cursor) : c.InlineTo c := ⟨[], c.passes_refl, by simp⟩

theorem Cursor.InlineTo.trans {mid : Cursor} (h : c.InlineTo mid) (hrest : mid.InlineTo next) :
    c.InlineTo next := by
  obtain ⟨taken, hpass, htaken⟩ := h
  obtain ⟨more, hmore, hnone⟩ := hrest
  refine ⟨taken ++ more, hpass.trans hmore, fun hc => ?_⟩
  simp [htaken hc, hnone (hpass.not_commented hc)]

theorem Inline.bind (hp : Inline p) (hf : ∀ value, Inline (f value)) : Inline (p >>= f) := by
  intro c value next h
  obtain ⟨first, mid, hfirst, hrest⟩ := matches_bind.1 h
  exact (hp _ _ _ hfirst).trans (hf _ _ _ _ hrest)

theorem Inline.orElse (hp : Inline p) (hq : Inline q) : Inline (orElse p q) := by
  intro c value next h
  cases matches_orElse.1 h with
  | inl hfirst => exact hp _ _ _ hfirst
  | inr hsecond => exact hq _ _ _ hsecond.2

theorem Inline.optional (hp : Inline p) : Inline (optional p) := by
  intro c found next h
  cases matches_optional.1 h with
  | inl hfound =>
    obtain ⟨value, _, _, hmatch⟩ := hfound
    exact hp _ _ _ hmatch
  | inr hnone =>
    obtain ⟨_, rfl, _⟩ := hnone
    exact .refl next

theorem Inline.many (hp : Inline p) : Inline (many p) := fun _ _ _ h =>
  many_induction (P := fun c _ next => c.InlineTo next) .refl
    (fun hfirst hrest => (hp _ _ _ hfirst).trans hrest) h

end Inline

section Lines

/-- Layout without comments is made of blanks. -/
theorem Layout.newline_notMem {gap : List Char} (h : Layout gap) (hgap : ¬Commented gap) :
    '\n' ∉ gap := by
  induction h with
  | nil => simp
  | @blank c gap hc _ ih =>
    have hrest : '\n' ∉ gap := ih fun hin => hgap (hin.trans (List.suffix_cons c gap).isInfix)
    have hne : '\n' ≠ c := by
      cases hc with
      | inl heq => simp [heq]
      | inr heq => simp [heq]
    simp [hne, hrest]
  | comment => exact absurd ⟨[], _, rfl⟩ hgap

theorem Lexeme.InLine.newline_notMem {lexeme : Lexeme} (h : lexeme.InLine)
    {text taken rest : List Char} (hlexeme : lexeme text = some (taken, rest))
    (htext : ¬Commented text) : '\n' ∉ taken := by
  cases h with
  | layout =>
    obtain ⟨rfl, rfl⟩ := Prod.mk.inj (Option.some.inj hlexeme)
    refine (layout_layoutSplit text).newline_notMem fun hin => htext ?_
    rw [← layoutSplit_append_eq text]
    exact hin.trans (List.prefix_append _ _).isInfix
  | lineComment =>
    obtain ⟨body, rfl, _, hbody, _⟩ := lineCommentLexeme_eq_some.1 hlexeme
    intro hmem
    simp only [List.mem_cons, Char.reduceEq, false_or] at hmem
    exact (hbody _ hmem).2 rfl
  | name =>
    intro hmem
    have hname := (name_of_nameLexeme hlexeme).2.1
    exact absurd (hname.char (by simpa using hmem)) (by decide)
  | digit =>
    obtain ⟨c, hc, rfl, _⟩ := digitLexeme_eq_some.1 hlexeme
    intro hmem
    obtain rfl := List.mem_singleton.1 hmem
    exact absurd hc (by decide)
  | quoted =>
    obtain ⟨c, _, hfeed, rfl, _⟩ := quotedLexeme_eq_some.1 hlexeme
    simp [hfeed.symm]
  | exactly hword =>
    rw [(exactly_eq_some.1 hlexeme).1]
    exact hword
  | wholeWord move =>
    rw [(wholeWord_eq_some.1 hlexeme).1]
    cases move <;> decide

theorem closed_inline : Closed fun _ p => Inline p where
  value _ _ _ next h := by
    obtain ⟨_, rfl⟩ := matches_pure.1 h
    exact .refl next
  place _ _ next h := by
    obtain ⟨_, rfl⟩ := matches_here.1 h
    exact .refl next
  nothing _ _ _ h := absurd h not_matches_giveUp
  take h c taken _ hmatch := by
    obtain ⟨rest, hlexeme, rfl⟩ := matches_take.1 hmatch
    exact ⟨taken, c.passes_skip (h.splits _ _ _ hlexeme), h.newline_notMem hlexeme⟩
  bind := Inline.bind
  noting _ hp _ _ _ h := hp _ _ _ (matches_noting.1 h)
  orElse := Inline.orElse
  optional := Inline.optional
  many := Inline.many

theorem Verdict.eq_tooDeep {α : Type} {verdict : Verdict α} (h : verdict.isTooDeep = true) :
    verdict = .tooDeep := by
  cases verdict with
  | tooDeep => rfl
  | matched => simp [isTooDeep] at h
  | failed => simp [isTooDeep] at h

variable {text taken : List Char} {c next : Cursor}

/-- The last line that is scanned begins where a line of the text does. -/
theorem exists_last_line {statements : List Statement} (h : program.Matches c statements next) :
    ∃ taken mid found, c.Passes taken mid ∧ BeginsLine taken ∧ line.Matches mid found next := by
  rw [program, matches_named] at h
  obtain ⟨closed, mid, hclosed, h⟩ := matches_bind.1 h
  obtain ⟨last, _, hlast, hpure⟩ := matches_bind.1 h
  obtain ⟨rfl, rfl⟩ := matches_pure.1 hpure
  obtain ⟨taken, hpass, hbegins⟩ : ∃ taken, c.Passes taken mid ∧ BeginsLine taken := by
    refine many_induction (P := fun c _ mid => ∃ taken, c.Passes taken mid ∧ BeginsLine taken)
      (fun c => ⟨[], c.passes_refl, .inl rfl⟩) ?_ hclosed
    intro c found mid closed last hline ih
    simp only [matches_group, matches_bind, matches_pure] at hline
    obtain ⟨_, _, hline, ended, _, hend, rfl, rfl⟩ := hline
    obtain ⟨first, hfirst, _⟩ := closed_inline.line _ _ _ hline
    obtain ⟨rest, hlexeme, rfl⟩ := matches_take.1 (matches_named.1 hend)
    obtain ⟨hfeed, hrest⟩ := lineEndLexeme_eq_some.1 hlexeme
    obtain ⟨more, hmore, hbegins⟩ := ih
    refine ⟨first ++ ended ++ more, (hfirst.trans (Cursor.passes_skip hrest)).trans hmore, ?_⟩
    cases hbegins with
    | inl hnil =>
      cases hfeed with
      | inl heq => exact .inr ⟨first, by simp [hnil, heq]⟩
      | inr heq => exact .inr ⟨first ++ ['\r'], by simp [hnil, heq]⟩
    | inr hsome =>
      obtain ⟨front, rfl⟩ := hsome
      exact .inr ⟨first ++ ended ++ front, by simp⟩
  exact ⟨taken, mid, last, hpass, hbegins, hlast⟩

theorem Cursor.Passes.eq_ofOffset (h : (Cursor.ofOffset text 0).Passes taken next) :
    next = Cursor.ofOffset text taken.length := by
  have htext : text = taken ++ next.rest := by simpa [Cursor.ofOffset] using h.rest_eq
  rw [h.eq_skip]
  simp [Cursor.ofOffset, Cursor.skip, Loc.ofOffset, Loc.advance, htext]

theorem program_givesUp (h : line.GivesUp c) : program.GivesUp c := by
  refine givesUp_named.2 ?_
  by_cases hend : c.rest = []
  · exact (matches_many_nil (.inl hend)).bind_givesUp h.bind
  · exact ((givesUp_group.2 h.bind).many hend).bind

end Lines

section Words

variable {c mid next : Cursor} {x : String}

/-- A name alone begins no statement. -/
theorem statement_fails (hname : (Token.name x).Stands c next) (hend : next.rest = []) :
    statement.Fails c := by
  have hsettled : next.settle = next := AtEnd.settle_eq (.inl hend)
  have hhead : stateHead.Matches c (x, []) next :=
    matches_named.2 <| (matches_name hname).bind <| (matches_layout_of_settled hsettled).bind <|
      (matches_optional.2 (.inr ⟨rfl, rfl, .inl hend⟩)).bind <| matches_pure.2 ⟨rfl, rfl⟩
  have hsymbol : symbol.Fails next := by
    refine fails_named.2 (Fails.orElse ?_ (Fails.orElse ?_ ?_)) <;>
      refine fails_named.2 (Fails.bind (fails_take.2 ?_)) <;> rw [hend] <;> rfl
  have hrule : ruleLine.Fails c :=
    fails_named.2 <| (matches_here.2 ⟨rfl, rfl⟩).bind_fails <| hhead.bind_fails <|
      (matches_layout_of_settled hsettled).bind_fails <|
      Fails.bind <| (matches_here.2 ⟨rfl, rfl⟩).bind_fails hsymbol.bind
  exact fails_named.2 ((startLine_fails hname).orElse hrule)

theorem lineEnd_fails (hname : (Token.name x).Stands c next) : lineEnd.Fails c := by
  obtain ⟨word, hspells, hpass⟩ := hname
  cases hspells with
  | name hname _ _ =>
    obtain ⟨y, more, rfl, hy, _⟩ := hname
    refine fails_named.2 (fails_take.2 ?_)
    rw [hpass.rest_eq, String.toList_ofList, List.cons_append, lineEndLexeme]
    · intro cs heq
      obtain rfl := (List.cons.inj heq).1
      exact absurd hy (by decide)
    · intro cs heq
      obtain rfl := (List.cons.inj heq).1
      exact absurd hy (by decide)

/-- A text whose one word is a name is matched up to the name. -/
theorem matches_program_up_to (hgap : Gap c mid) (hname : (Token.name x).Stands mid next)
    (hend : next.rest = []) : program.Matches c [] mid := by
  have hsettle : c.settle = mid := hgap.settle_eq.trans hname.settle_eq
  have hline : line.Matches c none mid := by
    have hlayout := matches_layout c
    rw [hsettle] at hlayout
    exact matches_named.2 <| hlayout.bind <|
      (matches_optional.2 (.inr ⟨rfl, rfl, .inr (statement_fails hname hend)⟩)).bind <|
      (matches_layout_of_settled hname.settle_eq).bind <|
      (matches_optional.2 (.inr ⟨rfl, rfl, .inr (lineComment_fails_of_name hname)⟩)).bind <|
      matches_pure.2 ⟨rfl, rfl⟩
  refine matches_named.2 <| Matches.bind (matches_many_nil (.inr (fails_group.2 ?_))) <|
    hline.bind <| matches_pure.2 ⟨rfl, rfl⟩
  exact hline.bind_fails (lineEnd_fails hname).bind

end Words

section Nested

variable {c next after : Cursor} {tail more : List Char} {x y : String} {limit n : Nat}

def nested (tail : List Char) : Nat → List Char
  -- The innermost of the references goes on as `tail`.
  | 0 => tail
  | n + 1 => "a<b, ".toList ++ nested tail n

theorem nested_append (tail more : List Char) (n : Nat) :
    nested tail n ++ more = nested (tail ++ more) n := by
  induction n with
  | zero => rfl
  | succ n ih => rw [nested, nested, List.append_assoc, ih]

theorem nested_subset {chars : List Char} (hopening : "a<b, ".toList ⊆ chars) (htail : tail ⊆ chars)
    (n : Nat) : nested tail n ⊆ chars := by
  induction n with
  | zero => exact htail
  | succ n ih => exact List.append_subset.2 ⟨hopening, ih⟩

/-- A name with no bracket after it is a reference without arguments. -/
theorem matches_bare_reference (hname : (Token.name x).Stands c after)
    (hopen : ∀ more, after.settle.rest ≠ '<' :: more) :
    (reference (limit + 1)).Matches c (.ofArgs ⟨x, c.loc⟩ []) after.settle := by
  have hargs : (named .args (bracketed (reference limit))).Fails after.settle :=
    fails_named.2 (Fails.bind (sign_fails rfl hopen))
  exact matches_named.2 <| (matches_here.2 ⟨rfl, rfl⟩).bind <| (matches_name hname).bind <|
    (matches_layout after).bind <| (matches_optional.2 (.inr ⟨rfl, rfl, .inr hargs⟩)).bind <|
    matches_pure.2 ⟨rfl, rfl⟩

/-- A reference is given up where its second argument is. -/
theorem reference_givesUp (h : Spaced c [(.name x, none), sign '<', (.name y, none), sign ','] next)
    (hnext : (reference limit).GivesUp next.settle) : (reference (limit + 1)).GivesUp c.settle := by
  obtain ⟨afterHead, hhead, _, h⟩ := h.first
  obtain ⟨afterOpening, hopening, _, h⟩ := h.first
  obtain ⟨afterFirst, hfirst, _, h⟩ := h.first
  obtain ⟨afterComma, hcomma, _, h⟩ := h.first
  rw [← h.settle_eq_settle] at hnext
  have hargs : (bracketed (reference limit)).GivesUp afterHead.settle := by
    refine (matches_sign rfl hopening).bind_givesUp <| (matches_layout afterOpening).bind_givesUp ?_
    -- At the limit the first argument is given up already.
    cases limit with
    | zero => exact GivesUp.bind rfl
    | succ limit =>
      have hbare : (reference (limit + 1)).Matches afterOpening.settle _ afterFirst.settle :=
        matches_bare_reference hfirst (hcomma.head_ne (by decide) (by decide))
      refine hbare.bind_givesUp <| GivesUp.bind <| GivesUp.many ?_ hcomma.rest_ne_nil
      exact givesUp_group.2 <| (matches_layout_of_settled hcomma.settle_eq).bind_givesUp <|
        (matches_sign rfl hcomma).bind_givesUp <| (matches_layout afterComma).bind_givesUp hnext
  exact givesUp_named.2 <| (matches_here.2 ⟨rfl, rfl⟩).bind_givesUp <| (matches_name hhead).bind_givesUp <|
    (matches_layout afterHead).bind_givesUp <|
    ((givesUp_named.2 hargs).optional hopening.rest_ne_nil).bind

theorem exists_spaced_nested (h : c.rest = nested tail (n + 1)) :
    ∃ next, Spaced c [(.name "a", none), sign '<', (.name "b", none), sign ','] next ∧
      next.rest = nested tail n := by
  have hhead : (Token.name "a").Stands c (c.skip ['a'] ('<' :: 'b' :: ',' :: ' ' :: nested tail n)) :=
    ⟨_, .name (by decide) (by decide) (by simp [Cursor.skip]; decide), Cursor.passes_skip h⟩
  have hfirst : ∀ mid : Cursor, mid.rest = 'b' :: ',' :: ' ' :: nested tail n →
      (Token.name "b").Stands mid (mid.skip ['b'] (',' :: ' ' :: nested tail n)) := fun mid hmid =>
    ⟨_, .name (by decide) (by decide) (by simp [Cursor.skip]; decide), Cursor.passes_skip hmid⟩
  refine ⟨_, .token (.refl c) (by simp) hhead <|
    .token (.refl _) (by simp) ⟨_, .sign (by decide), Cursor.passes_skip rfl⟩ <|
    .token (.refl _) (by simp) (hfirst _ rfl) <|
    .token (.refl _) (by simp) ⟨_, .sign (by decide), Cursor.passes_skip rfl⟩ <|
    .done ⟨[' '], .blank (.inl rfl) .nil, Cursor.passes_skip rfl⟩, rfl⟩

/-- References that nest beyond the limit are given up, however they go on. -/
theorem reference_givesUp_of_nested (h : limit ≤ n) (hrest : c.rest = nested tail n) :
    (reference limit).GivesUp c.settle := by
  induction limit generalizing n c with
  | zero => rfl
  | succ limit ih =>
    obtain ⟨n, rfl⟩ := Nat.exists_eq_add_of_le' (Nat.one_le_of_lt h)
    obtain ⟨next, hspaced, hnext⟩ := exists_spaced_nested hrest
    exact reference_givesUp hspaced (ih (by omega) hnext)

theorem exists_spaced_start (h : c.rest = "start = ".toList ++ more) :
    ∃ next, Spaced c [(.start, none), sign '='] next ∧ next.rest = more := by
  have hstart : Token.start.Stands c (c.skip "start".toList (' ' :: '=' :: ' ' :: more)) :=
    ⟨_, .start, Cursor.passes_skip h⟩
  exact ⟨_, .token (.refl c) (by simp) hstart <|
    .token ⟨[' '], .blank (.inl rfl) .nil, Cursor.passes_skip rfl⟩ (by simp)
      ⟨_, .sign (by decide), Cursor.passes_skip rfl⟩ <|
    .done ⟨[' '], .blank (.inl rfl) .nil, Cursor.passes_skip rfl⟩, rfl⟩

theorem startLine_givesUp (h : Spaced c [(.start, none), sign '='] next)
    (hnext : (reference nestingLimit).GivesUp next.settle) : startLine.GivesUp c.settle := by
  obtain ⟨after, hstart, _, h⟩ := h.first
  obtain ⟨beyond, hequals, _, h⟩ := h.first
  rw [← h.settle_eq_settle] at hnext
  exact givesUp_named.2 <| (matches_here.2 ⟨rfl, rfl⟩).bind_givesUp <|
    (matches_start hstart).bind_givesUp <|
    (matches_layout after).bind_givesUp <| (matches_sign rfl hequals).bind_givesUp <|
    (matches_layout beyond).bind_givesUp hnext.bind

theorem line_givesUp (h : Spaced c [(.start, none), sign '='] next)
    (hnext : (reference nestingLimit).GivesUp next.settle) : line.GivesUp c :=
  givesUp_named.2 <| (matches_layout c).bind_givesUp <| GivesUp.bind <|
    (givesUp_named.2 (startLine_givesUp h hnext).orElse).optional h.rest_ne_nil

end Nested

end Grammar

open Grammar Scanner

namespace Program

variable {text : List Char} {stop : Nat}

/-- Without comments the line of an error has been scanned from its beginning before. -/
theorem not_overruns (htext : ¬Commented text) (h : Statement.scan text = .stopped stop) :
    ¬Overruns text stop := by
  intro hdeep
  rw [Overruns] at hdeep
  rw [Statement.scan] at h
  cases hverdict : (Grammar.program (Cursor.ofOffset text 0)).verdict with
  | tooDeep => simp [hverdict] at h
  | failed =>
    obtain rfl : 0 = stop := by simpa [hverdict] using h
    have hline : line.GivesUp (Cursor.ofOffset text 0) := Verdict.eq_tooDeep hdeep
    have hprogram : (Grammar.program (Cursor.ofOffset text 0)).verdict = .tooDeep := program_givesUp hline
    simp [hprogram] at hverdict
  | matched statements next =>
    -- The last line was scanned from where the line that holds `stop` begins, and it did not give up.
    obtain ⟨before, mid, found, hbefore, hbegins, hline⟩ := exists_last_line hverdict
    obtain ⟨current, hcurrent, hfeed⟩ := closed_inline.line _ _ _ hline
    have hsplit : text = before ++ current ++ next.rest :=
      (hbefore.trans hcurrent).rest_eq
    obtain rfl : (before ++ current).length = stop := by
      have hoffset := (hbefore.trans hcurrent).offset_eq
      simp only [hverdict] at h
      split at h
      · simp at h
      · simpa [Cursor.ofOffset, hoffset] using h
    have hstart : SyntaxError.lineStart text (before ++ current).length = before.length := by
      rw [hsplit]
      exact SyntaxError.lineStart_eq hbegins (hfeed (hbefore.not_commented htext))
    rw [hstart, ← hbefore.eq_ofOffset, show (line mid).verdict = .matched found next from hline] at hdeep
    simp [Verdict.isTooDeep] at hdeep

section DeepComment

theorem scan_eq_stopped {gap : List Char} {x : String} (hgap : Layout gap) (hx : IsName x) (hkeyword : x ∉ keywords) :
    Statement.scan (gap ++ x.toList) = .stopped gap.length := by
  have hpass : (Cursor.ofOffset (gap ++ x.toList) 0).Passes gap _ := Cursor.passes_skip rfl
  have hname : (Token.name x).Stands ((Cursor.ofOffset (gap ++ x.toList) 0).skip gap x.toList)
      (((Cursor.ofOffset (gap ++ x.toList) 0).skip gap x.toList).skip x.toList []) :=
    ⟨_, .name hx hkeyword (by simp [Cursor.skip]), Cursor.passes_skip (List.append_nil _).symm⟩
  have hmatch : (Grammar.program (Cursor.ofOffset (gap ++ x.toList) 0)).verdict = _ :=
    matches_program_up_to ⟨gap, hgap, hpass⟩ hname rfl
  have hne : x.toList ≠ [] := hname.rest_ne_nil
  rw [Statement.scan, hmatch]
  simpa [Cursor.skip, Cursor.ofOffset] using hne

/-- The line that holds an offset is scanned from its beginning, wherever it stands. -/
theorem overruns_of_givesUp {before current rest : List Char} (hbefore : BeginsLine before)
    (hcurrent : '\n' ∉ current) (hline : ∀ c : Cursor, c.rest = current ++ rest → line.GivesUp c) :
    Overruns (before ++ current ++ rest) (before ++ current).length := by
  have hdeep : (line (Cursor.ofOffset (before ++ current ++ rest) before.length)).verdict = .tooDeep :=
    hline _ (by simp [Cursor.ofOffset])
  rw [Overruns, SyntaxError.lineStart_eq hbefore hcurrent, hdeep]
  rfl

def deepLine (n : Nat) : List Char := "start = ".toList ++ nested ('a' :: List.replicate n '>') n

def deepComment (n : Nat) : String :=
  -- The line stands in a comment, and a word after the comment.
  String.ofList ("/*\n".toList ++ (deepLine n ++ " */ ".toList) ++ "x".toList)

theorem deepLine_subset (n : Nat) : deepLine n ⊆ "start = a<b, >".toList := by
  have htail : List.replicate n '>' ⊆ "start = a<b, >".toList := by
    intro char hchar
    rw [List.eq_of_mem_replicate hchar]
    decide
  exact List.append_subset.2
    ⟨by decide, nested_subset (by decide) (List.cons_subset.2 ⟨by decide, htail⟩) n⟩

theorem layout_deepLine (n : Nat) : Layout ("/*\n".toList ++ (deepLine n ++ " */ ".toList)) := by
  have hslash : '/' ∉ deepLine n := fun hmem => absurd (deepLine_subset n hmem) (by decide)
  have hinner : ¬ ['*', '/'] <:+: '\n' :: deepLine n ++ [' '] ++ ['*'] := by
    intro hinfix
    have hmem := hinfix.subset (show '/' ∈ ['*', '/'] by decide)
    simp [hslash] at hmem
  have hcomment := Layout.comment ⟨_, rfl, hinner⟩ (.blank (.inl rfl) .nil)
  simpa using hcomment

theorem line_givesUp_of_deepLine {n : Nat} (h : nestingLimit ≤ n) {c : Cursor} {more : List Char}
    (hrest : c.rest = deepLine n ++ more) : line.GivesUp c := by
  have hmore : c.rest = "start = ".toList ++ nested ('a' :: List.replicate n '>' ++ more) n := by
    rw [hrest, ← nested_append, ← List.append_assoc]
    rfl
  obtain ⟨next, hspaced, hnext⟩ := exists_spaced_start hmore
  exact line_givesUp hspaced (reference_givesUp_of_nested h hnext)

/-- The word is where the error is, and the line is scanned again from inside the comment. -/
theorem parse_deepComment {n : Nat} (h : nestingLimit ≤ n) (file : String) :
    parse (deepComment n) file = .error (.crashed .overflow) := by
  have hcurrent : '\n' ∉ deepLine n ++ " */ ".toList := by
    have hline : '\n' ∉ deepLine n := fun hmem => absurd (deepLine_subset n hmem) (by decide)
    simp [hline]
  rw [parse_eq_crashed, deepComment, String.toList_ofList]
  refine ⟨("/*\n".toList ++ (deepLine n ++ " */ ".toList)).length,
    scan_eq_stopped (layout_deepLine n) (by decide) (by decide),
    overruns_of_givesUp (.inr ⟨['/', '*'], rfl⟩) hcurrent fun c hc => ?_⟩
  rw [List.append_assoc] at hc
  exact line_givesUp_of_deepLine h hc

end DeepComment

end Program

end GenericTuring
