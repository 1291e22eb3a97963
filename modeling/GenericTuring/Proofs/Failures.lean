import GenericTuring.Proofs.Lexemes
import GenericTuring.Proofs.Scanners

/-!
Where scanners fail. Every failure that a scanner keeps lies between the place where the scanner begins and
the end of the text; this is shown for each way of combining scanners, and so holds of all productions.
-/

namespace GenericTuring.Grammar

def Cursor.last (c : Cursor) : Nat := c.offset + c.rest.length

def Failure.After (c : Cursor) (f : Failure) : Prop := c.offset ≤ f.offset ∧ f.offset ≤ c.last

def Cursor.Precedes (c next : Cursor) : Prop := c.offset ≤ next.offset ∧ next.last = c.last

theorem Failure.After.of_precedes {c next : Cursor} {f : Failure} (h : f.After next)
    (hnext : c.Precedes next) : f.After c :=
  ⟨hnext.1.trans h.1, hnext.2 ▸ h.2⟩

theorem Cursor.Precedes.trans {c mid next : Cursor} (h : c.Precedes mid) (hnext : mid.Precedes next) :
    c.Precedes next :=
  ⟨h.1.trans hnext.1, hnext.2.trans h.2⟩

theorem Cursor.Passes.precedes {c next : Cursor} {taken : List Char} (h : c.Passes taken next) :
    c.Precedes next := by
  have hlength : c.rest.length = taken.length + next.rest.length := by
    rw [h.rest_eq, List.length_append]
  refine ⟨by rw [h.offset_eq]; omega, ?_⟩
  rw [last, last, h.offset_eq, hlength, Nat.add_assoc]

def Lexeme.Splits (lexeme : Lexeme) : Prop :=
  ∀ text taken rest, lexeme text = some (taken, rest) → text = taken ++ rest

namespace Scanner

variable {α β : Type} {p q : Scanner α} {f : α → Scanner β}

section Kept

variable {c mid next : Cursor} {value : α} {production : Option Production}

theorem failures_take (lexeme : Lexeme) (c : Cursor) : (take lexeme c).failures = [] := by
  rw [take]
  split <;> rfl

theorem Matches.eq (h : p.Matches c value next) : p c = ⟨.matched value next, (p c).failures⟩ := by
  rw [← show (p c).verdict = .matched value next from h]

theorem Fails.eq (h : p.Fails c) : p c = ⟨.failed, (p c).failures⟩ := by
  rw [← show (p c).verdict = .failed from h]

theorem failures_bind_of_matches (h : p.Matches c value mid) :
    ((p >>= f) c).failures = (p c).failures ++ (f value mid).failures := by
  show (andThen p f c).failures = _
  rw [andThen, h.eq]

theorem failures_bind_of_fails (h : p.Fails c) : ((p >>= f) c).failures = (p c).failures := by
  show (andThen p f c).failures = _
  rw [andThen, h.eq]

theorem failures_noting_of_matches (h : p.Matches c value next) :
    (noting production p c).failures = (p c).failures := by
  rw [noting, h.eq]

theorem failures_noting_of_fails (h : p.Fails c) :
    (noting production p c).failures = (p c).failures ++ [⟨production, c.offset⟩] := by
  rw [noting, h.eq]

theorem failures_orElse_of_fails (h : p.Fails c) :
    (orElse p q c).failures = (p c).failures ++ (q c).failures := by
  rw [orElse, h.eq]

theorem failures_optional (h : c.rest ≠ []) : (optional p c).failures = (p c).failures := by
  have hmore : ¬ c.rest.isEmpty = true := by simpa using h
  rw [optional, if_neg hmore]
  cases hattempt : p c with
  | mk verdict failures => cases verdict <;> rfl

theorem failures_optional_of_nil (h : c.rest = []) : (optional p c).failures = [] := by
  simp [optional, h]

/-- What is tried first fails first. -/
theorem failures_bind_front : (p c).failures <+: ((p >>= f) c).failures := by
  show (p c).failures <+: (andThen p f c).failures
  rw [andThen]
  split
  · next hattempt => simp [hattempt]
  · next hattempt => simp [hattempt]
  · next hattempt => simp [hattempt]

theorem failures_noting_front : (p c).failures <+: (noting production p c).failures := by
  rw [noting]
  split
  · next hattempt => simp [hattempt]
  · exact List.prefix_rfl

theorem failures_orElse_front : (p c).failures <+: (orElse p q c).failures := by
  rw [orElse]
  split
  · next hattempt => simp [hattempt]
  · exact List.prefix_rfl

theorem failures_take_pure (lexeme : Lexeme) (g : List Char → α) (c : Cursor) :
    ((take lexeme >>= fun taken => pure (g taken)) c).failures = [] := by
  show (andThen (take lexeme) (fun taken => succeed (g taken)) c).failures = []
  cases hlexeme : lexeme c.rest <;> simp [andThen, take, hlexeme, succeed]

end Kept

def Keeps (R : Cursor → Failure → Prop) (p : Scanner α) : Prop :=
  ∀ c, ∀ failure ∈ (p c).failures, R c failure

section Relation

variable {R : Cursor → Failure → Prop}

theorem keeps_take_pure (lexeme : Lexeme) (g : List Char → α) :
    Keeps R (take lexeme >>= fun taken => pure (g taken)) := by
  intro c failure h
  rw [failures_take_pure] at h
  simp at h

theorem Keeps.noting (hp : Keeps R p) {production : Option Production}
    (hR : ∀ c, R c ⟨production, c.offset⟩) : Keeps R (Scanner.noting production p) := by
  intro c failure h
  have hinner := hp c
  simp only [Scanner.noting] at h
  cases hattempt : p c with
  | mk verdict failures =>
    rw [hattempt] at h hinner
    cases verdict with
    | matched value next => exact hinner failure h
    | failed =>
      cases List.mem_append.1 h with
      | inl hmem => exact hinner failure hmem
      | inr hmem => exact List.mem_singleton.1 hmem ▸ hR c
    | tooDeep => exact hinner failure h

theorem Keeps.orElse (hp : Keeps R p) (hq : Keeps R q) : Keeps R (Scanner.orElse p q) := by
  intro c failure h
  have hfirst := hp c
  simp only [Scanner.orElse] at h
  cases hattempt : p c with
  | mk verdict failures =>
    rw [hattempt] at h hfirst
    cases verdict with
    | matched value next => exact hfirst failure h
    | failed =>
      cases List.mem_append.1 h with
      | inl hmem => exact hfirst failure hmem
      | inr hmem => exact hq c failure hmem
    | tooDeep => exact hfirst failure h

end Relation

structure Confined (p : Scanner α) : Prop where
  failures : Keeps (fun c failure => failure.After c) p
  matched : ∀ c value next, p.Matches c value next → c.Precedes next

theorem confined_pure (value : α) : Confined (pure value) where
  failures c failure h := by simp [pure, succeed] at h
  matched c found next h := by
    obtain ⟨_, rfl⟩ := matches_pure.1 h
    exact next.passes_refl.precedes

theorem confined_here : Confined here where
  failures c failure h := by simp [here] at h
  matched c loc next h := by
    obtain ⟨_, rfl⟩ := matches_here.1 h
    exact next.passes_refl.precedes

theorem confined_giveUp : Confined (giveUp : Scanner α) where
  failures c failure h := by simp [giveUp] at h
  matched c value next h := absurd h not_matches_giveUp

theorem confined_take {lexeme : Lexeme} (hsplits : lexeme.Splits) : Confined (take lexeme) where
  failures c failure h := by
    cases hlexeme : lexeme c.rest <;> simp [take, hlexeme] at h
  matched c taken next h := by
    obtain ⟨rest, hsplit, rfl⟩ := matches_take.1 h
    exact (Cursor.passes_skip (hsplits _ _ _ hsplit)).precedes

section Attempt

variable {c mid : Cursor} {verdict : Verdict α} {value : α} {failures : List Failure}

theorem Confined.after (hp : p.Confined) (h : p c = ⟨verdict, failures⟩) {failure : Failure}
    (hmem : failure ∈ failures) : failure.After c :=
  hp.failures c failure (by rw [h]; exact hmem)

theorem Confined.precedes (hp : p.Confined) (h : p c = ⟨.matched value mid, failures⟩) :
    c.Precedes mid :=
  hp.matched c value mid (by rw [Matches, h])

end Attempt

theorem Confined.bind (hp : p.Confined) (hf : ∀ value, (f value).Confined) : Confined (p >>= f) where
  failures c failure h := by
    simp only [Bind.bind, andThen] at h
    cases hattempt : p c with
    | mk verdict failures =>
      rw [hattempt] at h
      cases verdict with
      | matched value mid =>
        cases List.mem_append.1 h with
        | inl hmem => exact hp.after hattempt hmem
        | inr hmem =>
          exact ((hf value).failures mid failure hmem).of_precedes (hp.precedes hattempt)
      | failed => exact hp.after hattempt h
      | tooDeep => exact hp.after hattempt h
  matched c last next h := by
    obtain ⟨value, mid, hfirst, hsecond⟩ := matches_bind.1 h
    exact (hp.matched c value mid hfirst).trans ((hf value).matched mid last next hsecond)

theorem Confined.noting (hp : p.Confined) (production : Option Production) :
    (Scanner.noting production p).Confined where
  failures := hp.failures.noting fun _ => ⟨Nat.le_refl _, Nat.le_add_right _ _⟩
  matched c value next h := hp.matched c value next (matches_noting.1 h)

theorem Confined.orElse (hp : p.Confined) (hq : q.Confined) : (Scanner.orElse p q).Confined where
  failures := hp.failures.orElse hq.failures
  matched c value next h := by
    cases matches_orElse.1 h with
    | inl hfirst => exact hp.matched c value next hfirst
    | inr hsecond => exact hq.matched c value next hsecond.2

theorem Confined.optional (hp : p.Confined) : (Scanner.optional p).Confined where
  failures c failure h := by
    simp only [Scanner.optional] at h
    by_cases hend : c.rest.isEmpty = true
    · simp [hend] at h
    · rw [if_neg hend] at h
      cases hattempt : p c with
      | mk verdict failures =>
        rw [hattempt] at h
        cases verdict with
        | matched value mid => exact hp.after hattempt h
        | failed => exact hp.after hattempt h
        | tooDeep => exact hp.after hattempt h
  matched c found next h := by
    rcases matches_optional.1 h with ⟨value, _, _, hvalue⟩ | ⟨_, rfl, _⟩
    · exact hp.matched c value next hvalue
    · exact next.passes_refl.precedes

theorem Confined.many (hp : p.Confined) : Confined (Scanner.many p) where
  failures c failure h := by
    -- the repetitions after the first begin further on, so their failures lie after the first too
    have hrest : ∀ {c value mid failures}, p c = ⟨.matched value mid, failures⟩ →
        ∀ {more}, failure ∈ failures ++ more → (failure ∈ more → failure.After mid) →
          failure.After c := by
      intro c value mid failures hattempt more hmem hmore
      cases List.mem_append.1 hmem with
      | inl hmem => exact hp.after hattempt hmem
      | inr hmem => exact (hmore hmem).of_precedes (hp.precedes hattempt)
    fun_induction Scanner.many p c with
    | case1 => simp at h
    | case2 c _ value mid failures hattempt _ values last more hmore ih =>
      exact hrest hattempt h fun hmem => ih (by rw [hmore]; exact hmem)
    | case3 c _ value mid failures hattempt _ more hmore ih =>
      exact hrest hattempt h fun hmem => ih (by rw [hmore]; exact hmem)
    | case4 c _ value mid failures hattempt _ more hmore ih =>
      exact hrest hattempt h fun hmem => ih (by rw [hmore]; exact hmem)
    | case5 c _ value mid failures hattempt _ => exact hp.after hattempt h
    | case6 c _ failures hattempt => exact hp.after hattempt h
    | case7 c _ failures hattempt => exact hp.after hattempt h
  matched c values next h :=
    many_induction (P := fun c _ next => c.Precedes next) (fun c => c.passes_refl.precedes)
      (fun hfirst hrest => (hp.matched _ _ _ hfirst).trans hrest) h

end Scanner

open Scanner

section Lexemes

theorem splits_exactly (word : List Char) : (exactly word).Splits := by
  intro text taken rest h
  obtain ⟨rfl, htext⟩ := exactly_eq_some.1 h
  exact htext

theorem splits_layoutLexeme : Lexeme.Splits layoutLexeme := by
  intro text taken rest h
  obtain ⟨rfl, rfl⟩ := Prod.mk.inj (Option.some.inj h)
  exact (layoutSplit_append_eq text).symm

theorem splits_lineEndLexeme : Lexeme.Splits lineEndLexeme :=
  fun _ _ _ h => (lineEndLexeme_eq_some.1 h).2

theorem splits_lineCommentLexeme : Lexeme.Splits lineCommentLexeme := by
  intro text taken rest h
  obtain ⟨_, _, htext, _⟩ := lineCommentLexeme_eq_some.1 h
  exact htext

theorem splits_nameLexeme : Lexeme.Splits nameLexeme := fun _ _ _ h => (name_of_nameLexeme h).1

theorem splits_wholeWord (word : String) : (wholeWord word).Splits := by
  intro text taken rest h
  obtain ⟨rfl, htext, _⟩ := wholeWord_eq_some.1 h
  exact htext

theorem splits_digitLexeme : Lexeme.Splits digitLexeme := by
  intro text taken rest h
  obtain ⟨c, _, rfl, htext⟩ := digitLexeme_eq_some.1 h
  exact htext

theorem splits_quotedLexeme : Lexeme.Splits quotedLexeme := by
  intro text taken rest h
  obtain ⟨c, _, _, rfl, htext⟩ := quotedLexeme_eq_some.1 h
  exact htext

end Lexemes

inductive Lexeme.InLine : Lexeme → Prop
  | layout : InLine layoutLexeme
  | lineComment : InLine lineCommentLexeme
  | name : InLine nameLexeme
  | digit : InLine digitLexeme
  | quoted : InLine quotedLexeme
  | exactly {word : List Char} (h : '\n' ∉ word) : InLine (exactly word)
  | wholeWord (move : Move) : InLine (wholeWord move.keyword)

theorem Lexeme.InLine.splits {lexeme : Lexeme} (h : lexeme.InLine) : lexeme.Splits := by
  cases h with
  | layout => exact splits_layoutLexeme
  | lineComment => exact splits_lineCommentLexeme
  | name => exact splits_nameLexeme
  | digit => exact splits_digitLexeme
  | quoted => exact splits_quotedLexeme
  | exactly => exact splits_exactly _
  | wholeWord move => exact splits_wholeWord _

/-- The property is kept by all the ways of combining scanners, and the lexemes of a line have it. -/
structure Scanner.Closed (P : ∀ α : Type, Scanner α → Prop) : Prop where
  value : ∀ {α : Type} (value : α), P α (pure value)
  place : P Loc here
  nothing : ∀ {α : Type}, P α giveUp
  take : ∀ {lexeme : Lexeme}, lexeme.InLine → P (List Char) (take lexeme)
  bind : ∀ {α β : Type} {p : Scanner α} {f : α → Scanner β}, P α p → (∀ value, P β (f value)) →
    P β (p >>= f)
  noting : ∀ {α : Type} {p : Scanner α} (production : Option Production), P α p →
    P α (noting production p)
  orElse : ∀ {α : Type} {p q : Scanner α}, P α p → P α q → P α (orElse p q)
  optional : ∀ {α : Type} {p : Scanner α}, P α p → P (Option α) (optional p)
  many : ∀ {α : Type} {p : Scanner α}, P α p → P (List α) (many p)

namespace Scanner.Closed

variable {P : ∀ α : Type, Scanner α → Prop}

theorem literal (h : Closed P) {text : String} (htext : '\n' ∉ text.toList) :
    P _ (Scanner.literal text) :=
  h.noting none (h.take (.exactly htext))

theorem layout (h : Closed P) : P _ Grammar.layout := h.noting (some .layout) (h.take .layout)

theorem name (h : Closed P) : P _ Grammar.name :=
  h.noting _ (h.bind (h.take .name) fun _ => h.value _)

theorem movement (h : Closed P) : P _ Grammar.movement := by
  have hword : ∀ move, P _ (movementWord move) :=
    fun move => h.bind (h.take (.wholeWord move)) fun _ => h.value _
  exact h.noting _ (h.orElse (hword _) (h.orElse (hword _) (hword _)))

theorem symbol (h : Closed P) : P _ Grammar.symbol := by
  have hblank : P _ blank := h.noting _ (h.bind (h.take (.exactly (by simp))) fun _ => h.value _)
  have hdigit : P _ digit := h.noting _ (h.bind (h.take .digit) fun _ => h.value _)
  have hquoted : P _ quoted := h.noting _ (h.bind (h.take .quoted) fun _ => h.value _)
  exact h.noting _ (h.orElse hblank (h.orElse hdigit hquoted))

theorem bracketed (h : Closed P) {α : Type} {item : Scanner α} (hitem : P α item) :
    P _ (Grammar.bracketed item) :=
  h.bind (h.literal (by simp)) fun _ => h.bind h.layout fun _ => h.bind hitem fun _ =>
    h.bind (h.many (h.noting none (h.bind h.layout fun _ => h.bind (h.literal (by simp)) fun _ =>
      h.bind h.layout fun _ => hitem))) fun _ =>
    h.bind h.layout fun _ => h.bind (h.literal (by simp)) fun _ => h.value _

theorem stateHead (h : Closed P) : P _ Grammar.stateHead :=
  h.noting _ (h.bind h.name fun _ => h.bind h.layout fun _ =>
    h.bind (h.optional (h.noting _ (h.bracketed h.name))) fun _ => h.value _)

theorem reference (h : Closed P) (limit : Nat) : P _ (Grammar.reference limit) := by
  induction limit with
  | zero => exact h.nothing
  | succ limit ih =>
    exact h.noting _ (h.bind h.place fun _ => h.bind h.name fun _ => h.bind h.layout fun _ =>
      h.bind (h.optional (h.noting _ (h.bracketed ih))) fun _ => h.value _)

theorem locatedSymbol (h : Closed P) : P _ Grammar.locatedSymbol :=
  h.bind h.place fun _ => h.bind h.symbol fun _ => h.value _

theorem startLine (h : Closed P) : P _ Grammar.startLine :=
  h.noting _ (h.bind h.place fun _ => h.bind (h.literal (by simp)) fun _ =>
    h.bind h.layout fun _ => h.bind (h.literal (by simp)) fun _ => h.bind h.layout fun _ =>
    h.bind (h.reference _) fun _ => h.value _)

theorem ruleLine (h : Closed P) : P _ Grammar.ruleLine :=
  h.noting _ (h.bind h.place fun _ => h.bind h.stateHead fun _ => h.bind h.layout fun _ =>
    h.bind h.locatedSymbol fun _ => h.bind h.layout fun _ => h.bind (h.literal (by simp)) fun _ =>
    h.bind h.layout fun _ => h.bind h.locatedSymbol fun _ => h.bind h.layout fun _ =>
    h.bind (h.literal (by simp)) fun _ => h.bind h.layout fun _ => h.bind (h.reference _) fun _ =>
    h.bind h.layout fun _ => h.bind h.movement fun _ => h.value _)

theorem line (h : Closed P) : P _ Grammar.line :=
  h.noting _ (h.bind h.layout fun _ =>
    h.bind (h.optional (h.noting _ (h.orElse h.startLine h.ruleLine))) fun _ =>
    h.bind h.layout fun _ =>
    h.bind (h.optional (h.noting _ (h.take .lineComment))) fun _ => h.value _)

theorem program (h : Closed P) (hlineEnd : P _ lineEnd) : P _ Grammar.program :=
  h.noting _ (h.bind (h.many (h.noting none
    (h.bind h.line fun _ => h.bind hlineEnd fun _ => h.value _))) fun _ =>
    h.bind h.line fun _ => h.value _)

end Scanner.Closed

theorem closed_confined : Closed fun _ p => Confined p where
  value := confined_pure
  place := confined_here
  nothing := confined_giveUp
  take h := confined_take h.splits
  bind := Confined.bind
  noting production hp := hp.noting production
  orElse := Confined.orElse
  optional := Confined.optional
  many := Confined.many

theorem confined_line : line.Confined := closed_confined.line

theorem confined_program : program.Confined :=
  closed_confined.program ((confined_take splits_lineEndLexeme).noting _)

end GenericTuring.Grammar
