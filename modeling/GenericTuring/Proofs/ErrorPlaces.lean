import GenericTuring.Proofs.Accepted
import GenericTuring.Proofs.Failures
import GenericTuring.Proofs.Offsets
import Mathlib

/-!
Where a syntax error is placed. It is the furthest failure among those that count: the failures of
productions, and the first failure of all. A missing sign is no failure of a production, so where a sign
is missing the error may be placed at something that was matched before.
-/

namespace GenericTuring

namespace Grammar

def Failure.Counts (failures : List Failure) (f : Failure) : Prop :=
  f ∈ failures ∧ f.production.isSome = true ∨ failures.head? = some f

theorem Failure.Counts.mem {failures : List Failure} {f : Failure} (h : f.Counts failures) :
    f ∈ failures :=
  h.elim And.left List.mem_of_mem_head?

def Failure.IsFurthest (failures : List Failure) (f : Failure) : Prop :=
  f.Counts failures ∧ ∀ g : Failure, g.Counts failures → g.offset ≤ f.offset

/-- The failure after the first takes its place if it is that of a production and no nearer. -/
theorem furthest_cons_cons (first next : Failure) (others : List Failure) :
    furthest (first :: next :: others) =
      furthest ((if first.offset ≤ next.offset && next.production.isSome then next else first) ::
        others) := by
  by_cases h : (first.offset ≤ next.offset && next.production.isSome) = true
  · simp only [furthest, List.foldl_cons, h, if_true]
  · simp only [furthest, List.foldl_cons, h, Bool.false_eq_true, if_false]

theorem exists_furthest_cons (first : Failure) (others : List Failure) :
    ∃ f : Failure, furthest (first :: others) = some f ∧
      (f = first ∨ f ∈ others ∧ f.production.isSome = true) ∧ first.offset ≤ f.offset ∧
      ∀ g ∈ others, g.production.isSome = true → g.offset ≤ f.offset := by
  induction others generalizing first with
  | nil => exact ⟨first, rfl, .inl rfl, Nat.le_refl _, by simp⟩
  | cons next others ih =>
    rw [furthest_cons_cons]
    by_cases hnext : (first.offset ≤ next.offset && next.production.isSome) = true
    · obtain ⟨hle, hnamed⟩ : first.offset ≤ next.offset ∧ next.production.isSome = true := by
        simpa using hnext
      obtain ⟨f, hf, hcounts, hfirst, hothers⟩ := ih next
      rw [if_pos hnext]
      refine ⟨f, hf, .inr ?_, hle.trans hfirst, ?_⟩
      · cases hcounts with
        | inl heq =>
          rw [heq]
          exact ⟨List.mem_cons_self, hnamed⟩
        | inr hmem => exact ⟨List.mem_cons_of_mem next hmem.1, hmem.2⟩
      · intro g hg hproduction
        cases List.mem_cons.1 hg with
        | inl heq => exact heq ▸ hfirst
        | inr hmem => exact hothers g hmem hproduction
    · obtain ⟨f, hf, hcounts, hfirst, hothers⟩ := ih first
      rw [if_neg hnext]
      refine ⟨f, hf, hcounts.imp_right fun hmem => ⟨List.mem_cons_of_mem next hmem.1, hmem.2⟩, hfirst,
        ?_⟩
      intro g hg hproduction
      cases List.mem_cons.1 hg with
      | inl heq =>
        have hnot : ¬ first.offset ≤ g.offset := by simpa [← heq, hproduction] using hnext
        omega
      | inr hmem => exact hothers g hmem hproduction

theorem furthest_cons (first : Failure) (others : List Failure) :
    ∃ f : Failure, furthest (first :: others) = some f ∧ f.IsFurthest (first :: others) := by
  obtain ⟨f, hf, hcounts, hfirst, hothers⟩ := exists_furthest_cons first others
  refine ⟨f, hf, ?_, fun g hg => ?_⟩
  · cases hcounts with
    | inl heq => exact .inr (congrArg some heq.symm)
    | inr hmem => exact .inl ⟨List.mem_cons_of_mem first hmem.1, hmem.2⟩
  · cases hg with
    | inl hmem =>
      cases List.mem_cons.1 hmem.1 with
      | inl heq => exact heq ▸ hfirst
      | inr hlater => exact hothers g hlater hmem.2
    | inr hhead => exact Option.some.inj hhead ▸ hfirst

theorem isFurthest_of_furthest {failures : List Failure} {f : Failure}
    (h : furthest failures = some f) : f.IsFurthest failures := by
  cases failures with
  | nil => simp [furthest] at h
  | cons first others =>
    obtain ⟨g, hg, hfurthest⟩ := furthest_cons first others
    obtain rfl := Option.some.inj (h.symm.trans hg)
    exact hfurthest

theorem eq_nil_of_furthest {failures : List Failure} (h : furthest failures = none) :
    failures = [] := by
  cases failures with
  | nil => rfl
  | cons first others =>
    obtain ⟨g, hg, _⟩ := furthest_cons first others
    simp [h] at hg

section Counting

open Scanner

variable {c after next : Cursor} {x : String} {s : Symbol}

theorem precedes_settle (c : Cursor) : c.Precedes c.settle :=
  (Cursor.passes_skip (layoutSplit_append_eq c.rest).symm).precedes

theorem failures_layout (c : Cursor) : (layout c).failures = [] := by
  rw [layout, named, failures_noting_of_matches (matches_named.1 (matches_layout c)), failures_take]

theorem failures_literal_of_matches {text : String} {taken : List Char}
    (h : (literal text).Matches c taken next) : (literal text c).failures = [] := by
  rw [literal, group, failures_noting_of_matches (matches_group.1 h), failures_take]

theorem failures_literal_of_fails {text : String} (h : (literal text).Fails c) :
    (literal text c).failures = [⟨none, c.offset⟩] := by
  rw [literal, group, failures_noting_of_fails (fails_group.1 h), failures_take, List.nil_append]

theorem failures_name_of_stands (h : (Token.name x).Stands c next) : (name c).failures = [] := by
  rw [name, named, failures_noting_of_matches (matches_named.1 (matches_name h)), failures_take_pure]

/-- A symbol is told from other text where it begins. -/
theorem offset_eq_of_mem_symbol {f : Failure} (h : f ∈ (symbol c).failures) : f.offset = c.offset := by
  have hleaf : ∀ {production : Production} {lexeme : Lexeme} {g : List Char → Symbol},
      Keeps (fun c f => f.offset = c.offset)
        (named production (take lexeme >>= fun taken => pure (g taken))) :=
    (keeps_take_pure _ _).noting fun _ => rfl
  have hsymbol : Keeps (fun c f => f.offset = c.offset) symbol :=
    (Keeps.orElse hleaf (Keeps.orElse hleaf hleaf)).noting fun _ => rfl
  exact hsymbol c f h

theorem params_fails (h : (Token.symbol s).Stands c next) : params.Fails c ∧
    (params c).failures = [⟨none, c.offset⟩, ⟨some .params, c.offset⟩] := by
  have hsign : (literal "<").Fails c := sign_fails rfl (h.head_ne (by decide) (by simp))
  have hparams : (bracketed name).Fails c := hsign.bind
  refine ⟨fails_named.2 hparams, ?_⟩
  rw [params, named, failures_noting_of_fails hparams, bracketed, failures_bind_of_fails hsign,
    failures_literal_of_fails hsign]
  rfl

/-- A name before a symbol is a head without parameters. -/
theorem stateHead_of_symbol (hname : (Token.name x).Stands c after)
    (hsymbol : (Token.symbol s).Stands after.settle next) :
    stateHead.Matches c (x, []) after.settle ∧
      (stateHead c).failures = [⟨none, after.settle.offset⟩, ⟨some .params, after.settle.offset⟩] := by
  obtain ⟨hfails, hparams⟩ := params_fails hsymbol
  have hoptional : (optional params).Matches after.settle none after.settle :=
    matches_optional.2 (.inr ⟨rfl, rfl, .inr hfails⟩)
  have hmatch : stateHead.Matches c (x, []) after.settle :=
    matches_named.2 <| Matches.bind (matches_name hname) <| Matches.bind (matches_layout after) <|
      hoptional.bind <| matches_pure.2 ⟨rfl, rfl⟩
  refine ⟨hmatch, ?_⟩
  rw [stateHead, named, failures_noting_of_matches (matches_named.1 hmatch),
    failures_bind_of_matches (matches_name hname), failures_name_of_stands hname,
    failures_bind_of_matches (matches_layout after), failures_layout,
    failures_bind_of_matches hoptional, failures_optional hsymbol.rest_ne_nil, hparams]
  rfl

/-- A rule line without `=` fails there. All failures of productions on the way lie no further than the
symbol, and that of the parameters lies there. -/
theorem ruleLine_fails (hname : (Token.name x).Stands c after)
    (hsymbol : (Token.symbol s).Stands after.settle next)
    (hsign : ∀ more, next.settle.rest ≠ '=' :: more) :
    ruleLine.Fails c ∧ ∃ others, (∀ f ∈ others, f.offset = after.settle.offset) ∧
      (ruleLine c).failures = ⟨none, after.settle.offset⟩ :: ⟨some .params, after.settle.offset⟩ ::
        (others ++ [⟨none, next.settle.offset⟩, ⟨some .ruleLine, c.offset⟩]) := by
  obtain ⟨hhead, hfailures⟩ := stateHead_of_symbol hname hsymbol
  have hread : locatedSymbol.Matches after.settle ⟨s, after.settle.loc⟩ next :=
    Matches.bind (matches_here.2 ⟨rfl, rfl⟩) <| Matches.bind (matches_symbol hsymbol) <|
      matches_pure.2 ⟨rfl, rfl⟩
  have hsame : (locatedSymbol after.settle).failures = (symbol after.settle).failures := by
    rw [locatedSymbol, failures_bind_of_matches (matches_here.2 ⟨rfl, rfl⟩),
      failures_bind_of_matches (matches_symbol hsymbol)]
    simp [here, pure, succeed]
  have hlayout := matches_layout_of_settled hsymbol.settle_eq
  have hequals : (literal "=").Fails next.settle := sign_fails rfl hsign
  have hhere : here.Matches c c.loc c := matches_here.2 ⟨rfl, rfl⟩
  have hfails : ruleLine.Fails c :=
    fails_named.2 <| hhere.bind_fails <| hhead.bind_fails <| hlayout.bind_fails <|
      hread.bind_fails <| (matches_layout next).bind_fails <| hequals.bind
  refine ⟨hfails, (symbol after.settle).failures, fun f hf => offset_eq_of_mem_symbol hf, ?_⟩
  rw [ruleLine, named, failures_noting_of_fails (fails_named.1 hfails), failures_bind_of_matches hhere,
    failures_bind_of_matches hhead, hfailures]
  simp only
  rw [failures_bind_of_matches hlayout, failures_layout, failures_bind_of_matches hread,
    failures_bind_of_matches (matches_layout next), failures_layout, failures_bind_of_fails hequals,
    failures_literal_of_fails hequals, hsame]
  simp [here]

/-- Where a name stands, the first failure of a start line lies in the name. -/
theorem failures_startLine (hname : (Token.name x).Stands c after) :
    ∃ offset, offset ≤ after.offset ∧
      (startLine c).failures = [⟨none, offset⟩, ⟨some .startLine, c.offset⟩] := by
  have hhere : here.Matches c c.loc c := matches_here.2 ⟨rfl, rfl⟩
  rw [startLine, named, failures_noting_of_fails (fails_named.1 (startLine_fails hname)),
    failures_bind_of_matches hhere]
  rcases start_fails_or_equals_fails hname with hstart | ⟨mid, hstart, hsettle, hequals, hle⟩
  · obtain ⟨word, _, hpass⟩ := hname
    refine ⟨c.offset, hpass.precedes.1, ?_⟩
    rw [failures_bind_of_fails hstart, failures_literal_of_fails hstart]
    rfl
  · refine ⟨mid.offset, hle, ?_⟩
    rw [failures_bind_of_matches hstart, failures_literal_of_matches hstart,
      failures_bind_of_matches (matches_layout_of_settled hsettle), failures_layout,
      failures_bind_of_fails hequals, failures_literal_of_fails hequals]
    rfl

theorem lineComment_fails_of_name (hname : (Token.name x).Stands c after) : lineComment.Fails c := by
  obtain ⟨word, hspells, hpass⟩ := hname
  cases hspells with
  | name hname _ _ =>
    obtain ⟨y, more, rfl, hy, _⟩ := hname
    refine fails_named.2 (fails_take.2 ?_)
    rw [hpass.rest_eq, String.toList_ofList, List.cons_append, lineCommentLexeme]
    intro cs heq
    obtain rfl := (List.cons.inj heq).1
    exact absurd hy (by decide)

/-- A line that begins with a name and a symbol and has no `=` after them. Apart from the place where `=`
was tried, all its failures lie no further than the symbol, where the parameters were tried. -/
theorem failures_line (hname : (Token.name x).Stands c.settle after)
    (hsymbol : (Token.symbol s).Stands after.settle next)
    (hsign : ∀ more, next.settle.rest ≠ '=' :: more) :
    ∃ front back, (line c).failures = front ++ ⟨none, next.settle.offset⟩ :: back ∧
      ⟨some .params, after.settle.offset⟩ ∈ front ∧
      ∀ f ∈ front ++ back, f.offset ≤ after.settle.offset := by
  obtain ⟨offset, hle, hstart⟩ := failures_startLine hname
  obtain ⟨hruleFails, others, hothers, hrule⟩ := ruleLine_fails hname hsymbol hsign
  have hchoice : (orElse startLine ruleLine).Fails c.settle := (startLine_fails hname).orElse hruleFails
  have hstatement : (optional statement).Matches c.settle none c.settle :=
    matches_optional.2 (.inr ⟨rfl, rfl, .inr (fails_named.2 hchoice)⟩)
  have hlayout := matches_layout_of_settled hname.settle_eq
  have hcomment := lineComment_fails_of_name hname
  have hoptional : (optional lineComment).Matches c.settle none c.settle :=
    matches_optional.2 (.inr ⟨rfl, rfl, .inr hcomment⟩)
  have hmatch : line.Matches c none c.settle :=
    matches_named.2 <| Matches.bind (matches_layout c) <| Matches.bind hstatement <|
      Matches.bind hlayout <| Matches.bind hoptional <| matches_pure.2 ⟨rfl, rfl⟩
  have hfirst : c.settle.offset ≤ after.offset := by
    obtain ⟨word, _, hpass⟩ := hname
    exact hpass.precedes.1
  have hgap := (precedes_settle after).1
  refine ⟨⟨none, offset⟩ :: ⟨some .startLine, c.settle.offset⟩ :: ⟨none, after.settle.offset⟩ ::
    ⟨some .params, after.settle.offset⟩ :: others, [⟨some .ruleLine, c.settle.offset⟩,
    ⟨some .statement, c.settle.offset⟩, ⟨some .lineComment, c.settle.offset⟩], ?_, by simp, ?_⟩
  · rw [line, named, failures_noting_of_matches (matches_named.1 hmatch),
      failures_bind_of_matches (matches_layout c), failures_layout,
      failures_bind_of_matches hstatement, failures_optional hname.rest_ne_nil,
      failures_bind_of_matches hlayout, failures_layout,
      failures_bind_of_matches hoptional, failures_optional hname.rest_ne_nil,
      statement, named, failures_noting_of_fails hchoice,
      failures_orElse_of_fails (startLine_fails hname), hstart, hrule,
      lineComment, named, failures_noting_of_fails (fails_named.1 hcomment), failures_take]
    simp [pure, succeed]
  · intro f hf
    simp only [List.cons_append, List.mem_cons, List.mem_append, List.not_mem_nil, or_false] at hf
    obtain rfl | rfl | rfl | rfl | hmem | rfl | rfl | rfl := hf
    · exact hle.trans hgap
    · exact hfirst.trans hgap
    · exact Nat.le_refl _
    · exact Nat.le_refl _
    · exact Nat.le_of_eq (hothers f hmem)
    · exact hfirst.trans hgap
    · exact hfirst.trans hgap
    · exact hfirst.trans hgap

/-- Where `=` is missing after the first symbol of a line, what counts lies no further than the symbol. -/
theorem counts_of_missing_equals (hname : (Token.name x).Stands c.settle after)
    (hsymbol : (Token.symbol s).Stands after.settle next)
    (hsign : ∀ more, next.settle.rest ≠ '=' :: more) :
    (∀ f : Failure, f.Counts (line c).failures → f.offset ≤ after.settle.offset) ∧
      (⟨some .params, after.settle.offset⟩ : Failure).Counts (line c).failures ∧
      ⟨none, next.settle.offset⟩ ∈ (line c).failures ∧
      after.settle.offset < next.settle.offset := by
  obtain ⟨front, back, hfailures, hparams, hnear⟩ := failures_line hname hsymbol hsign
  have hfurther : after.settle.offset < next.settle.offset := by
    obtain ⟨mark, hspells, hpass⟩ := hsymbol
    obtain ⟨y, more, rfl, _⟩ := hspells.exists_head
    have hgap := (precedes_settle next).1
    rw [hpass.offset_eq, List.length_cons] at hgap
    omega
  rw [hfailures]
  refine ⟨fun f hf => hnear f ?_, .inl ⟨List.mem_append_left _ hparams, rfl⟩, by simp, hfurther⟩
  cases hf with
  | inl hnamed =>
    obtain ⟨hmem, hproduction⟩ := hnamed
    rw [List.mem_append, List.mem_cons] at hmem
    obtain hmem | rfl | hmem := hmem
    · exact List.mem_append_left _ hmem
    · simp at hproduction
    · exact List.mem_append_right _ hmem
  | inr hhead =>
    rw [List.head?_append_of_ne_nil _ (List.ne_nil_of_mem hparams)] at hhead
    exact List.mem_append_left _ (List.mem_of_mem_head? hhead)

theorem failures_line_of_nil (h : c.settle.rest = []) : (line c).failures = [] := by
  have hlayout := matches_layout_of_settled (AtEnd.settle_eq (.inl h))
  have hoptional : ∀ {α : Type} {p : Scanner α}, (optional p).Matches c.settle none c.settle :=
    matches_optional.2 (.inr ⟨rfl, rfl, .inl h⟩)
  have hmatch : line.Matches c none c.settle :=
    matches_named.2 <| Matches.bind (matches_layout c) <| Matches.bind hoptional <|
      Matches.bind hlayout <| Matches.bind hoptional <| matches_pure.2 ⟨rfl, rfl⟩
  rw [line, named, failures_noting_of_matches (matches_named.1 hmatch),
    failures_bind_of_matches (matches_layout c), failures_layout, failures_bind_of_matches hoptional,
    failures_optional_of_nil h, failures_bind_of_matches hlayout, failures_layout,
    failures_bind_of_matches hoptional, failures_optional_of_nil h]
  rfl

/-- Outside a start directive the first failure is that of the word `start`, and there the directive as a
whole fails too. -/
theorem failures_line_front (hne : c.settle.rest ≠ [])
    (h : ∀ rest, c.settle.rest ≠ "start".toList ++ rest) :
    [⟨none, c.settle.offset⟩, ⟨some .startLine, c.settle.offset⟩] <+: (line c).failures := by
  have hstart : (literal "start").Fails c.settle := literal_fails h
  have hhere : here.Matches c.settle c.settle.loc c.settle := matches_here.2 ⟨rfl, rfl⟩
  have hfails : startLine.Fails c.settle := fails_named.2 (hhere.bind_fails hstart.bind)
  have hfirst : (startLine c.settle).failures =
      [⟨none, c.settle.offset⟩, ⟨some .startLine, c.settle.offset⟩] := by
    rw [startLine, named, failures_noting_of_fails (fails_named.1 hfails),
      failures_bind_of_matches hhere, failures_bind_of_fails hstart, failures_literal_of_fails hstart]
    rfl
  have hstatement : (startLine c.settle).failures <+: (optional statement c.settle).failures := by
    rw [failures_optional hne]
    exact failures_orElse_front.trans failures_noting_front
  rw [← hfirst]
  refine hstatement.trans (List.IsPrefix.trans ?_ failures_noting_front)
  rw [failures_bind_of_matches (matches_layout c), failures_layout, List.nil_append]
  exact failures_bind_front

/-- Outside a start directive only productions count. -/
theorem exists_production_of_counts (h : ∀ rest, c.settle.rest ≠ "start".toList ++ rest) {f : Failure}
    (hf : f.Counts (line c).failures) :
    ∃ g ∈ (line c).failures, g.production.isSome = true ∧ g.offset = f.offset := by
  cases hf with
  | inl hnamed => exact ⟨f, hnamed.1, hnamed.2, rfl⟩
  | inr hhead =>
    by_cases hend : c.settle.rest = []
    · simp [failures_line_of_nil hend] at hhead
    · obtain ⟨others, hothers⟩ := failures_line_front hend h
      rw [← hothers] at hhead ⊢
      obtain rfl := Option.some.inj hhead
      exact ⟨⟨some .startLine, c.settle.offset⟩, by simp, rfl, rfl⟩

end Counting

end Grammar

open Grammar Text

theorem Grammar.Cursor.last_ofOffset {text : List Char} {offset : Nat} (h : offset ≤ text.length) :
    (Cursor.ofOffset text offset).last = text.length := by
  simp only [Cursor.last, Cursor.ofOffset, List.length_drop]
  omega

def Scanned.stop? : Scanned → Option Nat
  | stopped offset => some offset
  | _ => none

theorem Scanned.eq_stopped {scanned : Scanned} {stop : Nat} (h : scanned.stop? = some stop) :
    scanned = .stopped stop := by
  cases scanned with
  | stopped offset => exact congrArg _ (Option.some.inj h)
  | complete statements => simp [stop?] at h
  | tooDeep => simp [stop?] at h

theorem Statement.stop_le_of_scan {text : List Char} {stop : Nat}
    (h : Statement.scan text = .stopped stop) : stop ≤ text.length := by
  rw [Statement.scan] at h
  cases hverdict : (Grammar.program (Cursor.ofOffset text 0)).verdict with
  | matched statements next =>
    have hprecedes := confined_program.matched (Cursor.ofOffset text 0) statements next hverdict
    have hlast := hprecedes.2.trans (Cursor.last_ofOffset (Nat.zero_le _))
    rw [Cursor.last] at hlast
    simp only [hverdict] at h
    split at h
    · simp at h
    · obtain rfl := Scanned.stopped.inj h
      omega
  | failed =>
    obtain rfl : 0 = stop := by simpa [hverdict] using h
    exact Nat.zero_le _
  | tooDeep => simp [hverdict] at h

namespace Program

/-- References nest too deeply in the line that holds an offset, as it is scanned from its beginning. -/
def Overruns (text : List Char) (offset : Nat) : Prop :=
  (Grammar.line (Cursor.ofOffset text (SyntaxError.lineStart text offset))).verdict.isTooDeep = true

variable {source : String} {stop : Nat}

theorem parse_of_overruns (file : String) (h : Statement.scan source.toList = .stopped stop)
    (hdeep : Overruns source.toList stop) :
    parse source file = .error (.crashed .overflow) := by
  rw [Overruns] at hdeep
  simp [parse, h, failureAt, hdeep]

theorem parse_of_stopped (file : String) (h : Statement.scan source.toList = .stopped stop)
    (hshallow : ¬Overruns source.toList stop) :
    parse source file = .error (.refused (.atStop source.toList stop
      (Grammar.line (Cursor.ofOffset source.toList (SyntaxError.lineStart source.toList stop))).failures)) := by
  rw [Overruns] at hshallow
  simp [parse, h, failureAt, hshallow]

/-- Parsing breaks off only where it looks for the place of an error. -/
theorem parse_eq_crashed {file : String} {crash : Crash} :
    parse source file = .error (.crashed crash) ↔
      ∃ stop, Statement.scan source.toList = .stopped stop ∧ Overruns source.toList stop := by
  constructor
  · intro h
    cases hscan : Statement.scan source.toList with
    | tooDeep => simp [parse, hscan] at h
    | stopped stop =>
      refine ⟨stop, rfl, ?_⟩
      by_contra hshallow
      simp [parse_of_stopped file hscan hshallow] at h
    | complete statements =>
      simp only [parse, hscan] at h
      split at h
      · simp at h
      · cases hassemble : assemble source file statements with
        | error e => simp [hassemble, Except.mapError] at h
        | ok p => simp [hassemble, Except.mapError] at h
  · intro h
    obtain ⟨stop, hscan, hdeep⟩ := h
    cases crash
    exact parse_of_overruns file hscan hdeep

end Program

namespace SyntaxError

/-- A line begins after the last line feed before an offset. -/
theorem lineStart_eq {before current rest : List Char} (hbefore : BeginsLine before)
    (hcurrent : '\n' ∉ current) :
    lineStart (before ++ current ++ rest) (before ++ current).length = before.length := by
  have hclosed : before.reverse.takeWhile (· != '\n') = [] := by
    cases hbefore with
    | inl hnil => simp [hnil]
    | inr hfeed =>
      obtain ⟨front, rfl⟩ := hfeed
      simp
  have hwhile : ((before ++ current).reverse.takeWhile (· != '\n')).length = current.length := by
    rw [List.reverse_append, List.takeWhile_append_of_pos, hclosed, List.append_nil,
      List.length_reverse]
    intro c hc
    simpa using fun heq : c = '\n' => hcurrent (heq ▸ List.mem_reverse.1 hc)
  rw [lineStart, List.take_left, hwhile, List.length_append, Nat.add_sub_cancel]

/-- The line that holds an offset begins after a line feed, and there is none up to the offset. -/
theorem lineStart_spec {text : List Char} {offset : Nat} (h : offset ≤ text.length) :
    lineStart text offset ≤ offset ∧ BeginsLine (text.take (lineStart text offset)) ∧
      '\n' ∉ (text.take offset).drop (lineStart text offset) := by
  obtain ⟨before, current, hsplit, hbefore, hcurrent⟩ := exists_beginsLine (text.take offset)
  have hlength : (before ++ current).length = offset := by
    rw [← hsplit, List.length_take_of_le h]
  have htext : text = before ++ current ++ text.drop offset := by
    rw [← hsplit, List.take_append_drop]
  have hstart : lineStart text offset = before.length := by
    rw [htext, ← hlength]
    exact lineStart_eq hbefore hcurrent
  have htake : text.take before.length = before := by
    rw [htext, List.append_assoc, List.take_left]
  rw [hstart, htake, hsplit, List.drop_left]
  exact ⟨by rw [← hlength]; simp, hbefore, hcurrent⟩

/-- The error is placed at `stop`, or at a failure beyond it whose production was expected there; no
failure that counts is further on. -/
structure PlacedAt (failures : List Failure) (stop offset : Nat) (expected : Option Production) : Prop where
  stop_le : stop ≤ offset
  counts_le : ∀ f : Failure, f.Counts failures → f.offset ≤ offset
  reached : offset = stop ∧ expected = none ∨
    stop < offset ∧ ∃ f : Failure, f.Counts failures ∧ f.offset = offset ∧ f.production = expected

theorem exists_placedAt (text : List Char) (stop : Nat) (failures : List Failure) :
    ∃ offset expected, atStop text stop failures =
        .unexpected (firstWord? (text.drop offset)) expected (Loc.ofOffset text offset) ∧
      PlacedAt failures stop offset expected := by
  rw [atStop]
  cases hfurthest : furthest failures with
  | none =>
    refine ⟨stop, none, rfl, Nat.le_refl _, ?_, .inl ⟨rfl, rfl⟩⟩
    intro f hf
    simp [eq_nil_of_furthest hfurthest, Failure.Counts] at hf
  | some f =>
    obtain ⟨hcounts, hmost⟩ := isFurthest_of_furthest hfurthest
    by_cases hbeyond : stop < f.offset
    · refine ⟨f.offset, f.production, ?_, Nat.le_of_lt hbeyond, hmost, .inr ⟨hbeyond, f, hcounts, rfl, rfl⟩⟩
      simp [Option.filter, hbeyond]
    · refine ⟨stop, none, ?_, Nat.le_refl _, ?_, .inl ⟨rfl, rfl⟩⟩
      · simp [Option.filter, hbeyond]
      · intro g hg
        have hle := hmost g hg
        omega

/-- No failure at all is further on exactly if each has one that counts, or `stop`, as far on. -/
theorem PlacedAt.all_le_iff {failures : List Failure} {stop offset : Nat} {expected : Option Production}
    (h : PlacedAt failures stop offset expected) :
    (∀ f ∈ failures, f.offset ≤ offset) ↔
      ∀ f ∈ failures, f.offset ≤ stop ∨ ∃ g : Failure, g.Counts failures ∧ f.offset ≤ g.offset := by
  constructor
  · intro hall f hf
    rcases h.reached with ⟨rfl, _⟩ | ⟨_, g, hg, rfl, _⟩
    · exact .inl (hall f hf)
    · exact .inr ⟨g, hg, hall f hf⟩
  · intro hall f hf
    cases hall f hf with
    | inl hstop => exact hstop.trans h.stop_le
    | inr hcounts =>
      obtain ⟨g, hg, hle⟩ := hcounts
      exact hle.trans (h.counts_le g hg)

/-- The place of the error is in the text. -/
theorem PlacedAt.offset_le {text : List Char} {begins stop offset : Nat} {expected : Option Production}
    (h : PlacedAt (Grammar.line (Cursor.ofOffset text begins)).failures stop offset expected)
    (hbegins : begins ≤ text.length) (hstop : stop ≤ text.length) : offset ≤ text.length := by
  rcases h.reached with ⟨rfl, _⟩ | ⟨_, f, hf, rfl, _⟩
  · exact hstop
  · have hafter := confined_line.failures _ f hf.mem
    rw [← Cursor.last_ofOffset hbegins]
    exact hafter.2

/-- Where a text stops being a program at the offset `stop`, the line of `stop` is scanned again. If
references nest too deeply in it, parsing breaks off. Otherwise the error is placed at the greatest of
`stop` and the failures that count in this line. No failure is further on exactly if each has one that
counts, or `stop`, as far on. Outside a start directive the error is at `stop` or where a production
failed. So a line whose first symbol has no `=` after it has its error at the symbol, and the furthest
failure is beyond. -/
theorem syntax_error_place {source file : String} {stop : Nat}
    (h : Statement.scan source.toList = .stopped stop) :
    ∃ begins c failures, begins ≤ stop ∧ BeginsLine (source.toList.take begins) ∧
      '\n' ∉ (source.toList.take stop).drop begins ∧
      c = Cursor.ofOffset source.toList begins ∧ failures = (Grammar.line c).failures ∧
      ((Grammar.line c).verdict.isTooDeep = true →
        Program.parse source file = .error (.crashed .overflow)) ∧
      ((Grammar.line c).verdict.isTooDeep = false → ∃ offset expected,
        Program.parse source file = .error (.refused (.unexpected
          (firstWord? (source.toList.drop offset)) expected (Loc.ofOffset source.toList offset))) ∧
        (Loc.ofOffset source.toList offset).offset? source.toList = some offset ∧
        PlacedAt failures stop offset expected ∧
        ((∀ f ∈ failures, f.offset ≤ offset) ↔
          ∀ f ∈ failures, f.offset ≤ stop ∨ ∃ g : Failure, g.Counts failures ∧ f.offset ≤ g.offset) ∧
        ((∀ rest, c.settle.rest ≠ "start".toList ++ rest) →
          offset = stop ∨ ∃ f ∈ failures, f.production.isSome = true ∧ f.offset = offset) ∧
        ∀ x s after next, (Token.name x).Stands c.settle after →
          (Token.symbol s).Stands after.settle next → (∀ more, next.settle.rest ≠ '=' :: more) →
          stop ≤ after.settle.offset →
            offset = after.settle.offset ∧ ∃ f ∈ failures, offset < f.offset) := by
  have hstop := Statement.stop_le_of_scan h
  obtain ⟨hbegins, hline, hfeed⟩ := lineStart_spec hstop
  refine ⟨lineStart source.toList stop, _, _, hbegins, hline, hfeed, rfl, rfl,
    Program.parse_of_overruns file h, fun hshallow => ?_⟩
  obtain ⟨offset, expected, herror, hplaced⟩ := exists_placedAt source.toList stop
    (Grammar.line (Cursor.ofOffset source.toList (lineStart source.toList stop))).failures
  have hoffset := hplaced.offset_le (hbegins.trans hstop) hstop
  refine ⟨offset, expected, ?_, Loc.offset?_ofOffset hoffset, hplaced, hplaced.all_le_iff, ?_, ?_⟩
  · rw [← herror]
    exact Program.parse_of_stopped file h (by simp [Program.Overruns, hshallow])
  · intro hstart
    rcases hplaced.reached with ⟨hsame, _⟩ | ⟨_, f, hf, rfl, _⟩
    · exact .inl hsame
    · exact .inr (exists_production_of_counts hstart hf)
  · intro x s after next hname hsymbol hsign hbefore
    obtain ⟨hle, hcounts, hmem, hlt⟩ := counts_of_missing_equals hname hsymbol hsign
    have hfar : after.settle.offset ≤ offset := hplaced.counts_le _ hcounts
    have hnear : offset ≤ after.settle.offset := by
      rcases hplaced.reached with ⟨rfl, _⟩ | ⟨_, f, hf, rfl, _⟩
      · exact hbefore
      · exact hle f hf
    have hsame : offset = after.settle.offset := Nat.le_antisymm hnear hfar
    exact ⟨hsame, _, hmem, hsame ▸ hlt⟩

set_option maxRecDepth 20000 in
theorem syntax_error_place_movement : Statement.scan "go 0 = 1; go nxt\n".toList = .stopped 0 ∧
    Program.parse "go 0 = 1; go nxt\n" "go" =
      .error (.refused (.unexpected (some "nxt") (some .movement) ⟨1, 14⟩)) ∧
    PlacedAt (Grammar.line (Cursor.ofOffset "go 0 = 1; go nxt\n".toList 0)).failures 0 13
      (some .movement) := by
  have hscan : Statement.scan "go 0 = 1; go nxt\n".toList = .stopped 0 :=
    Scanned.eq_stopped (by decide_cbv)
  have hshallow : (Grammar.line (Cursor.ofOffset "go 0 = 1; go nxt\n".toList 0)).verdict.isTooDeep =
      false := by decide_cbv
  have herror : Program.parse "go 0 = 1; go nxt\n" "go" =
      .error (.refused (.unexpected (some "nxt") (some .movement) ⟨1, 14⟩)) := by
    simp only [Program.parse, hscan]
    exact congrArg Except.error (by decide_cbv)
  have hthere : Loc.offset? "go 0 = 1; go nxt\n".toList ⟨1, 14⟩ = some 13 := by decide_cbv
  obtain ⟨begins, _, _, hbegins, _, _, rfl, rfl, _, hplace⟩ :=
    @syntax_error_place "go 0 = 1; go nxt\n" "go" 0 hscan
  obtain rfl := Nat.le_zero.1 hbegins
  obtain ⟨offset, expected, hparse, hoffset, hplaced, _⟩ := hplace hshallow
  obtain ⟨_, hexpected, hloc⟩ := SyntaxError.unexpected.inj
    (Failed.refused.inj (Except.error.inj (hparse.symm.trans herror)))
  rw [hloc, hthere] at hoffset
  obtain rfl := Option.some.inj hoffset
  exact ⟨hscan, herror, hexpected ▸ hplaced⟩

set_option maxRecDepth 20000 in
/-- The error need not be placed at the furthest failure: here it is at the `0`, which was matched, and
`=` was tried after it. -/
theorem furthest_failure_missed :
    Statement.scan "start = a\na 0 x\n".toList = .stopped 10 ∧
    Program.parse "start = a\na 0 x\n" "<input>" =
      .error (.refused (.unexpected (some "0") (some .blank) ⟨2, 3⟩)) ∧
    Loc.offset? "start = a\na 0 x\n".toList ⟨2, 3⟩ = some 12 ∧
    ⟨none, 14⟩ ∈ (Grammar.line (Cursor.ofOffset "start = a\na 0 x\n".toList
      (lineStart "start = a\na 0 x\n".toList 10))).failures := by
  have hscan : Statement.scan "start = a\na 0 x\n".toList = .stopped 10 :=
    Scanned.eq_stopped (by decide_cbv)
  refine ⟨hscan, ?_, by decide_cbv, by decide_cbv⟩
  simp only [Program.parse, hscan]
  exact congrArg Except.error (by decide_cbv)

end SyntaxError

end GenericTuring
