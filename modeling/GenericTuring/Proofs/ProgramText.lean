import GenericTuring.Proofs.Accepted
import GenericTuring.Proofs.WellFormed
import Mathlib

/-!
Parsing follows the written form of programs. A text is scanned as a program exactly if it is written as
one, whatever its layout, and into the statements that are written there; and the only further thing
that parsing refuses before it assembles them is a quoted symbol that looks blank.
-/

namespace GenericTuring

open Grammar

section Depth

theorem Term.depth_le_of_args {α : Type} {t : Term α} {n : Nat} (h : ∀ x ∈ t.args, x.depth ≤ n) :
    t.depth ≤ n + 1 := by
  induction t with
  | atom a => simp [Term.depth]
  | app f x ihf _ =>
    have hx := h x (by simp [Term.args])
    have hf := ihf fun y hy => h y (by simp [Term.args, hy])
    simp only [Term.depth]
    omega

theorem Grammar.sublist_listTokens {items : List (List Placed)} {item : List Placed}
    (h : item ∈ items) : item.Sublist (listTokens items) := by
  cases items with
  | nil => simp at h
  | cons first others =>
    refine List.Sublist.cons _ (List.sublist_append_of_sublist_left ?_)
    cases List.mem_cons.1 h with
    | inl hfirst => exact hfirst ▸ List.sublist_append_left _ _
    | inr hother =>
      have hmem : sign ',' :: item ∈ others.map (sign ',' :: ·) := List.mem_map_of_mem hother
      exact (List.sublist_cons_self _ _).trans
        ((List.sublist_flatten_of_mem hmem).trans (List.sublist_append_right _ _))

theorem RawRef.depth_le_length_tokens (ref : RawRef) :
    Term.depth ref ≤ (RawRef.tokens ref).length := by
  fun_induction RawRef.tokens ref with
  | case1 ref ih =>
    apply Term.depth_le_of_args
    intro arg harg
    have hmem : RawRef.tokens arg ∈ (Term.args ref).attach.map fun arg => RawRef.tokens arg.1 :=
      List.mem_map.2 ⟨⟨arg, harg⟩, List.mem_attach _ _, rfl⟩
    exact (ih ⟨arg, harg⟩).trans (sublist_listTokens hmem).length_le

theorem Statement.depth_le_length_tokens (s : Statement) :
    Term.depth s.target ≤ s.tokens.length := by
  have htarget := RawRef.depth_le_length_tokens s.target
  cases s with
  | start target loc =>
    simp only [tokens, Statement.target, List.length_cons] at htarget ⊢
    omega
  | rule line =>
    simp only [tokens, RuleLine.tokens, Statement.target, List.length_append] at htarget ⊢
    omega

/-- References nest no deeper than the text is long. -/
theorem Grammar.Lines.depth_le {c : Cursor} {statements : List Statement} (h : Lines c statements)
    {s : Statement} (hs : s ∈ statements) : Term.depth s.target ≤ c.rest.length := by
  have htokens := s.depth_le_length_tokens
  induction h with
  | @last c next found hline _ =>
    obtain rfl : found = some s := by simpa using hs
    have hlength := hline.length_le
    simp only [Option.elim] at hlength
    omega
  | @more c mid next found statements hline hbreak _ ih =>
    have hlength := hline.length_le
    cases List.mem_append.1 hs with
    | inl hfound =>
      obtain rfl : found = some s := by simpa using hfound
      simp only [Option.elim] at hlength
      omega
    | inr hmem =>
      have hshorter := hbreak.length_lt
      have hdepth := ih hmem
      omega

end Depth

section Blanks

def Grammar.quotedBlank? : Placed → Option (Located Symbol)
  | (.symbol (.mark text), some loc) =>
    if text = "_" ∨ text = " " then some ⟨.mark text, loc⟩ else none
  | _ => none

theorem Grammar.filterMap_listTokens {β : Type} {f : Placed → Option β}
    (h : ∀ c, f (sign c) = none) (items : List (List Placed)) :
    (listTokens items).filterMap f = items.flatMap (List.filterMap f) := by
  cases items with
  | nil => rfl
  | cons first others => simp [listTokens, List.filterMap_flatMap, h]

@[simp] theorem Grammar.quotedBlank?_name (x : String) (place : Option Loc) :
    quotedBlank? (.name x, place) = none := rfl

@[simp] theorem Grammar.quotedBlank?_sign (c : Char) : quotedBlank? (sign c) = none := rfl

theorem Grammar.quotedBlank?_symbol (x : Symbol) (loc : Loc) :
    quotedBlank? (.symbol x, some loc) = if x.looksBlank then some ⟨x, loc⟩ else none := by
  cases x with
  | blank => rfl
  | mark text => simp [quotedBlank?, Symbol.looksBlank]

theorem RawRef.quotedBlank?_tokens (ref : RawRef) :
    (RawRef.tokens ref).filterMap quotedBlank? = [] := by
  fun_induction RawRef.tokens ref with
  | case1 ref ih =>
    rw [List.filterMap_cons_none rfl, filterMap_listTokens quotedBlank?_sign, List.flatMap_map]
    simp only [ih, List.flatMap_eq_nil_iff, implies_true]

theorem Statement.quotedBlank?_tokens (s : Statement) :
    s.tokens.filterMap quotedBlank? = s.blankLooking := by
  cases s with
  | start target loc =>
    rw [tokens, List.filterMap_cons_none rfl, List.filterMap_cons_none rfl,
      RawRef.quotedBlank?_tokens]
    rfl
  | rule line =>
    have hparams : (listTokens (line.params.map fun x => [(.name x, none)])).filterMap quotedBlank? =
        [] := by
      rw [filterMap_listTokens quotedBlank?_sign, List.flatMap_map]
      simp
    have hmove : quotedBlank? (.move line.move, none) = none := rfl
    simp only [tokens, RuleLine.tokens, List.cons_append, List.filterMap_append, List.filterMap_cons,
      List.filterMap_nil, quotedBlank?_name, quotedBlank?_sign, quotedBlank?_symbol, hparams, hmove,
      RawRef.quotedBlank?_tokens, blankLooking, List.filter_cons, List.filter_nil]
    by_cases hread : line.read.val.looksBlank = true <;>
      by_cases hwrite : line.write.val.looksBlank = true <;> simp [hread, hwrite]

theorem Statement.blankLooking?_eq (statements : List Statement) :
    blankLooking? statements = (statements.flatMap tokens).findSome? quotedBlank? := by
  rw [blankLooking?, ← List.head?_filterMap, List.filterMap_flatMap]
  simp only [quotedBlank?_tokens]

end Blanks

namespace Program

theorem parse_eq_looksBlank {source file : String} {symbol : Located Symbol} :
    parse source file = .error (.refused (.looksBlank symbol)) ↔
      ∃ statements, Statement.scan source.toList = .complete statements ∧
        Statement.blankLooking? statements = some symbol := by
  cases hscan : Statement.scan source.toList with
  | tooDeep => simp [parse, hscan, Nesting.error]
  | stopped offset =>
    simp only [parse, hscan, failureAt, SyntaxError.atStop]
    split
    · simp
    · simp
  | complete statements =>
    cases hblank : Statement.blankLooking? statements with
    | some found => simp [parse, hscan, hblank]
    | none =>
      cases hassemble : assemble source file statements with
      | error e => simp [parse, hscan, hblank, hassemble, Except.mapError]
      | ok p => simp [parse, hscan, hblank, hassemble, Except.mapError]

/-- Where references nest no deeper than a scan follows them, a text is scanned exactly as it is written:
the statements written in it are the only ones, parsing refuses the first quoted symbol among their
tokens that looks blank, and without such a symbol it assembles these statements. -/
theorem parse_follows_written_form {source file : String}
    (hdepth : ∀ statements, Written source.toList statements →
      ∀ s ∈ statements, Term.depth s.target ≤ nestingLimit) :
    (∀ statements, Statement.scan source.toList = .complete statements ↔
      Written source.toList statements) ∧
    (∀ statements others, Written source.toList statements → Written source.toList others →
      statements = others) ∧
    (∀ symbol, parse source file = .error (.refused (.looksBlank symbol)) ↔
      ∃ statements, Written source.toList statements ∧
        (statements.flatMap Statement.tokens).findSome? quotedBlank? = some symbol) ∧
    ∀ statements, Written source.toList statements →
      (∀ t ∈ statements.flatMap Statement.tokens, quotedBlank? t = none) →
      parse source file = (assemble source file statements).mapError fun e => .refused (.assembly e) := by
  have hscan : ∀ statements, Statement.scan source.toList = .complete statements ↔
      Written source.toList statements :=
    fun statements => ⟨written_of_scan, fun h => scan_of_written h (hdepth statements h)⟩
  refine ⟨hscan, ?_, ?_, ?_⟩
  · intro statements others h hothers
    have hsame := ((hscan statements).2 h).symm.trans ((hscan others).2 hothers)
    exact Scanned.complete.inj hsame
  · intro symbol
    simp only [parse_eq_looksBlank, hscan, Statement.blankLooking?_eq]
  · intro statements h hquoted
    have hblank : Statement.blankLooking? statements = none := by
      rw [Statement.blankLooking?_eq]
      exact List.findSome?_eq_none_iff.2 hquoted
    simp [parse, (hscan statements).2 h, hblank]

def sketch : String :=
  "/* go\n round */ start = turn<turn<finish>> // twice\r\nturn<x>/**/0='_';x prev\n\n"

set_option maxRecDepth 20000 in
theorem parse_follows_written_form_sketch :
    parse sketch "sketch" = .error (.refused (.looksBlank ⟨.mark "_", ⟨3, 14⟩⟩)) ∧
      ∃ statements, Written sketch.toList statements ∧
        (∀ s ∈ statements, Term.depth s.target ≤ nestingLimit) ∧
        (statements.flatMap Statement.tokens).findSome? quotedBlank? = some ⟨.mark "_", ⟨3, 14⟩⟩ := by
  have hlength : sketch.toList.length ≤ nestingLimit := by decide
  have hdepth : ∀ statements, Written sketch.toList statements →
      ∀ s ∈ statements, Term.depth s.target ≤ nestingLimit :=
    fun statements h s hs => (h.depth_le hs).trans hlength
  have hparse : parse sketch "sketch" = .error (.refused (.looksBlank ⟨.mark "_", ⟨3, 14⟩⟩)) := by cbv
  obtain ⟨_, _, hblank, _⟩ := @parse_follows_written_form sketch "sketch" hdepth
  obtain ⟨statements, h, hfirst⟩ := (hblank _).1 hparse
  exact ⟨hparse, statements, h, hdepth statements h, hfirst⟩

end Program

end GenericTuring
