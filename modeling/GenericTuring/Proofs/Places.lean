import GenericTuring.Proofs.Gathering
import GenericTuring.Proofs.Instances
import GenericTuring.Proofs.Offsets
import Mathlib

/-!
The places that statements keep. At each of them stands the word it was kept for, the lines of statements
increase through the text, and a program made of the statements keeps all their places; so there is at
most one rule on a line.
-/

namespace GenericTuring

open Grammar

namespace Statement

def loc : Statement → Loc
  | start _ loc => loc
  | rule line => line.loc

def opening : Statement → Token
  | start _ _ => .start
  | rule line => .name line.head

theorem opening_mem_tokens (s : Statement) : (s.opening, some s.loc) ∈ s.tokens := by
  cases s with
  | start target loc => exact List.mem_cons_self
  | rule line => exact List.mem_cons_self

end Statement

namespace Grammar

section Lines

variable {c next : Cursor} {tokens : List Placed} {token : Token} {loc : Loc}

/-- The place of a token lies between the beginning and the end of what the tokens take up. -/
theorem Spaced.line_le (h : Spaced c tokens next) (ht : (token, some loc) ∈ tokens) :
    c.loc.line ≤ loc.line ∧ loc.line ≤ next.loc.line := by
  induction h with
  | done _ => simp at ht
  | token hgap hplace htoken hrest ih =>
    obtain ⟨gap, _, hgap⟩ := hgap
    obtain ⟨word, _, hword⟩ := htoken
    obtain ⟨taken, htaken⟩ := hrest.exists_passes
    have hbefore := hgap.line_le
    have hwithin := hword.line_le
    have hafter := htaken.line_le
    cases List.mem_cons.1 ht with
    | inl heq =>
      obtain ⟨rfl, rfl⟩ := Prod.mk.inj heq
      rw [← hplace loc rfl]
      omega
    | inr hmem =>
      have hlater := ih hmem
      omega

theorem Inscribed.line_le {s : Statement} (h : Inscribed c (some s) next) :
    c.loc.line ≤ s.loc.line ∧ s.loc.line ≤ next.loc.line := by
  obtain ⟨mid, hspaced, hend⟩ := h
  have hmid := hspaced.line_le s.opening_mem_tokens
  obtain rfl | ⟨body, hpass, _⟩ := hend
  · exact hmid
  · have hcomment := hpass.line_le
    omega

theorem Breaks.line_lt (h : Breaks c next) : c.loc.line < next.loc.line := by
  cases h with
  | inl hpass => simp [hpass.loc_eq, Loc.line_advance]
  | inr hpass => simp [hpass.loc_eq, Loc.line_advance]

theorem Lines.line_le {statements : List Statement} (h : Lines c statements) {s : Statement}
    (hs : s ∈ statements) : c.loc.line ≤ s.loc.line := by
  induction h with
  | last hline _ =>
    obtain rfl := by simpa using hs
    exact hline.line_le.1
  | more hline hbreak _ ih =>
    cases List.mem_append.1 hs with
    | inl hfound =>
      obtain rfl := by simpa using hfound
      exact hline.line_le.1
    | inr hmem =>
      obtain ⟨_, hpass⟩ := hline.exists_passes
      have hfirst := hpass.line_le
      have hnext := hbreak.line_lt
      have hlater := ih hmem
      omega

/-- A statement ends before the line feed after it, whatever comments it has inside. -/
theorem Lines.pairwise_line {statements : List Statement} (h : Lines c statements) :
    statements.Pairwise fun s later => s.loc.line < later.loc.line := by
  induction h with
  | @last _ _ found _ _ => cases found <;> simp
  | @more _ _ _ found _ hline hbreak hrest ih =>
    cases found with
    | none => simpa using ih
    | some s =>
      refine List.pairwise_cons.2 ⟨fun later hlater => ?_, ih⟩
      have hends := hline.line_le.2
      have hnext := hbreak.line_lt
      have hbegins := hrest.line_le hlater
      omega

end Lines

/-- Statements that are written in a text keep the places of their words. -/
theorem Written.standsAt {text : List Char} {statements : List Statement} (h : Written text statements)
    {s : Statement} (hs : s ∈ statements) {token : Token} {loc : Loc}
    (ht : (token, some loc) ∈ s.tokens) : token.StandsAt text loc :=
  (Lines.follows h hs ht).standsAt

end Grammar

namespace RawRef

/-- Marking and renaming parameters moves nothing. -/
theorem map_loc_relabel (scope : List (String × String)) (ref : RawRef) :
    Term.map Located.loc (relabel scope ref) = Term.map Located.loc ref :=
  Term.bind_map _ _ ref

end RawRef

/-- The word is what the label is called on a line, whose parameters are listed with those of the
definition that they stand for. -/
def Label.IsCalled (scope : List (String × String)) (word : String) : Label → Prop
  | .state name => word = name
  | .param name => (word, name) ∈ scope

theorem RawRef.label_isCalled (scope : List (String × String)) (word : String) :
    (label scope word).IsCalled scope word := by
  rw [label]
  cases hscope : scope.lookup word with
  | none => rfl
  | some name => exact mem_of_lookup_eq_some hscope

/-- A reference after parameters are marked stems from one with the same place. -/
theorem RawRef.exists_of_mem_subterms_relabel {scope : List (String × String)} {target : RawRef}
    {ref : Ref} (h : ref ∈ Term.subterms (relabel scope target)) :
    ∃ raw ∈ Term.subterms target, Ref.loc ref = RawRef.loc raw ∧
      (Term.head ref).val.IsCalled scope (RawRef.name raw) := by
  have hmap : Term.subterms (relabel scope target) = (Term.subterms target).map (relabel scope) :=
    Term.subterms_map _ target
  rw [hmap] at h
  obtain ⟨raw, hraw, rfl⟩ := List.mem_map.1 h
  have hhead : Term.head (relabel scope raw) = ⟨label scope (name raw), loc raw⟩ :=
    Term.head_map _ raw
  refine ⟨raw, hraw, by rw [Ref.loc, hhead], ?_⟩
  rw [hhead]
  exact label_isCalled scope (name raw)

namespace Statement

variable {statements : List Statement}

theorem eq_of_line_eq (h : statements.Pairwise fun s later => s.loc.line < later.loc.line)
    {s s' : Statement} (hs : s ∈ statements) (hs' : s' ∈ statements)
    (hline : s.loc.line = s'.loc.line) : s = s' := by
  have hnodup : (statements.map fun s => s.loc.line).Nodup :=
    List.pairwise_map.2 (h.imp Nat.ne_of_lt)
  exact List.inj_on_of_nodup_map hnodup hs hs' hline

theorem pairwise_linesOf (h : statements.Pairwise fun s later => s.loc.line < later.loc.line)
    (name : String) :
    (linesOf statements name).Pairwise fun line later => line.loc.line < later.loc.line := by
  refine List.Pairwise.filter _ (List.Pairwise.filterMap line? ?_ h)
  intro s s' hlt line hline line' hline'
  cases s with
  | start target loc => simp [line?] at hline
  | rule found =>
    cases s' with
    | start target loc => simp [line?] at hline'
    | rule found' =>
      obtain rfl := Option.some.inj hline
      obtain rfl := Option.some.inj hline'
      exact hlt

end Statement

def Scanned.statements : Scanned → List Statement
  | complete statements => statements
  | _ => []

namespace Program

/-- The program has the places of the statements it was made of. A definition is placed at the first of
its lines and a rule at its own line. Every reference in a target is placed where it was in the target
of the line, and there stands the name of the state, or what the line calls the parameter. -/
structure KeepsPlaces (text : List Char) (statements : List Statement) (p : Program) : Prop where
  start : ∃ target, .start target p.startLoc ∈ statements ∧
    Term.map Located.loc p.start = Term.map Located.loc target ∧
    ∀ ref ∈ Term.subterms p.start, (Token.name (Ref.name ref)).StandsAt text (Ref.loc ref)
  definition : ∀ d ∈ p.definitions, ∃ first, .rule first ∈ statements ∧ first.head = d.name ∧
    first.loc = d.loc ∧ ∀ line, .rule line ∈ statements → line.head = d.name →
      first.loc.line ≤ line.loc.line
  rule : ∀ d ∈ p.definitions, ∀ r ∈ d.rules, ∃ line, .rule line ∈ statements ∧ line.head = d.name ∧
    line.loc = r.loc ∧ Term.map Located.loc r.target = Term.map Located.loc line.target ∧
    ∀ ref ∈ Term.subterms r.target, ∃ word, (Token.name word).StandsAt text (Ref.loc ref) ∧
      (Term.head ref).val.IsCalled (line.params.zip d.params) word

section Gathered

variable {text : List Char} {statements : List Statement} {p : Program}

/-- Every rule is that of a line with the name of its definition. -/
theorem Gathers.exists_line (h : p.Gathers statements) {d : Definition} (hd : d ∈ p.definitions)
    {r : Rule} (hr : r ∈ d.rules) :
    ∃ line, .rule line ∈ statements ∧ line.head = d.name ∧ line.rule d.params = r := by
  obtain ⟨first, _, _, hparams, _, hrules⟩ := h.definition d hd
  rw [hrules] at hr
  obtain ⟨line, hline, hrule⟩ := List.mem_map.1 hr
  obtain ⟨hmem, hhead⟩ := Statement.mem_linesOf.1 hline
  exact ⟨line, Statement.mem_ruleLines.1 hmem, hhead, hparams ▸ hrule⟩

theorem Gathers.keepsPlaces (h : p.Gathers statements) (hwritten : Written text statements) :
    p.KeepsPlaces text statements := by
  refine ⟨?_, fun d hd => ?_, fun d hd r hr => ?_⟩
  · obtain ⟨target, loc, hstarts, hstart, rfl⟩ := h.start
    have hs : .start target p.startLoc ∈ statements :=
      Statement.start_mem_of_mem_starts (hstarts ▸ List.mem_singleton_self _)
    rw [hstart, RawRef.closed_eq_relabel]
    refine ⟨target, hs, RawRef.map_loc_relabel [] target, fun ref href => ?_⟩
    obtain ⟨raw, hraw, hloc, hcalled⟩ := RawRef.exists_of_mem_subterms_relabel href
    have hname : RawRef.name raw = Ref.name ref := by
      rw [Ref.name]
      cases hlabel : (Term.head ref).val with
      | state name =>
        rw [hlabel] at hcalled
        exact hcalled
      | param name => simp [hlabel, Label.IsCalled] at hcalled
    rw [hloc, ← hname]
    exact hwritten.standsAt hs (Statement.mem_tokens_of_mem_subterms hraw)
  · obtain ⟨first, others, hlines, _, hloc, _⟩ := h.definition d hd
    have hfirst : first ∈ Statement.linesOf statements d.name := hlines ▸ List.mem_cons_self
    obtain ⟨hmem, hhead⟩ := Statement.mem_linesOf.1 hfirst
    refine ⟨first, Statement.mem_ruleLines.1 hmem, hhead, hloc.symm, fun line hline hname => ?_⟩
    have horder := Statement.pairwise_linesOf (Lines.pairwise_line hwritten) d.name
    have hline : line ∈ Statement.linesOf statements d.name :=
      Statement.mem_linesOf.2 ⟨Statement.mem_ruleLines.2 hline, hname⟩
    rw [hlines] at horder hline
    cases List.mem_cons.1 hline with
    | inl heq => exact heq ▸ Nat.le_refl _
    | inr hothers => exact Nat.le_of_lt ((List.pairwise_cons.1 horder).1 line hothers)
  · obtain ⟨line, hline, hhead, rfl⟩ := h.exists_line hd hr
    refine ⟨line, hline, hhead, rfl, RawRef.map_loc_relabel _ line.target, fun ref href => ?_⟩
    obtain ⟨raw, hraw, hloc, hcalled⟩ := RawRef.exists_of_mem_subterms_relabel href
    refine ⟨RawRef.name raw, ?_, hcalled⟩
    rw [hloc]
    exact hwritten.standsAt hline (Statement.mem_tokens_of_mem_subterms hraw)

theorem Gathers.eq_of_line_eq (h : p.Gathers statements) (hwf : p.WellFormed)
    (hwritten : Written text statements)
    {d d' : Definition} {r r' : Rule} (hd : d ∈ p.definitions) (hr : r ∈ d.rules)
    (hd' : d' ∈ p.definitions) (hr' : r' ∈ d'.rules) (hline : r.loc.line = r'.loc.line) :
    d = d' ∧ r = r' := by
  obtain ⟨line, hmem, hhead, rfl⟩ := h.exists_line hd hr
  obtain ⟨line', hmem', hhead', rfl⟩ := h.exists_line hd' hr'
  obtain rfl : line = line' :=
    Statement.rule.inj (Statement.eq_of_line_eq (Lines.pairwise_line hwritten) hmem hmem' hline)
  obtain rfl : d = d' :=
    List.inj_on_of_nodup_map hwf.names_nodup hd hd' (hhead.symm.trans hhead')
  exact ⟨rfl, rfl⟩

end Gathered

/-- The places of a text that scans to statements, found by counting line feeds, are those of the word
`start`, of the heads of lines and of the names of all references at any depth, and each statement is on
a line after the one before it. A program of the statements keeps the places. No two of its rules are on
one line, and every transition of its table has the place of its rule. -/
theorem places_faithful {source : String} {statements : List Statement}
    (h : Statement.scan source.toList = .complete statements) :
    (∀ s ∈ statements, s.opening.StandsAt source.toList s.loc ∧
      ∀ ref ∈ Term.subterms s.target,
        (Token.name (RawRef.name ref)).StandsAt source.toList (RawRef.loc ref)) ∧
    (statements.Pairwise fun s later => s.loc.line < later.loc.line) ∧
    ∀ file p, parse source file = .ok p →
      p.KeepsPlaces source.toList statements ∧
      (∀ d ∈ p.definitions, ∀ r ∈ d.rules, ∀ d' ∈ p.definitions, ∀ r' ∈ d'.rules,
        r.loc.line = r'.loc.line → d = d' ∧ r = r') ∧
      ∀ t, p.expand = .ok t → ∀ row ∈ t.rows, ∀ entry ∈ row.2, ∃ d ∈ p.definitions,
        d.name = row.1.head ∧ ∃ r ∈ d.rules, r.read = entry.1 ∧ r.loc = entry.2.loc := by
  have hwritten := written_of_scan h
  refine ⟨fun s hs => ⟨hwritten.standsAt hs s.opening_mem_tokens, fun ref href =>
    hwritten.standsAt hs (Statement.mem_tokens_of_mem_subterms href)⟩,
    Lines.pairwise_line hwritten, fun file p hp => ?_⟩
  obtain ⟨scanned, hscan, _, hassemble⟩ := parse_eq_ok.1 hp
  obtain rfl : statements = scanned := Scanned.complete.inj (h.symm.trans hscan)
  have hwf := wellFormed_of_parse hp
  have hgathers := gathers_of_assemble hassemble
  refine ⟨hgathers.keepsPlaces hwritten, fun d hd r hr d' hd' r' hr' =>
    hgathers.eq_of_line_eq hwf hwritten hd hr hd' hr', fun t ht row hrow entry hentry => ?_⟩
  exact exists_rule_of_expanded hwf (expanded_of_expand hwf ht) hrow hentry

def scattered : String :=
  -- Comments with line feeds before a statement, inside it and between references, and lines that end
  -- with a carriage return.
  "start = /* from\n here */ go<\tgo<stop>>\r\n\n/* to\r\nthere */ go<k> 0 = 1; go<go</*\n*/k>> next" ++
    "\r\ngo<x> _ /*\n\n*/ = _; x current // end\nstop 0 = 0; finish prev"

set_option maxRecDepth 20000 in
theorem places_faithful_scattered : ∃ statements p,
    Statement.scan scattered.toList = .complete statements ∧ parse scattered "scattered" = .ok p ∧
    statements.map Statement.loc = [⟨1, 1⟩, ⟨5, 10⟩, ⟨7, 1⟩, ⟨10, 1⟩] ∧
    (∀ s ∈ statements, s.opening.StandsAt scattered.toList s.loc) ∧
    p.KeepsPlaces scattered.toList statements ∧
    p.definitions.map (fun d => (d.name, d.loc, d.rules.map fun r =>
      (Term.atoms r.target).map fun a => (a.val, a.loc))) =
      [("go", ⟨5, 10⟩, [[(.state "go", ⟨5, 23⟩), (.state "go", ⟨5, 26⟩), (.param "k", ⟨6, 3⟩)],
        [(.param "k", ⟨9, 9⟩)]]),
      ("stop", ⟨10, 1⟩, [[(.state "finish", ⟨10, 13⟩)]])] := by
  obtain ⟨p, hp, hshape⟩ := exists_ok_of_any (x := parse scattered "scattered")
    (t := fun p => p.definitions.map (fun d => (d.name, d.loc, d.rules.map fun r =>
      (Term.atoms r.target).map fun a => (a.val, a.loc))) ==
      [("go", ⟨5, 10⟩, [[(.state "go", ⟨5, 23⟩), (.state "go", ⟨5, 26⟩), (.param "k", ⟨6, 3⟩)],
        [(.param "k", ⟨9, 9⟩)]]),
      ("stop", ⟨10, 1⟩, [[(.state "finish", ⟨10, 13⟩)]])]) (by decide_cbv)
  obtain ⟨statements, hscan, _, _⟩ := parse_eq_ok.1 hp
  have hlocs : (Statement.scan scattered.toList).statements.map Statement.loc =
      [⟨1, 1⟩, ⟨5, 10⟩, ⟨7, 1⟩, ⟨10, 1⟩] := by decide_cbv
  rw [hscan] at hlocs
  obtain ⟨hstands, _, hkeeps⟩ := places_faithful hscan
  exact ⟨statements, p, hscan, hp, hlocs, fun s hs => (hstands s hs).1,
    (hkeeps "scattered" p hp).1, by simpa using hshape⟩

end Program

end GenericTuring
