import GenericTuring.Proofs.Validity
import GenericTuring.Proofs.WellFormed
import Mathlib

/-!
What assembly makes of a valid list of statements, and that it makes something of no other. The heads
become definitions in the order in which they first occur, and no line is lost, changed or moved on the
way to the rules of its head.
-/

namespace GenericTuring

open Statement

def RuleLine.rule (line : RuleLine) (params : List String) : Rule :=
  ⟨line.read.val, line.write.val, RawRef.relabel (line.params.zip params) line.target, line.move,
    line.loc⟩

theorem Entry.Renders.eq_rule {e : Entry} {line : RuleLine} {r : Rule} (h : e.Renders line r) :
    line.rule e.first.params = r := by
  cases r with
  | mk read write target move loc =>
    rw [RuleLine.rule, ← h.read_eq, ← h.write_eq, ← h.target_eq, ← h.move_eq, ← h.loc_eq]

theorem Entry.Defines.rules_eq {e : Entry} {d : Definition} (h : e.Defines d) :
    d.rules = e.lines.map fun line => line.rule e.first.params := by
  have hmap := map_eq_map_of_forall₂ (g := id) h.rules fun line r hr => hr.eq_rule
  rw [hmap, List.map_id]

/-- A repeated last element is not a new one. -/
theorem eraseDups_append_singleton {α : Type} [DecidableEq α] (xs : List α) (x : α) :
    (xs ++ [x]).eraseDups = if x ∈ xs then xs.eraseDups else xs.eraseDups ++ [x] := by
  by_cases hx : x ∈ xs
  · simp [List.eraseDups_append, List.removeAll, hx]
  · simp [List.eraseDups_append, List.removeAll, List.eraseDups_cons, hx]

namespace Outline

theorem heads_append_rule (ss : List Statement) (line : RuleLine) :
    heads (ss ++ [.rule line]) = heads ss ++ [line.head] := by
  simp [heads, ruleLines_append_rule]

theorem heads_append_start (ss : List Statement) (target : RawRef) (loc : Loc) :
    heads (ss ++ [.start target loc]) = heads ss := by
  simp [heads, ruleLines_append_start]

def InOrder (ss : List Statement) (o : Outline) : Prop :=
  o.entries.map Entry.name = (heads ss).eraseDups

theorem InOrder.insert {ss : List Statement} {o : Outline} (h : InOrder ss o) (line : RuleLine) :
    InOrder (ss ++ [.rule line]) { o with entries := Outline.insert line o.entries } := by
  rw [InOrder, heads_append_rule, eraseDups_append_singleton]
  have hmem : line.head ∈ o.entries.map Entry.name ↔ line.head ∈ heads ss := by
    rw [h, List.mem_eraseDups]
  by_cases hknown : line.head ∈ heads ss
  · rw [if_pos hknown]
    exact (map_name_insert_of_mem (hmem.2 hknown)).trans h
  · rw [if_neg hknown, insert_of_notMem fun hhead => hknown (hmem.1 hhead), List.map_append, h]
    rfl

theorem InOrder.add {ss : List Statement} {o o' : Outline} {s : Statement} (h : InOrder ss o)
    (hadd : o.add s = .ok o') : InOrder (ss ++ [s]) o' := by
  cases s with
  | start target loc =>
    cases hstart : o.start with
    | some first => simp [Outline.add, hstart] at hadd
    | none =>
      obtain rfl : { o with start := some (target, loc) } = o' := by
        simpa [Outline.add, hstart] using hadd
      rw [InOrder, heads_append_start]
      exact h
  | rule line =>
    obtain ⟨_, _, hadd⟩ := bind_eq_ok.1 hadd
    have hentries : { o with entries := Outline.insert line o.entries } = o' := by
      cases hentry : o.entry? line.head with
      | none => simpa [hentry] using hadd
      | some first =>
        by_cases harity : first.first.params.length = line.params.length
        · simpa [hentry, harity] using hadd
        · simp [hentry, harity] at hadd
    exact hentries ▸ h.insert line

theorem inOrder_ofStatements {statements : List Statement} {o : Outline}
    (h : ofStatements statements = .ok o) : InOrder statements o :=
  ofStatements_induction rfl InOrder.add h

end Outline

namespace Program

/-- The program has a definition for each head of the statements, in the order of their first lines. It has
the parameters and the place of the first line, and the rules of all lines of the head in source order. -/
structure Gathers (statements : List Statement) (p : Program) : Prop where
  start : ∃ target loc, starts statements = [(target, loc)] ∧ p.start = RawRef.closed target ∧
    p.startLoc = loc
  names : p.definitions.map Definition.name = (heads statements).eraseDups
  definition : ∀ d ∈ p.definitions, ∃ first others, linesOf statements d.name = first :: others ∧
    d.params = first.params ∧ d.loc = first.loc ∧
    d.rules = (linesOf statements d.name).map fun line => line.rule first.params

theorem gathers_of_assemble {source file : String} {statements : List Statement} {p : Program}
    (h : assemble source file statements = .ok p) : p.Gathers statements := by
  obtain ⟨o, target, loc, definitions, ho, hstart, hdefinitions, rfl⟩ := assemble_eq_ok.1 h
  have hrecords : o.Records statements := Outline.records_ofStatements ho
  have hdefines : List.Forall₂ Entry.Defines o.entries definitions :=
    hdefinitions.imp fun _ _ => Entry.defines_of_definition
  refine ⟨⟨target, loc, hrecords.starts_eq hstart, rfl, rfl⟩, ?_, ?_⟩
  · rw [← Outline.inOrder_ofStatements ho]
    exact (map_eq_map_of_forall₂ hdefines fun e d hd => hd.name_eq.symm).symm
  · intro d hd
    obtain ⟨e, he, hdef⟩ := exists_of_mem_right hdefines hd
    have hlines : linesOf statements d.name = e.lines := by
      rw [hrecords.lines_eq e he, hdef.name_eq]
    exact ⟨e.first, e.others, hlines, hdef.params_eq, hdef.loc_eq, hlines ▸ hdef.rules_eq⟩

/-- A list of statements makes a program exactly if it is valid: it has one start directive, the
accepting state is neither head nor parameter, no line repeats a parameter, the lines of one head have
as many parameters and read different symbols, no parameter is given arguments, and a name without
arguments on a line with parameters is one of them, a head or the accepting state. The program then
gathers all lines under their heads and keeps the start, the source and the name of the file. -/
theorem assembles_iff_valid (source file : String) (statements : List Statement) :
    ((∃ p, assemble source file statements = .ok p) ↔ Valid statements) ∧
    ∀ p, assemble source file statements = .ok p →
      p.Gathers statements ∧ p.source = source ∧ p.file = file := by
  refine ⟨exists_assemble_iff, fun p hp => ⟨gathers_of_assemble hp, ?_⟩⟩
  obtain ⟨o, target, loc, definitions, _, _, _, rfl⟩ := assemble_eq_ok.1 hp
  exact ⟨rfl, rfl⟩

def mixture : String :=
  -- Two heads with their lines mixed, a head used before its first line, and one parameter under two
  -- names.
  "go<x> 1 = 0; go<x> next\nstart = go<stop>\nstop 0 = 1; finish prev\n" ++
    "go<y> _ = _; y current\nstop _ = 0; go<finish> next\ngo<stop> 0 = 1; go<go<stop>> next\n"

set_option maxRecDepth 20000 in
theorem assembles_iff_valid_mixture : ∃ statements p,
    Statement.scan mixture.toList = .complete statements ∧
    assemble mixture "mixture" statements = .ok p ∧ Valid statements ∧ p.Gathers statements ∧
    p.definitions.map (fun d => (d.name, d.params, d.rules.map fun r => r.loc.line)) =
      [("go", ["x"], [1, 4, 6]), ("stop", [], [3, 5])] := by
  obtain ⟨p, hp, hshape⟩ := exists_ok_of_any (x := parse mixture "mixture")
    (t := fun p => p.definitions.map (fun d => (d.name, d.params, d.rules.map fun r => r.loc.line)) ==
      [("go", ["x"], [1, 4, 6]), ("stop", [], [3, 5])]) (by decide_cbv)
  obtain ⟨statements, hscan, _, hassemble⟩ := parse_eq_ok.1 hp
  obtain ⟨hvalid, hgathers⟩ := assembles_iff_valid mixture "mixture" statements
  exact ⟨statements, p, hscan, hassemble, hvalid.1 ⟨p, hassemble⟩, (hgathers p hassemble).1,
    by simpa using hshape⟩

end Program

end GenericTuring
