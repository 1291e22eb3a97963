import GenericTuring.Program.Parse
import GenericTuring.Proofs.Assembly

/-!
Well-formed programs. Assembly gives no others: names and parameters are not repeated, the accepting
state is not redefined, and a reference mentions no parameter that its definition lacks.
-/

namespace GenericTuring

namespace Program

structure WellFormed (p : Program) : Prop where
  names_nodup : (p.definitions.map Definition.name).Nodup
  name_ne_finish : ∀ d ∈ p.definitions, d.name ≠ finishName
  params_nodup : ∀ d ∈ p.definitions, d.params.Nodup
  finish_notMem_params : ∀ d ∈ p.definitions, finishName ∉ d.params
  rules_ne_nil : ∀ d ∈ p.definitions, d.rules ≠ []
  reads_nodup : ∀ d ∈ p.definitions, (d.rules.map Rule.read).Nodup
  target_scoped : ∀ d ∈ p.definitions, ∀ r ∈ d.rules, ∀ x ∈ r.target.params, x ∈ d.params
  target_bare : ∀ d ∈ p.definitions, ∀ r ∈ d.rules, r.target.Bare
  start_params : p.start.params = []

theorem Assembled.line_mem {statements : List Statement} {p : Program} {o : Outline}
    (h : Assembled statements p o) {e : Entry} (he : e ∈ o.entries) {line : RuleLine}
    (hline : line ∈ e.lines) : line ∈ Statement.ruleLines statements := by
  rw [h.records.lines_eq e he] at hline
  exact (List.mem_filter.1 hline).1

theorem Assembled.map_name {statements : List Statement} {p : Program} {o : Outline}
    (h : Assembled statements p o) : o.entries.map Entry.name = p.definitions.map Definition.name :=
  map_eq_map_of_forall₂ h.definitions fun _ _ hd => hd.name_eq.symm

theorem wellFormed_of_assembled {statements : List Statement} {p : Program} {o : Outline}
    (h : Assembled statements p o) : p.WellFormed := by
  have hentry : ∀ d ∈ p.definitions, ∃ e ∈ o.entries, e.Defines d ∧ e.first.HeadAllowed := by
    intro d hd
    obtain ⟨e, he, hdef⟩ := exists_of_mem_right h.definitions hd
    exact ⟨e, he, hdef, h.records.allowed _ (h.line_mem he List.mem_cons_self)⟩
  refine ⟨?_, ?_, ?_, ?_, ?_, ?_, ?_, ?_, ?_⟩
  · rw [← h.map_name]
    exact h.records.nodup
  · intro d hd
    obtain ⟨e, _, hdef, hallowed⟩ := hentry d hd
    rw [hdef.name_eq]
    exact hallowed.head_ne
  · intro d hd
    obtain ⟨e, _, hdef, hallowed⟩ := hentry d hd
    rw [hdef.params_eq]
    exact hallowed.nodup
  · intro d hd
    obtain ⟨e, _, hdef, hallowed⟩ := hentry d hd
    rw [hdef.params_eq]
    exact hallowed.finish_notMem
  · intro d hd hnil
    obtain ⟨e, _, hdef, _⟩ := hentry d hd
    have hlen := hdef.rules.length_eq
    simp [Entry.lines, hnil] at hlen
  · intro d hd
    obtain ⟨e, _, hdef, _⟩ := hentry d hd
    exact hdef.reads_nodup
  · intro d hd r hr x hx
    obtain ⟨e, _, hdef, _⟩ := hentry d hd
    obtain ⟨line, _, hrenders⟩ := exists_of_mem_right hdef.rules hr
    rw [hrenders.target_eq] at hx
    obtain ⟨a, _, hlookup⟩ := RawRef.mem_params_relabel hx
    rw [hdef.params_eq]
    exact (List.of_mem_zip (mem_of_lookup_eq_some hlookup)).2
  · intro d hd r hr
    obtain ⟨e, _, hdef, _⟩ := hentry d hd
    obtain ⟨line, _, hrenders⟩ := exists_of_mem_right hdef.rules hr
    exact hrenders.target_bare
  · obtain ⟨target, loc, _, hstart⟩ := h.start
    rw [hstart, RawRef.closed_eq_relabel]
    refine List.eq_nil_iff_forall_not_mem.2 fun x hx => ?_
    obtain ⟨a, _, hlookup⟩ := RawRef.mem_params_relabel hx
    simp at hlookup

theorem parse_eq_ok {source file : String} {p : Program} :
    parse source file = .ok p ↔ ∃ statements, Statement.scan source.toList = .complete statements ∧
      Statement.blankLooking? statements = none ∧ assemble source file statements = .ok p := by
  cases hscan : Statement.scan source.toList with
  | tooDeep => simp [parse, hscan]
  | stopped offset => simp [parse, hscan]
  | complete statements =>
    cases hblank : Statement.blankLooking? statements with
    | some symbol => simp [parse, hscan, hblank]
    | none => simp [parse, hscan, hblank, mapError_eq_ok]

theorem assembled_of_parse {source file : String} {p : Program} (h : parse source file = .ok p) :
    ∃ statements o, Statement.scan source.toList = .complete statements ∧
      Statement.blankLooking? statements = none ∧ Assembled statements p o := by
  obtain ⟨statements, hscan, hblank, hassemble⟩ := parse_eq_ok.1 h
  obtain ⟨o, ho⟩ := assembled_of_assemble hassemble
  exact ⟨statements, o, hscan, hblank, ho⟩

theorem wellFormed_of_parse {source file : String} {p : Program}
    (h : parse source file = .ok p) : p.WellFormed := by
  obtain ⟨statements, o, _, _, ho⟩ := assembled_of_parse h
  exact wellFormed_of_assembled ho

section Definitions

variable {p : Program}

theorem mem_of_definition? {name : String} {d : Definition} (h : p.definition? name = some d) :
    d ∈ p.definitions ∧ d.name = name :=
  ⟨List.mem_of_find?_eq_some h, by simpa using List.find?_some h⟩

theorem WellFormed.definition?_of_mem (h : p.WellFormed) {d : Definition}
    (hd : d ∈ p.definitions) : p.definition? d.name = some d := by
  obtain ⟨found, hfound⟩ : ∃ found, p.definition? d.name = some found := by
    refine Option.isSome_iff_exists.1 (List.find?_isSome.2 ⟨d, hd, by simp⟩)
  obtain ⟨hmem, hname⟩ := mem_of_definition? hfound
  rw [hfound, List.inj_on_of_nodup_map h.names_nodup hmem hd hname]

end Definitions

end Program

end GenericTuring
