import GenericTuring.Proofs.Overflows
import GenericTuring.Proofs.Roundtrip

/-!
What parsing makes sure of, and what later stages rely on. A program that a text gives is well formed
in its names, parameters and symbols; so expansion finds every parameter bound and every place a state
was reached from on record, and naming finds a name for every state. The one thing that may break off is
parsing itself, and only in a text with comments.
-/

namespace GenericTuring

open Grammar

namespace Program

variable {p : Program}

structure WellWritten (p : Program) : Prop extends WellFormed p where
  name_notMem_keywords : ∀ d ∈ p.definitions, d.name ∉ keywords
  symbols_plain : ∀ d ∈ p.definitions, ∀ r ∈ d.rules, r.read.Plain ∧ r.write.Plain

theorem wellWritten_of_parse {source file : String} (h : parse source file = .ok p) :
    p.WellWritten := by
  obtain ⟨statements, o, hscan, hblank, hassembled⟩ := assembled_of_parse h
  have hentry : ∀ d ∈ p.definitions, ∃ e ∈ o.entries, e.Defines d :=
    fun d hd => exists_of_mem_right hassembled.definitions hd
  refine ⟨wellFormed_of_assembled hassembled, ?_, ?_⟩
  · intro d hd
    obtain ⟨e, he, hdef⟩ := hentry d hd
    have hline := Statement.mem_ruleLines.1 (hassembled.line_mem he List.mem_cons_self)
    rw [hdef.name_eq]
    exact Statement.head_notMem_keywords hscan hline
  · intro d hd r hr
    obtain ⟨e, he, hdef⟩ := hentry d hd
    obtain ⟨line, hline, hrenders⟩ := exists_of_mem_right hdef.rules hr
    have hmem := hassembled.line_mem he hline
    have hspelt : line.Spelt := Statement.spelt_of_scan hscan _ (Statement.mem_ruleLines.1 hmem)
    have hlooks := Statement.looksBlank_eq_false hblank hmem
    rw [hrenders.read_eq, hrenders.write_eq]
    exact ⟨Symbol.plain_of_isSymbol hspelt.read hlooks.1, Symbol.plain_of_isSymbol hspelt.write hlooks.2⟩

structure Safe (p : Program) : Prop where
  start_bound : ∃ start, p.startKey = .ok start
  param_bound : ∀ key d, p.meaning key = .defined d → ∀ r ∈ d.rules, ∀ x ∈ r.target.params,
    ∃ value, (bindings d key).lookup x = some value
  edge_owned : ∀ e ∈ Flow.edges p, ∃ owner, p.definition? e.source.state = some owner ∧
    e.source.param ∈ owner.params
  visit_traced : ∀ start, p.startKey = .ok start →
    ∀ v ∈ (p.states start).visits ++ (p.states start).stop.toList,
      Search.Traced p.successors [start] (p.states start).visits v
  state_named : ∀ t, p.expand = .ok t → ∀ naming,
    (∀ key ∈ [t.start, Key.finish], ∃ name, (Listing.names naming t).lookup key = some name) ∧
    ∀ e ∈ t.transitions, ∀ key ∈ [e.1, e.2.2.target],
      ∃ name, (Listing.names naming t).lookup key = some name

theorem safe_of_parse {source file : String} (h : parse source file = .ok p) : p.Safe := by
  have hwf := wellFormed_of_parse h
  refine ⟨hwf.exists_startKey, ?_, ?_, ?_, ?_⟩
  · intro key d hmeaning r hr x hx
    obtain ⟨hd, _⟩ := mem_definitions_of_meaning hmeaning
    obtain ⟨_, _, harity⟩ := meaning_eq_defined.1 hmeaning
    exact exists_lookup_zip harity (hwf.target_scoped d hd r hr x hx)
  · intro e he
    obtain ⟨owner, howner, hname, hparam⟩ := hwf.edge_owned he
    exact ⟨owner, hname ▸ (mem_definitions_of_mentioned howner).2.1, hparam⟩
  · intro start _ v hv
    exact Search.traced_search hv
  · intro t hexpand naming
    have ht := regular_of_parse h hexpand
    have hf := Listing.faithful_names ht naming
    have hnamed : ∀ key, key ∈ t.keys ∨ key = Key.finish →
        ∃ name, (Listing.names naming t).lookup key = some name := by
      intro key hkey
      cases hkey with
      | inl hmem => exact ⟨_, hf.lookup_eq (Listing.mem_namedKeys_of_mem hmem)⟩
      | inr heq => exact ⟨_, hf.lookup_eq (heq ▸ Listing.finish_mem_namedKeys t)⟩
    constructor
    · intro key hkey
      apply hnamed
      obtain rfl | rfl : key = t.start ∨ key = Key.finish := by simpa using hkey
      · exact .inl ht.start_mem
      · exact .inr rfl
    · intro e he key hkey
      apply hnamed
      obtain rfl | rfl : key = e.1 ∨ key = e.2.2.target := by simpa using hkey
      · exact .inl (Table.key_mem_of_mem_transitions he)
      · exact .inl (ht.target_mem e he)

end Program

/-- The errors that a program can have. The others stand for something that expansion could not find. -/
def ExpansionError.Proper : ExpansionError → Prop
  | .cycle .. | .undefined .. | .mismatch .. => True
  | .unbound _ | .outgrown _ => False

namespace Program

variable {p : Program}

theorem expand_proper (hwf : p.WellFormed) :
    (∃ t, p.expand = .ok t) ∨ ∃ e, p.expand = .error e ∧ e.Proper := by
  cases hcycle : p.expandingCycle? with
  | some cycle => exact .inr ⟨_, expand_of_cycle hcycle, trivial⟩
  | none =>
    obtain ⟨start, hstart⟩ := hwf.exists_startKey
    cases hstop : (p.states start).stop with
    | none =>
      obtain ⟨rows, _, hexpand⟩ := expand_of_exhausted hwf hcycle hstart hstop
      exact .inl ⟨_, hexpand⟩
    | some v =>
      have hproper : (p.refusal v).Proper := by
        obtain ⟨_, _, _, hrefusal⟩ | ⟨_, _, _, _, _, hrefusal⟩ := refusal_cases p v
        · rw [hrefusal]; trivial
        · rw [hrefusal]; trivial
      exact .inr ⟨_, expand_of_stop hcycle hstart hstop, hproper⟩

theorem write_cases {source file : String} {t : Table} (h : parse source file = .ok p)
    (hexpand : p.expand = .ok t) (o : Listing.Options) :
    (∃ text, Listing.write o t = .ok text) ∨
      ∃ mark key, Listing.write o t = .error (.unsupported mark key) := by
  cases hwrite : Listing.write o t with
  | ok text => exact .inl ⟨text, rfl⟩
  | error error =>
    obtain ⟨e, _, _, mark, rfl⟩ :=
      Listing.exists_unsupported_of_write (regular_of_parse h hexpand) hwrite
    exact .inr ⟨mark, e.1, rfl⟩

/-- For every text: a program that it gives is well formed, all that expansion and naming look up is
there, expansion gives a table or an error in the program, and the table is written out unless a symbol
cannot be. Parsing breaks off exactly if the text stops being a program in a line where references nest
too deeply, as the line is scanned from its beginning; without comments it never does. -/
theorem parsed_program_safe (source file : String) :
    (∀ p, parse source file = .ok p → p.WellWritten ∧ p.Safe ∧
      ((∃ t, p.expand = .ok t) ∨ ∃ e, p.expand = .error e ∧ e.Proper) ∧
      ∀ t, p.expand = .ok t → ∀ o, (∃ text, Listing.write o t = .ok text) ∨
        ∃ mark key, Listing.write o t = .error (.unsupported mark key)) ∧
    (∀ crash, parse source file = .error (.crashed crash) ↔
      ∃ stop, Statement.scan source.toList = .stopped stop ∧ Overruns source.toList stop) ∧
    (¬Commented source.toList → ∀ crash, parse source file ≠ .error (.crashed crash)) := by
  refine ⟨fun p h => ?_, fun crash => parse_eq_crashed, fun htext crash hcrash => ?_⟩
  · exact ⟨wellWritten_of_parse h, safe_of_parse h, expand_proper (wellFormed_of_parse h),
      fun t hexpand o => write_cases h hexpand o⟩
  · obtain ⟨stop, hscan, hoverruns⟩ := parse_eq_crashed.1 hcrash
    exact not_overruns htext hscan hoverruns

def errand : String :=
  -- States handed on as arguments, and a symbol that no listing can hold.
  "start = walk<back<finish>>\nwalk<k> 1 = ','; walk<k> next\nwalk<k> _ = _; k prev\n" ++
    "back<to> ',' = 1; back<to> prev\nback<k> _ = 0; k current\n"

set_option maxRecDepth 20000 in
theorem parsed_program_safe_errand : ∃ p t, parse errand "errand" = .ok p ∧ p.expand = .ok t ∧
    p.WellWritten ∧ p.Safe ∧
      ∃ mark key, Listing.write ⟨"", none⟩ t = .error (.unsupported mark key) := by
  obtain ⟨p, hp, hany⟩ := exists_ok_of_any (x := parse errand "errand")
    (t := fun p => p.expand.toOption.any fun t => (Listing.write ⟨"", none⟩ t).toOption.isNone)
    (by decide_cbv)
  obtain ⟨t, ht, hnone⟩ := exists_ok_of_any hany
  obtain ⟨hwritten, hsafe, _, hwrite⟩ := (parsed_program_safe errand "errand").1 p hp
  refine ⟨p, t, hp, ht, hwritten, hsafe, ?_⟩
  cases hwrite t ht ⟨"", none⟩ with
  | inl hok =>
    obtain ⟨text, htext⟩ := hok
    simp [htext, Except.toOption] at hnone
  | inr hunsupported => exact hunsupported

/-- A text for which parsing gives neither a program nor an error. -/
theorem parse_breaks_off : ∃ crash, parse (deepComment 1000) "<input>" = .error (.crashed crash) :=
  ⟨.overflow, parse_deepComment (by decide) "<input>"⟩

end Program

end GenericTuring
