import GenericTuring.Proofs.LineRows
import GenericTuring.Proofs.Scanned

/-!
What every table of a parsed program is like: its states are closed under transitions and have names of
letters, digits and underscores, no state has two transitions for a symbol, and every mark is one
character that no tape text takes for the blank.
-/

namespace GenericTuring

open Grammar

def Symbol.Plain (s : Symbol) : Prop :=
  ∀ text, s = .mark text →
    ∃ c, text = String.singleton c ∧ c ≠ ' ' ∧ c ≠ '_' ∧ c ≠ '\r' ∧ c ≠ '\n'

theorem Symbol.plain_of_isSymbol {s : Symbol} (h : IsSymbol s) (hlooks : s.looksBlank = false) :
    s.Plain := by
  intro text hs
  subst hs
  obtain ⟨c, rfl, hcr, hlf⟩ := h
  have hnot : String.singleton c ≠ "_" ∧ String.singleton c ≠ " " := by
    simpa [Symbol.looksBlank] using hlooks
  refine ⟨c, rfl, ?_, ?_, hcr, hlf⟩
  · intro hc
    exact hnot.2 (by rw [hc]; rfl)
  · intro hc
    exact hnot.1 (by rw [hc]; rfl)

theorem Statement.looksBlank_eq_false {statements : List Statement} {line : RuleLine}
    (h : blankLooking? statements = none) (hline : line ∈ ruleLines statements) :
    line.read.val.looksBlank = false ∧ line.write.val.looksBlank = false := by
  have hall : statements.flatMap blankLooking = [] := List.head?_eq_none_iff.1 h
  have hnil : blankLooking (.rule line) = [] :=
    List.flatMap_eq_nil_iff.1 hall (.rule line) (mem_ruleLines.1 hline)
  simpa [blankLooking, List.filter_eq_nil_iff] using hnil

namespace Table

structure Regular (t : Table) : Prop where
  start_mem : t.start ∈ t.keys
  keys_nodup : t.keys.Nodup
  reads_nodup : ∀ entry ∈ t.rows, (entry.2.map Prod.fst).Nodup
  target_mem : ∀ e ∈ t.transitions, e.2.2.target ∈ t.keys
  name : ∀ key ∈ t.keys, ∀ a ∈ key.atoms, IsName a
  read : ∀ e ∈ t.transitions, e.2.1.Plain
  write : ∀ e ∈ t.transitions, e.2.2.write.Plain

theorem mem_transitions {t : Table} {key : Key} {symbol : Symbol} {tr : Transition} :
    (key, symbol, tr) ∈ t.transitions ↔ ∃ row, (key, row) ∈ t.rows ∧ (symbol, tr) ∈ row := by
  simp only [transitions, List.mem_flatMap, List.mem_map, Prod.mk.injEq, Prod.exists]
  constructor
  · intro h
    obtain ⟨k, row, hrow, s, u, hmem, rfl, rfl, rfl⟩ := h
    exact ⟨row, hrow, hmem⟩
  · intro h
    obtain ⟨row, hrow, hmem⟩ := h
    exact ⟨key, row, hrow, symbol, tr, hmem, rfl, rfl, rfl⟩

theorem key_mem_of_mem_transitions {t : Table} {e : Key × Symbol × Transition}
    (he : e ∈ t.transitions) : e.1 ∈ t.keys := by
  obtain ⟨row, hrow, _⟩ := mem_transitions.1 he
  exact List.mem_map.2 ⟨_, hrow, rfl⟩

theorem row_of_mem_rows {t : Table} (hnodup : t.keys.Nodup) {key : Key} {row : Row}
    (h : (key, row) ∈ t.rows) : t.row key = row := by
  rw [Table.row, lookup_eq_some_of_mem hnodup h]
  rfl

theorem Regular.lookup_eq_some {t : Table} (ht : t.Regular) {key : Key} {symbol : Symbol}
    {tr : Transition} : t.lookup key symbol = some tr ↔ (key, symbol, tr) ∈ t.transitions := by
  constructor
  · intro h
    cases hrow : t.rows.lookup key with
    | none => simp [Table.lookup, Table.row, hrow] at h
    | some row =>
      have hlookup : row.lookup symbol = some tr := by
        simpa [Table.lookup, Table.row, hrow] using h
      exact mem_transitions.2 ⟨row, mem_of_lookup_eq_some hrow, mem_of_lookup_eq_some hlookup⟩
  · intro h
    obtain ⟨row, hrow, hmem⟩ := mem_transitions.1 h
    rw [Table.lookup, row_of_mem_rows ht.keys_nodup hrow]
    exact lookup_eq_some_of_mem (ht.reads_nodup (key, row) hrow) hmem

end Table

namespace Program

variable {p : Program} {statements : List Statement} {o : Outline} {t : Table}

/-- The names in a state of a program are names in the program. -/
theorem Assembled.isName_of_reaches (h : Assembled statements p o) (ht : p.Expanded t)
    (hspelt : ∀ s ∈ statements, s.Spelt) {key : Key} (hkey : p.Reaches key) :
    ∀ a ∈ key.atoms, IsName a := by
  induction hkey with
  | @start key hstart =>
    intro a ha
    obtain rfl : t.start = key := Except.ok.inj (ht.start_eq.symm.trans hstart)
    obtain ⟨directive, hdirective, hbind⟩ := Option.map_eq_some_iff.1 (h.start?_eq ht)
    have hs := Statement.start_mem_of_mem_starts (List.mem_of_mem_head? hdirective)
    rw [← hbind] at ha
    obtain ⟨b, hb, hab⟩ := Term.mem_atoms_bind ha
    obtain rfl : a = b.val := by simpa [Term.atoms] using hab
    exact hspelt _ hs b hb
  | @argument key arg hkey hmeaning harg ih =>
    intro a ha
    exact ih a (Term.mem_atoms_of_mem_args harg ha)
  | @target key next d r hkey hmeaning hr hnext ih =>
    intro a ha
    obtain ⟨line, hline, rfl⟩ := h.exists_line hmeaning hr hnext
    have hspeltLine : line.Spelt := hspelt _ (Statement.mem_ruleLines.1 hline)
    obtain ⟨b, hb, hab⟩ := Term.mem_atoms_bind ha
    cases hlookup : (line.params.zip key.args).lookup b.val with
    | none =>
      obtain rfl : a = b.val := by simpa [RuleLine.standsFor, hlookup, Term.atoms] using hab
      exact hspeltLine.target b hb
    | some arg =>
      have harg : arg ∈ key.args := (List.of_mem_zip (mem_of_lookup_eq_some hlookup)).2
      have hatom : a ∈ arg.atoms := by simpa [RuleLine.standsFor, hlookup] using hab
      exact ih a (Term.mem_atoms_of_mem_args harg hatom)

theorem regular_of_parse {source file : String} (hparse : Program.parse source file = .ok p)
    (hexpand : p.expand = .ok t) : t.Regular := by
  obtain ⟨statements, o, hscan, hblank, h⟩ := assembled_of_parse hparse
  have hspelt := Statement.spelt_of_scan hscan
  have ht := expanded_of_expand (wellFormed_of_assembled h) hexpand
  have hrow : ∀ key row, (key, row) ∈ t.rows → key ∈ t.keys ∧ row = t.row key ∧
      row = (Statement.linesOf statements key.head).map fun line =>
        (line.read.val, line.transition key) := by
    intro key row hmem
    have hkey : key ∈ t.keys := List.mem_map.2 ⟨_, hmem, rfl⟩
    exact ⟨hkey, (Table.row_of_mem_rows ht.nodup hmem).symm,
      h.row_eq_lines (ht.resolved key hkey) (ht.row_eq (key, row) hmem)⟩
  have hplain : ∀ key symbol tr, (key, symbol, tr) ∈ t.transitions →
      symbol.Plain ∧ tr.write.Plain := by
    intro key symbol tr hmem
    obtain ⟨row, hrowMem, hentry⟩ := Table.mem_transitions.1 hmem
    rw [(hrow key row hrowMem).2.2] at hentry
    obtain ⟨line, hline, heq⟩ := List.mem_map.1 hentry
    obtain ⟨rfl, rfl⟩ := Prod.mk.inj heq
    have hmemLine := (Statement.mem_linesOf.1 hline).1
    have hlooks := Statement.looksBlank_eq_false hblank hmemLine
    have hspeltLine : line.Spelt := hspelt _ (Statement.mem_ruleLines.1 hmemLine)
    exact ⟨Symbol.plain_of_isSymbol hspeltLine.read hlooks.1,
      Symbol.plain_of_isSymbol hspeltLine.write hlooks.2⟩
  refine ⟨(ht.mem_keys t.start).2 (.start ht.start_eq), ht.nodup, ?_, ?_, ?_, ?_, ?_⟩
  · intro entry hentry
    obtain ⟨hkey, _, hlines⟩ := hrow entry.1 entry.2 hentry
    rw [hlines, List.map_map]
    exact h.reads_nodup (ht.resolved entry.1 hkey)
  · intro e he
    obtain ⟨row, hrowMem, hentry⟩ := Table.mem_transitions.1 he
    obtain ⟨hkey, hsame, _⟩ := hrow e.1 row hrowMem
    exact ht.target_mem hkey (hsame ▸ hentry)
  · intro key hkey
    exact h.isName_of_reaches ht hspelt ((ht.mem_keys key).1 hkey)
  · exact fun e he => (hplain e.1 e.2.1 e.2.2 he).1
  · exact fun e he => (hplain e.1 e.2.1 e.2.2 he).2

end Program

end GenericTuring
