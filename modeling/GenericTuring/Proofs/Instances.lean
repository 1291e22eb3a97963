import GenericTuring.Proofs.Termination
import Mathlib

/-!
A table holds the states of its program and no others. There is one exactly if no hand-over expands for
ever and every state stands for something; each state then has the row of its definition, and what no
state comes from is unreachable.
-/

namespace GenericTuring

namespace Program

variable {p : Program} {t : Table}

def Stands (p : Program) (key : Key) : Prop :=
  key = Key.finish ∨ ∃ d ∈ p.definitions, d.name = key.head ∧ d.arity = key.args.length

theorem WellFormed.meaning_of_mem (hwf : p.WellFormed) {key : Key} {d : Definition}
    (hd : d ∈ p.definitions) (hname : d.name = key.head) (harity : d.arity = key.args.length) :
    p.meaning key = .defined d := by
  refine meaning_eq_defined.2 ⟨?_, ?_, harity⟩
  · rw [← hname]
    exact hwf.name_ne_finish d hd
  · rw [← hname]
    exact hwf.definition?_of_mem hd

theorem WellFormed.isResolved_iff_stands (hwf : p.WellFormed) {key : Key} :
    (p.meaning key).isResolved = true ↔ p.Stands key := by
  rw [isResolved_iff]
  refine or_congr_right ?_
  constructor
  · intro h
    obtain ⟨d, hmeaning⟩ := h
    obtain ⟨hd, hname⟩ := mem_definitions_of_meaning hmeaning
    exact ⟨d, hd, hname, (meaning_eq_defined.1 hmeaning).2.2⟩
  · intro h
    obtain ⟨d, hd, hname, harity⟩ := h
    exact ⟨d, hwf.meaning_of_mem hd hname harity⟩

/-- The row of a key: none for the accepting state, else one entry for each rule of its definition, in
their order, with the target that the arguments of the key give. -/
structure IsRow (p : Program) (key : Key) (row : Row) : Prop where
  finish : key = Key.finish → row = []
  rules : ∀ d ∈ p.definitions, d.name = key.head →
    List.Forall₂ (fun r entry => entryOf? d key r = some entry) d.rules row
  reads_nodup : (row.map Prod.fst).Nodup

theorem isRow_of_expanded (hwf : p.WellFormed) (ht : p.Expanded t) {key : Key} {row : Row}
    (h : (key, row) ∈ t.rows) : p.IsRow key row := by
  have hkey : key ∈ t.keys := List.mem_map.2 ⟨_, h, rfl⟩
  have hrow : p.row key = .ok row := ht.row_eq (key, row) h
  cases isResolved_iff.1 (ht.resolved key hkey) with
  | inl hfinish =>
    have hnil : row = [] := by
      simpa [Program.row, meaning_eq_finish.2 hfinish, eq_comm] using hrow
    refine ⟨fun _ => hnil, fun d hd hname => ?_, by simp [hnil]⟩
    rw [hfinish] at hname
    exact absurd hname (hwf.name_ne_finish d hd)
  | inr hdefined =>
    obtain ⟨d, hmeaning⟩ := hdefined
    obtain ⟨hd, hname⟩ := mem_definitions_of_meaning hmeaning
    have hentries := (row_eq_ok_of_defined hmeaning).1 hrow
    have hreads : d.rules.map Rule.read = row.map Prod.fst := by
      refine map_eq_map_of_forall₂ hentries fun r entry hentry => ?_
      obtain ⟨target, _, rfl⟩ := Option.map_eq_some_iff.1 hentry
      rfl
    refine ⟨fun hfinish => ?_, fun other hother hsame => ?_, ?_⟩
    · have hother : p.meaning key = .finish := meaning_eq_finish.2 hfinish
      simp [hmeaning] at hother
    · have hone : other = d :=
        List.inj_on_of_nodup_map hwf.names_nodup hother hd (hsame.trans hname.symm)
      exact hone ▸ hentries
    · rw [← hreads]
      exact hwf.reads_nodup d hd

/-- Every transition of a table comes from a rule, whose place it keeps. -/
theorem exists_rule_of_expanded (hwf : p.WellFormed) (ht : p.Expanded t) {key : Key} {row : Row}
    (hrow : (key, row) ∈ t.rows) {symbol : Symbol} {tr : Transition} (h : (symbol, tr) ∈ row) :
    ∃ d ∈ p.definitions, d.name = key.head ∧ ∃ r ∈ d.rules, r.read = symbol ∧ r.loc = tr.loc := by
  have hkey : key ∈ t.keys := List.mem_map.2 ⟨_, hrow, rfl⟩
  have hisRow := isRow_of_expanded hwf ht hrow
  cases hwf.isResolved_iff_stands.1 (ht.resolved key hkey) with
  | inl hfinish => simp [hisRow.finish hfinish] at h
  | inr hdefined =>
    obtain ⟨d, hd, hname, _⟩ := hdefined
    obtain ⟨r, hr, hentry⟩ := exists_of_mem_right (hisRow.rules d hd hname) h
    obtain ⟨target, _, heq⟩ := Option.map_eq_some_iff.1 hentry
    obtain ⟨hread, rfl⟩ := Prod.mk.inj heq
    exact ⟨d, hd, hname, r, hr, hread, rfl⟩

theorem exists_rule_of_lookup (hwf : p.WellFormed) (ht : p.Expanded t) {key : Key} {symbol : Symbol}
    {tr : Transition} (h : t.lookup key symbol = some tr) :
    ∃ d ∈ p.definitions, d.name = key.head ∧ ∃ r ∈ d.rules, r.read = symbol ∧ r.loc = tr.loc := by
  rw [Table.lookup, Table.row] at h
  cases hrow : t.rows.lookup key with
  | none => simp [hrow] at h
  | some row =>
    rw [hrow] at h
    exact exists_rule_of_expanded hwf ht (mem_of_lookup_eq_some hrow) (mem_of_lookup_eq_some h)

/-- What else a table records: its first state is the start, and it lists the definitions that no state
comes from. -/
theorem head?_keys_and_unreachable (hwf : p.WellFormed) (h : p.expand = .ok t) :
    t.keys.head? = some t.start ∧
      t.unreachable = p.definitions.filter fun d => d.name ∉ t.keys.map Term.head := by
  obtain ⟨start, rows, _, hstop, hall, rfl⟩ := exists_rows_of_expand hwf h
  have hkeys : (p.states start).visits.map Search.Visit.node = rows.map Prod.fst :=
    map_eq_map_of_forall₂ hall fun v entry hentry => hentry.1.symm
  constructor
  · obtain ⟨more, hmore⟩ := Search.roots_prefix_of_exhausted hstop
    rw [Table.keys, ← hkeys]
    exact hmore ▸ rfl
  · have hheads : (rows.map Prod.fst).map Term.head = rows.map fun r => r.1.head := List.map_map
    simp only [Table.keys, hheads]

open scoped Classical in
/-- For every program that a text gives: there is a table exactly if no cycle of hand-overs expands and
each state that the program reaches stands for something. The table has one row for each of these
states, the start first, and each row is that of its state; what a state is made of and where it leads
has a row too. Unreachable are the definitions, in their order, that no state comes from. -/
theorem table_iff_states_stand {source file : String} {p : Program}
    (hp : Program.parse source file = .ok p) :
    ((∃ t, p.expand = .ok t) ↔
      p.expandingCycle? = none ∧ ∀ key, p.Reaches key → p.Stands key) ∧
    ∀ t, p.expand = .ok t →
      (∀ key, key ∈ t.keys ↔ p.Reaches key) ∧ t.keys.Nodup ∧
      p.start.instantiate? [] = some t.start ∧ t.keys.head? = some t.start ∧
      (∀ key row, (key, row) ∈ t.rows → p.IsRow key row) ∧
      (∀ key ∈ t.keys, ∀ arg ∈ key.args, arg ∈ t.keys) ∧
      (∀ key row, (key, row) ∈ t.rows → ∀ entry ∈ row, entry.2.target ∈ t.keys) ∧
      t.unreachable = p.definitions.filter fun d => ∀ key, p.Reaches key → key.head ≠ d.name := by
  have hwf : p.WellFormed := wellFormed_of_parse hp
  constructor
  · constructor
    · intro h
      obtain ⟨t, hexpand⟩ := h
      have ht := expanded_of_expand hwf hexpand
      refine ⟨expandingCycle?_of_expand hexpand, fun key hkey => ?_⟩
      exact hwf.isResolved_iff_stands.1 (ht.resolved key ((ht.mem_keys key).2 hkey))
    · intro h
      obtain ⟨hcycle, hstands⟩ := h
      obtain ⟨start, hstart⟩ := hwf.exists_startKey
      cases expand_cases hwf hcycle hstart with
      | inl hrefused =>
        obtain ⟨v, hstop, _⟩ := hrefused
        obtain ⟨hreached, hhalt⟩ := Search.reached_and_halt_of_stop hstop
        have hv := hstands v.node ((reaches_iff_reached hstart).2 hreached)
        simp [hwf.isResolved_iff_stands.2 hv] at hhalt
      | inr hdone =>
        obtain ⟨_, t, hexpand, _⟩ := hdone
        exact ⟨t, hexpand⟩
  · intro t hexpand
    have ht := expanded_of_expand hwf hexpand
    obtain ⟨hfirst, hunreachable⟩ := head?_keys_and_unreachable hwf hexpand
    refine ⟨ht.mem_keys, ht.nodup, startKey_eq_ok.1 ht.start_eq, hfirst,
      fun key row => isRow_of_expanded hwf ht, ?_, ?_, ?_⟩
    · intro key hkey arg harg
      exact (ht.mem_keys arg).2 (.argument ((ht.mem_keys key).1 hkey) (ht.resolved key hkey) harg)
    · intro key row hrow entry hentry
      have hkey : key ∈ t.keys := List.mem_map.2 ⟨_, hrow, rfl⟩
      have hsame : t.row key = row := by
        rw [Table.row, lookup_eq_some_of_mem ht.nodup hrow]
        rfl
      exact ht.target_mem hkey (hsame ▸ hentry)
    · rw [hunreachable]
      refine List.filter_congr fun d _ => ?_
      simp only [decide_eq_decide, List.mem_map, not_exists, not_and]
      exact forall_congr' fun key => imp_congr_left (ht.mem_keys key)

def detour : String :=
  -- A program whose states swap and unpack their arguments, with a definition that none comes from.
  "start = a<b, finish>\na<x, y> 0 = 1; x next\na<x, y> 1 = 0; a<y, x> prev\n" ++
    "b _ = _; finish next\nlost 0 = 0; a<lost, b> next\n"

set_option maxRecDepth 20000 in
theorem table_iff_states_stand_detour : ∃ p t, Program.parse detour "detour" = .ok p ∧
    p.expand = .ok t ∧ t.keys.length = 4 ∧ t.unreachable.map Definition.name = ["lost"] ∧
    (∀ key, key ∈ t.keys ↔ p.Reaches key) ∧ ∀ key, p.Reaches key → p.Stands key := by
  obtain ⟨p, hp, hany⟩ := exists_ok_of_any (x := Program.parse detour "detour")
    (t := fun p => p.expand.toOption.any fun t =>
      t.keys.length == 4 && t.unreachable.map Definition.name == ["lost"]) (by decide_cbv)
  obtain ⟨t, ht, hshape⟩ := exists_ok_of_any hany
  obtain ⟨hlength, hlost⟩ := Bool.and_eq_true_iff.1 hshape
  obtain ⟨hiff, hall⟩ := table_iff_states_stand hp
  exact ⟨p, t, hp, ht, by simpa using hlength, by simpa using hlost, (hall t ht).1,
    (hiff.1 ⟨t, ht⟩).2⟩

end Program

end GenericTuring
