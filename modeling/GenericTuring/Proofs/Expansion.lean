import GenericTuring.Proofs.Ranking

/-!
What expansion gives for a well-formed program. The bounds on its search cut nothing off, so the search
is the run of a plain work list over the states of the program; if it visits them all, each gets the row
of its rules.
-/

namespace GenericTuring

namespace Program

variable {p : Program}

abbrev Finds (p : Program) (start : Key) (found : Search.Found Key (Option Loc)) : Prop :=
  Search.Runs p.successors (fun key => !(p.meaning key).isResolved) [] [Search.Visit.root start] found

theorem admits_of_reached (hwf : p.WellFormed) (hcycle : p.expandingCycle? = none) {start key : Key}
    (hstart : p.startKey = .ok start) (h : Search.Reached p.successors [start] key) :
    p.bounds.admits key = true :=
  admits_of_reaches hwf hcycle ((reaches_iff_reached hstart).2 h)

theorem finds_states (hwf : p.WellFormed) (hcycle : p.expandingCycle? = none) {start : Key}
    (hstart : p.startKey = .ok start) : p.Finds start (p.states start) :=
  Search.runs_search fun _ => admits_of_reached hwf hcycle hstart

def entryOf? (d : Definition) (key : Key) (r : Rule) : Option (Symbol × Transition) :=
  (r.target.instantiate? (bindings d key)).map fun target =>
    (r.read, ⟨r.write, target, r.move, r.loc⟩)

theorem row_eq_ok_of_defined {key : Key} {d : Definition} {entries : Row}
    (hmeaning : p.meaning key = .defined d) :
    p.row key = .ok entries ↔
      List.Forall₂ (fun r entry => entryOf? d key r = some entry) d.rules entries := by
  simp only [row, hmeaning, mapM_eq_ok]
  constructor
  · intro h
    refine h.imp fun r entry hentry => ?_
    cases htarget : r.target.instantiate? (bindings d key) with
    | none => simp [htarget] at hentry
    | some target => simpa [entryOf?, htarget] using hentry
  · intro h
    refine h.imp fun r entry hentry => ?_
    cases htarget : r.target.instantiate? (bindings d key) with
    | none => simp [entryOf?, htarget] at hentry
    | some target => simpa [entryOf?, htarget] using hentry

theorem WellFormed.exists_row (hwf : p.WellFormed) (key : Key) : ∃ row, p.row key = .ok row := by
  cases hmeaning : p.meaning key with
  | defined d =>
    have hrules : ∀ r ∈ d.rules, ∃ entry, entryOf? d key r = some entry := by
      intro r hr
      obtain ⟨target, htarget⟩ := hwf.exists_target hmeaning hr
      exact ⟨_, by simp only [entryOf?, htarget, Option.map_some]; rfl⟩
    obtain ⟨row, hrow⟩ := exists_forall₂ hrules
    exact ⟨row, (row_eq_ok_of_defined hmeaning).2 hrow⟩
  | finish => exact ⟨[], by simp [row, hmeaning]⟩
  | undefined => exact ⟨[], by simp [row, hmeaning]⟩
  | mismatch expected => exact ⟨[], by simp [row, hmeaning]⟩

theorem outgrown?_eq_none (hwf : p.WellFormed) (hcycle : p.expandingCycle? = none) {start : Key}
    (hstart : p.startKey = .ok start) : p.outgrown? (p.states start) = none := by
  simp only [outgrown?, List.findSome?_eq_none_iff, Option.map_eq_none_iff, List.find?_eq_none]
  intro v hv s hs
  have hreached : Search.Reached p.successors [start] v.node := Search.reached_of_mem_visits hv
  simpa using admits_of_reached hwf hcycle hstart (hreached.step ⟨s.1, hs⟩)

theorem expand_of_cycle {owner : Definition} {edges : List Flow.Edge}
    (hcycle : p.expandingCycle? = some (owner, edges)) : p.expand = .error (.cycle owner edges) := by
  simp [expand, hcycle]

/-- A state without meaning ends the expansion. -/
theorem expand_of_stop (hcycle : p.expandingCycle? = none) {start : Key}
    (hstart : p.startKey = .ok start) {v : Search.Visit Key (Option Loc)}
    (hstop : (p.states start).stop = some v) : p.expand = .error (p.refusal v) := by
  simp [expand, hcycle, hstart, hstop, bind, Except.bind]

/-- Where every state has a meaning, each of them gets its row. -/
theorem expand_of_exhausted (hwf : p.WellFormed) (hcycle : p.expandingCycle? = none) {start : Key}
    (hstart : p.startKey = .ok start) (hstop : (p.states start).stop = none) :
    ∃ rows, List.Forall₂ (fun v entry => entry.1 = v.node ∧ p.row v.node = .ok entry.2)
        (p.states start).visits rows ∧
      p.expand = .ok ⟨start, rows,
        p.definitions.filter fun d => d.name ∉ rows.map fun r => r.1.head, some p⟩ := by
  have hrows : ∀ v ∈ (p.states start).visits, ∃ entry : Key × Row,
      entry.1 = v.node ∧ p.row v.node = .ok entry.2 := by
    intro v _
    obtain ⟨row, hrow⟩ := hwf.exists_row v.node
    exact ⟨(v.node, row), rfl, hrow⟩
  obtain ⟨rows, hall⟩ := exists_forall₂ hrows
  refine ⟨rows, hall, ?_⟩
  have hmapM : ((p.states start).visits.mapM fun v => do
      return (v.node, ← p.row v.node) : Except ExpansionError (List (Key × Row))) = .ok rows := by
    refine mapM_eq_ok.2 (hall.imp fun v entry hentry => bind_eq_ok.2 ⟨entry.2, hentry.2, ?_⟩)
    rw [← hentry.1]
    rfl
  simp only [expand, hcycle]
  refine bind_eq_ok.2 ⟨start, hstart, ?_⟩
  simp only [hstop, outgrown?_eq_none hwf hcycle hstart]
  exact bind_eq_ok.2 ⟨rows, hmapM, rfl⟩

structure Expanded (p : Program) (t : Table) : Prop where
  start_eq : p.startKey = .ok t.start
  mem_keys : ∀ key, key ∈ t.keys ↔ p.Reaches key
  row_eq : ∀ entry ∈ t.rows, p.row entry.1 = .ok entry.2
  resolved : ∀ key ∈ t.keys, (p.meaning key).isResolved = true
  nodup : t.keys.Nodup

theorem refusal_cases (p : Program) (v : Search.Visit Key (Option Loc)) :
    (∃ name loc chain, p.refusal v = .undefined name loc chain) ∨
      ∃ name expected got loc chain, p.refusal v = .mismatch name expected got loc chain := by
  cases h : p.meaning v.node with
  | mismatch expected =>
    exact .inr ⟨v.node.head, expected, v.node.args.length, p.site v, v.chain,
      by simp only [refusal, h]⟩
  | finish => exact .inl ⟨v.node.head, p.site v, v.chain, by simp only [refusal, h]⟩
  | defined d => exact .inl ⟨v.node.head, p.site v, v.chain, by simp only [refusal, h]⟩
  | undefined => exact .inl ⟨v.node.head, p.site v, v.chain, by simp only [refusal, h]⟩

theorem expandingCycle?_of_expand {t : Table} (h : p.expand = .ok t) : p.expandingCycle? = none := by
  cases hcycle : p.expandingCycle? with
  | none => rfl
  | some cycle => simp [expand_of_cycle hcycle] at h

/-- The rows of a table are those of the states that were found, and the table knows its program. -/
theorem exists_rows_of_expand (hwf : p.WellFormed) {t : Table} (h : p.expand = .ok t) :
    ∃ start rows, p.startKey = .ok start ∧ (p.states start).stop = none ∧
      List.Forall₂ (fun v entry => entry.1 = v.node ∧ p.row v.node = .ok entry.2)
        (p.states start).visits rows ∧
      t = ⟨start, rows, p.definitions.filter fun d => d.name ∉ rows.map fun r => r.1.head, some p⟩ := by
  have hcycle := expandingCycle?_of_expand h
  obtain ⟨start, hstart⟩ := hwf.exists_startKey
  cases hstop : (p.states start).stop with
  | some v => simp [expand_of_stop hcycle hstart hstop] at h
  | none =>
    obtain ⟨rows, hall, hexpand⟩ := expand_of_exhausted hwf hcycle hstart hstop
    exact ⟨start, rows, hstart, hstop, hall, Except.ok.inj (h.symm.trans hexpand)⟩

theorem program_of_expand (hwf : p.WellFormed) {t : Table} (h : p.expand = .ok t) :
    t.program = some p := by
  obtain ⟨_, _, _, _, _, rfl⟩ := exists_rows_of_expand hwf h
  rfl

theorem expanded_of_expand (hwf : p.WellFormed) {t : Table} (h : p.expand = .ok t) :
    p.Expanded t := by
  have hcycle := expandingCycle?_of_expand h
  obtain ⟨start, rows, hstart, hstop, hall, rfl⟩ := exists_rows_of_expand hwf h
  have hkeys : (p.states start).visits.map Search.Visit.node = rows.map Prod.fst :=
    map_eq_map_of_forall₂ hall fun v entry hentry => hentry.1.symm
  have hinside : ∀ node, Search.Reached p.successors [start] node →
      p.bounds.admits node = true ∨ node ∈ [start] :=
    fun node hnode => .inl (admits_of_reached hwf hcycle hstart hnode)
  refine ⟨hstart, ?_, ?_, ?_, ?_⟩
  · intro key
    rw [Table.keys, ← hkeys, reaches_iff_reached hstart]
    constructor
    · intro hkey
      obtain ⟨v, hv, rfl⟩ := List.mem_map.1 hkey
      exact Search.reached_of_mem_visits hv
    · exact Search.mem_visits_of_reached hstop hinside
  · intro entry hentry
    obtain ⟨v, _, hnode, hrow⟩ := exists_of_mem_right hall hentry
    rw [hnode]
    exact hrow
  · intro key hkey
    rw [Table.keys, ← hkeys] at hkey
    obtain ⟨v, hv, rfl⟩ := List.mem_map.1 hkey
    simpa using Search.halt_eq_false_of_mem_visits hv
  · rw [Table.keys, ← hkeys]
    exact Search.nodup_visits

theorem Expanded.row_eq_ok (h : p.Expanded t) {key : Key} (hkey : key ∈ t.keys) :
    p.row key = .ok (t.row key) := by
  obtain ⟨row, hrow⟩ : ∃ row, t.rows.lookup key = some row := by
    refine Option.isSome_iff_exists.1 (List.lookup_isSome_iff.2 ?_)
    obtain ⟨entry, hentry, rfl⟩ := List.mem_map.1 hkey
    exact ⟨entry, hentry, by simp⟩
  rw [Table.row, hrow]
  exact h.row_eq _ (mem_of_lookup_eq_some hrow)

theorem Expanded.target_mem (h : p.Expanded t) {key : Key} (hkey : key ∈ t.keys)
    {symbol : Symbol} {tr : Transition} (htr : (symbol, tr) ∈ t.row key) : tr.target ∈ t.keys := by
  have hrow := h.row_eq_ok hkey
  cases isResolved_iff.1 (h.resolved key hkey) with
  | inl hfinish =>
    have hmeaning : p.meaning key = .finish := meaning_eq_finish.2 hfinish
    have hnil : [] = t.row key := by simpa [Program.row, hmeaning] using hrow
    simp [← hnil] at htr
  | inr hdefined =>
    obtain ⟨d, hmeaning⟩ := hdefined
    obtain ⟨r, hr, hentry⟩ := exists_of_mem_right ((row_eq_ok_of_defined hmeaning).1 hrow) htr
    obtain ⟨target, htarget, heq⟩ := Option.map_eq_some_iff.1 hentry
    obtain ⟨rfl, rfl⟩ := Prod.mk.inj heq
    exact (h.mem_keys target).2 (.target ((h.mem_keys key).1 hkey) hmeaning hr htarget)

end Program

end GenericTuring
