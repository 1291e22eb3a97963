import GenericTuring.Proofs.Expansion
import Mathlib

/-!
Expansion ends. A program without an expanding cycle has finitely many states, and a work list with no
bound on what it may meet comes to an end on them.
-/

namespace GenericTuring

namespace Program

variable {p : Program}

theorem finite_reaches (hwf : p.WellFormed) (hcycle : p.expandingCycle? = none) :
    {key | p.Reaches key}.Finite := by
  obtain ⟨nodes, hnodes⟩ := p.bounds.admits_finite
  refine (List.finite_toSet nodes).subset fun key hkey => ?_
  exact hnodes key (admits_of_reaches hwf hcycle hkey)

theorem expand_cases (hwf : p.WellFormed) (hcycle : p.expandingCycle? = none) {start : Key}
    (hstart : p.startKey = .ok start) :
    (∃ v, (p.states start).stop = some v ∧ p.expand = .error (p.refusal v)) ∨
      ((p.states start).stop = none ∧ ∃ t, p.expand = .ok t ∧
        t.keys = (p.states start).visits.map Search.Visit.node) := by
  cases hstop : (p.states start).stop with
  | some v => exact .inl ⟨v, rfl, expand_of_stop hcycle hstart hstop⟩
  | none =>
    obtain ⟨rows, hall, hexpand⟩ := expand_of_exhausted hwf hcycle hstart hstop
    have hkeys : (p.states start).visits.map Search.Visit.node = rows.map Prod.fst :=
      map_eq_map_of_forall₂ hall fun v entry hentry => hentry.1.symm
    exact .inr ⟨rfl, _, hexpand, hkeys.symm⟩

/-- For every program that a text gives: if no cycle of hand-overs expands, then the states that the work
list can meet are finitely many, and the work list ends, with a table of the states it visited or with
the refusal of the state it stopped at. So expansion gives a table or says what is wrong: a cycle, an
undefined state or a wrong number of arguments. -/
theorem expansion_terminates {source file : String} {p : Program}
    (hp : Program.parse source file = .ok p) :
    (p.expandingCycle? = none → {key | p.Reaches key}.Finite ∧
      ∃ start found, p.startKey = .ok start ∧ p.Finds start found ∧
        (∀ v ∈ found.visits, p.Reaches v.node) ∧
        ((∃ v, found.stop = some v ∧ p.Reaches v.node ∧ p.expand = .error (p.refusal v)) ∨
          (found.stop = none ∧ ∃ t, p.expand = .ok t ∧
            t.keys = found.visits.map Search.Visit.node))) ∧
    ((∃ t, p.expand = .ok t) ∨
      (∃ owner edges, p.expandingCycle? = some (owner, edges) ∧
        p.expand = .error (.cycle owner edges)) ∨
      (∃ name loc chain, p.expand = .error (.undefined name loc chain)) ∨
      ∃ name expected got loc chain, p.expand = .error (.mismatch name expected got loc chain)) := by
  have hwf : p.WellFormed := wellFormed_of_parse hp
  obtain ⟨start, hstart⟩ := hwf.exists_startKey
  have hreaches : ∀ key, Search.Reached p.successors [start] key → p.Reaches key :=
    fun key => (reaches_iff_reached hstart).2
  constructor
  · intro hcycle
    refine ⟨finite_reaches hwf hcycle, start, p.states start, hstart,
      finds_states hwf hcycle hstart, ?_, ?_⟩
    · intro v hv
      exact hreaches v.node (Search.reached_of_mem_visits hv)
    · cases expand_cases hwf hcycle hstart with
      | inl hrefused =>
        obtain ⟨v, hstop, hexpand⟩ := hrefused
        have hv := (Search.reached_and_halt_of_stop hstop).1
        exact .inl ⟨v, hstop, hreaches v.node hv, hexpand⟩
      | inr hdone => exact .inr hdone
  · cases hcycle : p.expandingCycle? with
    | some cycle =>
      obtain ⟨owner, edges⟩ := cycle
      exact .inr (.inl ⟨owner, edges, rfl, expand_of_cycle hcycle⟩)
    | none =>
      cases expand_cases hwf hcycle hstart with
      | inl hrefused =>
        obtain ⟨v, _, hexpand⟩ := hrefused
        rw [hexpand]
        cases p.refusal_cases v with
        | inl hundefined =>
          obtain ⟨name, loc, chain, hv⟩ := hundefined
          exact .inr (.inr (.inl ⟨name, loc, chain, by rw [hv]⟩))
        | inr hmismatch =>
          obtain ⟨name, expected, got, loc, chain, hv⟩ := hmismatch
          exact .inr (.inr (.inr ⟨name, expected, got, loc, chain, by rw [hv]⟩))
      | inr hdone =>
        obtain ⟨_, t, hexpand, _⟩ := hdone
        exact .inl ⟨t, hexpand⟩

def relay : String :=
  "start = w<finish>\nw<k> 0 = 1; w<k> next\nw<k> 1 = _; s<s<k>> prev\ns<k> _ = 0; k next\n"

set_option maxRecDepth 20000 in
theorem exists_relay : ∃ p t, Program.parse relay "relay" = .ok p ∧ p.expand = .ok t := by
  obtain ⟨p, hp, ht⟩ := exists_ok_of_any (x := Program.parse relay "relay")
    (t := fun p => p.expand.toOption.any fun _ => true) (by decide_cbv)
  obtain ⟨t, ht, _⟩ := exists_ok_of_any ht
  exact ⟨p, t, hp, ht⟩

theorem expansion_terminates_relay : ∃ p, Program.parse relay "relay" = .ok p ∧
    p.expandingCycle? = none ∧ {key | p.Reaches key}.Finite := by
  obtain ⟨p, t, hp, ht⟩ := exists_relay
  have hcycle : p.expandingCycle? = none := expandingCycle?_of_expand ht
  exact ⟨p, hp, hcycle, ((expansion_terminates hp).1 hcycle).1⟩

end Program

end GenericTuring
