import GenericTuring.Proofs.Growth
import GenericTuring.Proofs.Instances
import Mathlib

/-!
The names of a program and the states of its table. The names are found by a search that follows every
reference, wherever it stands in a rule; the states by one that follows rules with their parameters bound
and takes arguments one at a time. If there is a table, the two searches come to the same definitions.
-/

namespace GenericTuring

namespace Program

variable {p : Program} {t : Table}

/-- No definition is found twice, as no name is visited twice. -/
theorem nodup_mentioned (p : Program) : p.mentioned.Nodup := by
  rw [mentioned, ← Function.comp_def p.definition?, ← List.filterMap_map]
  refine Search.nodup_visits.filterMap fun name other d hname hother => ?_
  exact (mem_of_definition? hname).2.symm.trans (mem_of_definition? hother).2

theorem Expanded.meaningful (ht : p.Expanded t) : p.Meaningful :=
  fun key hkey => ht.resolved key ((ht.mem_keys key).2 hkey)

/-- The names mentioned are the heads of the states. -/
theorem Expanded.mentioned_iff (hwf : p.WellFormed) (ht : p.Expanded t) {name : String} :
    p.Mentioned name ↔ ∃ key ∈ t.keys, key.head = name := by
  constructor
  · intro h
    obtain ⟨key, hkey, hname⟩ := exists_state_of_mentioned hwf ht.meaningful h
    exact ⟨key, (ht.mem_keys key).2 hkey, hname⟩
  · intro h
    obtain ⟨key, hkey, rfl⟩ := h
    exact mentioned_of_reaches hwf ((ht.mem_keys key).1 hkey) key.head_mem_atoms

/-- A state with the name of a definition is an instance of it. -/
theorem Expanded.meaning_eq (hwf : p.WellFormed) (ht : p.Expanded t) {d : Definition}
    (hd : d ∈ p.definitions) {key : Key} (hkey : key ∈ t.keys) (hname : key.head = d.name) :
    p.meaning key = .defined d :=
  meaning_of_definition? hwf ht.meaningful ((ht.mem_keys key).1 hkey)
    (hname ▸ hwf.definition?_of_mem hd)

/-- For every program that a text gives and that has a table: the definitions found by following names
are those that occur in the start reference or in a rule of one of them, and each is found once. They are
the definitions that have an instance among the states, so the others are those listed as unreachable. -/
theorem mentioned_iff_instantiated {source file : String} (hp : parse source file = .ok p)
    (hexpand : p.expand = .ok t) :
    p.mentioned.Nodup ∧
      (∀ d, d ∈ p.mentioned ↔ d ∈ p.definitions ∧ p.Mentioned d.name) ∧
      (∀ d, d ∈ p.mentioned ↔ ∃ key ∈ t.keys, p.meaning key = .defined d) ∧
      (∀ d, d ∈ p.mentioned ↔ d ∈ p.definitions ∧ t.instancesOf d.name ≠ []) ∧
      (∀ d, d ∈ p.mentioned ↔ d ∈ p.definitions ∧ d ∉ t.unreachable) ∧
      t.unreachable = p.definitions.filter fun d => d ∉ p.mentioned := by
  have hwf : p.WellFormed := wellFormed_of_parse hp
  have ht : p.Expanded t := expanded_of_expand hwf hexpand
  have hlisted := (head?_keys_and_unreachable hwf hexpand).2
  have hkeys : ∀ d, d ∈ p.mentioned ↔ d ∈ p.definitions ∧ ∃ key ∈ t.keys, key.head = d.name := by
    intro d
    rw [hwf.mem_mentioned_iff, ht.mentioned_iff hwf]
  refine ⟨p.nodup_mentioned, fun _ => hwf.mem_mentioned_iff, fun d => ?_, fun d => ?_, fun d => ?_, ?_⟩
  · rw [hkeys]
    constructor
    · intro h
      obtain ⟨hd, key, hkey, hname⟩ := h
      exact ⟨key, hkey, ht.meaning_eq hwf hd hkey hname⟩
    · intro h
      obtain ⟨key, hkey, hmeaning⟩ := h
      obtain ⟨hd, hname⟩ := mem_definitions_of_meaning hmeaning
      exact ⟨hd, key, hkey, hname.symm⟩
  · rw [hkeys]
    simp [Table.instancesOf]
  · rw [hkeys, hlisted]
    refine and_congr_right fun hd => ?_
    simp [hd]
  · rw [hlisted]
    refine List.filter_congr fun d hd => ?_
    simp [hkeys, hd]

def backwater : String :=
  -- The definition `b` is reached only as an argument that is never taken, `c` only inside it, `d` only
  -- from a rule of `b`, and `g` only through a parameter. The last two refer to each other and to what
  -- is reached, and are not reached.
  "start = a<b<c>, g>\na<x, y> 0 = 0; y next\nb<z> 1 = 1; d<z> next\nc 0 = 0; finish next\n" ++
    "d<w> 0 = 0; finish next\ng 0 = 0; finish next\ne 0 = 0; f<c> next\nf<w> 0 = 0; a<e, w> next\n"

set_option maxRecDepth 20000 in
theorem mentioned_iff_instantiated_backwater : ∃ p t, parse backwater "backwater" = .ok p ∧
    p.expand = .ok t ∧ p.mentioned.map Definition.name = ["a", "b", "c", "g", "d"] ∧
    t.unreachable.map Definition.name = ["e", "f"] ∧
    ∀ d, d ∈ p.mentioned ↔ ∃ key ∈ t.keys, p.meaning key = .defined d := by
  obtain ⟨p, hp, hany⟩ := exists_ok_of_any (x := parse backwater "backwater")
    (t := fun p => p.expand.toOption.any fun t =>
      p.mentioned.map Definition.name == ["a", "b", "c", "g", "d"] &&
        t.unreachable.map Definition.name == ["e", "f"]) (by decide_cbv)
  obtain ⟨t, ht, hshape⟩ := exists_ok_of_any hany
  obtain ⟨hnames, hlost⟩ := Bool.and_eq_true_iff.1 hshape
  exact ⟨p, t, hp, ht, by simpa using hnames, by simpa using hlost,
    (mentioned_iff_instantiated hp ht).2.2.1⟩

end Program

end GenericTuring
