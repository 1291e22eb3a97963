import GenericTuring.Proofs.Naming
import Mathlib

/-!
Different states have different names. Escaping amounts to three replacements in the text of a key, and
leaves no bracket in it; either naming of a table names its states and the accepting state, no two of
them alike, and calls only the accepting state by its own name.
-/

namespace GenericTuring

namespace Key

def replace (old : Char) (new : List Char) (text : List Char) : List Char :=
  text.flatMap fun c => if c = old then new else [c]

/-- The three replacements one after the other. No replacement touches what an earlier one put in. -/
theorem flatMap_escapeChar_eq (text : List Char) :
    text.flatMap escapeChar =
      replace '>' ['_', 'R'] (replace '<' ['_', 'L'] (replace '_' ['_', '_'] text)) := by
  induction text with
  | nil => rfl
  | cons c rest ih =>
    by_cases hunderscore : c = '_'
    · subst hunderscore
      simpa [replace, escapeChar] using ih
    · by_cases hopen : c = '<'
      · subst hopen
        simpa [replace, escapeChar] using ih
      · by_cases hclose : c = '>'
        · subst hclose
          simpa [replace, escapeChar] using ih
        · simpa [replace, escapeChar, hunderscore, hopen, hclose] using ih

theorem notMem_escapeChar {b : Char} (hb : b = '<' ∨ b = '>') (c : Char) : b ∉ escapeChar c := by
  unfold escapeChar
  grind

/-- An escaped key has no brackets, whatever names are in it. -/
theorem notMem_escaped {b : Char} (hb : b = '<' ∨ b = '>') (key : Key) : b ∉ key.escaped.toList := by
  intro hmem
  rw [escaped, String.toList_ofList] at hmem
  obtain ⟨c, _, hc⟩ := List.mem_flatMap.1 hmem
  exact notMem_escapeChar hb c hc

end Key

namespace Listing

variable {t : Table} {naming : Naming}

theorem map_fst_names (naming : Naming) (t : Table) : (names naming t).map Prod.fst = namedKeys t := by
  cases naming with
  | escape => simp [names, Function.comp_def]
  | ordinal =>
    rw [names, List.map_map]
    exact List.zipIdx_map_fst 0 (namedKeys t)

theorem mem_namedKeys {key : Key} : key ∈ namedKeys t ↔ key ∈ t.keys ∨ key = Key.finish := by
  by_cases hfinish : Key.finish ∈ t.keys
  · simp only [namedKeys, hfinish, if_true]
    exact ⟨.inl, fun h => h.elim id fun heq => heq ▸ hfinish⟩
  · simp [namedKeys, hfinish]

theorem nodup_namedKeys (h : t.keys.Nodup) : (namedKeys t).Nodup := by
  by_cases hfinish : Key.finish ∈ t.keys
  · simpa [namedKeys, hfinish] using h
  · simp only [namedKeys, hfinish, if_false]
    refine List.nodup_append.2 ⟨h, by simp, ?_⟩
    intro a ha b hb heq
    exact hfinish (List.mem_singleton.1 hb ▸ heq ▸ ha)

/-- A state on the list of names is looked up under the name it has there. -/
theorem lookup_names (ht : t.Regular) {key : Key} {name : String} (h : (key, name) ∈ names naming t) :
    (names naming t).lookup key = some name := by
  refine lookup_eq_some_of_mem ?_ h
  rw [map_fst_names]
  exact nodup_namedKeys ht.keys_nodup

theorem names_nodup (ht : t.Regular) (naming : Naming) : ((names naming t).map Prod.snd).Nodup := by
  have hkeys : ((names naming t).map Prod.fst).Nodup := by
    rw [map_fst_names]
    exact nodup_namedKeys ht.keys_nodup
  refine List.Nodup.map_on ?_ (List.Nodup.of_map Prod.fst hkeys)
  intro e he other hother hname
  have hkey : e.1 = other.1 := (faithful_names ht naming).inj e.1 other.1 e.2 (lookup_names ht he)
    (hname ▸ lookup_names ht hother)
  exact Prod.ext hkey hname

theorem finish_mem_names (naming : Naming) (t : Table) :
    (Key.finish, finishName) ∈ names naming t := by
  have hmem := finish_mem_namedKeys t
  cases naming with
  | escape => exact List.mem_map.2 ⟨Key.finish, hmem, rfl⟩
  | ordinal =>
    obtain ⟨i, hi⟩ := List.mem_iff_getElem?.1 hmem
    have hindexed : (Key.finish, i) ∈ (namedKeys t).zipIdx :=
      List.mem_zipIdx_iff_getElem?.2 (by simpa using hi)
    exact List.mem_map.2 ⟨(Key.finish, i), hindexed, by simp⟩

/-- Keys whose names have no brackets in them are told apart by their texts and by their escaped texts,
and the escaped text of a key has no brackets. For every table of a program that a text gives, either
naming names the states of the table and the accepting state, once each, gives no two of them the same
name, and calls the accepting state and no other by the name that it has in programs. -/
theorem names_tell_states_apart :
    (∀ key other : Key, key.Bracketless → other.Bracketless →
      (key.escaped = other.escaped → key = other) ∧ (key.text = other.text → key = other)) ∧
    (∀ key : Key, key.escaped.toList = Key.replace '>' ['_', 'R'] (Key.replace '<' ['_', 'L']
        (Key.replace '_' ['_', '_'] key.text.toList)) ∧
      '<' ∉ key.escaped.toList ∧ '>' ∉ key.escaped.toList) ∧
    ∀ source file p t, Program.parse source file = .ok p → p.expand = .ok t → ∀ naming,
      (∀ key, key ∈ (names naming t).map Prod.fst ↔ key ∈ t.keys ∨ key = Key.finish) ∧
      ((names naming t).map Prod.fst).Nodup ∧ ((names naming t).map Prod.snd).Nodup ∧
      ∀ key name, (key, name) ∈ names naming t → (name = "finish" ↔ key = Key.finish) := by
  refine ⟨fun key other hkey hother => ⟨Key.escaped_inj hkey hother, Key.text_inj hkey hother⟩,
    fun key => ⟨?_, Key.notMem_escaped (.inl rfl) key, Key.notMem_escaped (.inr rfl) key⟩, ?_⟩
  · rw [Key.escaped, String.toList_ofList, Key.flatMap_escapeChar_eq]
  · intro source file p t hparse hexpand naming
    have ht := Program.regular_of_parse hparse hexpand
    rw [map_fst_names]
    refine ⟨fun key => mem_namedKeys, nodup_namedKeys ht.keys_nodup, names_nodup ht naming, ?_⟩
    intro key name hmem
    have hkey := lookup_names ht hmem
    have hfinish := lookup_names ht (finish_mem_names naming t)
    constructor
    · intro hname
      exact (faithful_names ht naming).inj key Key.finish name hkey (hname ▸ hfinish)
    · intro heq
      rw [heq, hfinish] at hkey
      exact (Option.some.inj hkey).symm

def disguise : String :=
  -- A state whose name is how another state is escaped.
  "start = a<b>\na<x> 0 = 0; a_Lb_R next\nb 0 = 0; finish next\na_Lb_R 0 = 0; a<a_Lb_R> prev\n"

set_option maxRecDepth 20000 in
theorem names_tell_states_apart_disguise :
    Key.escaped (.atom "a_Lb_R") ≠ Key.escaped (.app (.atom "a") (.atom "b")) ∧
    ∃ p t, Program.parse disguise "disguise" = .ok p ∧ p.expand = .ok t ∧
      (.app (.atom "a") (.atom "b"), "a_Lb_R") ∈ names .escape t ∧
      ((names .escape t).map Prod.snd).Nodup ∧ ((names .ordinal t).map Prod.snd).Nodup := by
  obtain ⟨hkeys, _, htables⟩ := names_tell_states_apart
  have hplain : Key.Bracketless (.atom "a_Lb_R") ∧
      Key.Bracketless (.app (.atom "a") (.atom "b")) := by
    unfold Key.Bracketless
    decide
  constructor
  · intro heq
    exact absurd ((hkeys _ _ hplain.1 hplain.2).1 heq) (by decide)
  · obtain ⟨p, hp, hany⟩ := exists_ok_of_any (x := Program.parse disguise "disguise")
      (t := fun p => p.expand.toOption.any fun t =>
        decide ((.app (.atom "a") (.atom "b"), "a_Lb_R") ∈ names .escape t)) (by decide_cbv)
    obtain ⟨t, ht, hnamed⟩ := exists_ok_of_any hany
    exact ⟨p, t, hp, ht, by simpa using hnamed, (htables _ _ p t hp ht .escape).2.2.1,
      (htables _ _ p t hp ht .ordinal).2.2.1⟩

end Listing

end GenericTuring
