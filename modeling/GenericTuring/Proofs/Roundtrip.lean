import GenericTuring.Proofs.Listings
import Mathlib

/-!
Writing a table and reading it back. Only a comma or white space among the symbols keeps a table of a
program from being written; what is read back are its names and transitions, whatever the title.
-/

namespace GenericTuring

def Symbol.Unwritable (s : Symbol) : Prop :=
  ∃ c, s = .mark (String.singleton c) ∧ (c = ',' ∨ Text.isBlank c = true)

namespace Listing

variable {t : Table} {names : List (Key × String)} {keys : List Key}

theorem unwritable_iff {s : Symbol} (hplain : s.Plain) : s.Unwritable ↔ ¬ Writable s := by
  constructor
  · intro h hwritable
    obtain ⟨c, rfl, hc⟩ := h
    obtain ⟨hcomma, hblank⟩ := hwritable _ rfl
    cases hc with
    | inl heq => exact hcomma (by rw [heq]; rfl)
    | inr hspace => simp [Text.isBlankText, hspace] at hblank
  · intro h
    cases s with
    | blank => exact absurd (by simp [Writable]) h
    | mark text =>
      obtain ⟨c, rfl, _⟩ := hplain text rfl
      refine ⟨c, rfl, ?_⟩
      by_contra hnot
      obtain ⟨hcomma, hblank⟩ := not_or.1 hnot
      refine h fun text htext => ?_
      obtain rfl : String.singleton c = text := by simpa using htext
      refine ⟨fun heq => hcomma ?_, by simpa [Text.isBlankText] using hblank⟩
      have hlist := congrArg String.toList heq
      simpa using hlist

theorem Faithful.nameOf_eq (h : Faithful names keys) {key : Key} (hkey : key ∈ keys) :
    nameOf names key = .ok (nameIn names key) := by
  rw [nameOf, h.lookup_eq hkey]

theorem writeSymbol_of_writable {s : Symbol} (h : Writable s) (key : Key) :
    writeSymbol key s = .ok (s.cell "_") := by
  cases s with
  | blank => rfl
  | mark text =>
    obtain ⟨hcomma, hblank⟩ := h text rfl
    simp [writeSymbol, hcomma, hblank, Symbol.cell]

theorem writeSymbol_of_not_writable {s : Symbol} (h : ¬ Writable s) (key : Key) :
    ∃ mark, writeSymbol key s = .error (.unsupported mark key) := by
  cases hs : writeSymbol key s with
  | ok text => exact absurd (writeSymbol_eq_ok hs).1 h
  | error e =>
    cases s with
    | blank => simp [writeSymbol] at hs
    | mark mark =>
      refine ⟨mark, ?_⟩
      by_cases hbad : (mark = "," || Text.isBlankText mark) = true
      · simpa [writeSymbol, hbad, eq_comm] using hs
      · simp [writeSymbol, hbad] at hs

section Names

variable (ht : t.Regular) (hf : Faithful names (namedKeys t))

include ht hf

/-- All that can go wrong with a transition is one of its symbols. -/
theorem exists_unsupported_of_writeTransition {e : Key × Symbol × Transition}
    (he : e ∈ t.transitions) {error : WriteError}
    (h : writeTransition names e = .error error) :
    (¬ Writable e.2.1 ∨ ¬ Writable e.2.2.write) ∧ ∃ mark, error = .unsupported mark e.1 := by
  have hsource := hf.nameOf_eq (mem_namedKeys_of_mem (Table.key_mem_of_mem_transitions he))
  have htarget := hf.nameOf_eq (mem_namedKeys_of_mem (ht.target_mem e he))
  by_cases hread : Writable e.2.1
  · by_cases hwrite : Writable e.2.2.write
    · simp [writeTransition, hsource, htarget, writeSymbol_of_writable hread,
        writeSymbol_of_writable hwrite, bind, Except.bind, pure, Except.pure] at h
    · obtain ⟨mark, hmark⟩ := writeSymbol_of_not_writable hwrite e.1
      refine ⟨.inr hwrite, mark, ?_⟩
      simpa [writeTransition, hsource, htarget, writeSymbol_of_writable hread, hmark, bind,
        Except.bind, eq_comm] using h
  · obtain ⟨mark, hmark⟩ := writeSymbol_of_not_writable hread e.1
    refine ⟨.inl hread, mark, ?_⟩
    simpa [writeTransition, hsource, hmark, bind, Except.bind, eq_comm] using h

end Names

/-- A table is not written because of a symbol, and for no other reason. -/
theorem exists_unsupported_of_write (ht : t.Regular) {o : Options} {error : WriteError}
    (h : write o t = .error error) :
    ∃ e ∈ t.transitions, (¬ Writable e.2.1 ∨ ¬ Writable e.2.2.write) ∧
      ∃ mark, error = .unsupported mark e.1 := by
  have hf := faithful_names ht o.scheme
  have hstart := hf.nameOf_eq (mem_namedKeys_of_mem ht.start_mem)
  have hfinish := hf.nameOf_eq (finish_mem_namedKeys t)
  cases hbody : t.transitions.mapM (writeTransition (Listing.names o.scheme t)) with
  | ok body =>
    simp [write, lines, hstart, hfinish, hbody, bind, Except.bind, pure, Except.pure] at h
  | error found =>
    obtain rfl : found = error := by
      simpa [write, lines, hstart, hfinish, hbody, bind, Except.bind] using h
    obtain ⟨e, he, herror⟩ := exists_of_mapM_eq_error hbody
    exact ⟨e, he, exists_unsupported_of_writeTransition ht hf he herror⟩

structure Rendering (names : List (Key × String)) (e : Key × Symbol × Transition)
    (a : (String × String) × Action) : Prop where
  state : names.lookup e.1 = some a.1.1
  read : a.1.2 = e.2.1.cell "_"
  target : names.lookup e.2.2.target = some a.2.target
  write : a.2.write = e.2.2.write.cell "_"
  move : a.2.move = e.2.2.move

theorem rendering_action (ht : t.Regular) (hf : Faithful names (namedKeys t))
    {e : Key × Symbol × Transition} (he : e ∈ t.transitions) :
    Rendering names e (action names e) :=
  ⟨hf.lookup_eq (mem_namedKeys_of_mem (Table.key_mem_of_mem_transitions he)), rfl,
    hf.lookup_eq (mem_namedKeys_of_mem (ht.target_mem e he)), rfl, rfl⟩

end Listing

namespace Program

open Listing

/-- For every table of a program that a text gives, and all options: the table cannot be written exactly
if a transition reads or writes a comma or white space. Otherwise what is written can be read back, and
gives the name of the start, that of the accepting state, and in their order the transitions, each by
its names and symbols and no two for the same name and symbol. Of the title the first line is read back,
trimmed, and nothing else depends on it. -/
theorem listing_reads_back {source file : String} {p : Program} {t : Table}
    (hparse : Program.parse source file = .ok p) (hexpand : p.expand = .ok t) (o : Options) :
    ((∃ mark key, Listing.write o t = .error (.unsupported mark key)) ↔
      ∃ e ∈ t.transitions, e.2.1.Unwritable ∨ e.2.2.write.Unwritable) ∧
    ((∀ e ∈ t.transitions, ¬ e.2.1.Unwritable ∧ ¬ e.2.2.write.Unwritable) →
      ∃ init accept actions,
        (Listing.names o.scheme t).lookup t.start = some init ∧
        (Listing.names o.scheme t).lookup Key.finish = some accept ∧
        List.Forall₂ (Rendering (Listing.names o.scheme t)) t.transitions actions ∧
        (actions.map Prod.fst).Nodup ∧
        ∀ title, ∃ text, Listing.write { o with name := title } t = .ok text ∧
          Listing.read text =
            .ok ⟨Text.strip (Text.lineAt title 1), init, [accept], actions⟩) := by
  have ht := regular_of_parse hparse hexpand
  have hf := faithful_names ht o.scheme
  have hwritable : ∀ e ∈ t.transitions,
      (e.2.1.Unwritable ↔ ¬ Writable e.2.1) ∧ (e.2.2.write.Unwritable ↔ ¬ Writable e.2.2.write) :=
    fun e he => ⟨unwritable_iff (ht.read e he), unwritable_iff (ht.write e he)⟩
  refine ⟨⟨?_, ?_⟩, ?_⟩
  · intro h
    obtain ⟨mark, key, herror⟩ := h
    obtain ⟨e, he, hbad, _⟩ := exists_unsupported_of_write ht herror
    exact ⟨e, he, hbad.imp (hwritable e he).1.2 (hwritable e he).2.2⟩
  · intro h
    obtain ⟨e, he, hbad⟩ := h
    cases hwrite : Listing.write o t with
    | ok text =>
      obtain ⟨hread, hwritten⟩ := (write_eq_ok hwrite).2 e he
      cases hbad with
      | inl hr => exact absurd hread ((hwritable e he).1.1 hr)
      | inr hw => exact absurd hwritten ((hwritable e he).2.1 hw)
    | error error =>
      obtain ⟨found, _, _, mark, rfl⟩ := exists_unsupported_of_write ht hwrite
      exact ⟨mark, found.1, rfl⟩
  · intro hgood
    refine ⟨_, _, t.transitions.map (action (Listing.names o.scheme t)),
      hf.lookup_eq (mem_namedKeys_of_mem ht.start_mem), hf.lookup_eq (finish_mem_namedKeys t),
      ?_, nodup_actions ht hf, fun title => ?_⟩
    · rw [List.forall₂_map_right_iff]
      exact List.forall₂_same.2 fun e he => rendering_action ht hf he
    · have hscheme : Options.scheme { o with name := title } = o.scheme := rfl
      cases hwrite : Listing.write { o with name := title } t with
      | ok text =>
        have hread := read_write ht hwrite
        rw [hscheme] at hread
        exact ⟨text, rfl, hread⟩
      | error error =>
        obtain ⟨e, he, hbad, _⟩ := exists_unsupported_of_write ht hwrite
        cases hbad with
        | inl hr => exact absurd ((hwritable e he).1.2 hr) (hgood e he).1
        | inr hw => exact absurd ((hwritable e he).2.2 hw) (hgood e he).2

def ledger : String :=
  -- States called as the header fields are, and symbols that have a meaning in a listing.
  "start = name<accept<init>>\nname<k> ':' = '/'; k next\naccept<k> '<' = _; k prev\n" ++
    "init 0 = '-'; finish next\n"

set_option maxRecDepth 20000 in
theorem listing_reads_back_ledger : ∃ p t, Program.parse ledger "ledger" = .ok p ∧
    p.expand = .ok t ∧
    (∀ e ∈ t.transitions, ¬ e.2.1.Unwritable ∧ ¬ e.2.2.write.Unwritable) ∧
    ∃ text sim, Listing.write ⟨" init: x, // y \naccept: z", some "none"⟩ t = .ok text ∧
      Listing.read text = .ok sim ∧ sim.name = "init: x, // y" ∧
      List.Forall₂ (Rendering (Listing.names .escape t)) t.transitions sim.actions := by
  obtain ⟨p, hp, hany⟩ := exists_ok_of_any (x := Program.parse ledger "ledger")
    (t := fun p => p.expand.toOption.any fun t =>
      (Listing.write ⟨"", some "none"⟩ t).toOption.any fun _ => true) (by decide_cbv)
  obtain ⟨t, ht, hwritten⟩ := exists_ok_of_any hany
  obtain ⟨_, hplain, _⟩ := exists_ok_of_any hwritten
  obtain ⟨hrefused, hback⟩ := listing_reads_back hp ht ⟨"", some "none"⟩
  have hgood : ∀ e ∈ t.transitions, ¬ e.2.1.Unwritable ∧ ¬ e.2.2.write.Unwritable := by
    intro e he
    refine not_or.1 fun hbad => ?_
    obtain ⟨mark, key, herror⟩ := hrefused.2 ⟨e, he, hbad⟩
    simp [hplain] at herror
  obtain ⟨init, accept, actions, _, _, hactions, _, htitle⟩ := hback hgood
  obtain ⟨text, htext, hread⟩ := htitle " init: x, // y \naccept: z"
  exact ⟨p, t, hp, ht, hgood, text, _, htext, hread, by decide_cbv, hactions⟩

end Program

end GenericTuring
