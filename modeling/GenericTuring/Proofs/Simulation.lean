import GenericTuring.Proofs.Listings
import GenericTuring.Proofs.Steps
import GenericTuring.Proofs.Tapes
import Mathlib

/-!
A machine and the simulator that reads its listing. The simulator has cells of its own, and they show what
the tape of the machine holds; it has its head at the same cell and is in the state with the name of the
machine's. So within any number of steps they end alike.
-/

namespace GenericTuring

open Listing

abbrev Tape.Legible (tape : Tape) : Prop := tape.Holds fun s => s ≠ .mark "_"

theorem Symbol.ofChar_ne_underscore (c : Char) : Symbol.ofChar c ≠ .mark "_" := by
  by_cases hc : c = ' ' ∨ c = '_'
  · simp [Symbol.ofChar, hc]
  · have hne : c ≠ ' ' ∧ c ≠ '_' := not_or.1 hc
    intro heq
    have hmark : String.singleton c = "_" := by simpa [Symbol.ofChar, hne] using heq
    have hlist := congrArg String.toList hmark
    exact hne.2 (by simpa using hlist)

theorem Tape.legible_ofText (text : String) : (Tape.ofText text).Legible :=
  Tape.holds_ofText (by simp) Symbol.ofChar_ne_underscore text 0

def Fault.verdict? : Option Fault → Option Verdict
  | none => some .accept
  | some (.stuck ..) => some .reject
  | some (.stepLimit ..) => some .timeout
  | some (.halted _) => none

theorem Fault.verdict?_eq_some {fault : Option Fault} {v : Verdict}
    (h : Fault.verdict? fault = some v) :
    (v = .accept ↔ fault = none) ∧
      (v = .reject ↔ ∃ key symbol head step, fault = some (.stuck key symbol head step)) ∧
      (v = .timeout ↔ ∃ limit key step, fault = some (.stepLimit limit key step)) := by
  cases fault with
  | none =>
    obtain rfl : Verdict.accept = v := Option.some.inj h
    simp
  | some found =>
    cases found with
    | halted step => simp [verdict?] at h
    | stuck key symbol head step =>
      obtain rfl : Verdict.reject = v := Option.some.inj h
      simp
    | stepLimit limit key step =>
      obtain rfl : Verdict.timeout = v := Option.some.inj h
      simp

namespace Listing

variable {t : Table} {names : List (Key × String)}

section Cells

variable {cells : Std.TreeMap Int String} {tape : Tape} {s : Symbol}

def Shows (cells : Std.TreeMap Int String) (tape : Tape) : Prop :=
  ∀ pos, (cells[pos]?).getD "_" = (tape.read pos).cell "_"

theorem cell_ne (h : s ≠ .mark "_") (hs : s ≠ .blank) : s.cell "_" ≠ "_" := by
  cases s with
  | blank => exact absurd rfl hs
  | mark text => exact fun heq => h (congrArg Symbol.mark heq)

theorem Shows.write (h : Shows cells tape) (hs : s ≠ .mark "_") (pos : Int) :
    Shows (if s.cell "_" = "_" then cells.erase pos else cells.insert pos (s.cell "_"))
      (tape.write pos s) := by
  intro other
  have hother := h other
  rw [Tape.read_write]
  by_cases hblank : s = .blank
  · rw [hblank, Symbol.cell, if_pos rfl, Std.TreeMap.getElem?_erase]
    by_cases heq : pos = other
    · simp [heq, Symbol.cell]
    · simp [heq, Ne.symm heq, hother]
  · rw [if_neg (cell_ne hs hblank), Std.TreeMap.getElem?_insert]
    by_cases heq : pos = other
    · simp [heq]
    · simp [heq, Ne.symm heq, hother]

/-- Where the tape is blank already, a blank changes nothing. -/
theorem Shows.write_blank (h : Shows cells tape) {pos : Int} (hpos : tape.read pos = .blank) :
    Shows cells (tape.write pos .blank) := by
  intro other
  rw [h other, Tape.read_write]
  by_cases heq : other = pos
  · rw [if_pos heq, heq, hpos]
  · rw [if_neg heq]

/-- The cells are filled from the left, so those to the right of them are still blank. -/
theorem shows_foldl (cs : List Char) (k : Nat) (h : Shows cells tape)
    (hblank : ∀ pos, (k : Int) ≤ pos → tape.read pos = .blank) :
    Shows ((cs.zipIdx k).foldl Simulator.fill cells)
      ((cs.zipIdx k).foldl (fun tape entry => tape.write (entry.2 : Int) (.ofChar entry.1)) tape) := by
  induction cs generalizing k cells tape with
  | nil => exact h
  | cons c cs ih =>
    rw [List.zipIdx_cons, List.foldl_cons, List.foldl_cons]
    have hrest : ∀ pos, ((k + 1 : Nat) : Int) ≤ pos →
        (tape.write (k : Int) (.ofChar c)).read pos = .blank := by
      intro pos hpos
      rw [Tape.read_write, if_neg (by omega)]
      exact hblank pos (by omega)
    refine ih (k + 1) ?_ hrest
    by_cases hc : c = ' ' ∨ c = '_'
    · have hchar : Symbol.ofChar c = .blank := by simp [Symbol.ofChar, hc]
      rw [Simulator.fill, if_pos hc, hchar]
      exact h.write_blank (hblank k (Int.le_refl _))
    · have hchar : Symbol.ofChar c = .mark (String.singleton c) := by simp [Symbol.ofChar, hc]
      have hwritten := h.write (Symbol.ofChar_ne_underscore c) k
      rw [if_neg (cell_ne (Symbol.ofChar_ne_underscore c) (by simp [hchar])), hchar] at hwritten
      rw [Simulator.fill, if_neg hc, hchar]
      exact hwritten

theorem shows_cellsOf (text : String) : Shows (Simulator.cellsOf text) (.ofText text) := by
  have hempty : Shows ∅ Tape.empty := by
    intro pos
    simp [Tape.read_empty, Symbol.cell]
  have hfold := shows_foldl text.toList 0 hempty fun pos _ => Tape.read_empty pos
  simpa [Simulator.cellsOf, Tape.ofText, List.foldl_map] using hfold

end Cells

structure Situation.Mirrors (now : Situation) (names : List (Key × String)) (c : Configuration) :
    Prop where
  state_eq : now.state = nameIn names c.key
  head_eq : now.head = c.head
  cells_eq : ∀ pos, now.read pos = (c.tape.read pos).cell "_"

structure Simulator.Renders (sim : Simulator) (names : List (Key × String)) (t : Table) : Prop where
  init_eq : sim.init = nameIn names t.start
  accept_eq : sim.accept = [nameIn names Key.finish]
  actions_eq : sim.actions = t.transitions.map (action names)

/-- The simulator finds an action where the table has a transition. -/
theorem lookup_actions (ht : t.Regular) (hf : Faithful names (namedKeys t)) {key : Key}
    (hkey : key ∈ t.keys) {symbol : Symbol} (hsymbol : symbol ≠ .mark "_") :
    (t.transitions.map (action names)).lookup (nameIn names key, symbol.cell "_") =
      (t.lookup key symbol).map fun tr => (action names (key, symbol, tr)).2 := by
  cases htr : t.lookup key symbol with
  | some tr =>
    have hmem := ht.lookup_eq_some.1 htr
    exact lookup_eq_some_of_mem (nodup_actions ht hf)
      (List.mem_map.2 ⟨(key, symbol, tr), hmem, rfl⟩)
  | none =>
    rw [Option.map_none, List.lookup_eq_none_iff]
    intro entry hentry
    obtain ⟨e, he, rfl⟩ := List.mem_map.1 hentry
    rw [bne_iff_ne]
    intro heq
    obtain ⟨hname, hcell⟩ := Prod.mk.inj heq
    have hsame : key = e.1 := hf.nameIn_inj (mem_namedKeys_of_mem hkey)
      (mem_namedKeys_of_mem (Table.key_mem_of_mem_transitions he)) hname
    have hread : symbol = e.2.1 := cell_inj hsymbol (ne_underscore_of_plain (ht.read e he)) hcell
    have hsome : t.lookup key symbol = some e.2.2 :=
      ht.lookup_eq_some.2 (by rw [hsame, hread]; exact he)
    simp [htr] at hsome

theorem mem_accept_iff {sim : Simulator} (hsim : sim.Renders names t)
    (hf : Faithful names (namedKeys t)) {key : Key} (hkey : key ∈ t.keys) :
    nameIn names key ∈ sim.accept ↔ key = Key.finish := by
  rw [hsim.accept_eq, List.mem_singleton]
  constructor
  · exact hf.nameIn_inj (mem_namedKeys_of_mem hkey) (finish_mem_namedKeys t)
  · intro heq
    rw [heq]

theorem runFor_of_mem_accept {sim : Simulator} {now : Situation} (h : now.state ∈ sim.accept)
    (budget : Nat) : sim.runFor budget now = (.accept, now) := by
  cases budget with
  | zero => simp [Simulator.runFor, h]
  | succ budget => simp [Simulator.runFor, h]

theorem Situation.Mirrors.follow {now : Situation} {c : Configuration} (h : now.Mirrors names c)
    {symbol : Symbol} {tr : Transition} (hwrite : tr.write ≠ .mark "_") :
    (now.follow (action names (c.key, symbol, tr)).2).Mirrors names (c.apply tr).2 := by
  refine ⟨rfl, ?_, ?_⟩
  · rw [Situation.follow, h.head_eq]
    rfl
  · have hshows : Shows now.cells c.tape := h.cells_eq
    rw [Situation.follow, h.head_eq]
    exact hshows.write hwrite c.head

structure EndsAlike (names : List (Key × String)) (run : Option Fault × Machine)
    (simulation : Verdict × Situation) : Prop where
  verdict_eq : Fault.verdict? run.1 = some simulation.1
  mirrors : simulation.2.Mirrors names run.2.state

theorem endsAlike_of_halted {sim : Simulator} (hf : Faithful names (namedKeys t))
    (hsim : sim.Renders names t) (limit : Int) (budget : Nat) {m : Machine} {now : Situation}
    (hkey : m.state.key ∈ t.keys) (hnow : now.Mirrors names m.state) (hhalted : m.halted = true) :
    EndsAlike names (m.runFor limit budget) (sim.runFor budget now) := by
  have hfinish := (mem_accept_iff hsim hf hkey).2 (Machine.halted_iff.1 hhalted)
  rw [← hnow.state_eq] at hfinish
  rw [Machine.runFor_of_halted hhalted, runFor_of_mem_accept hfinish]
  exact ⟨rfl, hnow⟩

theorem endsAlike_runFor {sim : Simulator} (ht : t.Regular) (hf : Faithful names (namedKeys t))
    (hsim : sim.Renders names t) (limit : Int) (budget : Nat) {m : Machine} {now : Situation}
    (htable : m.table = t) (hkey : m.state.key ∈ t.keys) (htape : m.state.tape.Legible)
    (hnow : now.Mirrors names m.state) :
    EndsAlike names (m.runFor limit budget) (sim.runFor budget now) := by
  -- The simulator has an action just where the table has a transition, so both go on or neither does.
  induction budget generalizing m now with
  | zero =>
    cases hhalted : m.halted with
    | true => exact endsAlike_of_halted hf hsim limit _ hkey hnow hhalted
    | false =>
      have hrunning := mt (mem_accept_iff hsim hf hkey).1
        (Machine.halted_eq_false_iff.1 hhalted)
      rw [← hnow.state_eq] at hrunning
      simp only [Machine.runFor, Simulator.runFor, hhalted, if_neg hrunning, Bool.false_eq_true,
        if_false]
      exact ⟨rfl, hnow⟩
  | succ budget ih =>
    cases hhalted : m.halted with
    | true => exact endsAlike_of_halted hf hsim limit _ hkey hnow hhalted
    | false =>
      have hrunning := mt (mem_accept_iff hsim hf hkey).1
        (Machine.halted_eq_false_iff.1 hhalted)
      have hlookup := lookup_actions ht hf hkey (htape m.state.head)
      rw [← hnow.state_eq, ← hnow.cells_eq, ← hnow.head_eq, ← hsim.actions_eq] at hlookup
      rw [← hnow.state_eq] at hrunning
      have hnext : m.next? = t.lookup m.state.key (m.state.tape.read now.head) := by
        rw [← htable, hnow.head_eq]
        rfl
      cases htr : t.lookup m.state.key (m.state.tape.read now.head) with
      | none =>
        rw [htr] at hnext hlookup
        have hstep := Machine.step_of_stuck hhalted hnext
        simp only [Machine.runFor, Simulator.runFor, hhalted, hstep, hlookup, if_neg hrunning,
          Option.map_none, Bool.false_eq_true, if_false]
        exact ⟨rfl, hnow⟩
      | some tr =>
        rw [htr] at hnext hlookup
        have hmem := ht.lookup_eq_some.1 htr
        have hwrite := ne_underscore_of_plain (ht.write _ hmem)
        obtain ⟨m', hstep, htable', hstate⟩ := Machine.step_of_next hhalted hnext
        have hkey' : m'.state.key ∈ t.keys := hstate ▸ ht.target_mem _ hmem
        have htape' : m'.state.tape.Legible := hstate ▸ htape.write hwrite m.state.head
        simp only [Machine.runFor, Simulator.runFor, hhalted, hstep, hlookup, if_neg hrunning,
          Option.map_some, Bool.false_eq_true, if_false]
        exact ih (htable'.trans htable) hkey' htape' (hstate ▸ hnow.follow hwrite)

end Listing

namespace Program

/-- A machine and the listing of its table agree on every tape and step limit: the simulator accepts
where the machine does, rejects where the machine is stuck, and runs out of steps where it does. In the
end it is in the state with the name of the machine's, its head is at the same cell, and its cells show
what is on the tape. -/
theorem listing_runs_as_machine {source file : String} {p : Program} {t : Table} {o : Options}
    {text : String} (hparse : Program.parse source file = .ok p) (hexpand : p.expand = .ok t)
    (hwrite : Listing.write o t = .ok text) :
    ∃ sim, Listing.read text = .ok sim ∧ ∀ (settings : Settings) (tape : String) (maxSteps : Int),
      let run := (Machine.new t (.ofText tape) settings).run (some maxSteps)
      (sim.run tape maxSteps = .accept ↔ run.1 = none) ∧
      (sim.run tape maxSteps = .reject ↔
        ∃ key symbol head step, run.1 = some (.stuck key symbol head step)) ∧
      (sim.run tape maxSteps = .timeout ↔
        ∃ limit key step, run.1 = some (.stepLimit limit key step)) ∧
      (sim.runFor maxSteps.toNat (sim.begin tape)).2.Mirrors (Listing.names o.scheme t)
        run.2.state := by
  have ht := regular_of_parse hparse hexpand
  have hf := faithful_names ht o.scheme
  obtain ⟨sim, hread, hsim⟩ : ∃ sim, Listing.read text = .ok sim ∧
      sim.Renders (Listing.names o.scheme t) t :=
    ⟨_, Listing.read_write ht hwrite, rfl, rfl, rfl⟩
  refine ⟨sim, hread, ?_⟩
  intro settings tape maxSteps run
  have hbegin : (sim.begin tape).Mirrors (Listing.names o.scheme t)
      (Machine.new t (.ofText tape) settings).state :=
    ⟨hsim.init_eq, rfl, shows_cellsOf tape⟩
  have hends : EndsAlike (Listing.names o.scheme t) run
      (sim.runFor maxSteps.toNat (sim.begin tape)) :=
    endsAlike_runFor ht hf hsim maxSteps maxSteps.toNat rfl ht.start_mem
      (Tape.legible_ofText tape) hbegin
  obtain ⟨haccept, hreject, htimeout⟩ := Fault.verdict?_eq_some hends.verdict_eq
  exact ⟨haccept, hreject, htimeout, hends.mirrors⟩

def courier : String :=
  -- A program whose symbols are marks of the listing format as well.
  "start = w<finish>\nw<k> ':' = '/'; w<k> next\nw<k> '<' = _; s<s<k>> prev\n" ++
    "s<k> '/' = '-'; k next\ns<k> _ = 0; k current\n"

set_option maxRecDepth 20000 in
theorem listing_runs_as_machine_courier : ∃ p t text sim,
    Program.parse courier "courier" = .ok p ∧ p.expand = .ok t ∧
      Listing.write ⟨"a: b, // c\nd", some "ordinal"⟩ t = .ok text ∧
      Listing.read text = .ok sim ∧
      ∀ tape maxSteps, sim.run tape maxSteps = .accept ↔
        ((Machine.new t (.ofText tape)).run (some maxSteps)).1 = none := by
  obtain ⟨p, hp, hany⟩ := exists_ok_of_any (x := Program.parse courier "courier")
    (t := fun p => p.expand.toOption.any fun t =>
      (Listing.write ⟨"a: b, // c\nd", some "ordinal"⟩ t).toOption.any fun _ => true)
    (by decide_cbv)
  obtain ⟨t, ht, hwritten⟩ := exists_ok_of_any hany
  obtain ⟨text, htext, _⟩ := exists_ok_of_any hwritten
  obtain ⟨sim, hsim, hruns⟩ := listing_runs_as_machine hp ht htext
  exact ⟨p, t, text, sim, hp, ht, htext, hsim, fun tape maxSteps => (hruns {} tape maxSteps).1⟩

end Program

end GenericTuring
