import GenericTuring.Proofs.Limits
import GenericTuring.Proofs.Tapes
import Mathlib

/-!
Computation is local. In `k` steps the head gets at most `k` cells away from where it started, and no cell
that far away is read or written. So two machines do the same as long as their tapes agree nearby, whatever
lies further out.
-/

namespace GenericTuring

theorem Move.offset_bounds (move : Move) : -1 ≤ move.offset ∧ move.offset ≤ 1 := by
  cases move <;> simp [Move.offset]

namespace Configuration

variable {tape other : Tape} {c d : Configuration} {k : Nat}

/-- Where a machine can be `k` steps after it was put on a tape: at most `k` cells from where it started,
with nothing changed that far away. -/
structure Near (tape : Tape) (k : Nat) (c : Configuration) : Prop where
  head_mem : -(k : Int) ≤ c.head ∧ c.head ≤ k
  unchanged : ∀ pos : Int, k ≤ pos.natAbs → c.tape.read pos = tape.read pos

theorem near_initial (table : Table) (tape : Tape) : (initial table tape).Near tape 0 where
  head_mem := by simp [initial]
  unchanged := fun _ _ => rfl

theorem Near.apply (h : c.Near tape k) (tr : Transition) : (c.apply tr).2.Near tape (k + 1) where
  head_mem := by
    have hhead := h.head_mem
    have hmove := tr.move.offset_bounds
    simp only [Configuration.apply]
    omega
  unchanged := by
    intro pos hpos
    have hne : pos ≠ c.head := by
      have hhead := h.head_mem
      omega
    calc
      (c.tape.write c.head tr.write).read pos = c.tape.read pos := by
        rw [Tape.read_write, if_neg hne]
      _ = tape.read pos := h.unchanged pos (by omega)

structure InStep (tape other : Tape) (c d : Configuration) : Prop where
  key_eq : c.key = d.key
  head_eq : c.head = d.head
  steps_eq : c.steps = d.steps
  agree : ∀ pos, tape.read pos = other.read pos → c.tape.read pos = d.tape.read pos

theorem inStep_initial (table : Table) (tape other : Tape) :
    InStep tape other (initial table tape) (initial table other) :=
  ⟨rfl, rfl, rfl, fun _ h => h⟩

theorem InStep.symbol_eq (h : InStep tape other c d)
    (hhead : tape.read c.head = other.read c.head) : c.symbol = d.symbol := by
  calc
    c.tape.read c.head = d.tape.read c.head := h.agree c.head hhead
    _ = d.tape.read d.head := by rw [h.head_eq]

/-- Where both heads read the same, a transition does the same to both and is recorded alike. -/
theorem InStep.apply (h : InStep tape other c d) (hsymbol : c.symbol = d.symbol) (tr : Transition) :
    (c.apply tr).1 = (d.apply tr).1 ∧ InStep tape other (c.apply tr).2 (d.apply tr).2 := by
  constructor
  · simp only [Configuration.apply, h.key_eq, h.head_eq, h.steps_eq, hsymbol]
  · refine ⟨rfl, by simp only [Configuration.apply, h.head_eq],
      by simp only [Configuration.apply, h.steps_eq], fun pos hpos => ?_⟩
    simp only [Configuration.apply, Tape.read_write, h.head_eq, h.agree pos hpos]

end Configuration

namespace Machine

variable {tape other : Tape} {m m' : Machine} {k n : Nat}

structure Lockstep (tape other : Tape) (k : Nat) (m m' : Machine) : Prop where
  table_eq : m.table = m'.table
  settings_eq : m.settings = m'.settings
  trace_eq : m.trace = m'.trace
  near : m.state.Near tape k
  near' : m'.state.Near other k
  inStep : m.state.InStep tape other m'.state

theorem lockstep_new (table : Table) (tape other : Tape) (settings : Settings) :
    Lockstep tape other 0 (new table tape settings) (new table other settings) where
  table_eq := rfl
  settings_eq := rfl
  trace_eq := rfl
  near := Configuration.near_initial table tape
  near' := Configuration.near_initial table other
  inStep := Configuration.inStep_initial table tape other

theorem Lockstep.halted_eq (h : Lockstep tape other k m m') : m.halted = m'.halted := by
  rw [halted, halted, Configuration.halted, Configuration.halted, h.inStep.key_eq]

section Head

variable (hhead : tape.read m.state.head = other.read m.state.head)

include hhead

theorem Lockstep.next?_eq (h : Lockstep tape other k m m') : m.next? = m'.next? := by
  simp only [next?, Configuration.next?, h.table_eq, h.inStep.key_eq, h.inStep.symbol_eq hhead]

theorem Lockstep.stuck_eq (h : Lockstep tape other k m m') :
    Fault.stuck m.state.key m.state.symbol m.state.head m.state.steps =
      .stuck m'.state.key m'.state.symbol m'.state.head m'.state.steps := by
  rw [h.inStep.key_eq, h.inStep.symbol_eq hhead, h.inStep.head_eq, h.inStep.steps_eq]

/-- Where the tapes agreed under the head to begin with, both machines take the same step or fail in the
same way. -/
theorem Lockstep.step (h : Lockstep tape other k m m') :
    (∃ r next next', m.step = .ok (r, next) ∧ m'.step = .ok (r, next') ∧
      Lockstep tape other (k + 1) next next') ∨
    ∃ fault, m.step = .error fault ∧ m'.step = .error fault := by
  cases hhalted : m.halted with
  | true =>
    have hhalted' := h.halted_eq.symm.trans hhalted
    refine .inr ⟨_, step_of_halted hhalted, ?_⟩
    rw [step_of_halted hhalted', h.inStep.steps_eq]
  | false =>
    have hhalted' := h.halted_eq.symm.trans hhalted
    cases htr : m.next? with
    | none =>
      have hstep' := step_of_stuck hhalted' ((h.next?_eq hhead).symm.trans htr)
      rw [← h.stuck_eq hhead] at hstep'
      exact .inr ⟨_, step_of_stuck hhalted htr, hstep'⟩
    | some tr =>
      obtain ⟨hrecord, hstate⟩ := h.inStep.apply (h.inStep.symbol_eq hhead) tr
      have hstep' := step_eq_ok hhalted' ((h.next?_eq hhead).symm.trans htr)
      rw [← hrecord] at hstep'
      refine .inl ⟨_, _, _, step_eq_ok hhalted htr, hstep', ?_⟩
      refine ⟨h.table_eq, h.settings_eq, ?_, h.near.apply tr, h.near'.apply tr, hstate⟩
      have hhistory : m.history = m'.history := List.reverse_inj.1 h.trace_eq
      simp only [trace, h.settings_eq, hhistory]

end Head

section Agreeing

variable (hagree : ∀ pos : Int, pos.natAbs < n → tape.read pos = other.read pos)

include hagree

theorem Lockstep.head_agree (h : Lockstep tape other k m m') (hk : k < n) :
    tape.read m.state.head = other.read m.state.head := by
  have hhead := h.near.head_mem
  exact hagree m.state.head (by omega)

theorem Lockstep.stepped (h : Lockstep tape other k m m') {j : Nat} (hj : k + j ≤ n) :
    (∃ c c', m.stepped j = .ok c ∧ m'.stepped j = .ok c' ∧ Lockstep tape other (k + j) c c') ∨
    ∃ fault, m.stepped j = .error fault ∧ m'.stepped j = .error fault := by
  induction j generalizing m m' k with
  | zero => exact .inl ⟨m, m', rfl, rfl, h⟩
  | succ j ih =>
    cases h.step (h.head_agree hagree (by omega)) with
    | inl hok =>
      obtain ⟨r, next, next', hstep, hstep', hnext⟩ := hok
      rw [stepped_succ hstep, stepped_succ hstep', show k + (j + 1) = k + 1 + j by omega]
      exact ih hnext (by omega)
    | inr herror =>
      obtain ⟨fault, hstep, hstep'⟩ := herror
      exact .inr ⟨fault, by simp [Machine.stepped, hstep], by simp [Machine.stepped, hstep']⟩

theorem Lockstep.runFor (h : Lockstep tape other k m m') (limit : Int) {j : Nat} (hj : k + j ≤ n) :
    ∃ fault? c c', m.runFor limit j = (fault?, c) ∧ m'.runFor limit j = (fault?, c') ∧
      ∃ i ≤ j, Lockstep tape other (k + i) c c' := by
  obtain ⟨i, fault?, c, hrun, hstepped, hending⟩ := exists_ending limit j m
  have hi : i ≤ j := by cases hending <;> omega
  cases h.stepped hagree (show k + i ≤ n by omega) with
  | inr herror =>
    obtain ⟨fault, hfailed, _⟩ := herror
    simp [hstepped] at hfailed
  | inl hok =>
    obtain ⟨found, c', hfound, hstepped', hlock⟩ := hok
    obtain rfl : c = found := Except.ok.inj (hstepped.symm.trans hfound)
    refine ⟨fault?, c, c', hrun, ?_, i, hi, hlock⟩
    have hsplit := runFor_of_stepped hstepped' limit
    -- A machine that is stuck before the end still has its head where the tapes agreed.
    cases hending with
    | accepted hle hhalted =>
      obtain ⟨rest, rfl⟩ := Nat.exists_eq_add_of_le hle
      exact (hsplit rest).trans (runFor_of_halted (hlock.halted_eq.symm.trans hhalted) limit rest)
    | stuck hlt hrunning hnext =>
      obtain ⟨rest, rfl⟩ := Nat.exists_eq_add_of_lt hlt
      have hhead := hlock.head_agree hagree (by omega)
      rw [hlock.stuck_eq hhead]
      exact (hsplit (rest + 1)).trans (runFor_of_stuck (hlock.halted_eq.symm.trans hrunning)
        ((hlock.next?_eq hhead).symm.trans hnext) limit rest)
    | exhausted hall hrunning =>
      subst hall
      have hrunning' := hlock.halted_eq.symm.trans hrunning
      rw [hlock.inStep.key_eq, hlock.inStep.steps_eq]
      exact (hsplit 0).trans (by simp [Machine.runFor, hrunning'])

end Agreeing

/-- For every table and every `n`, and for all tapes that agree less than `n` cells from the start: after
each number `k` of steps up to `n`, either both machines have failed with the same fault, or both have taken
the same steps. Then the heads are at the same place, at most `k` cells from the start; neither tape has
changed that far away; both still agree where they did to begin with; and if `k` is less than `n` the next
step is recorded alike or fails alike. So a run of at most `n` steps ends in the same way and place. -/
theorem computation_local (table : Table) (settings : Settings) {tape other : Tape} {n : Nat}
    (hagree : ∀ pos : Int, pos.natAbs < n → tape.read pos = other.read pos) :
    (∀ k ≤ n,
      (∃ m m', (new table tape settings).stepped k = .ok m ∧
        (new table other settings).stepped k = .ok m' ∧
        m.state.Near tape k ∧ m'.state.Near other k ∧ m.state.InStep tape other m'.state ∧
        m.trace = m'.trace ∧ (k < n → m.step.map Prod.fst = m'.step.map Prod.fst)) ∨
      ∃ fault, (new table tape settings).stepped k = .error fault ∧
        (new table other settings).stepped k = .error fault) ∧
    ∃ fault? m m', (new table tape settings).run (some n) = (fault?, m) ∧
      (new table other settings).run (some n) = (fault?, m') ∧
      m.state.InStep tape other m'.state ∧ m.trace = m'.trace := by
  have hnew := lockstep_new table tape other settings
  constructor
  · intro k hk
    refine (hnew.stepped hagree (by omega)).imp_left fun hok => ?_
    obtain ⟨m, m', hm, hm', hlock⟩ := hok
    rw [Nat.zero_add] at hlock
    refine ⟨m, m', hm, hm', hlock.near, hlock.near', hlock.inStep, hlock.trace_eq, fun hlt => ?_⟩
    cases hlock.step (hlock.head_agree hagree hlt) with
    | inl htaken =>
      obtain ⟨r, next, next', hstep, hstep', _⟩ := htaken
      simp [hstep, hstep', Except.map]
    | inr hfailed =>
      obtain ⟨fault, hstep, hstep'⟩ := hfailed
      simp [hstep, hstep', Except.map]
  · rw [run_natCast, run_natCast]
    obtain ⟨fault?, m, m', hrun, hrun', _, _, hlock⟩ := hnew.runFor hagree n (Nat.zero_add n).le
    exact ⟨fault?, m, m', hrun, hrun', hlock.inStep, hlock.trace_eq⟩

def clearing : String := "start = go\ngo 1 = _; go prev\ngo 0 = 1; go next\n"

/-- Tapes that agree up to two cells from the start and not beyond. -/
def clearingTapes : Tape × Tape := (.ofText "x0110" (-2), .ofText "y-x0110y" (-4))

theorem clearingTapes_agree (pos : Int) (h : pos.natAbs < 3) :
    clearingTapes.1.read pos = clearingTapes.2.read pos := by
  have hall : ∀ near ∈ [-2, -1, 0, 1, 2], clearingTapes.1.read near = clearingTapes.2.read near := by
    decide_cbv
  refine hall pos ?_
  simp only [List.mem_cons, List.not_mem_nil, or_false]
  omega

set_option maxRecDepth 20000 in
theorem computation_local_clearing : ∃ p t, Program.parse clearing "clearing" = .ok p ∧
    p.expand = .ok t ∧
    (∀ pos : Int, pos.natAbs < 3 → clearingTapes.1.read pos = clearingTapes.2.read pos) ∧
    clearingTapes.1.read 3 ≠ clearingTapes.2.read 3 ∧
    ∃ m m', (new t clearingTapes.1).run (some 3) = (some (.stuck (.atom "go") .blank 0 2), m) ∧
      (new t clearingTapes.2).run (some 3) = (some (.stuck (.atom "go") .blank 0 2), m') ∧
      m.state.InStep clearingTapes.1 clearingTapes.2 m'.state := by
  obtain ⟨p, hp, hany⟩ := exists_ok_of_any (x := Program.parse clearing "clearing")
    (t := fun p => p.expand.toOption.any fun t => ((new t clearingTapes.1).run (some 3)).1 ==
      some (.stuck (.atom "go") .blank 0 2)) (by decide_cbv)
  obtain ⟨t, ht, hstuck⟩ := exists_ok_of_any hany
  obtain ⟨_, fault?, m, m', hrun, hrun', hstate, _⟩ := computation_local t {} clearingTapes_agree
  have hrun3 : (new t clearingTapes.1).run (some 3) = (fault?, m) := hrun
  obtain rfl : fault? = some (.stuck (.atom "go") .blank 0 2) := by simpa [hrun3] using hstuck
  exact ⟨p, t, hp, ht, clearingTapes_agree, by decide_cbv, m, m', hrun, hrun', hstate⟩

end Machine

end GenericTuring
