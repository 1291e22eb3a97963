import GenericTuring.Program.Parse
import GenericTuring.Proofs.Lists
import GenericTuring.Proofs.Steps
import GenericTuring.Table.Expansion
import Mathlib

/-!
Runs with a limit. A run takes steps until the machine accepts, is stuck or has no step left; so a limit
only pauses it, and what is left of a larger limit can be run later. A step that fails has changed
nothing, also where steps are taken in place.
-/

namespace GenericTuring

def Fault.withLimit (limit : Int) : Fault → Fault
  | .stepLimit _ key step => .stepLimit limit key step
  | fault => fault

namespace Machine

inductive Ending (limit : Int) (budget n : Nat) (m : Machine) : Option Fault → Prop
  | accepted (hle : n ≤ budget) (hhalted : m.halted = true) : Ending limit budget n m none
  | stuck (hlt : n < budget) (hrunning : m.halted = false) (hnext : m.next? = none) :
      Ending limit budget n m
        (some (.stuck m.state.key m.state.symbol m.state.head m.state.steps))
  | exhausted (hall : n = budget) (hrunning : m.halted = false) :
      Ending limit budget n m (some (.stepLimit limit m.state.key m.state.steps))

variable {m m' : Machine} {limit : Int} {budget n : Nat} {fault? : Option Fault}

theorem Ending.succ (h : Ending limit budget n m fault?) :
    Ending limit (budget + 1) (n + 1) m fault? := by
  cases h with
  | accepted hle hhalted => exact .accepted (by omega) hhalted
  | stuck hlt hrunning hnext => exact .stuck (by omega) hrunning hnext
  | exhausted hall hrunning => exact .exhausted (by omega) hrunning

/-- Every run takes some steps and ends. -/
theorem exists_ending (limit : Int) (budget : Nat) (m : Machine) :
    ∃ n fault? m', m.runFor limit budget = (fault?, m') ∧ m.stepped n = .ok m' ∧
      Ending limit budget n m' fault? := by
  induction budget generalizing m with
  | zero =>
    cases hhalted : m.halted with
    | true => exact ⟨0, none, m, runFor_of_halted hhalted _ _, rfl, .accepted (by omega) hhalted⟩
    | false => exact ⟨0, _, m, by simp only [runFor, hhalted]; rfl, rfl, .exhausted rfl hhalted⟩
  | succ budget ih =>
    cases hhalted : m.halted with
    | true => exact ⟨0, none, m, runFor_of_halted hhalted _ _, rfl, .accepted (by omega) hhalted⟩
    | false =>
      cases hnext : m.next? with
      | none =>
        have hstep := step_of_stuck hhalted hnext
        exact ⟨0, _, m, by simp only [runFor, hhalted, hstep]; rfl, rfl,
          .stuck (by omega) hhalted hnext⟩
      | some tr =>
        obtain ⟨next, hstep, _⟩ := step_of_next hhalted hnext
        obtain ⟨n, fault?, m', hrun, hstepped, hending⟩ := ih next
        have hfirst : m.stepped 1 = .ok next := by simp [stepped, hstep]
        have hshift := runFor_of_stepped hfirst limit budget
        rw [Nat.add_comm] at hshift
        exact ⟨n + 1, fault?, m', hshift.trans hrun, (stepped_succ hstep n).trans hstepped,
          hending.succ⟩

/-- The steps and the ending of a run whose result is known. -/
theorem ending_of_runFor (h : m.runFor limit budget = (fault?, m')) :
    ∃ n, m.stepped n = .ok m' ∧ Ending limit budget n m' fault? := by
  obtain ⟨n, found, last, hrun, hstepped, hending⟩ := exists_ending limit budget m
  obtain ⟨rfl, rfl⟩ := Prod.mk.inj (hrun.symm.trans h)
  exact ⟨n, hstepped, hending⟩

/-- Another limit on a run changes the limit that is reported and nothing else. -/
theorem runFor_withLimit (other limit : Int) (budget : Nat) (m : Machine) :
    m.runFor other budget =
      ((m.runFor limit budget).1.map (Fault.withLimit other), (m.runFor limit budget).2) := by
  obtain ⟨n, fault?, m', hrun, hstepped, hending⟩ := exists_ending limit budget m
  rw [hrun]
  have hsplit := runFor_of_stepped hstepped other
  cases hending with
  | accepted hle hhalted =>
    obtain ⟨rest, rfl⟩ := Nat.exists_eq_add_of_le hle
    exact (hsplit rest).trans (runFor_of_halted hhalted other rest)
  | stuck hlt hrunning hnext =>
    obtain ⟨rest, rfl⟩ := Nat.exists_eq_add_of_lt hlt
    exact (hsplit (rest + 1)).trans (runFor_of_stuck hrunning hnext other rest)
  | exhausted hall hrunning =>
    subst hall
    refine (hsplit 0).trans ?_
    simp [runFor, hrunning, Fault.withLimit]

/-- More steps are of no use to a run that has accepted or is stuck. -/
theorem runFor_add_of_ended (h : m.runFor limit budget = (fault?, m'))
    (hended : ∀ bound key step, fault? ≠ some (.stepLimit bound key step)) (other : Int)
    (more : Nat) : m.runFor other (budget + more) = (fault?, m') := by
  obtain ⟨n, hstepped, hending⟩ := ending_of_runFor h
  have hsplit := runFor_of_stepped hstepped other
  cases hending with
  | accepted hle hhalted =>
    obtain ⟨rest, rfl⟩ := Nat.exists_eq_add_of_le hle
    rw [Nat.add_assoc, hsplit]
    exact runFor_of_halted hhalted other _
  | stuck hlt hrunning hnext =>
    obtain ⟨rest, rfl⟩ := Nat.exists_eq_add_of_lt hlt
    rw [show n + rest + 1 + more = n + (rest + more + 1) by omega, hsplit]
    exact runFor_of_stuck hrunning hnext other _
  | exhausted _ _ => exact absurd rfl (hended _ _ _)

/-- A run that reports its limit has taken all its steps. -/
theorem stepped_of_limited {bound : Int} {key : Key} {step : Nat}
    (h : m.runFor limit budget = (some (.stepLimit bound key step), m')) :
    m.stepped budget = .ok m' ∧ m'.halted = false ∧ bound = limit ∧ key = m'.state.key ∧
      step = m'.state.steps := by
  obtain ⟨n, hstepped, hending⟩ := ending_of_runFor h
  cases hending with
  | exhausted hall hrunning => exact ⟨hall ▸ hstepped, hrunning, rfl, rfl, rfl⟩

theorem steps_of_stepped (h : m.stepped n = .ok m') : m'.state.steps = m.state.steps + n := by
  induction n generalizing m with
  | zero =>
    obtain rfl : m = m' := Except.ok.inj h
    rfl
  | succ n ih =>
    obtain ⟨r, next, hstep, hrest⟩ := exists_step_of_stepped h
    obtain ⟨hrunning, tr, hnext⟩ := running_of_step hstep
    obtain ⟨moved, hmoved, _, hstate⟩ := step_of_next hrunning hnext
    obtain ⟨_, rfl⟩ := Prod.mk.inj (Except.ok.inj (hmoved.symm.trans hstep))
    have hcount : moved.state.steps = m.state.steps + 1 := by
      rw [hstate]
      rfl
    have hlater := ih hrest
    omega

theorem run_natCast (m : Machine) (n : Nat) : m.run (some (n : Int)) = m.runFor n n := by
  simp [run]

def applyInPlace (tr : Transition) : EStateM Fault Machine Record := do
  let m ← get
  modify fun now => now.writeCell m.state.head tr.write
  modify fun now => { now with state := { now.state with head := m.state.head + tr.move.offset } }
  let moved ← get
  let record : Record :=
    ⟨m.state.steps + 1, m.state.key, m.state.symbol, tr, m.state.head, moved.state.head⟩
  modify fun now => { now with state := { now.state with key := tr.target } }
  modify fun now => { now with state := { now.state with steps := now.state.steps + 1 } }
  if m.settings.recordTrace then
    modify fun now => { now with history := record :: now.history }
  return record

def stepInPlace : EStateM Fault Machine Record := do
  -- A fault leaves behind what was changed before it.
  let m ← get
  if m.halted then throw (.halted m.state.steps)
  else match m.next? with
    | none => throw (.stuck m.state.key m.state.symbol m.state.head m.state.steps)
    | some tr => applyInPlace tr

theorem run_applyInPlace (m : Machine) (tr : Transition) :
    (applyInPlace tr).run m = .ok (m.state.apply tr).1 { m with
      state := (m.state.apply tr).2
      history := if m.settings.recordTrace then (m.state.apply tr).1 :: m.history
        else m.history } := by
  cases htrace : m.settings.recordTrace with
  | true => simp [applyInPlace, htrace, writeCell, Configuration.apply]
  | false => simp [applyInPlace, htrace, writeCell, Configuration.apply]

theorem run_stepInPlace_of_ok {r : Record} (h : m.step = .ok (r, m')) :
    stepInPlace.run m = .ok r m' := by
  obtain ⟨hrunning, tr, hnext⟩ := running_of_step h
  obtain ⟨rfl, rfl⟩ := Prod.mk.inj (Except.ok.inj ((step_eq_ok hrunning hnext).symm.trans h))
  simp only [stepInPlace, EStateM.run_bind, EStateM.run_get, hrunning, hnext]
  exact run_applyInPlace m tr

/-- A step that fails does so before it changes anything. -/
theorem run_stepInPlace_of_error {fault : Fault} (h : m.step = .error fault) :
    stepInPlace.run m = .error fault m := by
  simp only [stepInPlace, EStateM.run_bind, EStateM.run_get]
  cases hhalted : m.halted with
  | true =>
    obtain rfl := Except.error.inj ((step_of_halted hhalted).symm.trans h)
    rfl
  | false =>
    cases hnext : m.next? with
    | none =>
      obtain rfl := Except.error.inj ((step_of_stuck hhalted hnext).symm.trans h)
      rfl
    | some tr => simp [step_eq_ok hhalted hnext] at h

/-- For every machine, wherever it stands, and all `a` and `b`: a run of at most `a` steps that accepts
or is stuck ends in the same way and place with `b` steps more. One that reports its limit has taken
exactly `a` steps without accepting, and another run of at most `b` steps then ends as a single one of at
most `a + b` would have, but for the limit that is reported. A step, taken in place, that fails leaves
the machine as it was. -/
theorem limit_only_pauses (m : Machine) (a b : Nat) :
    (∀ m', m.run (some a) = (none, m') →
      m'.halted = true ∧ (∃ k ≤ a, m.stepped k = .ok m') ∧
        m.run (some ↑(a + b)) = (none, m')) ∧
    (∀ key symbol head step m', m.run (some a) = (some (.stuck key symbol head step), m') →
      m'.step = .error (.stuck key symbol head step) ∧ (∃ k < a, m.stepped k = .ok m') ∧
        m.run (some ↑(a + b)) = (some (.stuck key symbol head step), m')) ∧
    (∀ bound key step m', m.run (some a) = (some (.stepLimit bound key step), m') →
      m.stepped a = .ok m' ∧ m'.state.steps = m.state.steps + a ∧ m'.halted = false ∧
        m.run (some ↑(a + b)) =
          ((m'.run (some b)).1.map (Fault.withLimit ↑(a + b)), (m'.run (some b)).2)) ∧
    (∀ record m', m.step = .ok (record, m') → stepInPlace.run m = .ok record m') ∧
    ∀ fault, m.step = .error fault → stepInPlace.run m = .error fault m := by
  simp only [run_natCast]
  refine ⟨?_, ?_, ?_, fun _ _ => run_stepInPlace_of_ok, fun _ => run_stepInPlace_of_error⟩
  · intro m' hrun
    obtain ⟨n, hstepped, hending⟩ := ending_of_runFor hrun
    cases hending with
    | accepted hle hhalted =>
      exact ⟨hhalted, ⟨n, hle, hstepped⟩, runFor_add_of_ended hrun (by simp) _ b⟩
  · intro key symbol head step m' hrun
    obtain ⟨n, hstepped, hending⟩ := ending_of_runFor hrun
    cases hending with
    | stuck hlt hrunning hnext =>
      exact ⟨step_of_stuck hrunning hnext, ⟨n, hlt, hstepped⟩,
        runFor_add_of_ended hrun (by simp) _ b⟩
  · intro bound key step m' hrun
    obtain ⟨hstepped, hrunning, _⟩ := stepped_of_limited hrun
    refine ⟨hstepped, steps_of_stepped hstepped, hrunning, ?_⟩
    rw [runFor_of_stepped hstepped]
    exact runFor_withLimit _ _ b m'

def ramble : String := "start = walk\nwalk 1 = 0; walk next\nwalk 0 = 1; finish prev\n"

def recording (t : Table) (text : String) : Machine := .new t (.ofText text) ⟨100, true, 5⟩

set_option maxRecDepth 20000 in
theorem limit_only_pauses_ramble : ∃ p t, Program.parse ramble "ramble" = .ok p ∧ p.expand = .ok t ∧
    (∃ m', (recording t "110").run (some 3) = (none, m') ∧
      (recording t "110").run (some 9) = (none, m')) ∧
    (∃ m' fault, (recording t "11").run (some 3) = (some fault, m') ∧
      (recording t "11").run (some 4) = (some fault, m') ∧ stepInPlace.run m' = .error fault m') ∧
    ∃ m', (recording t "11").run (some 1) = (some (.stepLimit 1 (.atom "walk") 1), m') ∧
      m'.state.steps = 1 ∧ m'.halted = false ∧ (recording t "11").run (some 3) =
        ((m'.run (some 2)).1.map (Fault.withLimit 3), (m'.run (some 2)).2) := by
  obtain ⟨p, hp, hany⟩ := exists_ok_of_any (x := Program.parse ramble "ramble")
    (t := fun p => p.expand.toOption.any fun t =>
      ((recording t "110").run (some 3)).1 == none &&
      ((recording t "11").run (some 3)).1 == some (.stuck (.atom "walk") .blank 2 2) &&
      ((recording t "11").run (some 1)).1 == some (.stepLimit 1 (.atom "walk") 1)) (by decide_cbv)
  obtain ⟨t, ht, hruns⟩ := exists_ok_of_any hany
  obtain ⟨⟨haccepts, hstuck⟩, hpauses⟩ : (((recording t "110").run (some 3)).1 = none ∧
      ((recording t "11").run (some 3)).1 = some (.stuck (.atom "walk") .blank 2 2)) ∧
      ((recording t "11").run (some 1)).1 = some (.stepLimit 1 (.atom "walk") 1) := by
    simpa using hruns
  have haccept := (limit_only_pauses (recording t "110") 3 6).1 _ (Prod.ext haccepts rfl)
  have hrefuse := (limit_only_pauses (recording t "11") 3 1).2.1 _ _ _ _ _ (Prod.ext hstuck rfl)
  have hpause := (limit_only_pauses (recording t "11") 1 2).2.2.1 _ _ _ _ (Prod.ext hpauses rfl)
  have hstay := (limit_only_pauses ((recording t "11").run (some 3)).2 0 0).2.2.2.2 _ hrefuse.1
  exact ⟨p, t, hp, ht, ⟨_, Prod.ext haccepts rfl, haccept.2.2⟩,
    ⟨_, _, Prod.ext hstuck rfl, hrefuse.2.2, hstay⟩,
    _, Prod.ext hpauses rfl, hpause.2.1, hpause.2.2.1, hpause.2.2.2⟩

end Machine

end GenericTuring
