import GenericTuring.Proofs.Limits
import Mathlib

/-!
The trace of a machine that records its steps. Whatever calls are made, successful or not, the trace tells
the whole computation since the machine was made or last reset: its records follow one another, and what
they say, done again from the start, leads to where the machine is.
-/

namespace GenericTuring

namespace Record

def redo (c : Configuration) (r : Record) : Configuration :=
  -- It does not matter in which state and where the head was before.
  ⟨r.transition.target, c.tape.write r.headBefore r.transition.write, r.headAfter, r.step⟩

structure Valid (t : Table) (tape : Tape) (r : Record) : Prop where
  read_eq : r.read = tape.read r.headBefore
  lookup_eq : t.lookup r.key r.read = some r.transition
  headAfter_eq : r.headAfter = r.headBefore + r.transition.move.offset
  running : r.key ≠ Key.finish

end Record

def replay (t : Table) (tape : Tape) (records : List Record) : Configuration :=
  records.foldl Record.redo (.initial t tape)

theorem replay_concat (t : Table) (tape : Tape) (records : List Record) (r : Record) :
    replay t tape (records ++ [r]) = Record.redo (replay t tape records) r := by
  simp [replay]

structure Chronicle (t : Table) (tape : Tape) (records : List Record) (c : Configuration) : Prop where
  length_eq : records.length = c.steps
  numbered : ∀ before r, before ++ [r] <+: records → r.step = before.length + 1
  first : ∀ r ∈ records.head?, r.key = t.start ∧ r.headBefore = 0
  next : records.IsChain fun r s => s.key = r.transition.target ∧ s.headBefore = r.headAfter
  valid : ∀ before r, before ++ [r] <+: records → r.Valid t (replay t tape before).tape
  replay_eq : replay t tape records = c

namespace Chronicle

variable {t : Table} {tape : Tape} {records : List Record} {c : Configuration}

theorem initial (t : Table) (tape : Tape) : Chronicle t tape [] (.initial t tape) where
  length_eq := rfl
  numbered := by simp
  first := by simp
  next := by simp
  valid := by simp
  replay_eq := rfl

/-- The computation goes on from where the last record ends. -/
theorem of_getLast? (h : Chronicle t tape records c) {r : Record} (hr : records.getLast? = some r) :
    c.key = r.transition.target ∧ c.head = r.headAfter := by
  obtain ⟨before, rfl⟩ := List.getLast?_eq_some_iff.1 hr
  rw [← h.replay_eq, replay_concat]
  exact ⟨rfl, rfl⟩

/-- A transition that applies adds its record. -/
theorem step (h : Chronicle t tape records c) (hrunning : c.halted = false) {tr : Transition}
    (hnext : c.next? t = some tr) :
    Chronicle t tape (records ++ [(c.apply tr).1]) (c.apply tr).2 where
  length_eq := by
    rw [List.length_append, h.length_eq]
    rfl
  numbered := by
    intro before r hr
    cases List.prefix_concat_iff.1 hr with
    | inl hnew =>
      obtain ⟨rfl, hsame⟩ := List.append_inj' hnew rfl
      obtain rfl := List.singleton_inj.1 hsame
      rw [h.length_eq]
      rfl
    | inr hold => exact h.numbered before r hold
  first := by
    intro r hr
    cases records with
    | nil =>
      obtain rfl : (c.apply tr).1 = r := by simpa using hr
      rw [← h.replay_eq]
      exact ⟨rfl, rfl⟩
    | cons first others => exact h.first r (by simpa using hr)
  next := by
    refine List.isChain_append.2 ⟨h.next, by simp, fun r hr s hs => ?_⟩
    obtain rfl : (c.apply tr).1 = s := by simpa using hs
    exact h.of_getLast? hr
  valid := by
    intro before r hr
    cases List.prefix_concat_iff.1 hr with
    | inl hnew =>
      obtain ⟨rfl, hsame⟩ := List.append_inj' hnew rfl
      obtain rfl := List.singleton_inj.1 hsame
      rw [h.replay_eq]
      refine ⟨rfl, hnext, rfl, ?_⟩
      intro hfinish
      have hhalted : c.halted = true := beq_iff_eq.2 hfinish
      simp [hrunning] at hhalted
    | inr hold => exact h.valid before r hold
  replay_eq := by
    rw [replay_concat, h.replay_eq]
    rfl

end Chronicle

namespace Machine

inductive Call where
  | step
  | run (limit : Option Int)
  | reset (tape : Option Tape)

def perform (m : Machine) : Call → Machine
  -- A step that fails changes nothing, and a run that fails stays where it ended.
  | .step => match m.step with
    | .ok (_, next) => next
    | .error _ => m
  | .run limit => (m.run limit).2
  | .reset tape => m.reset tape

def performAll (m : Machine) (calls : List Call) : Machine := calls.foldl perform m

def Call.putIn (tape : Tape) : Call → Tape
  | .reset new? => new?.getD tape
  | _ => tape

def lastTape (tape : Tape) (calls : List Call) : Tape := calls.foldl Call.putIn tape

structure Recorded (t : Table) (tape : Tape) (m : Machine) : Prop where
  table_eq : m.table = t
  initialTape_eq : m.initialTape = tape
  records : m.settings.recordTrace = true
  chronicle : Chronicle t tape m.trace m.state

variable {t : Table} {tape : Tape} {m m' : Machine}

theorem recorded_new (t : Table) (tape : Tape) {settings : Settings}
    (h : settings.recordTrace = true) : (new t tape settings).Recorded t tape :=
  ⟨rfl, rfl, h, .initial t tape⟩

theorem Recorded.step (h : m.Recorded t tape) {r : Record} (hstep : m.step = .ok (r, m')) :
    m'.Recorded t tape := by
  obtain ⟨hrunning, tr, hnext⟩ := running_of_step hstep
  have hsome : m.state.next? t = some tr := h.table_eq ▸ hnext
  obtain ⟨_, rfl⟩ := Prod.mk.inj (Except.ok.inj ((step_eq_ok hrunning hnext).symm.trans hstep))
  refine ⟨h.table_eq, h.initialTape_eq, h.records, ?_⟩
  simpa [trace, h.records] using h.chronicle.step hrunning hsome

theorem Recorded.stepped (h : m.Recorded t tape) {n : Nat} (hstepped : m.stepped n = .ok m') :
    m'.Recorded t tape := by
  induction n generalizing m with
  | zero =>
    obtain rfl : m = m' := Except.ok.inj hstepped
    exact h
  | succ n ih =>
    obtain ⟨r, next, hstep, hrest⟩ := exists_step_of_stepped hstepped
    exact ih (h.step hstep) hrest

theorem Recorded.run (h : m.Recorded t tape) (limit : Option Int) : (m.run limit).2.Recorded t tape := by
  obtain ⟨n, fault?, m', hrun, hstepped, _⟩ :=
    exists_ending (limit.getD m.settings.maxSteps) (limit.getD m.settings.maxSteps).toNat m
  rw [Machine.run, hrun]
  exact h.stepped hstepped

theorem Recorded.reset (h : m.Recorded t tape) (new? : Option Tape) :
    (m.reset new?).Recorded t (new?.getD tape) := by
  rw [Machine.reset, h.table_eq, h.initialTape_eq]
  exact recorded_new t _ h.records

theorem Recorded.perform (h : m.Recorded t tape) (call : Call) :
    (m.perform call).Recorded t (call.putIn tape) := by
  cases call with
  | step =>
    cases hstep : m.step with
    | error fault => simpa [Machine.perform, Call.putIn, hstep] using h
    | ok moved => simpa [Machine.perform, Call.putIn, hstep] using h.step hstep
  | run limit => exact h.run limit
  | reset new? => exact h.reset new?

theorem Recorded.performAll (h : m.Recorded t tape) (calls : List Call) :
    (m.performAll calls).Recorded t (lastTape tape calls) := by
  induction calls generalizing m tape with
  | nil => exact h
  | cons call calls ih => exact ih (h.perform call)

/-- For every machine that records its steps, and whatever calls are made, successful or not: the trace
has a record for each step since the machine was made or last reset, numbered from one. The first starts
in the start state at position zero, and each starts where the one before it ends. Each is that of a
transition of the table for the symbol that the tape holds by then, and moves the head as it says. All of
them, done again from the tape that was last put in, lead to the configuration of the machine. -/
theorem trace_tells_computation (table : Table) (tape : Tape) (settings : Settings)
    (hrecord : settings.recordTrace = true) (calls : List Call) :
    Chronicle table (lastTape tape calls) ((new table tape settings).performAll calls).trace
      ((new table tape settings).performAll calls).state :=
  ((recorded_new table tape hrecord).performAll calls).chronicle

def patrol : String := "start = out<finish>\nout<k> 1 = 0; out<k> next\nout<k> 0 = 'x'; k prev\n"

def patrolCalls : List Call :=
  -- A step, a run that is stuck, a step that fails, a new tape, a run that accepts, a step that fails.
  [.step, .run (some 9), .step, .reset (some (.ofText "10")), .run none, .step]

set_option maxRecDepth 20000 in
theorem trace_tells_computation_patrol : ∃ p t m, Program.parse patrol "patrol" = .ok p ∧
    p.expand = .ok t ∧ (recording t "11").performAll patrolCalls = m ∧
    (recording t "11").settings.recordTrace = true ∧
    m.trace.map (fun r => (r.step, r.read.spelling, r.headBefore, r.headAfter)) =
      [(1, "1", 0, 1), (2, "0", 1, 0)] ∧
    Chronicle t (.ofText "10") m.trace m.state := by
  obtain ⟨p, hp, hany⟩ := exists_ok_of_any (x := Program.parse patrol "patrol")
    (t := fun p => p.expand.toOption.any fun t =>
      ((recording t "11").performAll patrolCalls).trace.map
        (fun r => (r.step, r.read.spelling, r.headBefore, r.headAfter)) ==
          [(1, "1", 0, 1), (2, "0", 1, 0)]) (by decide_cbv)
  obtain ⟨t, ht, hrecords⟩ := exists_ok_of_any hany
  exact ⟨p, t, _, hp, ht, rfl, rfl, by simpa using hrecords,
    trace_tells_computation t (.ofText "11") ⟨100, true, 5⟩ rfl patrolCalls⟩

end Machine

end GenericTuring
