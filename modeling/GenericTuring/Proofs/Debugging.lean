import GenericTuring.Proofs.Sessions

/-!
Debugging leaves the computation alone. After any calls the machine of a debugger is a fresh one that has
taken the steps reported; without breakpoints, going on from the start is a run; and a reset makes the
debugger as good as new, breakpoints apart.
-/

namespace GenericTuring

namespace Debugger

def Answer.taken : Answer → Nat
  | outcome o => o.taken
  | _ => 0

def Call.loads (text : String) : Call → String
  | reset (some new) => new
  | _ => text

def loaded (text : String) (calls : List Call) : String := calls.foldl Call.loads text

def reported (d : Debugger) (n : Nat) : List Call → Nat
  | [] => n
  | call :: calls =>
    let (answer, d) := d.perform call
    d.reported (if call.isReset then 0 else n + answer.taken) calls

variable {d d' : Debugger} {call : Call} {answer : Answer} {budget n : Nat} {o : Outcome}
  {table : Table} {settings : Settings} {text : String}

def Follows (table : Table) (settings : Settings) (text : String) (n : Nat) (d : Debugger) : Prop :=
  (Machine.new table (.ofText text) settings).stepped n = .ok d.machine

theorem follows_new (table : Table) (settings : Settings) (text : String) :
    Follows table settings text 0 (new table text settings) := rfl

/-- A reset starts again with the table and the settings of the session, on the tape now loaded. -/
theorem Follows.reset_machine (h : Follows table settings text n d) (tape : Option String) :
    (d.reset tape).machine =
      Machine.new table (.ofText (Call.loads text (.reset tape))) settings := by
  have hmake := Machine.sameMake_of_stepped h
  have hreset : (d.reset tape).machine = Machine.new d.machine.table
      ((tape.map fun text => Tape.ofText text).getD d.machine.initialTape) d.machine.settings := rfl
  rw [hreset, hmake.table_eq, hmake.settings_eq, hmake.initialTape_eq]
  cases tape <;> rfl

/-- Any call but a reset takes as many steps of the machine as its answer says. -/
theorem Effect.stepped_eq (heffect : Effect d call answer d') (hcall : call.isReset = false) :
    d.machine.stepped answer.taken = .ok d'.machine := by
  cases heffect with
  | advanced _ _ hadvanced => exact hadvanced.stepped_eq
  | idle => rfl
  | added watch => rfl
  | cleared selection => rfl
  | refused => rfl
  | inspected radius => rfl
  | reset tape => simp [Call.isReset] at hcall

theorem follows_perform (hsound : d.Sound) (h : Follows table settings text n d)
    (call : Call) : Follows table settings (call.loads text)
      (if call.isReset then 0 else n + (d.perform call).1.taken) (d.perform call).2 := by
  cases hreset : call.isReset with
  | true =>
    obtain ⟨tape, rfl⟩ : ∃ tape, call = .reset tape := by
      cases call with
      | reset tape => exact ⟨tape, rfl⟩
      | _ => simp [Call.isReset] at hreset
    exact congrArg Except.ok (h.reset_machine tape).symm
  | false =>
    have hloads : call.loads text = text := by
      cases call with
      | reset tape => simp [Call.isReset] at hreset
      | _ => rfl
    have hsteps := (effect_perform hsound call).stepped_eq hreset
    rw [hloads]
    exact (Machine.stepped_add h _).trans hsteps

theorem follows_after (hsound : d.Sound) (h : Follows table settings text n d)
    (calls : List Call) :
    Follows table settings (loaded text calls) (d.reported n calls) (d.after calls) := by
  induction calls generalizing d text n with
  | nil => exact h
  | cons call calls ih =>
    exact ih ((effect_perform hsound call).sound hsound) (follows_perform hsound h call)

structure TellsRun (o : Outcome) : Prop where
  finished : o.status.isFinished = true
  accepted_iff : o.status = .accepted ↔ o.fault = none
  stuck_iff : o.status = .stuck ↔ ∃ key symbol head step, o.fault = some (.stuck key symbol head step)
  stepLimit_iff : o.status = .stepLimit ↔ ∃ bound key step, o.fault = some (.stepLimit bound key step)

/-- Without breakpoints, an advance with a limit is a run. -/
theorem Advanced.runFor_eq {limit : Int} (h : Advanced (some limit) budget d n o d')
    (hnone : d.breakpoints = []) :
    d.machine.runFor limit budget = (o.fault, d'.machine) ∧ TellsRun o := by
  obtain ⟨status, taken, last, hit, fault⟩ := o
  have hrun := Machine.runFor_of_stepped h.stepped_eq limit
  cases h.ending with
  | accepted hpos hle hhalted =>
    obtain ⟨rest, rfl⟩ := Nat.exists_eq_add_of_le hle
    refine ⟨?_, ⟨rfl, by simp, by simp, by simp⟩⟩
    rw [hrun, Machine.runFor_of_halted hhalted]
  | breakpoint hpos hle hrunning hstop => simp [stopping?, hnone] at hstop
  | stuck hlt hrunning hclear hnext =>
    obtain ⟨rest, rfl⟩ := Nat.exists_eq_add_of_lt hlt
    refine ⟨?_, ⟨rfl, by simp, by simp, by simp⟩⟩
    rw [Nat.add_assoc, hrun, Machine.runFor_of_stuck hrunning hnext]
  | paused hall hrunning hlimit => simp at hlimit
  | exhausted hall hrunning hclear hlimit =>
    subst hall
    refine ⟨?_, ⟨rfl, by simp, by simp, by simp⟩⟩
    obtain rfl := Option.some.inj hlimit
    rw [← Nat.add_zero n, hrun]
    simp [Machine.runFor, hrunning]

/-- A debugger that has been reset is a new one on the tape now loaded, but for its breakpoints. -/
theorem Follows.reset_eq (h : Follows table settings text n d) (tape : Option String) :
    d.reset tape = { new table (Call.loads text (.reset tape)) settings with
      entries := d.entries, nextId := d.nextId } := by
  have hreset : d.reset tape = ⟨(d.reset tape).machine, d.entries, d.nextId,
    freshStatus (d.reset tape).machine, none⟩ := rfl
  rw [hreset, h.reset_machine]
  rfl

/-- Going on from the start without breakpoints ends as a run does, and where the run ends. -/
theorem resume_new (table : Table) (text : String) (settings : Settings) (limit : Option Int) :
    ∃ o d', (new table text settings).resume limit = .ok (o, d') ∧
      (Machine.new table (.ofText text) settings).run limit = (o.fault, d'.machine) ∧ TellsRun o := by
  cases hover : (new table text settings).status.isFinished with
  | true =>
    have hstatus : (new table text settings).status = .accepted := by
      simp only [new, freshStatus] at hover ⊢
      split
      · rfl
      · simp_all [Status.isFinished]
    have hhalted := (sound_new table text settings).truthful.accepted_iff.1 hstatus
    have hfault : (new table text settings).fault = none := rfl
    refine ⟨_, _, advance_of_finished hover _ _, Machine.runFor_of_halted hhalted _ _, ?_⟩
    exact ⟨hover, by simp [hstatus, hfault], by simp [hstatus, hfault], by simp [hstatus, hfault]⟩
  | false =>
    obtain ⟨o, d', hadvance, hadvanced⟩ :=
      exists_advance (sound_new table text settings).truthful hover (some (limit.getD settings.maxSteps))
        (limit.getD settings.maxSteps).toNat
    exact ⟨o, d', hadvance, hadvanced.runFor_eq rfl⟩

/-- On any table, tape and settings: after any calls the machine of the debugger is that of a fresh
machine, on the tape last loaded, once it has taken the steps reported since then; going on from the start
without breakpoints ends as a run does, in the same state; and after any calls a reset debugger answers
like a new one with the same breakpoints. -/
theorem debugging_keeps_computation (table : Table) (text : String) (settings : Settings) :
    (∀ calls : List Call, let fresh := new table text settings
      (Machine.new table (.ofText (loaded text calls)) settings).stepped (fresh.reported 0 calls) =
        .ok (fresh.after calls).machine) ∧
    (∀ limit, ∃ o d', (new table text settings).resume limit = .ok (o, d') ∧
      (Machine.new table (.ofText text) settings).run limit = (o.fault, d'.machine) ∧ TellsRun o) ∧
    ∀ (calls : List Call) (tape : Option String) (later : List Call),
      let d := (new table text settings).after calls
      let renewed := { new table (tape.getD (loaded text calls)) settings with
        entries := d.entries, nextId := d.nextId }
      (d.reset tape).answers later = renewed.answers later ∧
        (d.reset tape).after later = renewed.after later := by
  have hfollows := follows_after (sound_new table text settings) (follows_new table settings text)
  refine ⟨hfollows, resume_new table text settings, ?_⟩
  intro calls tape later d renewed
  have hreset : d.reset tape = renewed := by
    rw [(hfollows calls).reset_eq]
    cases tape <;> rfl
  rw [hreset]
  exact ⟨rfl, rfl⟩

end Debugger

end GenericTuring
