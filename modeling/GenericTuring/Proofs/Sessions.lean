import GenericTuring.Proofs.Advances
import GenericTuring.Proofs.Entries

/-!
Sessions with a debugger: any calls, one after the other. What a call can do is said once, case by case;
from that it follows, for every session, that the status tells the truth about the machine, that no call
to go on fails, and that no breakpoint gets a number that another one had.
-/

namespace GenericTuring

namespace Debugger

inductive Call where
  | step
  | resume (limit : Option Int)
  | add (watch : Watch)
  | clear (selection : Selection)
  | inspect (radius : Option Int)
  | reset (tape : Option String)
  deriving DecidableEq, Repr

def Call.goesOn : Call → Bool
  | step | resume _ => true
  | _ => false

def Call.isReset : Call → Bool
  | reset _ => true
  | _ => false

inductive Answer where
  | outcome (o : Outcome)
  | added (b : Breakpoint)
  | cleared (removed : List Breakpoint)
  | refused (e : BreakpointError)
  | snapshot (s : Snapshot)
  | done
  /-- A fault that the debugger does not handle. -/
  | escaped (fault : Fault)

def Answer.addedId? : Answer → Option Nat
  | added b => some b.id
  | _ => none

def report (d : Debugger) : Except Fault (Outcome × Debugger) → Answer × Debugger
  | .ok (o, d) => (.outcome o, d)
  | .error fault => (.escaped fault, d)

def settled {α : Type} (answer : α → Answer) :
    EStateM.Result BreakpointError Debugger α → Answer × Debugger
  | .ok value d => (answer value, d)
  | .error e d => (.refused e, d)

def perform (d : Debugger) : Call → Answer × Debugger
  | .step => d.report d.step
  | .resume limit => d.report (d.resume limit)
  | .add watch => settled .added ((addBreakpoint watch).run d)
  | .clear selection => settled .cleared ((clearBreakpoints selection).run d)
  | .inspect radius => (.snapshot (d.inspect radius), d)
  | .reset tape => (.done, d.reset tape)

def after (d : Debugger) : List Call → Debugger
  | [] => d
  | call :: calls => (d.perform call).2.after calls

def answers (d : Debugger) : List Call → List Answer
  | [] => []
  | call :: calls => (d.perform call).1 :: (d.perform call).2.answers calls

structure Truthful (d : Debugger) : Prop where
  accepted_iff : d.status = .accepted ↔ d.machine.halted = true
  stuck : d.status = .stuck → d.machine.halted = false ∧ d.machine.next? = none ∧
    d.fault = some (.stuck d.machine.state.key d.machine.state.symbol d.machine.state.head
      d.machine.state.steps)
  stepLimit : d.status = .stepLimit → d.machine.halted = false ∧
    ∃ limit, d.fault = some (.stepLimit limit d.machine.state.key d.machine.state.steps)
  fault_iff : d.fault.isSome = true ↔ d.status = .stuck ∨ d.status = .stepLimit

structure Sound (d : Debugger) : Prop where
  truthful : d.Truthful
  numbered : d.Numbered

variable {d d' : Debugger} {limit : Option Int} {budget n : Nat} {o : Outcome}

/-- A machine that has just been started has its status, and no fault. -/
theorem truthful_fresh (m : Machine) (entries : List (Int × Breakpoint)) (nextId : Nat) :
    Truthful ⟨m, entries, nextId, freshStatus m, none⟩ := by
  cases hhalted : m.halted with
  | true =>
    have hstatus : freshStatus m = .accepted := by simp [freshStatus, hhalted]
    rw [hstatus]
    exact ⟨by simp [hhalted], by simp, by simp, by simp⟩
  | false =>
    have hstatus : freshStatus m = .running := by simp [freshStatus, hhalted]
    rw [hstatus]
    exact ⟨by simp [hhalted], by simp, by simp, by simp⟩

theorem sound_new (table : Table) (tape : String) (settings : Settings) :
    (new table tape settings).Sound :=
  ⟨truthful_fresh _ _ _, ⟨by simp [new], by simp [new, breakpoints], by simp [new, breakpoints]⟩⟩

/-- However an advance ends, the status it leaves is true. -/
theorem Advanced.truthful (h : Advanced limit budget d n o d') : d'.Truthful := by
  obtain ⟨status, taken, last, hit, fault⟩ := o
  have hending := h.ending
  rw [h.eq]
  cases hending with
  | accepted hpos hle hhalted => exact ⟨by simp [hhalted], by simp, by simp, by simp⟩
  | breakpoint hpos hle hrunning hstop => exact ⟨by simp [hrunning], by simp, by simp, by simp⟩
  | stuck hlt hrunning hclear hnext =>
    exact ⟨by simp [hrunning], fun _ => ⟨hrunning, hnext, rfl⟩, by simp, by simp⟩
  | paused hall hrunning hlimit => exact ⟨by simp [hrunning], by simp, by simp, by simp⟩
  | exhausted hall hrunning hclear hlimit =>
    exact ⟨by simp [hrunning], by simp, fun _ => ⟨hrunning, _, rfl⟩, by simp⟩

theorem Truthful.of_same (h : d.Truthful) (hmachine : d'.machine = d.machine)
    (hstatus : d'.status = d.status) (hfault : d'.fault = d.fault) : d'.Truthful := by
  refine ⟨?_, ?_, ?_, ?_⟩
  · rw [hstatus, hmachine]; exact h.accepted_iff
  · rw [hstatus, hmachine, hfault]; exact h.stuck
  · rw [hstatus, hmachine, hfault]; exact h.stepLimit
  · rw [hstatus, hfault]; exact h.fault_iff

/-- A session that is not over can go on: its machine has not accepted, and no fault is on record. -/
theorem Truthful.of_open (h : d.Truthful) (hopen : d.status.isFinished = false) :
    d.machine.halted = false ∧ d.fault = none := by
  constructor
  · cases hhalted : d.machine.halted with
    | false => rfl
    | true => simp [h.accepted_iff.2 hhalted, Status.isFinished] at hopen
  · cases hfault : d.fault with
    | none => rfl
    | some fault =>
      cases h.fault_iff.1 (by simp [hfault]) with
      | inl hstuck => simp [hstuck, Status.isFinished] at hopen
      | inr hlimit => simp [hlimit, Status.isFinished] at hopen

theorem exists_advance (h : d.Truthful) (hopen : d.status.isFinished = false) (limit : Option Int)
    (budget : Nat) :
    ∃ o d', d.advance limit budget = .ok (o, d') ∧ Advanced limit budget d o.taken o d' := by
  obtain ⟨hrunning, hfault⟩ := h.of_open hopen
  obtain ⟨n, o, d', hadvance, htaken, hadvanced⟩ :=
    exists_advanceFor (d := { d with status := .running }) hrunning rfl hfault limit budget 0 none
  obtain rfl : o.taken = n := by omega
  refine ⟨o, d', by simpa [advance, hopen] using hadvance, ?_⟩
  exact ⟨hadvanced.stepped_eq, hadvanced.passed, hadvanced.ending, hadvanced.eq⟩

theorem advance_of_finished (hover : d.status.isFinished = true) (limit : Option Int)
    (budget : Nat) : d.advance limit budget = .ok ({ status := d.status, fault := d.fault }, d) := by
  simp [advance, hover]

inductive Effect (d : Debugger) : Call → Answer → Debugger → Prop
  | advanced {call : Call} {limit : Option Int} {budget : Nat} {o : Outcome} {d' : Debugger}
      (hcall : call.goesOn = true) (hopen : d.status.isFinished = false)
      (h : Advanced limit budget d o.taken o d') : Effect d call (.outcome o) d'
  | idle {call : Call} (hcall : call.goesOn = true) (hover : d.status.isFinished = true) :
      Effect d call (.outcome { status := d.status, fault := d.fault }) d
  | added (watch : Watch) : Effect d (.add watch) (.added ⟨d.nextId, watch⟩) (d.watching watch)
  | cleared (selection : Selection) : Effect d (.clear selection)
      (.cleared (d.breakpoints.filter selection.selects)) (d.without selection)
  | refused {call : Call} (hcall : call.isReset = false) (e : BreakpointError) :
      Effect d call (.refused e) d
  | inspected (radius : Option Int) : Effect d (.inspect radius) (.snapshot (d.inspect radius)) d
  | reset (tape : Option String) : Effect d (.reset tape) .done (d.reset tape)

theorem effect_report (h : d.Truthful) {call : Call} (hcall : call.goesOn = true)
    (limit : Option Int) (budget : Nat) :
    Effect d call (d.report (d.advance limit budget)).1 (d.report (d.advance limit budget)).2 := by
  cases hover : d.status.isFinished with
  | true =>
    rw [advance_of_finished hover]
    exact .idle hcall hover
  | false =>
    obtain ⟨o, d', hadvance, hadvanced⟩ := exists_advance h hover limit budget
    rw [hadvance]
    exact .advanced hcall hover hadvanced

theorem effect_perform (h : d.Sound) (call : Call) :
    Effect d call (d.perform call).1 (d.perform call).2 := by
  cases call with
  | step => exact effect_report h.truthful rfl none 1
  | resume limit => exact effect_report h.truthful rfl _ _
  | add watch =>
    by_cases htakes : d.Takes watch
    · simp only [perform, run_addBreakpoint_of_takes h.numbered htakes]
      exact .added watch
    · obtain ⟨e, he⟩ := run_addBreakpoint_of_not_takes htakes
      simp only [perform, he]
      exact .refused rfl e
  | clear selection =>
    by_cases hoffers : d.Offers selection
    · simp only [perform, run_clearBreakpoints_of_offers h.numbered hoffers]
      exact .cleared selection
    · obtain ⟨e, he⟩ := run_clearBreakpoints_of_not_offers h.numbered hoffers
      simp only [perform, he]
      exact .refused rfl e
  | inspect radius => exact .inspected radius
  | reset tape => exact .reset tape

variable {call : Call} {answer : Answer}

theorem Effect.truthful (heffect : Effect d call answer d') (h : d.Truthful) : d'.Truthful := by
  cases heffect with
  | advanced _ _ hadvanced => exact hadvanced.truthful
  | idle => exact h
  | added watch => exact h.of_same rfl rfl rfl
  | cleared selection => exact h.of_same rfl rfl rfl
  | refused => exact h
  | inspected radius => exact h
  | reset tape => exact truthful_fresh _ _ _

theorem Effect.numbered (heffect : Effect d call answer d') (h : d.Numbered) : d'.Numbered := by
  cases heffect with
  | advanced _ _ hadvanced =>
    rw [hadvanced.eq]
    exact ⟨h.stored, h.increasing, h.below⟩
  | idle => exact h
  | added watch => exact h.add watch
  | cleared selection => exact h.clear selection
  | refused => exact h
  | inspected radius => exact h
  | reset tape => exact ⟨h.stored, h.increasing, h.below⟩

theorem Effect.sound (heffect : Effect d call answer d') (h : d.Sound) : d'.Sound :=
  ⟨heffect.truthful h.truthful, heffect.numbered h.numbered⟩

theorem sound_after (h : d.Sound) (calls : List Call) : (d.after calls).Sound := by
  induction calls generalizing d with
  | nil => exact h
  | cons call calls ih => exact ih ((effect_perform h call).sound h)

theorem Effect.nextId_cases (heffect : Effect d call answer d') :
    (answer.addedId? = none ∧ d'.nextId = d.nextId) ∨
      (answer.addedId? = some d.nextId ∧ d'.nextId = d.nextId + 1) := by
  cases heffect with
  | advanced _ _ hadvanced => exact .inl ⟨rfl, by rw [hadvanced.eq]⟩
  | idle => exact .inl ⟨rfl, rfl⟩
  | added watch => exact .inr ⟨rfl, rfl⟩
  | cleared selection => exact .inl ⟨rfl, rfl⟩
  | refused => exact .inl ⟨rfl, rfl⟩
  | inspected radius => exact .inl ⟨rfl, rfl⟩
  | reset tape => exact .inl ⟨rfl, rfl⟩

/-- The numbers that a session gives to breakpoints follow one another from the next one on. -/
theorem exists_addedIds_eq (h : d.Sound) (calls : List Call) :
    ∃ count, (d.answers calls).filterMap Answer.addedId? = List.range' d.nextId count := by
  induction calls generalizing d with
  | nil => exact ⟨0, rfl⟩
  | cons call calls ih =>
    have heffect := effect_perform h call
    obtain ⟨count, hcount⟩ := ih (heffect.sound h)
    cases heffect.nextId_cases with
    | inl hkept => exact ⟨count, by simp [answers, hkept.1, hcount, hkept.2]⟩
    | inr hgiven =>
      exact ⟨count + 1, by simp [answers, hgiven.1, hcount, hgiven.2, List.range'_succ]⟩

theorem Effect.of_finished (heffect : Effect d call answer d') (hover : d.status.isFinished = true)
    (hcall : call.isReset = false) :
    d'.machine = d.machine ∧ d'.status = d.status ∧ d'.fault = d.fault := by
  cases heffect with
  | advanced _ hopen _ => simp [hover] at hopen
  | idle => exact ⟨rfl, rfl, rfl⟩
  | added watch => exact ⟨rfl, rfl, rfl⟩
  | cleared selection => exact ⟨rfl, rfl, rfl⟩
  | refused => exact ⟨rfl, rfl, rfl⟩
  | inspected radius => exact ⟨rfl, rfl, rfl⟩
  | reset tape => simp [Call.isReset] at hcall

/-- A session that is over stays as it is until it is reset. -/
theorem after_of_finished (h : d.Sound) (hover : d.status.isFinished = true) {calls : List Call}
    (hcalls : ∀ call ∈ calls, call.isReset = false) :
    (d.after calls).machine = d.machine ∧ (d.after calls).status = d.status ∧
      (d.after calls).fault = d.fault := by
  induction calls generalizing d with
  | nil => exact ⟨rfl, rfl, rfl⟩
  | cons call calls ih =>
    have heffect := effect_perform h call
    obtain ⟨hmachine, hstatus, hfault⟩ := heffect.of_finished hover (hcalls call List.mem_cons_self)
    obtain ⟨hmachine', hstatus', hfault'⟩ := ih (heffect.sound h) (hstatus ▸ hover)
      fun later hlater => hcalls later (List.mem_cons_of_mem call hlater)
    exact ⟨hmachine'.trans hmachine, hstatus'.trans hstatus, hfault'.trans hfault⟩

theorem Effect.eq_of_refused {e : BreakpointError} (heffect : Effect d call (.refused e) d') :
    d' = d := by
  cases heffect
  rfl

/-- Whatever is asked of a debugger, on any table, tape and settings, and in any order: its status and
its fault tell the truth about its machine; it can be told to go on without a fault escaping; once it is
over, going on changes nothing and takes no step until it is reset; its breakpoints are kept under their
own numbers and in their order, and the numbers are given one after the other from one on; and a call that
is refused, wherever it breaks off, leaves the debugger as it was. -/
theorem session_consistent (table : Table) (tape : String) (settings : Settings)
    (calls : List Call) :
    let fresh := new table tape settings
    let d := fresh.after calls
    d.Truthful ∧ d.Numbered ∧
    ((∃ o d', d.step = .ok (o, d')) ∧ ∀ limit, ∃ o d', d.resume limit = .ok (o, d')) ∧
    (d.status.isFinished = true → ∀ more : List Call, (∀ call ∈ more, call.isReset = false) →
      let e := d.after more
      e.machine = d.machine ∧ e.status = d.status ∧ e.fault = d.fault ∧
        e.step = .ok ({ status := d.status, fault := d.fault }, e) ∧
        ∀ limit, e.resume limit = .ok ({ status := d.status, fault := d.fault }, e)) ∧
    (∃ count, (fresh.answers calls).filterMap Answer.addedId? = List.range' 1 count) ∧
    ∀ call e, (d.perform call).1 = .refused e → (d.perform call).2 = d := by
  intro fresh d
  have h : d.Sound := sound_after (sound_new table tape settings) calls
  have hgo : ∀ limit budget, ∃ o d', d.advance limit budget = .ok (o, d') := by
    intro limit budget
    cases hover : d.status.isFinished with
    | true => exact ⟨_, _, advance_of_finished hover limit budget⟩
    | false =>
      obtain ⟨o, d', hadvance, _⟩ := exists_advance h.truthful hover limit budget
      exact ⟨o, d', hadvance⟩
  refine ⟨h.truthful, h.numbered, ⟨hgo none 1, fun limit => hgo _ _⟩, ?_, ?_, ?_⟩
  · intro hover more hmore e
    obtain ⟨hmachine, hstatus, hfault⟩ := after_of_finished h hover hmore
    have hsame : ∀ limit budget,
        e.advance limit budget = .ok ({ status := d.status, fault := d.fault }, e) := by
      intro limit budget
      rw [advance_of_finished (hstatus ▸ hover), hstatus, hfault]
    exact ⟨hmachine, hstatus, hfault, hsame none 1, fun limit => hsame _ _⟩
  · exact exists_addedIds_eq (sound_new table tape settings) calls
  · intro call e hanswer
    have heffect := effect_perform h call
    rw [hanswer] at heffect
    exact heffect.eq_of_refused

end Debugger

end GenericTuring
