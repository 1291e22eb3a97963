import GenericTuring.Debugger
import GenericTuring.Proofs.Steps

/-!
What a debugger does when it goes on. It takes steps of its machine, passes by every configuration that
it does not stop at, and ends in one of five ways; apart from machine, status and fault it stays as it
was.
-/

namespace GenericTuring

namespace Debugger

def stopping? (breakpoints : List Breakpoint) (limit : Option Int) (m : Machine) :
    Option Breakpoint :=
  if limit.isSome then breakpoints.find? (matchesNow m) else none

inductive Ending (breakpoints : List Breakpoint) (limit : Option Int) (budget n : Nat) (m : Machine) :
    Status → Option Breakpoint → Option Fault → Prop
  | accepted (hpos : 0 < n) (hle : n ≤ budget) (hhalted : m.halted = true) :
      Ending breakpoints limit budget n m .accepted none none
  | breakpoint {b : Breakpoint} (hpos : 0 < n) (hle : n ≤ budget) (hrunning : m.halted = false)
      (hstop : stopping? breakpoints limit m = some b) :
      Ending breakpoints limit budget n m .breakpoint (some b) none
  | stuck (hlt : n < budget) (hrunning : m.halted = false)
      (hclear : 0 < n → stopping? breakpoints limit m = none) (hnext : m.next? = none) :
      Ending breakpoints limit budget n m .stuck none
        (some (.stuck m.state.key m.state.symbol m.state.head m.state.steps))
  | paused (hall : n = budget) (hrunning : m.halted = false) (hlimit : limit = none) :
      Ending breakpoints limit budget n m .running none none
  | exhausted {bound : Int} (hall : n = budget) (hrunning : m.halted = false)
      (hclear : 0 < n → stopping? breakpoints limit m = none) (hlimit : limit = some bound) :
      Ending breakpoints limit budget n m .stepLimit none
        (some (.stepLimit bound m.state.key m.state.steps))

variable {breakpoints : List Breakpoint} {limit : Option Int} {budget n : Nat} {m : Machine}
  {status : Status} {hit : Option Breakpoint} {fault : Option Fault}

/-- An ending stays one after a step more, taken before all others to a configuration that is passed. -/
theorem Ending.succ (h : Ending breakpoints limit budget n m status hit fault)
    (hfirst : n = 0 → stopping? breakpoints limit m = none) :
    Ending breakpoints limit (budget + 1) (n + 1) m status hit fault := by
  have hclear : (0 < n → stopping? breakpoints limit m = none) →
      stopping? breakpoints limit m = none := by
    intro hlater
    cases n with
    | zero => exact hfirst rfl
    | succ n => exact hlater n.succ_pos
  cases h with
  | accepted _ hle hhalted => exact .accepted n.succ_pos (by omega) hhalted
  | breakpoint _ hle hrunning hstop => exact .breakpoint n.succ_pos (by omega) hrunning hstop
  | stuck hlt hrunning hlater hnext =>
    exact .stuck (by omega) hrunning (fun _ => hclear hlater) hnext
  | paused hall hrunning hlimit => exact .paused (by omega) hrunning hlimit
  | exhausted hall hrunning hlater hlimit =>
    exact .exhausted (by omega) hrunning (fun _ => hclear hlater) hlimit

structure Advanced (limit : Option Int) (budget : Nat) (d : Debugger) (n : Nat) (o : Outcome)
    (d' : Debugger) : Prop where
  stepped_eq : d.machine.stepped n = .ok d'.machine
  passed : ∀ k, 0 < k → k < n → ∃ m, d.machine.stepped k = .ok m ∧ m.halted = false ∧
    stopping? d.breakpoints limit m = none
  ending : Ending d.breakpoints limit budget n d'.machine o.status o.breakpoint o.fault
  eq : d' = { d with machine := d'.machine, status := o.status, fault := o.fault }

/-- A step to a configuration that is passed, and an advance from there, are an advance. -/
theorem Advanced.cons {d d' : Debugger} {r : Record} {o : Outcome} (hstep : d.machine.step = .ok (r, m))
    (hrunning : m.halted = false) (hclear : stopping? d.breakpoints limit m = none)
    (h : Advanced limit budget { d with machine := m } n o d') :
    Advanced limit (budget + 1) d (n + 1) o d' := by
  refine ⟨?_, ?_, ?_, h.eq⟩
  · rw [Machine.stepped_succ hstep]
    exact h.stepped_eq
  · intro k hpos hlt
    obtain ⟨k, rfl⟩ := Nat.exists_eq_succ_of_ne_zero (Nat.ne_of_gt hpos)
    cases k with
    | zero => exact ⟨m, by simp [Machine.stepped, hstep], hrunning, hclear⟩
    | succ k =>
      obtain ⟨passed, hpassed, hrest⟩ := h.passed (k + 1) k.succ_pos (by omega)
      exact ⟨passed, by rw [Machine.stepped_succ hstep]; exact hpassed, hrest⟩
  · refine h.ending.succ fun hzero => ?_
    have hsame : m = d'.machine := by
      have hstepped := h.stepped_eq
      rw [hzero] at hstepped
      exact Except.ok.inj hstepped
    exact hsame ▸ hclear

/-- Going on from a machine that has not accepted never fails. -/
theorem exists_advanceFor {d : Debugger} (hrunning : d.machine.halted = false)
    (hstatus : d.status = .running) (hfault : d.fault = none) (limit : Option Int)
    (budget taken : Nat) (last : Option Record) :
    ∃ n o d', advanceFor limit budget taken last d = .ok (o, d') ∧ o.taken = taken + n ∧
      Advanced limit budget d n o d' := by
  -- the budget falls by one with each step, and the rest of the advance starts from the new machine
  induction budget generalizing taken last d with
  | zero =>
    cases limit with
    | none =>
      refine ⟨0, _, d, rfl, rfl, rfl, by simp, ?_, ?_⟩
      · rw [hstatus]
        exact .paused rfl hrunning rfl
      · simp [← hfault]
    | some bound =>
      exact ⟨0, _, _, rfl, rfl, rfl, by simp, .exhausted rfl hrunning (by simp) rfl, rfl⟩
  | succ budget ih =>
    cases hnext : d.machine.next? with
    | none =>
      have hstep := Machine.step_of_stuck hrunning hnext
      simp only [advanceFor, hstep]
      exact ⟨0, _, _, rfl, rfl, rfl, by simp, .stuck budget.succ_pos hrunning (by simp) hnext, rfl⟩
    | some tr =>
      obtain ⟨m, hstep, _⟩ := Machine.step_of_next hrunning hnext
      have hone : d.machine.stepped 1 = .ok m := by simp [Machine.stepped, hstep]
      have hnone : ∀ k, 0 < k → k < 1 → ∃ passed, d.machine.stepped k = .ok passed ∧
          passed.halted = false ∧ stopping? d.breakpoints limit passed = none := by
        intro k hpos hlt
        omega
      cases hhalted : m.halted with
      | true =>
        simp only [advanceFor, hstep, hhalted, if_true]
        refine ⟨1, _, _, rfl, rfl, hone, hnone, .accepted Nat.one_pos (by omega) hhalted, ?_⟩
        simp [hfault]
      | false =>
        have hfound : (if limit.isSome then ({ d with machine := m } : Debugger).hit? else none) =
            stopping? d.breakpoints limit m := rfl
        simp only [advanceFor, hstep, hhalted, hfound, Bool.false_eq_true, if_false]
        cases hstop : stopping? d.breakpoints limit m with
        | some b =>
          refine ⟨1, _, _, rfl, rfl, hone, hnone, .breakpoint Nat.one_pos (by omega) hhalted hstop, ?_⟩
          simp [hfault]
        | none =>
          obtain ⟨n, o, d', hrest, htaken, hadvanced⟩ :=
            @ih { d with machine := m } hhalted hstatus hfault (taken + 1) _
          exact ⟨n + 1, o, d', hrest, by omega, hadvanced.cons hstep hhalted hstop⟩

end Debugger

end GenericTuring
