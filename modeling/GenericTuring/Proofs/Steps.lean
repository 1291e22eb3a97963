import GenericTuring.Machine

/-!
What one step of a machine does, by where the machine is: it has accepted, it has no transition, or it
applies one; and what several steps do, one after the other.
-/

namespace GenericTuring

inductive Standing where
  | halted
  | stuck
  | running
  deriving DecidableEq, Repr

namespace Machine

variable {m : Machine}

def after : (n : Nat) → Machine → Machine
  | 0, m => m
  | n + 1, m =>
    match m.step with
    | .ok (_, m) => after n m
    | .error _ => m

def standing (m : Machine) : Standing :=
  match m.step with
  | .ok _ => .running
  | .error (.halted _) => .halted
  | .error _ => .stuck

theorem halted_iff : m.halted = true ↔ m.state.key = Key.finish := by
  simp [halted, Configuration.halted]

theorem halted_eq_false_iff : m.halted = false ↔ m.state.key ≠ Key.finish := by
  simp [halted, Configuration.halted]

theorem step_of_halted (h : m.halted = true) : m.step = .error (.halted m.state.steps) := by
  have hstate : m.state.halted = true := h
  simp [step, Configuration.step, hstate]

theorem step_of_stuck (h : m.halted = false) (hnext : m.next? = none) :
    m.step = .error (.stuck m.state.key m.state.symbol m.state.head m.state.steps) := by
  have hstate : m.state.halted = false := h
  have hnone : m.state.next? m.table = none := hnext
  simp [step, Configuration.step, hstate, hnone]

theorem step_eq_ok (h : m.halted = false) {tr : Transition} (hnext : m.next? = some tr) :
    m.step = .ok ((m.state.apply tr).1, { m with
      state := (m.state.apply tr).2
      history := if m.settings.recordTrace then (m.state.apply tr).1 :: m.history
        else m.history }) := by
  have hstate : m.state.halted = false := h
  have hsome : m.state.next? m.table = some tr := hnext
  have hstep : m.state.step m.table = .ok (m.state.apply tr) := by
    simp [Configuration.step, hstate, hsome]
  simp only [step, hstep]

theorem step_of_next (h : m.halted = false) {tr : Transition} (hnext : m.next? = some tr) :
    ∃ m' : Machine, m.step = .ok ((m.state.apply tr).1, m') ∧ m'.table = m.table ∧
      m'.state = (m.state.apply tr).2 :=
  ⟨_, step_eq_ok h hnext, rfl, rfl⟩

theorem runFor_of_halted (h : m.halted = true) (limit : Int) (budget : Nat) :
    m.runFor limit budget = (none, m) := by
  cases budget with
  | zero => simp [runFor, h]
  | succ budget => simp [runFor, h]

theorem runFor_of_stuck (hrunning : m.halted = false) (hnext : m.next? = none) (limit : Int)
    (budget : Nat) : m.runFor limit (budget + 1) =
      (some (.stuck m.state.key m.state.symbol m.state.head m.state.steps), m) := by
  simp [runFor, hrunning, step_of_stuck hrunning hnext]

/-- A step is taken where the machine has not accepted and a transition applies. -/
theorem running_of_step {r : Record} {m' : Machine} (h : m.step = .ok (r, m')) :
    m.halted = false ∧ ∃ tr, m.next? = some tr := by
  cases hhalted : m.halted with
  | true => simp [step_of_halted hhalted] at h
  | false =>
    cases hnext : m.next? with
    | none => simp [step_of_stuck hhalted hnext] at h
    | some tr => exact ⟨rfl, tr, rfl⟩

structure SameMake (m m' : Machine) : Prop where
  table_eq : m'.table = m.table
  settings_eq : m'.settings = m.settings
  initialTape_eq : m'.initialTape = m.initialTape

theorem sameMake_of_step {r : Record} {m' : Machine} (h : m.step = .ok (r, m')) :
    m.SameMake m' := by
  cases hstate : m.state.step m.table with
  | error fault => simp [step, hstate] at h
  | ok moved =>
    simp only [step, hstate] at h
    obtain ⟨_, rfl⟩ := Prod.mk.inj (Except.ok.inj h)
    exact ⟨rfl, rfl, rfl⟩

def stepped : (n : Nat) → Machine → Except Fault Machine
  | 0, m => .ok m
  | n + 1, m =>
    match m.step with
    | .ok (_, m) => stepped n m
    | .error fault => .error fault

theorem stepped_succ {r : Record} {m' : Machine} (h : m.step = .ok (r, m')) (n : Nat) :
    m.stepped (n + 1) = m'.stepped n := by
  simp [stepped, h]

theorem exists_step_of_stepped {n : Nat} {m' : Machine} (h : m.stepped (n + 1) = .ok m') :
    ∃ r next, m.step = .ok (r, next) ∧ next.stepped n = .ok m' := by
  cases hstep : m.step with
  | error fault => simp [stepped, hstep] at h
  | ok moved =>
    obtain ⟨r, next⟩ := moved
    exact ⟨r, next, rfl, by rwa [stepped_succ hstep] at h⟩

theorem stepped_add {n : Nat} {m' : Machine} (h : m.stepped n = .ok m') (k : Nat) :
    m.stepped (n + k) = m'.stepped k := by
  induction n generalizing m with
  | zero =>
    obtain rfl : m = m' := Except.ok.inj h
    rw [Nat.zero_add]
  | succ n ih =>
    obtain ⟨r, next, hstep, hrest⟩ := exists_step_of_stepped h
    rw [Nat.succ_add, stepped_succ hstep]
    exact ih hrest

/-- Where steps have been taken, a transition applied. -/
theorem exists_next_of_stepped {n k : Nat} {m' : Machine} (h : m.stepped n = .ok m') (hlt : k < n) :
    ∃ passed tr, m.stepped k = .ok passed ∧ passed.next? = some tr := by
  induction n generalizing m k with
  | zero => omega
  | succ n ih =>
    obtain ⟨r, next, hstep, hrest⟩ := exists_step_of_stepped h
    cases k with
    | zero =>
      obtain ⟨_, tr, hnext⟩ := running_of_step hstep
      exact ⟨m, tr, rfl, hnext⟩
    | succ k =>
      rw [stepped_succ hstep]
      exact ih hrest (by omega)

theorem sameMake_of_stepped {n : Nat} {m' : Machine} (h : m.stepped n = .ok m') :
    m.SameMake m' := by
  induction n generalizing m with
  | zero =>
    obtain rfl : m = m' := Except.ok.inj h
    exact ⟨rfl, rfl, rfl⟩
  | succ n ih =>
    obtain ⟨r, next, hstep, hrest⟩ := exists_step_of_stepped h
    have hfirst := sameMake_of_step hstep
    have hlater := ih hrest
    exact ⟨hlater.table_eq.trans hfirst.table_eq, hlater.settings_eq.trans hfirst.settings_eq,
      hlater.initialTape_eq.trans hfirst.initialTape_eq⟩

/-- A run goes on from where the first steps lead, with what they leave of its budget. -/
theorem runFor_of_stepped {n : Nat} {m' : Machine} (h : m.stepped n = .ok m') (limit : Int)
    (budget : Nat) : m.runFor limit (n + budget) = m'.runFor limit budget := by
  induction n generalizing m with
  | zero =>
    obtain rfl : m = m' := Except.ok.inj h
    rw [Nat.zero_add]
  | succ n ih =>
    obtain ⟨r, next, hstep, hrest⟩ := exists_step_of_stepped h
    obtain ⟨hrunning, _⟩ := running_of_step hstep
    rw [Nat.succ_add, ← ih hrest]
    simp [runFor, hrunning, hstep]

end Machine

end GenericTuring
