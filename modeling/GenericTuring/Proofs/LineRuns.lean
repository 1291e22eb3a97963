import GenericTuring.Proofs.LineRows
import GenericTuring.Proofs.Steps
import Mathlib

/-!
Rule lines run one after the other, and the machine of the table made of them: after any number of
steps both are in the same configuration, and both halt, are stuck or can go on together.
-/

namespace GenericTuring

namespace LineRun

open Statement

def lineFor? (statements : List Statement) (c : Configuration) : Option RuleLine :=
  (ruleLines statements).find? fun line => line.applies c.key c.symbol

theorem mem_and_applies_of_lineFor? {statements : List Statement} {c : Configuration}
    {line : RuleLine} (h : lineFor? statements c = some line) :
    line ∈ ruleLines statements ∧ line.applies c.key c.symbol = true := by
  unfold lineFor? at h
  exact ⟨List.mem_of_find?_eq_some h, by simpa using List.find?_some h⟩

def standing (statements : List Statement) (c : Configuration) : Standing :=
  if c.key = Key.finish then .halted
  else match lineFor? statements c with
    | none => .stuck
    | some _ => .running

def after (statements : List Statement) : (n : Nat) → Configuration → Configuration
  | 0, c => c
  | n + 1, c =>
    if c.key = Key.finish then c
    else match lineFor? statements c with
      | none => c
      | some line =>
        after statements n ⟨line.next c.key, c.tape.write c.head line.write.val,
          c.head + line.move.offset, c.steps + 1⟩

end LineRun

namespace Program

variable {p : Program} {statements : List Statement} {o : Outline}

/-- What the machine applies next is what the next line does. -/
theorem Assembled.next?_eq (h : Assembled statements p o) {m : Machine} (ht : p.Expanded m.table)
    (hkey : m.state.key ∈ m.table.keys) :
    m.next? = (LineRun.lineFor? statements m.state).map fun line =>
      line.transition m.state.key :=
  h.lookup_eq ht hkey m.state.symbol

theorem Assembled.standing_eq (h : Assembled statements p o) {m : Machine} (ht : p.Expanded m.table)
    (hkey : m.state.key ∈ m.table.keys) : m.standing = LineRun.standing statements m.state := by
  have hnext := h.next?_eq ht hkey
  by_cases hfinish : m.state.key = Key.finish
  · have hstep := Machine.step_of_halted (Machine.halted_iff.2 hfinish)
    simp [Machine.standing, LineRun.standing, hstep, hfinish]
  · have hhalted := Machine.halted_eq_false_iff.2 hfinish
    cases hline : LineRun.lineFor? statements m.state with
    | none =>
      rw [hline, Option.map_none] at hnext
      have hstep := Machine.step_of_stuck hhalted hnext
      simp [Machine.standing, LineRun.standing, hstep, hfinish, hline]
    | some line =>
      rw [hline, Option.map_some] at hnext
      obtain ⟨m', hstep, _⟩ := Machine.step_of_next hhalted hnext
      simp [Machine.standing, LineRun.standing, hstep, hfinish, hline]

/-- From a state of the table, the machine and the lines pass through the same configurations, and
these are in states of the table. -/
theorem Assembled.after_eq (h : Assembled statements p o) {m : Machine} (ht : p.Expanded m.table)
    (hkey : m.state.key ∈ m.table.keys) (n : Nat) :
    (m.after n).table = m.table ∧ (m.after n).state = LineRun.after statements n m.state ∧
      (m.after n).state.key ∈ m.table.keys := by
  induction n generalizing m with
  | zero => exact ⟨rfl, rfl, hkey⟩
  | succ n ih =>
    have hnext := h.next?_eq ht hkey
    by_cases hfinish : m.state.key = Key.finish
    · have hstep := Machine.step_of_halted (Machine.halted_iff.2 hfinish)
      have hafter : m.after (n + 1) = m := by simp only [Machine.after, hstep]
      have hlines : LineRun.after statements (n + 1) m.state = m.state := by
        simp only [LineRun.after, if_pos hfinish]
      rw [hafter, hlines]
      exact ⟨rfl, rfl, hkey⟩
    · have hhalted := Machine.halted_eq_false_iff.2 hfinish
      cases hline : LineRun.lineFor? statements m.state with
      | none =>
        rw [hline, Option.map_none] at hnext
        have hstep := Machine.step_of_stuck hhalted hnext
        simp [Machine.after, LineRun.after, hstep, hfinish, hline, hkey]
      | some line =>
        rw [hline, Option.map_some] at hnext
        obtain ⟨m', hstep, htable, hstate⟩ := Machine.step_of_next hhalted hnext
        have htarget : m'.state.key ∈ m'.table.keys := by
          rw [hstate, htable]
          exact ht.target_mem hkey (mem_of_lookup_eq_some hnext)
        have hrest := ih (by rwa [htable]) htarget
        rw [htable, hstate] at hrest
        simp only [Machine.after, LineRun.after, hstep, if_neg hfinish, hline]
        exact hrest

/-- A table runs as the rule lines do that it is made of: at any time the machine is in the
configuration that the lines lead to, it is over in the same way, and its state has a row. The line
taken in a configuration is the only one for it, and has a parameter for each argument. -/
theorem machine_follows_lines {source file : String} {t : Table}
    (hassemble : Program.assemble source file statements = .ok p) (hexpand : p.expand = .ok t)
    (settings : Settings) (tape : Tape) :
    ∃ start, LineRun.start? statements = some start ∧ ∀ n,
      let m := (Machine.new t tape settings).after n
      let c := LineRun.after statements n ⟨start, tape, 0, 0⟩
      m.state = c ∧ m.standing = LineRun.standing statements c ∧ c.key ∈ t.keys ∧
        ∀ line ∈ Statement.ruleLines statements, line.applies c.key c.symbol = true →
          LineRun.lineFor? statements c = some line ∧
            line.params.length = c.key.args.length := by
  obtain ⟨o, h⟩ := assembled_of_assemble hassemble
  have ht := expanded_of_expand (wellFormed_of_assembled h) hexpand
  have hstart : t.start ∈ t.keys := (ht.mem_keys t.start).2 (.start ht.start_eq)
  refine ⟨t.start, h.start?_eq ht, fun n => ?_⟩
  obtain ⟨htable, hstate, hkey⟩ := h.after_eq (m := .new t tape settings) ht hstart n
  intro m c
  have hc : m.state = c := hstate
  have hmem : c.key ∈ t.keys := hc ▸ hkey
  have htm : m.table = t := htable
  refine ⟨hc, ?_, hmem, ?_⟩
  · rw [← hc]
    exact h.standing_eq (htm ▸ ht) (by rw [htm, hc]; exact hmem)
  · intro line hline happlies
    obtain ⟨other, hother⟩ : ∃ other, LineRun.lineFor? statements c = some other :=
      Option.isSome_iff_exists.1 (List.find?_isSome.2 ⟨line, hline, happlies⟩)
    obtain ⟨hotherMem, hotherApplies⟩ := LineRun.mem_and_applies_of_lineFor? hother
    have hsame := h.eq_of_applies (ht.resolved c.key hmem) hline happlies hotherMem hotherApplies
    exact ⟨hsame.1 ▸ hother, hsame.2⟩

def crossing : String :=
  "start = p<q, finish>\np<a, b> 0 = 1; p<b, a> next\np<b, a> 1 = 0; b next\n" ++
    "p<q, r> _ = _; r next\nq _ = 1; finish next\n"

set_option maxRecDepth 20000 in
theorem machine_follows_lines_crossing : ∃ statements p t start,
    Program.assemble crossing "crossing" statements = .ok p ∧ p.expand = .ok t ∧
      LineRun.start? statements = some start ∧
      ∀ n, ((Machine.new t (.ofText "001")).after n).state =
        LineRun.after statements n ⟨start, .ofText "001", 0, 0⟩ := by
  obtain ⟨p, hp, hany⟩ := exists_ok_of_any (x := Program.parse crossing "crossing")
    (t := fun p => p.expand.toOption.any fun _ => true) (by decide_cbv)
  obtain ⟨t, ht, _⟩ := exists_ok_of_any hany
  obtain ⟨statements, _, _, hassemble⟩ := parse_eq_ok.1 hp
  obtain ⟨start, hstart, hruns⟩ := machine_follows_lines hassemble ht {} (.ofText "001")
  exact ⟨statements, p, t, start, hassemble, ht, hstart, fun n => (hruns n).1⟩

end Program

end GenericTuring
