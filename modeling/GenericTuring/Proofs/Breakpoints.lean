import GenericTuring.Proofs.Debugging
import GenericTuring.Proofs.Instances
import Mathlib

/-!
Where a debugger stops. Going on ends at the first step after which the machine has accepted, a breakpoint
meets it or the limit is reached, unless the machine is stuck before; the breakpoint that is reported is
the one with the least number of those that meet the machine.
-/

namespace GenericTuring

def Watch.Meets (w : Watch) (m : Machine) : Prop :=
  match w with
  | .state name => m.state.key.head = name
  | .line number => ∃ tr, m.next? = some tr ∧ (tr.loc.line : Int) = number

namespace Program

variable {p : Program} {t : Table} {m m' : Machine}

/-- A machine with the table of a program stays in states of the table. -/
theorem Expanded.mem_keys_of_stepped (ht : p.Expanded m.table) (hkey : m.state.key ∈ m.table.keys)
    {n : Nat} (h : m.stepped n = .ok m') : m'.state.key ∈ m.table.keys := by
  induction n generalizing m with
  | zero =>
    obtain rfl : m = m' := Except.ok.inj h
    exact hkey
  | succ n ih =>
    obtain ⟨r, next, hstep, hrest⟩ := Machine.exists_step_of_stepped h
    obtain ⟨hrunning, tr, hnext⟩ := Machine.running_of_step hstep
    obtain ⟨moved, hmoved, htable, hstate⟩ := Machine.step_of_next hrunning hnext
    obtain rfl : moved = next := (Prod.mk.inj (Except.ok.inj (hmoved.symm.trans hstep))).2
    have htarget : moved.state.key ∈ m.table.keys := by
      rw [hstate]
      exact ht.target_mem hkey (mem_of_lookup_eq_some hnext)
    rw [← htable] at ht htarget ⊢
    exact ih ht htarget hrest

/-- In a table, the transition for a symbol comes from the rule of the definition that reads it. -/
theorem line_meets_iff (hwf : p.WellFormed) (ht : p.Expanded m.table)
    (hkey : m.state.key ∈ m.table.keys) (number : Int) :
    (Watch.line number).Meets m ↔ ∃ d ∈ p.definitions, d.name = m.state.key.head ∧
      ∃ r ∈ d.rules, r.read = m.state.symbol ∧ (r.loc.line : Int) = number := by
  have hnext : m.next? = (m.table.row m.state.key).lookup m.state.symbol := rfl
  have hmem : (m.state.key, m.table.row m.state.key) ∈ m.table.rows := by
    obtain ⟨entry, hentry, hfst⟩ := List.mem_map.1 hkey
    have hsame : m.table.row m.state.key = entry.2 := by
      rw [Table.row, ← hfst, lookup_eq_some_of_mem ht.nodup hentry]
      rfl
    rw [hsame, ← hfst]
    exact hentry
  have hrow : p.IsRow m.state.key (m.table.row m.state.key) := isRow_of_expanded hwf ht hmem
  constructor
  · intro h
    obtain ⟨tr, htr, hline⟩ := h
    obtain ⟨d, hd, hname, r, hr, hread, hloc⟩ := exists_rule_of_lookup hwf ht htr
    exact ⟨d, hd, hname, r, hr, hread, hloc ▸ hline⟩
  · intro h
    obtain ⟨d, hd, hname, r, hr, hread, hline⟩ := h
    obtain ⟨entry, hentry, heq⟩ := exists_of_mem_left (hrow.rules d hd hname) hr
    obtain ⟨target, _, rfl⟩ := Option.map_eq_some_iff.1 heq
    refine ⟨⟨r.write, target, r.move, r.loc⟩, ?_, hline⟩
    rw [hnext, ← hread]
    exact lookup_eq_some_of_mem hrow.reads_nodup hentry

end Program

namespace Debugger

variable {d d' : Debugger} {m : Machine} {b : Breakpoint} {breakpoints : List Breakpoint}
  {bound : Int} {budget n k : Nat} {o : Outcome}

theorem matchesNow_iff : matchesNow m b = true ↔ b.watch.Meets m := by
  obtain ⟨id, watch⟩ := b
  cases watch with
  | state name => simp [matchesNow, Watch.Meets]
  | line number =>
    cases hnext : m.next? with
    | none => simp [matchesNow, Watch.Meets, hnext]
    | some tr => simp [matchesNow, Watch.Meets, hnext]

theorem stopping?_eq_none :
    stopping? breakpoints (some bound) m = none ↔ ∀ b ∈ breakpoints, ¬ b.watch.Meets m := by
  simp [stopping?, matchesNow_iff]

structure IsFirst (breakpoints : List Breakpoint) (m : Machine) (b : Breakpoint) : Prop where
  mem : b ∈ breakpoints
  meets : b.watch.Meets m
  least : ∀ c ∈ breakpoints, c.watch.Meets m → b.id ≤ c.id

theorem isFirst_of_stopping? (hsorted : (breakpoints.map Breakpoint.id).Pairwise (· < ·))
    (h : stopping? breakpoints (some bound) m = some b) : IsFirst breakpoints m b := by
  obtain ⟨hmatch, before, later, rfl, hbefore⟩ := List.find?_eq_some_iff_append.1 h
  refine ⟨by simp, matchesNow_iff.1 hmatch, fun c hc hmeets => ?_⟩
  rcases List.mem_append.1 hc with hc | hc
  · -- a breakpoint before it does not meet the machine
    have hnot := hbefore c hc
    simp [matchesNow_iff.2 hmeets] at hnot
  · rcases List.mem_cons.1 hc with rfl | hc
    · exact le_rfl
    · rw [List.map_append, List.map_cons] at hsorted
      have htail := (List.pairwise_append.1 hsorted).2.1
      exact le_of_lt ((List.pairwise_cons.1 htail).1 c.id (List.mem_map.2 ⟨c, hc, rfl⟩))

theorem IsFirst.unique {c : Breakpoint}
    (hsorted : (breakpoints.map Breakpoint.id).Pairwise (· < ·)) (hb : IsFirst breakpoints m b)
    (hc : IsFirst breakpoints m c) : b = c := by
  have hnodup : (breakpoints.map Breakpoint.id).Nodup := hsorted.imp ne_of_lt
  exact List.inj_on_of_nodup_map hnodup hb.mem hc.mem
    (le_antisymm (hb.least c hc.mem hc.meets) (hc.least b hb.mem hb.meets))

def StopsAt (d : Debugger) (bound : Int) (n : Nat) : Prop :=
  0 < n ∧ ((∃ m, d.machine.stepped n = .ok m ∧
    (m.halted = true ∨ ∃ b ∈ d.breakpoints, b.watch.Meets m)) ∨ (n : Int) = bound)

def StuckAt (d : Debugger) (n : Nat) : Prop :=
  ∃ m, d.machine.stepped n = .ok m ∧ m.next? = none

/-- What is reported on a machine that was stopped. Acceptance comes before a breakpoint, and a
breakpoint before the limit. -/
structure Reports (breakpoints : List Breakpoint) (m : Machine) (o : Outcome) : Prop where
  accepted_iff : o.status = .accepted ↔ m.halted = true
  breakpoint_iff : o.status = .breakpoint ↔
    m.halted = false ∧ ∃ b ∈ breakpoints, b.watch.Meets m
  stepLimit_iff : o.status = .stepLimit ↔
    m.halted = false ∧ ∀ b ∈ breakpoints, ¬ b.watch.Meets m
  hit_iff : ∀ b, o.breakpoint = some b ↔ m.halted = false ∧ IsFirst breakpoints m b

theorem not_stuckAt_of_lt (h : d.machine.stepped n = .ok m) (hlt : k < n) : ¬ d.StuckAt k := by
  intro hstuck
  obtain ⟨last, hlast, hnone⟩ := hstuck
  obtain ⟨passed, tr, hpassed, hnext⟩ := Machine.exists_next_of_stepped h hlt
  obtain rfl : last = passed := Except.ok.inj (hlast.symm.trans hpassed)
  simp [hnone] at hnext

theorem StuckAt.unique (hn : d.StuckAt n) (hk : d.StuckAt k) : n = k := by
  have hnot : ∀ i j, d.StuckAt i → d.StuckAt j → ¬ i < j := by
    intro i j hi hj hlt
    obtain ⟨m, hm, _⟩ := hj
    exact not_stuckAt_of_lt hm hlt hi
  have hle := hnot n k hn hk
  have hge := hnot k n hk hn
  omega

theorem not_stopsAt_of_clear (h : d.machine.stepped n = .ok m) (hrunning : m.halted = false)
    (hclear : 0 < n → stopping? d.breakpoints (some bound) m = none) (hlt : (n : Int) < bound) :
    ¬ d.StopsAt bound n := by
  intro hstops
  obtain ⟨hpos, ⟨last, hlast, hwhy⟩ | hall⟩ := hstops
  · obtain rfl : m = last := Except.ok.inj (h.symm.trans hlast)
    rcases hwhy with hhalted | ⟨b, hb, hmeets⟩
    · simp [hrunning] at hhalted
    · exact stopping?_eq_none.1 (hclear hpos) b hb hmeets
  · omega

theorem Ending.le_budget {limit : Option Int} {status : Status} {hit : Option Breakpoint}
    {fault : Option Fault} (h : Ending breakpoints limit budget n m status hit fault) :
    n ≤ budget := by
  cases h <;> omega

/-- Nothing that an advance has passed was a reason to stop. -/
theorem Advanced.not_stopsAt (h : Advanced (some bound) bound.toNat d n o d') (hlt : k < n) :
    ¬ d.StopsAt bound k := by
  intro hstops
  have hle := h.ending.le_budget
  obtain ⟨passed, hpassed, hrunning, hclear⟩ := h.passed k hstops.1 hlt
  exact not_stopsAt_of_clear hpassed hrunning (fun _ => hclear) (by omega) hstops

/-- An advance is stuck before there is a reason to stop, or it ends at one and reports it. -/
theorem Advanced.stuck_or_stops (h : Advanced (some bound) bound.toNat d n o d') (hbound : 1 ≤ bound)
    (hsorted : (d.breakpoints.map Breakpoint.id).Pairwise (· < ·)) :
    (o.status = .stuck ∧ d.StuckAt n ∧ ¬ d.StopsAt bound n) ∨
      (d.StopsAt bound n ∧ Reports d.breakpoints d'.machine o) := by
  obtain ⟨status, taken, last, hit, fault⟩ := o
  cases h.ending with
  | accepted hpos hle hhalted =>
    refine .inr ⟨⟨hpos, .inl ⟨_, h.stepped_eq, .inl hhalted⟩⟩, ?_⟩
    exact ⟨by simp [hhalted], by simp [hhalted], by simp [hhalted], by simp [hhalted]⟩
  | @breakpoint b hpos hle hrunning hstop =>
    have hfirst := isFirst_of_stopping? hsorted hstop
    refine .inr ⟨⟨hpos, .inl ⟨_, h.stepped_eq, .inr ⟨b, hfirst.mem, hfirst.meets⟩⟩⟩, ?_⟩
    refine ⟨by simp [hrunning], ?_, ?_, ?_⟩
    · exact ⟨fun _ => ⟨hrunning, b, hfirst.mem, hfirst.meets⟩, fun _ => rfl⟩
    · exact ⟨by simp, fun hnone => absurd hfirst.meets (hnone.2 b hfirst.mem)⟩
    · intro c
      constructor
      · intro hc
        obtain rfl : b = c := Option.some.inj hc
        exact ⟨hrunning, hfirst⟩
      · intro hc
        exact congrArg some (hfirst.unique hsorted hc.2)
  | stuck hlt hrunning hclear hnext =>
    refine .inl ⟨rfl, ⟨_, h.stepped_eq, hnext⟩, ?_⟩
    exact not_stopsAt_of_clear h.stepped_eq hrunning hclear (by omega)
  | paused hall hrunning hlimit => simp at hlimit
  | exhausted hall hrunning hclear hlimit =>
    have hnone := stopping?_eq_none.1 (hclear (by omega))
    refine .inr ⟨⟨by omega, .inr (by omega)⟩, ?_⟩
    refine ⟨by simp [hrunning], ?_, ?_, ?_⟩
    · refine ⟨by simp, fun hsome => ?_⟩
      obtain ⟨_, b, hb, hmeets⟩ := hsome
      exact absurd hmeets (hnone b hb)
    · exact ⟨fun _ => ⟨hrunning, hnone⟩, fun _ => rfl⟩
    · intro b
      exact ⟨by simp, fun hb => absurd hb.2.meets (hnone b hb.2.mem)⟩

/-- Some step is the first with a reason to stop, since the limit is one. -/
theorem exists_isLeast_stopsAt (d : Debugger) (hbound : 1 ≤ bound) :
    ∃ n, IsLeast {k | d.StopsAt bound k} n := by
  have hlast : bound.toNat ∈ {k | d.StopsAt bound k} := ⟨by omega, .inr (by omega)⟩
  exact ⟨_, Nat.sInf_mem ⟨_, hlast⟩, fun k hk => Nat.sInf_le hk⟩

theorem Advanced.stops_first {first : Nat} (h : Advanced (some bound) bound.toNat d n o d')
    (hbound : 1 ≤ bound) (hsorted : (d.breakpoints.map Breakpoint.id).Pairwise (· < ·))
    (hleast : IsLeast {k | d.StopsAt bound k} first) :
    (∀ k < first, d.StuckAt k → o.status = .stuck ∧ n = k) ∧
      ((∀ k < first, ¬ d.StuckAt k) → n = first ∧ Reports d.breakpoints d'.machine o) := by
  -- nothing was passed that is a reason to stop, so the advance goes no further than the first one
  have hle : n ≤ first := by
    by_contra hlt
    exact h.not_stopsAt (not_le.1 hlt) hleast.1
  cases h.stuck_or_stops hbound hsorted with
  | inl hstuck =>
    obtain ⟨hstatus, hstuck, hfree⟩ := hstuck
    have hlt : n < first := lt_of_le_of_ne hle fun heq => hfree (heq ▸ hleast.1)
    exact ⟨fun k _ hk => ⟨hstatus, hstuck.unique hk⟩, fun hnone => absurd hstuck (hnone n hlt)⟩
  | inr hstops =>
    obtain ⟨hstops, hreports⟩ := hstops
    have heq : n = first := le_antisymm hle (hleast.2 hstops)
    refine ⟨fun k hk hstuck => ?_, fun _ => ⟨heq, hreports⟩⟩
    exact absurd hstuck (not_stuckAt_of_lt h.stepped_eq (heq ▸ hk))

/-- After any calls that leave the session open, and with a limit that allows a step: let `n` be the
least number of steps after which the machine has accepted, a breakpoint meets it or the limit is
reached. Going on stops after `n` steps and reports which it was, acceptance before a breakpoint and a
breakpoint before the limit; but if no transition applies after fewer steps, it is stuck there. If the
table is that of a program, the machine stays in instances of the definitions, and a line is met exactly
if the rule for the symbol under the head is on it. -/
theorem resume_stops_first {table : Table} {text : String} {settings : Settings} {calls : List Call}
    (limit : Option Int) (hd : (new table text settings).after calls = d)
    (hopen : d.status.isFinished = false) (hlimit : 1 ≤ limit.getD settings.maxSteps) :
    (∃ o d' n, d.resume limit = .ok (o, d') ∧
      d' = { d with machine := d'.machine, status := o.status, fault := o.fault } ∧
      d.machine.stepped o.taken = .ok d'.machine ∧
      IsLeast {k | d.StopsAt (limit.getD settings.maxSteps) k} n ∧
      (∀ k < n, d.StuckAt k → o.status = .stuck ∧ o.taken = k) ∧
      ((∀ k < n, ¬ d.StuckAt k) → o.taken = n ∧ Reports d.breakpoints d'.machine o)) ∧
    ∀ source file p, Program.parse source file = .ok p → p.expand = .ok table →
      ∀ k m, d.machine.stepped k = .ok m → p.Stands m.state.key ∧
        ∀ number, (Watch.line number).Meets m ↔ ∃ d ∈ p.definitions, d.name = m.state.key.head ∧
          ∃ r ∈ d.rules, r.read = m.state.symbol ∧ (r.loc.line : Int) = number := by
  have hsound := sound_after (sound_new table text settings) calls
  have hfollows := follows_after (sound_new table text settings)
    (follows_new table settings text) calls
  rw [hd] at hsound hfollows
  constructor
  · have hsettings : d.machine.settings = settings :=
      (Machine.sameMake_of_stepped hfollows).settings_eq
    obtain ⟨o, d', hadvance, hadvanced⟩ := exists_advance hsound.truthful hopen
      (some (limit.getD settings.maxSteps)) (limit.getD settings.maxSteps).toNat
    obtain ⟨n, hleast⟩ := exists_isLeast_stopsAt d hlimit
    refine ⟨o, d', n, ?_, hadvanced.eq, hadvanced.stepped_eq, hleast,
      hadvanced.stops_first hlimit hsound.numbered.increasing hleast⟩
    rw [resume, hsettings]
    exact hadvance
  · intro source file p hp hexpand k m hm
    have hwf := Program.wellFormed_of_parse hp
    have ht := Program.expanded_of_expand hwf hexpand
    have hstepped := (Machine.stepped_add hfollows k).trans hm
    have htable : m.table = table := (Machine.sameMake_of_stepped hstepped).table_eq
    have hstart : table.start ∈ table.keys := (ht.mem_keys table.start).2 (.start ht.start_eq)
    have hkey : m.state.key ∈ table.keys := Program.Expanded.mem_keys_of_stepped ht hstart hstepped
    refine ⟨hwf.isResolved_iff_stands.1 (ht.resolved _ hkey), ?_⟩
    rw [← htable] at ht hkey
    exact Program.line_meets_iff hwf ht hkey

def stroll : String :=
  -- A program that walks over two runs of ones, with the same definition.
  "start = walk<walk<finish>>\nwalk<x> 1 = 1; walk<x> next\nwalk<x> _ = _; x next\n"

def strollCalls : List Call :=
  -- Breakpoints on a line and on all instances of a definition, the second cleared again.
  [.add (.line 3), .add (.state "walk"), .clear (.byId 2), .add (.state "finish")]

set_option maxRecDepth 20000 in
theorem resume_stops_first_stroll : ∃ p t d o d', Program.parse stroll "stroll" = .ok p ∧
    p.expand = .ok t ∧ (new t "11").after strollCalls = d ∧ d.status.isFinished = false ∧
    d.resume (some 9) = .ok (o, d') ∧ IsLeast {k | d.StopsAt 9 k} 2 ∧
    Reports d.breakpoints d'.machine o ∧ o.breakpoint = some ⟨1, .line 3⟩ := by
  obtain ⟨p, hp, hany⟩ := exists_ok_of_any (x := Program.parse stroll "stroll")
    (t := fun p => p.expand.toOption.any fun t =>
      let d := (new t "11").after strollCalls
      !d.status.isFinished && (d.resume (some 9)).toOption.any fun (o, _) =>
        o.status == .breakpoint && o.taken == 2 && o.breakpoint == some ⟨1, .line 3⟩) (by decide_cbv)
  obtain ⟨t, ht, hshape⟩ := exists_ok_of_any hany
  obtain ⟨hopen, hresume⟩ := Bool.and_eq_true_iff.1 hshape
  obtain ⟨⟨o, d'⟩, hok, hstop⟩ := exists_ok_of_any hresume
  obtain ⟨⟨hstatus, htaken⟩, hhit⟩ : (o.status = .breakpoint ∧ o.taken = 2) ∧
      o.breakpoint = some ⟨1, .line 3⟩ := by simpa using hstop
  have hrunning : ((new t "11").after strollCalls).status.isFinished = false := by simpa using hopen
  obtain ⟨⟨o₁, d₁, n, hagain, _, _, hleast, hstuck, hfree⟩, _⟩ :=
    resume_stops_first (some 9) rfl hrunning (by decide)
  obtain ⟨rfl, rfl⟩ := Prod.mk.inj (Except.ok.inj (hagain.symm.trans hok))
  obtain ⟨rfl, hreports⟩ := hfree fun k hk hstuckAt => by
    simp [(hstuck k hk hstuckAt).1] at hstatus
  exact ⟨p, t, _, o₁, d₁, hp, ht, rfl, hrunning, hok, htaken ▸ hleast, hreports, hhit⟩

end Debugger

end GenericTuring
