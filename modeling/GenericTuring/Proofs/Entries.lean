import GenericTuring.Debugger
import GenericTuring.Proofs.Lists
import Mathlib.Data.List.Nodup

/-!
Setting and clearing breakpoints, in place. As long as every breakpoint is kept under its own id, and the
ids below the next one rise, a new breakpoint goes to the end, those selected are taken out, and a change
that is refused has not begun.
-/

namespace GenericTuring

def Selection.selects : Selection → Breakpoint → Bool
  | all, _ => true
  | byId id, b => (b.id : Int) == id
  | onState name, b => b.watch == .state name

namespace Debugger

structure Numbered (d : Debugger) : Prop where
  stored : ∀ entry ∈ d.entries, entry.1 = (entry.2.id : Int)
  increasing : (d.breakpoints.map Breakpoint.id).Pairwise (· < ·)
  below : ∀ b ∈ d.breakpoints, b.id < d.nextId

def Takes (d : Debugger) : Watch → Prop
  | .line number => ∃ entry ∈ d.machine.table.transitions, (entry.2.2.loc.line : Int) = number
  | .state name => name ∈ d.knownStates

def watching (d : Debugger) (watch : Watch) : Debugger :=
  { d with
    entries := d.entries ++ [((d.nextId : Int), ⟨d.nextId, watch⟩)]
    nextId := d.nextId + 1 }

def Offers (d : Debugger) (selection : Selection) : Prop :=
  selection = .all ∨ ∃ b ∈ d.breakpoints, selection.selects b = true

def without (d : Debugger) (selection : Selection) : Debugger :=
  { d with entries := d.entries.filter fun entry => !selection.selects entry.2 }

variable {d : Debugger} {watch : Watch} {selection : Selection} {entry : Int × Breakpoint}

theorem mem_breakpoints (h : entry ∈ d.entries) : entry.2 ∈ d.breakpoints :=
  List.mem_map.2 ⟨entry, h, rfl⟩

theorem breakpoints_watching (d : Debugger) (watch : Watch) :
    (d.watching watch).breakpoints = d.breakpoints ++ [⟨d.nextId, watch⟩] := by
  simp [breakpoints, watching]

theorem breakpoints_without (d : Debugger) (selection : Selection) :
    (d.without selection).breakpoints = d.breakpoints.filter fun b => !selection.selects b := by
  simp only [breakpoints, without, List.filter_map]
  rfl

theorem Numbered.nextId_notMem (h : d.Numbered) : (d.nextId : Int) ∉ d.entries.map Prod.fst := by
  intro hmem
  obtain ⟨entry, hentry, hkey⟩ := List.mem_map.1 hmem
  have hbelow := h.below entry.2 (mem_breakpoints hentry)
  rw [h.stored entry hentry] at hkey
  omega

theorem Numbered.add (h : d.Numbered) (watch : Watch) : (d.watching watch).Numbered := by
  refine ⟨?_, ?_, ?_⟩
  · intro entry hentry
    cases List.mem_append.1 hentry with
    | inl hold => exact h.stored entry hold
    | inr hnew => rw [List.mem_singleton.1 hnew]
  · rw [breakpoints_watching, List.map_append, List.pairwise_append]
    refine ⟨h.increasing, by simp, ?_⟩
    intro id hid next hnext
    obtain ⟨b, hb, rfl⟩ := List.mem_map.1 hid
    obtain rfl : next = d.nextId := by simpa using hnext
    exact h.below b hb
  · intro b hb
    rw [breakpoints_watching] at hb
    cases List.mem_append.1 hb with
    | inl hold => exact Nat.lt_succ_of_lt (h.below b hold)
    | inr hnew => rw [List.mem_singleton.1 hnew]; exact Nat.lt_succ_self d.nextId

theorem Numbered.clear (h : d.Numbered) (selection : Selection) : (d.without selection).Numbered := by
  refine ⟨fun entry hentry => h.stored entry (List.mem_filter.1 hentry).1, ?_, ?_⟩
  · rw [breakpoints_without]
    exact h.increasing.sublist (List.filter_sublist.map _)
  · intro b hb
    rw [breakpoints_without] at hb
    exact h.below b (List.mem_filter.1 hb).1

theorem Numbered.nodup (h : d.Numbered) : d.breakpoints.Nodup :=
  List.Nodup.of_map Breakpoint.id (h.increasing.imp Nat.ne_of_lt)

theorem Numbered.id_inj (h : d.Numbered) {b c : Breakpoint} (hb : b ∈ d.breakpoints)
    (hc : c ∈ d.breakpoints) (hid : b.id = c.id) : b = c :=
  List.inj_on_of_nodup_map (h.increasing.imp Nat.ne_of_lt) hb hc hid

section Add

theorem refusal?_eq_none : d.refusal? watch = none ↔ d.Takes watch := by
  cases watch with
  | line number => simp [refusal?, Takes]
  | state name => simp [refusal?, Takes]

theorem run_addBreakpoint_of_takes (hd : d.Numbered) (h : d.Takes watch) :
    (addBreakpoint watch).run d = .ok ⟨d.nextId, watch⟩ (d.watching watch) := by
  have hassign : Dictionary.assign (d.nextId : Int) (⟨d.nextId, watch⟩ : Breakpoint) d.entries = _ :=
    Dictionary.assign_of_notMem hd.nextId_notMem
  simp only [addBreakpoint, EStateM.run_bind, EStateM.run_get, refusal?_eq_none.2 h, watching,
    ← hassign]
  rfl

theorem run_addBreakpoint_of_not_takes (h : ¬d.Takes watch) :
    ∃ e, (addBreakpoint watch).run d = .error e d := by
  cases hrefusal : d.refusal? watch with
  | none => exact absurd (refusal?_eq_none.1 hrefusal) h
  | some e =>
    refine ⟨e, ?_⟩
    simp only [addBreakpoint, EStateM.run_bind, EStateM.run_get, hrefusal]
    rfl

end Add

section Clear

theorem run_pop (key : Int) : (pop key).run d =
    .ok (d.entries.lookup key) { d with entries := Dictionary.remove key d.entries } := rfl

theorem run_pops (list : List Breakpoint) : (list.forM fun b => discard (pop b.id)).run d =
    .ok () { d with entries := d.entries.filter fun entry => list.all fun b => entry.1 ≠ (b.id : Int) } := by
  induction list generalizing d with
  | nil => simp
  | cons b list ih =>
    have hfirst : (discard (pop b.id)).run d =
        .ok () { d with entries := Dictionary.remove (b.id : Int) d.entries } := rfl
    rw [List.forM, EStateM.run_bind, hfirst]
    simp only [ih, Dictionary.remove, List.filter_filter, List.all_cons, Bool.and_comm]

/-- The breakpoint under a key is the only one with that id. -/
theorem Numbered.filter_byId (h : d.Numbered) (id : Int) :
    d.breakpoints.filter (Selection.byId id).selects = (d.entries.lookup id).toList := by
  cases hlookup : d.entries.lookup id with
  | none =>
    refine List.filter_eq_nil_iff.2 fun b hb hid => ?_
    obtain ⟨entry, hentry, rfl⟩ := List.mem_map.1 hb
    have hkey := List.lookup_eq_none_iff.1 hlookup entry hentry
    rw [h.stored entry hentry] at hkey
    simp_all [Selection.selects]
  | some b =>
    have hentry := mem_of_lookup_eq_some hlookup
    have hb := mem_breakpoints hentry
    have hid : id = (b.id : Int) := h.stored _ hentry
    have hother : ∀ c ∈ d.breakpoints, (Selection.byId id).selects c = (c == b) := by
      intro c hc
      rw [hid, Selection.selects, Bool.eq_iff_iff, beq_iff_eq, beq_iff_eq]
      exact ⟨fun heq => h.id_inj hc hb (by omega), fun heq => by rw [heq]⟩
    rw [List.filter_congr hother, List.filter_beq, List.count_eq_one_of_mem h.nodup hb]
    rfl

theorem Numbered.remove_eq (h : d.Numbered) (id : Int) :
    Dictionary.remove id d.entries =
      d.entries.filter fun entry => !(Selection.byId id).selects entry.2 := by
  refine List.filter_congr fun entry hentry => ?_
  rw [h.stored entry hentry, Selection.selects, Bool.eq_iff_iff]
  simp

/-- Taking out those with the ids of the selected ones takes out these and no others. -/
theorem Numbered.filter_pops (h : d.Numbered) (selection : Selection) :
    (d.entries.filter fun entry =>
      (d.breakpoints.filter selection.selects).all fun b => entry.1 ≠ (b.id : Int)) =
        d.entries.filter fun entry => !selection.selects entry.2 := by
  refine List.filter_congr fun entry hentry => ?_
  have hb := mem_breakpoints hentry
  rw [Bool.eq_iff_iff, List.all_eq_true]
  constructor
  · intro hall
    cases hselects : selection.selects entry.2 with
    | false => rfl
    | true =>
      have hne := hall entry.2 (List.mem_filter.2 ⟨hb, hselects⟩)
      simp [h.stored entry hentry] at hne
  · intro hkept b hmem
    obtain ⟨hother, hselects⟩ := List.mem_filter.1 hmem
    rw [decide_eq_true_iff, h.stored entry hentry]
    intro hid
    rw [h.id_inj hb hother (by omega), hselects] at hkept
    simp at hkept

theorem not_offers_iff (h : selection ≠ .all) :
    ¬d.Offers selection ↔ d.breakpoints.filter selection.selects = [] := by
  simp [Offers, h, List.filter_eq_nil_iff]

theorem run_clearBreakpoints_of_offers (hd : d.Numbered) (h : d.Offers selection) :
    (clearBreakpoints selection).run d =
      .ok (d.breakpoints.filter selection.selects) (d.without selection) := by
  cases selection with
  | all =>
    have hall : d.breakpoints.filter Selection.all.selects = d.breakpoints :=
      List.filter_eq_self.2 fun _ _ => rfl
    have hnone : (d.entries.filter fun entry => !Selection.all.selects entry.2) = [] :=
      List.filter_eq_nil_iff.2 fun _ _ => by simp [Selection.selects]
    rw [hall, without, hnone]
    rfl
  | byId id =>
    have hsome := not_not.2 h
    rw [not_offers_iff (by simp), hd.filter_byId] at hsome
    obtain ⟨b, hlookup⟩ := Option.ne_none_iff_exists'.1 (mt Option.toList_eq_nil_iff.2 hsome)
    rw [hd.filter_byId, without, ← hd.remove_eq]
    simp only [clearBreakpoints, EStateM.run_bind, run_pop, hlookup]
    rfl
  | onState name =>
    have hsome := mt (not_offers_iff (by simp)).2 (not_not.2 h)
    have hremoved : (d.breakpoints.filter fun b => b.watch == .state name).isEmpty = false :=
      Bool.eq_false_iff.2 fun hempty => hsome (List.isEmpty_iff.1 hempty)
    rw [without, ← hd.filter_pops]
    simp only [clearBreakpoints, EStateM.run_bind, EStateM.run_get, hremoved, Bool.false_eq_true,
      if_false, run_pops]
    rfl

/-- A key is taken out before it is seen to be missing; then nothing has been taken out. -/
theorem run_clearBreakpoints_of_not_offers (hd : d.Numbered) (h : ¬d.Offers selection) :
    ∃ e, (clearBreakpoints selection).run d = .error e d := by
  cases selection with
  | all => exact absurd (.inl rfl) h
  | byId id =>
    have hnone := (not_offers_iff (by simp)).1 h
    have hlookup : d.entries.lookup id = none := by simpa [hd.filter_byId] using hnone
    have hsame : Dictionary.remove id d.entries = d.entries := by
      refine List.filter_eq_self.2 fun entry hentry => decide_eq_true ?_
      exact Ne.symm (bne_iff_ne.1 (List.lookup_eq_none_iff.1 hlookup entry hentry))
    refine ⟨.noBreakpoint id, ?_⟩
    simp only [clearBreakpoints, EStateM.run_bind, run_pop, hlookup, hsame]
    rfl
  | onState name =>
    have hnone : (d.breakpoints.filter fun b => b.watch == .state name).isEmpty = true :=
      List.isEmpty_iff.2 ((not_offers_iff (by simp)).1 h)
    refine ⟨.noBreakpointOn name, ?_⟩
    simp only [clearBreakpoints, EStateM.run_bind, EStateM.run_get, hnone, if_true]
    rfl

end Clear

end Debugger

end GenericTuring
