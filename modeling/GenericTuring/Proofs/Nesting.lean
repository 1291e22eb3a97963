import GenericTuring.Proofs.Offsets
import GenericTuring.Proofs.Refusals
import Mathlib

/-!
How deep brackets nest. The scan keeps one depth that never falls below zero and starts anew with each
line; the greatest depth is the greatest surplus of opening brackets over all parts of lines, and it is
placed where such a part first ends.
-/

namespace GenericTuring.Nesting

open Text

def surplus (cs : List Char) : Int := cs.count '<' - cs.count '>'

def surpluses (text : List Char) : Set Int :=
  {s | ∃ part, part <:+: text ∧ '\n' ∉ part ∧ surplus part = s}

def endSurpluses (text : List Char) : Set Int :=
  {s | ∃ part, part <:+ text ∧ '\n' ∉ part ∧ surplus part = s}

def offsetsOf (text : List Char) (s : Int) : Set Nat :=
  {i | i < text.length ∧ s ∈ endSurpluses (text.take (i + 1))}

def weight (c : Char) : Int := surplus [c]

theorem surplus_append (xs ys : List Char) : surplus (xs ++ ys) = surplus xs + surplus ys := by
  simp only [surplus, List.count_append]
  omega

theorem weight_eq (c : Char) : weight c = if c = '<' then 1 else if c = '>' then -1 else 0 := by
  simp only [weight, surplus, List.count_singleton, beq_iff_eq]
  split <;> split <;> simp_all

theorem zero_mem_endSurpluses (text : List Char) : 0 ∈ endSurpluses text :=
  ⟨[], List.nil_suffix, by simp, rfl⟩

section Append

variable {before : List Char} {c : Char} {s : Int} {i : Nat}

/-- No part reaches over a line feed. -/
theorem mem_endSurpluses_feed : s ∈ endSurpluses (before ++ ['\n']) ↔ s = 0 := by
  constructor
  · rintro ⟨part, hpart, hfeed, rfl⟩
    rcases List.suffix_concat_iff.1 hpart with rfl | ⟨front, rfl, _⟩
    · rfl
    · simp at hfeed
  · rintro rfl
    exact zero_mem_endSurpluses _

theorem mem_endSurpluses_append (hc : c ≠ '\n') :
    s ∈ endSurpluses (before ++ [c]) ↔ s = 0 ∨ ∃ r ∈ endSurpluses before, s = r + weight c := by
  constructor
  · rintro ⟨part, hpart, hfeed, rfl⟩
    rcases List.suffix_concat_iff.1 hpart with rfl | ⟨front, rfl, hfront⟩
    · exact .inl rfl
    · exact .inr ⟨surplus front, ⟨front, hfront, by simp_all, rfl⟩, surplus_append front [c]⟩
  · rintro (rfl | ⟨_, ⟨front, hfront, hfeed, rfl⟩, rfl⟩)
    · exact zero_mem_endSurpluses _
    · refine ⟨front ++ [c], List.suffix_concat_iff.2 (.inr ⟨front, rfl, hfront⟩), ?_,
        surplus_append front [c]⟩
      simp [hfeed, hc.symm]

theorem mem_surpluses_append :
    s ∈ surpluses (before ++ [c]) ↔ s ∈ endSurpluses (before ++ [c]) ∨ s ∈ surpluses before := by
  simp only [surpluses, endSurpluses, Set.mem_ofPred_eq, List.infix_concat_iff, or_and_right, exists_or]

theorem mem_offsetsOf_append :
    i ∈ offsetsOf (before ++ [c]) s ↔
      i ∈ offsetsOf before s ∨ i = before.length ∧ s ∈ endSurpluses (before ++ [c]) := by
  have hcases : i < (before ++ [c]).length ↔ i < before.length ∨ i = before.length := by
    simp only [List.length_append, List.length_singleton]
    omega
  simp only [offsetsOf, Set.mem_ofPred_eq, hcases, or_and_right]
  refine or_congr (and_congr_right fun hi => ?_) (and_congr_right fun hi => ?_)
  · rw [List.take_append_of_le_length hi]
  · rw [List.take_of_length_le (by simp [hi])]

end Append

structure Scan.Knows (s : Scan) (before : List Char) : Prop where
  depth : IsGreatest (endSurpluses before) (s.depth : Int)
  deepest : IsGreatest (surpluses before) (s.deepest : Int)
  /-- If no bracket is open anywhere, the offset is that of the beginning. -/
  offset_eq : s.deepest = 0 → s.offset = 0
  offset : 0 < s.deepest → IsLeast (offsetsOf before s.deepest) s.offset

namespace Scan

variable {s : Scan} {before : List Char}

theorem Knows.depth_le (h : s.Knows before) : s.depth ≤ s.deepest := by
  obtain ⟨part, hpart, hfeed, hsurplus⟩ := h.depth.1
  exact_mod_cast h.deepest.2 ⟨part, hpart.isInfix, hfeed, hsurplus⟩

/-- The depth after one more character, as a whole number. -/
theorem depth_step (s : Scan) (offset : Nat) (c : Char) :
    ((s.step offset c).depth : Int) = if c = '\n' then 0 else max 0 (s.depth + weight c) := by
  rw [weight_eq, step]
  by_cases hopen : c = '<'
  · rw [if_pos hopen]
    split <;> simp [hopen] <;> omega
  · by_cases hclose : c = '>'
    · simp [hclose]
      omega
    · by_cases hfeed : c = '\n' <;> simp [hopen, hclose, hfeed]

/-- The scan goes on to a greater depth, and takes note of the offset, or keeps what it knows. -/
theorem deepest_step (offset : Nat) (c : Char) (h : s.depth ≤ s.deepest) :
    ((s.step offset c).deepest = (s.step offset c).depth ∧ s.deepest < (s.step offset c).depth ∧
      (s.step offset c).offset = offset) ∨
    ((s.step offset c).depth ≤ s.deepest ∧ (s.step offset c).deepest = s.deepest ∧
      (s.step offset c).offset = s.offset) := by
  rw [step]
  split
  · split
    · exact .inl ⟨rfl, by assumption, rfl⟩
    · exact .inr ⟨by simp only; omega, rfl, rfl⟩
  · split
    · exact .inr ⟨by simp only; omega, rfl, rfl⟩
    · split
      · exact .inr ⟨Nat.zero_le _, rfl, rfl⟩
      · exact .inr ⟨h, rfl, rfl⟩

theorem Knows.depth_append (h : s.Knows before) (offset : Nat) (c : Char) :
    IsGreatest (endSurpluses (before ++ [c])) ((s.step offset c).depth : Int) := by
  rw [depth_step]
  by_cases hc : c = '\n'
  · subst hc
    exact ⟨mem_endSurpluses_feed.2 rfl, fun r hr => (mem_endSurpluses_feed.1 hr).le⟩
  · rw [if_neg hc]
    constructor
    · rw [mem_endSurpluses_append hc]
      rcases max_choice 0 (s.depth + weight c) with hmax | hmax
      · exact .inl hmax
      · exact .inr ⟨s.depth, h.depth.1, hmax⟩
    · intro r hr
      rcases (mem_endSurpluses_append hc).1 hr with rfl | ⟨q, hq, rfl⟩
      · exact le_max_left _ _
      · have hle := h.depth.2 hq
        exact le_max_of_le_right (by omega)

theorem knows_nil : Knows ⟨0, 0, 0⟩ [] := by
  refine ⟨⟨zero_mem_endSurpluses [], ?_⟩, ⟨⟨[], List.infix_rfl, by simp, rfl⟩, ?_⟩, fun _ => rfl,
    fun hpos => absurd hpos (Nat.lt_irrefl 0)⟩
  · rintro _ ⟨part, hpart, _, rfl⟩
    rw [List.suffix_nil.1 hpart]
    rfl
  · rintro _ ⟨part, hpart, _, rfl⟩
    rw [List.infix_nil.1 hpart]
    rfl

/-- One more character. A part that ends with it is new, all others were there before. -/
theorem Knows.step (h : s.Knows before) (c : Char) :
    (s.step before.length c).Knows (before ++ [c]) := by
  have hdepth := h.depth_append before.length c
  rcases deepest_step before.length c h.depth_le with ⟨hdeepest, hlt, hoffset⟩ | ⟨hle, hdeepest, hoffset⟩
  · -- No part before had the new surplus, so the character here is the first to end one.
    have hold : ∀ r ∈ surpluses before, r < ((s.step before.length c).depth : Int) := by
      intro r hr
      have hr := h.deepest.2 hr
      omega
    refine ⟨hdepth, ?_, by omega, fun _ => ?_⟩
    · rw [hdeepest]
      refine ⟨mem_surpluses_append.2 (.inl hdepth.1), fun r hr => ?_⟩
      rcases mem_surpluses_append.1 hr with hnew | hold'
      · exact hdepth.2 hnew
      · exact (hold r hold').le
    · rw [hdeepest, hoffset]
      refine ⟨mem_offsetsOf_append.2 (.inr ⟨rfl, hdepth.1⟩), fun i hi => ?_⟩
      rcases mem_offsetsOf_append.1 hi with ⟨_, part, hpart, hfeed, hsurplus⟩ | ⟨rfl, _⟩
      · have htake : before.take (i + 1) <:+: before := ⟨[], before.drop (i + 1), by simp⟩
        exact absurd (hold _ ⟨part, hpart.isInfix.trans htake, hfeed, hsurplus⟩) (lt_irrefl _)
      · exact le_rfl
  · refine ⟨hdepth, ?_, by rw [hdeepest, hoffset]; exact h.offset_eq, ?_⟩
    · rw [hdeepest]
      refine ⟨mem_surpluses_append.2 (.inr h.deepest.1), fun r hr => ?_⟩
      rcases mem_surpluses_append.1 hr with hnew | hold
      · have hr := hdepth.2 hnew
        omega
      · exact h.deepest.2 hold
    · rw [hdeepest, hoffset]
      intro hpos
      obtain ⟨hmem, hleast⟩ := h.offset hpos
      refine ⟨mem_offsetsOf_append.2 (.inl hmem), fun i hi => ?_⟩
      rcases mem_offsetsOf_append.1 hi with hold | ⟨rfl, _⟩
      · exact hleast hold
      · exact hmem.1.le

theorem Knows.run (h : s.Knows before) (rest : List Char) :
    (s.run before.length rest).Knows (before ++ rest) := by
  induction rest generalizing s before with
  | nil => simpa [Scan.run] using h
  | cons c rest ih => simpa [Scan.run] using ih (h.step c)

end Scan

/-- The error on nested references reports the greatest surplus of opening brackets over all parts of
lines, zero for the empty part. It is placed at the first character with which a part of that surplus
ends, or at the beginning if no bracket is open anywhere. -/
theorem error_at_deepest (source file : String) :
    ∃ (depth offset : Nat) (loc : Loc),
      error source.toList = .nested depth loc ∧
      IsGreatest (surpluses source.toList) (depth : Int) ∧
      (depth = 0 → offset = 0) ∧
      (0 < depth → IsLeast (offsetsOf source.toList depth) offset) ∧
      (∃ before current, source.toList.take offset = before ++ current ∧ BeginsLine before ∧
        '\n' ∉ current ∧ loc = ⟨before.count '\n' + 1, current.length + 1⟩) ∧
      loc.offset? source.toList = some offset ∧
      ((error source.toList).diagnostic source file).message =
        s!"state reference nested {depth} levels deep is too deep to parse" ∧
      ((error source.toList).diagnostic source file).span = .ofLoc file loc := by
  have hknows := Scan.knows_nil.run source.toList
  generalize hscan : Scan.run ⟨0, 0, 0⟩ ([] : List Char).length source.toList = scan at hknows
  have herror : error source.toList =
      .nested scan.deepest (Loc.ofOffset source.toList scan.offset) := by
    rw [← hscan]
    rfl
  have hoffset : scan.offset ≤ source.toList.length := by
    rcases Nat.eq_zero_or_pos scan.deepest with hzero | hpos
    · simp [hknows.offset_eq hzero]
    · exact (hknows.offset hpos).1.1.le
  obtain ⟨before, current, hsplit, hbefore, hcurrent⟩ :=
    exists_beginsLine (source.toList.take scan.offset)
  have hloc : Loc.ofOffset source.toList scan.offset = ⟨before.count '\n' + 1, current.length + 1⟩ := by
    rw [Loc.ofOffset, hsplit, Loc.start_advance hbefore hcurrent]
  refine ⟨scan.deepest, scan.offset, _, herror, hknows.deepest, hknows.offset_eq, hknows.offset,
    ⟨before, current, hsplit, hbefore, hcurrent, hloc⟩, Loc.offset?_ofOffset hoffset, ?_, ?_⟩
  · rw [herror]
    rfl
  · rw [herror]
    exact Span.orUnknown_ofLoc (by simp [hloc]) file

/-- Closing brackets without a partner count for nothing, and the second of two deepest brackets is not
reported. -/
example : error ">><a<\n<b<".toList = .nested 2 ⟨1, 5⟩ := by decide

end GenericTuring.Nesting
