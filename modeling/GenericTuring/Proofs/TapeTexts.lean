import GenericTuring.Proofs.Regular
import GenericTuring.Proofs.Steps
import GenericTuring.Proofs.Tapes
import Mathlib

/-!
What is on a tape, and how it is written down. A tape keeps its marks and no blank, so tapes are the same if
they read the same everywhere. A tape of single characters comes back from the text it is rendered as, and a
text comes back from its tape but for what stands for blanks.
-/

namespace GenericTuring

namespace Symbol

def Single (s : Symbol) : Prop :=
  ∀ text, s = .mark text → ∃ c, text = String.singleton c ∧ c ≠ ' ' ∧ c ≠ '_'

theorem Plain.single {s : Symbol} (h : s.Plain) : s.Single := by
  intro text hs
  obtain ⟨c, hc, hspace, hunderscore, _⟩ := h text hs
  exact ⟨c, hc, hspace, hunderscore⟩

theorem ofChar_eq_blank {c : Char} : ofChar c = .blank ↔ c = ' ' ∨ c = '_' := by
  simp only [ofChar, Bool.or_eq_true, decide_eq_true_eq, ite_eq_left_iff, reduceCtorEq, imp_false,
    Decidable.not_not]

theorem ofChar_of_ne {c : Char} (hspace : c ≠ ' ') (hunderscore : c ≠ '_') :
    ofChar c = .mark (String.singleton c) := by
  simp [ofChar, hspace, hunderscore]

theorem single_ofChar (c : Char) : (ofChar c).Single := by
  intro text htext
  by_cases hblank : c = ' ' ∨ c = '_'
  · simp [ofChar_eq_blank.2 hblank] at htext
  · obtain ⟨hspace, hunderscore⟩ := not_or.1 hblank
    rw [ofChar_of_ne hspace hunderscore] at htext
    exact ⟨c, (Symbol.mark.inj htext).symm, hspace, hunderscore⟩

theorem Single.exists_char {s : Symbol} (h : s.Single) : ∃ c, c ≠ ' ' ∧ ofChar c = s := by
  cases s with
  | blank => exact ⟨'_', by decide, ofChar_eq_blank.2 (.inr rfl)⟩
  | mark text =>
    obtain ⟨c, rfl, hspace, hunderscore⟩ := h text rfl
    exact ⟨c, hspace, ofChar_of_ne hspace hunderscore⟩

/-- A cell shows the character it was marked with, or the underscore. -/
theorem cell_ofChar {c : Char} (h : c ≠ ' ') : (ofChar c).cell "_" = String.singleton c := by
  by_cases hunderscore : c = '_'
  · rw [hunderscore, ofChar_eq_blank.2 (.inr rfl)]
    rfl
  · rw [ofChar_of_ne h hunderscore]
    rfl

end Symbol

namespace Tape

variable {t u : Tape} {pos lo hi : Int}

section Marks

theorem read_eq_mark {text : String} : t.read pos = .mark text ↔ t.marks[pos]? = some text := by
  rw [read]
  cases t.marks[pos]? <;> simp

theorem read_eq_blank : t.read pos = .blank ↔ t.marks[pos]? = none := by
  rw [read]
  cases t.marks[pos]? <;> simp

theorem mem_marks : pos ∈ t.marks ↔ t.read pos ≠ .blank := by
  rw [ne_eq, read_eq_blank, Std.TreeMap.mem_iff_isSome_getElem?, ← Option.ne_none_iff_isSome]

theorem mem_cells {text : String} : (pos, text) ∈ t.cells ↔ t.read pos = .mark text := by
  rw [cells, Std.TreeMap.mem_toList_iff_getElem?_eq_some, read_eq_mark]

theorem getElem?_marks_eq_iff : t.marks[pos]? = u.marks[pos]? ↔ t.read pos = u.read pos := by
  rw [read, read]
  cases t.marks[pos]? <;> cases u.marks[pos]? <;> simp

theorem same_iff : t.same u = true ↔ ∀ pos, t.read pos = u.read pos := by
  rw [same, beq_iff_eq, cells, cells, ← Std.TreeMap.equiv_iff_toList_eq]
  constructor
  · intro h pos
    exact getElem?_marks_eq_iff.1 h.getElem?_eq
  · intro h
    exact .of_forall_constGet?_eq fun pos => getElem?_marks_eq_iff.2 (h pos)

theorem bounds_eq (t : Tape) :
    t.bounds = t.marks.minKey?.bind fun lo => t.marks.maxKey?.map fun hi => (lo, hi) := by
  cases hlo : t.marks.minKey? <;> cases hhi : t.marks.maxKey? <;> simp [bounds, hlo, hhi]

theorem bounds_eq_none_iff : t.bounds = none ↔ ∀ pos, t.read pos = .blank := by
  have hempty : t.marks.isEmpty = true ↔ ∀ pos, t.read pos = .blank := by
    simp only [Std.TreeMap.isEmpty_iff_forall_not_mem, mem_marks, ne_eq, not_not]
  rw [← hempty, bounds_eq, Option.bind_eq_none_iff]
  constructor
  · intro h
    cases hlo : t.marks.minKey? with
    | none => exact Std.TreeMap.minKey?_eq_none_iff.1 hlo
    | some lo => exact Std.TreeMap.maxKey?_eq_none_iff.1 (Option.map_eq_none_iff.1 (h lo hlo))
  · intro h lo hlo
    simp [Std.TreeMap.minKey?_eq_none_iff.2 h] at hlo

theorem bounds_eq_some_iff : t.bounds = some (lo, hi) ↔
    IsLeast {pos | t.read pos ≠ .blank} lo ∧ IsGreatest {pos | t.read pos ≠ .blank} hi := by
  have hlo : t.marks.minKey? = some lo ↔ IsLeast {pos | t.read pos ≠ .blank} lo := by
    simp only [Std.TreeMap.minKey?_eq_some_iff_mem_and_forall, mem_marks, Int.isLE_compare]
    rfl
  have hhi : t.marks.maxKey? = some hi ↔ IsGreatest {pos | t.read pos ≠ .blank} hi := by
    simp only [Std.TreeMap.maxKey?_eq_some_iff_mem_and_forall, mem_marks, Int.isLE_compare]
    rfl
  rw [← hlo, ← hhi, bounds_eq]
  cases t.marks.minKey? <;> cases t.marks.maxKey? <;> simp

end Marks

section Building

inductive Built : Tape → Prop
  | ofCells (cells : List (Int × Symbol)) : Built (ofCells cells)
  | ofText (text : String) (offset : Int) : Built (ofText text offset)
  | write {t : Tape} (h : Built t) (pos : Int) (s : Symbol) : Built (t.write pos s)

/-- The tape remembers when a cell was marked exactly as long as the cell is marked. -/
def Tidy (t : Tape) : Prop := ∀ pos, pos ∈ t.order ↔ t.read pos ≠ .blank

theorem tidy_empty : empty.Tidy := by
  intro pos
  simp [empty, read]

theorem Tidy.write (h : t.Tidy) (pos : Int) (s : Symbol) : (t.write pos s).Tidy := by
  intro other
  rw [read_write]
  by_cases hother : other = pos
  · subst hother
    rw [if_pos rfl]
    cases s with
    | blank => simp [Tape.write]
    | mark text =>
      by_cases hmarked : t.marks.contains other = true
      · have hmem := (h other).2 (mem_marks.1 hmarked)
        simp [Tape.write, hmarked, hmem]
      · simp [Tape.write, hmarked]
  · rw [if_neg hother, ← h other]
    have hne : pos ≠ other := Ne.symm hother
    cases s with
    | blank => simp [Tape.write, hne]
    | mark text => by_cases hmarked : t.marks.contains pos = true <;> simp [Tape.write, hmarked, hne]

theorem Tidy.foldl_write {α : Type} (pos : α → Int) (s : α → Symbol) (cells : List α) (h : t.Tidy) :
    (cells.foldl (fun t cell => t.write (pos cell) (s cell)) t).Tidy := by
  induction cells generalizing t with
  | nil => exact h
  | cons cell cells ih => exact ih (h.write (pos cell) (s cell))

theorem Built.tidy (h : t.Built) : t.Tidy := by
  induction h with
  | ofCells cells => exact tidy_empty.foldl_write id _ _
  | ofText text offset => exact tidy_empty.foldl_write Prod.fst Prod.snd _
  | write _ pos s ih => exact ih.write pos s

theorem read_foldl_write (s : Int → Symbol) (places : List Int) (t : Tape) (pos : Int) :
    (places.foldl (fun t place => t.write place (s place)) t).read pos =
      if pos ∈ places then s pos else t.read pos := by
  induction places generalizing t with
  | nil => simp
  | cons place places ih =>
    rw [List.foldl_cons, ih, read_write]
    by_cases hpos : pos = place <;> simp [hpos]

/-- A tape made from cells holds the last symbol given for each position. -/
theorem read_ofCells (cells : List (Int × Symbol)) (pos : Int) :
    (ofCells cells).read pos = (cells.reverse.lookup pos).getD .blank := by
  rw [ofCells, read_foldl_write, read_empty]
  by_cases hpos : pos ∈ (cells.map Prod.fst).eraseDups
  · rw [if_pos hpos]
  · have hnone : cells.reverse.lookup pos = none := by
      refine List.lookup_eq_none_iff.2 fun cell hcell => bne_iff_ne.2 fun heq => hpos ?_
      rw [List.mem_eraseDups, heq]
      exact List.mem_map_of_mem (List.mem_reverse.1 hcell)
    rw [if_neg hpos, hnone, Option.getD_none]

def laid (offset : Int) (symbols : List Symbol) (pos : Int) : Symbol :=
  if pos < offset then .blank else symbols[(pos - offset).toNat]?.getD .blank

theorem read_foldl_zipIdx (offset : Int) (cs : List Char) (k : Nat) (t : Tape) (pos : Int) :
    (((cs.zipIdx k).map fun e => (offset + (e.2 : Int), Symbol.ofChar e.1)).foldl
      (fun t cell => t.write cell.1 cell.2) t).read pos =
    if pos < offset + k then t.read pos
    else (cs.map Symbol.ofChar)[(pos - (offset + k)).toNat]?.getD (t.read pos) := by
  induction cs generalizing k t with
  | nil => simp
  | cons c cs ih =>
    rw [List.zipIdx_cons, List.map_cons, List.foldl_cons, ih, read_write]
    obtain hlt | rfl | hgt := lt_trichotomy pos (offset + k)
    · have hnext : pos < offset + ((k + 1 : Nat) : Int) := by omega
      rw [if_pos hnext, if_pos hlt, if_neg hlt.ne]
    · simp
    · have hindex : (pos - (offset + k)).toNat = (pos - (offset + ((k + 1 : Nat) : Int))).toNat + 1 := by
        omega
      rw [if_neg (by omega), if_neg hgt.ne', if_neg (by omega), hindex, List.map_cons,
        List.getElem?_cons_succ]

theorem read_ofText (text : String) (offset pos : Int) :
    (ofText text offset).read pos = laid offset (text.toList.map Symbol.ofChar) pos := by
  have h := read_foldl_zipIdx offset text.toList 0 empty pos
  simp only [Nat.cast_zero, add_zero, read_empty] at h
  exact h

end Building

section Texts

theorem getD_append_of_blank {symbols behind : List Symbol} (h : ∀ s ∈ behind, s = .blank) (i : Nat) :
    (symbols ++ behind)[i]?.getD .blank = symbols[i]?.getD .blank := by
  by_cases hi : i < symbols.length
  · rw [List.getElem?_append_left hi]
  · rw [List.getElem?_append_right (by omega), List.getElem?_eq_none (by omega : symbols.length ≤ i)]
    cases hs : behind[i - symbols.length]? with
    | none => rfl
    | some s => exact h s (List.mem_of_getElem? hs)

theorem render_of_bounds (h : t.bounds = some (lo, hi)) :
    t.render = renderCells ((positions lo hi).map t.read) := by
  simp only [render, h]

/-- Blanks at either end make no difference but for where the rest begins. -/
theorem laid_append_of_blank {before symbols behind : List Symbol} (hbefore : ∀ s ∈ before, s = .blank)
    (hbehind : ∀ s ∈ behind, s = .blank) (offset pos : Int) :
    laid offset (before ++ symbols ++ behind) pos = laid (offset + before.length) symbols pos := by
  rw [laid, laid, getD_append_of_blank hbehind]
  by_cases hpos : pos < offset + before.length
  · rw [if_pos hpos]
    by_cases hoffset : pos < offset
    · rw [if_pos hoffset]
    · rw [if_neg hoffset, List.getElem?_append_left (by omega)]
      cases hs : before[(pos - offset).toNat]? with
      | none => rfl
      | some s => exact hbefore s (List.mem_of_getElem? hs)
  · rw [if_neg hpos, if_neg (by omega), List.getElem?_append_right (by omega)]
    congr 3
    omega

theorem laid_add (symbols : List Symbol) (lo : Int) (i : Nat) :
    laid lo symbols (lo + i) = symbols[i]?.getD .blank := by
  simp [laid]

/-- Positions that are not blank lie where the symbols are laid out. -/
theorem mem_of_laid_ne_blank {symbols : List Symbol} (h : laid lo symbols pos ≠ .blank) :
    lo ≤ pos ∧ pos ≤ lo + symbols.length - 1 := by
  by_contra hout
  refine h ?_
  rw [laid]
  by_cases hpos : pos < lo
  · rw [if_pos hpos]
  · rw [if_neg hpos, List.getElem?_eq_none (by omega), Option.getD_none]

theorem map_positions_laid (symbols : List Symbol) (lo : Int) :
    (positions lo (lo + symbols.length - 1)).map (laid lo symbols) = symbols := by
  have hlength : (lo + (symbols.length : Int) - 1 - lo + 1).toNat = symbols.length := by omega
  rw [positions, hlength, List.map_map]
  refine List.ext_getElem (by simp) fun i _ hi => ?_
  simp [laid_add, hi]

/-- The symbols between the outermost marks, laid out from the first one, make up the tape. -/
theorem laid_map_positions {read : Int → Symbol} (h : ∀ pos, read pos ≠ .blank → lo ≤ pos ∧ pos ≤ hi)
    (pos : Int) : laid lo ((positions lo hi).map read) pos = read pos := by
  by_cases hin : lo ≤ pos ∧ pos ≤ hi
  · have hlt : (pos - lo).toNat < (hi - lo + 1).toNat := by omega
    have hpos : lo + ((pos - lo).toNat : Int) = pos := by omega
    rw [laid, if_neg (by omega), positions, List.map_map, List.getElem?_map, List.getElem?_range hlt]
    simp only [Option.map_some, Option.getD_some, Function.comp_apply, hpos]
  · have hblank : read pos = .blank := by
      by_contra hmarked
      exact hin (h pos hmarked)
    rw [hblank]
    by_contra hlaid
    have hmem := mem_of_laid_ne_blank hlaid
    simp only [positions, List.length_map, List.length_range] at hmem
    omega

theorem laid_ne_blank {symbols : List Symbol} {i : Nat} {s : Symbol} (hs : symbols[i]? = some s)
    (hblank : s ≠ .blank) (hpos : pos = lo + i) : laid lo symbols pos ≠ .blank := by
  rw [hpos, laid_add, hs]
  exact hblank

/-- Symbols without a blank at either end are what the tape is rendered as. -/
theorem render_of_laid {symbols : List Symbol} (hread : ∀ pos, t.read pos = laid lo symbols pos)
    (hhead : ∀ s ∈ symbols.head?, s ≠ .blank) (hlast : ∀ s ∈ symbols.getLast?, s ≠ .blank) :
    t.render = renderCells symbols := by
  by_cases hnil : symbols = []
  · have hbounds : t.bounds = none := bounds_eq_none_iff.2 fun pos => by simp [hread, hnil, laid]
    rw [render, hbounds, hnil]
    rfl
  · have hpos : 0 < symbols.length := List.length_pos_iff.2 hnil
    obtain ⟨first, hfirst⟩ := Option.ne_none_iff_exists'.1 (mt List.head?_eq_none_iff.1 hnil)
    obtain ⟨last, hfinal⟩ := Option.ne_none_iff_exists'.1 (mt List.getLast?_eq_none_iff.1 hnil)
    have hlo : t.read lo ≠ .blank := by
      rw [hread]
      exact laid_ne_blank (List.head?_eq_getElem?.symm.trans hfirst) (hhead first hfirst) (by simp)
    have hhi : t.read (lo + symbols.length - 1) ≠ .blank := by
      rw [hread]
      exact laid_ne_blank (List.getLast?_eq_getElem?.symm.trans hfinal) (hlast last hfinal) (by omega)
    have hmem : ∀ pos, t.read pos ≠ .blank → lo ≤ pos ∧ pos ≤ lo + symbols.length - 1 :=
      fun pos h => mem_of_laid_ne_blank (hread pos ▸ h)
    have hbounds : t.bounds = some (lo, lo + symbols.length - 1) :=
      bounds_eq_some_iff.2 ⟨⟨hlo, fun pos h => (hmem pos h).1⟩, hhi, fun pos h => (hmem pos h).2⟩
    rw [render_of_bounds hbounds, funext hread, map_positions_laid]

theorem renderCells_map_ofChar {cs : List Char} (h : ' ' ∉ cs) :
    renderCells (cs.map Symbol.ofChar) = String.ofList cs := by
  induction cs with
  | nil => rfl
  | cons c cs ih =>
    obtain ⟨hc, hcs⟩ := not_or.1 (mt List.mem_cons.2 h)
    have hrest := ih hcs
    simp only [renderCells, List.map_cons, String.join_cons, Symbol.cell_ofChar (Ne.symm hc)] at hrest ⊢
    rw [hrest, ← List.singleton_append, String.ofList_append]
    rfl

theorem exists_chars {symbols : List Symbol} (h : ∀ s ∈ symbols, s.Single) :
    ∃ cs : List Char, ' ' ∉ cs ∧ cs.map Symbol.ofChar = symbols := by
  induction symbols with
  | nil => exact ⟨[], by simp, rfl⟩
  | cons s symbols ih =>
    obtain ⟨c, hc, hs⟩ := (h s List.mem_cons_self).exists_char
    obtain ⟨cs, hcs, hsymbols⟩ := ih fun s hs => h s (List.mem_cons_of_mem _ hs)
    exact ⟨c :: cs, by simp [hcs, Ne.symm hc], by simp [hs, hsymbols]⟩

/-- A tape of single characters comes back from what it is rendered as, put where its first mark was. -/
theorem same_ofText_render (h : t.Holds Symbol.Single) (hlo : ∀ ends ∈ t.bounds, ends.1 = lo) :
    (ofText t.render lo).same t = true := by
  rw [same_iff]
  intro pos
  rw [read_ofText]
  cases hbounds : t.bounds with
  | none => simp [render, hbounds, laid, bounds_eq_none_iff.1 hbounds pos]
  | some ends =>
    obtain ⟨first, hi⟩ := ends
    obtain rfl : first = lo := hlo (first, hi) hbounds
    obtain ⟨hleast, hgreatest⟩ := bounds_eq_some_iff.1 hbounds
    have hsingle : ∀ s ∈ (positions first hi).map t.read, s.Single := by simp [h _]
    obtain ⟨cs, hspace, hcs⟩ := exists_chars hsingle
    rw [render_of_bounds hbounds, ← hcs, renderCells_map_ofChar hspace, String.toList_ofList, hcs]
    exact laid_map_positions (fun pos hpos => ⟨hleast.2 hpos, hgreatest.2 hpos⟩) pos

def underscore (c : Char) : Char := if c = ' ' then '_' else c

def underscored (text : String) : String :=
  String.ofList (((text.toList.map underscore).dropWhile (· == '_')).rdropWhile (· == '_'))

theorem ofChar_underscore (c : Char) : Symbol.ofChar (underscore c) = Symbol.ofChar c := by
  by_cases h : c = ' '
  · rw [h]
    rfl
  · rw [underscore, if_neg h]

theorem space_notMem_map_underscore (cs : List Char) : ' ' ∉ cs.map underscore := by
  intro h
  obtain ⟨c, _, hc⟩ := List.mem_map.1 h
  by_cases hspace : c = ' ' <;> simp [underscore, hspace] at hc

/-- What is dropped at both ends of a list, and what the rest begins and ends with. -/
theorem exists_dropped {α : Type} (p : α → Bool) (xs : List α) :
    ∃ before behind, xs = before ++ (xs.dropWhile p).rdropWhile p ++ behind ∧
      (∀ x ∈ before, p x = true) ∧ (∀ x ∈ behind, p x = true) ∧
      (∀ x ∈ ((xs.dropWhile p).rdropWhile p).head?, p x = false) ∧
      ∀ x ∈ ((xs.dropWhile p).rdropWhile p).getLast?, p x = false := by
  refine ⟨xs.takeWhile p, (xs.dropWhile p).rtakeWhile p, ?_, ?_, ?_, ?_, ?_⟩
  · rw [List.append_assoc, List.rdropWhile_append_rtakeWhile, List.takeWhile_append_dropWhile]
  · exact fun x hx => List.mem_takeWhile_imp hx
  · exact fun x hx => List.mem_rtakeWhile_imp hx
  · intro x hx
    obtain ⟨rest, hrest⟩ := List.rdropWhile_prefix p (l := xs.dropWhile p)
    have hhead : (xs.dropWhile p).head? = some x := by
      rw [← hrest, List.head?_append, Option.mem_def.1 hx, Option.some_or]
    have hnot := List.head?_dropWhile_not p xs
    rw [hhead] at hnot
    exact hnot
  · intro x hx
    obtain ⟨hne, rfl⟩ := List.mem_getLast?_eq_getLast hx
    simpa using List.rdropWhile_last_not p _ hne

/-- Underscores leave blanks. -/
theorem eq_blank_of_underscores {cs : List Char} (h : ∀ c ∈ cs, (c == '_') = true) :
    ∀ s ∈ cs.map Symbol.ofChar, s = .blank := by
  intro s hs
  obtain ⟨c, hc, rfl⟩ := List.mem_map.1 hs
  exact Symbol.ofChar_eq_blank.2 (.inr (beq_iff_eq.1 (h c hc)))

theorem render_ofText (text : String) (offset : Int) :
    (ofText text offset).render = underscored text := by
  obtain ⟨before, behind, hsplit, hbefore, hbehind, hhead, hlast⟩ :=
    exists_dropped (· == '_') (text.toList.map underscore)
  rw [underscored]
  generalize ((text.toList.map underscore).dropWhile (· == '_')).rdropWhile (· == '_') = kept at *
  have hsymbols : text.toList.map Symbol.ofChar =
      before.map Symbol.ofChar ++ kept.map Symbol.ofChar ++ behind.map Symbol.ofChar := by
    rw [← List.map_append, ← List.map_append, ← hsplit, List.map_map]
    exact List.map_congr_left fun c _ => (ofChar_underscore c).symm
  have hspace : ' ' ∉ kept := by
    intro h
    refine space_notMem_map_underscore text.toList ?_
    rw [hsplit]
    exact List.mem_append_left _ (List.mem_append_right _ h)
  have hmarked : ∀ c ∈ kept, (c == '_') = false → Symbol.ofChar c ≠ .blank := by
    intro c hc hne
    rw [Symbol.ofChar_of_ne (fun heq => hspace (heq ▸ hc)) (by simpa using hne)]
    exact Symbol.noConfusion
  -- What is dropped in front moves the rest back by as many cells, so the tape itself stays the same.
  have hread : ∀ pos, (ofText text offset).read pos =
      laid (offset + before.length) (kept.map Symbol.ofChar) pos := by
    intro pos
    rw [read_ofText, hsymbols, laid_append_of_blank (eq_blank_of_underscores hbefore)
      (eq_blank_of_underscores hbehind), List.length_map]
  rw [render_of_laid hread, renderCells_map_ofChar hspace]
  · intro s hs
    obtain ⟨c, hc, rfl⟩ := Option.map_eq_some_iff.1 (List.head?_map.symm.trans hs)
    exact hmarked c (List.mem_of_head? hc) (hhead c hc)
  · intro s hs
    obtain ⟨c, hc, rfl⟩ := Option.map_eq_some_iff.1 (List.getLast?_map.symm.trans hs)
    exact hmarked c (List.mem_of_getLast? hc) (hlast c hc)

end Texts

end Tape

namespace Machine

/-- What every write of a table keeps holds of the tape after any number of steps. -/
theorem tape_of_stepped (kept : Tape → Prop) {m m' : Machine} {n : Nat}
    (hwrite : ∀ key symbol tr, m.table.lookup key symbol = some tr →
      ∀ tape pos, kept tape → kept (tape.write pos tr.write))
    (h : m.stepped n = .ok m') (hm : kept m.state.tape) : kept m'.state.tape := by
  induction n generalizing m with
  | zero =>
    obtain rfl : m = m' := Except.ok.inj h
    exact hm
  | succ n ih =>
    obtain ⟨r, next, hstep, hrest⟩ := exists_step_of_stepped h
    obtain ⟨hrunning, tr, hnext⟩ := running_of_step hstep
    obtain ⟨moved, hmoved, htable, hstate⟩ := step_of_next hrunning hnext
    obtain ⟨_, rfl⟩ := Prod.mk.inj (Except.ok.inj (hmoved.symm.trans hstep))
    refine ih (by rwa [htable]) hrest ?_
    rw [hstate]
    exact hwrite _ _ tr hnext _ _ hm

end Machine

namespace Tape

theorem built_and_single_of_stepped {source file : String} {p : Program} {table : Table}
    (hp : Program.parse source file = .ok p) (ht : p.expand = .ok table) {text : String} {offset : Int}
    {settings : Settings} {n : Nat} {m : Machine}
    (h : (Machine.new table (ofText text offset) settings).stepped n = .ok m) :
    m.state.tape.Built ∧ m.state.tape.Holds Symbol.Single := by
  have hregular := Program.regular_of_parse hp ht
  refine Machine.tape_of_stepped (fun tape => tape.Built ∧ tape.Holds Symbol.Single) ?_ h
    ⟨.ofText text offset, holds_ofText (by simp [Symbol.Single]) Symbol.single_ofChar text offset⟩
  intro key symbol tr htr tape pos htape
  have hplain : tr.write.Plain := hregular.write _ (hregular.lookup_eq_some.1 htr)
  exact ⟨htape.1.write pos tr.write, htape.2.write hplain.single pos⟩

/-- For every tape made from cells or from a text and written on: it stores its marks and no blank; it is
the same as another if they read the same everywhere; and it has bounds unless every position is blank,
which are then the first and the last position that is not. If all its symbols are single characters that
do not stand for blanks, as on every tape that a parsed program comes to from a text, then the text it is
rendered as gives the tape back, put where its first mark was. A text that is put on a tape is rendered
with underscores for its spaces and none of them at either end. -/
theorem tape_reads_back :
    (∀ t : Tape, t.Built →
      (∀ pos text, (pos, text) ∈ t.cells ↔ t.read pos = .mark text) ∧
      (∀ pos, pos ∈ t.order ↔ t.read pos ≠ .blank) ∧
      (∀ u : Tape, u.Built → (t.same u = true ↔ ∀ pos, t.read pos = u.read pos)) ∧
      (t.bounds = none ↔ ∀ pos, t.read pos = .blank) ∧
      (∀ lo hi, t.bounds = some (lo, hi) ↔
        IsLeast {pos | t.read pos ≠ .blank} lo ∧ IsGreatest {pos | t.read pos ≠ .blank} hi) ∧
      (t.Holds Symbol.Single → ∀ lo, (∀ ends ∈ t.bounds, ends.1 = lo) →
        (ofText t.render lo).same t = true)) ∧
    (∀ cells pos, (ofCells cells).read pos = (cells.reverse.lookup pos).getD .blank) ∧
    (∀ text offset, (ofText text offset).render = underscored text) ∧
    ∀ source file p table, Program.parse source file = .ok p → p.expand = .ok table →
      ∀ text offset settings n m,
        (Machine.new table (ofText text offset) settings).stepped n = .ok m →
          m.state.tape.Built ∧ m.state.tape.Holds Symbol.Single := by
  refine ⟨fun t ht => ⟨fun pos text => mem_cells, ht.tidy, fun u _ => same_iff, bounds_eq_none_iff,
    fun lo hi => bounds_eq_some_iff, fun hsingle lo hlo => same_ofText_render hsingle hlo⟩,
    read_ofCells, render_ofText, ?_⟩
  intro source file p table hp ht text offset settings n m h
  exact built_and_single_of_stepped hp ht h

def erasing : String :=
  "start = go\ngo 1 = _; go prev\ngo _ = 'x'; back next\nback _ = _; back next\nback 0 = _; finish next\n"

set_option maxRecDepth 20000 in
theorem tape_reads_back_erasing : ∃ p table m, Program.parse erasing "erasing" = .ok p ∧
    p.expand = .ok table ∧ (Machine.new table (ofText "10 1_")).stepped 4 = .ok m ∧
    m.state.tape.Built ∧ m.state.tape.Holds Symbol.Single ∧ m.state.tape.bounds = some (-1, 3) ∧
    m.state.tape.render = "x___1" ∧ (ofText m.state.tape.render (-1)).same m.state.tape = true ∧
    (ofText " _a b_ ").render = "a_b" := by
  obtain ⟨p, hp, hany⟩ := exists_ok_of_any (x := Program.parse erasing "erasing")
    (t := fun p => p.expand.toOption.any fun table =>
      ((Machine.new table (ofText "10 1_")).stepped 4).toOption.any fun m =>
        m.state.tape.bounds == some (-1, 3) && m.state.tape.render == "x___1") (by decide_cbv)
  obtain ⟨table, ht, hrun⟩ := exists_ok_of_any hany
  obtain ⟨m, hm, hends⟩ := exists_ok_of_any hrun
  obtain ⟨hbounds, hrender⟩ : m.state.tape.bounds = some (-1, 3) ∧ m.state.tape.render = "x___1" := by
    simpa using hends
  obtain ⟨hbuilt, hsingle⟩ := tape_reads_back.2.2.2 _ _ p table hp ht _ _ _ _ m hm
  have hback := (tape_reads_back.1 m.state.tape hbuilt).2.2.2.2.2 hsingle (-1) (by simp [hbounds])
  have htext := (tape_reads_back.2.2.1 " _a b_ " 0).trans (by decide_cbv : _ = "a_b")
  exact ⟨p, table, m, hp, ht, hm, hbuilt, hsingle, hbounds, hrender, hback, htext⟩

end Tape

end GenericTuring
