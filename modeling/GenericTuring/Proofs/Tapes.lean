import GenericTuring.Tape
import Std.Data.TreeMap.Lemmas

/-!
What a tape holds after a write, and symbols that stay off a tape.
-/

namespace GenericTuring.Tape

theorem read_empty (pos : Int) : empty.read pos = .blank := by
  simp [empty, read]

/-- A write changes the cell under it and no other. -/
theorem read_write (t : Tape) (pos other : Int) (s : Symbol) :
    (t.write pos s).read other = if other = pos then s else t.read other := by
  by_cases h : other = pos
  · subst h
    cases s with
    | blank => simp [write, read]
    | mark text =>
      by_cases hmarked : t.marks.contains other = true
      · simp [write, read, hmarked]
      · simp [write, read, hmarked]
  · have hne : pos ≠ other := fun heq => h heq.symm
    cases s with
    | blank => simp [write, read, h, Std.TreeMap.getElem?_erase, hne]
    | mark text =>
      by_cases hmarked : t.marks.contains pos = true
      · simp [write, read, hmarked, h, Std.TreeMap.getElem?_insert, hne]
      · simp [write, read, hmarked, h, Std.TreeMap.getElem?_insert, hne]

def Holds (kind : Symbol → Prop) (t : Tape) : Prop := ∀ pos, kind (t.read pos)

variable {kind : Symbol → Prop}

theorem Holds.write {t : Tape} (h : t.Holds kind) {s : Symbol} (hs : kind s) (pos : Int) :
    (t.write pos s).Holds kind := by
  intro other
  rw [read_write]
  by_cases heq : other = pos
  · rw [if_pos heq]
    exact hs
  · rw [if_neg heq]
    exact h other

theorem holds_ofText (hblank : kind .blank) (hchar : ∀ c, kind (Symbol.ofChar c)) (text : String)
    (offset : Int) : (ofText text offset).Holds kind := by
  have hfold : ∀ (cells : List (Int × Symbol)) (t : Tape), (∀ cell ∈ cells, kind cell.2) →
      t.Holds kind → (cells.foldl (fun t cell => t.write cell.1 cell.2) t).Holds kind := by
    intro cells
    induction cells with
    | nil => intro t _ ht; exact ht
    | cons cell cells ih =>
      intro t hcells ht
      exact ih (t.write cell.1 cell.2) (fun c hc => hcells c (List.mem_cons_of_mem cell hc))
        (ht.write (hcells cell List.mem_cons_self) cell.1)
  refine hfold _ empty (fun cell hcell => ?_) fun pos => ?_
  · obtain ⟨entry, _, rfl⟩ := List.mem_map.1 hcell
    exact hchar entry.1
  · rw [read_empty]
    exact hblank

end GenericTuring.Tape
