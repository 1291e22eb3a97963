import GenericTuring.Proofs.Scanned

/-!
Places and offsets. A place is found in a text by counting line feeds and then the characters of its line;
this gives back the offset that the place was made from.
-/

namespace GenericTuring

namespace Text

def lineStart? : (feeds : Nat) → List Char → Option Nat
  | 0, _ => some 0
  | _ + 1, [] => none
  | n + 1, c :: cs => (lineStart? (if c = '\n' then n else n + 1) cs).map (· + 1)

def BeginsLine (before : List Char) : Prop := before = [] ∨ ∃ front, before = front ++ ['\n']

theorem lineStart?_append_feed (front rest : List Char) :
    lineStart? (front.count '\n' + 1) (front ++ '\n' :: rest) = some (front.length + 1) := by
  induction front with
  | nil => simp [lineStart?]
  | cons c front ih =>
    by_cases hc : c = '\n'
    · simp [lineStart?, hc, ih]
    · simp [lineStart?, hc, ih]

theorem lineStart?_append {before : List Char} (h : BeginsLine before) (rest : List Char) :
    lineStart? (before.count '\n') (before ++ rest) = some before.length := by
  cases h with
  | inl hnil => simp [hnil, lineStart?]
  | inr hfeed =>
    obtain ⟨front, rfl⟩ := hfeed
    simpa using lineStart?_append_feed front rest

/-- Some characters end in the middle of a line or at its beginning. -/
theorem exists_beginsLine (text : List Char) :
    ∃ before current, text = before ++ current ∧ BeginsLine before ∧ '\n' ∉ current := by
  induction text with
  | nil => exact ⟨[], [], rfl, .inl rfl, by simp⟩
  | cons c text ih =>
    obtain ⟨before, current, rfl, hbefore, hcurrent⟩ := ih
    by_cases hc : c = '\n'
    · refine ⟨c :: before, current, rfl, .inr ?_, hcurrent⟩
      cases hbefore with
      | inl hnil => exact ⟨[], by simp [hnil, hc]⟩
      | inr hfeed =>
        obtain ⟨front, rfl⟩ := hfeed
        exact ⟨c :: front, rfl⟩
    · cases hbefore with
      | inl hnil => exact ⟨[], c :: current, by simp [hnil], .inl rfl, by simp [Ne.symm hc, hcurrent]⟩
      | inr hfeed =>
        obtain ⟨front, rfl⟩ := hfeed
        exact ⟨c :: (front ++ ['\n']), current, rfl, .inr ⟨c :: front, rfl⟩, hcurrent⟩

end Text

namespace Loc

open Text

theorem line_advance (loc : Loc) (cs : List Char) :
    (loc.advance cs).line = loc.line + cs.count '\n' := by
  induction cs generalizing loc with
  | nil => rfl
  | cons c cs ih =>
    have hstep : (loc.advance (c :: cs)).line = (loc.step c).line + cs.count '\n' := ih (loc.step c)
    rw [hstep, step, List.count_cons]
    by_cases hc : c = '\n'
    · simp [hc]
      omega
    · simp [hc]

theorem line_le_advance (loc : Loc) (cs : List Char) : loc.line ≤ (loc.advance cs).line := by
  rw [line_advance]
  omega

theorem advance_of_notMem (loc : Loc) {cs : List Char} (h : '\n' ∉ cs) :
    loc.advance cs = ⟨loc.line, loc.column + cs.length⟩ := by
  induction cs generalizing loc with
  | nil => rfl
  | cons c cs ih =>
    obtain ⟨hc, hcs⟩ : c ≠ '\n' ∧ '\n' ∉ cs := by simpa [eq_comm] using h
    have hstep : loc.advance (c :: cs) = (loc.step c).advance cs := rfl
    rw [hstep, ih _ hcs, step, if_neg hc, List.length_cons, Nat.add_assoc, Nat.add_comm 1]

/-- The place after the characters of the lines before it and of its own line. -/
theorem start_advance {before current : List Char} (hbefore : BeginsLine before)
    (hcurrent : '\n' ∉ current) :
    start.advance (before ++ current) = ⟨before.count '\n' + 1, current.length + 1⟩ := by
  have hline : start.advance before = ⟨before.count '\n' + 1, 1⟩ := by
    cases hbefore with
    | inl hnil => simp [hnil, advance, start]
    | inr hfeed =>
      obtain ⟨front, rfl⟩ := hfeed
      have hfeed : start.advance (front ++ ['\n']) = (start.advance front).step '\n' :=
        advance_append start front ['\n']
      rw [hfeed, step, if_pos rfl, line_advance]
      simp [start, Nat.add_comm]
  rw [advance_append, hline, advance_of_notMem _ hcurrent, Nat.add_comm 1]

/-- The offset of a place. The line begins after as many line feeds as there are lines before it, and the
columns up to the end of the line are counted from one. -/
def offset? (text : List Char) : Loc → Option Nat
  | ⟨line + 1, column + 1⟩ => do
    let begins ← lineStart? line text
    if column ≤ ((text.drop begins).takeWhile (· != '\n')).length then some (begins + column) else none
  | _ => none

theorem offset?_start_advance (taken rest : List Char) :
    offset? (taken ++ rest) (start.advance taken) = some taken.length := by
  obtain ⟨before, current, rfl, hbefore, hcurrent⟩ := exists_beginsLine taken
  have hall : ∀ c ∈ current, (c != '\n') = true := by
    intro c hc
    simpa using fun heq : c = '\n' => hcurrent (heq ▸ hc)
  have hbegins := lineStart?_append hbefore (current ++ rest)
  rw [start_advance hbefore hcurrent, List.append_assoc]
  simp [offset?, hbegins, List.takeWhile_append_of_pos hall]

theorem offset?_ofOffset {text : List Char} {offset : Nat} (h : offset ≤ text.length) :
    offset? text (ofOffset text offset) = some offset := by
  have hsplit := offset?_start_advance (text.take offset) (text.drop offset)
  rwa [List.take_append_drop, List.length_take_of_le h] at hsplit

end Loc

namespace Grammar

def Token.StandsAt (token : Token) (text : List Char) (loc : Loc) : Prop :=
  ∃ offset word rest, loc.offset? text = some offset ∧ text.drop offset = word ++ rest ∧
    token.Spells word rest

theorem Cursor.Passes.line_le {c next : Cursor} {taken : List Char} (h : c.Passes taken next) :
    c.loc.line ≤ next.loc.line := by
  rw [h.loc_eq]
  exact Loc.line_le_advance c.loc taken

/-- A token that stands further on in a text stands at the place that is kept of it. -/
theorem Placed.Follows.standsAt {text : List Char} {token : Token} {loc : Loc}
    (h : Placed.Follows (Cursor.ofOffset text 0) (token, some loc)) : token.StandsAt text loc := by
  obtain ⟨taken, here, next, hpass, ⟨word, hspells, hword⟩, hplace⟩ := h
  have htext : text = taken ++ here.rest := hpass.rest_eq
  have hloc : here.loc = Loc.start.advance taken := hpass.loc_eq
  refine ⟨taken.length, word, next.rest, ?_, ?_, hspells⟩
  · rw [← hplace loc rfl, hloc, htext]
    exact Loc.offset?_start_advance taken here.rest
  · rw [htext, List.drop_left, hword.rest_eq]

end Grammar

end GenericTuring
