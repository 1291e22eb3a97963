import GenericTuring.Text.Blank
import GenericTuring.Text.Digit
import GenericTuring.Text.Lines
import Mathlib.Data.List.DropRight

/-!
Laws of lines, pieces and trimming: a text made of lines breaks into them again, and white space at the
ends of a text does not matter to what is trimmed.
-/

namespace GenericTuring.Text

def lineEnds : List Char :=
  ['\n', '\r', '\x0b', '\x0c', '\x1c', '\x1d', '\x1e', '\u0085', '\u2028', '\u2029']

theorem mem_lineEnds {c : Char} : c ∈ lineEnds ↔ isLineEnd c = true := by
  simp [lineEnds, isLineEnd, or_assoc]

/-- Line ends are white space. -/
theorem isLineEnd_of_not_blank {c : Char} (h : isBlank c = false) : isLineEnd c = false := by
  have hends : lineEnds.all isBlank = true := by decide
  cases hend : isLineEnd c with
  | false => rfl
  | true =>
    have hblank := List.all_eq_true.1 hends c (mem_lineEnds.2 hend)
    exact absurd hblank (by simp [h])

theorem lines_newline (rest : List Char) : lines ('\n' :: rest) = [] :: lines rest := rfl

theorem lines_cons {c : Char} (hc : isLineEnd c = false) {rest first : List Char}
    {more : List (List Char)} (h : lines rest = first :: more) :
    lines (c :: rest) = (c :: first) :: more := by
  -- only a carriage return looks at the character after it
  have hcr : c ≠ '\r' := by
    intro heq
    rw [heq] at hc
    exact absurd hc (by decide)
  rw [lines.eq_def]
  split
  · simp_all
  · simp_all
  · rename_i heq
    obtain ⟨rfl, rfl⟩ := List.cons.inj heq
    rw [hc, h]
    rfl

theorem lines_append {line rest : List Char} (h : ∀ c ∈ line, isLineEnd c = false) :
    lines (line ++ '\n' :: rest) = line :: lines rest := by
  induction line with
  | nil => exact lines_newline rest
  | cons c line ih =>
    exact lines_cons (h c List.mem_cons_self) (ih fun d hd => h d (List.mem_cons_of_mem c hd))

/-- A text of closed lines breaks into these lines. -/
theorem lines_join {list : List String} (h : ∀ line ∈ list, ∀ c ∈ line.toList, isLineEnd c = false) :
    lines (String.join (list.map (· ++ "\n"))).toList = list.map String.toList := by
  induction list with
  | nil => rfl
  | cons line list ih =>
    have hline := h line List.mem_cons_self
    have hrest := ih fun other hother => h other (List.mem_cons_of_mem line hother)
    have hsplit : (String.join ((line :: list).map (· ++ "\n"))).toList =
        line.toList ++ '\n' :: (String.join (list.map (· ++ "\n"))).toList := by
      simp [String.join_cons]
    rw [hsplit, lines_append hline, hrest, List.map_cons]

theorem isLineEnd_of_mem_lines {text line : List Char} (h : line ∈ lines text) {c : Char}
    (hc : c ∈ line) : isLineEnd c = false := by
  fun_induction lines text generalizing line with
  | case1 => simp at h
  | case2 rest ih =>
    cases List.mem_cons.1 h with
    | inl heq => simp [heq] at hc
    | inr hmem => exact ih hmem hc
  | case3 d rest _ hend ih =>
    cases List.mem_cons.1 h with
    | inl heq => simp [heq] at hc
    | inr hmem => exact ih hmem hc
  | case4 d rest _ hend hnil ih =>
    obtain rfl : line = [d] := by simpa using h
    obtain rfl : c = d := by simpa using hc
    simpa using hend
  | case5 d rest _ hend first more hlines ih =>
    cases List.mem_cons.1 h with
    | inl heq =>
      rw [heq] at hc
      cases List.mem_cons.1 hc with
      | inl hcd => simpa [hcd] using hend
      | inr hmem => exact ih (by rw [hlines]; exact List.mem_cons_self) hmem
    | inr hmem => exact ih (by rw [hlines]; exact List.mem_cons_of_mem first hmem) hc

theorem isLineEnd_of_mem_lineAt {text : String} {number : Nat} {c : Char}
    (h : c ∈ (lineAt text number).toList) : isLineEnd c = false := by
  cases number with
  | zero => simp [lineAt] at h
  | succ n =>
    cases hline : (lines text.toList)[n]? with
    | none => simp [lineAt, hline] at h
    | some line =>
      have hc : c ∈ line := by simpa [lineAt, hline] using h
      exact isLineEnd_of_mem_lines (List.mem_of_getElem? hline) hc

theorem splitAt_of_notMem {separator : Char} {piece : List Char} (h : separator ∉ piece) :
    splitAt separator piece = [piece] := by
  induction piece with
  | nil => rfl
  | cons c piece ih =>
    have hc : c ≠ separator := fun heq => h (by simp [heq])
    have hpiece := ih fun hmem => h (List.mem_cons_of_mem c hmem)
    simp [splitAt, hc, hpiece]

theorem splitAt_append {separator : Char} {piece : List Char} (h : separator ∉ piece)
    (rest : List Char) :
    splitAt separator (piece ++ separator :: rest) = piece :: splitAt separator rest := by
  induction piece with
  | nil => simp [splitAt]
  | cons c piece ih =>
    have hc : c ≠ separator := fun heq => h (by simp [heq])
    have hpiece := ih fun hmem => h (List.mem_cons_of_mem c hmem)
    simp [splitAt, hc, hpiece]

theorem exists_range_of_isDigitSign {c : Char} (h : isDigitSign c = true) :
    ∃ r ∈ decimalRanges ++ ornamentalDigitRanges, r.1 ≤ c.toNat ∧ c.toNat ≤ r.2 := by
  simpa [isDigitSign, CodeRanges.contains, or_and_right, exists_or] using h

section Trim

theorem trim_eq (cs : List Char) : trim cs = (cs.dropWhile isBlank).rdropWhile isBlank := rfl

theorem trim_cons_of_blank {c : Char} (h : isBlank c = true) (cs : List Char) :
    trim (c :: cs) = trim cs := by
  simp [trim_eq, h]

theorem trim_cons_of_not_blank {c : Char} (h : isBlank c = false) (cs : List Char) :
    trim (c :: cs) = (c :: cs).rdropWhile isBlank := by
  simp [trim_eq, h]

theorem rdropWhile_append {xs ys : List Char} {c : Char} (hc : c ∈ ys)
    (hblank : isBlank c = false) :
    (xs ++ ys).rdropWhile isBlank = xs ++ ys.rdropWhile isBlank := by
  have hne : (ys.reverse.dropWhile isBlank).isEmpty = false := by
    rw [List.isEmpty_eq_false_iff, ne_eq, List.dropWhile_eq_nil_iff]
    intro hall
    have hcblank := hall c (List.mem_reverse.2 hc)
    simp [hblank] at hcblank
  rw [List.rdropWhile, List.rdropWhile, List.reverse_append, List.dropWhile_append, hne]
  simp

theorem rdropWhile_cons {c : Char} (h : isBlank c = false) (cs : List Char) :
    (c :: cs).rdropWhile isBlank = c :: cs.rdropWhile isBlank := by
  by_cases hall : ∀ x ∈ cs, isBlank x = true
  · have hnil : cs.reverse.dropWhile isBlank = [] :=
      List.dropWhile_eq_nil_iff.2 fun x hx => hall x (List.mem_reverse.1 hx)
    rw [List.rdropWhile, List.rdropWhile, List.reverse_cons, List.dropWhile_append, hnil]
    simp [h]
  · obtain ⟨x, hx⟩ := not_forall.1 hall
    obtain ⟨hmem, hblank⟩ := Classical.not_imp.1 hx
    rw [← List.singleton_append, rdropWhile_append hmem (by simpa using hblank)]
    rfl

/-- White space dropped at the end beforehand makes no difference. -/
theorem trim_rdropWhile (cs : List Char) : trim (cs.rdropWhile isBlank) = trim cs := by
  induction cs with
  | nil => rfl
  | cons c cs ih =>
    by_cases hc : isBlank c = true
    · by_cases hall : ∀ x ∈ cs, isBlank x = true
      · have hnil : (c :: cs).rdropWhile isBlank = [] := by
          refine List.rdropWhile_eq_nil_iff.2 fun x hx => ?_
          cases List.mem_cons.1 hx with
          | inl heq => exact heq ▸ hc
          | inr hmem => exact hall x hmem
        have hdrop : cs.dropWhile isBlank = [] := List.dropWhile_eq_nil_iff.2 hall
        rw [hnil, trim_cons_of_blank hc, trim_eq, trim_eq, hdrop]
        rfl
      · obtain ⟨x, hx⟩ := not_forall.1 hall
        obtain ⟨hmem, hblank⟩ := Classical.not_imp.1 hx
        have hcons : (c :: cs).rdropWhile isBlank = c :: cs.rdropWhile isBlank := by
          rw [← List.singleton_append, rdropWhile_append hmem (by simpa using hblank)]
          rfl
        rw [hcons, trim_cons_of_blank hc, trim_cons_of_blank hc, ih]
    · have hblank : isBlank c = false := by simpa using hc
      rw [rdropWhile_cons hblank, trim_cons_of_not_blank hblank, trim_cons_of_not_blank hblank,
        rdropWhile_cons hblank, rdropWhile_cons hblank, List.rdropWhile_idempotent]

theorem trimWhile_eq_self {kind : Char → Bool} {cs : List Char} (h : ∀ c ∈ cs, kind c = false) :
    trimWhile kind cs = cs := by
  have hdrop : ∀ xs : List Char, (∀ c ∈ xs, kind c = false) → xs.dropWhile kind = xs := by
    intro xs hxs
    cases xs with
    | nil => rfl
    | cons x xs => simp [hxs x List.mem_cons_self]
  rw [trimWhile, hdrop cs h, hdrop cs.reverse fun c hc => h c (List.mem_reverse.1 hc),
    List.reverse_reverse]

theorem trim_eq_self {cs : List Char} (h : ∀ c ∈ cs, isBlank c = false) : trim cs = cs :=
  trimWhile_eq_self h

end Trim

end GenericTuring.Text
