import GenericTuring.Proofs.Written
import Mathlib.Data.List.TakeWhile

/-!
What each lexeme takes off a text. Layout is taken as far as it goes, so any layout at the front of a text
is part of what is taken; a name is taken whole, and no keyword is found at the front of a name.
-/

namespace GenericTuring.Grammar

section Places

variable {c mid next : Cursor} {taken more rest : List Char}

theorem Cursor.passes_skip (h : c.rest = taken ++ rest) : c.Passes taken (c.skip taken rest) :=
  ⟨h, rfl, rfl⟩

theorem Cursor.Passes.eq_skip (h : c.Passes taken next) : next = c.skip taken next.rest := by
  obtain ⟨rest, offset, loc⟩ := next
  simp only [Cursor.skip, Cursor.mk.injEq, true_and]
  exact ⟨h.offset_eq, h.loc_eq⟩

theorem Cursor.passes_refl (c : Cursor) : c.Passes [] c := ⟨rfl, rfl, rfl⟩

theorem Cursor.Passes.trans (h : c.Passes taken mid) (hmore : mid.Passes more next) :
    c.Passes (taken ++ more) next := by
  refine ⟨?_, ?_, ?_⟩
  · rw [h.rest_eq, hmore.rest_eq, List.append_assoc]
  · rw [hmore.offset_eq, h.offset_eq, List.length_append, Nat.add_assoc]
  · rw [hmore.loc_eq, h.loc_eq, Loc.advance_append]

end Places

theorem exactly_eq_some {word text taken rest : List Char} :
    exactly word text = some (taken, rest) ↔ taken = word ∧ text = word ++ rest := by
  induction word generalizing text taken with
  | nil => simp [exactly, eq_comm]
  | cons p ps ih =>
    cases text with
    | nil => simp [exactly]
    | cons c cs =>
      by_cases hpc : p = c
      · subst hpc
        simp only [exactly, if_true, Option.map_eq_some_iff, List.cons_append, List.cons.injEq,
          true_and]
        constructor
        · rintro ⟨split, hsplit, heq⟩
          obtain ⟨rfl, rfl⟩ := Prod.mk.inj heq
          obtain ⟨htaken, htext⟩ := ih.1 hsplit
          exact ⟨congrArg _ htaken, htext⟩
        · rintro ⟨rfl, htext⟩
          exact ⟨(ps, rest), ih.2 ⟨rfl, htext⟩, rfl⟩
      · simp [exactly, hpc, Ne.symm hpc]

theorem exactly_eq_none {word text : List Char} (h : ∀ rest, text ≠ word ++ rest) :
    exactly word text = none := by
  cases hsplit : exactly word text with
  | none => rfl
  | some split => exact absurd (exactly_eq_some.1 hsplit).2 (h split.2)

section Comments

theorem closing_of_commentEnd {text body rest : List Char} (h : commentEnd text = some (body, rest)) :
    Closing body := by
  fun_induction commentEnd text generalizing body with
  | case1 => simp at h
  | case2 cs =>
    obtain ⟨rfl, rfl⟩ := Prod.mk.inj (Option.some.inj h)
    exact ⟨[], rfl, by decide⟩
  | case3 c cs hopen ih =>
    obtain ⟨s, hs, heq⟩ := Option.map_eq_some_iff.1 h
    obtain ⟨rfl, rfl⟩ := Prod.mk.inj heq
    obtain ⟨inner, hinner, hnone⟩ := ih hs
    refine ⟨c :: inner, by simp [hinner], fun hinfix => ?_⟩
    rw [List.cons_append, List.infix_cons_iff] at hinfix
    cases hinfix with
    | inr htail => exact hnone htail
    | inl hfront =>
      -- the comment would have ended with its first two characters
      obtain ⟨rfl, hslash⟩ := List.cons_prefix_cons.1 hfront
      cases inner with
      | nil => simp at hslash
      | cons d inner =>
        obtain ⟨rfl, _⟩ := List.cons_prefix_cons.1 hslash
        have htext := commentEnd_append hs
        rw [hinner] at htext
        exact hopen _ rfl htext.symm

theorem commentEnd_of_closing {body : List Char} (h : Closing body) (rest : List Char) :
    commentEnd (body ++ rest) = some (body, rest) := by
  obtain ⟨inner, rfl, hnone⟩ := h
  induction inner with
  | nil => rfl
  | cons c inner ih =>
    rw [List.cons_append, List.infix_cons_iff, not_or] at hnone
    obtain ⟨hfront, htail⟩ := hnone
    have hopen : ∀ cs, c = '*' → inner ++ ['*', '/'] ++ rest = '/' :: cs → False := by
      rintro cs rfl hcs
      cases inner with
      | nil => simp at hcs
      | cons d inner =>
        obtain ⟨rfl, _⟩ := List.cons.inj hcs
        exact hfront (by simp)
    have hrest := ih htail
    rw [List.cons_append, List.cons_append, commentEnd.eq_3 _ _ hopen, hrest]
    rfl

end Comments

theorem layoutSplit_append_eq (text : List Char) :
    (layoutSplit text).1 ++ (layoutSplit text).2 = text := by
  fun_induction layoutSplit text with
  | case1 => rfl
  | case2 cs comment rest hcomment more ih =>
    have hcomment := commentEnd_append hcomment
    simp only [more, List.cons_append, List.append_assoc, ih, hcomment]
  | case3 c cs _ hblank more ih => simp only [more, List.cons_append, ih]
  | case4 => rfl
  | case5 => rfl

theorem layout_layoutSplit (text : List Char) : Layout (layoutSplit text).1 := by
  fun_induction layoutSplit text with
  | case1 => exact .nil
  | case2 cs comment rest hcomment more ih =>
    exact .comment (closing_of_commentEnd hcomment) ih
  | case3 c cs _ hblank more ih => exact .blank (by simpa using hblank) ih
  | case4 => exact .nil
  | case5 => exact .nil

/-- Layout at the front of a text is taken with the layout after it. -/
theorem layoutSplit_of_layout {gap : List Char} (h : Layout gap) (rest : List Char) :
    layoutSplit (gap ++ rest) = (gap ++ (layoutSplit rest).1, (layoutSplit rest).2) := by
  induction h with
  | nil => rfl
  | @blank c gap hc _ ih =>
    rw [List.cons_append, layoutSplit.eq_def]
    cases hc with
    | inl heq => subst heq; simp [ih]
    | inr heq => subst heq; simp [ih]
  | @comment body gap hbody _ ih =>
    have hclose := commentEnd_of_closing hbody (gap ++ rest)
    rw [List.cons_append, List.cons_append, List.append_assoc, layoutSplit.eq_def]
    simp only
    split
    · next hnone => rw [hclose] at hnone; simp at hnone
    · next comment others hsome =>
      rw [hclose] at hsome
      obtain ⟨rfl, rfl⟩ := Prod.mk.inj (Option.some.inj hsome)
      simp [ih]

section Words

theorem wholeWord_eq_some {word : String} {text taken rest : List Char} :
    wholeWord word text = some (taken, rest) ↔
      taken = word.toList ∧ text = word.toList ++ rest ∧ Text.atWordEnd rest = true := by
  simp only [wholeWord, Option.filter_eq_some_iff, exactly_eq_some, and_assoc]

theorem isName_of_mem_keywords {word : String} (h : word ∈ keywords) : IsName word := by
  have hall : ∀ w ∈ keywords, IsName w := by decide
  exact hall word h

/-- A word of name characters at the front of a whole name is the beginning of the name. -/
theorem exists_append_of_name {word text rest others : List Char}
    (hword : ∀ c ∈ word, isNameChar c = true) (hrest : ∀ c ∈ rest.head?, isNameChar c = false)
    (h : text ++ rest = word ++ others) : ∃ more, text = word ++ more ∧ others = more ++ rest := by
  cases List.append_eq_append_iff.1 h with
  | inr hmore => exact hmore
  | inl hbeyond =>
    obtain ⟨beyond, hword_eq, hrest_eq⟩ := hbeyond
    cases beyond with
    | nil => exact ⟨[], by simpa using hword_eq.symm, by simpa using hrest_eq.symm⟩
    | cons c beyond =>
      have hfalse : isNameChar c = false := hrest c (by simp [hrest_eq])
      have htrue : isNameChar c = true := hword c (by simp [hword_eq])
      simp [hfalse] at htrue

theorem atWordEnd_name_append {more rest : List Char} (hmore : ∀ c ∈ more, isNameChar c = true)
    (h : Text.atWordEnd (more ++ rest) = true) : more = [] := by
  cases more with
  | nil => rfl
  | cons c more =>
    have hword := isWord_of_isNameChar (hmore c (by simp))
    simp [Text.atWordEnd, hword] at h

/-- A name that is no keyword is taken whole. -/
theorem nameLexeme_append {text : String} {rest : List Char} (hname : IsName text)
    (hkeyword : text ∉ keywords) (hrest : ∀ c ∈ rest.head?, isNameChar c = false) :
    nameLexeme (text.toList ++ rest) = some (text.toList, rest) := by
  have hfree : ∀ w ∈ keywords, wholeWord w (text.toList ++ rest) = none := by
    intro w hw
    cases hsplit : wholeWord w (text.toList ++ rest) with
    | none => rfl
    | some split =>
      obtain ⟨_, heq, hend⟩ := wholeWord_eq_some.1 hsplit
      obtain ⟨more, htext, hothers⟩ :=
        exists_append_of_name (fun c hc => (isName_of_mem_keywords hw).char hc) hrest heq
      have hnil : more = [] :=
        atWordEnd_name_append (fun c hc => hname.char (by simp [htext, hc])) (hothers ▸ hend)
      have hword : text = w := String.toList_injective (by simpa [hnil] using htext)
      exact absurd (hword ▸ hw) hkeyword
  obtain ⟨c, cs, rfl, hc, hcs⟩ := hname
  have hany : keywords.any (fun w => (wholeWord w (c :: (cs ++ rest))).isSome) = false := by
    simp only [List.any_eq_false]
    intro w hw
    simp [show wholeWord w (c :: (cs ++ rest)) = none by simpa using hfree w hw]
  have htake : (cs ++ rest).takeWhile isNameChar = cs := by
    rw [List.takeWhile_append_of_pos hcs]
    cases rest with
    | nil => simp
    | cons d rest => simp [hrest d (by simp)]
  have hdrop : (cs ++ rest).dropWhile isNameChar = rest := by
    rw [List.dropWhile_append_of_pos hcs]
    cases rest with
    | nil => simp
    | cons d rest => simp [hrest d (by simp)]
  simp [nameLexeme, hc, hany, htake, hdrop]

/-- What is taken as a name is a whole name, and no keyword unless a word character of another alphabet
follows it. -/
theorem name_of_nameLexeme {text taken rest : List Char} (h : nameLexeme text = some (taken, rest)) :
    text = taken ++ rest ∧ IsName (String.ofList taken) ∧
      (∀ c ∈ rest.head?, isNameChar c = false) ∧
      (Text.atWordEnd rest = true → String.ofList taken ∉ keywords) := by
  cases text with
  | nil => simp [nameLexeme] at h
  | cons c cs =>
    simp only [nameLexeme] at h
    split at h
    · next hname =>
      obtain ⟨hc, hnot⟩ : isNameStart c = true ∧
          (keywords.any fun w => (wholeWord w (c :: cs)).isSome) = false := by simpa using hname
      obtain ⟨rfl, rfl⟩ := Prod.mk.inj (Option.some.inj h)
      have happend : c :: cs = (c :: cs.takeWhile isNameChar) ++ cs.dropWhile isNameChar := by simp
      refine ⟨happend, ⟨c, _, rfl, hc, fun x hx => List.mem_takeWhile_imp hx⟩, ?_, ?_⟩
      · intro d hd
        have hhead := List.head?_dropWhile_not isNameChar cs
        rw [Option.mem_def.1 hd] at hhead
        simpa using hhead
      · intro hend hmem
        have hsome : wholeWord (String.ofList (c :: cs.takeWhile isNameChar)) (c :: cs) =
            some (c :: cs.takeWhile isNameChar, cs.dropWhile isNameChar) :=
          wholeWord_eq_some.2 ⟨by simp, by simp, hend⟩
        have hnone := List.any_eq_false.1 hnot _ hmem
        rw [hsome] at hnone
        exact hnone rfl
    · simp at h

end Words

theorem digitLexeme_eq_some {text taken rest : List Char} :
    digitLexeme text = some (taken, rest) ↔
      ∃ c, c.isDigit = true ∧ taken = [c] ∧ text = c :: rest := by
  cases text with
  | nil => simp [digitLexeme, oneOf]
  | cons c cs =>
    by_cases hc : c.isDigit = true
    · simp only [digitLexeme, oneOf, hc, if_true, Option.some.injEq, Prod.mk.injEq, List.cons.injEq]
      constructor
      · rintro ⟨rfl, rfl⟩
        exact ⟨c, hc, rfl, rfl, rfl⟩
      · rintro ⟨_, _, rfl, rfl, rfl⟩
        exact ⟨rfl, rfl⟩
    · simp only [digitLexeme, oneOf, hc, if_false, List.cons.injEq, reduceCtorEq, false_iff]
      rintro ⟨_, hdigit, _, rfl, _⟩
      exact hc hdigit

theorem quotedLexeme_eq_some {text taken rest : List Char} :
    quotedLexeme text = some (taken, rest) ↔
      ∃ c, c ≠ '\r' ∧ c ≠ '\n' ∧ taken = ['\'', c, '\''] ∧ text = '\'' :: c :: '\'' :: rest := by
  constructor
  · intro h
    unfold quotedLexeme at h
    split at h
    · next c cs =>
      split at h
      · next hc =>
        obtain ⟨rfl, rfl⟩ := Prod.mk.inj (Option.some.inj h)
        obtain ⟨hcr, hlf⟩ : c ≠ '\r' ∧ c ≠ '\n' := by simpa using hc
        exact ⟨c, hcr, hlf, rfl, rfl⟩
      · simp at h
    · simp at h
  · rintro ⟨c, hcr, hlf, rfl, rfl⟩
    simp [quotedLexeme, hcr, hlf]

theorem lineEndLexeme_eq_some {text taken rest : List Char} :
    lineEndLexeme text = some (taken, rest) ↔
      (taken = ['\n'] ∨ taken = ['\r', '\n']) ∧ text = taken ++ rest := by
  constructor
  · intro h
    unfold lineEndLexeme at h
    split at h
    · obtain ⟨rfl, rfl⟩ := Prod.mk.inj (Option.some.inj h)
      exact ⟨.inl rfl, rfl⟩
    · obtain ⟨rfl, rfl⟩ := Prod.mk.inj (Option.some.inj h)
      exact ⟨.inr rfl, rfl⟩
    · simp at h
  · rintro ⟨rfl | rfl, rfl⟩
    · rfl
    · rfl

/-- A comment at the end of a line is taken up to a place where the line ends. -/
theorem lineCommentLexeme_eq_some {text taken rest : List Char} :
    lineCommentLexeme text = some (taken, rest) ↔
      ∃ body, taken = '/' :: '/' :: body ∧ text = taken ++ rest ∧
        (∀ x ∈ body, x ≠ '\r' ∧ x ≠ '\n') ∧ ∀ x ∈ rest.head?, x = '\r' ∨ x = '\n' := by
  constructor
  · intro h
    unfold lineCommentLexeme at h
    split at h
    · next cs =>
      obtain ⟨rfl, rfl⟩ := Prod.mk.inj (Option.some.inj h)
      refine ⟨_, rfl, by simp, ?_, ?_⟩
      · intro x hx
        simpa using List.mem_takeWhile_imp hx
      · intro x hx
        have hhead := List.head?_dropWhile_not (fun c => c != '\r' && c != '\n') cs
        rw [Option.mem_def.1 hx] at hhead
        have hends : ¬ (x ≠ '\r' ∧ x ≠ '\n') := by simpa using hhead
        tauto
    · simp at h
  · rintro ⟨body, rfl, rfl, hbody, hrest⟩
    have hall : ∀ x ∈ body, (x != '\r' && x != '\n') = true := fun x hx => by simpa using hbody x hx
    have hends : rest = [] ∨ ∃ d more, rest = d :: more ∧ (d != '\r' && d != '\n') = false := by
      cases rest with
      | nil => exact .inl rfl
      | cons d more =>
        refine .inr ⟨d, more, rfl, ?_⟩
        cases hrest d (by simp) with
        | inl hcr => simp [hcr]
        | inr hlf => simp [hlf]
    simp only [lineCommentLexeme, List.cons_append, List.takeWhile_append_of_pos hall,
      List.dropWhile_append_of_pos hall]
    obtain rfl | ⟨d, more, rfl, hd⟩ := hends
    · simp
    · simp [hd]

end GenericTuring.Grammar
