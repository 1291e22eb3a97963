import Std.Data.String.ToNat
import GenericTuring.Listing
import GenericTuring.Proofs.Regular

/-!
State names in listings. The text of a key can be read from its end, so keys with different texts are
told apart, and escaping keeps texts apart; hence either naming gives different states different names.
-/

namespace GenericTuring

open Grammar

namespace Key

def Bracketless (key : Key) : Prop := ∀ a ∈ key.atoms, '<' ∉ a.toList ∧ '>' ∉ a.toList

theorem bracketless_of_isName {key : Key} (h : ∀ a ∈ key.atoms, IsName a) : Bracketless key := by
  intro a ha
  constructor
  · intro hmem
    exact absurd ((h a ha).char hmem) (by decide)
  · intro hmem
    exact absurd ((h a ha).char hmem) (by decide)

/-- Only the text of an application ends with a bracket. -/
theorem reverse_append_ne {xs rest tail : List Char} (hxs : '>' ∉ xs)
    (hrest : ∀ c ∈ rest.head?, c = '<') : xs.reverse ++ rest ≠ '>' :: tail := by
  intro h
  cases hrev : xs.reverse with
  | nil =>
    rw [hrev, List.nil_append] at h
    exact absurd (hrest '>' (by simp [h])) (by decide)
  | cons c cs =>
    rw [hrev] at h
    have hmem : '>' ∈ xs.reverse := by
      rw [hrev, (List.cons.inj h).1]
      exact List.mem_cons_self
    exact hxs (List.mem_reverse.1 hmem)

/-- Two texts without opening brackets that are followed by nothing or an opening bracket. -/
theorem append_inj_of_notMem {xs ys rest others : List Char} (hxs : '<' ∉ xs) (hys : '<' ∉ ys)
    (hrest : ∀ c ∈ rest.head?, c = '<') (hothers : ∀ c ∈ others.head?, c = '<')
    (h : xs ++ rest = ys ++ others) : xs = ys ∧ rest = others := by
  induction xs generalizing ys with
  | nil =>
    cases ys with
    | nil => exact ⟨rfl, h⟩
    | cons y ys =>
      have hy : y = '<' := hrest y (by simp_all)
      exact absurd hy fun heq => hys (by simp [heq])
  | cons x xs ih =>
    cases ys with
    | nil =>
      have hx : x = '<' := hothers x (by simp [← show x :: xs ++ rest = others from h])
      exact absurd hx fun heq => hxs (by simp [heq])
    | cons y ys =>
      obtain ⟨rfl, htail⟩ := List.cons.inj h
      obtain ⟨rfl, hsame⟩ := ih (fun hmem => hxs (by simp [hmem])) (fun hmem => hys (by simp [hmem]))
        htail
      exact ⟨rfl, hsame⟩

theorem reverse_text_app (f x : Key) (rest : List Char) :
    (text (.app f x)).toList.reverse ++ rest =
      '>' :: ((text x).toList.reverse ++ '<' :: ((text f).toList.reverse ++ rest)) := by
  simp [text]

/-- Read backwards, the text of a key shows where its last argument begins. -/
theorem reverse_text_inj {key other : Key} (hkey : key.Bracketless) (hother : other.Bracketless)
    {rest others : List Char} (hrest : ∀ c ∈ rest.head?, c = '<')
    (hothers : ∀ c ∈ others.head?, c = '<')
    (h : key.text.toList.reverse ++ rest = other.text.toList.reverse ++ others) :
    key = other ∧ rest = others := by
  induction key generalizing other rest others with
  | atom a =>
    have ha := hkey a (by simp [Term.atoms])
    cases other with
    | atom b =>
      have hb := hother b (by simp [Term.atoms])
      obtain ⟨hsame, htail⟩ := append_inj_of_notMem (by simpa [text] using ha.1)
        (by simpa [text] using hb.1) hrest hothers h
      obtain rfl : a = b := String.toList_inj.1 (List.reverse_inj.1 hsame)
      exact ⟨rfl, htail⟩
    | app g y =>
      rw [reverse_text_app] at h
      exact absurd h (reverse_append_ne ha.2 hrest)
  | app f x ihf ihx =>
    have hf : Bracketless f := fun a ha => hkey a (by simp [Term.atoms, ha])
    have hx : Bracketless x := fun a ha => hkey a (by simp [Term.atoms, ha])
    cases other with
    | atom b =>
      have hb := hother b (by simp [Term.atoms])
      rw [reverse_text_app] at h
      exact absurd h.symm (reverse_append_ne hb.2 hothers)
    | app g y =>
      have hg : Bracketless g := fun a ha => hother a (by simp [Term.atoms, ha])
      have hy : Bracketless y := fun a ha => hother a (by simp [Term.atoms, ha])
      rw [reverse_text_app, reverse_text_app] at h
      obtain ⟨rfl, htail⟩ := ihx hx hy (by simp) (by simp) (List.cons.inj h).2
      obtain ⟨rfl, hsame⟩ := ihf hf hg hrest hothers (List.cons.inj htail).2
      exact ⟨rfl, hsame⟩

theorem text_inj {key other : Key} (hkey : key.Bracketless) (hother : other.Bracketless)
    (h : key.text = other.text) : key = other :=
  (reverse_text_inj hkey hother (by simp) (by simp) (congrArg (·.toList.reverse ++ []) h)).1

theorem escapeChar_append_inj {c d : Char} {rest others : List Char}
    (h : escapeChar c ++ rest = escapeChar d ++ others) : c = d ∧ rest = others := by
  unfold escapeChar at h
  grind

theorem flatMap_escapeChar_inj {cs ds : List Char}
    (h : cs.flatMap escapeChar = ds.flatMap escapeChar) : cs = ds := by
  have hne : ∀ c, escapeChar c ≠ [] := by
    intro c
    unfold escapeChar
    grind
  induction cs generalizing ds with
  | nil =>
    cases ds with
    | nil => rfl
    | cons d ds => simp [hne d] at h
  | cons c cs ih =>
    cases ds with
    | nil => simp [hne c] at h
    | cons d ds =>
      rw [List.flatMap_cons, List.flatMap_cons] at h
      obtain ⟨rfl, htail⟩ := escapeChar_append_inj h
      rw [ih htail]

theorem escaped_inj {key other : Key} (hkey : key.Bracketless) (hother : other.Bracketless)
    (h : key.escaped = other.escaped) : key = other := by
  have hlists := flatMap_escapeChar_inj (String.ofList_injective h)
  exact text_inj hkey hother (String.toList_inj.1 hlists)

theorem mem_text {key : Key} {c : Char} (h : c ∈ key.text.toList) :
    c = '<' ∨ c = '>' ∨ ∃ a ∈ key.atoms, c ∈ a.toList := by
  induction key with
  | atom a => exact .inr (.inr ⟨a, by simp [Term.atoms], h⟩)
  | app f x ihf ihx =>
    have hsplit : c ∈ (text f).toList ∨ c = '<' ∨ c ∈ (text x).toList ∨ c = '>' := by
      simpa [text] using h
    grind [Term.atoms]

theorem exists_text_eq_head_append (key : Key) :
    ∃ rest, key.text.toList = key.head.toList ++ rest := by
  induction key with
  | atom a => exact ⟨[], by simp [text, Term.head]⟩
  | app f x ihf _ =>
    obtain ⟨rest, hrest⟩ := ihf
    exact ⟨rest ++ '<' :: ((text x).toList ++ ['>']), by simp [text, Term.head, hrest]⟩

/-- An escaped key is a name again. -/
theorem isName_escaped {key : Key} (h : ∀ a ∈ key.atoms, IsName a) : IsName key.escaped := by
  obtain ⟨c, cs, hhead, hstart, hchars⟩ := h key.head key.head_mem_atoms
  obtain ⟨rest, hrest⟩ := key.exists_text_eq_head_append
  rw [hhead, String.toList_ofList, List.cons_append] at hrest
  have hchar : ∀ x ∈ key.text.toList, ∀ y ∈ escapeChar x, isNameChar y = true := by
    intro x hx y hy
    have hx' : x = '<' ∨ x = '>' ∨ isNameChar x = true := by
      cases mem_text hx with
      | inl heq => exact .inl heq
      | inr hother =>
        cases hother with
        | inl heq => exact .inr (.inl heq)
        | inr hatom =>
          obtain ⟨a, ha, hmem⟩ := hatom
          exact .inr (.inr ((h a ha).char hmem))
    have hunderscore : isNameChar '_' = true := by decide
    have hl : isNameChar 'L' = true := by decide
    have hr : isNameChar 'R' = true := by decide
    unfold escapeChar at hy
    grind
  have hfirst : escapeChar c = [c] := by
    have halpha : c.isAlpha = true := hstart
    have hne : c ≠ '_' ∧ c ≠ '<' ∧ c ≠ '>' := by
      refine ⟨?_, ?_, ?_⟩ <;> intro heq <;> simp [heq] at halpha
    simp [escapeChar, hne]
  refine ⟨c, (cs ++ rest).flatMap escapeChar, ?_, hstart, fun y hy => ?_⟩
  · rw [escaped, hrest, List.flatMap_cons, hfirst]
    rfl
  · obtain ⟨x, hx, hmem⟩ := List.mem_flatMap.1 hy
    exact hchar x (by rw [hrest]; exact List.mem_cons_of_mem c hx) y hmem

end Key

namespace Listing

structure Faithful (names : List (Key × String)) (keys : List Key) : Prop where
  covers : ∀ key ∈ keys, ∃ name, names.lookup key = some name
  isName : ∀ key name, names.lookup key = some name → IsName name
  inj : ∀ key other name, names.lookup key = some name → names.lookup other = some name →
    key = other

variable {t : Table}

theorem finish_mem_namedKeys (t : Table) : Key.finish ∈ namedKeys t := by
  by_cases h : Key.finish ∈ t.keys
  · simp [namedKeys, h]
  · simp [namedKeys, h]

theorem mem_namedKeys_of_mem {key : Key} (h : key ∈ t.keys) : key ∈ namedKeys t := by
  by_cases hfinish : Key.finish ∈ t.keys
  · simpa [namedKeys, hfinish] using h
  · simp [namedKeys, hfinish, h]

theorem isName_finishName : IsName finishName := by decide

theorem isName_of_mem_namedKeys (ht : t.Regular) {key : Key} (h : key ∈ namedKeys t) :
    ∀ a ∈ key.atoms, IsName a := by
  by_cases hkey : key ∈ t.keys
  · exact ht.name key hkey
  · have hfinish : key = Key.finish := by
      unfold namedKeys at h
      grind
    intro a ha
    obtain rfl : a = finishName := by simpa [hfinish, Key.finish, Term.atoms] using ha
    exact isName_finishName

theorem faithful_escape (ht : t.Regular) : Faithful (names .escape t) (namedKeys t) := by
  have hlookup : ∀ key name, (names .escape t).lookup key = some name →
      key ∈ namedKeys t ∧ name = key.escaped := by
    intro key name h
    obtain ⟨found, hmem, heq⟩ := List.mem_map.1 (mem_of_lookup_eq_some h)
    obtain ⟨rfl, rfl⟩ := Prod.mk.inj heq
    exact ⟨hmem, rfl⟩
  refine ⟨?_, ?_, ?_⟩
  · intro key hkey
    refine Option.isSome_iff_exists.1 (List.lookup_isSome_iff.2 ⟨(key, key.escaped), ?_, by simp⟩)
    exact List.mem_map.2 ⟨key, hkey, rfl⟩
  · intro key name h
    obtain ⟨hmem, rfl⟩ := hlookup key name h
    exact Key.isName_escaped (isName_of_mem_namedKeys ht hmem)
  · intro key other name h hother
    obtain ⟨hmem, rfl⟩ := hlookup key name h
    obtain ⟨hmemOther, heq⟩ := hlookup other _ hother
    exact Key.escaped_inj (Key.bracketless_of_isName (isName_of_mem_namedKeys ht hmem))
      (Key.bracketless_of_isName (isName_of_mem_namedKeys ht hmemOther)) heq

/-- The name of the state at a place of the table. -/
theorem isName_ordinal (i : Nat) : IsName s!"q{i}" := by
  refine ⟨'q', (Nat.repr i).toList, ?_, by decide, fun c hc => ?_⟩
  · apply String.toList_inj.1
    simp [toString]
  · rw [Nat.toList_repr] at hc
    have hdigit := Nat.isDigit_of_mem_toDigits (by omega) (by omega) hc
    simp [isNameChar, Char.isAlphanum, hdigit]

theorem ordinal_inj {i j : Nat} (h : s!"q{i}" = s!"q{j}") : i = j := by
  have hlists := congrArg String.toList h
  have hrepr : (Nat.repr i).toList = (Nat.repr j).toList := by
    simpa [toString] using hlists
  exact Nat.repr_inj.1 (String.toList_inj.1 hrepr)

theorem ordinal_ne_finishName (i : Nat) : s!"q{i}" ≠ finishName := by
  intro h
  have hlists := congrArg String.toList h
  simp [toString, finishName] at hlists

theorem faithful_ordinal : Faithful (names .ordinal t) (namedKeys t) := by
  have hlookup : ∀ key name, (names .ordinal t).lookup key = some name →
      ∃ i : Nat, (namedKeys t)[i]? = some key ∧
        name = if key = Key.finish then finishName else s!"q{i}" := by
    intro key name h
    obtain ⟨⟨found, i⟩, hmem, heq⟩ := List.mem_map.1 (mem_of_lookup_eq_some h)
    obtain ⟨rfl, rfl⟩ := Prod.mk.inj heq
    exact ⟨i, by simpa using List.mem_zipIdx_iff_getElem?.1 hmem, rfl⟩
  refine ⟨?_, ?_, ?_⟩
  · intro key hkey
    obtain ⟨i, hi⟩ := List.mem_iff_getElem?.1 hkey
    have hmem : (key, i) ∈ (namedKeys t).zipIdx := List.mem_zipIdx_iff_getElem?.2 (by simpa using hi)
    exact Option.isSome_iff_exists.1 (List.lookup_isSome_iff.2
      ⟨_, List.mem_map.2 ⟨(key, i), hmem, rfl⟩, by simp⟩)
  · intro key name h
    obtain ⟨i, _, rfl⟩ := hlookup key name h
    by_cases hfinish : key = Key.finish
    · rw [if_pos hfinish]
      exact isName_finishName
    · rw [if_neg hfinish]
      exact isName_ordinal i
  · intro key other name h hother
    obtain ⟨i, hi, rfl⟩ := hlookup key name h
    obtain ⟨j, hj, heq⟩ := hlookup other _ hother
    by_cases hfinish : key = Key.finish
    · by_cases hotherFinish : other = Key.finish
      · exact hfinish.trans hotherFinish.symm
      · rw [if_pos hfinish, if_neg hotherFinish] at heq
        exact absurd heq.symm (ordinal_ne_finishName j)
    · by_cases hotherFinish : other = Key.finish
      · rw [if_neg hfinish, if_pos hotherFinish] at heq
        exact absurd heq (ordinal_ne_finishName i)
      · rw [if_neg hfinish, if_neg hotherFinish] at heq
        rw [ordinal_inj heq, hj] at hi
        exact (Option.some.inj hi).symm

/-- Whichever the naming, different states have different names. -/
theorem faithful_names (ht : t.Regular) (naming : Naming) :
    Faithful (names naming t) (namedKeys t) := by
  cases naming with
  | escape => exact faithful_escape ht
  | ordinal => exact faithful_ordinal

end Listing

end GenericTuring
