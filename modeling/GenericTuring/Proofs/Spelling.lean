import GenericTuring.Program.Parse

/-!
How names and symbols are spelt: by which characters, and that these are word characters.
-/

namespace GenericTuring

namespace Grammar

def IsName (text : String) : Prop :=
  ∃ c cs, text = String.ofList (c :: cs) ∧ isNameStart c = true ∧ ∀ x ∈ cs, isNameChar x = true

theorem isName_ofList {c : Char} {cs : List Char} :
    IsName (String.ofList (c :: cs)) ↔ isNameStart c = true ∧ cs.all isNameChar = true := by
  constructor
  · intro h
    obtain ⟨d, ds, heq, hd, hds⟩ := h
    obtain ⟨rfl, rfl⟩ := List.cons.inj (String.ofList_injective heq)
    exact ⟨hd, List.all_eq_true.2 hds⟩
  · intro h
    exact ⟨c, cs, rfl, h.1, List.all_eq_true.1 h.2⟩

theorem isName_iff {text : String} : IsName text ↔ text.toList.head?.any isNameStart = true ∧
    text.toList.tail.all isNameChar = true := by
  obtain ⟨cs, rfl⟩ : ∃ cs, text = String.ofList cs := ⟨text.toList, by simp⟩
  cases cs with
  | nil =>
    constructor
    · intro h
      obtain ⟨d, ds, heq, _⟩ := h
      exact absurd (String.ofList_injective heq) (by simp)
    · intro h
      simp at h
  | cons c cs =>
    rw [isName_ofList, String.toList_ofList]
    rfl

instance : DecidablePred IsName := fun _ => decidable_of_iff _ isName_iff.symm

theorem toNat_of_isNameChar {c : Char} (h : isNameChar c = true) :
    48 ≤ c.toNat ∧ c.toNat ≤ 57 ∨ 65 ≤ c.toNat ∧ c.toNat ≤ 90 ∨ c.toNat = 95 ∨
      97 ≤ c.toNat ∧ c.toNat ≤ 122 := by
  have hclasses : ((c.isUpper || c.isLower) || c.isDigit || c == '_') = true := h
  simp only [Bool.or_eq_true, beq_iff_eq] at hclasses
  cases hclasses with
  | inr hunderscore =>
    subst hunderscore
    decide
  | inl hclasses =>
    cases hclasses with
    | inr hdigit =>
      obtain ⟨hlo, hhi⟩ := Bool.and_eq_true_iff.1 hdigit
      exact .inl ⟨of_decide_eq_true hlo, of_decide_eq_true hhi⟩
    | inl hletter =>
      cases hletter with
      | inl hupper => exact .inr (.inl (of_decide_eq_true hupper))
      | inr hlower =>
        obtain ⟨hlo, hhi⟩ := Bool.and_eq_true_iff.1 hlower
        exact .inr (.inr (.inr ⟨of_decide_eq_true hlo, of_decide_eq_true hhi⟩))

theorem isNameChar_of_isNameStart {c : Char} (h : isNameStart c = true) : isNameChar c = true := by
  have halpha : c.isAlpha = true := h
  simp [isNameChar, Char.isAlphanum, halpha]

theorem IsName.char {text : String} (h : IsName text) {c : Char} (hc : c ∈ text.toList) :
    isNameChar c = true := by
  obtain ⟨first, rest, rfl, hfirst, hrest⟩ := h
  rw [String.toList_ofList] at hc
  cases List.mem_cons.1 hc with
  | inl heq => exact heq ▸ isNameChar_of_isNameStart hfirst
  | inr hmem => exact hrest c hmem

/-- The characters of names are word characters. -/
theorem isWord_of_isNameChar {c : Char} (h : isNameChar c = true) : Text.isWord c = true := by
  have hmem : ∀ r ∈ [(0x30, 0x39), (0x41, 0x5a), (0x5f, 0x5f), (0x61, 0x7a)], r ∈ Text.wordRanges := by
    decide
  have hrange : ∃ r ∈ [(0x30, 0x39), (0x41, 0x5a), (0x5f, 0x5f), (0x61, 0x7a)],
      r.1 ≤ c.toNat ∧ c.toNat ≤ r.2 := by
    have hnat := toNat_of_isNameChar h
    simp only [List.mem_cons, List.not_mem_nil, or_false, exists_eq_or_imp, exists_eq_left]
    omega
  obtain ⟨r, hr, hbounds⟩ := hrange
  exact List.any_eq_true.2 ⟨r, hmem r hr, by simpa using hbounds⟩

def IsSymbol : Symbol → Prop
  | .blank => True
  | .mark text => ∃ c, text = String.singleton c ∧ c ≠ '\r' ∧ c ≠ '\n'

end Grammar

open Grammar

structure RuleLine.Spelt (line : RuleLine) : Prop where
  head : IsName line.head
  params : ∀ x ∈ line.params, IsName x
  read : IsSymbol line.read.val
  write : IsSymbol line.write.val
  target : ∀ a ∈ Term.atoms line.target, IsName a.val

def Statement.Spelt : Statement → Prop
  | .start target _ => ∀ a ∈ Term.atoms target, IsName a.val
  | .rule line => line.Spelt

end GenericTuring
