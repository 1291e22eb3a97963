import GenericTuring.Grammar.Productions

/-!
When a scanner matches, when it fails and when it gives up, for each way of combining scanners.
-/

namespace GenericTuring.Grammar.Scanner

variable {α β : Type} {p q : Scanner α} {f : α → Scanner β} {c mid next : Cursor} {value : α}

def Matches (p : Scanner α) (c : Cursor) (value : α) (next : Cursor) : Prop :=
  (p c).verdict = .matched value next

def Fails (p : Scanner α) (c : Cursor) : Prop := (p c).verdict = .failed

def GivesUp (p : Scanner α) (c : Cursor) : Prop := (p c).verdict = .tooDeep

theorem matches_pure {found : α} :
    Matches (pure value) c found next ↔ found = value ∧ next = c := by
  simp [Matches, pure, succeed, eq_comm]

theorem matches_here {loc : Loc} : here.Matches c loc next ↔ loc = c.loc ∧ next = c := by
  simp [Matches, here, eq_comm]

theorem not_matches_giveUp : ¬ Matches giveUp c value next := by
  simp [Matches, giveUp]

theorem matches_bind {last : β} :
    Matches (p >>= f) c last next ↔
      ∃ value mid, p.Matches c value mid ∧ (f value).Matches mid last next := by
  simp only [Matches, bind, andThen]
  cases hfirst : p c with
  | mk verdict failures =>
    cases verdict with
    | matched value mid =>
      simp only [Verdict.matched.injEq]
      constructor
      · intro h
        exact ⟨value, mid, ⟨rfl, rfl⟩, h⟩
      · rintro ⟨_, _, ⟨rfl, rfl⟩, h⟩
        exact h
    | failed => simp
    | tooDeep => simp

theorem Matches.bind {last : β} (h : p.Matches c value mid) (hf : (f value).Matches mid last next) :
    Matches (p >>= f) c last next :=
  matches_bind.2 ⟨value, mid, h, hf⟩

theorem Fails.bind (h : p.Fails c) : Fails (p >>= f) c := by
  simp only [Fails] at h
  simp only [Fails, Bind.bind, andThen]
  cases hfirst : p c with
  | mk verdict failures =>
    rw [hfirst] at h
    simp_all

theorem Matches.bind_fails (h : p.Matches c value mid) (hf : (f value).Fails mid) :
    Fails (p >>= f) c := by
  simp only [Matches] at h
  simp only [Fails, Bind.bind, andThen] at hf ⊢
  cases hfirst : p c with
  | mk verdict failures =>
    rw [hfirst] at h
    simp_all

theorem matches_noting {production : Option Production} :
    (noting production p).Matches c value next ↔ p.Matches c value next := by
  simp only [Matches, noting]
  cases hattempt : p c with
  | mk verdict failures => cases verdict <;> simp

theorem fails_noting {production : Option Production} :
    (noting production p).Fails c ↔ p.Fails c := by
  simp only [Fails, noting]
  cases hattempt : p c with
  | mk verdict failures => cases verdict <;> simp

theorem matches_named {production : Production} :
    (named production p).Matches c value next ↔ p.Matches c value next :=
  matches_noting

theorem fails_named {production : Production} : (named production p).Fails c ↔ p.Fails c :=
  fails_noting

theorem matches_group : (group p).Matches c value next ↔ p.Matches c value next := matches_noting

theorem fails_group : (group p).Fails c ↔ p.Fails c := fails_noting

theorem matches_take {lexeme : Lexeme} {taken : List Char} :
    (take lexeme).Matches c taken next ↔
      ∃ rest, lexeme c.rest = some (taken, rest) ∧ next = c.skip taken rest := by
  cases hlexeme : lexeme c.rest with
  | none => simp [Matches, take, hlexeme]
  | some split =>
    obtain ⟨word, rest⟩ := split
    simp only [Matches, take, hlexeme, Verdict.matched.injEq, Option.some.injEq, Prod.mk.injEq]
    constructor
    · rintro ⟨rfl, rfl⟩
      exact ⟨rest, ⟨rfl, rfl⟩, rfl⟩
    · rintro ⟨_, ⟨rfl, rfl⟩, rfl⟩
      exact ⟨rfl, rfl⟩

theorem matches_take_pure {lexeme : Lexeme} {f : List Char → α} :
    Matches (take lexeme >>= fun taken => pure (f taken)) c value next ↔
      ∃ taken rest, lexeme c.rest = some (taken, rest) ∧ value = f taken ∧ next = c.skip taken rest := by
  simp only [matches_bind, matches_take, matches_pure]
  constructor
  · rintro ⟨taken, _, ⟨rest, hsplit, rfl⟩, rfl, rfl⟩
    exact ⟨taken, rest, hsplit, rfl, rfl⟩
  · rintro ⟨taken, rest, hsplit, rfl, rfl⟩
    exact ⟨taken, _, ⟨rest, hsplit, rfl⟩, rfl, rfl⟩

theorem fails_take {lexeme : Lexeme} : (take lexeme).Fails c ↔ lexeme c.rest = none := by
  cases hlexeme : lexeme c.rest with
  | none => simp [Fails, take, hlexeme]
  | some split => simp [Fails, take, hlexeme]

theorem matches_orElse :
    (orElse p q).Matches c value next ↔
      p.Matches c value next ∨ p.Fails c ∧ q.Matches c value next := by
  simp only [Matches, Fails, orElse]
  cases hfirst : p c with
  | mk verdict failures => cases verdict <;> simp

theorem Fails.orElse (hp : p.Fails c) (hq : q.Fails c) : (Scanner.orElse p q).Fails c := by
  simp only [Fails, Scanner.orElse] at hp hq ⊢
  cases hfirst : p c with
  | mk verdict failures =>
    rw [hfirst] at hp
    simp_all

theorem matches_optional {found : Option α} :
    (optional p).Matches c found next ↔
      (∃ value, found = some value ∧ c.rest ≠ [] ∧ p.Matches c value next) ∨
        found = none ∧ next = c ∧ (c.rest = [] ∨ p.Fails c) := by
  by_cases hend : c.rest = []
  · simp [Matches, optional, hend, eq_comm]
  · simp only [Matches, Fails, optional, List.isEmpty_iff, hend, if_false]
    cases hattempt : p c with
    | mk verdict failures =>
      cases verdict with
      | matched value last =>
        simp only [Verdict.matched.injEq, reduceCtorEq, or_self, and_false, or_false, ne_eq, hend,
          not_false_eq_true, true_and]
        constructor
        · rintro ⟨rfl, rfl⟩
          exact ⟨value, rfl, rfl, rfl⟩
        · rintro ⟨_, rfl, rfl, rfl⟩
          exact ⟨rfl, rfl⟩
      | failed => simp [eq_comm]
      | tooDeep => simp

theorem matches_many_nil (h : c.rest = [] ∨ p.Fails c) : Matches (many p) c [] c := by
  show (many p c).verdict = .matched [] c
  rw [many]
  by_cases hend : c.rest = []
  · simp [hend]
  · have hfails : p.Fails c := h.resolve_left hend
    simp only [Fails] at hfails
    cases hattempt : p c with
    | mk verdict failures =>
      rw [hattempt] at hfails
      simp_all

theorem matches_many_cons {values : List α} (h : p.Matches c value mid)
    (hshorter : mid.rest.length < c.rest.length) (hrest : Matches (many p) mid values next) :
    Matches (many p) c (value :: values) next := by
  have hne : c.rest ≠ [] := by
    intro hnil
    simp [hnil] at hshorter
  simp only [Matches] at h
  have hmany : (many p mid).verdict = .matched values next := hrest
  show (many p c).verdict = .matched (value :: values) next
  rw [many]
  cases hattempt : p c with
  | mk verdict failures =>
    rw [hattempt] at h
    cases hmore : many p mid with
    | mk verdict more =>
      rw [hmore] at hmany
      simp_all

section GivingUp

theorem GivesUp.bind (h : p.GivesUp c) : GivesUp (p >>= f) c := by
  simp only [GivesUp] at h
  simp only [GivesUp, Bind.bind, andThen]
  cases hfirst : p c with
  | mk verdict failures =>
    rw [hfirst] at h
    simp_all

theorem Matches.bind_givesUp (h : p.Matches c value mid) (hf : (f value).GivesUp mid) :
    GivesUp (p >>= f) c := by
  simp only [Matches] at h
  simp only [GivesUp, Bind.bind, andThen] at hf ⊢
  cases hfirst : p c with
  | mk verdict failures =>
    rw [hfirst] at h
    simp_all

theorem givesUp_noting {production : Option Production} :
    (noting production p).GivesUp c ↔ p.GivesUp c := by
  simp only [GivesUp, noting]
  cases hattempt : p c with
  | mk verdict failures => cases verdict <;> simp

theorem givesUp_named {production : Production} : (named production p).GivesUp c ↔ p.GivesUp c :=
  givesUp_noting

theorem givesUp_group : (group p).GivesUp c ↔ p.GivesUp c := givesUp_noting

theorem GivesUp.orElse (h : p.GivesUp c) : (Scanner.orElse p q).GivesUp c := by
  simp only [GivesUp, Scanner.orElse] at h ⊢
  cases hfirst : p c with
  | mk verdict failures =>
    rw [hfirst] at h
    simp_all

theorem GivesUp.optional (h : p.GivesUp c) (hne : c.rest ≠ []) : (optional p).GivesUp c := by
  simp only [GivesUp] at h
  simp only [GivesUp, Scanner.optional, List.isEmpty_iff, hne, if_false]
  cases hattempt : p c with
  | mk verdict failures =>
    rw [hattempt] at h
    simp_all

theorem GivesUp.many (h : p.GivesUp c) (hne : c.rest ≠ []) : GivesUp (many p) c := by
  show (Scanner.many p c).verdict = .tooDeep
  simp only [GivesUp] at h
  rw [Scanner.many]
  cases hattempt : p c with
  | mk verdict failures =>
    rw [hattempt] at h
    simp_all

end GivingUp

/-- What holds of no repetitions, and of one before others if it holds of the others, holds of all the
repetitions that there are. -/
theorem many_induction {P : Cursor → List α → Cursor → Prop} (hnil : ∀ c, P c [] c)
    (hcons : ∀ {c value mid values next}, p.Matches c value mid → P mid values next →
      P c (value :: values) next)
    {values : List α} (h : Matches (many p) c values next) : P c values next := by
  have hverdict : (many p c).verdict = .matched values next := h
  clear h
  fun_induction many p c generalizing values with
  | case1 c hend =>
    obtain ⟨rfl, rfl⟩ : values = [] ∧ next = c := by simpa [eq_comm] using hverdict
    exact hnil next
  | case2 c hend value mid failures hattempt hshorter others last more hrest ih =>
    obtain ⟨rfl, rfl⟩ : values = value :: others ∧ next = last := by
      simpa [eq_comm] using hverdict
    exact hcons (by rw [Matches, hattempt]) (ih (by rw [hrest]))
  | case3 => simp at hverdict
  | case4 => simp at hverdict
  | case5 c hend value mid failures hattempt hshorter =>
    obtain ⟨rfl, rfl⟩ : values = [value] ∧ next = mid := by simpa [eq_comm] using hverdict
    exact hcons (by rw [Matches, hattempt]) (hnil next)
  | case6 c =>
    obtain ⟨rfl, rfl⟩ : values = [] ∧ next = c := by simpa [eq_comm] using hverdict
    exact hnil next
  | case7 => simp at hverdict

end GenericTuring.Grammar.Scanner
