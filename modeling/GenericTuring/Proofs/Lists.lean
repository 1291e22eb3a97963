import GenericTuring.Dictionary
import Mathlib.Data.List.Forall2

/-!
Looking up in lists of pairs, and maps over lists that may fail.
-/

namespace GenericTuring

variable {α β γ ε : Type}

theorem bind_eq_ok {x : Except ε α} {f : α → Except ε β} {b : β} :
    x >>= f = .ok b ↔ ∃ a, x = .ok a ∧ f a = .ok b := by
  cases x with
  | error e => simp [bind, Except.bind]
  | ok a => simp [bind, Except.bind]

theorem mapError_eq_ok {δ : Type} {x : Except ε α} {f : ε → δ} {a : α} :
    x.mapError f = .ok a ↔ x = .ok a := by
  cases x <;> simp [Except.mapError]

/-- A check on what a computation gives also shows that it gives something. -/
theorem exists_ok_of_any {x : Except ε α} {t : α → Bool} (h : x.toOption.any t = true) :
    ∃ a, x = .ok a ∧ t a = true := by
  cases x with
  | error e => simp [Except.toOption] at h
  | ok a => exact ⟨a, rfl, by simpa [Except.toOption] using h⟩

theorem mapM_eq_ok {f : α → Except ε β} {xs : List α} {ys : List β} :
    xs.mapM f = .ok ys ↔ List.Forall₂ (fun x y => f x = .ok y) xs ys := by
  induction xs generalizing ys with
  | nil => simp [pure, Except.pure, eq_comm]
  | cons x xs ih =>
    rw [List.mapM_cons, bind_eq_ok]
    constructor
    · rintro ⟨y, hy, h⟩
      obtain ⟨rest, hrest, h⟩ := bind_eq_ok.1 h
      obtain rfl : y :: rest = ys := by simpa [pure, Except.pure] using h
      exact .cons hy (ih.1 hrest)
    · intro h
      obtain ⟨y, rest, hy, hrest, rfl⟩ := List.forall₂_cons_left_iff.1 h
      exact ⟨y, hy, bind_eq_ok.2 ⟨rest, ih.2 hrest, rfl⟩⟩

/-- A map over a list fails as it does on one of the elements. -/
theorem exists_of_mapM_eq_error {f : α → Except ε β} {xs : List α} {e : ε}
    (h : xs.mapM f = .error e) : ∃ x ∈ xs, f x = .error e := by
  induction xs with
  | nil => simp [pure, Except.pure] at h
  | cons x xs ih =>
    cases hx : f x with
    | error found =>
      obtain rfl : found = e := by simpa [List.mapM_cons, hx, bind, Except.bind] using h
      exact ⟨x, List.mem_cons_self, hx⟩
    | ok y =>
      cases hrest : xs.mapM f with
      | ok ys => simp [List.mapM_cons, hx, hrest, bind, Except.bind, pure, Except.pure] at h
      | error found =>
        obtain rfl : found = e := by
          simpa [List.mapM_cons, hx, hrest, bind, Except.bind] using h
        obtain ⟨a, ha, hfound⟩ := ih hrest
        exact ⟨a, List.mem_cons_of_mem x ha, hfound⟩

theorem exists_of_mem_left {r : α → β → Prop} {xs : List α} {ys : List β}
    (h : List.Forall₂ r xs ys) {x : α} (hx : x ∈ xs) : ∃ y ∈ ys, r x y := by
  induction h with
  | nil => simp at hx
  | @cons a b xs ys hab _ ih =>
    rcases List.mem_cons.1 hx with rfl | hx
    · exact ⟨b, List.mem_cons_self, hab⟩
    · obtain ⟨y, hy, hxy⟩ := ih hx
      exact ⟨y, List.mem_cons_of_mem b hy, hxy⟩

theorem exists_of_mem_right {r : α → β → Prop} {xs : List α} {ys : List β}
    (h : List.Forall₂ r xs ys) {y : β} (hy : y ∈ ys) : ∃ x ∈ xs, r x y := by
  have hflip : List.Forall₂ (flip r) ys xs := List.Forall₂.flip h
  exact exists_of_mem_left hflip hy

theorem exists_zip_left {r : α → β → Prop} {ks : List γ} {xs : List α} {ys : List β}
    (h : List.Forall₂ r xs ys) {k : γ} {y : β} (hy : (k, y) ∈ ks.zip ys) :
    ∃ x, (k, x) ∈ ks.zip xs ∧ r x y := by
  induction h generalizing ks with
  | nil => simp at hy
  | @cons a b xs ys hab _ ih =>
    cases ks with
    | nil => simp at hy
    | cons k' ks =>
      rw [List.zip_cons_cons, List.mem_cons, Prod.mk.injEq] at hy
      rcases hy with ⟨rfl, rfl⟩ | hy
      · exact ⟨a, List.mem_cons_self, hab⟩
      · obtain ⟨x, hx, hxy⟩ := ih hy
        exact ⟨x, List.mem_cons_of_mem _ hx, hxy⟩

theorem exists_zip_right {r : α → β → Prop} {ks : List γ} {xs : List α} {ys : List β}
    (h : List.Forall₂ r xs ys) {k : γ} {x : α} (hx : (k, x) ∈ ks.zip xs) :
    ∃ y, (k, y) ∈ ks.zip ys ∧ r x y := by
  have hflip : List.Forall₂ (flip r) ys xs := List.Forall₂.flip h
  exact exists_zip_left hflip hx

theorem map_eq_map_of_forall₂ {r : α → β → Prop} {f : α → γ} {g : β → γ} {xs : List α}
    {ys : List β} (h : List.Forall₂ r xs ys) (heq : ∀ x y, r x y → f x = g y) :
    xs.map f = ys.map g := by
  induction h with
  | nil => rfl
  | cons hab _ ih => rw [List.map_cons, List.map_cons, heq _ _ hab, ih]

theorem exists_forall₂ {r : α → β → Prop} {xs : List α}
    (h : ∀ x ∈ xs, ∃ y, r x y) : ∃ ys, List.Forall₂ r xs ys := by
  induction xs with
  | nil => exact ⟨[], .nil⟩
  | cons x xs ih =>
    obtain ⟨y, hy⟩ := h x List.mem_cons_self
    obtain ⟨ys, hys⟩ := ih fun a ha => h a (List.mem_cons_of_mem x ha)
    exact ⟨y :: ys, .cons hy hys⟩

theorem eq_map_of_forall₂ {r : α → β → Prop} {q : β → γ → Prop} {f : α → γ}
    {xs : List α} {ys : List β} {zs : List γ} (hr : List.Forall₂ r xs ys)
    (hq : List.Forall₂ q ys zs) (h : ∀ x y z, x ∈ xs → r x y → q y z → z = f x) :
    zs = xs.map f := by
  induction hr generalizing zs with
  | nil => exact List.forall₂_nil_left_iff.1 hq
  | @cons x y xs ys hxy _ ih =>
    obtain ⟨z, rest, hyz, hrest, rfl⟩ := List.forall₂_cons_left_iff.1 hq
    rw [List.map_cons, h x y z List.mem_cons_self hxy hyz,
      ih hrest fun a b c ha => h a b c (List.mem_cons_of_mem x ha)]

section Lookup

variable [BEq α] [LawfulBEq α]

theorem mem_of_lookup_eq_some {k : α} {v : β} {entries : List (α × β)}
    (h : entries.lookup k = some v) : (k, v) ∈ entries := by
  obtain ⟨before, after, rfl, _⟩ := List.lookup_eq_some_iff.1 h
  simp

theorem lookup_eq_some_of_mem {k : α} {v : β} {entries : List (α × β)}
    (hnodup : (entries.map Prod.fst).Nodup) (h : (k, v) ∈ entries) :
    entries.lookup k = some v := by
  induction entries with
  | nil => simp at h
  | cons entry entries ih =>
    obtain ⟨hfirst, hrest⟩ := List.nodup_cons.1 hnodup
    rcases List.mem_cons.1 h with rfl | h
    · simp
    · have hne : k ≠ entry.1 := by
        rintro rfl
        exact hfirst (List.mem_map.2 ⟨_, h, rfl⟩)
      rw [List.lookup_cons, beq_false_of_ne hne]
      exact ih hrest h

theorem lookup_map_eq_find? [DecidableEq α] (key : γ → α) (value : γ → β) (k : α) (xs : List γ) :
    (xs.map fun x => (key x, value x)).lookup k = (xs.find? fun x => key x = k).map value := by
  induction xs with
  | nil => rfl
  | cons x xs ih =>
    by_cases h : key x = k
    · simp [h]
    · have hne : (k == key x) = false := beq_false_of_ne (Ne.symm h)
      simp [List.lookup_cons, hne, h, ih]

theorem exists_lookup_zip {k : α} {ks : List α} {vs : List β} (hlen : ks.length = vs.length)
    (h : k ∈ ks) : ∃ v, (ks.zip vs).lookup k = some v := by
  apply Option.isSome_iff_exists.1
  rw [List.lookup_isSome_iff]
  obtain ⟨i, hi, rfl⟩ := List.mem_iff_getElem.1 h
  refine ⟨(ks[i], vs[i]), ?_, by simp⟩
  rw [List.mem_iff_getElem]
  exact ⟨i, by simp; omega, by simp⟩

theorem lookup_zip_eq_none {k : α} {ks : List α} {vs : List β} (h : k ∉ ks) :
    (ks.zip vs).lookup k = none := by
  refine List.lookup_eq_none_iff.2 fun entry hentry => ?_
  have hne : k ≠ entry.1 := fun heq => h (heq ▸ (List.of_mem_zip hentry).1)
  simpa using hne

/-- A name keeps its value when all names are replaced, as long as different ones stay different. -/
theorem lookup_zip_map {f : α → α} {ks : List α} {vs : List β} {k : α}
    (hinj : ∀ x ∈ ks, ∀ y ∈ ks, f x = f y → x = y) (hk : k ∈ ks) :
    ((ks.map f).zip vs).lookup (f k) = (ks.zip vs).lookup k := by
  induction ks generalizing vs with
  | nil => simp at hk
  | cons first ks ih =>
    cases vs with
    | nil => rfl
    | cons v vs =>
      by_cases heq : k = first
      · simp [heq]
      · have hne : f k ≠ f first := fun h => heq (hinj k hk first List.mem_cons_self h)
        have hrest : k ∈ ks := (List.mem_cons.1 hk).resolve_left heq
        simp only [List.map_cons, List.zip_cons_cons, List.lookup_cons, beq_false_of_ne hne,
          beq_false_of_ne heq]
        exact ih (fun x hx y hy => hinj x (List.mem_cons_of_mem _ hx) y (List.mem_cons_of_mem _ hy))
          hrest

/-- Where names stand for names that stand for values, they stand for the values. -/
theorem lookup_zip_zip {names : List α} {others : List α} {vs : List β}
    (hnodup : others.Nodup) (hlen : names.length = others.length)
    (hlen' : others.length = vs.length) (k : α) :
    (names.zip vs).lookup k = ((names.zip others).lookup k).bind fun o => (others.zip vs).lookup o := by
  induction names generalizing others vs with
  | nil => simp
  | cons name names ih =>
    obtain _ | ⟨other, others⟩ := others
    · simp at hlen
    obtain _ | ⟨v, vs⟩ := vs
    · simp at hlen'
    obtain ⟨hfirst, hrest⟩ := List.nodup_cons.1 hnodup
    by_cases hk : k = name
    · simp [hk]
    · have htail := ih hrest (by simpa using hlen) (by simpa using hlen')
      simp only [List.zip_cons_cons, List.lookup_cons, beq_false_of_ne hk, htail]
      -- a later name never stands for the first of the others
      cases hother : (names.zip others).lookup k with
      | none => rfl
      | some o =>
        have ho : o ∈ others := (List.of_mem_zip (mem_of_lookup_eq_some hother)).2
        have hne : o ≠ other := fun heq => hfirst (heq ▸ ho)
        simp [beq_false_of_ne hne]

end Lookup

theorem Dictionary.assign_of_notMem [DecidableEq α] {key : α} {value : β} {list : List (α × β)}
    (h : key ∉ list.map Prod.fst) : assign key value list = list ++ [(key, value)] := by
  induction list with
  | nil => rfl
  | cons entry rest ih =>
    have hne : entry.1 ≠ key := fun heq => h (by simp [heq])
    have hrest := ih fun hmem => h (List.mem_cons_of_mem entry.1 hmem)
    simp [assign, hne, hrest]

end GenericTuring
