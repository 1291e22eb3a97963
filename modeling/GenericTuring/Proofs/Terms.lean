import GenericTuring.Term
import Mathlib.Data.List.Forall2

/-!
Laws of applied terms: how the terms inside a term, its atoms and its height follow its arguments, and
what becomes of them when terms are put in place of atoms.
-/

namespace GenericTuring.Term

variable {α β : Type}

theorem head_ofArgs (a : α) (xs : List (Term α)) : (ofArgs a xs).head = a := by
  suffices h : ∀ t : Term α, (xs.foldl app t).head = t.head from h (atom a)
  induction xs with
  | nil => intro t; rfl
  | cons x xs ih => intro t; exact ih (app t x)

theorem args_ofArgs (a : α) (xs : List (Term α)) : (ofArgs a xs).args = xs := by
  suffices h : ∀ t : Term α, (xs.foldl app t).args = t.args ++ xs from h (atom a)
  induction xs with
  | nil => intro t; simp
  | cons x xs ih => intro t; simpa [args, List.append_assoc] using ih (app t x)

/-- A term has one atom for each term in it, namely the head of that term. -/
theorem atoms_eq_map_head (t : Term α) : t.atoms = t.subterms.map head := by
  induction t with
  | atom a => rfl
  | app f x ihf ihx =>
    simp only [subterms, List.map_cons] at ihf ihx
    simp [atoms, subterms, inner, head, ihf, ihx]

theorem inner_eq_flatMap (t : Term α) : t.inner = t.args.flatMap subterms := by
  induction t with
  | atom a => rfl
  | app f x ihf _ => simp [inner, args, subterms, ihf]

theorem self_mem_subterms (t : Term α) : t ∈ t.subterms := List.mem_cons_self

theorem head_mem_atoms (t : Term α) : t.head ∈ t.atoms := by
  rw [atoms_eq_map_head]
  exact List.mem_map_of_mem t.self_mem_subterms

theorem mem_inner_of_mem_args {t x s : Term α} (hx : x ∈ t.args) (hs : s ∈ x.subterms) :
    s ∈ t.inner := by
  rw [inner_eq_flatMap]
  exact List.mem_flatMap.2 ⟨x, hx, hs⟩

theorem mem_subterms_of_mem_args {t x s : Term α} (hx : x ∈ t.args) (hs : s ∈ x.subterms) :
    s ∈ t.subterms :=
  List.mem_cons_of_mem t (mem_inner_of_mem_args hx hs)

theorem inner_subset_of_mem_inner {t s u : Term α} (hs : s ∈ t.inner) (hu : u ∈ s.inner) :
    u ∈ t.inner := by
  induction t with
  | atom a => simp [inner] at hs
  | app f x ihf ihx =>
    simp only [inner, List.mem_append, List.mem_cons] at hs ⊢
    rcases hs with hs | rfl | hs
    · exact .inl (ihf hs)
    · exact .inr (.inr hu)
    · exact .inr (.inr (ihx hs))

theorem mem_subterms_trans {t s u : Term α} (hs : s ∈ t.subterms) (hu : u ∈ s.subterms) :
    u ∈ t.subterms := by
  rcases List.mem_cons.1 hs with rfl | hs
  · exact hu
  · rcases List.mem_cons.1 hu with rfl | hu
    · exact List.mem_cons_of_mem t hs
    · exact List.mem_cons_of_mem t (inner_subset_of_mem_inner hs hu)

theorem mem_atoms_of_mem_subterms {t s : Term α} {a : α} (hs : s ∈ t.subterms)
    (ha : a ∈ s.atoms) : a ∈ t.atoms := by
  rw [atoms_eq_map_head] at ha ⊢
  obtain ⟨u, hu, rfl⟩ := List.mem_map.1 ha
  exact List.mem_map_of_mem (mem_subterms_trans hs hu)

theorem mem_atoms_of_mem_args {t x : Term α} {a : α} (hx : x ∈ t.args) (ha : a ∈ x.atoms) :
    a ∈ t.atoms :=
  mem_atoms_of_mem_subterms (mem_subterms_of_mem_args hx x.self_mem_subterms) ha

theorem mem_atoms_bind {f : α → Term β} {t : Term α} {b : β} (h : b ∈ (t.bind f).atoms) :
    ∃ a ∈ t.atoms, b ∈ (f a).atoms := by
  induction t with
  | atom a => exact ⟨a, by simp [atoms], h⟩
  | app g x ihg ihx =>
    simp only [atoms, List.mem_append]
    cases List.mem_append.1 h with
    | inl hg =>
      obtain ⟨a, ha, hb⟩ := ihg hg
      exact ⟨a, .inl ha, hb⟩
    | inr hx =>
      obtain ⟨a, ha, hb⟩ := ihx hx
      exact ⟨a, .inr ha, hb⟩

theorem height_lt_of_mem_inner {t s : Term α} (hs : s ∈ t.inner) : s.height < t.height := by
  induction t with
  | atom a => simp [inner] at hs
  | app f x ihf ihx =>
    simp only [inner, List.mem_append, List.mem_cons] at hs
    simp only [height]
    rcases hs with hs | rfl | hs
    · have := ihf hs; omega
    · omega
    · have := ihx hs; omega

theorem height_le_of_mem_subterms {t s : Term α} (hs : s ∈ t.subterms) : s.height ≤ t.height := by
  rcases List.mem_cons.1 hs with rfl | hs
  · exact Nat.le_refl _
  · exact Nat.le_of_lt (height_lt_of_mem_inner hs)

theorem depth_pos (t : Term α) : 0 < t.depth := by
  cases t with
  | atom a => exact Nat.one_pos
  | app f x => exact Nat.lt_of_lt_of_le x.depth.succ_pos (Nat.le_max_right _ _)

theorem depth_lt_of_mem_inner {t s : Term α} (hs : s ∈ t.inner) : s.depth < t.depth := by
  induction t with
  | atom a => simp [inner] at hs
  | app f x ihf ihx =>
    simp only [inner, List.mem_append, List.mem_cons] at hs
    simp only [depth]
    rcases hs with hs | rfl | hs
    · have := ihf hs; omega
    · omega
    · have := ihx hs; omega

theorem depth_le_of_mem_subterms {t s : Term α} (hs : s ∈ t.subterms) : s.depth ≤ t.depth := by
  rcases List.mem_cons.1 hs with rfl | hs
  · exact Nat.le_refl _
  · exact Nat.le_of_lt (depth_lt_of_mem_inner hs)

/-- A term without arguments is its head. -/
theorem eq_atom_of_args_eq_nil {t : Term α} (h : t.args = []) : t = atom t.head := by
  cases t with
  | atom a => rfl
  | app f x => simp [args] at h

section Bind

variable {f : α → Option (Term β)}

theorem bind?_app_eq_some {g x : Term α} {u : Term β} :
    (app g x).bind? f = some u ↔
      ∃ g' x', g.bind? f = some g' ∧ x.bind? f = some x' ∧ u = app g' x' := by
  cases hg : g.bind? f <;> cases hx : x.bind? f <;> simp [bind?, hg, hx, eq_comm]

theorem exists_bind?_eq_some {t : Term α} (h : ∀ a ∈ t.atoms, ∃ u, f a = some u) :
    ∃ u, t.bind? f = some u := by
  induction t with
  | atom a => exact h a (by simp [atoms])
  | app g x ihg ihx =>
    obtain ⟨g', hg⟩ := ihg fun a ha => h a (by simp [atoms, ha])
    obtain ⟨x', hx⟩ := ihx fun a ha => h a (by simp [atoms, ha])
    exact ⟨app g' x', bind?_app_eq_some.2 ⟨g', x', hg, hx, rfl⟩⟩

/-- Putting terms in place of atoms raises a term by the height of those terms at most. -/
theorem height_bind?_le {t : Term α} {u : Term β} {m : Nat} (h : t.bind? f = some u)
    (hm : ∀ a ∈ t.atoms, ∀ v, f a = some v → v.height ≤ m) : u.height ≤ t.height + m := by
  induction t generalizing u with
  | atom a => simpa [height] using hm a (by simp [atoms]) u h
  | app g x ihg ihx =>
    obtain ⟨g', x', hg, hx, rfl⟩ := bind?_app_eq_some.1 h
    have := ihg hg fun a ha => hm a (by simp [atoms, ha])
    have := ihx hx fun a ha => hm a (by simp [atoms, ha])
    simp only [height]
    omega

theorem mem_atoms_bind? {t : Term α} {u : Term β} {b : β} (h : t.bind? f = some u)
    (hb : b ∈ u.atoms) : ∃ a ∈ t.atoms, ∃ v, f a = some v ∧ b ∈ v.atoms := by
  induction t generalizing u with
  | atom a => exact ⟨a, by simp [atoms], u, h, hb⟩
  | app g x ihg ihx =>
    obtain ⟨g', x', hg, hx, rfl⟩ := bind?_app_eq_some.1 h
    rcases List.mem_append.1 hb with hb | hb
    · obtain ⟨a, ha, hv⟩ := ihg hg hb
      exact ⟨a, by simp [atoms, ha], hv⟩
    · obtain ⟨a, ha, hv⟩ := ihx hx hb
      exact ⟨a, by simp [atoms, ha], hv⟩

theorem mem_inner_bind? {t : Term α} {u s : Term β} (h : t.bind? f = some u) (hs : s ∈ u.inner) :
    (∃ r ∈ t.inner, r.bind? f = some s) ∨ ∃ a ∈ t.atoms, ∃ v, f a = some v ∧ s ∈ v.inner := by
  induction t generalizing u with
  | atom a => exact .inr ⟨a, by simp [atoms], u, h, hs⟩
  | app g x ihg ihx =>
    obtain ⟨g', x', hg, hx, rfl⟩ := bind?_app_eq_some.1 h
    simp only [inner, List.mem_append, List.mem_cons] at hs
    rcases hs with hs | rfl | hs
    · rcases ihg hg hs with ⟨r, hr, hrs⟩ | ⟨a, ha, hv⟩
      · exact .inl ⟨r, by simp [inner, hr], hrs⟩
      · exact .inr ⟨a, by simp [atoms, ha], hv⟩
    · exact .inl ⟨x, by simp [inner], hx⟩
    · rcases ihx hx hs with ⟨r, hr, hrs⟩ | ⟨a, ha, hv⟩
      · exact .inl ⟨r, by simp [inner, hr], hrs⟩
      · exact .inr ⟨a, by simp [atoms, ha], hv⟩

/-- A term inside the result stems from a term inside `t`, or lies inside a term put for an atom. -/
theorem mem_subterms_bind? {t : Term α} {u s : Term β} (h : t.bind? f = some u)
    (hs : s ∈ u.subterms) :
    (∃ r ∈ t.subterms, r.bind? f = some s) ∨
      ∃ a ∈ t.atoms, ∃ v, f a = some v ∧ s ∈ v.inner := by
  rcases List.mem_cons.1 hs with rfl | hs
  · exact .inl ⟨t, t.self_mem_subterms, h⟩
  · rcases mem_inner_bind? h hs with ⟨r, hr, hrs⟩ | hv
    · exact .inl ⟨r, List.mem_cons_of_mem t hr, hrs⟩
    · exact .inr hv

theorem exists_mem_inner_bind? {t r : Term α} {u : Term β} (h : t.bind? f = some u)
    (hr : r ∈ t.inner) : ∃ s ∈ u.inner, r.bind? f = some s := by
  induction t generalizing u with
  | atom a => simp [inner] at hr
  | app g x ihg ihx =>
    obtain ⟨g', x', hg, hx, rfl⟩ := bind?_app_eq_some.1 h
    simp only [inner, List.mem_append, List.mem_cons] at hr
    rcases hr with hr | rfl | hr
    · obtain ⟨s, hs, hrs⟩ := ihg hg hr
      exact ⟨s, by simp [inner, hs], hrs⟩
    · exact ⟨x', by simp [inner], hx⟩
    · obtain ⟨s, hs, hrs⟩ := ihx hx hr
      exact ⟨s, by simp [inner, hs], hrs⟩

theorem exists_mem_subterms_bind? {t r : Term α} {u : Term β} (h : t.bind? f = some u)
    (hr : r ∈ t.subterms) : ∃ s ∈ u.subterms, r.bind? f = some s := by
  rcases List.mem_cons.1 hr with rfl | hr
  · exact ⟨u, u.self_mem_subterms, h⟩
  · obtain ⟨s, hs, hrs⟩ := exists_mem_inner_bind? h hr
    exact ⟨s, List.mem_cons_of_mem u hs, hrs⟩

/-- Where an atom is put for the head of a term, the arguments correspond one by one. -/
theorem head_args_bind? {t : Term α} {u : Term β} {b : β} (h : t.bind? f = some u)
    (hb : f t.head = some (atom b)) :
    u.head = b ∧ List.Forall₂ (fun x y => x.bind? f = some y) t.args u.args := by
  induction t generalizing u with
  | atom a =>
    obtain rfl : u = atom b := Option.some.inj (h.symm.trans hb)
    exact ⟨rfl, .nil⟩
  | app g x ihg _ =>
    obtain ⟨g', x', hg, hx, rfl⟩ := bind?_app_eq_some.1 h
    obtain ⟨hhead, hargs⟩ := ihg hg hb
    exact ⟨hhead, List.rel_append hargs (.cons hx .nil)⟩

end Bind

section Map

variable {γ : Type} (f : α → β)

def map (t : Term α) : Term β := t.bind fun a => atom (f a)

theorem head_map (t : Term α) : (t.map f).head = f t.head := by
  induction t with
  | atom a => rfl
  | app g x ihg _ => exact ihg

theorem args_map (t : Term α) : (t.map f).args = t.args.map (map f) := by
  induction t with
  | atom a => rfl
  | app g x ihg _ =>
    have hargs : ((app g x).map f).args = (g.map f).args ++ [x.map f] := rfl
    simp [hargs, args, ihg]

theorem inner_map (t : Term α) : (t.map f).inner = t.inner.map (map f) := by
  induction t with
  | atom a => rfl
  | app g x ihg ihx =>
    have hinner : ((app g x).map f).inner = (g.map f).inner ++ x.map f :: (x.map f).inner := rfl
    simp [hinner, inner, ihg, ihx]

theorem subterms_map (t : Term α) : (t.map f).subterms = t.subterms.map (map f) := by
  simp [subterms, inner_map]

theorem bind_map (g : β → Term γ) (t : Term α) : (t.map f).bind g = t.bind fun a => g (f a) := by
  induction t with
  | atom a => rfl
  | app h x ihh ihx => exact congrArg₂ app ihh ihx

theorem bind_congr {f g : α → Term β} {t : Term α} (h : ∀ a ∈ t.atoms, f a = g a) :
    t.bind f = t.bind g := by
  induction t with
  | atom a => exact h a (by simp [atoms])
  | app k x ihk ihx =>
    exact congrArg₂ app (ihk fun a ha => h a (by simp [atoms, ha]))
      (ihx fun a ha => h a (by simp [atoms, ha]))

end Map

end GenericTuring.Term
