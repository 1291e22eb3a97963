import GenericTuring.Proofs.Search
import GenericTuring.Proofs.WellFormed
import GenericTuring.Table.Expansion

/-!
The states that a program reaches, said without a search: its start, the arguments of states, and the
targets of their rules. In a well-formed program every rule of a state has a target.
-/

namespace GenericTuring

namespace Ref

def value (env : List (String × Key)) (a : Located Label) : Option Key :=
  match a.val with
  | .state name => some (.atom name)
  | .param name => env.lookup name

theorem value_of_state {env : List (String × Key)} {a : Located Label} {name : String}
    (h : a.val = .state name) : value env a = some (.atom name) := by
  rw [value, h]

theorem value_of_param {env : List (String × Key)} {a : Located Label} {x : String}
    (h : a.val = .param x) : value env a = env.lookup x := by
  rw [value, h]

theorem instantiate?_eq_bind? (env : List (String × Key)) (ref : Ref) :
    ref.instantiate? env = ref.bind? (value env) := rfl

theorem mem_params {ref : Ref} {x : String} :
    x ∈ ref.params ↔ ∃ a ∈ ref.atoms, a.val = .param x := by
  simp only [params, List.mem_filterMap]
  refine exists_congr fun a => and_congr_right fun _ => ?_
  cases a.val <;> simp [Label.param?]

theorem mem_states {ref sub : Ref} : sub ∈ ref.states ↔ sub ∈ ref.subterms ∧ sub.isState = true := by
  simp [states, List.mem_filter]

/-- The arguments of a reference inside another one are inside it too. -/
theorem mem_subterms_of_mem_states {target ref arg : Ref} (href : ref ∈ target.states)
    (harg : arg ∈ ref.args) : arg ∈ target.subterms :=
  Term.mem_subterms_trans (mem_states.1 href).1
    (Term.mem_subterms_of_mem_args harg arg.self_mem_subterms)

theorem exists_instantiate? {env : List (String × Key)} {ref : Ref}
    (h : ∀ x ∈ ref.params, ∃ key, env.lookup x = some key) :
    ∃ key, ref.instantiate? env = some key := by
  refine Term.exists_bind?_eq_some fun a ha => ?_
  cases hval : a.val with
  | state name => exact ⟨.atom name, rfl⟩
  | param x =>
    obtain ⟨key, hkey⟩ := h x (mem_params.2 ⟨a, ha, hval⟩)
    exact ⟨key, hkey⟩

/-- A reference to a state becomes a key of that state, argument by argument. -/
theorem head_args_instantiate? {env : List (String × Key)} {ref : Ref} {key : Key}
    (h : ref.instantiate? env = some key) (hstate : ref.isState = true) :
    key.head = ref.name ∧
      List.Forall₂ (fun arg value => Ref.instantiate? env arg = some value) ref.args key.args := by
  refine Term.head_args_bind? h ?_
  simp only [isState, name] at hstate ⊢
  cases hval : (Term.head ref).val with
  | state name => rfl
  | param x => simp [hval, Label.isState] at hstate

/-- A bare parameter is an atom, and it becomes what it is bound to. -/
theorem lookup_of_instantiate? {env : List (String × Key)} {ref : Ref} {key : Key} (hbare : ref.Bare)
    (h : ref.instantiate? env = some key) (hstate : ref.isState = false) :
    ∃ x, ref.params = [x] ∧ env.lookup x = some key := by
  have hatom := Term.eq_atom_of_args_eq_nil (hbare ref ref.self_mem_subterms hstate)
  cases hval : (Term.head ref).val with
  | state name => simp [isState, hval, Label.isState] at hstate
  | param x =>
    refine ⟨x, ?_, ?_⟩
    · rw [params, hatom]
      simp [Term.atoms, hval, Label.param?]
    · rw [instantiate?_eq_bind?, hatom, Term.bind?, value_of_param hval] at h
      exact h

theorem Bare.subterm {ref sub : Ref} (h : ref.Bare) (hsub : sub ∈ ref.subterms) : Bare sub :=
  fun inner hinner => h inner (Term.mem_subterms_trans hsub hinner)

theorem params_subset_of_subterm {ref sub : Ref} (hsub : sub ∈ ref.subterms) {x : String}
    (hx : x ∈ params sub) : x ∈ ref.params := by
  obtain ⟨a, ha, hval⟩ := mem_params.1 hx
  exact mem_params.2 ⟨a, Term.mem_atoms_of_mem_subterms hsub ha, hval⟩

/-- An atom of the key that a reference becomes names a state of the reference, or comes from what one
of its parameters is bound to. -/
theorem mem_atoms_instantiate? {env : List (String × Key)} {ref : Ref} {key : Key} {a : String}
    (h : ref.instantiate? env = some key) (ha : a ∈ key.atoms) :
    (∃ sub ∈ ref.states, Ref.name sub = a) ∨
      ∃ x ∈ ref.params, ∃ bound, env.lookup x = some bound ∧ a ∈ bound.atoms := by
  obtain ⟨b, hb, v, hv, hav⟩ := Term.mem_atoms_bind? h ha
  cases hval : b.val with
  | param x =>
    exact .inr ⟨x, mem_params.2 ⟨b, hb, hval⟩, v, (value_of_param hval).symm.trans hv, hav⟩
  | state name =>
    obtain rfl : .atom name = v := Option.some.inj ((value_of_state hval).symm.trans hv)
    obtain rfl : a = name := by simpa [Term.atoms] using hav
    rw [Term.atoms_eq_map_head] at hb
    obtain ⟨sub, hsub, rfl⟩ := List.mem_map.1 hb
    refine .inl ⟨sub, mem_states.2 ⟨hsub, ?_⟩, ?_⟩
    · simp [isState, hval, Label.isState]
    · simp [Ref.name, hval, Label.name]

/-- A key inside the key that a reference becomes stems from a reference to a state, or lies inside what
a parameter is bound to. -/
theorem mem_subterms_instantiate? {env : List (String × Key)} {ref : Ref} {key sub : Key}
    (hbare : ref.Bare) (h : ref.instantiate? env = some key) (hsub : sub ∈ key.subterms) :
    (∃ r ∈ ref.states, Ref.instantiate? env r = some sub) ∨
      ∃ x ∈ ref.params, ∃ bound, env.lookup x = some bound ∧ sub ∈ bound.subterms := by
  rcases Term.mem_subterms_bind? h hsub with ⟨r, hr, hinst⟩ | ⟨a, ha, v, hv, hmem⟩
  · cases hstate : Ref.isState r with
    | true => exact .inl ⟨r, mem_states.2 ⟨hr, hstate⟩, hinst⟩
    | false =>
      obtain ⟨x, hx, hlookup⟩ := lookup_of_instantiate? (hbare.subterm hr) hinst hstate
      exact .inr ⟨x, params_subset_of_subterm hr (by simp [hx]), sub, hlookup,
        sub.self_mem_subterms⟩
  · cases hval : a.val with
    | state name =>
      obtain rfl : .atom name = v := Option.some.inj ((value_of_state hval).symm.trans hv)
      simp [Term.inner] at hmem
    | param x =>
      exact .inr ⟨x, mem_params.2 ⟨a, ha, hval⟩, v, (value_of_param hval).symm.trans hv,
        List.mem_cons_of_mem v hmem⟩

theorem height_instantiate?_le {env : List (String × Key)} {ref : Ref} {key : Key} {m : Nat}
    (h : ref.instantiate? env = some key)
    (hm : ∀ x ∈ ref.params, ∀ bound, env.lookup x = some bound → bound.height ≤ m) :
    key.height ≤ Term.height ref + m := by
  refine Term.height_bind?_le h fun a ha v hv => ?_
  cases hval : a.val with
  | state name =>
    obtain rfl : .atom name = v := Option.some.inj ((value_of_state hval).symm.trans hv)
    exact Nat.zero_le m
  | param x => exact hm x (mem_params.2 ⟨a, ha, hval⟩) v ((value_of_param hval).symm.trans hv)

end Ref

namespace Program

inductive Reaches (p : Program) : Key → Prop
  | start {key : Key} (hstart : p.startKey = .ok key) : Reaches p key
  | argument {key arg : Key} (hkey : Reaches p key) (hmeaning : (p.meaning key).isResolved = true)
      (harg : arg ∈ key.args) : Reaches p arg
  | target {key next : Key} {d : Definition} {r : Rule} (hkey : Reaches p key)
      (hmeaning : p.meaning key = .defined d) (hr : r ∈ d.rules)
      (hnext : r.target.instantiate? (bindings d key) = some next) : Reaches p next

variable {p : Program}

theorem meaning_eq_finish {key : Key} : p.meaning key = .finish ↔ key = Key.finish := by
  constructor
  · intro h
    by_cases hhead : key.head = finishName
    · by_cases hargs : key.args = []
      · rw [Term.eq_atom_of_args_eq_nil hargs, hhead]; rfl
      · simp [meaning, hhead, hargs] at h
    · simp only [meaning, hhead, if_false] at h
      split at h
      · simp at h
      · split at h <;> simp at h
  · rintro rfl
    simp [meaning, Key.finish, Term.head, Term.args]

theorem meaning_eq_defined {key : Key} {d : Definition} :
    p.meaning key = .defined d ↔
      key.head ≠ finishName ∧ p.definition? key.head = some d ∧ d.arity = key.args.length := by
  by_cases hhead : key.head = finishName
  · by_cases hargs : key.args.isEmpty <;> simp [meaning, hhead, hargs]
  · cases hd : p.definition? key.head with
    | none => simp [meaning, hhead, hd]
    | some found =>
      by_cases harity : found.arity = key.args.length
      · simp only [meaning, hhead, hd, harity, if_true, if_false, Meaning.defined.injEq, ne_eq,
          not_false_eq_true, Option.some.injEq, true_and]
        exact ⟨fun h => ⟨h, h ▸ harity⟩, fun h => h.1⟩
      · simp only [meaning, hhead, hd, harity, if_false, reduceCtorEq, ne_eq, not_false_eq_true,
          Option.some.injEq, true_and, false_iff, not_and]
        rintro rfl
        exact harity

theorem isResolved_iff {key : Key} :
    (p.meaning key).isResolved = true ↔ key = Key.finish ∨ ∃ d, p.meaning key = .defined d := by
  rw [← meaning_eq_finish (p := p)]
  cases p.meaning key <;> simp [Meaning.isResolved]

theorem mem_successors {key next : Key} :
    (∃ loc, (loc, next) ∈ p.successors key) ↔ ∃ d, p.meaning key = .defined d ∧
      (next ∈ key.args ∨ ∃ r ∈ d.rules, r.target.instantiate? (bindings d key) = some next) := by
  cases hmeaning : p.meaning key with
  | defined d =>
    simp only [successors, hmeaning, List.mem_append, List.mem_map, List.mem_filterMap,
      Option.map_eq_some_iff, Meaning.defined.injEq, exists_eq_left']
    constructor
    · rintro ⟨loc, ⟨arg, harg, heq⟩ | ⟨r, hr, target, htarget, heq⟩⟩
      · exact .inl ((Prod.mk.inj heq).2 ▸ harg)
      · exact .inr ⟨r, hr, (Prod.mk.inj heq).2 ▸ htarget⟩
    · rintro (harg | ⟨r, hr, htarget⟩)
      · exact ⟨none, .inl ⟨next, harg, rfl⟩⟩
      · exact ⟨some r.target.loc, .inr ⟨r, hr, next, htarget, rfl⟩⟩
  | finish => simp [successors, hmeaning]
  | undefined => simp [successors, hmeaning]
  | mismatch expected => simp [successors, hmeaning]

/-- The states of a program are those that the search for them can reach. -/
theorem reaches_iff_reached {start key : Key} (hstart : p.startKey = .ok start) :
    p.Reaches key ↔ Search.Reached p.successors [start] key := by
  constructor
  · intro h
    induction h with
    | @start key hkey =>
      obtain rfl : start = key := by simpa [hstart] using hkey
      exact .root (by simp)
    | @argument key arg _ hmeaning harg ih =>
      rcases isResolved_iff.1 hmeaning with rfl | ⟨d, hd⟩
      · simp [Key.finish, Term.args] at harg
      · exact ih.step (mem_successors.2 ⟨d, hd, .inl harg⟩)
    | @target key next d r _ hmeaning hr hnext ih =>
      exact ih.step (mem_successors.2 ⟨d, hmeaning, .inr ⟨r, hr, hnext⟩⟩)
  · rintro ⟨root, hroot, hpath⟩
    obtain rfl := List.mem_singleton.1 hroot
    induction hpath with
    | refl => exact .start hstart
    | tail _ hstep ih =>
      obtain ⟨d, hd, harg | ⟨r, hr, hnext⟩⟩ := mem_successors.1 hstep
      · exact .argument ih (isResolved_iff.2 (.inr ⟨d, hd⟩)) harg
      · exact .target ih hd hr hnext

theorem WellFormed.exists_startKey (h : p.WellFormed) : ∃ key, p.startKey = .ok key := by
  obtain ⟨key, hkey⟩ : ∃ key, p.start.instantiate? [] = some key :=
    Ref.exists_instantiate? (by simp [h.start_params])
  exact ⟨key, by simp [startKey, hkey]⟩

theorem startKey_eq_ok {key : Key} : p.startKey = .ok key ↔ p.start.instantiate? [] = some key := by
  cases h : p.start.instantiate? [] <;> simp [startKey, h]

theorem mem_definitions_of_meaning {key : Key} {d : Definition} (h : p.meaning key = .defined d) :
    d ∈ p.definitions ∧ d.name = key.head :=
  mem_of_definition? (meaning_eq_defined.1 h).2.1

/-- Every rule of a state has a target. -/
theorem WellFormed.exists_target (h : p.WellFormed) {key : Key} {d : Definition} {r : Rule}
    (hmeaning : p.meaning key = .defined d) (hr : r ∈ d.rules) :
    ∃ next, r.target.instantiate? (bindings d key) = some next := by
  obtain ⟨hd, _⟩ := mem_definitions_of_meaning hmeaning
  obtain ⟨_, _, harity⟩ := meaning_eq_defined.1 hmeaning
  refine Ref.exists_instantiate? fun x hx => ?_
  exact exists_lookup_zip harity (h.target_scoped d hd r hr x hx)

end Program

end GenericTuring
