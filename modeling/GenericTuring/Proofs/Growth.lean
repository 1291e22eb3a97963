import GenericTuring.Proofs.Expansion
import Mathlib

/-!
An expanding cycle is no false alarm. If every reference of a program resolves, then each definition it
mentions has a state, and a value that goes round a cycle with an expanding hand-over comes back deeper
than it was; so the program has states of any depth.
-/

namespace GenericTuring

namespace Ref

/-- What a parameter is bound to stands in the key that a reference becomes, and stands inside it if the
reference is more than the parameter. -/
theorem bound_mem_instantiate? {env : List (String × Key)} {ref : Ref} {key bound : Key} {x : String}
    (hbare : ref.Bare) (h : ref.instantiate? env = some key) (hx : x ∈ ref.params)
    (hbound : env.lookup x = some bound) :
    bound ∈ key.subterms ∧ (ref.isState = true → bound ∈ key.inner) := by
  obtain ⟨a, ha, hval⟩ := mem_params.1 hx
  rw [Term.atoms_eq_map_head] at ha
  obtain ⟨sub, hsub, rfl⟩ := List.mem_map.1 ha
  have hstate : isState sub = false := by simp [isState, hval, Label.isState]
  have hvalue : ∀ k, Ref.instantiate? env sub = some k → k = bound := by
    intro k hk
    obtain ⟨y, hy, hlookup⟩ := lookup_of_instantiate? (hbare.subterm hsub) hk hstate
    have hxy : x ∈ Ref.params sub := mem_params.2 ⟨Term.head sub, sub.head_mem_atoms, hval⟩
    obtain rfl : x = y := by simpa [hy] using hxy
    exact Option.some.inj (hlookup.symm.trans hbound)
  constructor
  · obtain ⟨k, hk, hinst⟩ := Term.exists_mem_subterms_bind? h hsub
    exact hvalue k hinst ▸ hk
  · intro href
    have hinner : sub ∈ ref.inner := by
      cases List.mem_cons.1 hsub with
      | inl heq => simp [heq, href] at hstate
      | inr hinner => exact hinner
    obtain ⟨k, hk, hinst⟩ := Term.exists_mem_inner_bind? h hinner
    exact hvalue k hinst ▸ hk

theorem bare_of_params_eq_nil {ref : Ref} (h : ref.params = []) : ref.Bare := by
  intro sub hsub hstate
  cases hval : (Term.head sub).val with
  | state name => simp [isState, hval, Label.isState] at hstate
  | param x =>
    have hx : x ∈ ref.params :=
      mem_params.2 ⟨_, Term.mem_atoms_of_mem_subterms hsub sub.head_mem_atoms, hval⟩
    simp [h] at hx

end Ref

namespace Program

variable {p : Program}

def Resolves (p : Program) (ref : Ref) : Prop :=
  (ref.name = finishName ∧ ref.args = []) ∨
    ∃ d ∈ p.definitions, d.name = ref.name ∧ d.arity = ref.args.length

instance (p : Program) (ref : Ref) : Decidable (p.Resolves ref) :=
  inferInstanceAs (Decidable ((ref.name = finishName ∧ ref.args = []) ∨
    ∃ d ∈ p.definitions, d.name = ref.name ∧ d.arity = ref.args.length))

def references (p : Program) : List Ref :=
  p.start.states ++ p.mentioned.flatMap fun d => d.rules.flatMap fun r => r.target.states

def Sound (p : Program) : Prop := ∀ ref ∈ p.references, p.Resolves ref

theorem Sound.start (h : p.Sound) {ref : Ref} (href : ref ∈ p.start.states) : p.Resolves ref :=
  h ref (List.mem_append_left _ href)

theorem Sound.rule (h : p.Sound) {d : Definition} {r : Rule} {ref : Ref} (hd : d ∈ p.mentioned)
    (hr : r ∈ d.rules) (href : ref ∈ r.target.states) : p.Resolves ref :=
  h ref (List.mem_append_right _ (List.mem_flatMap.2 ⟨d, hd, List.mem_flatMap.2 ⟨r, hr, href⟩⟩))

theorem meaning_of_resolves (hwf : p.WellFormed) {ref : Ref} {env : List (String × Key)} {key : Key}
    (href : p.Resolves ref) (hstate : ref.isState = true) (h : ref.instantiate? env = some key) :
    (p.meaning key).isResolved = true := by
  obtain ⟨hhead, hargs⟩ := Ref.head_args_instantiate? h hstate
  cases href with
  | inl hfinish =>
    obtain ⟨hname, hnil⟩ := hfinish
    have hkey : key.args = [] := by
      rw [hnil] at hargs
      exact List.forall₂_nil_left_iff.1 hargs
    refine isResolved_iff.2 (.inl ?_)
    rw [Term.eq_atom_of_args_eq_nil hkey, hhead, hname]
    rfl
  | inr hdefined =>
    obtain ⟨d, hd, hname, harity⟩ := hdefined
    refine isResolved_iff.2 (.inr ⟨d, meaning_eq_defined.2 ⟨?_, ?_, ?_⟩⟩)
    · rw [hhead, ← hname]
      exact hwf.name_ne_finish d hd
    · rw [hhead, ← hname]
      exact hwf.definition?_of_mem hd
    · rw [harity, hargs.length_eq]

/-- Every state inside a state of a sound program has a meaning. -/
theorem resolved_of_reaches (hwf : p.WellFormed) (hsound : p.Sound) {key : Key} (h : p.Reaches key)
    {sub : Key} (hsub : sub ∈ key.subterms) : (p.meaning sub).isResolved = true := by
  induction h generalizing sub with
  | start hstart =>
    have hbare := Ref.bare_of_params_eq_nil hwf.start_params
    cases Ref.mem_subterms_instantiate? hbare (startKey_eq_ok.1 hstart) hsub with
    | inl hstate =>
      obtain ⟨ref, href, hinst⟩ := hstate
      exact meaning_of_resolves hwf (hsound.start href) (Ref.mem_states.1 href).2 hinst
    | inr hparam =>
      obtain ⟨x, hx, _⟩ := hparam
      simp [hwf.start_params] at hx
  | argument _ _ harg ih => exact ih (Term.mem_subterms_of_mem_args harg hsub)
  | @target key next d r hkey hmeaning hr hnext ih =>
    have hd := mem_mentioned_of_reaches hwf hkey hmeaning
    have hbare := hwf.target_bare d (mem_definitions_of_mentioned hd).1 r hr
    cases Ref.mem_subterms_instantiate? hbare hnext hsub with
    | inl hstate =>
      obtain ⟨ref, href, hinst⟩ := hstate
      exact meaning_of_resolves hwf (hsound.rule hd hr href) (Ref.mem_states.1 href).2 hinst
    | inr hparam =>
      obtain ⟨x, _, bound, hbound, hin⟩ := hparam
      have harg : bound ∈ key.args := (List.of_mem_zip (mem_of_lookup_eq_some hbound)).2
      exact ih (Term.mem_subterms_of_mem_args harg hin)

def Meaningful (p : Program) : Prop := ∀ key, p.Reaches key → (p.meaning key).isResolved = true

theorem Sound.meaningful (h : p.Sound) (hwf : p.WellFormed) : p.Meaningful :=
  fun key hkey => resolved_of_reaches hwf h hkey key.self_mem_subterms

theorem reaches_subterm (hall : p.Meaningful) {key sub : Key} (h : p.Reaches key)
    (hsub : sub ∈ key.subterms) : p.Reaches sub := by
  induction hn : key.height using Nat.strong_induction_on generalizing key with
  | _ n ih =>
    cases List.mem_cons.1 hsub with
    | inl heq => exact heq ▸ h
    | inr hinner =>
      rw [Term.inner_eq_flatMap] at hinner
      obtain ⟨arg, harg, hmem⟩ := List.mem_flatMap.1 hinner
      have hreach : p.Reaches arg :=
        .argument h (hall key h) harg
      have hlt : arg.height < n :=
        hn ▸ Term.height_lt_of_mem_inner (Term.mem_inner_of_mem_args harg arg.self_mem_subterms)
      exact ih arg.height hlt hreach hmem rfl

/-- A state whose name is that of a definition is a state of that definition. -/
theorem meaning_of_definition? (hwf : p.WellFormed) (hall : p.Meaningful) {key : Key}
    (h : p.Reaches key) {d : Definition} (hd : p.definition? key.head = some d) :
    p.meaning key = .defined d := by
  have hne := hwf.name_ne_finish d (mem_of_definition? hd).1
  rw [(mem_of_definition? hd).2] at hne
  cases isResolved_iff.1 (hall key h) with
  | inl hfinish => exact absurd (hfinish ▸ rfl) hne
  | inr hdefined =>
    obtain ⟨found, hfound⟩ := hdefined
    have heq := (meaning_eq_defined.1 hfound).2.1
    rw [hfound, Option.some.inj (heq.symm.trans hd)]

/-- A reference in a rule of a state leads to a state. -/
theorem reaches_reference (hwf : p.WellFormed) (hall : p.Meaningful) {key : Key} (h : p.Reaches key)
    {d : Definition} (hmeaning : p.meaning key = .defined d) {r : Rule} (hr : r ∈ d.rules) {ref : Ref}
    (href : ref ∈ r.target.states) :
    ∃ next, ref.instantiate? (bindings d key) = some next ∧ p.Reaches next := by
  obtain ⟨target, htarget⟩ := hwf.exists_target hmeaning hr
  obtain ⟨next, hnext, hinst⟩ :=
    Term.exists_mem_subterms_bind? htarget (Ref.mem_states.1 href).1
  exact ⟨next, hinst, reaches_subterm hall (.target h hmeaning hr htarget) hnext⟩

/-- Every name that is mentioned is that of a state. -/
theorem exists_state_of_mentioned (hwf : p.WellFormed) (hall : p.Meaningful) {name : String}
    (h : p.Mentioned name) : ∃ key, p.Reaches key ∧ key.head = name := by
  induction h with
  | @start ref href =>
    obtain ⟨start, hstart⟩ := hwf.exists_startKey
    obtain ⟨hsub, hstate⟩ := Ref.mem_states.1 href
    obtain ⟨key, hkey, hinst⟩ := Term.exists_mem_subterms_bind? (startKey_eq_ok.1 hstart) hsub
    exact ⟨key, reaches_subterm hall (.start hstart) hkey,
      (Ref.head_args_instantiate? hinst hstate).1⟩
  | @rule name d r ref _ hd hr href ih =>
    obtain ⟨key, hkey, rfl⟩ := ih
    have hmeaning := meaning_of_definition? hwf hall hkey hd
    obtain ⟨next, hinst, hnext⟩ := reaches_reference hwf hall hkey hmeaning hr href
    exact ⟨next, hnext, (Ref.head_args_instantiate? hinst (Ref.mem_states.1 href).2).1⟩

def Holds (p : Program) (place : Flow.Place) (value : Key) : Prop :=
  ∃ key d, p.Reaches key ∧ p.meaning key = .defined d ∧ d.name = place.state ∧
    (place.param, value) ∈ d.params.zip key.args

/-- A hand-over passes a value on, and an expanding one passes on a deeper value. -/
theorem Holds.edge (hwf : p.WellFormed) (hall : p.Meaningful) {e : Flow.Edge} (he : e ∈ Flow.edges p)
    {v : Key} (h : p.Holds e.source v) :
    ∃ w, p.Holds e.target w ∧ v.depth ≤ w.depth ∧ (e.expanding = true → v.depth < w.depth) := by
  obtain ⟨owner, howner, r, hr, ref, href, callee, hcallee, param, arg, harg, source, hsource, rfl⟩ :=
    Flow.mem_edges.1 he
  obtain ⟨key, d, hkey, hmeaning, hname, hv⟩ := h
  obtain ⟨howner', hfound, _⟩ := mem_definitions_of_mentioned howner
  obtain ⟨hd, _⟩ := mem_definitions_of_meaning hmeaning
  have hdef : p.definition? d.name = some owner := hname ▸ hfound
  obtain rfl : d = owner := Option.some.inj ((hwf.definition?_of_mem hd).symm.trans hdef)
  obtain ⟨next, hinst, hnext⟩ := reaches_reference hwf hall hkey hmeaning hr href
  obtain ⟨hhead, hargs⟩ := Ref.head_args_instantiate? hinst (Ref.mem_states.1 href).2
  obtain ⟨w, hw, hvalue⟩ := exists_zip_right hargs harg
  have hcallee' : p.meaning next = .defined callee :=
    meaning_of_definition? hwf hall hnext (hhead ▸ hcallee)
  have hargsub : arg ∈ r.target.subterms :=
    Ref.mem_subterms_of_mem_states href (List.of_mem_zip harg).2
  have hbound : (bindings d key).lookup source = some v := by
    refine lookup_eq_some_of_mem ?_ hv
    have hlen := (meaning_eq_defined.1 hmeaning).2.2
    rw [bindings, List.map_fst_zip (Nat.le_of_eq hlen)]
    exact hwf.params_nodup d hd
  obtain ⟨hmem, hinner⟩ := Ref.bound_mem_instantiate?
    ((hwf.target_bare d hd r hr).subterm hargsub) hvalue hsource hbound
  exact ⟨w, ⟨next, callee, hnext, hcallee', rfl, hw⟩, Term.depth_le_of_mem_subterms hmem,
    fun hexp => Term.depth_lt_of_mem_inner (hinner hexp)⟩

theorem Holds.path (hwf : p.WellFormed) (hall : p.Meaningful) {a b : Flow.Place}
    (hpath : Flow.Path (Flow.edges p) a b) {v : Key} (h : p.Holds a v) :
    ∃ w, p.Holds b w ∧ v.depth ≤ w.depth := by
  induction hpath with
  | refl => exact ⟨v, h, Nat.le_refl _⟩
  | tail _ hlead ih =>
    obtain ⟨u, hu, hle⟩ := ih
    obtain ⟨e, he, rfl, rfl⟩ := hlead
    obtain ⟨w, hw, hle', _⟩ := hu.edge hwf hall he
    exact ⟨w, hw, hle.trans hle'⟩

/-- Once round a cycle with an expanding edge, a value is deeper than it was. -/
theorem Holds.round (hwf : p.WellFormed) (hall : p.Meaningful) {e : Flow.Edge} (he : e ∈ Flow.edges p)
    (hexp : e.expanding = true) (hback : Flow.Path (Flow.edges p) e.target e.source) {v : Key}
    (h : p.Holds e.source v) : ∃ w, p.Holds e.source w ∧ v.depth < w.depth := by
  obtain ⟨u, hu, _, hlt⟩ := h.edge hwf hall he
  obtain ⟨w, hw, hle⟩ := hu.path hwf hall hback
  exact ⟨w, hw, (hlt hexp).trans_le hle⟩

theorem exists_holds_source (hwf : p.WellFormed) (hall : p.Meaningful) {e : Flow.Edge}
    (he : e ∈ Flow.edges p) : ∃ v, p.Holds e.source v := by
  obtain ⟨owner, howner, hname, hparam⟩ := hwf.edge_owned he
  obtain ⟨_, hfound, hmention⟩ := mem_definitions_of_mentioned howner
  obtain ⟨key, hkey, hhead⟩ := exists_state_of_mentioned hwf hall hmention
  have hmeaning : p.meaning key = .defined owner :=
    meaning_of_definition? hwf hall hkey (hhead ▸ hfound)
  obtain ⟨v, hv⟩ := exists_lookup_zip (meaning_eq_defined.1 hmeaning).2.2 hparam
  exact ⟨v, key, owner, hkey, hmeaning, hname, mem_of_lookup_eq_some hv⟩

theorem exists_deep_value (hwf : p.WellFormed) (hall : p.Meaningful) {e : Flow.Edge}
    (he : e ∈ Flow.edges p) (hexp : e.expanding = true)
    (hback : Flow.Path (Flow.edges p) e.target e.source) (n : Nat) :
    ∃ v, p.Holds e.source v ∧ n ≤ v.depth := by
  induction n with
  | zero =>
    obtain ⟨v, hv⟩ := exists_holds_source hwf hall he
    exact ⟨v, hv, Nat.zero_le _⟩
  | succ n ih =>
    obtain ⟨v, hv, hn⟩ := ih
    obtain ⟨w, hw, hlt⟩ := hv.round hwf hall he hexp hback
    exact ⟨w, hw, Nat.succ_le_of_lt (hn.trans_lt hlt)⟩

theorem exists_deep_reached (hwf : p.WellFormed) (hall : p.Meaningful)
    (hcycle : p.expandingCycle? ≠ none) (n : Nat) : ∃ key, p.Reaches key ∧ n < key.depth := by
  rw [ne_eq, expandingCycle?_eq_none_iff] at hcycle
  push Not at hcycle
  obtain ⟨e, he, hexp, hback⟩ := hcycle
  obtain ⟨v, ⟨key, d, hkey, _, _, hv⟩, hn⟩ := exists_deep_value hwf hall he hexp hback n
  have hinner := Term.mem_inner_of_mem_args (List.of_mem_zip hv).2 v.self_mem_subterms
  exact ⟨key, hkey, hn.trans_lt (Term.depth_lt_of_mem_inner hinner)⟩

theorem exists_deep_state (hwf : p.WellFormed) (hsound : p.Sound)
    (hcycle : p.expandingCycle? ≠ none) (n : Nat) : ∃ key, p.Reaches key ∧ n < key.depth :=
  exists_deep_reached hwf (hsound.meaningful hwf) hcycle n

/-- For every program that a text gives and in which every reference resolves: if a cycle of hand-overs
expands, then the program has states of any depth. So they are infinitely many, and no table has a row
for each of them. -/
theorem expanding_cycle_unbounded {source file : String} {p : Program}
    (hp : Program.parse source file = .ok p) (hsound : p.Sound) {owner : Definition}
    {edges : List Flow.Edge} (hcycle : p.expandingCycle? = some (owner, edges)) :
    (∀ n, ∃ key, p.Reaches key ∧ n < key.depth) ∧ {key | p.Reaches key}.Infinite ∧
      ∀ t : Table, ∃ key, p.Reaches key ∧ key ∉ t.keys := by
  have hdeep := exists_deep_state (wellFormed_of_parse hp) hsound (by simp [hcycle])
  have hinfinite : {key | p.Reaches key}.Infinite := by
    intro hfinite
    obtain ⟨bound, hbound⟩ := (hfinite.image Term.depth).bddAbove
    obtain ⟨key, hkey, hlt⟩ := hdeep bound
    exact absurd (hbound (Set.mem_image_of_mem _ hkey)) (Nat.not_le_of_lt hlt)
  refine ⟨hdeep, hinfinite, fun t => ?_⟩
  by_contra hall
  push Not at hall
  exact hinfinite ((List.finite_toSet t.keys).subset hall)

def spiral : String :=
  "start = a<finish>\na<x> 0 = 0; b<c, x> next\nb<y, z> 0 = 0; a<b<y, z>> next\nc 0 = 0; finish next\n"

set_option maxRecDepth 20000 in
theorem expanding_cycle_unbounded_spiral : ∃ p, Program.parse spiral "spiral" = .ok p ∧ p.Sound ∧
    {key | p.Reaches key}.Infinite := by
  obtain ⟨p, hp, hcheck⟩ := exists_ok_of_any (x := Program.parse spiral "spiral")
    (t := fun p => p.references.all (fun ref => decide (p.Resolves ref)) &&
      p.expandingCycle?.isSome) (by decide_cbv)
  rw [Bool.and_eq_true, List.all_eq_true] at hcheck
  obtain ⟨hall, hsome⟩ := hcheck
  have hsound : p.Sound := fun ref href => of_decide_eq_true (hall ref href)
  obtain ⟨⟨owner, edges⟩, hcycle⟩ := Option.isSome_iff_exists.1 hsome
  exact ⟨p, hp, hsound, (expanding_cycle_unbounded hp hsound hcycle).2.1⟩

end Program

end GenericTuring
