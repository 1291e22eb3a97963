import GenericTuring.Proofs.Refusals
import Mathlib

/-!
What the report of an expanding cycle says. The flow of parameters is searched for a shortest way back from
where an expanding hand-over leads; so the references reported hand a parameter on, one after the other,
until it is back in its place inside a larger reference. There is a report whenever there is such a cycle.
-/

namespace GenericTuring

namespace Search.Visit

variable {κ ι : Type}

@[simp] theorem labels_follow (v : Visit κ ι) (label : ι) (node : κ) :
    (v.follow label node).labels = v.labels ++ [label] := by
  simp [labels, follow]

@[simp] theorem length_labels (v : Visit κ ι) : v.labels.length = v.depth := by
  simp [labels, depth]

end Search.Visit

namespace Flow

variable {edges route : List Edge} {start goal x y : Place}

inductive Route (edges : List Edge) : Place → List Edge → Place → Prop
  | nil (x : Place) : Route edges x [] x
  | cons {x y : Place} {e : Edge} {route : List Edge} (he : e ∈ edges) (hsource : e.source = x)
      (h : Route edges e.target route y) : Route edges x (e :: route) y

theorem Route.concat (h : Route edges x route y) {e : Edge} (he : e ∈ edges) (hsource : e.source = y) :
    Route edges x (route ++ [e]) e.target := by
  induction h with
  | nil x => exact .cons he hsource (.nil _)
  | cons hfirst hx _ ih => exact .cons hfirst hx (ih hsource)

theorem path_iff_exists_route : Path edges x y ↔ ∃ route, Route edges x route y := by
  constructor
  · intro h
    induction h with
    | refl => exact ⟨[], .nil x⟩
    | tail _ hlead ih =>
      obtain ⟨route, hroute⟩ := ih
      obtain ⟨e, he, hsource, rfl⟩ := hlead
      exact ⟨route ++ [e], hroute.concat he hsource⟩
  · intro h
    obtain ⟨route, hroute⟩ := h
    induction hroute with
    | nil => exact .refl
    | @cons _ _ e _ he hsource _ ih => exact .head ⟨e, he, hsource, rfl⟩ ih

/-- A route is as long as the search has to go from its beginning to its end. -/
theorem Route.reachedIn (h : Route edges x route y) {n : Nat}
    (hx : Search.ReachedIn (leaving edges) [start] n x) :
    Search.ReachedIn (leaving edges) [start] (n + route.length) y := by
  induction h generalizing n with
  | nil => exact hx
  | @cons x y e route he hsource _ ih =>
    have hnext := ih (hx.step (step_iff_leads.2 ⟨e, he, hsource, rfl⟩))
    rwa [Nat.add_assoc, Nat.add_comm 1] at hnext

theorem route_of_trailed {v : Search.Visit Place Edge}
    (h : Search.Trailed (leaving edges) [start] v) : Route edges start v.labels v.node := by
  induction h with
  | root hroot =>
    obtain rfl := List.mem_singleton.1 hroot
    exact .nil _
  | @follow v label node _ _ hedge ih =>
    obtain ⟨e, he, heq⟩ := List.mem_map.1 (List.mem_of_find?_eq_some hedge)
    obtain ⟨rfl, rfl⟩ := Prod.mk.inj heq
    obtain ⟨he, hsource⟩ := List.mem_filter.1 he
    rw [Search.Visit.labels_follow]
    exact ih.concat he (of_decide_eq_true hsource)

/-- The way that is found is one, and none is shorter. -/
theorem route_of_path? (h : path? edges start goal = some route) :
    Route edges start route goal ∧
      ∀ other, Route edges start other goal → route.length ≤ other.length := by
  obtain ⟨v, hstop, rfl⟩ := Option.map_eq_some_iff.1 h
  obtain ⟨_, hhalt⟩ := Search.reached_and_halt_of_stop hstop
  obtain rfl : v.node = goal := of_decide_eq_true hhalt
  refine ⟨route_of_trailed (Search.trailed_of_stop hstop), fun other hother => ?_⟩
  have hreached := hother.reachedIn (.root (List.mem_singleton_self start))
  rw [Nat.zero_add] at hreached
  rw [Search.Visit.length_labels]
  exact Search.depth_le_of_stop hstop (fun _ hnode => (reached_iff_path.1 hnode).mem_targets)
    hreached hhalt

theorem path?_eq_none_iff : path? edges start goal = none ↔ ∀ route, ¬ Route edges start route goal := by
  rw [← Option.not_isSome_iff_eq_none, path?_isSome_iff, path_iff_exists_route, not_exists]

/-- A cycle that is found is an expanding edge and the way found from its end to its beginning. -/
theorem path?_of_cycle? {e : Edge} (h : cycle? edges = some (e, route)) :
    e ∈ edges ∧ e.expanding = true ∧ path? edges e.target e.source = some route := by
  obtain ⟨first, hfirst, hback⟩ := List.exists_of_findSome?_eq_some h
  obtain ⟨back, hpath, heq⟩ := Option.map_eq_some_iff.1 hback
  obtain ⟨rfl, rfl⟩ := Prod.mk.inj heq
  obtain ⟨he, hexpanding⟩ := List.mem_filter.1 hfirst
  exact ⟨he, hexpanding, hpath⟩

end Flow

namespace Ref

variable {ref : Ref} {x : String}

def Mentions (ref : Ref) (x : String) : Prop :=
  ∃ loc, (.atom ⟨.param x, loc⟩ : Ref) ∈ Term.subterms ref

def Encloses (ref : Ref) (x : String) : Prop :=
  ∃ loc, (.atom ⟨.param x, loc⟩ : Ref) ∈ Term.inner ref

theorem Bare.mentions_iff (h : ref.Bare) : ref.Mentions x ↔ x ∈ ref.params := by
  rw [mem_params, Term.atoms_eq_map_head]
  constructor
  · intro hx
    obtain ⟨loc, hsub⟩ := hx
    exact ⟨⟨.param x, loc⟩, List.mem_map.2 ⟨_, hsub, rfl⟩, rfl⟩
  · intro hx
    obtain ⟨a, ha, hval⟩ := hx
    obtain ⟨sub, hsub, rfl⟩ := List.mem_map.1 ha
    have hargs : sub.args = [] := h sub hsub (by simp [isState, hval, Label.isState])
    refine ⟨(Term.head sub).loc, ?_⟩
    rw [← hval]
    exact Term.eq_atom_of_args_eq_nil hargs ▸ hsub

/-- A parameter stands inside a reference exactly if the reference is more than the parameter. -/
theorem Bare.encloses_iff (h : ref.Bare) (hx : ref.Mentions x) : ref.Encloses x ↔ ref.isState = true := by
  constructor
  · intro hinner
    obtain ⟨loc, hsub⟩ := hinner
    by_contra hstate
    have hargs : Term.args ref = [] := h ref (Term.self_mem_subterms _) (by simpa using hstate)
    rw [Term.inner_eq_flatMap, hargs] at hsub
    simp at hsub
  · intro hstate
    obtain ⟨loc, hsub⟩ := hx
    cases List.mem_cons.1 hsub with
    | inl heq =>
      rw [← heq] at hstate
      simp [isState, Term.head, Label.isState] at hstate
    | inr hinner => exact ⟨loc, hinner⟩

end Ref

namespace Program

variable {p : Program} {x y : Flow.Place} {ref arg : Ref}

/-- A rule of the definition of `x` holds, at some depth, the reference `ref` to the definition of `y`; in
it stands `arg` for the parameter `y`, and this mentions the parameter `x`. -/
structure HandsOn (p : Program) (x : Flow.Place) (ref arg : Ref) (y : Flow.Place) : Prop where
  held : ∃ owner ∈ p.definitions, owner.name = x.state ∧ x.param ∈ owner.params ∧
    ∃ r ∈ owner.rules, ref ∈ r.target.states
  given : ∃ callee ∈ p.definitions, callee.name = y.state ∧ ref.name = y.state ∧
    ∃ i : Nat, callee.params[i]? = some y.param ∧ ref.args[i]? = some arg
  mentions : arg.Mentions x.param

inductive Relayed (p : Program) : Flow.Place → List Ref → Flow.Place → Prop
  | nil (x : Flow.Place) : Relayed p x [] x
  | cons {x y z : Flow.Place} {ref arg : Ref} {refs : List Ref} (h : p.HandsOn x ref arg y)
      (hrest : Relayed p y refs z) : Relayed p x (ref :: refs) z

/-- The definition `owner` is mentioned, and its parameter `x` is handed on inside a larger reference to
`y`, and from there back to itself. -/
structure IsCycle (p : Program) (owner : Definition) (x y : Flow.Place) (first : Ref)
    (back : List Ref) : Prop where
  owner_mem : owner ∈ p.mentioned
  owner_name : owner.name = x.state
  owner_param : x.param ∈ owner.params
  wraps : ∃ arg, p.HandsOn x first arg y ∧ arg.Encloses x.param
  returns : p.Relayed y back x

theorem HandsOn.mentioned (hwf : p.WellFormed) (h : p.HandsOn x ref arg y) (hx : p.Mentioned x.state) :
    p.Mentioned y.state := by
  obtain ⟨⟨owner, howner, hname, _, r, hr, href⟩, ⟨_, _, _, hstate, _⟩, _⟩ := h
  rw [← hname] at hx
  exact hstate ▸ .rule hx (hwf.definition?_of_mem howner) hr href

theorem HandsOn.bare (hwf : p.WellFormed) (h : p.HandsOn x ref arg y) : arg.Bare := by
  obtain ⟨⟨owner, howner, _, _, r, hr, href⟩, ⟨_, _, _, _, i, _, harg⟩, _⟩ := h
  have hsub : arg ∈ r.target.subterms :=
    Ref.mem_subterms_of_mem_states href (List.mem_of_getElem? harg)
  exact (hwf.target_bare owner howner r hr).subterm hsub

theorem HandsOn.encloses_iff (hwf : p.WellFormed) (h : p.HandsOn x ref arg y) :
    arg.Encloses x.param ↔ arg.isState = true :=
  (h.bare hwf).encloses_iff h.mentions

/-- An argument is given to a parameter if they stand at the same position of their lists. -/
theorem mem_zip_iff {params : List String} {args : List Ref} {param : String} :
    (param, arg) ∈ params.zip args ↔ ∃ i : Nat, params[i]? = some param ∧ args[i]? = some arg := by
  simp only [List.mem_iff_getElem?, List.getElem?_zip_eq_some]

/-- The edges of a program are the hand-overs of the definitions mentioned. An edge expands if the argument
is more than a parameter. -/
theorem WellFormed.mem_edges_iff (hwf : p.WellFormed) {e : Flow.Edge} :
    e ∈ Flow.edges p ↔ p.Mentioned e.source.state ∧
      ∃ arg, p.HandsOn e.source e.ref arg e.target ∧ e.expanding = arg.isState := by
  constructor
  · intro he
    obtain ⟨owner, howner, r, hr, ref, href, callee, hcallee, param, arg, harg, x, hx, rfl⟩ :=
      Flow.mem_edges.1 he
    obtain ⟨hd, _, hname⟩ := mem_definitions_of_mentioned howner
    obtain ⟨hcallee, hstate⟩ := mem_of_definition? hcallee
    have hsub : arg ∈ r.target.subterms :=
      Ref.mem_subterms_of_mem_states href (List.of_mem_zip harg).2
    have hscope : x ∈ owner.params :=
      hwf.target_scoped owner hd r hr x (Ref.params_subset_of_subterm hsub hx)
    have hbare : Ref.Bare arg := (hwf.target_bare owner hd r hr).subterm hsub
    exact ⟨hname, arg, ⟨⟨owner, hd, rfl, hscope, r, hr, href⟩,
      ⟨callee, hcallee, rfl, hstate.symm, mem_zip_iff.1 harg⟩, hbare.mentions_iff.2 hx⟩, rfl⟩
  · intro h
    obtain ⟨⟨state, x⟩, ⟨state', param⟩, expanding, ref⟩ := e
    obtain ⟨hname, arg, hhands, rfl⟩ := h
    have hx : x ∈ arg.params := (hhands.bare hwf).mentions_iff.1 hhands.mentions
    obtain ⟨⟨owner, howner, rfl, _, r, hr, href⟩, ⟨callee, hcallee, rfl, hstate, hat⟩, _⟩ := hhands
    have hd : owner ∈ p.mentioned := hwf.mem_mentioned_iff.2 ⟨howner, hname⟩
    have hfound : p.definition? ref.name = some callee := hstate ▸ hwf.definition?_of_mem hcallee
    exact Flow.mem_edges.2 ⟨owner, hd, r, hr, ref, href, callee, hfound, param, arg,
      mem_zip_iff.2 hat, x, hx, rfl⟩

theorem WellFormed.relayed_of_route (hwf : p.WellFormed) {route : List Flow.Edge}
    (h : Flow.Route (Flow.edges p) x route y) : p.Relayed x (route.map Flow.Edge.ref) y := by
  induction h with
  | nil x => exact .nil x
  | cons he hsource _ ih =>
    obtain ⟨_, arg, hhands, _⟩ := hwf.mem_edges_iff.1 he
    exact .cons (hsource ▸ hhands) ih

/-- What is handed on from a definition that is mentioned goes along edges. -/
theorem WellFormed.exists_route (hwf : p.WellFormed) {refs : List Ref} (h : p.Relayed x refs y)
    (hx : p.Mentioned x.state) :
    ∃ route, Flow.Route (Flow.edges p) x route y ∧ route.length = refs.length := by
  induction h with
  | nil x => exact ⟨[], .nil x, rfl⟩
  | @cons x y z ref arg refs hhands _ ih =>
    obtain ⟨route, hroute, hlength⟩ := ih (hhands.mentioned hwf hx)
    have he : ⟨x, y, arg.isState, ref⟩ ∈ Flow.edges p := hwf.mem_edges_iff.2 ⟨hx, arg, hhands, rfl⟩
    exact ⟨_, .cons he rfl hroute, by simp [hlength]⟩

theorem of_expandingCycle? {owner : Definition} {edges : List Flow.Edge}
    (h : p.expandingCycle? = some (owner, edges)) :
    ∃ e back, edges = e :: back ∧ p.definition? e.source.state = some owner ∧
      Flow.cycle? (Flow.edges p) = some (e, back) := by
  simp only [expandingCycle?, Option.bind_eq_bind, Option.bind_eq_some_iff] at h
  obtain ⟨⟨e, back⟩, hcycle, found, howner, heq⟩ := h
  obtain ⟨rfl, rfl⟩ := Prod.mk.inj (Option.some.inj heq)
  exact ⟨e, back, rfl, howner, hcycle⟩

/-- A cycle is reported exactly if it is found. -/
theorem WellFormed.expand_eq_cycle_iff (hwf : p.WellFormed) {owner : Definition}
    {edges : List Flow.Edge} :
    p.expand = .error (.cycle owner edges) ↔ p.expandingCycle? = some (owner, edges) := by
  refine ⟨fun h => ?_, expand_of_cycle⟩
  cases hcycle : p.expandingCycle? with
  | some cycle =>
    have hsame := (expand_of_cycle hcycle).symm.trans h
    simp only [Except.error.injEq, ExpansionError.cycle.injEq] at hsame
    rw [← hsame.1, ← hsame.2]
  | none =>
    obtain ⟨start, hstart⟩ := hwf.exists_startKey
    cases expand_cases hwf hcycle hstart with
    | inr hdone =>
      obtain ⟨_, t, ht, _⟩ := hdone
      simp [ht] at h
    | inl hrefused =>
      obtain ⟨v, _, hrefusal⟩ := hrefused
      have hsame := Except.error.inj (hrefusal.symm.trans h)
      obtain ⟨_, _, _, hv⟩ | ⟨_, _, _, _, _, hv⟩ := p.refusal_cases v
      · simp [hv] at hsame
      · simp [hv] at hsame

/-- The cycle found is one, and no other way back is shorter. -/
theorem WellFormed.isCycle_of_expandingCycle? (hwf : p.WellFormed) {owner : Definition}
    {edges : List Flow.Edge} (h : p.expandingCycle? = some (owner, edges)) :
    ∃ x y first back, edges.map Flow.Edge.ref = first :: back ∧ p.IsCycle owner x y first back ∧
      ∀ other, p.Relayed y other x → back.length ≤ other.length := by
  obtain ⟨e, back, rfl, howner, hcycle⟩ := of_expandingCycle? h
  obtain ⟨he, hexpanding, hpath⟩ := Flow.path?_of_cycle? hcycle
  obtain ⟨hroute, hshortest⟩ := Flow.route_of_path? hpath
  obtain ⟨hmentioned, arg, hhands, hstate⟩ := hwf.mem_edges_iff.1 he
  obtain ⟨hd, hname⟩ := mem_of_definition? howner
  -- The edge only knows the name of its owner, and names are not repeated.
  have hparam : e.source.param ∈ owner.params := by
    obtain ⟨found, hfound, hsame, hparam, _⟩ := hhands.held
    obtain rfl : found = owner := List.inj_on_of_nodup_map hwf.names_nodup hfound hd
      (hsame.trans hname.symm)
    exact hparam
  have hwraps : arg.Encloses e.source.param := (hhands.encloses_iff hwf).2 (hstate ▸ hexpanding)
  refine ⟨e.source, e.target, e.ref, back.map Flow.Edge.ref, rfl, ?_, fun other hother => ?_⟩
  · exact {
      owner_mem := mem_mentioned.2 ⟨_, hmentioned, howner⟩
      owner_name := hname
      owner_param := hparam
      wraps := ⟨arg, hhands, hwraps⟩
      returns := hwf.relayed_of_route hroute }
  · obtain ⟨route, hother, hlength⟩ := hwf.exists_route hother (hhands.mentioned hwf hmentioned)
    rw [List.length_map, ← hlength]
    exact hshortest route hother

/-- Where there is a cycle, one is found. -/
theorem IsCycle.exists_expandingCycle? (hwf : p.WellFormed) {owner : Definition} {first : Ref}
    {back : List Ref} (h : p.IsCycle owner x y first back) :
    ∃ owner edges, p.expandingCycle? = some (owner, edges) := by
  have hx : p.Mentioned x.state := h.owner_name ▸ (mem_definitions_of_mentioned h.owner_mem).2.2
  obtain ⟨arg, hhands, hwraps⟩ := h.wraps
  have hstate : arg.isState = true := (hhands.encloses_iff hwf).1 hwraps
  have he : ⟨x, y, true, first⟩ ∈ Flow.edges p :=
    hwf.mem_edges_iff.2 ⟨hx, arg, hhands, hstate.symm⟩
  obtain ⟨route, hroute, _⟩ := hwf.exists_route h.returns (hhands.mentioned hwf hx)
  cases hcycle : p.expandingCycle? with
  | some cycle => exact ⟨cycle.1, cycle.2, rfl⟩
  | none =>
    exact absurd (Flow.path_iff_exists_route.2 ⟨route, hroute⟩)
      (expandingCycle?_eq_none_iff.1 hcycle _ he rfl)

/-- How a cycle is reported: the definition it starts in with its parameters, then the references, at the
place of the first. -/
theorem diagnostic_cycle {source file : String} (hp : parse source file = .ok p) {owner : Definition}
    {edges : List Flow.Edge} {first : Ref} {back : List Ref}
    (hrefs : edges.map Flow.Edge.ref = first :: back) (hfirst : p.HandsOn x first arg y) :
    ((ExpansionError.cycle owner edges).diagnostic file).cause =
        .unresolved (.instantiationCycle ((owner.name ++ "<" ++ ", ".intercalate owner.params ++ ">") ::
          (first :: back).map Ref.text)) [] ∧
      ((ExpansionError.cycle owner edges).diagnostic file).span = .ofLoc file first.loc := by
  obtain ⟨e, others, rfl, rfl, rfl⟩ := List.map_eq_cons_iff.1 hrefs
  obtain ⟨d, hd, _, _, r, hr, href⟩ := hfirst.held
  have hline : 0 < e.ref.loc.line := (line_pos_of_parse hp).2 d hd r hr _ (Ref.mem_states.1 href).1
  exact ⟨by simp [ExpansionError.diagnostic, Diagnostic.of, Function.comp_def],
    Span.orUnknown_ofLoc hline file⟩

/-- For every program that a text gives: if it is refused for a cycle, then the report names a definition
with its parameters and references that hand one of them on, the first inside a larger reference, until it
is back; and no other way back is shorter. It is refused so whenever there is such a cycle among the
definitions mentioned. For all edges there are, the way found between two parameters is a shortest one, and
none is found exactly if there is none. -/
theorem cycle_report_exact {source file : String} (hp : parse source file = .ok p) :
    (∀ owner edges, p.expand = .error (.cycle owner edges) →
      ∃ x y first back, edges.map Flow.Edge.ref = first :: back ∧ p.IsCycle owner x y first back ∧
        (∀ other, p.Relayed y other x → back.length ≤ other.length) ∧
        ((ExpansionError.cycle owner edges).diagnostic file).cause =
          .unresolved (.instantiationCycle ((owner.name ++ "<" ++ ", ".intercalate owner.params ++ ">") ::
            (first :: back).map Ref.text)) [] ∧
        ((ExpansionError.cycle owner edges).diagnostic file).span = .ofLoc file first.loc) ∧
    ((∃ owner x y first back, p.IsCycle owner x y first back) →
      ∃ owner edges, p.expand = .error (.cycle owner edges)) ∧
    ∀ edges start goal,
      (∀ route, Flow.path? edges start goal = some route → Flow.Route edges start route goal ∧
        ∀ other, Flow.Route edges start other goal → route.length ≤ other.length) ∧
      (Flow.path? edges start goal = none ↔ ∀ route, ¬ Flow.Route edges start route goal) := by
  have hwf : p.WellFormed := wellFormed_of_parse hp
  refine ⟨fun owner edges h => ?_, fun h => ?_, fun edges start goal => ?_⟩
  · obtain ⟨x, y, first, back, hrefs, hcycle, hshortest⟩ :=
      hwf.isCycle_of_expandingCycle? (hwf.expand_eq_cycle_iff.1 h)
    obtain ⟨arg, hhands, _⟩ := hcycle.wraps
    exact ⟨x, y, first, back, hrefs, hcycle, hshortest, diagnostic_cycle hp hrefs hhands⟩
  · obtain ⟨owner, x, y, first, back, hcycle⟩ := h
    obtain ⟨owner, edges, hfound⟩ := hcycle.exists_expandingCycle? hwf
    exact ⟨owner, edges, hwf.expand_eq_cycle_iff.2 hfound⟩
  · exact ⟨fun route => Flow.route_of_path?, Flow.path?_eq_none_iff⟩

def whirl : String :=
  -- A parameter that is handed on unchanged to its own place, wrapped to another, and from there back
  -- along a long way and a short one.
  "start = a<finish>\na<x> 0 = 0; b<a<x>> next\nb<y> 0 = 0; c<y> next\nb<y> 1 = 1; a<y> next\n" ++
    "c<z> 0 = 0; a<z> next\n"

set_option maxRecDepth 20000 in
theorem cycle_report_exact_whirl : ∃ p owner edges, parse whirl "whirl" = .ok p ∧
    p.expand = .error (.cycle owner edges) ∧
    ((ExpansionError.cycle owner edges).diagnostic "whirl").cause =
      .unresolved (.instantiationCycle ["a<x>", "b<a<x>>", "a<y>"]) [] ∧
    ((ExpansionError.cycle owner edges).diagnostic "whirl").span = ⟨"whirl", 2, 13⟩ ∧
    (∃ x y first back, edges.map Flow.Edge.ref = first :: back ∧ p.IsCycle owner x y first back ∧
      ∀ other, p.Relayed y other x → back.length ≤ other.length) ∧
    ∃ route, Flow.path? (Flow.edges p) ⟨"b", "y"⟩ ⟨"a", "x"⟩ = some route ∧
      Flow.Route (Flow.edges p) ⟨"b", "y"⟩ route ⟨"a", "x"⟩ := by
  obtain ⟨p, hp, htold⟩ := exists_ok_of_any (x := parse whirl "whirl")
    (t := fun p => decide ((p.expandingCycle?.map fun c =>
        (((ExpansionError.cycle c.1 c.2).diagnostic "whirl").cause,
          ((ExpansionError.cycle c.1 c.2).diagnostic "whirl").span)) =
      some (.unresolved (.instantiationCycle ["a<x>", "b<a<x>>", "a<y>"]) [], ⟨"whirl", 2, 13⟩)) &&
        (Flow.path? (Flow.edges p) ⟨"b", "y"⟩ ⟨"a", "x"⟩).isSome) (by decide_cbv)
  obtain ⟨hreport, hback⟩ := Bool.and_eq_true_iff.1 htold
  obtain ⟨cycle, hcycle, hshown⟩ := Option.map_eq_some_iff.1 (of_decide_eq_true hreport)
  obtain ⟨hcause, hspan⟩ := Prod.mk.inj hshown
  obtain ⟨route, hroute⟩ := Option.isSome_iff_exists.1 hback
  obtain ⟨hall, _, hpaths⟩ := cycle_report_exact hp
  have hexpand := expand_of_cycle hcycle
  obtain ⟨x, y, first, back, hrefs, hgenuine, hshortest, _⟩ := hall _ _ hexpand
  exact ⟨p, cycle.1, cycle.2, hp, hexpand, hcause, hspan,
    ⟨x, y, first, back, hrefs, hgenuine, hshortest⟩, route, hroute, ((hpaths _ _ _).1 route hroute).1⟩

end Program

end GenericTuring
