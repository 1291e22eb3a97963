import GenericTuring.Proofs.Reaching

/-!
Which definitions a program mentions, and where the flow of parameters runs in a circle. Both are found
by search; here they are said without one.
-/

namespace GenericTuring

namespace Program

inductive Mentioned (p : Program) : String → Prop
  | start {ref : Ref} (href : ref ∈ p.start.states) : Mentioned p ref.name
  | rule {name : String} {d : Definition} {r : Rule} {ref : Ref} (hname : Mentioned p name)
      (hd : p.definition? name = some d) (hr : r ∈ d.rules) (href : ref ∈ r.target.states) :
      Mentioned p ref.name

variable {p : Program}

theorem mem_mentions {name next : String} :
    next ∈ p.mentions name ↔ ∃ d, p.definition? name = some d ∧
      ∃ r ∈ d.rules, ∃ ref ∈ r.target.states, ref.name = next := by
  cases hd : p.definition? name with
  | none => simp [mentions, hd]
  | some d =>
    simp only [mentions, hd, List.mem_map, List.mem_flatMap, Option.some.injEq, exists_eq_left']
    constructor
    · rintro ⟨ref, ⟨r, hr, href⟩, hnext⟩
      exact ⟨r, hr, ref, href, hnext⟩
    · rintro ⟨r, hr, ref, href, hnext⟩
      exact ⟨ref, ⟨r, hr, href⟩, hnext⟩

theorem mentioned_iff_reached {name : String} :
    p.Mentioned name ↔ Search.Reached (fun name => (p.mentions name).map fun n => ((), n))
      (p.start.states.map Ref.name) name := by
  constructor
  · intro h
    induction h with
    | start href => exact .root (List.mem_map_of_mem href)
    | @rule name d r ref _ hd hr href ih =>
      refine ih.step ⟨(), List.mem_map_of_mem ?_⟩
      exact mem_mentions.2 ⟨d, hd, r, hr, ref, href, rfl⟩
  · rintro ⟨root, hroot, hpath⟩
    induction hpath with
    | refl =>
      obtain ⟨ref, href, rfl⟩ := List.mem_map.1 hroot
      exact .start href
    | tail _ hstep ih =>
      obtain ⟨_, hnext⟩ := hstep
      obtain ⟨n, hn, heq⟩ := List.mem_map.1 hnext
      obtain ⟨d, hd, r, hr, ref, href, rfl⟩ := mem_mentions.1 hn
      obtain ⟨_, rfl⟩ := Prod.mk.inj heq
      exact .rule ih hd hr href

theorem Mentioned.mem_names {name : String} (h : p.Mentioned name) : name ∈ p.names := by
  cases h with
  | start href => exact List.mem_map_of_mem (List.mem_append_left _ href)
  | rule _ hd hr href =>
    refine List.mem_map_of_mem (List.mem_append_right _ ?_)
    exact List.mem_flatMap.2
      ⟨_, (mem_of_definition? hd).1, List.mem_flatMap.2 ⟨_, hr, href⟩⟩

theorem mem_mentioned {d : Definition} :
    d ∈ p.mentioned ↔ ∃ name, p.Mentioned name ∧ p.definition? name = some d := by
  simp only [mentioned, List.mem_filterMap]
  constructor
  · rintro ⟨v, hv, hd⟩
    exact ⟨v.node, mentioned_iff_reached.2 (Search.reached_of_mem_visits hv), hd⟩
  · rintro ⟨name, hname, hd⟩
    have hstop : ∀ roots : List String, (Search.search
        (fun name => (p.mentions name).map fun n => ((), n)) (fun _ => false)
        (fun name => decide (name ∈ p.names)) ⟨p.names, by simp⟩ roots).stop = none := by
      intro roots
      refine Option.eq_none_iff_forall_ne_some.2 fun v hv => ?_
      simpa using (Search.reached_and_halt_of_stop hv).2
    have hvisit := Search.mem_visits_of_reached (hstop _) (fun node hnode => .inl ?_)
      (mentioned_iff_reached.1 hname)
    · obtain ⟨v, hv, rfl⟩ := List.mem_map.1 hvisit
      exact ⟨v, hv, hd⟩
    · simpa using (mentioned_iff_reached.2 hnode).mem_names

/-- The names in a state are mentioned. -/
theorem mentioned_of_reaches (hwf : p.WellFormed) {key : Key} (h : p.Reaches key) {a : String}
    (ha : a ∈ key.atoms) : p.Mentioned a := by
  induction h generalizing a with
  | start hstart =>
    cases Ref.mem_atoms_instantiate? (startKey_eq_ok.1 hstart) ha with
    | inl hstate =>
      obtain ⟨ref, href, rfl⟩ := hstate
      exact .start href
    | inr hparam =>
      obtain ⟨x, hx, _⟩ := hparam
      simp [hwf.start_params] at hx
  | argument _ _ harg ih =>
    exact ih (Term.mem_atoms_of_mem_subterms
      (Term.mem_subterms_of_mem_args harg (Term.self_mem_subterms _)) ha)
  | @target key next d r _ hmeaning hr hnext ih =>
    cases Ref.mem_atoms_instantiate? hnext ha with
    | inl hstate =>
      obtain ⟨ref, href, rfl⟩ := hstate
      exact .rule (ih key.head_mem_atoms) (meaning_eq_defined.1 hmeaning).2.1 hr href
    | inr hparam =>
      obtain ⟨x, _, bound, hbound, hab⟩ := hparam
      have harg : bound ∈ key.args := (List.of_mem_zip (mem_of_lookup_eq_some hbound)).2
      exact ih (Term.mem_atoms_of_mem_subterms
        (Term.mem_subterms_of_mem_args harg bound.self_mem_subterms) hab)

theorem mem_mentioned_of_reaches (hwf : p.WellFormed) {key : Key} (h : p.Reaches key)
    {d : Definition} (hmeaning : p.meaning key = .defined d) : d ∈ p.mentioned :=
  mem_mentioned.2 ⟨key.head, mentioned_of_reaches hwf h key.head_mem_atoms,
    (meaning_eq_defined.1 hmeaning).2.1⟩

theorem mem_definitions_of_mentioned {d : Definition} (h : d ∈ p.mentioned) :
    d ∈ p.definitions ∧ p.definition? d.name = some d ∧ p.Mentioned d.name := by
  obtain ⟨name, hname, hd⟩ := mem_mentioned.1 h
  obtain ⟨hmem, rfl⟩ := mem_of_definition? hd
  exact ⟨hmem, hd, hname⟩

theorem WellFormed.mem_mentioned_iff (hwf : p.WellFormed) {d : Definition} :
    d ∈ p.mentioned ↔ d ∈ p.definitions ∧ p.Mentioned d.name := by
  constructor
  · intro h
    obtain ⟨hd, _, hname⟩ := mem_definitions_of_mentioned h
    exact ⟨hd, hname⟩
  · intro h
    exact mem_mentioned.2 ⟨d.name, h.2, hwf.definition?_of_mem h.1⟩

end Program

namespace Flow

def Leads (edges : List Edge) (a b : Place) : Prop := ∃ e ∈ edges, e.source = a ∧ e.target = b

abbrev Path (edges : List Edge) : Place → Place → Prop := Relation.ReflTransGen (Leads edges)

abbrev leaving (edges : List Edge) (place : Place) : List (Edge × Place) :=
  (edges.filter fun e => e.source = place).map fun e => (e, e.target)

theorem step_iff_leads {edges : List Edge} {a b : Place} :
    Search.Step (leaving edges) a b ↔ Leads edges a b := by
  constructor
  · rintro ⟨label, hlabel⟩
    obtain ⟨e, he, heq⟩ := List.mem_map.1 hlabel
    obtain ⟨he, hsource⟩ := List.mem_filter.1 he
    exact ⟨e, he, by simpa using hsource, (Prod.mk.inj heq).2⟩
  · rintro ⟨e, he, rfl, rfl⟩
    exact ⟨e, List.mem_map_of_mem (List.mem_filter.2 ⟨he, by simp⟩)⟩

theorem reached_iff_path {edges : List Edge} {a b : Place} :
    Search.Reached (leaving edges) [a] b ↔ Path edges a b := by
  have hstep : Search.Step (leaving edges) = Leads edges := by
    funext a b
    exact propext step_iff_leads
  simp [Search.Reached, hstep]

/-- Whatever edges lead to is where it started or the end of an edge. -/
theorem Path.mem_targets {edges : List Edge} {a b : Place} (h : Path edges a b) :
    decide (b ∈ edges.map Edge.target) = true ∨ b ∈ [a] := by
  rcases h.cases_tail with rfl | ⟨_, _, e, he, _, rfl⟩
  · exact .inr (by simp)
  · exact .inl (by simpa using ⟨e, he, rfl⟩)

theorem path?_isSome_iff {edges : List Edge} {start goal : Place} :
    (path? edges start goal).isSome = true ↔ Path edges start goal := by
  rw [path?, Option.isSome_map, ← reached_iff_path]
  constructor
  · intro h
    obtain ⟨v, hv⟩ := Option.isSome_iff_exists.1 h
    obtain ⟨hreached, hgoal⟩ := Search.reached_and_halt_of_stop hv
    exact of_decide_eq_true hgoal ▸ hreached
  · intro h
    by_contra hstop
    rw [Option.not_isSome_iff_eq_none] at hstop
    have hvisit := Search.mem_visits_of_reached hstop
      (fun _ hnode => (reached_iff_path.1 hnode).mem_targets) h
    obtain ⟨v, hv, rfl⟩ := List.mem_map.1 hvisit
    simpa using Search.halt_eq_false_of_mem_visits hv

theorem cycle?_eq_none_iff {edges : List Edge} :
    cycle? edges = none ↔
      ∀ e ∈ edges, e.expanding = true → ¬ Path edges e.target e.source := by
  simp only [cycle?, List.findSome?_eq_none_iff, List.mem_filter, Option.map_eq_none_iff, and_imp]
  refine forall_congr' fun e => forall_congr' fun _ => forall_congr' fun _ => ?_
  rw [← path?_isSome_iff, Option.not_isSome_iff_eq_none]

/-- A hand-over, read off the program: a rule of the mentioned definition `owner` refers to `callee`
with an argument for `target.param` that mentions `source.param`. -/
theorem mem_edges {p : Program} {e : Edge} :
    e ∈ edges p ↔ ∃ owner ∈ p.mentioned, ∃ r ∈ owner.rules, ∃ ref ∈ r.target.states, ∃ callee,
      p.definition? ref.name = some callee ∧ ∃ param arg, (param, arg) ∈ callee.params.zip ref.args ∧
        ∃ source ∈ Ref.params arg,
          e = ⟨⟨owner.name, source⟩, ⟨callee.name, param⟩, Ref.isState arg, ref⟩ := by
  simp only [edges, edgesOf, List.mem_flatMap]
  refine exists_congr fun owner => and_congr_right fun _ => exists_congr fun r =>
    and_congr_right fun _ => exists_congr fun ref => and_congr_right fun _ => ?_
  cases hcallee : p.definition? ref.name with
  | none => simp
  | some callee => simp [edgesAt, eq_comm]

end Flow

namespace Program

/-- What is handed over is a parameter of the definition that hands it over. -/
theorem WellFormed.edge_owned {p : Program} (hwf : p.WellFormed) {e : Flow.Edge}
    (he : e ∈ Flow.edges p) :
    ∃ owner ∈ p.mentioned, owner.name = e.source.state ∧ e.source.param ∈ owner.params := by
  obtain ⟨owner, howner, r, hr, ref, href, callee, _, param, arg, harg, source, hsource, rfl⟩ :=
    Flow.mem_edges.1 he
  have hmem := (mem_definitions_of_mentioned howner).1
  have hsub : arg ∈ r.target.subterms :=
    Ref.mem_subterms_of_mem_states href (List.of_mem_zip harg).2
  exact ⟨owner, howner, rfl,
    hwf.target_scoped owner hmem r hr source (Ref.params_subset_of_subterm hsub hsource)⟩

theorem expandingCycle?_eq_none_iff {p : Program} :
    p.expandingCycle? = none ↔
      ∀ e ∈ Flow.edges p, e.expanding = true → ¬ Flow.Path (Flow.edges p) e.target e.source := by
  rw [← Flow.cycle?_eq_none_iff]
  cases hcycle : Flow.cycle? (Flow.edges p) with
  | none => simp [expandingCycle?, hcycle]
  | some cycle =>
    obtain ⟨first, back⟩ := cycle
    have hfirst : first ∈ Flow.edges p := by
      obtain ⟨e, he, hback⟩ := List.exists_of_findSome?_eq_some hcycle
      obtain ⟨_, _, heq⟩ := Option.map_eq_some_iff.1 hback
      exact (Prod.mk.inj heq).1 ▸ (List.mem_filter.1 he).1
    obtain ⟨owner, howner, _, _, _, _, _, _, _, _, _, _, _, rfl⟩ := Flow.mem_edges.1 hfirst
    have hdef := (mem_definitions_of_mentioned howner).2.1
    simp [expandingCycle?, hcycle, hdef]

end Program

end GenericTuring
