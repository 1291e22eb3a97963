import GenericTuring.Proofs.Flow
import Mathlib.Data.Finset.Card
import Mathlib.Data.Finset.Dedup

/-!
Heights of states. Where no expanding hand-over lies on a cycle, every parameter has a rank that no edge
lowers and every expanding edge raises; the rank bounds how high a value of the parameter can be, and so
how high a state can be.
-/

namespace GenericTuring

namespace Flow

def feeders (edges : List Edge) (place : Place) : Finset Place :=
  ((edges.filter Edge.expanding).map Edge.target).toFinset.filter fun t =>
    (path? edges t place).isSome = true

/-- How often a value can have been wrapped when it arrives at a parameter. -/
def rank (edges : List Edge) (place : Place) : Nat := (feeders edges place).card

theorem mem_feeders {edges : List Edge} {place t : Place} :
    t ∈ feeders edges place ↔
      (∃ e ∈ edges, e.expanding = true ∧ e.target = t) ∧ Path edges t place := by
  simp [feeders, path?_isSome_iff, and_assoc]

theorem feeders_subset {edges : List Edge} {e : Edge} (he : e ∈ edges) :
    feeders edges e.source ⊆ feeders edges e.target := by
  intro t ht
  obtain ⟨hexp, hpath⟩ := mem_feeders.1 ht
  exact mem_feeders.2 ⟨hexp, hpath.tail ⟨e, he, rfl, rfl⟩⟩

theorem rank_le_of_mem {edges : List Edge} {e : Edge} (he : e ∈ edges) :
    rank edges e.source ≤ rank edges e.target :=
  Finset.card_le_card (feeders_subset he)

theorem rank_lt_of_expanding {edges : List Edge} {e : Edge} (he : e ∈ edges)
    (hexp : e.expanding = true) (hback : ¬ Path edges e.target e.source) :
    rank edges e.source < rank edges e.target := by
  refine Finset.card_lt_card ((Finset.ssubset_iff_of_subset (feeders_subset he)).2 ?_)
  refine ⟨e.target, mem_feeders.2 ⟨⟨e, he, hexp, rfl⟩, .refl⟩, fun hmem => ?_⟩
  exact hback (mem_feeders.1 hmem).2

end Flow

namespace Program

variable {p : Program}

def places (p : Program) : List Flow.Place :=
  p.definitions.flatMap fun d => d.params.map fun x => ⟨d.name, x⟩

theorem length_places (p : Program) :
    p.places.length = (p.definitions.flatMap Definition.params).length := by
  rw [places]
  induction p.definitions with
  | nil => rfl
  | cons d ds ih => simp [ih]

theorem target_mem_places {e : Flow.Edge} (h : e ∈ Flow.edges p) : e.target ∈ p.places := by
  obtain ⟨owner, _, r, _, ref, _, callee, hcallee, param, arg, hzip, source, _, rfl⟩ :=
    Flow.mem_edges.1 h
  refine List.mem_flatMap.2 ⟨callee, (mem_of_definition? hcallee).1, ?_⟩
  exact List.mem_map_of_mem (List.of_mem_zip hzip).1

theorem rank_le_length (p : Program) (place : Flow.Place) :
    Flow.rank (Flow.edges p) place ≤ (p.definitions.flatMap Definition.params).length := by
  rw [← length_places]
  have hsub : Flow.feeders (Flow.edges p) place ⊆ p.places.toFinset := by
    intro t ht
    obtain ⟨⟨e, he, _, rfl⟩, _⟩ := Flow.mem_feeders.1 ht
    exact List.mem_toFinset.2 (target_mem_places he)
  exact (Finset.card_le_card hsub).trans p.places.toFinset_card_le

def reach (p : Program) : Nat :=
  (p.definitions.flatMap fun d => d.rules.map fun r => Term.height r.target).foldl max 0

theorem le_foldl_max {n start : Nat} {ns : List Nat} (h : n ∈ ns ∨ n ≤ start) :
    n ≤ ns.foldl max start := by
  induction ns generalizing start with
  | nil => simpa using h
  | cons m ns ih =>
    refine ih ?_
    rcases h with h | h
    · rcases List.mem_cons.1 h with rfl | h
      · exact .inr (Nat.le_max_right start n)
      · exact .inl h
    · exact .inr (h.trans (Nat.le_max_left start m))

theorem height_target_le {d : Definition} {r : Rule} (hd : d ∈ p.definitions) (hr : r ∈ d.rules) :
    Term.height r.target ≤ p.reach :=
  le_foldl_max (.inl (List.mem_flatMap.2 ⟨d, hd, List.mem_map_of_mem hr⟩))

def ceiling (p : Program) (place : Flow.Place) : Nat :=
  Term.height p.start + (Flow.rank (Flow.edges p) place + 1) * p.reach

theorem ceiling_mono {e : Flow.Edge} (he : e ∈ Flow.edges p) :
    p.ceiling e.source ≤ p.ceiling e.target :=
  Nat.add_le_add_left (Nat.mul_le_mul_right _ (Nat.succ_le_succ (Flow.rank_le_of_mem he))) _

theorem ceiling_add_reach_le {e : Flow.Edge} (he : e ∈ Flow.edges p) (hexp : e.expanding = true)
    (hcycle : p.expandingCycle? = none) : p.ceiling e.source + p.reach ≤ p.ceiling e.target := by
  have hback := expandingCycle?_eq_none_iff.1 hcycle e he hexp
  have hrank := Flow.rank_lt_of_expanding he hexp hback
  calc p.ceiling e.source + p.reach
      = Term.height p.start + (Flow.rank (Flow.edges p) e.source + 1 + 1) * p.reach := by
        rw [ceiling, Nat.succ_mul (_ + 1), Nat.add_assoc]
    _ ≤ p.ceiling e.target :=
        Nat.add_le_add_left (Nat.mul_le_mul_right _ (Nat.succ_le_succ hrank)) _

theorem ceiling_add_reach_le_bounds (p : Program) (place : Flow.Place) :
    p.ceiling place + p.reach ≤ p.bounds.height := by
  have hrank := p.rank_le_length place
  calc p.ceiling place + p.reach
      = Term.height p.start + (Flow.rank (Flow.edges p) place + 2) * p.reach := by
        rw [ceiling, Nat.succ_mul (_ + 1), Nat.add_assoc]
    _ ≤ Term.height p.start +
        ((p.definitions.flatMap Definition.params).length + 2) * (p.reach + 1) :=
        Nat.add_le_add_left (Nat.mul_le_mul (Nat.add_le_add_right hrank 2) (Nat.le_succ _)) _

theorem start_add_reach_le_bounds (p : Program) : Term.height p.start + p.reach ≤ p.bounds.height := by
  have h := p.ceiling_add_reach_le_bounds ⟨"", ""⟩
  rw [ceiling] at h
  omega

structure Tame (p : Program) (key : Key) : Prop where
  value_le : ∀ sub ∈ key.subterms, ∀ d, p.definition? sub.head = some d →
    ∀ x v, (x, v) ∈ d.params.zip sub.args → v.height ≤ p.ceiling ⟨d.name, x⟩
  height_le : key.height ≤ p.bounds.height

theorem Tame.argument {key arg : Key} (h : p.Tame key) (harg : arg ∈ key.args) : p.Tame arg := by
  have hsub : ∀ sub ∈ arg.subterms, sub ∈ key.subterms :=
    fun sub => Term.mem_subterms_of_mem_args harg
  have hself := hsub arg arg.self_mem_subterms
  exact ⟨fun sub hmem => h.value_le sub (hsub sub hmem),
    (Term.height_le_of_mem_subterms hself).trans h.height_le⟩

theorem tame_start (hwf : p.WellFormed) {key : Key} (hstart : p.startKey = .ok key) :
    p.Tame key := by
  have hkey := startKey_eq_ok.1 hstart
  have hheight : key.height ≤ Term.height p.start + 0 :=
    Ref.height_instantiate?_le hkey (by simp [hwf.start_params])
  constructor
  · intro sub hsub d _ x v hv
    have hle := Term.height_le_of_mem_subterms
      (Term.mem_subterms_of_mem_args (List.of_mem_zip hv).2 v.self_mem_subterms)
    have := Term.height_le_of_mem_subterms hsub
    rw [ceiling]
    omega
  · have := p.start_add_reach_le_bounds
    omega

/-- A value that a hand-over passes on stays below the ceiling of where it goes. -/
theorem height_value_le (hwf : p.WellFormed) (hcycle : p.expandingCycle? = none)
    {owner callee : Definition} {r : Rule} {ref arg : Ref} {env : List (String × Key)} {x : String}
    {v : Key} (howner : owner ∈ p.mentioned) (hr : r ∈ owner.rules) (href : ref ∈ r.target.states)
    (hcallee : p.definition? ref.name = some callee) (harg : (x, arg) ∈ callee.params.zip ref.args)
    (henv : ∀ y bound, env.lookup y = some bound → bound.height ≤ p.ceiling ⟨owner.name, y⟩)
    (hv : arg.instantiate? env = some v) : v.height ≤ p.ceiling ⟨callee.name, x⟩ := by
  have hdef := (mem_definitions_of_mentioned howner).1
  have hedge : ∀ y ∈ arg.params,
      ⟨⟨owner.name, y⟩, ⟨callee.name, x⟩, arg.isState, ref⟩ ∈ Flow.edges p := fun y hy =>
    Flow.mem_edges.2 ⟨owner, howner, r, hr, ref, href, callee, hcallee, x, arg, harg, y, hy, rfl⟩
  have hsub : arg ∈ r.target.subterms :=
    Ref.mem_subterms_of_mem_states href (List.of_mem_zip harg).2
  cases hstate : arg.isState with
  | false =>
    -- handed on as it is
    obtain ⟨y, hy, hlookup⟩ :=
      Ref.lookup_of_instantiate? ((hwf.target_bare owner hdef r hr).subterm hsub) hv hstate
    have hup := ceiling_mono (hedge y (by simp [hy]))
    exact (henv y v hlookup).trans hup
  | true =>
    have hreach : Term.height arg ≤ p.reach :=
      (Term.height_le_of_mem_subterms hsub).trans (height_target_le hdef hr)
    have hle : p.reach ≤ p.ceiling ⟨callee.name, x⟩ := by
      rw [ceiling, Nat.succ_mul]
      omega
    -- every parameter inside is wrapped, so each lies a whole reach below
    have hwrapped : ∀ y ∈ arg.params, ∀ bound, env.lookup y = some bound →
        bound.height ≤ p.ceiling ⟨callee.name, x⟩ - p.reach := by
      intro y hy bound hbound
      have hup := ceiling_add_reach_le (hedge y hy) hstate hcycle
      have hlow := henv y bound hbound
      exact Nat.le_sub_of_add_le ((Nat.add_le_add_right hlow _).trans hup)
    have hheight := Ref.height_instantiate?_le hv hwrapped
    omega

theorem Tame.bound_le {key : Key} (h : p.Tame key) {d : Definition}
    (hmeaning : p.meaning key = .defined d) {y : String} {bound : Key}
    (hbound : (bindings d key).lookup y = some bound) : bound.height ≤ p.ceiling ⟨d.name, y⟩ :=
  h.value_le key key.self_mem_subterms d (meaning_eq_defined.1 hmeaning).2.1 y bound
    (mem_of_lookup_eq_some hbound)

theorem Tame.target (hwf : p.WellFormed) (hcycle : p.expandingCycle? = none) {key next : Key}
    {d : Definition} {r : Rule} (h : p.Tame key) (hd : d ∈ p.mentioned)
    (hmeaning : p.meaning key = .defined d) (hr : r ∈ d.rules)
    (hnext : r.target.instantiate? (bindings d key) = some next) : p.Tame next := by
  have hmem : d ∈ p.definitions := (mem_definitions_of_mentioned hd).1
  have harg : ∀ y bound, (bindings d key).lookup y = some bound → bound ∈ key.args :=
    fun y bound hb => (List.of_mem_zip (mem_of_lookup_eq_some hb)).2
  constructor
  · intro sub hsub callee hcallee x v hv
    rcases Ref.mem_subterms_instantiate? (hwf.target_bare d hmem r hr) hnext hsub with
      ⟨ref, href, hinst⟩ | ⟨y, _, bound, hb, hin⟩
    · obtain ⟨hhead, hargs⟩ := Ref.head_args_instantiate? hinst (Ref.mem_states.1 href).2
      obtain ⟨arg, hzip, hval⟩ := exists_zip_left hargs hv
      rw [hhead] at hcallee
      exact height_value_le hwf hcycle hd hr href hcallee hzip (fun _ _ => h.bound_le hmeaning) hval
    · exact (h.argument (harg y bound hb)).value_le sub hin callee hcallee x v hv
  · have hall : ∀ y ∈ r.target.params, ∀ bound, (bindings d key).lookup y = some bound →
        bound.height ≤ p.bounds.height - p.reach := by
      intro y _ bound hb
      have hbelow := h.bound_le hmeaning hb
      have htop := p.ceiling_add_reach_le_bounds ⟨d.name, y⟩
      exact Nat.le_sub_of_add_le ((Nat.add_le_add_right hbelow _).trans htop)
    have hheight := Ref.height_instantiate?_le hnext hall
    have hreach := height_target_le hmem hr
    have hstart := p.start_add_reach_le_bounds
    omega

/-- Without an expanding cycle every state of a program is tame. -/
theorem tame_of_reaches (hwf : p.WellFormed) (hcycle : p.expandingCycle? = none) {key : Key}
    (h : p.Reaches key) : p.Tame key := by
  induction h with
  | start hstart => exact tame_start hwf hstart
  | argument _ _ harg ih => exact ih.argument harg
  | target hkey hmeaning hr hnext ih =>
    exact ih.target hwf hcycle (mem_mentioned_of_reaches hwf hkey hmeaning) hmeaning hr hnext

theorem admits_of_reaches (hwf : p.WellFormed) (hcycle : p.expandingCycle? = none) {key : Key}
    (h : p.Reaches key) : p.bounds.admits key = true := by
  simp only [Bounds.admits, Bool.and_eq_true, decide_eq_true_eq, List.all_eq_true]
  exact ⟨(tame_of_reaches hwf hcycle h).height_le,
    fun a ha => (mentioned_of_reaches hwf h ha).mem_names⟩

end Program

end GenericTuring
