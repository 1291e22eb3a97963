import GenericTuring.Proofs.Assembly

/-!
Which lists of statements are programs. Assembly accepts a list exactly if it is valid: one start
directive, heads and parameters in order, as many parameters for a head on each of its lines, no symbol
read twice, and targets in which every name is known.
-/

namespace GenericTuring

namespace RawRef

def names (ref : RawRef) : Key := Term.map Located.val ref

end RawRef

structure Key.Known (params heads : List String) (ref : Key) : Prop where
  -- The name that a reference begins with is in order: a parameter is given no arguments, and where
  -- there are parameters a name without arguments is one of them, a head or the accepting state.
  applied : ref.args ≠ [] → ref.head ∉ params
  bare : ref.args = [] → params ≠ [] → ref.head ∈ params ∨ ref.head ∈ heads ∨ ref.head = finishName

theorem Key.known_iff {params heads : List String} {ref : Key} :
    Key.Known params heads ref ↔ (ref.args ≠ [] → ref.head ∉ params) ∧
      (ref.args = [] → params ≠ [] →
        ref.head ∈ params ∨ ref.head ∈ heads ∨ ref.head = finishName) :=
  ⟨fun h => ⟨h.applied, h.bare⟩, fun h => ⟨h.1, h.2⟩⟩

def RuleLine.TargetAllowed (line : RuleLine) (heads : List String) : Prop :=
  ∀ ref ∈ line.target.names.subterms, Key.Known line.params heads ref

theorem RuleLine.TargetAllowed.mono {line : RuleLine} {heads others : List String}
    (h : line.TargetAllowed heads) (hsub : ∀ name ∈ heads, name ∈ others) :
    line.TargetAllowed others := by
  intro ref href
  refine ⟨(h ref href).applied, fun hargs hparams => ?_⟩
  exact ((h ref href).bare hargs hparams).imp_right (Or.imp_left (hsub ref.head))

namespace RawRef

variable {params others defined : List String} {owner : String}

theorem exists_resolve_atom_iff (hlen : params.length = others.length) (a : Located String) :
    ((∃ r, resolve (params.zip others) defined owner true (.atom a) = .ok r) ↔ a.val ∉ params) ∧
    ((∃ r, resolve (params.zip others) defined owner false (.atom a) = .ok r) ↔
      (params ≠ [] → a.val ∈ params ∨ a.val ∈ defined ∨ a.val = finishName)) := by
  have hempty : (params.zip others).isEmpty = true ↔ params = [] := by
    rw [List.isEmpty_iff, ← List.length_eq_zero_iff, ← List.length_eq_zero_iff, List.length_zip]
    omega
  by_cases hmem : a.val ∈ params
  · obtain ⟨other, hother⟩ := exists_lookup_zip hlen hmem
    simp [resolve, hother, hmem]
  · have hnone : (params.zip others).lookup a.val = none := lookup_zip_eq_none hmem
    constructor
    · simp [resolve, hnone, hmem]
    · simp only [resolve, hnone, Bool.false_or, Bool.or_eq_true, hempty, decide_eq_true_eq, hmem,
        false_or]
      by_cases hnil : params = []
      · simp [hnil]
      · by_cases hknown : a.val ∈ defined ∨ a.val = finishName
        · simp [hnil, hknown]
        · simp [hnil, hknown]

theorem exists_resolve_app_iff {scope : List (String × String)} (applied : Bool) (f x : RawRef) :
    (∃ r, resolve scope defined owner applied (.app f x) = .ok r) ↔
      (∃ r, resolve scope defined owner true f = .ok r) ∧
        ∃ r, resolve scope defined owner false x = .ok r := by
  constructor
  · intro h
    obtain ⟨r, hr⟩ := h
    obtain ⟨head, arg, hhead, harg, _⟩ := resolve_app_eq_ok.1 hr
    exact ⟨⟨head, hhead⟩, arg, harg⟩
  · intro h
    obtain ⟨⟨head, hhead⟩, arg, harg⟩ := h
    exact ⟨.app head arg, resolve_app_eq_ok.2 ⟨head, arg, hhead, harg, rfl⟩⟩

/-- A reference resolves if it and the references in it begin with known names. One that is given
arguments resolves if its own name is no parameter and the references in it begin with known names. -/
theorem exists_resolve_iff (owner : String) (hlen : params.length = others.length) (ref : RawRef) :
    ((∃ r, resolve (params.zip others) defined owner true ref = .ok r) ↔
      (names ref).head ∉ params ∧ ∀ sub ∈ (names ref).inner, Key.Known params defined sub) ∧
    ((∃ r, resolve (params.zip others) defined owner false ref = .ok r) ↔
      ∀ sub ∈ (names ref).subterms, Key.Known params defined sub) := by
  induction ref with
  | atom a =>
    have hnames : names (.atom a) = .atom a.val := rfl
    obtain ⟨happlied, hbare⟩ := exists_resolve_atom_iff hlen a
    rw [happlied, hbare, hnames]
    constructor
    · simp [Term.head, Term.inner]
    · simp only [Term.subterms, Term.inner, List.mem_singleton, forall_eq]
      exact ⟨fun h => ⟨by simp [Term.args], fun _ => h⟩, fun h => h.bare rfl⟩
  | app f x ihf ihx =>
    have hnames : names (.app f x) = .app (names f) (names x) := rfl
    rw [exists_resolve_app_iff, exists_resolve_app_iff, ihf.1, ihx.2, hnames]
    have hinner : (∀ sub ∈ (Term.app (names f) (names x)).inner, Key.Known params defined sub) ↔
        (∀ sub ∈ (names f).inner, Key.Known params defined sub) ∧
          ∀ sub ∈ (names x).subterms, Key.Known params defined sub := by
      simp only [Term.inner, List.mem_append, or_imp, forall_and]
      rfl
    have hself : Key.Known params defined (.app (names f) (names x)) ↔ (names f).head ∉ params :=
      ⟨fun h => h.applied (by simp [Term.args]), fun h => ⟨fun _ => h, by simp [Term.args]⟩⟩
    constructor
    · rw [hinner, and_assoc]
      rfl
    · simp only [Term.subterms, List.mem_cons, forall_eq_or_imp, hself, hinner, and_assoc]

end RawRef

namespace Entry

variable {e : Entry} {defined : List String}

theorem exists_rule_iff {line : RuleLine} (hlen : line.params.length = e.first.params.length) :
    (∃ r, e.rule defined line = .ok r) ↔ line.TargetAllowed defined := by
  refine Iff.trans ?_ (RawRef.exists_resolve_iff e.name hlen line.target).2
  constructor
  · intro h
    obtain ⟨r, hr⟩ := h
    obtain ⟨target, htarget, _⟩ := bind_eq_ok.1 hr
    exact ⟨target, htarget⟩
  · intro h
    obtain ⟨target, htarget⟩ := h
    exact ⟨_, bind_eq_ok.2 ⟨target, htarget, rfl⟩⟩

/-- The lines of an entry become rules if each of them does and no symbol is read twice. -/
theorem exists_rules_iff {done : List Rule} {lines : List RuleLine} :
    (∃ list, e.rules defined done lines = .ok list) ↔
      (∀ line ∈ lines, ∃ r, e.rule defined line = .ok r) ∧
        (lines.map fun line => line.read.val).Nodup ∧
        ∀ line ∈ lines, ∀ r ∈ done, r.read ≠ line.read.val := by
  induction lines generalizing done with
  | nil => simp [rules]
  | cons line lines ih =>
    cases hfind : done.find? fun r => r.read = line.read.val with
    | some r =>
      have hread : r.read = line.read.val := by simpa using List.find?_some hfind
      have hmem : r ∈ done := List.mem_of_find?_eq_some hfind
      simp only [rules, hfind, reduceCtorEq, exists_false, false_iff]
      exact fun h => h.2.2 line List.mem_cons_self r hmem hread
    | none =>
      have hfresh : ∀ r ∈ done, r.read ≠ line.read.val := by
        simpa using List.find?_eq_none.1 hfind
      simp only [rules, hfind]
      constructor
      · intro h
        obtain ⟨list, hlist⟩ := h
        obtain ⟨r, hr, hrest⟩ := bind_eq_ok.1 hlist
        have hread : r.read = line.read.val := (renders_of_rule hr).read_eq
        obtain ⟨hall, hnodup, hdone⟩ := ih.1 ⟨list, hrest⟩
        refine ⟨?_, ?_, ?_⟩
        · intro l hl
          cases List.mem_cons.1 hl with
          | inl heq => exact ⟨r, heq ▸ hr⟩
          | inr hl => exact hall l hl
        · refine List.nodup_cons.2 ⟨fun hmem => ?_, hnodup⟩
          obtain ⟨l, hl, heq⟩ := List.mem_map.1 hmem
          exact hdone l hl r (by simp) (hread.trans heq.symm)
        · intro l hl
          cases List.mem_cons.1 hl with
          | inl heq => exact heq ▸ hfresh
          | inr hl => exact fun r hr => hdone l hl r (List.mem_append_left _ hr)
      · intro h
        obtain ⟨hall, hnodup, hdone⟩ := h
        obtain ⟨r, hr⟩ := hall line List.mem_cons_self
        have hread : r.read = line.read.val := (renders_of_rule hr).read_eq
        obtain ⟨hnot, hrest⟩ := List.nodup_cons.1 hnodup
        have hlater : ∀ l ∈ lines, ∀ old ∈ done ++ [r], old.read ≠ l.read.val := by
          intro l hl old hold
          cases List.mem_append.1 hold with
          | inl hold => exact hdone l (List.mem_cons_of_mem _ hl) old hold
          | inr hnew =>
            rw [List.mem_singleton.1 hnew, hread]
            exact fun heq => hnot (List.mem_map.2 ⟨l, hl, heq.symm⟩)
        obtain ⟨list, hlist⟩ :=
          ih.2 ⟨fun l hl => hall l (List.mem_cons_of_mem _ hl), hrest, hlater⟩
        exact ⟨list, bind_eq_ok.2 ⟨r, hr, hlist⟩⟩

theorem exists_definition_iff :
    (∃ d, e.definition defined = .ok d) ↔
      (∀ line ∈ e.lines, ∃ r, e.rule defined line = .ok r) ∧
        (e.lines.map fun line => line.read.val).Nodup := by
  have hrules := @exists_rules_iff e defined [] e.lines
  simp only [List.not_mem_nil, false_imp_iff, implies_true, and_true] at hrules
  rw [← hrules]
  constructor
  · intro h
    obtain ⟨d, hd⟩ := h
    obtain ⟨list, hlist, _⟩ := bind_eq_ok.1 hd
    exact ⟨list, hlist⟩
  · intro h
    obtain ⟨list, hlist⟩ := h
    exact ⟨_, bind_eq_ok.2 ⟨list, hlist, rfl⟩⟩

end Entry

open Statement

namespace Outline

structure Declares (statements : List Statement) : Prop where
  starts_le : (starts statements).length ≤ 1
  allowed : ∀ line ∈ ruleLines statements, line.HeadAllowed
  arity_eq : ∀ line ∈ ruleLines statements, ∀ other ∈ ruleLines statements,
    line.head = other.head → line.params.length = other.params.length

theorem Declares.of_append {ss rest : List Statement} (h : Declares (ss ++ rest)) : Declares ss := by
  have hlines : ∀ line ∈ ruleLines ss, line ∈ ruleLines (ss ++ rest) := by
    intro line hline
    rw [ruleLines, List.filterMap_append]
    exact List.mem_append_left _ hline
  refine ⟨?_, fun line hline => h.allowed line (hlines line hline), ?_⟩
  · have hle := h.starts_le
    rw [starts, List.filterMap_append, List.length_append] at hle
    exact Nat.le_trans (Nat.le_add_right _ _) hle
  · intro line hline other hother
    exact h.arity_eq line (hlines line hline) other (hlines other hother)

theorem exists_add {ss : List Statement} {o : Outline} {s : Statement} (h : Records ss o)
    (hdeclares : Declares (ss ++ [s])) : ∃ o', o.add s = .ok o' := by
  cases s with
  | start target loc =>
    have hle := hdeclares.starts_le
    rw [starts_append_start] at hle
    have hnil : starts ss = [] := List.length_eq_zero_iff.1 (by simpa using hle)
    have hnone : o.start = none := by rw [h.start_eq, hnil]; rfl
    exact ⟨_, by simp only [add, hnone]; rfl⟩
  | rule line =>
    have hline : line ∈ ruleLines (ss ++ [.rule line]) := by simp [ruleLines_append_rule]
    have hcheck : checkHead line = .ok () := checkHead_eq_ok.2 (hdeclares.allowed line hline)
    cases hentry : o.entry? line.head with
    | none => exact ⟨_, by simp only [add, hcheck, hentry]; rfl⟩
    | some e =>
      obtain ⟨he, hname⟩ := mem_and_name_of_entry? hentry
      have hfirst : e.first ∈ linesOf ss e.name := h.lines_eq e he ▸ List.mem_cons_self
      have hmem : e.first ∈ ruleLines (ss ++ [.rule line]) := by
        rw [ruleLines_append_rule]
        exact List.mem_append_left _ (mem_linesOf.1 hfirst).1
      have harity := hdeclares.arity_eq e.first hmem line hline hname
      exact ⟨_, by simp only [add, hcheck, hentry, harity, if_true]; rfl⟩

theorem exists_ofStatements {statements : List Statement} (h : Declares statements) :
    ∃ o, ofStatements statements = .ok o := by
  -- the outline records what has been read, and adding the next statement goes by what it records
  suffices hrun : ∀ rest done (o : Outline), Records done o → Declares (done ++ rest) →
      ∃ o', rest.foldlM add o = .ok o' from hrun statements [] empty records_empty h
  intro rest
  induction rest with
  | nil => exact fun done o _ _ => ⟨o, rfl⟩
  | cons s rest ih =>
    intro done o hrecords hdeclares
    rw [List.append_cons] at hdeclares
    obtain ⟨next, hnext⟩ := exists_add hrecords hdeclares.of_append
    obtain ⟨o', ho'⟩ := ih (done ++ [s]) next (records_add hrecords hnext) hdeclares
    exact ⟨o', bind_eq_ok.2 ⟨next, hnext, ho'⟩⟩

theorem Records.declares {statements : List Statement} {o : Outline} (h : Records statements o) :
    Declares statements := by
  refine ⟨h.starts_le, h.allowed, fun line hline other hother heq => ?_⟩
  obtain ⟨e, he, hname⟩ := List.mem_map.1 (h.head_mem line hline)
  have hlines : ∀ l ∈ ruleLines statements, l.head = e.name →
      l.params.length = e.first.params.length := by
    intro l hl hhead
    refine h.arity_eq e he l ?_
    rw [h.lines_eq e he]
    exact mem_linesOf.2 ⟨hl, hhead⟩
  rw [hlines line hline hname.symm, hlines other hother (heq.symm.trans hname.symm)]

end Outline

namespace Statement

def heads (statements : List Statement) : List String := (ruleLines statements).map RuleLine.head

structure Valid (statements : List Statement) : Prop where
  start : (starts statements).length = 1
  allowed : ∀ line ∈ ruleLines statements, line.HeadAllowed
  arity_eq : ∀ line ∈ ruleLines statements, ∀ other ∈ ruleLines statements,
    line.head = other.head → line.params.length = other.params.length
  reads_nodup : ((ruleLines statements).map fun line => (line.head, line.read.val)).Nodup
  target_allowed : ∀ line ∈ ruleLines statements, line.TargetAllowed (heads statements)

/-- No head reads a symbol twice exactly if no two lines agree in head and symbol. -/
theorem reads_nodup_iff {statements : List Statement} :
    ((ruleLines statements).map fun line => (line.head, line.read.val)).Nodup ↔
      ∀ name, ((linesOf statements name).map fun line => line.read.val).Nodup := by
  simp only [List.Nodup, List.pairwise_map, linesOf, List.pairwise_filter, decide_eq_true_eq, ne_eq,
    Prod.mk.injEq, not_and]
  simp only [List.pairwise_iff_getElem]
  constructor
  · intro h name i j hi hj hlt hfirst hsecond
    exact h i j hi hj hlt (hfirst.trans hsecond.symm)
  · intro h i j hi hj hlt heq
    exact h _ i j hi hj hlt heq rfl

end Statement

open Outline in
theorem Outline.Records.mem_heads_iff {statements : List Statement} {o : Outline}
    (h : Records statements o) {name : String} :
    name ∈ o.entries.map Entry.name ↔ name ∈ heads statements := by
  constructor
  · intro hname
    obtain ⟨e, he, rfl⟩ := List.mem_map.1 hname
    have hfirst : e.first ∈ linesOf statements e.name := h.lines_eq e he ▸ List.mem_cons_self
    exact List.mem_map.2 ⟨e.first, mem_linesOf.1 hfirst⟩
  · intro hname
    obtain ⟨line, hline, rfl⟩ := List.mem_map.1 hname
    exact h.head_mem line hline

/-- The entries become definitions exactly if no symbol is read twice and the targets are in order. -/
theorem Outline.Records.exists_definitions_iff {statements : List Statement} {o : Outline}
    (h : o.Records statements) :
    (∀ e ∈ o.entries, ∃ d, e.definition (o.entries.map Entry.name) = .ok d) ↔
      ((ruleLines statements).map fun line => (line.head, line.read.val)).Nodup ∧
        ∀ line ∈ ruleLines statements, line.TargetAllowed (heads statements) := by
  have hdefinition : ∀ e ∈ o.entries, (∃ d, e.definition (o.entries.map Entry.name) = .ok d) ↔
      (∀ line ∈ linesOf statements e.name, line.TargetAllowed (heads statements)) ∧
        ((linesOf statements e.name).map fun line => line.read.val).Nodup := by
    intro e he
    rw [Entry.exists_definition_iff, h.lines_eq e he]
    refine and_congr_left fun _ => forall₂_congr fun line hline => ?_
    rw [Entry.exists_rule_iff (h.arity_eq e he line (h.lines_eq e he ▸ hline))]
    exact ⟨fun hline => hline.mono fun name => h.mem_heads_iff.1,
      fun hline => hline.mono fun name => h.mem_heads_iff.2⟩
  rw [reads_nodup_iff]
  constructor
  · intro hall
    constructor
    · intro name
      by_cases hname : name ∈ o.entries.map Entry.name
      · obtain ⟨e, he, rfl⟩ := List.mem_map.1 hname
        exact ((hdefinition e he).1 (hall e he)).2
      · have hnone : linesOf statements name = [] := by
          refine List.eq_nil_iff_forall_not_mem.2 fun line hline => hname ?_
          obtain ⟨hline, hhead⟩ := mem_linesOf.1 hline
          exact hhead ▸ h.head_mem line hline
        simp [hnone]
    · intro line hline
      obtain ⟨e, he, hname⟩ := List.mem_map.1 (h.head_mem line hline)
      exact ((hdefinition e he).1 (hall e he)).1 line (mem_linesOf.2 ⟨hline, hname.symm⟩)
  · intro hall e he
    refine (hdefinition e he).2 ⟨fun line hline => ?_, hall.1 e.name⟩
    exact hall.2 line (mem_linesOf.1 hline).1

namespace Program

/-- Assembly accepts the valid lists of statements and no others. -/
theorem exists_assemble_iff {source file : String} {statements : List Statement} :
    (∃ p, assemble source file statements = .ok p) ↔ Valid statements := by
  constructor
  · intro h
    obtain ⟨p, hp⟩ := h
    obtain ⟨o, target, loc, definitions, ho, hstart, hdefinitions, _⟩ := assemble_eq_ok.1 hp
    have hrecords : o.Records statements := Outline.records_ofStatements ho
    have hdeclares := hrecords.declares
    obtain ⟨hreads, htargets⟩ := hrecords.exists_definitions_iff.1 fun e he => by
      obtain ⟨d, _, hd⟩ := exists_of_mem_left hdefinitions he
      exact ⟨d, hd⟩
    exact ⟨by rw [hrecords.starts_eq hstart]; rfl, hdeclares.allowed, hdeclares.arity_eq, hreads,
      htargets⟩
  · intro h
    obtain ⟨o, ho⟩ := Outline.exists_ofStatements ⟨Nat.le_of_eq h.start, h.allowed, h.arity_eq⟩
    have hrecords : o.Records statements := Outline.records_ofStatements ho
    obtain ⟨⟨target, loc⟩, hstarts⟩ := List.length_eq_one_iff.1 h.start
    have hstart : o.start = some (target, loc) := by rw [hrecords.start_eq, hstarts]; rfl
    obtain ⟨definitions, hdefinitions⟩ :=
      exists_forall₂ (hrecords.exists_definitions_iff.2 ⟨h.reads_nodup, h.target_allowed⟩)
    exact ⟨_, assemble_eq_ok.2 ⟨o, target, loc, definitions, ho, hstart, hdefinitions, rfl⟩⟩

end Program

end GenericTuring
