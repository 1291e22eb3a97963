import GenericTuring.Program.Assembly
import GenericTuring.Proofs.Lists
import GenericTuring.Proofs.Terms
import Mathlib.Data.List.Nodup

/-!
What assembly keeps. An outline records, for every head, the lines with that head in source order; the
definition made of them has one rule for each line, whose target differs from that of the line only in
that parameters are marked and renamed.
-/

namespace GenericTuring

namespace Statement

def line? : Statement → Option RuleLine
  | start .. => none
  | rule line => some line

def start? : Statement → Option (RawRef × Loc)
  | start target loc => some (target, loc)
  | rule _ => none

def ruleLines (statements : List Statement) : List RuleLine := statements.filterMap line?

theorem mem_ruleLines {statements : List Statement} {line : RuleLine} :
    line ∈ ruleLines statements ↔ .rule line ∈ statements := by
  simp only [ruleLines, List.mem_filterMap]
  constructor
  · intro h
    obtain ⟨s, hs, hline⟩ := h
    cases s with
    | start target loc => simp [line?] at hline
    | rule found => exact Option.some.inj hline ▸ hs
  · intro h
    exact ⟨.rule line, h, rfl⟩

def linesOf (statements : List Statement) (name : String) : List RuleLine :=
  (ruleLines statements).filter fun line => line.head = name

theorem mem_linesOf {statements : List Statement} {name : String} {line : RuleLine} :
    line ∈ linesOf statements name ↔ line ∈ ruleLines statements ∧ line.head = name := by
  simp [linesOf]

def starts (statements : List Statement) : List (RawRef × Loc) := statements.filterMap start?

theorem start_mem_of_mem_starts {statements : List Statement} {directive : RawRef × Loc}
    (h : directive ∈ starts statements) : .start directive.1 directive.2 ∈ statements := by
  obtain ⟨s, hs, hstart⟩ := List.mem_filterMap.1 h
  cases s with
  | rule line => simp [start?] at hstart
  | start target loc => exact Option.some.inj hstart ▸ hs

end Statement

structure RuleLine.HeadAllowed (line : RuleLine) : Prop where
  head_ne : line.head ≠ finishName
  finish_notMem : finishName ∉ line.params
  nodup : line.params.Nodup

namespace Outline

open Statement

theorem checkParams_eq_ok {loc : Loc} {seen params : List String} :
    checkParams loc seen params = .ok () ↔
      finishName ∉ params ∧ params.Nodup ∧ ∀ x ∈ params, x ∉ seen := by
  induction params generalizing seen with
  | nil => simp [checkParams]
  | cons param rest ih =>
    by_cases hfinish : param = finishName
    · simp [checkParams, hfinish]
    · by_cases hseen : param ∈ seen
      · simp [checkParams, hfinish, hseen]
      · simp only [checkParams, hfinish, hseen, if_false, ih, List.mem_append, List.mem_cons,
          List.nodup_cons, List.not_mem_nil, or_false, not_or, forall_eq_or_imp, not_false_eq_true,
          true_and]
        constructor
        · rintro ⟨hnot, hnodup, hrest⟩
          exact ⟨⟨Ne.symm hfinish, hnot⟩, ⟨fun hmem => (hrest param hmem).2 rfl, hnodup⟩,
            fun x hx => (hrest x hx).1⟩
        · rintro ⟨⟨_, hnot⟩, ⟨hparam, hnodup⟩, hrest⟩
          refine ⟨hnot, hnodup, fun x hx => ⟨hrest x hx, ?_⟩⟩
          rintro rfl
          exact hparam hx

theorem checkHead_eq_ok {line : RuleLine} : checkHead line = .ok () ↔ line.HeadAllowed := by
  by_cases hhead : line.head = finishName
  · simp only [checkHead, hhead, if_true, reduceCtorEq, false_iff]
    exact fun h => h.head_ne hhead
  · simp only [checkHead, hhead, if_false, checkParams_eq_ok]
    constructor
    · rintro ⟨hfinish, hnodup, _⟩
      exact ⟨hhead, hfinish, hnodup⟩
    · rintro ⟨_, hfinish, hnodup⟩
      exact ⟨hfinish, hnodup, by simp⟩

theorem insert_of_notMem {line : RuleLine} {es : List Entry} (h : line.head ∉ es.map Entry.name) :
    insert line es = es ++ [⟨line, []⟩] := by
  induction es with
  | nil => rfl
  | cons e es ih =>
    obtain ⟨hne, hrest⟩ : e.name ≠ line.head ∧ line.head ∉ es.map Entry.name := by
      simpa [eq_comm] using h
    simp [insert, hne, ih hrest]

theorem map_name_insert_of_mem {line : RuleLine} {es : List Entry}
    (h : line.head ∈ es.map Entry.name) : (insert line es).map Entry.name = es.map Entry.name := by
  induction es with
  | nil => simp at h
  | cons e es ih =>
    by_cases hname : e.name = line.head
    · rw [insert, if_pos hname]
      rfl
    · have hrest : line.head ∈ es.map Entry.name := by
        simpa [Ne.symm hname] using h
      simp [insert, hname, ih hrest]

/-- An entry after an insertion is an old one, or has got the line as its last. -/
theorem mem_insert_of_mem {line : RuleLine} {es : List Entry} {e : Entry}
    (hnodup : (es.map Entry.name).Nodup) (h : e ∈ insert line es)
    (hhead : line.head ∈ es.map Entry.name) :
    (e ∈ es ∧ e.name ≠ line.head) ∨
      ∃ old ∈ es, old.name = line.head ∧ e = { old with others := old.others ++ [line] } := by
  induction es with
  | nil => simp at hhead
  | cons a es ih =>
    obtain ⟨hfirst, hrest⟩ := List.nodup_cons.1 hnodup
    by_cases hname : a.name = line.head
    · simp only [insert, hname, if_true, List.mem_cons] at h
      rcases h with rfl | h
      · exact .inr ⟨a, List.mem_cons_self, hname, rfl⟩
      · refine .inl ⟨List.mem_cons_of_mem a h, fun heq => hfirst ?_⟩
        rw [hname, ← heq]
        exact List.mem_map_of_mem h
    · simp only [insert, hname, if_false, List.mem_cons] at h
      rcases h with rfl | h
      · exact .inl ⟨List.mem_cons_self, hname⟩
      · have hmem : line.head ∈ es.map Entry.name := by simpa [Ne.symm hname] using hhead
        rcases ih hrest h hmem with ⟨he, hne⟩ | ⟨old, hold, heq⟩
        · exact .inl ⟨List.mem_cons_of_mem a he, hne⟩
        · exact .inr ⟨old, List.mem_cons_of_mem a hold, heq⟩

structure Records (statements : List Statement) (o : Outline) : Prop where
  start_eq : o.start = (starts statements).head?
  starts_le : (starts statements).length ≤ 1
  nodup : (o.entries.map Entry.name).Nodup
  lines_eq : ∀ e ∈ o.entries, e.lines = linesOf statements e.name
  head_mem : ∀ line ∈ ruleLines statements, line.head ∈ o.entries.map Entry.name
  allowed : ∀ line ∈ ruleLines statements, line.HeadAllowed
  arity_eq : ∀ e ∈ o.entries, ∀ line ∈ e.lines, line.params.length = e.first.params.length

theorem records_empty : Records [] empty := by
  refine ⟨rfl, by simp [starts], by simp [empty], by simp [empty], by simp [ruleLines],
    by simp [ruleLines], by simp [empty]⟩

theorem ruleLines_append_rule (ss : List Statement) (line : RuleLine) :
    ruleLines (ss ++ [.rule line]) = ruleLines ss ++ [line] := by
  simp [ruleLines, line?]

theorem linesOf_append_rule (ss : List Statement) (line : RuleLine) (name : String) :
    linesOf (ss ++ [.rule line]) name = linesOf ss name ++ if line.head = name then [line] else [] := by
  by_cases h : line.head = name <;> simp [linesOf, ruleLines_append_rule, List.filter_append, h]

theorem starts_append_rule (ss : List Statement) (line : RuleLine) :
    starts (ss ++ [.rule line]) = starts ss := by
  simp [starts, start?]

theorem ruleLines_append_start (ss : List Statement) (target : RawRef) (loc : Loc) :
    ruleLines (ss ++ [.start target loc]) = ruleLines ss := by
  simp [ruleLines, line?]

theorem linesOf_append_start (ss : List Statement) (target : RawRef) (loc : Loc) (name : String) :
    linesOf (ss ++ [.start target loc]) name = linesOf ss name := by
  simp [linesOf, ruleLines_append_start]

theorem starts_append_start (ss : List Statement) (target : RawRef) (loc : Loc) :
    starts (ss ++ [.start target loc]) = starts ss ++ [(target, loc)] := by
  simp [starts, start?]

theorem entry?_eq_none {o : Outline} {name : String} :
    o.entry? name = none ↔ name ∉ o.entries.map Entry.name := by
  simp only [ entry?, List.find?_eq_none, List.mem_map, decide_eq_true_eq, not_exists, not_and]

theorem mem_and_name_of_entry? {o : Outline} {name : String} {e : Entry}
    (h : o.entry? name = some e) : e ∈ o.entries ∧ e.name = name :=
  ⟨List.mem_of_find?_eq_some h, by simpa using List.find?_some h⟩

/-- A new head opens an entry of its own. -/
theorem Records.insert_new {ss : List Statement} {o : Outline} {line : RuleLine} (h : Records ss o)
    (hallowed : line.HeadAllowed) (hnew : line.head ∉ o.entries.map Entry.name) :
    Records (ss ++ [.rule line]) { o with entries := insert line o.entries } := by
  refine ⟨?_, ?_, ?_, ?_, ?_, ?_, ?_⟩
  · rw [starts_append_rule]; exact h.start_eq
  · rw [starts_append_rule]; exact h.starts_le
  · rw [insert_of_notMem hnew, List.map_append]
    refine List.nodup_append.2 ⟨h.nodup, by simp, ?_⟩
    rintro a ha b hb rfl
    obtain rfl : a = line.head := by simpa [Entry.name] using hb
    exact hnew ha
  · rw [insert_of_notMem hnew]
    intro e he
    rw [linesOf_append_rule]
    rcases List.mem_append.1 he with he | he
    · have hne : line.head ≠ e.name := fun heq => hnew (heq ▸ List.mem_map_of_mem he)
      simp [h.lines_eq e he, hne]
    · obtain rfl := List.mem_singleton.1 he
      have hnone : linesOf ss line.head = [] := by
        refine List.filter_eq_nil_iff.2 fun l hl => ?_
        simp only [decide_eq_true_eq]
        exact fun heq => hnew (heq ▸ h.head_mem l hl)
      simp [Entry.lines, Entry.name, hnone]
  · rw [insert_of_notMem hnew, ruleLines_append_rule]
    intro l hl
    rcases List.mem_append.1 hl with hl | hl
    · simp only [List.map_append]
      exact List.mem_append_left _ (h.head_mem l hl)
    · simp [List.mem_singleton.1 hl, Entry.name]
  · rw [ruleLines_append_rule]
    intro l hl
    rcases List.mem_append.1 hl with hl | hl
    · exact h.allowed l hl
    · rwa [List.mem_singleton.1 hl]
  · rw [insert_of_notMem hnew]
    intro e he
    rcases List.mem_append.1 he with he | he
    · exact h.arity_eq e he
    · simp [List.mem_singleton.1 he, Entry.lines]

/-- A line with a known head goes to the end of the entry of that head. -/
theorem Records.insert_known {ss : List Statement} {o : Outline} {line : RuleLine} {first : Entry}
    (h : Records ss o) (hallowed : line.HeadAllowed) (hfirst : o.entry? line.head = some first)
    (harity : first.first.params.length = line.params.length) :
    Records (ss ++ [.rule line]) { o with entries := insert line o.entries } := by
  obtain ⟨hmem, hname⟩ := mem_and_name_of_entry? hfirst
  have hhead : line.head ∈ o.entries.map Entry.name := hname ▸ List.mem_map_of_mem hmem
  have hunique : ∀ old ∈ o.entries, old.name = line.head → old = first := fun old hold hold' =>
    List.inj_on_of_nodup_map h.nodup hold hmem (hold'.trans hname.symm)
  refine ⟨?_, ?_, ?_, ?_, ?_, ?_, ?_⟩
  · rw [starts_append_rule]; exact h.start_eq
  · rw [starts_append_rule]; exact h.starts_le
  · rw [map_name_insert_of_mem hhead]; exact h.nodup
  · intro e he
    rw [linesOf_append_rule]
    rcases mem_insert_of_mem h.nodup he hhead with ⟨he, hne⟩ | ⟨old, hold, hold', rfl⟩
    · simp [h.lines_eq e he, Ne.symm hne]
    · have hlines := h.lines_eq old hold
      rw [hold'] at hlines
      rw [show Entry.name { old with others := old.others ++ [line] } = line.head from hold',
        if_pos rfl, ← hlines]
      rfl
  · rw [ruleLines_append_rule, map_name_insert_of_mem hhead]
    intro l hl
    rcases List.mem_append.1 hl with hl | hl
    · exact h.head_mem l hl
    · rwa [List.mem_singleton.1 hl]
  · rw [ruleLines_append_rule]
    intro l hl
    rcases List.mem_append.1 hl with hl | hl
    · exact h.allowed l hl
    · rwa [List.mem_singleton.1 hl]
  · intro e he
    rcases mem_insert_of_mem h.nodup he hhead with ⟨he, _⟩ | ⟨old, hold, hold', rfl⟩
    · exact h.arity_eq e he
    · intro l hl
      obtain rfl := hunique old hold hold'
      rw [Entry.lines, List.mem_cons, List.mem_append, List.mem_singleton] at hl
      rcases hl with rfl | hl | rfl
      · rfl
      · exact h.arity_eq old hold l (List.mem_cons_of_mem _ hl)
      · exact harity.symm

theorem records_add {ss : List Statement} {o o' : Outline} {s : Statement} (h : Records ss o)
    (hadd : o.add s = .ok o') : Records (ss ++ [s]) o' := by
  cases s with
  | start target loc =>
    cases hstart : o.start with
    | some first => simp [add, hstart] at hadd
    | none =>
      obtain rfl : { o with start := some (target, loc) } = o' := by simpa [add, hstart] using hadd
      have hnil : starts ss = [] := List.head?_eq_none_iff.1 (h.start_eq ▸ hstart)
      refine ⟨?_, ?_, h.nodup, ?_, ?_, ?_, h.arity_eq⟩
      · rw [starts_append_start, hnil]; rfl
      · rw [starts_append_start, hnil]; simp
      · intro e he
        rw [linesOf_append_start]
        exact h.lines_eq e he
      · rw [ruleLines_append_start]; exact h.head_mem
      · rw [ruleLines_append_start]; exact h.allowed
  | rule line =>
    obtain ⟨_, hcheck, hadd⟩ := bind_eq_ok.1 hadd
    have hallowed : line.HeadAllowed := checkHead_eq_ok.1 hcheck
    cases hentry : o.entry? line.head with
    | none =>
      obtain rfl : { o with entries := insert line o.entries } = o' := by
        simpa [hentry] using hadd
      exact h.insert_new hallowed (entry?_eq_none.1 hentry)
    | some first =>
      by_cases harity : first.first.params.length = line.params.length
      · obtain rfl : { o with entries := insert line o.entries } = o' := by
          simpa [hentry, harity] using hadd
        exact h.insert_known hallowed hentry harity
      · simp [hentry, harity] at hadd

/-- What holds before any statement is read, and is kept as each is added, holds of the outline of all
statements. -/
theorem ofStatements_induction {P : List Statement → Outline → Prop} (hempty : P [] empty)
    (hadd : ∀ {ss o s o'}, P ss o → o.add s = .ok o' → P (ss ++ [s]) o')
    {statements : List Statement} {o : Outline} (h : ofStatements statements = .ok o) :
    P statements o := by
  suffices hrun : ∀ rest done (start : Outline), P done start →
      rest.foldlM add start = .ok o → P (done ++ rest) o from
    hrun statements [] empty hempty h
  intro rest
  induction rest with
  | nil =>
    intro done start hstart hfold
    obtain rfl : start = o := by simpa [pure, Except.pure] using hfold
    simpa using hstart
  | cons s rest ih =>
    intro done start hstart hfold
    obtain ⟨next, hnext, hrest⟩ := bind_eq_ok.1 hfold
    simpa using ih (done ++ [s]) next (hadd hstart hnext) hrest

theorem records_ofStatements {statements : List Statement} {o : Outline}
    (h : ofStatements statements = .ok o) : Records statements o :=
  ofStatements_induction records_empty records_add h

end Outline

def Ref.Bare (ref : Ref) : Prop := ∀ sub ∈ ref.subterms, Ref.isState sub = false → sub.args = []

namespace RawRef

def label (scope : List (String × String)) (name : String) : Label :=
  match scope.lookup name with
  | some param => .param param
  | none => .state name

def relabel (scope : List (String × String)) (ref : RawRef) : Ref :=
  Term.bind (fun a => .atom ⟨label scope a.val, a.loc⟩) ref

variable {scope : List (String × String)} {defined : List String} {owner : String}

theorem resolve_app_eq_ok {applied : Bool} {f x : RawRef} {r : Ref} :
    resolve scope defined owner applied (.app f x) = .ok r ↔
      ∃ head arg, resolve scope defined owner true f = .ok head ∧
        resolve scope defined owner false x = .ok arg ∧ r = .app head arg := by
  simp only [resolve]
  constructor
  · intro h
    obtain ⟨head, hhead, h⟩ := bind_eq_ok.1 h
    obtain ⟨arg, harg, h⟩ := bind_eq_ok.1 h
    exact ⟨head, arg, hhead, harg, by simpa [pure, Except.pure, eq_comm] using h⟩
  · rintro ⟨head, arg, hhead, harg, rfl⟩
    exact bind_eq_ok.2 ⟨head, hhead, bind_eq_ok.2 ⟨arg, harg, rfl⟩⟩

theorem resolve_atom_eq_ok {applied : Bool} {a : Located String} {r : Ref}
    (h : resolve scope defined owner applied (.atom a) = .ok r) :
    r = .atom ⟨label scope a.val, a.loc⟩ ∧ (applied = true → Ref.isState r = true) := by
  cases hscope : scope.lookup a.val with
  | some param =>
    cases applied with
    | true => simp [resolve, hscope] at h
    | false =>
      obtain rfl : .atom ⟨.param param, a.loc⟩ = r := by simpa [resolve, hscope] using h
      exact ⟨by simp [label, hscope], by simp⟩
  | none =>
    simp only [resolve, hscope] at h
    split at h
    · obtain rfl : .atom ⟨.state a.val, a.loc⟩ = r := by simpa using h
      exact ⟨by simp [label, hscope], fun _ => rfl⟩
    · simp at h

theorem resolve_eq_relabel {applied : Bool} {ref : RawRef} {r : Ref}
    (h : resolve scope defined owner applied ref = .ok r) : r = relabel scope ref := by
  induction ref generalizing applied r with
  | atom a => exact (resolve_atom_eq_ok h).1
  | app f x ihf ihx =>
    obtain ⟨head, arg, hhead, harg, rfl⟩ := resolve_app_eq_ok.1 h
    rw [ihf hhead, ihx harg]
    rfl

theorem isState_of_resolve_applied {ref : RawRef} {r : Ref}
    (h : resolve scope defined owner true ref = .ok r) : Ref.isState r = true := by
  induction ref generalizing r with
  | atom a => exact (resolve_atom_eq_ok h).2 rfl
  | app f x ihf _ =>
    obtain ⟨head, arg, hhead, _, rfl⟩ := resolve_app_eq_ok.1 h
    have hstate : Ref.isState head = true := ihf hhead
    exact hstate

theorem bare_of_resolve {applied : Bool} {ref : RawRef} {r : Ref}
    (h : resolve scope defined owner applied ref = .ok r) : r.Bare := by
  induction ref generalizing applied r with
  | atom a =>
    obtain ⟨rfl, _⟩ := resolve_atom_eq_ok h
    intro sub hsub _
    obtain rfl : sub = .atom _ := by simpa [Term.subterms, Term.inner] using hsub
    rfl
  | app f x ihf ihx =>
    obtain ⟨head, arg, hhead, harg, rfl⟩ := resolve_app_eq_ok.1 h
    intro sub hsub hstate
    simp only [Term.subterms, Term.inner, List.mem_cons, List.mem_append] at hsub
    rcases hsub with rfl | hsub | hsub
    · have hhead' : Ref.isState head = true := isState_of_resolve_applied hhead
      exact absurd (hhead'.symm.trans hstate) (by simp)
    · exact ihf hhead sub (List.mem_cons_of_mem head hsub) hstate
    · exact ihx harg sub (by simpa [Term.subterms] using hsub) hstate

theorem mem_params_relabel {ref : RawRef} {x : String} (h : x ∈ (relabel scope ref).params) :
    ∃ a ∈ ref.atoms, scope.lookup a.val = some x := by
  induction ref with
  | atom a =>
    cases hscope : scope.lookup a.val with
    | none => simp [relabel, Term.bind, label, hscope, Ref.params, Term.atoms, Label.param?] at h
    | some y =>
      obtain rfl : x = y := by
        simpa [relabel, Term.bind, label, hscope, Ref.params, Term.atoms, Label.param?] using h
      exact ⟨a, by simp [Term.atoms], hscope⟩
  | app f y ihf ihy =>
    have happ : (relabel scope (.app f y)).params =
        (relabel scope f).params ++ (relabel scope y).params := by
      simp [relabel, Term.bind, Ref.params, Term.atoms]
    rw [happ, List.mem_append] at h
    rcases h with h | h
    · obtain ⟨a, ha, hx⟩ := ihf h
      exact ⟨a, by simp [Term.atoms, ha], hx⟩
    · obtain ⟨a, ha, hx⟩ := ihy h
      exact ⟨a, by simp [Term.atoms, ha], hx⟩

theorem closed_eq_relabel (ref : RawRef) : closed ref = relabel [] ref := rfl

end RawRef

namespace Entry

structure Renders (e : Entry) (line : RuleLine) (r : Rule) : Prop where
  read_eq : r.read = line.read.val
  write_eq : r.write = line.write.val
  target_eq : r.target = RawRef.relabel (line.params.zip e.first.params) line.target
  target_bare : r.target.Bare
  move_eq : r.move = line.move
  loc_eq : r.loc = line.loc

structure Defines (e : Entry) (d : Definition) : Prop where
  name_eq : d.name = e.name
  params_eq : d.params = e.first.params
  loc_eq : d.loc = e.first.loc
  rules : List.Forall₂ e.Renders e.lines d.rules
  reads_nodup : (d.rules.map Rule.read).Nodup

variable {e : Entry} {defined : List String}

theorem renders_of_rule {line : RuleLine} {r : Rule} (h : e.rule defined line = .ok r) :
    e.Renders line r := by
  obtain ⟨target, htarget, h⟩ := bind_eq_ok.1 h
  obtain rfl : (⟨line.read.val, line.write.val, target, line.move, line.loc⟩ : Rule) = r := by
    simpa [pure, Except.pure] using h
  exact ⟨rfl, rfl, RawRef.resolve_eq_relabel htarget, RawRef.bare_of_resolve htarget, rfl, rfl⟩

theorem rules_eq_ok {done : List Rule} {lines : List RuleLine} {list : List Rule}
    (h : e.rules defined done lines = .ok list) (hnodup : (done.map Rule.read).Nodup) :
    ∃ more, list = done ++ more ∧ List.Forall₂ e.Renders lines more ∧
      (list.map Rule.read).Nodup := by
  induction lines generalizing done with
  | nil =>
    obtain rfl : done = list := by simpa [rules] using h
    exact ⟨[], by simp, .nil, hnodup⟩
  | cons line lines ih =>
    cases hfind : done.find? fun r => r.read = line.read.val with
    | some r => simp [rules, hfind] at h
    | none =>
      simp only [rules, hfind] at h
      obtain ⟨r, hr, h⟩ := bind_eq_ok.1 h
      have hrenders : e.Renders line r := renders_of_rule hr
      have hfresh : r.read ∉ done.map Rule.read := by
        intro hmem
        obtain ⟨old, hold, heq⟩ := List.mem_map.1 hmem
        exact List.find?_eq_none.1 hfind old hold (by simp [heq, hrenders.read_eq])
      have hnext : ((done ++ [r]).map Rule.read).Nodup := by
        rw [List.map_append]
        refine List.nodup_append.2 ⟨hnodup, by simp, ?_⟩
        rintro a ha b hb rfl
        obtain rfl : a = r.read := by simpa using hb
        exact hfresh ha
      obtain ⟨more, rfl, hmore, hall⟩ := ih h hnext
      exact ⟨r :: more, by simp, .cons hrenders hmore, hall⟩

theorem defines_of_definition {d : Definition} (h : e.definition defined = .ok d) :
    e.Defines d := by
  obtain ⟨list, hlist, h⟩ := bind_eq_ok.1 h
  obtain rfl : (⟨e.name, e.first.params, list, e.first.loc⟩ : Definition) = d := by
    simpa [pure, Except.pure] using h
  obtain ⟨more, rfl, hmore, hnodup⟩ := rules_eq_ok hlist (by simp)
  exact ⟨rfl, rfl, rfl, by simpa using hmore, hnodup⟩

end Entry

structure Program.Assembled (statements : List Statement) (p : Program) (o : Outline) : Prop where
  records : o.Records statements
  start : ∃ target loc, Statement.starts statements = [(target, loc)] ∧
    p.start = RawRef.closed target
  definitions : List.Forall₂ Entry.Defines o.entries p.definitions

theorem Program.assemble_eq_ok {source file : String} {statements : List Statement} {p : Program} :
    Program.assemble source file statements = .ok p ↔
      ∃ o target loc definitions, Outline.ofStatements statements = .ok o ∧
        o.start = some (target, loc) ∧
        List.Forall₂ (fun e d => e.definition (o.entries.map Entry.name) = .ok d) o.entries
          definitions ∧
        p = ⟨definitions, RawRef.closed target, loc, source, file⟩ := by
  constructor
  · intro h
    obtain ⟨o, ho, h⟩ := bind_eq_ok.1 h
    cases hstart : o.start with
    | none => simp [hstart] at h
    | some start =>
      obtain ⟨target, loc⟩ := start
      simp only [hstart] at h
      obtain ⟨definitions, hdefinitions, h⟩ := bind_eq_ok.1 h
      exact ⟨o, target, loc, definitions, ho, hstart, mapM_eq_ok.1 hdefinitions,
        (Except.ok.inj h).symm⟩
  · intro h
    obtain ⟨o, target, loc, definitions, ho, hstart, hdefinitions, rfl⟩ := h
    refine bind_eq_ok.2 ⟨o, ho, ?_⟩
    simp only [hstart]
    exact bind_eq_ok.2 ⟨definitions, mapM_eq_ok.2 hdefinitions, rfl⟩

theorem Outline.Records.starts_eq {statements : List Statement} {o : Outline}
    (h : o.Records statements) {target : RawRef} {loc : Loc} (hstart : o.start = some (target, loc)) :
    Statement.starts statements = [(target, loc)] := by
  have hhead : (Statement.starts statements).head? = some (target, loc) := h.start_eq ▸ hstart
  obtain ⟨rest, hrest⟩ := List.head?_eq_some_iff.1 hhead
  have hle := h.starts_le
  rw [hrest] at hle ⊢
  obtain rfl : rest = [] := List.length_eq_zero_iff.1 (by simpa using hle)
  rfl

theorem Program.assembled_of_assemble {source file : String} {statements : List Statement}
    {p : Program} (h : Program.assemble source file statements = .ok p) :
    ∃ o, Program.Assembled statements p o := by
  obtain ⟨o, target, loc, definitions, ho, hstart, hdefinitions, rfl⟩ := Program.assemble_eq_ok.1 h
  have hrec : o.Records statements := Outline.records_ofStatements ho
  exact ⟨o, hrec, ⟨target, loc, hrec.starts_eq hstart, rfl⟩,
    hdefinitions.imp fun _ _ => Entry.defines_of_definition⟩

end GenericTuring
