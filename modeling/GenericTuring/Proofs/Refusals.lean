import GenericTuring.Proofs.Instances
import GenericTuring.Proofs.Places
import GenericTuring.Proofs.Shortest
import Mathlib

/-!
What a refusal says. A program without expanding cycles is refused for a state that stands for nothing.
The refusal gives a shortest way from the start to such a state, and the place in the text where the way
last took a reference.
-/

namespace GenericTuring

open Grammar

/-- A place with a line is known. -/
theorem Span.orUnknown_ofLoc {loc : Loc} (h : 0 < loc.line) (file : String) :
    (ofLoc file loc).orUnknown = ofLoc file loc := by
  simp [orUnknown, isKnown, ofLoc, h]

/-- The places that statements keep have a line. -/
theorem Grammar.Written.line_pos {text : List Char} {statements : List Statement}
    (h : Written text statements) {s : Statement} (hs : s ∈ statements) {token : Token} {loc : Loc}
    (ht : (token, some loc) ∈ s.tokens) : 0 < loc.line := by
  obtain ⟨taken, here, _, hpass, _, hplace⟩ := Lines.follows h hs ht
  rw [← hplace loc rfl, hpass.loc_eq]
  exact Loc.line_le_advance Loc.start taken

/-- What stems from a reference of a statement has a line. -/
theorem Grammar.Written.relabel_line_pos {text : List Char} {statements : List Statement}
    (h : Written text statements) {s : Statement} (hs : s ∈ statements)
    {scope : List (String × String)} {ref : Ref} (href : ref ∈ Term.subterms (s.target.relabel scope)) :
    0 < ref.loc.line := by
  obtain ⟨raw, hraw, hloc, _⟩ := RawRef.exists_of_mem_subterms_relabel href
  rw [hloc]
  exact h.line_pos hs (Statement.mem_tokens_of_mem_subterms hraw)

namespace Program

variable {p : Program}

/-- The start reference and all references in rules have a line. -/
theorem line_pos_of_parse {source file : String} (h : parse source file = .ok p) :
    0 < p.start.loc.line ∧ ∀ d ∈ p.definitions, ∀ r ∈ d.rules, ∀ ref ∈ r.target.subterms,
      0 < (Ref.loc ref).line := by
  obtain ⟨statements, o, hscan, _, hassembled⟩ := assembled_of_parse h
  have hwritten := written_of_scan hscan
  constructor
  · obtain ⟨target, loc, hstarts, hstart⟩ := hassembled.start
    have hs : Statement.start target loc ∈ statements :=
      Statement.start_mem_of_mem_starts (hstarts ▸ List.mem_singleton_self _)
    rw [hstart, RawRef.closed_eq_relabel]
    exact hwritten.relabel_line_pos hs (Term.self_mem_subterms _)
  · intro d hd r hr ref href
    obtain ⟨e, he, hdef⟩ := exists_of_mem_right hassembled.definitions hd
    obtain ⟨line, hline, hrenders⟩ := exists_of_mem_right hdef.rules hr
    have hs := Statement.mem_ruleLines.1 (hassembled.line_mem he hline)
    rw [hrenders.target_eq] at href
    exact hwritten.relabel_line_pos hs href

def Leads (p : Program) (key next : Key) : Prop :=
  next ∈ key.args ∨ ∃ d ∈ p.definitions, d.name = key.head ∧
    ∃ r ∈ d.rules, r.target.instantiate? (bindings d key) = some next

structure Way (p : Program) (way : List Key) (key : Key) : Prop where
  start : ∃ start, p.startKey = .ok start ∧ way.head? = some start
  leads : way.IsChain p.Leads
  last : way.getLast? = some key

theorem leads_of_step {key next : Key} (h : Search.Step p.successors key next) :
    p.Leads key next := by
  obtain ⟨d, hmeaning, hnext⟩ := mem_successors.1 h
  obtain ⟨hd, hname⟩ := mem_definitions_of_meaning hmeaning
  exact hnext.imp_right fun hrule => ⟨d, hd, hname, hrule⟩

/-- From a key that stands for something, the search for states goes wherever the key leads. -/
theorem WellFormed.step_of_leads (hwf : p.WellFormed) {key next : Key} (hstands : p.Stands key)
    (h : p.Leads key next) : Search.Step p.successors key next := by
  refine mem_successors.2 ?_
  cases hstands with
  | inl hfinish =>
    rw [hfinish] at h
    cases h with
    | inl harg => simp [Key.finish, Term.args] at harg
    | inr hrule =>
      obtain ⟨d, hd, hname, _⟩ := hrule
      exact absurd hname (hwf.name_ne_finish d hd)
  | inr hdefined =>
    obtain ⟨d, hd, hname, harity⟩ := hdefined
    refine ⟨d, hwf.meaning_of_mem hd hname harity, h.imp_right fun hrule => ?_⟩
    obtain ⟨other, hother, hsame, hrule⟩ := hrule
    have hfound : p.definition? key.head = some d := hname ▸ hwf.definition?_of_mem hd
    rw [← hsame, hwf.definition?_of_mem hother] at hfound
    exact Option.some.inj hfound ▸ hrule

/-- The search need not go beyond the first key on a way that stands for nothing. -/
theorem WellFormed.exists_reachedIn (hwf : p.WellFormed) {start key last : Key} {n : Nat}
    {rest : List Key} (hkey : Search.ReachedIn p.successors [start] n key)
    (hleads : (key :: rest).IsChain p.Leads) (hlast : (key :: rest).getLast? = some last)
    (hfails : ¬ p.Stands last) :
    ∃ m other, Search.ReachedIn p.successors [start] m other ∧ ¬ p.Stands other ∧
      m ≤ n + rest.length := by
  -- A way may go on through the arguments of a key that stands for nothing; the search does not.
  induction rest generalizing key n with
  | nil =>
    obtain rfl : key = last := by simpa using hlast
    exact ⟨n, key, hkey, hfails, Nat.le_refl n⟩
  | cons next rest ih =>
    by_cases hstands : p.Stands key
    · obtain ⟨hnext, hrest⟩ := List.isChain_cons_cons.1 hleads
      have hreached := hkey.step (hwf.step_of_leads hstands hnext)
      obtain ⟨m, other, hother, hfails, hle⟩ := ih hreached hrest (by simpa using hlast)
      exact ⟨m, other, hother, hfails, by simp only [List.length_cons]; omega⟩
    · exact ⟨n, key, hkey, hstands, Nat.le_add_right n _⟩

def Brings (p : Program) (key next : Key) (loc : Loc) : Prop :=
  next ∉ key.args ∧ ∃ d ∈ p.definitions, d.name = key.head ∧ ∃ r,
    d.rules.find? (fun r => decide (r.target.instantiate? (bindings d key) = some next)) = some r ∧
      r.target.loc = loc

/-- The last key of the chain that is no argument of the one before it was taken from the reference at the
place: the start reference if that key is the first of the chain, else the target of a rule. -/
def SitedAt (p : Program) (chain : List Key) (loc : Loc) : Prop :=
  ∃ before key args, chain = before ++ key :: args ∧ (key :: args).IsChain (fun a b => b ∈ a.args) ∧
    ((before = [] ∧ p.start.loc = loc) ∨ ∃ parent ∈ before.getLast?, p.Brings parent key loc)

theorem site_follow (p : Program) (v : Search.Visit Key (Option Loc)) (label : Option Loc) (key : Key) :
    p.site (v.follow label key) = label.getD (p.site v) := by
  cases label <;> simp [site, Search.Visit.follow]

theorem find?_map_pair {α β : Type} [DecidableEq β] (a : α) (b : β) (bs : List β) :
    (bs.map fun x => (a, x)).find? (fun e => decide (e.2 = b)) =
      if b ∈ bs then some (a, b) else none := by
  induction bs with
  | nil => simp
  | cons x bs ih =>
    by_cases hx : x = b
    · simp [hx]
    · simp [hx, ih, Ne.symm hx]

/-- The first edge to a key is that of an argument if there is one, else that of the first rule. -/
theorem find?_successors {key next : Key} {d : Definition} {label : Option Loc}
    (hmeaning : p.meaning key = .defined d)
    (h : (p.successors key).find? (fun e => decide (e.2 = next)) = some (label, next)) :
    (next ∈ key.args ∧ label = none) ∨ (next ∉ key.args ∧ ∃ r,
      d.rules.find? (fun r => decide (r.target.instantiate? (bindings d key) = some next)) = some r ∧
        label = some r.target.loc) := by
  have hrules : ∀ r : Rule, ((r.target.instantiate? (bindings d key)).map fun target =>
      (some r.target.loc, target)).any (fun e => decide (e.2 = next)) =
      decide (r.target.instantiate? (bindings d key) = some next) := by
    intro r
    cases r.target.instantiate? (bindings d key) <;> simp
  simp only [successors, hmeaning, List.find?_append, find?_map_pair, List.find?_filterMap, hrules] at h
  by_cases harg : next ∈ key.args
  · simp only [harg, if_true, Option.some_or, Option.some.injEq, Prod.mk.injEq, and_true] at h
    exact .inl ⟨harg, h.symm⟩
  · simp only [harg, if_false, Option.none_or, Option.bind_eq_some_iff, Option.map_eq_some_iff,
      Prod.mk.injEq] at h
    obtain ⟨r, hr, _, _, hlabel, _⟩ := h
    exact .inr ⟨harg, r, hr, hlabel.symm⟩

theorem sitedAt_of_trailed {start : Key} {v : Search.Visit Key (Option Loc)}
    (h : Search.Trailed p.successors [start] v) : p.SitedAt v.chain (p.site v) := by
  induction h with
  | @root node _ => exact ⟨[], node, [], rfl, by simp, .inl ⟨rfl, rfl⟩⟩
  | @follow v label node _ _ hedge ih =>
    obtain ⟨d, hmeaning, _⟩ := mem_successors.1 ⟨label, List.mem_of_find?_eq_some hedge⟩
    rw [site_follow, Search.Visit.chain_follow]
    cases find?_successors hmeaning hedge with
    | inl hargument =>
      obtain ⟨harg, rfl⟩ := hargument
      obtain ⟨before, key, args, hchain, hargs, hsite⟩ := ih
      refine ⟨before, key, args ++ [node], by simp [hchain], ?_, hsite⟩
      have hlast : (key :: args).getLast? = some v.node := by
        simpa [hchain] using v.getLast?_chain
      rw [← List.cons_append]
      refine List.isChain_append.2 ⟨hargs, by simp, fun a ha b hb => ?_⟩
      obtain rfl : v.node = a := by simpa [hlast] using ha
      obtain rfl : node = b := by simpa using hb
      exact harg
    | inr htarget =>
      obtain ⟨hnew, r, hr, rfl⟩ := htarget
      obtain ⟨hd, hname⟩ := mem_definitions_of_meaning hmeaning
      exact ⟨v.chain, node, [], rfl, by simp,
        .inr ⟨v.node, by simp, hnew, d, hd, hname, r, hr, rfl⟩⟩

theorem SitedAt.line_pos {source file : String} (hp : parse source file = .ok p) {chain : List Key}
    {loc : Loc} (h : p.SitedAt chain loc) : 0 < loc.line := by
  obtain ⟨hstart, htarget⟩ := line_pos_of_parse hp
  obtain ⟨_, _, _, _, _, ⟨_, rfl⟩ | ⟨_, _, _, d, hd, _, r, hr, rfl⟩⟩ := h
  · exact hstart
  · exact htarget d hd r (List.mem_of_find?_eq_some hr) _ (Term.self_mem_subterms _)

inductive Refuses (p : Program) (key : Key) (loc : Loc) (chain : List Key) :
    ExpansionError → ResolutionCause → Prop
  | undefined (hfinish : key.head ≠ finishName) (hname : ∀ d ∈ p.definitions, d.name ≠ key.head) :
      Refuses p key loc chain (.undefined key.head loc chain) (.undefinedState key.head)
  | finish (hfinish : key.head = finishName) (hargs : key.args ≠ []) :
      Refuses p key loc chain (.mismatch key.head 0 key.args.length loc chain)
        (.arityMismatch key.head 0 key.args.length)
  | mismatch {d : Definition} (hd : d ∈ p.definitions) (hname : d.name = key.head)
      (harity : d.arity ≠ key.args.length) :
      Refuses p key loc chain (.mismatch key.head d.arity key.args.length loc chain)
        (.arityMismatch key.head d.arity key.args.length)

theorem exists_refuses {v : Search.Visit Key (Option Loc)}
    (h : (p.meaning v.node).isResolved = false) :
    ∃ cause, Refuses p v.node (p.site v) v.chain (p.refusal v) cause := by
  by_cases hfinish : v.node.head = finishName
  · by_cases hargs : v.node.args = []
    · simp [meaning, hfinish, hargs, Meaning.isResolved] at h
    · have hmeaning : p.meaning v.node = .mismatch 0 := by simp [meaning, hfinish, hargs]
      simp only [refusal, hmeaning]
      exact ⟨_, .finish hfinish hargs⟩
  · cases hd : p.definition? v.node.head with
    | none =>
      have hmeaning : p.meaning v.node = .undefined := by simp [meaning, hfinish, hd]
      simp only [refusal, hmeaning]
      exact ⟨_, .undefined hfinish (by simpa [definition?] using hd)⟩
    | some d =>
      obtain ⟨hmem, hname⟩ := mem_of_definition? hd
      by_cases harity : d.arity = v.node.args.length
      · simp [meaning, hfinish, hd, harity, Meaning.isResolved] at h
      · have hmeaning : p.meaning v.node = .mismatch d.arity := by
          simp [meaning, hfinish, hd, harity]
        simp only [refusal, hmeaning]
        exact ⟨_, .mismatch hmem hname harity⟩

theorem Refuses.diagnostic {key : Key} {loc : Loc} {chain : List Key} {e : ExpansionError}
    {cause : ResolutionCause} (h : Refuses p key loc chain e cause) (hline : 0 < loc.line)
    (file : String) :
    (e.diagnostic file).cause = .unresolved cause (chain.map Key.text) ∧
      (e.diagnostic file).span = .ofLoc file loc := by
  cases h with
  | undefined => exact ⟨rfl, Span.orUnknown_ofLoc hline file⟩
  | finish => exact ⟨rfl, Span.orUnknown_ofLoc hline file⟩
  | mismatch => exact ⟨rfl, Span.orUnknown_ofLoc hline file⟩

/-- The error tells why the program has no table. Its chain is a shortest way from the start to a key that
stands for nothing, with no key twice. It is reported with the texts of the chain, at the place of the
reference that the chain last took. -/
structure Explains (p : Program) (file : String) (e : ExpansionError) (chain : List Key) (key : Key)
    (loc : Loc) : Prop where
  way : p.Way chain key
  nodup : chain.Nodup
  fails : ¬ p.Stands key
  shortest : ∀ other last, p.Way other last → ¬ p.Stands last → chain.length ≤ other.length
  sited : p.SitedAt chain loc
  reported : ∃ cause, Refuses p key loc chain e cause ∧
    (e.diagnostic file).cause = .unresolved cause (chain.map Key.text)
  span_eq : (e.diagnostic file).span = .ofLoc file loc

theorem way_of_trailed {start : Key} (hstart : p.startKey = .ok start)
    {v : Search.Visit Key (Option Loc)} (h : Search.Trailed p.successors [start] v) :
    p.Way v.chain v.node := by
  obtain ⟨root, hroot, hhead⟩ := h.exists_root
  obtain rfl := List.mem_singleton.1 hroot
  exact ⟨⟨root, hstart, hhead⟩, h.isChain.imp fun _ _ => leads_of_step, v.getLast?_chain⟩

theorem WellFormed.length_chain_le (hwf : p.WellFormed) (hcycle : p.expandingCycle? = none)
    {start : Key} (hstart : p.startKey = .ok start) {v : Search.Visit Key (Option Loc)}
    (hstop : (p.states start).stop = some v) {way : List Key} {last : Key} (hway : p.Way way last)
    (hfails : ¬ p.Stands last) : v.chain.length ≤ way.length := by
  obtain ⟨⟨first, hfirst, hhead⟩, hleads, hlast⟩ := hway
  obtain rfl : start = first := by simpa [hstart] using hfirst
  obtain ⟨rest, rfl⟩ := List.head?_eq_some_iff.1 hhead
  obtain ⟨n, other, hother, hstands, hle⟩ :=
    hwf.exists_reachedIn (.root (List.mem_singleton_self start)) hleads hlast hfails
  have hhalt : (!(p.meaning other).isResolved) = true := by
    simpa [← hwf.isResolved_iff_stands] using hstands
  have hdepth : v.depth ≤ n := Search.depth_le_of_stop hstop
    (fun _ hnode => .inl (admits_of_reached hwf hcycle hstart hnode)) hother hhalt
  rw [Search.Visit.length_chain, List.length_cons]
  omega

/-- For every program that a text gives and that has no table: it has an expanding cycle, which is
reported; or it has none, and the error tells of a shortest way to a state that stands for nothing. -/
theorem refusal_explained {source file : String} {e : ExpansionError}
    (hp : parse source file = .ok p) (hexpand : p.expand = .error e) :
    (∃ owner edges, p.expandingCycle? = some (owner, edges) ∧ e = .cycle owner edges) ∨
      (p.expandingCycle? = none ∧ ∃ chain key loc, p.Explains file e chain key loc) := by
  have hwf : p.WellFormed := wellFormed_of_parse hp
  obtain ⟨start, hstart⟩ := hwf.exists_startKey
  cases hcycle : p.expandingCycle? with
  | some cycle =>
    obtain ⟨owner, edges⟩ := cycle
    rw [expand_of_cycle hcycle] at hexpand
    exact .inl ⟨owner, edges, rfl, (Except.error.inj hexpand).symm⟩
  | none =>
    refine .inr ⟨rfl, ?_⟩
    cases expand_cases hwf hcycle hstart with
    | inr hdone =>
      obtain ⟨_, t, ht, _⟩ := hdone
      simp [ht] at hexpand
    | inl hrefused =>
      obtain ⟨v, hstop, hrefusal⟩ := hrefused
      obtain rfl : p.refusal v = e := Except.error.inj (hrefusal.symm.trans hexpand)
      have htrailed := Search.trailed_of_stop hstop
      have hhalt : (p.meaning v.node).isResolved = false := by
        simpa using (Search.reached_and_halt_of_stop hstop).2
      have hsited : p.SitedAt v.chain (p.site v) := sitedAt_of_trailed htrailed
      obtain ⟨cause, hrefuses⟩ := exists_refuses hhalt
      obtain ⟨hcause, hspan⟩ := hrefuses.diagnostic (hsited.line_pos hp) file
      refine ⟨v.chain, v.node, p.site v, ?_⟩
      exact {
        way := way_of_trailed hstart htrailed
        nodup := htrailed.nodup_chain
        fails := by simp [← hwf.isResolved_iff_stands, hhalt]
        shortest := fun _ _ hway hfails => hwf.length_chain_le hcycle hstart hstop hway hfails
        sited := hsited
        reported := ⟨cause, hrefuses, hcause⟩
        span_eq := hspan }

def lantern : String :=
  "start = a\na 0 = 0; b next\na 1 = 1; w<v<ghost>> next\n" ++
    "b 0 = 0; w<v<v<ghost>>> next\nw<k> _ = _; k current\nv<k> _ = _; k current\n"

set_option maxRecDepth 20000 in
theorem refusal_explained_lantern : ∃ p e, parse lantern "lantern" = .ok p ∧ p.expand = .error e ∧
    (e.diagnostic "lantern").cause = .unresolved (.undefinedState "ghost")
      ["a", "w<v<ghost>>", "v<ghost>", "ghost"] ∧
    (e.diagnostic "lantern").span = ⟨"lantern", 3, 10⟩ ∧
    ∃ chain key loc, p.Explains "lantern" e chain key loc := by
  obtain ⟨p, hp, htold⟩ := exists_ok_of_any (x := parse lantern "lantern")
    (t := fun p => decide ((p.expand.map fun _ => ()).mapError
        (fun e => ((e.diagnostic "lantern").cause, (e.diagnostic "lantern").span)) =
      .error (.unresolved (.undefinedState "ghost") ["a", "w<v<ghost>>", "v<ghost>", "ghost"],
        ⟨"lantern", 3, 10⟩))) (by decide_cbv)
  cases hexpand : p.expand with
  | ok t => simp [hexpand, Except.map, Except.mapError] at htold
  | error e =>
    obtain ⟨hcause, hspan⟩ : (e.diagnostic "lantern").cause = _ ∧ (e.diagnostic "lantern").span = _ := by
      simpa [hexpand, Except.map, Except.mapError] using htold
    refine ⟨p, e, hp, hexpand, hcause, hspan, ?_⟩
    obtain ⟨owner, edges, _, rfl⟩ | ⟨_, hexplains⟩ := refusal_explained hp hexpand
    · simp [ExpansionError.diagnostic, Diagnostic.of] at hcause
    · exact hexplains

end Program

end GenericTuring
