import GenericTuring.Proofs.Growth
import GenericTuring.Proofs.Instances
import GenericTuring.Proofs.LineRows
import Mathlib

/-!
The states of a program, read off its lines: which there are, what they stand for and where they lead
is said line by line, each line with its own parameter names. There is a table exactly if these states
are finitely many and each stands for something.
-/

namespace GenericTuring

namespace Program

variable {p : Program}

/-- An expanding cycle is impossible where the states are finitely many and all have a meaning. -/
theorem expandingCycle?_eq_none_of_finite (hwf : p.WellFormed) (hall : p.Meaningful)
    (hfinite : {key | p.Reaches key}.Finite) : p.expandingCycle? = none := by
  by_contra hcycle
  obtain ⟨bound, hbound⟩ := (hfinite.image Term.depth).bddAbove
  obtain ⟨key, hkey, hlt⟩ := exists_deep_reached hwf hall hcycle bound
  exact absurd (hbound (Set.mem_image_of_mem _ hkey)) (Nat.not_le_of_lt hlt)

/-- There is a table exactly if the states are finitely many and each stands for something. -/
theorem exists_expand_iff (hwf : p.WellFormed) :
    (∃ t, p.expand = .ok t) ↔
      {key | p.Reaches key}.Finite ∧ ∀ key, p.Reaches key → p.Stands key := by
  constructor
  · intro h
    obtain ⟨t, hexpand⟩ := h
    have ht := expanded_of_expand hwf hexpand
    refine ⟨finite_reaches hwf (expandingCycle?_of_expand hexpand), fun key hkey => ?_⟩
    exact hwf.isResolved_iff_stands.1 (ht.resolved key ((ht.mem_keys key).2 hkey))
  · intro h
    obtain ⟨hfinite, hstands⟩ := h
    have hall : p.Meaningful := fun key hkey => hwf.isResolved_iff_stands.2 (hstands key hkey)
    -- the check for cycles refuses nothing here, so what is left is the search
    have hcycle := expandingCycle?_eq_none_of_finite hwf hall hfinite
    obtain ⟨start, hstart⟩ := hwf.exists_startKey
    cases expand_cases hwf hcycle hstart with
    | inl hrefused =>
      obtain ⟨v, hstop, _⟩ := hrefused
      obtain ⟨hreached, hhalt⟩ := Search.reached_and_halt_of_stop hstop
      simp [hall v.node ((reaches_iff_reached hstart).2 hreached)] at hhalt
    | inr hdone =>
      obtain ⟨_, t, hexpand, _⟩ := hdone
      exact ⟨t, hexpand⟩

end Program

def RuleLine.Fits (line : RuleLine) (key : Key) : Prop :=
  line.head = key.head ∧ line.params.length = key.args.length

namespace Statement

def Stands (statements : List Statement) (key : Key) : Prop :=
  key = Key.finish ∨ ∃ line ∈ ruleLines statements, line.Fits key

inductive Reaches (statements : List Statement) : Key → Prop
  | start {key : Key} (hstart : LineRun.start? statements = some key) : Reaches statements key
  | argument {key arg : Key} (hkey : Reaches statements key) (hstands : Stands statements key)
      (harg : arg ∈ key.args) : Reaches statements arg
  | target {key : Key} {line : RuleLine} (hkey : Reaches statements key)
      (hline : line ∈ ruleLines statements) (hfits : line.Fits key) :
      Reaches statements (line.next key)

end Statement

namespace Program

variable {p : Program} {statements : List Statement} {o : Outline} {key : Key}

/-- A key has a definition with as many parameters as it has arguments exactly if a line is for it. -/
theorem Assembled.defined_iff (h : Assembled statements p o) :
    (∃ d ∈ p.definitions, d.name = key.head ∧ d.arity = key.args.length) ↔
      ∃ line ∈ Statement.ruleLines statements, line.Fits key := by
  constructor
  · intro hd
    obtain ⟨d, hd, hname, harity⟩ := hd
    obtain ⟨e, he, hdef⟩ := exists_of_mem_right h.definitions hd
    refine ⟨e.first, h.line_mem he List.mem_cons_self, hdef.name_eq.symm.trans hname, ?_⟩
    rw [← harity, Definition.arity, hdef.params_eq]
  · intro hline
    obtain ⟨line, hline, hhead, hparams⟩ := hline
    obtain ⟨e, he, hname⟩ := List.mem_map.1 (h.records.head_mem line hline)
    obtain ⟨d, hd, hdef⟩ := exists_of_mem_left h.definitions he
    have hmem : line ∈ e.lines := by
      rw [h.records.lines_eq e he]
      exact Statement.mem_linesOf.2 ⟨hline, hname.symm⟩
    refine ⟨d, hd, (hdef.name_eq.trans hname).trans hhead, ?_⟩
    rw [Definition.arity, hdef.params_eq, ← h.records.arity_eq e he line hmem, hparams]

theorem Assembled.stands_iff (h : Assembled statements p o) :
    p.Stands key ↔ Statement.Stands statements key :=
  or_congr_right h.defined_iff

/-- The states of a program are those of its statements. -/
theorem Assembled.reaches_iff (h : Assembled statements p o) :
    p.Reaches key ↔ Statement.Reaches statements key := by
  have hwf := wellFormed_of_assembled h
  constructor
  · intro hkey
    induction hkey with
    | start hstart => exact .start (h.startKey_iff.1 hstart)
    | argument _ hmeaning harg ih =>
      exact .argument ih (h.stands_iff.1 (hwf.isResolved_iff_stands.1 hmeaning)) harg
    | @target key next d r _ hmeaning hr hnext ih =>
      obtain ⟨e, hdef, hlines, harity⟩ := h.exists_defines hmeaning
      obtain ⟨line, hline, hrenders⟩ := exists_of_mem_right hdef.rules hr
      have htarget := h.instantiate?_of_renders hmeaning hdef hrenders (harity line hline)
      obtain rfl : next = line.next key := Option.some.inj (hnext.symm.trans htarget)
      obtain ⟨hmem, hhead⟩ := Statement.mem_linesOf.1 (hlines ▸ hline)
      refine .target ih hmem ⟨hhead, ?_⟩
      rw [harity line hline, (meaning_eq_defined.1 hmeaning).2.2]
  · intro hkey
    induction hkey with
    | start hstart => exact .start (h.startKey_iff.2 hstart)
    | argument _ hstands harg ih =>
      exact .argument ih (hwf.isResolved_iff_stands.2 (h.stands_iff.2 hstands)) harg
    | @target key line _ hline hfits ih =>
      obtain ⟨d, hd, hname, harity⟩ := h.defined_iff.2 ⟨line, hline, hfits⟩
      have hmeaning := hwf.meaning_of_mem hd hname harity
      obtain ⟨e, hdef, hlines, hparams⟩ := h.exists_defines hmeaning
      have hmem : line ∈ e.lines := by
        rw [hlines]
        exact Statement.mem_linesOf.2 ⟨hline, hfits.1⟩
      obtain ⟨r, hr, hrenders⟩ := exists_of_mem_left hdef.rules hmem
      exact .target ih hmeaning hr
        (h.instantiate?_of_renders hmeaning hdef hrenders (hparams line hmem))

end Program

end GenericTuring
