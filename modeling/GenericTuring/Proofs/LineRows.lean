import GenericTuring.Proofs.Expansion

/-!
Rule lines taken as they stand, each with its own parameter names, and the rows of the table made of
them: a state has one entry for each line with its name, and the entry leads where the line does.
-/

namespace GenericTuring

namespace RuleLine

def applies (line : RuleLine) (key : Key) (symbol : Symbol) : Bool :=
  decide (line.head = key.head) && decide (line.read.val = symbol)

theorem applies_iff {line : RuleLine} {key : Key} {symbol : Symbol} :
    line.applies key symbol = true ↔ line.head = key.head ∧ line.read.val = symbol := by
  simp [applies]

def standsFor (line : RuleLine) (args : List Key) (name : String) : Key :=
  -- A parameter stands for its argument, and any other name is that of a state.
  ((line.params.zip args).lookup name).getD (.atom name)

def next (line : RuleLine) (key : Key) : Key :=
  Term.bind (fun a => line.standsFor key.args a.val) line.target

def transition (line : RuleLine) (key : Key) : Transition :=
  ⟨line.write.val, line.next key, line.move, line.loc⟩

end RuleLine

namespace LineRun

def start? (statements : List Statement) : Option Key :=
  (Statement.starts statements).head?.map fun s => Term.bind (fun a => .atom a.val) s.1

end LineRun

/-- Marking and renaming the parameters of a line and then binding the new names does what binding the
names of the line does. -/
theorem RawRef.instantiate?_relabel {names others : List String} {args : List Key}
    (hnodup : others.Nodup) (hlen : names.length = others.length)
    (hargs : others.length = args.length) (ref : RawRef) :
    (RawRef.relabel (names.zip others) ref).instantiate? (others.zip args) =
      some (Term.bind (fun a => ((names.zip args).lookup a.val).getD (.atom a.val)) ref) := by
  induction ref with
  | atom a =>
    have hlookup := lookup_zip_zip hnodup hlen hargs a.val
    cases hother : (names.zip others).lookup a.val with
    | none =>
      rw [hother, Option.bind_none] at hlookup
      simp [RawRef.relabel, RawRef.label, Term.bind, Ref.instantiate?, Term.bind?, hother, hlookup]
    | some other =>
      rw [hother, Option.bind_some] at hlookup
      have hmem : other ∈ others := (List.of_mem_zip (mem_of_lookup_eq_some hother)).2
      obtain ⟨v, hv⟩ := exists_lookup_zip hargs hmem
      simp [RawRef.relabel, RawRef.label, Term.bind, Ref.instantiate?, Term.bind?, hother, hlookup,
        hv]
  | app f x ihf ihx => exact Term.bind?_app_eq_some.2 ⟨_, _, ihf, ihx, rfl⟩

namespace Program

variable {p : Program} {statements : List Statement} {o : Outline}

theorem Assembled.linesOf_finish (h : Assembled statements p o) {key : Key}
    (hfinish : key = Key.finish) : Statement.linesOf statements key.head = [] := by
  refine List.eq_nil_iff_forall_not_mem.2 fun line hline => ?_
  obtain ⟨hmem, hhead⟩ := Statement.mem_linesOf.1 hline
  rw [hfinish] at hhead
  exact (h.records.allowed line hmem).head_ne hhead

/-- The definition of a state has a rule for each line with the name of the state, and these lines have
a parameter for each argument. -/
theorem Assembled.exists_defines (h : Assembled statements p o) {key : Key} {d : Definition}
    (hmeaning : p.meaning key = .defined d) :
    ∃ e : Entry, e.Defines d ∧ e.lines = Statement.linesOf statements key.head ∧
      ∀ line ∈ e.lines, line.params.length = d.arity := by
  obtain ⟨_, hfound, _⟩ := meaning_eq_defined.1 hmeaning
  obtain ⟨hmem, hname⟩ := mem_of_definition? hfound
  obtain ⟨e, he, hdef⟩ := exists_of_mem_right h.definitions hmem
  refine ⟨e, hdef, ?_, fun line hline => ?_⟩
  · rw [h.records.lines_eq e he, ← hdef.name_eq, hname]
  · rw [h.records.arity_eq e he line hline, ← hdef.params_eq]
    rfl

/-- The rule made of a line leads from a state where the line does. -/
theorem Assembled.instantiate?_of_renders (h : Assembled statements p o) {key : Key}
    {d : Definition} (hmeaning : p.meaning key = .defined d) {e : Entry} (hdef : e.Defines d)
    {line : RuleLine} {r : Rule} (hrenders : e.Renders line r)
    (hline : line.params.length = d.arity) :
    r.target.instantiate? (bindings d key) = some (line.next key) := by
  obtain ⟨_, hfound, harity⟩ := meaning_eq_defined.1 hmeaning
  have hnodup := (wellFormed_of_assembled h).params_nodup d (mem_of_definition? hfound).1
  rw [hrenders.target_eq, ← hdef.params_eq]
  exact RawRef.instantiate?_relabel hnodup hline harity line.target

/-- Where a rule leads from a state, a line of the program does. -/
theorem Assembled.exists_line (h : Assembled statements p o) {key next : Key} {d : Definition}
    (hmeaning : p.meaning key = .defined d) {r : Rule} (hr : r ∈ d.rules)
    (hnext : r.target.instantiate? (bindings d key) = some next) :
    ∃ line ∈ Statement.ruleLines statements, next = line.next key := by
  obtain ⟨e, hdef, hlines, harity⟩ := h.exists_defines hmeaning
  obtain ⟨line, hline, hrenders⟩ := exists_of_mem_right hdef.rules hr
  have htarget := h.instantiate?_of_renders hmeaning hdef hrenders (harity line hline)
  rw [hlines] at hline
  exact ⟨line, (Statement.mem_linesOf.1 hline).1, Option.some.inj (hnext.symm.trans htarget)⟩

/-- The row of a state holds what the lines for it do, in source order. -/
theorem Assembled.row_eq_lines (h : Assembled statements p o) {key : Key} {row : Row}
    (hresolved : (p.meaning key).isResolved = true) (hrow : p.row key = .ok row) :
    row = (Statement.linesOf statements key.head).map fun line =>
      (line.read.val, line.transition key) := by
  cases isResolved_iff.1 hresolved with
  | inl hfinish =>
    have hmeaning : p.meaning key = .finish := meaning_eq_finish.2 hfinish
    rw [h.linesOf_finish hfinish]
    simpa [Program.row, hmeaning, eq_comm] using hrow
  | inr hdefined =>
    obtain ⟨d, hmeaning⟩ := hdefined
    obtain ⟨e, hdef, hlines, harity⟩ := h.exists_defines hmeaning
    have hentries := (row_eq_ok_of_defined hmeaning).1 hrow
    rw [← hlines]
    refine eq_map_of_forall₂ hdef.rules hentries fun line r entry hline hrenders hentry => ?_
    have htarget := h.instantiate?_of_renders hmeaning hdef hrenders (harity line hline)
    rw [entryOf?, htarget, hrenders.read_eq, hrenders.write_eq, hrenders.move_eq,
      hrenders.loc_eq] at hentry
    exact (Option.some.inj hentry).symm

/-- The lines for a state read different symbols. -/
theorem Assembled.reads_nodup (h : Assembled statements p o) {key : Key}
    (hresolved : (p.meaning key).isResolved = true) :
    ((Statement.linesOf statements key.head).map fun line => line.read.val).Nodup := by
  cases isResolved_iff.1 hresolved with
  | inl hfinish => simp [h.linesOf_finish hfinish]
  | inr hdefined =>
    obtain ⟨d, hmeaning⟩ := hdefined
    obtain ⟨e, hdef, hlines, _⟩ := h.exists_defines hmeaning
    have hsame := map_eq_map_of_forall₂ (f := fun l : RuleLine => l.read.val) (g := Rule.read)
      hdef.rules fun l r hrenders => hrenders.read_eq.symm
    rw [← hlines, hsame]
    exact hdef.reads_nodup

/-- There is at most one line for a state and a symbol, and it has a parameter for each argument. -/
theorem Assembled.eq_of_applies (h : Assembled statements p o) {key : Key}
    (hresolved : (p.meaning key).isResolved = true) {symbol : Symbol} {line other : RuleLine}
    (hline : line ∈ Statement.ruleLines statements) (happlies : line.applies key symbol = true)
    (hother : other ∈ Statement.ruleLines statements)
    (hotherApplies : other.applies key symbol = true) :
    line = other ∧ line.params.length = key.args.length := by
  obtain ⟨hhead, hread⟩ := RuleLine.applies_iff.1 happlies
  obtain ⟨hotherHead, hotherRead⟩ := RuleLine.applies_iff.1 hotherApplies
  have hmem := Statement.mem_linesOf.2 ⟨hline, hhead⟩
  have hotherMem := Statement.mem_linesOf.2 ⟨hother, hotherHead⟩
  refine ⟨List.inj_on_of_nodup_map (h.reads_nodup hresolved) hmem hotherMem
    (hread.trans hotherRead.symm), ?_⟩
  cases isResolved_iff.1 hresolved with
  | inl hfinish => simp [h.linesOf_finish hfinish] at hmem
  | inr hdefined =>
    obtain ⟨d, hmeaning⟩ := hdefined
    obtain ⟨_, _, harity⟩ := meaning_eq_defined.1 hmeaning
    obtain ⟨e, _, hlines, hparams⟩ := h.exists_defines hmeaning
    exact (hparams line (hlines ▸ hmem)).trans harity

/-- The table does in a state what the lines do. -/
theorem Assembled.lookup_eq (h : Assembled statements p o) {t : Table} (ht : p.Expanded t)
    {key : Key} (hkey : key ∈ t.keys) (symbol : Symbol) :
    t.lookup key symbol = ((Statement.ruleLines statements).find? fun line =>
      line.applies key symbol).map fun line => line.transition key := by
  have hrow := h.row_eq_lines (ht.resolved key hkey) (ht.row_eq_ok hkey)
  rw [Table.lookup, hrow, lookup_map_eq_find?, Statement.linesOf, List.find?_filter]
  simp [RuleLine.applies]

theorem Assembled.startKey_iff (h : Assembled statements p o) {key : Key} :
    p.startKey = .ok key ↔ LineRun.start? statements = some key := by
  obtain ⟨target, loc, hstarts, hstart⟩ := h.start
  have hbind := @RawRef.instantiate?_relabel [] [] [] List.nodup_nil rfl rfl target
  rw [startKey_eq_ok, hstart, RawRef.closed_eq_relabel, LineRun.start?, hstarts]
  exact hbind ▸ Iff.rfl

theorem Assembled.start?_eq (h : Assembled statements p o) {t : Table} (ht : p.Expanded t) :
    LineRun.start? statements = some t.start :=
  h.startKey_iff.1 ht.start_eq

end Program

end GenericTuring
