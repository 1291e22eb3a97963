import GenericTuring.Proofs.LineStates
import GenericTuring.Proofs.Validity
import Mathlib

/-!
The order of statements and the spelling of parameters do not matter. A line with its parameters spelt
anew is like the old one in all that counts; and lists of statements with alike lines, in whatever order,
are valid together, have the same states, and have the same tables but for order and places.
-/

namespace GenericTuring

namespace RuleLine

/-- The parameters of the line can be spelt anew: different ones differently, and none like the accepting
state or like another name in the target. -/
structure CanSpell (line : RuleLine) (spell : String → String) : Prop where
  finish_notMem : finishName ∉ line.params
  inj : ∀ x ∈ line.params, ∀ y ∈ line.params, spell x = spell y → x = y
  ne_finish : ∀ x ∈ line.params, spell x ≠ finishName
  fresh : ∀ x ∈ line.params, ∀ name ∈ line.target.names.atoms, name ∉ line.params → spell x ≠ name

def respell (line : RuleLine) (spell : String → String) (name : String) : String :=
  if name ∈ line.params then spell name else name

structure Respells (line other : RuleLine) (spell : String → String) : Prop where
  head_eq : other.head = line.head
  params_eq : other.params = line.params.map spell
  read_eq : other.read.val = line.read.val
  write_eq : other.write.val = line.write.val
  target_eq : other.target.names = line.target.names.map (line.respell spell)
  move_eq : other.move = line.move
  spelling : (∀ x ∈ line.params, spell x = x) ∨ line.CanSpell spell

structure Alike (line other : RuleLine) : Prop where
  head_eq : other.head = line.head
  arity_eq : other.params.length = line.params.length
  read_eq : other.read.val = line.read.val
  write_eq : other.write.val = line.write.val
  move_eq : other.move = line.move
  next_eq : ∀ key : Key, line.params.length = key.args.length → other.next key = line.next key
  headAllowed_iff : other.HeadAllowed ↔ line.HeadAllowed
  targetAllowed_iff : ∀ heads, other.TargetAllowed heads ↔ line.TargetAllowed heads

variable {line other : RuleLine} {spell : String → String}

theorem Alike.symm (h : line.Alike other) : other.Alike line :=
  ⟨h.head_eq.symm, h.arity_eq.symm, h.read_eq.symm, h.write_eq.symm, h.move_eq.symm,
    fun key hkey => (h.next_eq key (h.arity_eq.symm.trans hkey)).symm, h.headAllowed_iff.symm,
    fun heads => (h.targetAllowed_iff heads).symm⟩

theorem Alike.fits_iff (h : line.Alike other) {key : Key} : other.Fits key ↔ line.Fits key := by
  rw [Fits, Fits, h.head_eq, h.arity_eq]

theorem Alike.applies_eq (h : line.Alike other) (key : Key) (symbol : Symbol) :
    other.applies key symbol = line.applies key symbol := by
  rw [applies, applies, h.head_eq, h.read_eq]

namespace Respells

theorem inj (h : line.Respells other spell) :
    ∀ x ∈ line.params, ∀ y ∈ line.params, spell x = spell y → x = y := by
  cases h.spelling with
  | inl hsame =>
    intro x hx y hy heq
    rwa [hsame x hx, hsame y hy] at heq
  | inr hnew => exact hnew.inj

theorem fresh (h : line.Respells other spell) {x name : String} (hx : x ∈ line.params)
    (hname : name ∈ line.target.names.atoms) (hnot : name ∉ line.params) : spell x ≠ name := by
  cases h.spelling with
  | inl hsame =>
    rw [hsame x hx]
    exact fun heq => hnot (heq ▸ hx)
  | inr hnew => exact hnew.fresh x hx name hname hnot

theorem notMem_params (h : line.Respells other spell) {name : String}
    (hname : name ∈ line.target.names.atoms) (hnot : name ∉ line.params) : name ∉ other.params := by
  rw [h.params_eq]
  intro hmem
  obtain ⟨x, hx, heq⟩ := List.mem_map.1 hmem
  exact h.fresh hx hname hnot heq

theorem mem_params_iff (h : line.Respells other spell) {name : String}
    (hname : name ∈ line.target.names.atoms) :
    line.respell spell name ∈ other.params ↔ name ∈ line.params := by
  by_cases hmem : name ∈ line.params
  · simp only [respell, hmem, if_true, iff_true, h.params_eq]
    exact List.mem_map_of_mem hmem
  · simp only [respell, hmem, if_false, iff_false]
    exact h.notMem_params hname hmem

theorem headAllowed_iff (h : line.Respells other spell) :
    other.HeadAllowed ↔ line.HeadAllowed := by
  have hnodup : other.params.Nodup ↔ line.params.Nodup := by
    rw [h.params_eq]
    exact ⟨List.Nodup.of_map spell, List.Nodup.map_on h.inj⟩
  have hfinish : finishName ∉ other.params ↔ finishName ∉ line.params := by
    rw [h.params_eq]
    cases h.spelling with
    | inl hsame => rw [List.map_congr_left hsame, List.map_id']
    | inr hnew =>
      refine iff_of_true (fun hmem => ?_) hnew.finish_notMem
      obtain ⟨x, hx, heq⟩ := List.mem_map.1 hmem
      exact hnew.ne_finish x hx heq
  constructor
  · intro hother
    exact ⟨h.head_eq ▸ hother.head_ne, hfinish.1 hother.finish_notMem, hnodup.1 hother.nodup⟩
  · intro hline
    exact ⟨h.head_eq ▸ hline.head_ne, hfinish.2 hline.finish_notMem, hnodup.2 hline.nodup⟩

theorem known_iff (h : line.Respells other spell) {ref : Key}
    (href : ref ∈ line.target.names.subterms) (heads : List String) :
    Key.Known other.params heads (ref.map (line.respell spell)) ↔
      Key.Known line.params heads ref := by
  have hname : ref.head ∈ line.target.names.atoms :=
    Term.mem_atoms_of_mem_subterms href ref.head_mem_atoms
  have hargs : (ref.map (line.respell spell)).args = [] ↔ ref.args = [] := by
    rw [Term.args_map, List.map_eq_nil_iff]
  have hnil : other.params = [] ↔ line.params = [] := by rw [h.params_eq, List.map_eq_nil_iff]
  have hmem := h.mem_params_iff hname
  have hknown : line.respell spell ref.head ∈ other.params ∨ line.respell spell ref.head ∈ heads ∨
      line.respell spell ref.head = finishName ↔
      ref.head ∈ line.params ∨ ref.head ∈ heads ∨ ref.head = finishName := by
    rw [hmem]
    by_cases hparam : ref.head ∈ line.params
    · simp [hparam]
    · simp [respell, hparam]
  rw [Key.known_iff, Key.known_iff, Term.head_map, hknown, hmem, ne_eq, ne_eq, hargs, hnil]

theorem targetAllowed_iff (h : line.Respells other spell) (heads : List String) :
    other.TargetAllowed heads ↔ line.TargetAllowed heads := by
  rw [TargetAllowed, h.target_eq, Term.subterms_map, List.forall_mem_map]
  exact forall₂_congr fun ref href => h.known_iff href heads

theorem standsFor_eq (h : line.Respells other spell) {args : List Key}
    (hargs : line.params.length = args.length) {name : String}
    (hname : name ∈ line.target.names.atoms) :
    other.standsFor args (line.respell spell name) = line.standsFor args name := by
  by_cases hmem : name ∈ line.params
  · obtain ⟨value, hvalue⟩ := exists_lookup_zip hargs hmem
    simp only [standsFor, respell, hmem, if_true, h.params_eq, lookup_zip_map h.inj hmem, hvalue,
      Option.getD_some]
  · simp only [standsFor, respell, hmem, if_false, lookup_zip_eq_none hmem,
      lookup_zip_eq_none (h.notMem_params hname hmem)]

theorem next_eq (h : line.Respells other spell) (key : Key)
    (hkey : line.params.length = key.args.length) : other.next key = line.next key := by
  have hbind : ∀ l : RuleLine, l.next key = l.target.names.bind (l.standsFor key.args) :=
    fun l => (Term.bind_map Located.val (l.standsFor key.args) l.target).symm
  rw [hbind, hbind, h.target_eq, Term.bind_map]
  exact Term.bind_congr fun name hname => h.standsFor_eq hkey hname

theorem alike (h : line.Respells other spell) : line.Alike other :=
  ⟨h.head_eq, by rw [h.params_eq, List.length_map], h.read_eq, h.write_eq, h.move_eq, h.next_eq,
    h.headAllowed_iff, h.targetAllowed_iff⟩

end Respells

end RuleLine

theorem Table.lookup_eq_none {t : Table} {key : Key} (hkey : key ∉ t.keys) (symbol : Symbol) :
    t.lookup key symbol = none := by
  have hrow : t.rows.lookup key = none := by
    refine List.lookup_eq_none_iff.2 fun entry hentry => ?_
    have hne : key ≠ entry.1 := fun heq => hkey (heq ▸ List.mem_map_of_mem hentry)
    simpa using hne
  rw [Table.lookup, Table.row, hrow]
  rfl

def Transition.action (tr : Transition) : Symbol × Key × Move := (tr.write, tr.target, tr.move)

namespace Statement

inductive Respelt : Statement → Statement → Prop
  | start {target other : RawRef} {loc place : Loc} (hnames : other.names = target.names) :
      Respelt (.start target loc) (.start other place)
  | rule {line other : RuleLine} {spell : String → String} (hline : line.Respells other spell) :
      Respelt (.rule line) (.rule other)

def Rearranged (statements others : List Statement) : Prop :=
  ∃ middle, statements.Perm middle ∧ List.Forall₂ Respelt middle others

structure Agree (statements others : List Statement) : Prop where
  starts : ((starts statements).map fun s => s.1.names).Perm ((starts others).map fun s => s.1.names)
  reads : ((ruleLines statements).map fun line => (line.head, line.read.val)).Perm
    ((ruleLines others).map fun line => (line.head, line.read.val))
  left : ∀ line ∈ ruleLines statements, ∃ other ∈ ruleLines others, line.Alike other
  right : ∀ other ∈ ruleLines others, ∃ line ∈ ruleLines statements, line.Alike other

structure Expandable (statements : List Statement) : Prop where
  valid : Valid statements
  finite : {key | Reaches statements key}.Finite
  stands : ∀ key, Reaches statements key → Stands statements key

variable {statements others : List Statement} {key : Key}

theorem starts_eq_of_respelt (h : List.Forall₂ Respelt statements others) :
    ((Statement.starts statements).map fun s => s.1.names) =
      (Statement.starts others).map fun s => s.1.names := by
  induction h with
  | nil => rfl
  | cons hs _ ih =>
    cases hs with
    | start hnames => exact congrArg₂ List.cons hnames.symm ih
    | rule _ => exact ih

theorem alike_of_respelt (h : List.Forall₂ Respelt statements others) :
    List.Forall₂ RuleLine.Alike (ruleLines statements) (ruleLines others) := by
  induction h with
  | nil => exact .nil
  | cons hs _ ih =>
    cases hs with
    | start _ => exact ih
    | rule hline => exact .cons hline.alike ih

theorem Rearranged.agree (h : Rearranged statements others) : Agree statements others := by
  obtain ⟨middle, hperm, hrespelt⟩ := h
  have halike := alike_of_respelt hrespelt
  have hlines : (ruleLines statements).Perm (ruleLines middle) := hperm.filterMap _
  refine ⟨?_, ?_, ?_, ?_⟩
  · rw [← starts_eq_of_respelt hrespelt]
    exact (hperm.filterMap start?).map _
  · have hreads : ((ruleLines middle).map fun line => (line.head, line.read.val)) =
        (ruleLines others).map fun line => (line.head, line.read.val) :=
      map_eq_map_of_forall₂ halike fun line other hline => by rw [hline.head_eq, hline.read_eq]
    rw [← hreads]
    exact hlines.map _
  · intro line hline
    exact exists_of_mem_left halike (hlines.mem_iff.1 hline)
  · intro other hother
    obtain ⟨line, hline, hlike⟩ := exists_of_mem_right halike hother
    exact ⟨line, hlines.mem_iff.2 hline, hlike⟩

namespace Agree

theorem symm (h : Agree statements others) : Agree others statements := by
  refine ⟨h.starts.symm, h.reads.symm, fun other hother => ?_, fun line hline => ?_⟩
  · obtain ⟨line, hline, hlike⟩ := h.right other hother
    exact ⟨line, hline, hlike.symm⟩
  · obtain ⟨other, hother, hlike⟩ := h.left line hline
    exact ⟨other, hother, hlike.symm⟩

theorem mem_heads (h : Agree statements others) {name : String} (hname : name ∈ heads statements) :
    name ∈ heads others := by
  obtain ⟨line, hline, rfl⟩ := List.mem_map.1 hname
  obtain ⟨other, hother, hlike⟩ := h.left line hline
  exact List.mem_map.2 ⟨other, hother, hlike.head_eq⟩

theorem valid (h : Agree statements others) (hvalid : Valid statements) : Valid others := by
  refine ⟨?_, ?_, ?_, h.reads.nodup_iff.1 hvalid.reads_nodup, ?_⟩
  · simpa [hvalid.start] using h.starts.length_eq.symm
  · intro other hother
    obtain ⟨line, hline, hlike⟩ := h.right other hother
    exact hlike.headAllowed_iff.2 (hvalid.allowed line hline)
  · intro other hother other' hother' heq
    obtain ⟨line, hline, hlike⟩ := h.right other hother
    obtain ⟨line', hline', hlike'⟩ := h.right other' hother'
    rw [hlike.arity_eq, hlike'.arity_eq]
    rw [hlike.head_eq, hlike'.head_eq] at heq
    exact hvalid.arity_eq line hline line' hline' heq
  · intro other hother
    obtain ⟨line, hline, hlike⟩ := h.right other hother
    exact (hlike.targetAllowed_iff _).2 ((hvalid.target_allowed line hline).mono fun _ => h.mem_heads)

theorem start?_eq (h : Agree statements others) (hvalid : Valid statements) :
    LineRun.start? others = LineRun.start? statements := by
  have hstart : ∀ ss : List Statement,
      LineRun.start? ss = ((Statement.starts ss).map fun s => s.1.names).head? := by
    intro ss
    rw [List.head?_map]
    rfl
  obtain ⟨directive, hdirective⟩ := List.length_eq_one_iff.1 hvalid.start
  have hperm := h.starts
  rw [hdirective, List.map_singleton, List.singleton_perm] at hperm
  rw [hstart, hstart, ← hperm, hdirective]
  rfl

theorem stands (h : Agree statements others) (hkey : Stands statements key) : Stands others key := by
  refine hkey.imp_right fun hline => ?_
  obtain ⟨line, hline, hfits⟩ := hline
  obtain ⟨other, hother, hlike⟩ := h.left line hline
  exact ⟨other, hother, hlike.fits_iff.2 hfits⟩

theorem reaches (h : Agree statements others) (hvalid : Valid statements)
    (hkey : Reaches statements key) : Reaches others key := by
  induction hkey with
  | start hstart => exact .start ((h.start?_eq hvalid).trans hstart)
  | argument _ hstands harg ih => exact .argument ih (h.stands hstands) harg
  | target _ hline hfits ih =>
    obtain ⟨other, hother, hlike⟩ := h.left _ hline
    rw [← hlike.next_eq _ hfits.2]
    exact .target ih hother (hlike.fits_iff.2 hfits)

theorem expandable (h : Agree statements others) (hexp : Expandable statements) :
    Expandable others := by
  have hvalid := h.valid hexp.valid
  have hback : ∀ key, Reaches others key → Reaches statements key :=
    fun key => h.symm.reaches hvalid
  exact ⟨hvalid, hexp.finite.subset hback, fun key hkey => h.stands (hexp.stands key (hback key hkey))⟩

end Agree

end Statement

namespace Program

open Statement

variable {p p' : Program} {statements others : List Statement} {o o' : Outline} {t t' : Table}

/-- Statements have a table exactly if they are expandable. -/
theorem exists_table_iff {source file : String} :
    (∃ p t, assemble source file statements = .ok p ∧ p.expand = .ok t) ↔ Expandable statements := by
  constructor
  · intro h
    obtain ⟨p, t, hp, ht⟩ := h
    obtain ⟨o, ho⟩ := assembled_of_assemble hp
    obtain ⟨hfinite, hstands⟩ := (exists_expand_iff (wellFormed_of_assembled ho)).1 ⟨t, ht⟩
    simp only [ho.reaches_iff, ho.stands_iff] at hfinite hstands
    exact ⟨exists_assemble_iff.1 ⟨p, hp⟩, hfinite, hstands⟩
  · intro h
    obtain ⟨p, hp⟩ := exists_assemble_iff.2 h.valid
    obtain ⟨o, ho⟩ := assembled_of_assemble hp
    obtain ⟨t, ht⟩ := (exists_expand_iff (wellFormed_of_assembled ho)).2 (by
      simp only [ho.reaches_iff, ho.stands_iff]
      exact ⟨h.finite, h.stands⟩)
    exact ⟨p, t, hp, ht⟩

theorem lookup_agree (h : Assembled statements p o) (h' : Assembled others p' o')
    (hagree : Agree statements others) (ht : p.Expanded t) (ht' : p'.Expanded t') {key : Key}
    (hkey : key ∈ t.keys) (hkey' : key ∈ t'.keys) (symbol : Symbol) :
    (t'.lookup key symbol).map Transition.action = (t.lookup key symbol).map Transition.action := by
  rw [h.lookup_eq ht hkey, h'.lookup_eq ht' hkey']
  cases hfind : (ruleLines statements).find? fun line => line.applies key symbol with
  | none =>
    have hnone : ((ruleLines others).find? fun line => line.applies key symbol) = none := by
      refine List.find?_eq_none.2 fun other hother => ?_
      obtain ⟨line, hline, hlike⟩ := hagree.right other hother
      rw [hlike.applies_eq]
      exact List.find?_eq_none.1 hfind line hline
    rw [hnone]
  | some line =>
    have hline := List.mem_of_find?_eq_some hfind
    have happlies := List.find?_some hfind
    have harity := (h.eq_of_applies (ht.resolved key hkey) hline happlies hline happlies).2
    obtain ⟨other, hother, hlike⟩ := hagree.left line hline
    have hother' := (hlike.applies_eq key symbol).trans happlies
    -- no other line is for the state and the symbol, so the search finds this one
    have hfound : ((ruleLines others).find? fun line => line.applies key symbol) = some other := by
      have hsome : ((ruleLines others).find? fun line => line.applies key symbol).isSome = true :=
        List.find?_isSome.2 ⟨other, hother, hother'⟩
      obtain ⟨found, hfound⟩ := Option.isSome_iff_exists.1 hsome
      have hfits : found.applies key symbol = true := by simpa using List.find?_some hfound
      obtain ⟨rfl, _⟩ := h'.eq_of_applies (ht'.resolved key hkey')
        (List.mem_of_find?_eq_some hfound) hfits hother hother'
      exact hfound
    rw [hfound]
    simp [Transition.action, RuleLine.transition, hlike.write_eq, hlike.next_eq key harity,
      hlike.move_eq]

/-- Take any statements, and the same in another order, each line with places of its own and its
parameters spelt anew or left alone: the first have a table exactly if the others do, and then the
tables start in the same state, have the same states, and lead from each of them with each symbol to the
same, places apart. -/
theorem tables_agree_of_rearranged (h : Rearranged statements others)
    (source file source' file' : String) :
    ((∃ p t, assemble source file statements = .ok p ∧ p.expand = .ok t) ↔
      ∃ p t, assemble source' file' others = .ok p ∧ p.expand = .ok t) ∧
    ∀ p t p' t', assemble source file statements = .ok p → p.expand = .ok t →
      assemble source' file' others = .ok p' → p'.expand = .ok t' →
      t'.start = t.start ∧ t'.keys.Perm t.keys ∧ ∀ key symbol,
        (t'.lookup key symbol).map Transition.action =
          (t.lookup key symbol).map Transition.action := by
  have hagree := h.agree
  constructor
  · rw [exists_table_iff, exists_table_iff]
    exact ⟨hagree.expandable, hagree.symm.expandable⟩
  · intro p t p' t' hp hexpand hp' hexpand'
    obtain ⟨o, ho⟩ := assembled_of_assemble hp
    obtain ⟨o', ho'⟩ := assembled_of_assemble hp'
    have ht := expanded_of_expand (wellFormed_of_assembled ho) hexpand
    have ht' := expanded_of_expand (wellFormed_of_assembled ho') hexpand'
    have hvalid := exists_assemble_iff.1 ⟨p, hp⟩
    have hkeys : ∀ key, key ∈ t'.keys ↔ key ∈ t.keys := by
      intro key
      rw [ht'.mem_keys, ht.mem_keys, ho'.reaches_iff, ho.reaches_iff]
      exact ⟨hagree.symm.reaches (hagree.valid hvalid), hagree.reaches hvalid⟩
    refine ⟨?_, (List.perm_ext_iff_of_nodup ht'.nodup ht.nodup).2 hkeys, fun key symbol => ?_⟩
    · have hstart := hagree.start?_eq hvalid
      rw [ho.start?_eq ht, ho'.start?_eq ht'] at hstart
      exact Option.some.inj hstart
    · by_cases hkey : key ∈ t.keys
      · exact lookup_agree ho ho' hagree ht ht' hkey ((hkeys key).2 hkey) symbol
      · rw [Table.lookup_eq_none hkey, Table.lookup_eq_none fun hmem => hkey ((hkeys key).1 hmem)]

def swapLine (x y : String) (loc : Loc) : RuleLine :=
  ⟨"swap", [x, y], ⟨.mark "0", loc⟩, ⟨.mark "1", loc⟩,
    .app (.app (.atom ⟨"swap", loc⟩) (.atom ⟨y, loc⟩)) (.atom ⟨x, loc⟩), .next, loc⟩

def yieldLine (x y : String) (loc : Loc) : RuleLine :=
  ⟨"swap", [x, y], ⟨.mark "1", loc⟩, ⟨.blank, loc⟩, .atom ⟨y, loc⟩, .prev, loc⟩

def swapStart (loc : Loc) : Statement :=
  .start (.app (.app (.atom ⟨"swap", loc⟩) (.atom ⟨"stop", loc⟩)) (.atom ⟨"finish", loc⟩)) loc

def stopLine (loc : Loc) : RuleLine :=
  ⟨"stop", [], ⟨.blank, loc⟩, ⟨.blank, loc⟩, .atom ⟨"finish", loc⟩, .current, loc⟩

def swapping : List Statement :=
  [swapStart ⟨1, 1⟩, .rule (stopLine ⟨2, 1⟩), .rule (swapLine "x" "y" ⟨3, 1⟩),
    .rule (yieldLine "a" "b" ⟨4, 1⟩)]

def swappingBack : List Statement :=
  -- The same from back to front, the parameters of one line called after each other.
  [.rule (yieldLine "a" "b" ⟨1, 1⟩), .rule (swapLine "y" "x" ⟨2, 1⟩), .rule (stopLine ⟨3, 1⟩),
    swapStart ⟨4, 1⟩]

theorem rearranged_swapping : Rearranged swapping swappingBack := by
  have hyield : (yieldLine "a" "b" ⟨4, 1⟩).Respells (yieldLine "a" "b" ⟨1, 1⟩) id :=
    ⟨rfl, rfl, rfl, rfl, by simp [yieldLine, RawRef.names, Term.map, Term.bind, RuleLine.respell],
      rfl, .inl fun _ _ => rfl⟩
  have hstop : (stopLine ⟨2, 1⟩).Respells (stopLine ⟨3, 1⟩) id :=
    ⟨rfl, rfl, rfl, rfl, by simp [stopLine, RawRef.names, Term.map, Term.bind, RuleLine.respell],
      rfl, .inl fun _ _ => rfl⟩
  have hswap : (swapLine "x" "y" ⟨3, 1⟩).Respells (swapLine "y" "x" ⟨2, 1⟩)
      fun name => if name = "x" then "y" else "x" := by
    refine ⟨rfl, by simp [swapLine], rfl, rfl,
      by simp [swapLine, RawRef.names, Term.map, Term.bind, RuleLine.respell], rfl,
      .inr ⟨?_, ?_, ?_, ?_⟩⟩
    · simp [swapLine, finishName]
    · simp [swapLine]
    · simp [swapLine, finishName]
    · simp [swapLine, RawRef.names, Term.map, Term.bind, Term.atoms]
  exact ⟨swapping.reverse, (List.reverse_perm _).symm,
    .cons (.rule hyield) (.cons (.rule hswap) (.cons (.rule hstop) (.cons (.start rfl) .nil)))⟩

set_option maxRecDepth 20000 in
theorem tables_agree_of_rearranged_swapping : Rearranged swapping swappingBack ∧ ∃ p t p' t',
    assemble "" "swap" swapping = .ok p ∧ p.expand = .ok t ∧
    assemble "" "back" swappingBack = .ok p' ∧ p'.expand = .ok t' ∧ t.keys.length = 4 ∧
    t'.start = t.start ∧ t'.keys.Perm t.keys ∧
    p.definitions.map Definition.params = [[], ["x", "y"]] ∧
    p'.definitions.map Definition.params = [["a", "b"], []] := by
  obtain ⟨p, hp, hany⟩ := exists_ok_of_any (x := assemble "" "swap" swapping)
    (t := fun p => p.expand.toOption.any (fun t => t.keys.length == 4) &&
      p.definitions.map Definition.params == [[], ["x", "y"]]) (by decide_cbv)
  obtain ⟨p', hp', hparams'⟩ := exists_ok_of_any (x := assemble "" "back" swappingBack)
    (t := fun p => p.definitions.map Definition.params == [["a", "b"], []]) (by decide_cbv)
  obtain ⟨hexpand, hparams⟩ := Bool.and_eq_true_iff.1 hany
  obtain ⟨t, ht, hlength⟩ := exists_ok_of_any hexpand
  obtain ⟨hiff, hsame⟩ :=
    tables_agree_of_rearranged rearranged_swapping "" "swap" "" "back"
  obtain ⟨q, t', hq, ht'⟩ := hiff.1 ⟨p, t, hp, ht⟩
  obtain rfl : q = p' := Except.ok.inj (hq.symm.trans hp')
  obtain ⟨hstart, hkeys, _⟩ := hsame p t q t' hp ht hp' ht'
  exact ⟨rearranged_swapping, p, t, q, t', hp, ht, hp', ht', by simpa using hlength, hstart, hkeys,
    by simpa using hparams, by simpa using hparams'⟩

end Program

end GenericTuring
