import GenericTuring.Debugger
import GenericTuring.Proofs.Places
import GenericTuring.Proofs.Texts
import Mathlib

/-!
The line that is shown for a rule. Places count line feeds, and the lines that are shown end at other
characters too; the two agree up to a rule exactly if every line end before it is a line feed or the
carriage return of one. Otherwise an earlier line is shown than the one the rule is on.
-/

namespace GenericTuring

namespace Text

def breaks : List Char → Nat
  | [] => 0
  | '\r' :: '\n' :: rest => breaks rest + 1
  | c :: rest => if isLineEnd c then breaks rest + 1 else breaks rest

def PlainEnds (cs : List Char) : Prop :=
  ∀ c rest, c :: rest <:+ cs → isLineEnd c = true → c = '\n' ∨ c = '\r' ∧ rest.head? = some '\n'

def HasAt (line word : String) (column : Nat) : Prop :=
  ∃ before after, line.toList = before ++ word.toList ++ after ∧ before.length + 1 = column

def unended (cs : List Char) : List Char := cs.rtakeWhile fun c => !isLineEnd c

theorem plainEnds_cons {c : Char} {rest : List Char} :
    PlainEnds (c :: rest) ↔
      (isLineEnd c = true → c = '\n' ∨ c = '\r' ∧ rest.head? = some '\n') ∧ PlainEnds rest := by
  constructor
  · intro h
    exact ⟨h c rest List.suffix_rfl, fun d more hmore => h d more (hmore.trans (List.suffix_cons c rest))⟩
  · rintro ⟨hfirst, hrest⟩ d more hmore
    cases List.suffix_cons_iff.1 hmore with
    | inl heq =>
      obtain ⟨rfl, rfl⟩ := List.cons.inj heq
      exact hfirst
    | inr hlater => exact hrest d more hlater

/-- Line feeds are among the line ends, and there are others unless all are plain. -/
theorem count_le_breaks (cs : List Char) :
    cs.count '\n' ≤ breaks cs ∧ (cs.count '\n' = breaks cs ↔ PlainEnds cs) := by
  fun_induction breaks cs with
  | case1 => simp [PlainEnds]
  | case2 rest ih =>
    have hcount : ('\r' :: '\n' :: rest).count '\n' = rest.count '\n' + 1 := by simp
    simp [hcount, plainEnds_cons, ih]
  | case3 c rest hnot hend ih =>
    by_cases hc : c = '\n'
    · simp [hc, plainEnds_cons, ih]
    · have hcount : (c :: rest).count '\n' = rest.count '\n' := by simp [hc]
      have hends : ¬ PlainEnds (c :: rest) := by
        intro hplain
        cases (plainEnds_cons.1 hplain).1 hend with
        | inl hfeed => exact hc hfeed
        | inr hreturn =>
          obtain ⟨more, hmore⟩ := List.head?_eq_some_iff.1 hreturn.2
          exact hnot more hreturn.1 hmore
      rw [hcount]
      refine ⟨by omega, fun heq => by omega, fun hplain => absurd hplain hends⟩
  | case4 c rest hnot hend ih =>
    have hc : c ≠ '\n' := by
      rintro rfl
      exact hend rfl
    have hcount : (c :: rest).count '\n' = rest.count '\n' := by simp [hc]
    simp [hcount, plainEnds_cons, hend, ih]

theorem lines_cons_end {c : Char} (hc : isLineEnd c = true) {rest : List Char}
    (hrest : c = '\r' → rest.head? ≠ some '\n') : lines (c :: rest) = [] :: lines rest := by
  rw [lines.eq_def]
  split
  · simp_all
  · simp_all
  · rename_i heq
    obtain ⟨rfl, rfl⟩ := List.cons.inj heq
    rw [if_pos hc]

theorem lines_ne_nil {cs : List Char} (h : cs ≠ []) : lines cs ≠ [] := by
  fun_cases lines cs <;> simp_all

/-- The first line goes up to the first line end. -/
theorem exists_lines_eq {cs : List Char} (h : cs ≠ []) :
    ∃ more, lines cs = cs.takeWhile (fun c => !isLineEnd c) :: more := by
  have hfirst : ∀ cs, (lines cs).headD [] = cs.takeWhile fun c => !isLineEnd c := by
    intro cs
    fun_induction lines cs with
    | case1 => rfl
    | case2 rest _ => rfl
    | case3 c rest _ hend _ => simp [hend]
    | case4 c rest _ hend hnil ih =>
      rw [hnil] at ih
      simp [hend, ← ih]
    | case5 c rest _ hend first more hlines ih =>
      rw [hlines] at ih
      simp [hend, ← ih]
  obtain ⟨first, more, hlines⟩ := List.exists_cons_of_ne_nil (lines_ne_nil h)
  have heq := hfirst cs
  rw [hlines] at heq
  exact ⟨more, by rw [hlines, ← heq]; rfl⟩

theorem breaks_eq_zero_iff {cs : List Char} : breaks cs = 0 ↔ ∀ c ∈ cs, isLineEnd c = false := by
  fun_induction breaks cs with
  | case1 => simp
  | case2 rest _ => simp [isLineEnd]
  | case3 c rest _ hend _ => simp [hend]
  | case4 c rest _ hend ih => simp [hend, ih]

theorem unended_of_breaks_eq_zero {cs : List Char} (h : breaks cs = 0) : unended cs = cs :=
  List.rtakeWhile_eq_self_iff.2 fun c hc => by simp [breaks_eq_zero_iff.1 h c hc]

/-- A character counts for the end of a text only if no line end is in its way. -/
theorem unended_cons {c : Char} {cs : List Char} (h : isLineEnd c = true ∨ breaks cs ≠ 0) :
    unended (c :: cs) = unended cs := by
  rw [unended, List.rtakeWhile, List.reverse_cons, List.takeWhile_append]
  split
  · rename_i hlength
    have hself : cs.reverse.takeWhile (fun c => !isLineEnd c) = cs.reverse :=
      (List.takeWhile_prefix _).eq_of_length hlength
    have hplain : ∀ d ∈ cs, isLineEnd d = false := by
      simpa using List.takeWhile_eq_self_iff.1 hself
    have hend : isLineEnd c = true := h.resolve_right fun hne => hne (breaks_eq_zero_iff.2 hplain)
    rw [unended_of_breaks_eq_zero (breaks_eq_zero_iff.2 hplain)]
    simp [hend]
  · rfl

/-- After some characters comes the line whose number is that of the line ends before it. -/
theorem lines_append_cons (before : List Char) {c : Char} (hc : isLineEnd c = false)
    (rest : List Char) : (lines (before ++ c :: rest))[breaks before]? =
      some (unended before ++ (c :: rest).takeWhile fun c => !isLineEnd c) := by
  fun_induction breaks before with
  | case1 =>
    obtain ⟨more, hmore⟩ := exists_lines_eq (List.cons_ne_nil c rest)
    simp [hmore, unended]
  | case2 before ih =>
    have hlines : lines ('\r' :: '\n' :: before ++ c :: rest) = [] :: lines (before ++ c :: rest) := rfl
    rw [hlines, List.getElem?_cons_succ, ih, unended_cons (.inl rfl), unended_cons (.inl rfl)]
  | case3 d before hnot hend ih =>
    have hhead : d = '\r' → (before ++ c :: rest).head? ≠ some '\n' := by
      intro hreturn
      cases before with
      | nil =>
        rintro hfeed
        obtain rfl : c = '\n' := by simpa using hfeed
        exact absurd hc (by decide)
      | cons x before =>
        intro hfeed
        obtain rfl : x = '\n' := by simpa using hfeed
        exact hnot before hreturn rfl
    rw [List.cons_append, lines_cons_end hend hhead, List.getElem?_cons_succ, ih,
      unended_cons (.inl hend)]
  | case4 d before hnot hend ih =>
    obtain ⟨first, more, hlines⟩ := List.exists_cons_of_ne_nil
      (lines_ne_nil (List.append_ne_nil_of_right_ne_nil before (List.cons_ne_nil c rest)))
    rw [hlines] at ih
    rw [List.cons_append, lines_cons (by simpa using hend) hlines]
    cases hbreaks : breaks before with
    | zero =>
      rw [hbreaks] at ih
      have hwhole : breaks (d :: before) = 0 :=
        breaks_eq_zero_iff.2 (by simpa [hend] using breaks_eq_zero_iff.1 hbreaks)
      rw [unended_of_breaks_eq_zero hbreaks] at ih
      rw [unended_of_breaks_eq_zero hwhole]
      simpa using ih
    | succ n =>
      rw [hbreaks] at ih
      rw [unended_cons (.inr (by omega)), List.getElem?_cons_succ]
      simpa using ih

theorem lineAt_append_cons {text : String} {before : List Char} {c : Char} {rest : List Char}
    (htext : text.toList = before ++ c :: rest) (hc : isLineEnd c = false) :
    (lineAt text (breaks before + 1)).toList =
      unended before ++ (c :: rest).takeWhile fun c => !isLineEnd c := by
  simp [lineAt, htext, lines_append_cons before hc rest]

/-- A word without line ends is shown on the line after the line ends before it. -/
theorem hasAt_lineAt {text word : String} {before rest : List Char}
    (htext : text.toList = before ++ word.toList ++ rest) (hne : word.toList ≠ [])
    (hword : ∀ c ∈ word.toList, isLineEnd c = false) :
    HasAt (lineAt text (breaks before + 1)) word ((unended before).length + 1) := by
  obtain ⟨c, more, hmore⟩ := List.exists_cons_of_ne_nil hne
  have hc : isLineEnd c = false := hword c (by simp [hmore])
  have hcons : text.toList = before ++ c :: (more ++ rest) := by simp [htext, hmore]
  refine ⟨unended before, rest.takeWhile fun c => !isLineEnd c, ?_, rfl⟩
  rw [lineAt_append_cons hcons hc, ← List.cons_append, ← hmore, List.takeWhile_append_of_pos,
    List.append_assoc]
  intro d hd
  simp [hword d hd]

/-- After plain line ends only, places count the lines that are shown. -/
theorem start_advance_of_plainEnds {before : List Char} (h : PlainEnds before) :
    Loc.start.advance before = ⟨breaks before + 1, (unended before).length + 1⟩ := by
  obtain ⟨closed, hclosed⟩ : ∃ closed, before.rdropWhile (fun c => !isLineEnd c) = closed := ⟨_, rfl⟩
  have hsplit : before = closed ++ unended before := by
    rw [← hclosed]
    exact List.rdropWhile_append_rtakeWhile.symm
  have hopen : '\n' ∉ unended before := fun hmem => by
    simpa [isLineEnd] using List.mem_rtakeWhile_imp hmem
  have hbegins : BeginsLine closed := by
    cases List.eq_nil_or_concat closed with
    | inl hnil => exact .inl hnil
    | inr hconcat =>
      obtain ⟨front, e, rfl⟩ := hconcat
      have hend : isLineEnd e = true := by
        have hlast := List.rdropWhile_last_not (fun c => !isLineEnd c) before (by simp [hclosed])
        simpa [hclosed] using hlast
      have hsuffix : e :: unended before <:+ before := ⟨front, by simpa using hsplit.symm⟩
      cases h e _ hsuffix hend with
      | inl hfeed => exact .inr ⟨front, by simp [hfeed]⟩
      | inr hreturn => exact absurd (List.mem_of_mem_head? hreturn.2) hopen
  have hcount : closed.count '\n' = before.count '\n' := by
    conv_rhs => rw [hsplit, List.count_append, List.count_eq_zero.2 hopen, Nat.add_zero]
  conv_lhs => rw [hsplit]
  rw [Loc.start_advance hbegins hopen, hcount, (count_le_breaks before).2.2 h]

end Text

open Text

theorem Loc.exists_start_advance_eq (before : List Char) :
    ∃ column, start.advance before = ⟨before.count '\n' + 1, column + 1⟩ := by
  obtain ⟨lead, current, rfl, hbegins, hcurrent⟩ := exists_beginsLine before
  refine ⟨current.length, ?_⟩
  rw [start_advance hbegins hcurrent, List.count_append, List.count_eq_zero.2 hcurrent, Nat.add_zero]

theorem isLineEnd_of_isNameChar {c : Char} (h : Grammar.isNameChar c = true) : isLineEnd c = false := by
  have hends : lineEnds.all (fun c => !Grammar.isNameChar c) = true := by decide
  cases hend : isLineEnd c with
  | false => rfl
  | true => simpa [h] using List.all_eq_true.1 hends c (mem_lineEnds.2 hend)

/-- An excerpt of a line that there is. -/
theorem excerpt_eq {source : String} {n : Nat} (h : n < (lines source.toList).length) (column : Nat) :
    excerpt source (n + 1 : Nat) (column + 1 : Nat) =
      some (toString (n + 1) ++ " | " ++ lineAt source (n + 1) ++ "\n" ++
        spaces (toString (n + 1)).length ++ " | " ++ spaces column ++ "^") := by
  have hline : ¬ ((n + 1 : Nat) : Int) < 1 := by omega
  have hcolumn : 0 < ((column + 1 : Nat) : Int) := by omega
  have hindex : ((n + 1 : Nat) : Int).toNat - 1 = n := by omega
  have hbefore : ((column + 1 : Nat) : Int) - 1 = column := by omega
  have hnumber : toString ((n + 1 : Nat) : Int) = toString (n + 1) := rfl
  have hlineAt : lineAt source (n + 1) = String.ofList (lines source.toList)[n] := by
    simp [lineAt, List.getElem?_eq_getElem h]
  rw [excerpt, if_neg hline, hindex, List.getElem?_eq_getElem h, Option.map_some, if_pos hcolumn,
    hbefore, hnumber, hlineAt]

namespace Program

open Grammar

section Shown

variable {p : Program} {statements : List Statement} {text : List Char}

/-- A rule is placed after the characters before the name on its line. -/
theorem Gathers.exists_before (h : p.Gathers statements) (hwritten : Written text statements)
    {d : Definition} (hd : d ∈ p.definitions) {r : Rule} (hr : r ∈ d.rules) :
    IsName d.name ∧ ∃ before rest, text = before ++ d.name.toList ++ rest ∧
      r.loc = Loc.start.advance before := by
  obtain ⟨line, hline, hhead, rfl⟩ := h.exists_line hd hr
  obtain ⟨before, here, next, hpass, ⟨word, hspells, hword⟩, hplace⟩ :=
    Lines.follows hwritten hline (Statement.opening_mem_tokens _)
  rw [← hhead]
  cases hspells with
  | name hname _ _ =>
    refine ⟨hname, before, next.rest, ?_, ?_⟩
    · rw [List.append_assoc, ← hword.rest_eq]
      exact hpass.rest_eq
    · exact (hplace _ rfl).symm.trans hpass.loc_eq

end Shown

/-- How a rule is shown that has the characters `before` before it in the source. It is on the shown line
after their line ends. The line with the number of its place is an earlier one, or that line itself if all
of them are plain; then the name of the definition stands there at the column of the place. An excerpt
at the place has the same line above its caret. -/
structure ShowsRule (p : Program) (d : Definition) (r : Rule) (before : List Char) : Prop where
  stands : ∃ rest, p.source.toList = before ++ d.name.toList ++ rest
  loc_eq : r.loc = Loc.start.advance before
  shown : HasAt (p.sourceLine (breaks before + 1)) d.name ((unended before).length + 1)
  line_le : r.loc.line ≤ breaks before + 1
  line_eq_iff : r.loc.line = breaks before + 1 ↔ PlainEnds before
  hasAt : PlainEnds before → HasAt (p.sourceLine r.loc.line) d.name r.loc.column
  excerpt_eq : excerpt p.source r.loc.line r.loc.column =
    some (toString r.loc.line ++ " | " ++ p.sourceLine r.loc.line ++ "\n" ++
      spaces (toString r.loc.line).length ++ " | " ++ spaces (r.loc.column - 1 : Nat) ++ "^")

theorem Gathers.exists_showsRule {p : Program} {statements : List Statement} (h : p.Gathers statements)
    (hwritten : Written p.source.toList statements) {d : Definition} (hd : d ∈ p.definitions)
    {r : Rule} (hr : r ∈ d.rules) : ∃ before, p.ShowsRule d r before := by
  obtain ⟨⟨c, cs, hname, hc, hcs⟩, before, rest, htext, hloc⟩ := h.exists_before hwritten hd hr
  have hstart : isLineEnd c = false := isLineEnd_of_isNameChar (isNameChar_of_isNameStart hc)
  have hends : ∀ x ∈ d.name.toList, isLineEnd x = false := by
    intro x hx
    cases List.mem_cons.1 (by simpa [hname] using hx : x ∈ c :: cs) with
    | inl heq => exact heq ▸ hstart
    | inr hmem => exact isLineEnd_of_isNameChar (hcs x hmem)
  have hshown := hasAt_lineAt htext (by simp [hname]) hends
  obtain ⟨hle, hiff⟩ := count_le_breaks before
  obtain ⟨column, hcolumn⟩ := Loc.exists_start_advance_eq before
  have hplace : r.loc = ⟨before.count '\n' + 1, column + 1⟩ := hloc.trans hcolumn
  refine ⟨before, ⟨rest, htext⟩, hloc, hshown, ?_, ?_, fun hplain => ?_, ?_⟩
  · simpa [hplace] using hle
  · simp [hplace, hiff]
  · rw [hloc, start_advance_of_plainEnds hplain]
    exact hshown
  · have hsource : p.source.toList = before ++ c :: (cs ++ rest) := by simp [htext, hname]
    have hlength : breaks before < (lines p.source.toList).length := by
      rw [hsource]
      exact (List.getElem?_eq_some_iff.1 (lines_append_cons before hstart _)).1
    rw [hplace]
    exact GenericTuring.excerpt_eq (Nat.lt_of_le_of_lt hle hlength) column

theorem inspect_of_next {p : Program} (hwf : p.WellFormed) {t : Table} (ht : p.expand = .ok t)
    {dbg : Debugger} (htable : dbg.machine.table = t) {tr : Transition}
    (hnext : dbg.machine.next? = some tr) (hline : 0 < tr.loc.line) (radius : Option Int) :
    (dbg.inspect radius).ruleLine = tr.loc.line ∧
      (dbg.inspect radius).ruleSource = p.sourceLine tr.loc.line := by
  have hprogram : dbg.machine.table.program = some p := htable ▸ program_of_expand hwf ht
  have hne : tr.loc.line ≠ 0 := by omega
  simp [Debugger.inspect, hnext, hne, Table.sourceLine, hprogram]

/-- The line shown for the place of a rule is the line that the rule is on, with the name of its definition
at the column of the place, exactly if every line end before the rule is plain; otherwise it is an earlier
line. In either case the same line is above the caret of an excerpt at the place, and is what a debugger
reports as the source of the transition it is about to apply. -/
theorem source_line_of_rule {source file : String} {p : Program} (h : parse source file = .ok p) :
    p.source = source ∧
    (∀ d ∈ p.definitions, ∀ r ∈ d.rules, ∃ before, p.ShowsRule d r before) ∧
    ∀ t, p.expand = .ok t → ∀ dbg : Debugger, dbg.machine.table = t →
      ∀ tr, dbg.machine.next? = some tr → ∃ d ∈ p.definitions, d.name = dbg.machine.state.key.head ∧
        ∃ r ∈ d.rules, r.read = dbg.machine.state.symbol ∧ ∀ radius,
          (dbg.inspect radius).ruleLine = r.loc.line ∧
          (dbg.inspect radius).ruleSource = p.sourceLine r.loc.line := by
  have hwf := wellFormed_of_parse h
  obtain ⟨statements, hscan, _, hassemble⟩ := parse_eq_ok.1 h
  have hsource : p.source = source := by
    obtain ⟨_, _, _, _, _, _, _, rfl⟩ := assemble_eq_ok.1 hassemble
    rfl
  have hshows : ∀ d ∈ p.definitions, ∀ r ∈ d.rules, ∃ before, p.ShowsRule d r before := by
    intro d hd r hr
    refine (gathers_of_assemble hassemble).exists_showsRule ?_ hd hr
    rw [hsource]
    exact written_of_scan hscan
  refine ⟨hsource, hshows, fun t ht dbg htable tr hnext => ?_⟩
  have hexpanded : p.Expanded dbg.machine.table := htable ▸ expanded_of_expand hwf ht
  obtain ⟨d, hd, hname, r, hr, hread, hloc⟩ := exists_rule_of_lookup hwf hexpanded hnext
  obtain ⟨before, hshown⟩ := hshows d hd r hr
  have hline : 0 < tr.loc.line := by
    obtain ⟨column, hcolumn⟩ := Loc.exists_start_advance_eq before
    rw [← hloc, hshown.loc_eq, hcolumn]
    exact Nat.succ_pos _
  refine ⟨d, hd, hname, r, hr, hread, fun radius => ?_⟩
  rw [hloc]
  exact inspect_of_next hwf ht htable hnext hline radius

def torn : String :=
  -- Lines that end in three ways, the last with a vertical tab in a comment.
  "start = a\r\n  a 0 = 1; a next /*\x0b*/\na 1 = 0; finish prev"

set_option maxRecDepth 20000 in
theorem source_line_of_rule_torn : ∃ p, parse torn "torn" = .ok p ∧
    p.definitions.map (fun d => (d.name, d.rules.map fun r => (r.loc, p.sourceLine r.loc.line))) =
      [("a", [(⟨2, 3⟩, "  a 0 = 1; a next /*"), (⟨3, 1⟩, "*/")])] ∧
    p.sourceLine 4 = "a 1 = 0; finish prev" ∧
    ∀ d ∈ p.definitions, ∀ r ∈ d.rules, ∃ before, p.ShowsRule d r before := by
  obtain ⟨p, hp, hshape⟩ := exists_ok_of_any (x := parse torn "torn")
    (t := fun p => p.definitions.map (fun d => (d.name, d.rules.map fun r =>
      (r.loc, p.sourceLine r.loc.line))) == [("a", [(⟨2, 3⟩, "  a 0 = 1; a next /*"), (⟨3, 1⟩, "*/")])] &&
        p.sourceLine 4 == "a 1 = 0; finish prev") (by decide_cbv)
  rw [Bool.and_eq_true, beq_iff_eq, beq_iff_eq] at hshape
  exact ⟨p, hp, hshape.1, hshape.2, (source_line_of_rule hp).2.1⟩

set_option maxRecDepth 20000 in
/-- The line shown for the place of a rule need not be the one that the rule is on. -/
theorem source_line_misses_rule : ∃ p,
    parse "start = a /*\x0b*/\na 0 = 0; a next\n" "<input>" = .ok p ∧
    ∃ d ∈ p.definitions, ∃ r ∈ d.rules, d.name = "a" ∧ r.loc = ⟨2, 1⟩ ∧
      p.sourceLine r.loc.line = "*/" ∧ ¬ HasAt (p.sourceLine r.loc.line) d.name r.loc.column := by
  obtain ⟨p, hp, hshape⟩ := exists_ok_of_any
    (x := parse "start = a /*\x0b*/\na 0 = 0; a next\n" "<input>")
    (t := fun p => p.definitions.any fun d => d.name == "a" && d.rules.any fun r =>
      r.loc == ⟨2, 1⟩ && p.sourceLine r.loc.line == "*/") (by decide_cbv)
  obtain ⟨d, hd, hname, r, hr, hloc, hshown⟩ :
      ∃ d ∈ p.definitions, d.name = "a" ∧ ∃ r ∈ d.rules, r.loc = ⟨2, 1⟩ ∧
        p.sourceLine r.loc.line = "*/" := by
    simpa using hshape
  refine ⟨p, hp, d, hd, r, hr, hname, hloc, hshown, ?_⟩
  rw [hshown, hname]
  rintro ⟨before, after, hline, _⟩
  have hmem : 'a' ∈ "*/".toList := by
    rw [hline]
    simp
  simp at hmem

end Program

end GenericTuring
