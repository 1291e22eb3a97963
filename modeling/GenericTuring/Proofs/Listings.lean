import GenericTuring.Listing.Simulator
import GenericTuring.Proofs.Naming
import GenericTuring.Proofs.Texts

/-!
Listings read back. A regular table that can be written is written as three header lines and a pair of
lines for each transition, and from these lines the reader gets the names and transitions again.
-/

namespace GenericTuring.Listing

open Grammar

variable {t : Table} {names : List (Key × String)} {keys : List Key}

def nameIn (names : List (Key × String)) (key : Key) : String := (names.lookup key).getD ""

theorem nameOf_eq_ok {key : Key} {name : String} (h : nameOf names key = .ok name) :
    name = nameIn names key := by
  cases hlookup : names.lookup key with
  | none => simp [nameOf, hlookup] at h
  | some found => simpa [nameOf, nameIn, hlookup, eq_comm] using h

theorem Faithful.lookup_eq (h : Faithful names keys) {key : Key} (hkey : key ∈ keys) :
    names.lookup key = some (nameIn names key) := by
  obtain ⟨name, hname⟩ := h.covers key hkey
  simp [nameIn, hname]

theorem Faithful.isName_nameIn (h : Faithful names keys) {key : Key} (hkey : key ∈ keys) :
    IsName (nameIn names key) :=
  h.isName key _ (h.lookup_eq hkey)

theorem Faithful.nameIn_inj (h : Faithful names keys) {key other : Key} (hkey : key ∈ keys)
    (hother : other ∈ keys) (heq : nameIn names key = nameIn names other) : key = other :=
  h.inj key other _ (h.lookup_eq hkey) (heq ▸ h.lookup_eq hother)

def Writable (s : Symbol) : Prop :=
  ∀ text, s = .mark text → text ≠ "," ∧ Text.isBlankText text = false

theorem writeSymbol_eq_ok {key : Key} {s : Symbol} {text : String}
    (h : writeSymbol key s = .ok text) : Writable s ∧ text = s.cell "_" := by
  cases s with
  | blank => exact ⟨by simp [Writable], by simpa [writeSymbol, Symbol.cell, eq_comm] using h⟩
  | mark mark =>
    by_cases hbad : (mark = "," || Text.isBlankText mark) = true
    · simp [writeSymbol, hbad] at h
    · have hok : mark ≠ "," ∧ Text.isBlankText mark = false := by simpa using hbad
      refine ⟨?_, ?_⟩
      · intro found hfound
        obtain rfl : mark = found := by simpa using hfound
        exact hok
      · simpa [writeSymbol, hok, Symbol.cell, eq_comm] using h

def whenLine (names : List (Key × String)) (e : Key × Symbol × Transition) : String :=
  nameIn names e.1 ++ "," ++ e.2.1.cell "_"

def thenLine (names : List (Key × String)) (e : Key × Symbol × Transition) : String :=
  nameIn names e.2.2.target ++ "," ++ e.2.2.write.cell "_" ++ "," ++ e.2.2.move.letter

theorem writeTransition_eq_ok {e : Key × Symbol × Transition} {pair : List String}
    (h : writeTransition names e = .ok pair) :
    pair = [whenLine names e, thenLine names e] ∧ Writable e.2.1 ∧ Writable e.2.2.write := by
  obtain ⟨key, symbol, tr⟩ := e
  obtain ⟨source, hsource, h⟩ := bind_eq_ok.1 h
  obtain ⟨read, hread, h⟩ := bind_eq_ok.1 h
  obtain ⟨target, htarget, h⟩ := bind_eq_ok.1 h
  obtain ⟨write, hwrite, h⟩ := bind_eq_ok.1 h
  obtain ⟨hreadable, rfl⟩ := writeSymbol_eq_ok hread
  obtain ⟨hwritable, rfl⟩ := writeSymbol_eq_ok hwrite
  obtain rfl := nameOf_eq_ok hsource
  obtain rfl := nameOf_eq_ok htarget
  exact ⟨(Except.ok.inj h).symm, hreadable, hwritable⟩

def headerLines (o : Options) (names : List (Key × String)) (t : Table) : List String :=
  ["name: " ++ o.title, "init: " ++ nameIn names t.start,
    "accept: " ++ nameIn names Key.finish]

def bodyLines (names : List (Key × String)) (t : Table) : List String :=
  t.transitions.flatMap fun e => ["", whenLine names e, thenLine names e]

/-- What is written is the header and the transitions, and all symbols among them can be written. -/
theorem write_eq_ok {o : Options} {text : String} (h : write o t = .ok text) :
    text = String.join ((headerLines o (Listing.names o.scheme t) t ++
        bodyLines (Listing.names o.scheme t) t).map (· ++ "\n")) ∧
      ∀ e ∈ t.transitions, Writable e.2.1 ∧ Writable e.2.2.write := by
  obtain ⟨list, hlist, h⟩ := bind_eq_ok.1 h
  obtain ⟨start, hstart, hlist⟩ := bind_eq_ok.1 hlist
  obtain ⟨accept, haccept, hlist⟩ := bind_eq_ok.1 hlist
  obtain ⟨body, hbody, hlist⟩ := bind_eq_ok.1 hlist
  obtain rfl := nameOf_eq_ok hstart
  obtain rfl := nameOf_eq_ok haccept
  have hpairs := mapM_eq_ok.1 hbody
  have hsame : t.transitions.map (fun e => [whenLine (Listing.names o.scheme t) e,
      thenLine (Listing.names o.scheme t) e]) = body.map id :=
    map_eq_map_of_forall₂ hpairs fun e pair hpair => (writeTransition_eq_ok hpair).1.symm
  rw [List.map_id] at hsame
  refine ⟨?_, fun e he => ?_⟩
  · rw [← Except.ok.inj h, ← Except.ok.inj hlist, ← hsame, List.flatMap_map]
    rfl
  · obtain ⟨pair, _, hpair⟩ := exists_of_mem_left hpairs he
    exact (writeTransition_eq_ok hpair).2

section Characters

def Solid (c : Char) : Prop := c ≠ ',' ∧ Text.isBlank c = false

theorem Solid.isLineEnd {c : Char} (h : Solid c) : Text.isLineEnd c = false :=
  Text.isLineEnd_of_not_blank h.2

theorem solid_of_isNameChar {c : Char} (h : isNameChar c = true) : Solid c := by
  have hnat := toNat_of_isNameChar h
  constructor
  · intro heq
    rw [heq] at hnat
    exact absurd hnat (by decide)
  · rw [Text.isBlank, Text.CodeRanges.contains, List.any_eq_false]
    intro r hr
    have hrange : r.2 < 48 ∨ 122 < r.1 := by
      revert r
      decide
    simp only [Bool.and_eq_true, decide_eq_true_eq]
    omega

theorem solid_of_mem_isName {name : String} (h : IsName name) {c : Char} (hc : c ∈ name.toList) :
    Solid c :=
  solid_of_isNameChar (h.char hc)

theorem isName_ne_colon {name : String} (h : IsName name) {c : Char} (hc : c ∈ name.toList) :
    c ≠ ':' := by
  intro heq
  have hchar := h.char hc
  rw [heq] at hchar
  exact absurd hchar (by decide)

/-- In a line a plain symbol is one character. -/
theorem exists_cell_eq {s : Symbol} (hplain : s.Plain) (hwritable : Writable s) :
    ∃ c, s.cell "_" = String.singleton c ∧ Solid c := by
  cases s with
  | blank => exact ⟨'_', rfl, solid_of_isNameChar (by decide)⟩
  | mark text =>
    obtain ⟨c, rfl, _⟩ := hplain text rfl
    obtain ⟨hcomma, hblank⟩ := hwritable _ rfl
    refine ⟨c, rfl, ?_, by simpa [Text.isBlankText] using hblank⟩
    intro heq
    exact hcomma (by rw [heq]; rfl)

theorem exists_letter_eq (m : Move) : ∃ c, m.letter = String.singleton c ∧ Solid c := by
  cases m with
  | prev => exact ⟨'<', rfl, by decide, by decide⟩
  | current => exact ⟨'-', rfl, by decide, by decide⟩
  | next => exact ⟨'>', rfl, by decide, by decide⟩

/-- A line that begins with a name counts. -/
theorem content_of_isName {name : String} (h : IsName name) (rest : List Char) :
    (!(name.toList ++ rest).isEmpty &&
      !(['/', '/'].isPrefixOf (name.toList ++ rest))) = true := by
  obtain ⟨c, cs, rfl, hstart, _⟩ := h
  have halpha : c.isAlpha = true := hstart
  have hslash : '/' ≠ c := by
    intro heq
    rw [← heq] at halpha
    exact absurd halpha (by decide)
  simp [List.isPrefixOf, hslash]

end Characters

structure Pair (names : List (Key × String)) (e : Key × Symbol × Transition) : Prop where
  source : IsName (nameIn names e.1)
  target : IsName (nameIn names e.2.2.target)
  read : ∃ c, e.2.1.cell "_" = String.singleton c ∧ Solid c
  write : ∃ c, e.2.2.write.cell "_" = String.singleton c ∧ Solid c

theorem pair_of_mem (ht : t.Regular) (hf : Faithful names (namedKeys t))
    {e : Key × Symbol × Transition} (he : e ∈ t.transitions)
    (hwritable : Writable e.2.1 ∧ Writable e.2.2.write) : Pair names e := by
  have hkey := Table.key_mem_of_mem_transitions he
  exact ⟨hf.isName_nameIn (mem_namedKeys_of_mem hkey),
    hf.isName_nameIn (mem_namedKeys_of_mem (ht.target_mem e he)),
    exists_cell_eq (ht.read e he) hwritable.1, exists_cell_eq (ht.write e he) hwritable.2⟩

namespace Pair

variable {e : Key × Symbol × Transition}

theorem toList_whenLine (h : Pair names e) : ∃ c, e.2.1.cell "_" = String.singleton c ∧ Solid c ∧
    (whenLine names e).toList = (nameIn names e.1).toList ++ ',' :: [c] := by
  obtain ⟨c, hc, hsolid⟩ := h.read
  exact ⟨c, hc, hsolid, by simp [whenLine, hc]⟩

theorem toList_thenLine (h : Pair names e) : ∃ c d, e.2.2.write.cell "_" = String.singleton c ∧
    e.2.2.move.letter = String.singleton d ∧ Solid c ∧ Solid d ∧
    (thenLine names e).toList =
      (nameIn names e.2.2.target).toList ++ ',' :: ([c] ++ ',' :: [d]) := by
  obtain ⟨c, hc, hcsolid⟩ := h.write
  obtain ⟨d, hd, hdsolid⟩ := exists_letter_eq e.2.2.move
  exact ⟨c, d, hc, hd, hcsolid, hdsolid, by simp [thenLine, hc, hd]⟩

theorem not_blank_whenLine (h : Pair names e) {c : Char} (hc : c ∈ (whenLine names e).toList) :
    Text.isBlank c = false := by
  obtain ⟨d, _, hsolid, hlist⟩ := h.toList_whenLine
  have hcases : c ∈ (nameIn names e.1).toList ∨ c = ',' ∨ c = d := by simpa [hlist] using hc
  cases hcases with
  | inl hname => exact (solid_of_mem_isName h.source hname).2
  | inr hrest =>
    cases hrest with
    | inl heq => exact heq ▸ by decide
    | inr heq => exact heq ▸ hsolid.2

theorem not_blank_thenLine (h : Pair names e) {c : Char} (hc : c ∈ (thenLine names e).toList) :
    Text.isBlank c = false := by
  obtain ⟨d, l, _, _, hsolid, hletter, hlist⟩ := h.toList_thenLine
  have hcases : c ∈ (nameIn names e.2.2.target).toList ∨ c = ',' ∨ c = d ∨ c = l := by
    have hmem : c ∈ (nameIn names e.2.2.target).toList ++ ',' :: ([d] ++ ',' :: [l]) := hlist ▸ hc
    simp only [List.mem_append, List.mem_cons, List.not_mem_nil, or_false] at hmem
    grind
  cases hcases with
  | inl hname => exact (solid_of_mem_isName h.target hname).2
  | inr hrest =>
    cases hrest with
    | inl heq => exact heq ▸ by decide
    | inr hrest =>
      cases hrest with
      | inl heq => exact heq ▸ hsolid.2
      | inr heq => exact heq ▸ hletter.2

theorem readPair?_eq (h : Pair names e) :
    readPair? (whenLine names e).toList (thenLine names e).toList =
      some ((nameIn names e.1, e.2.1.cell "_"),
        ⟨nameIn names e.2.2.target, e.2.2.write.cell "_", e.2.2.move⟩) := by
  obtain ⟨c, hc, hcsolid, hwhen⟩ := h.toList_whenLine
  obtain ⟨d, l, hd, hl, hdsolid, hlsolid, hthen⟩ := h.toList_thenLine
  have hsource : ',' ∉ (nameIn names e.1).toList := fun hmem =>
    (solid_of_mem_isName h.source hmem).1 rfl
  have htarget : ',' ∉ (nameIn names e.2.2.target).toList := fun hmem =>
    (solid_of_mem_isName h.target hmem).1 rfl
  have hsingle : ∀ x, Solid x → ',' ∉ [x] := fun x hx hmem => hx.1 (List.mem_singleton.1 hmem).symm
  have hfirst : Text.splitAt ',' (whenLine names e).toList = [(nameIn names e.1).toList, [c]] := by
    rw [hwhen, Text.splitAt_append hsource, Text.splitAt_of_notMem (hsingle c hcsolid)]
  have hsecond : Text.splitAt ',' (thenLine names e).toList =
      [(nameIn names e.2.2.target).toList, [d], [l]] := by
    rw [hthen, Text.splitAt_append htarget, Text.splitAt_append (hsingle d hdsolid),
      Text.splitAt_of_notMem (hsingle l hlsolid)]
  have hmove : Move.ofLetter? (String.singleton l) = some e.2.2.move := by
    rw [← hl]
    cases e.2.2.move <;> decide
  have hofList : ∀ x, String.ofList [x] = String.singleton x := fun x => rfl
  simp [readPair?, hfirst, hsecond, hofList, hmove, hc, hd]

/-- A transition line is no header line: the comma comes before any colon. -/
theorem headerField?_whenLine (h : Pair names e) :
    headerField? (whenLine names e).toList = none := by
  obtain ⟨c, _, _, hlist⟩ := h.toList_whenLine
  have hname : ∀ x ∈ (nameIn names e.1).toList, (x != ':') = true := fun x hx => by
    simpa using isName_ne_colon h.source hx
  have hcomma : ',' ∈ (whenLine names e).toList.takeWhile (· != ':') := by
    rw [hlist, List.takeWhile_append_of_pos hname]
    simp
  have hfields : ∀ field ∈ ["name", "init", "accept"], ',' ∉ field.toList := by decide
  unfold headerField?
  split
  · rfl
  · refine if_neg fun hmem => hfields _ hmem ?_
    rw [String.toList_ofList]
    exact hcomma

end Pair

def action (names : List (Key × String)) (e : Key × Symbol × Transition) :
    (String × String) × Action :=
  ((nameIn names e.1, e.2.1.cell "_"), ⟨nameIn names e.2.2.target, e.2.2.write.cell "_", e.2.2.move⟩)

/-- The lines of transitions with different states or symbols are read in order, one action each. -/
theorem readPairs_flatMap {list : List (Key × Symbol × Transition)}
    (hpairs : ∀ e ∈ list, Pair names e) (done : List ((String × String) × Action))
    (hnodup : ((done ++ list.map (action names)).map Prod.fst).Nodup) :
    readPairs done (list.flatMap fun e => [(whenLine names e).toList, (thenLine names e).toList]) =
      .ok (done ++ list.map (action names)) := by
  induction list generalizing done with
  | nil => simp [readPairs]
  | cons e list ih =>
    have hfresh : (action names e).1 ∉ done.map Prod.fst := by
      rw [List.map_append, List.nodup_append] at hnodup
      intro hmem
      exact hnodup.2.2 _ hmem _ (by simp) rfl
    have hread : readPair? (whenLine names e).toList (thenLine names e).toList =
        some (action names e) := (hpairs e List.mem_cons_self).readPair?_eq
    have hrest := ih (fun x hx => hpairs x (List.mem_cons_of_mem e hx))
      (done ++ [action names e]) (by simpa using hnodup)
    rw [List.flatMap_cons, List.cons_append, List.cons_append, List.nil_append, readPairs, hread]
    simp only [Dictionary.assign_of_notMem hfresh]
    simpa using hrest

theorem cell_inj {s other : Symbol} (hs : s ≠ .mark "_") (hother : other ≠ .mark "_")
    (h : s.cell "_" = other.cell "_") : s = other := by
  cases s with
  | blank =>
    cases other with
    | blank => rfl
    | mark text => exact absurd (congrArg Symbol.mark (show "_" = text from h)).symm hother
  | mark text =>
    cases other with
    | blank => exact absurd (congrArg Symbol.mark (show text = "_" from h)) hs
    | mark text' => exact congrArg Symbol.mark h

theorem ne_underscore_of_plain {s : Symbol} (h : s.Plain) : s ≠ .mark "_" := by
  intro heq
  obtain ⟨c, hc, _, hne, _⟩ := h "_" heq
  have hlist := congrArg String.toList hc
  exact hne (by simpa [eq_comm] using hlist)

/-- A table has one transition for a state and a symbol. -/
theorem nodup_transitions (ht : t.Regular) :
    (t.transitions.map fun e => (e.1, e.2.1)).Nodup := by
  rw [Table.transitions, List.map_flatMap]
  refine List.nodup_flatMap.2 ⟨fun entry hentry => ?_, ?_⟩
  · have hreads := ht.reads_nodup entry hentry
    have hpair : ((entry.2.map Prod.fst).map fun s => (entry.1, s)).Nodup :=
      hreads.map fun s other heq => (Prod.mk.inj heq).2
    simpa [List.map_map, Function.comp_def] using hpair
  · have hkeys : t.rows.Pairwise fun a b => a.1 ≠ b.1 := List.pairwise_map.1 ht.keys_nodup
    refine hkeys.imp fun {a b} hne => ?_
    intro pair ha hb
    simp only [List.map_map, List.mem_map, Function.comp_apply] at ha hb
    obtain ⟨_, _, rfl⟩ := ha
    obtain ⟨_, _, heq⟩ := hb
    exact hne (Prod.mk.inj heq).1.symm

/-- No two transitions are written for the same name and symbol. -/
theorem nodup_actions (ht : t.Regular) (hf : Faithful names (namedKeys t)) :
    ((t.transitions.map (action names)).map Prod.fst).Nodup := by
  have hmap : (t.transitions.map (action names)).map Prod.fst =
      (t.transitions.map fun e => (e.1, e.2.1)).map fun pair =>
        (nameIn names pair.1, pair.2.cell "_") := by
    simp [List.map_map, Function.comp_def, action]
  rw [hmap]
  refine List.Nodup.map_on ?_ (nodup_transitions ht)
  intro a ha b hb heq
  obtain ⟨e, he, rfl⟩ := List.mem_map.1 ha
  obtain ⟨e', he', rfl⟩ := List.mem_map.1 hb
  obtain ⟨hname, hcell⟩ := Prod.mk.inj heq
  have hkey := hf.nameIn_inj (mem_namedKeys_of_mem (Table.key_mem_of_mem_transitions he))
    (mem_namedKeys_of_mem (Table.key_mem_of_mem_transitions he')) hname
  have hsymbol := cell_inj (ne_underscore_of_plain (ht.read e he))
    (ne_underscore_of_plain (ht.read e' he')) hcell
  exact Prod.ext hkey hsymbol

section Header

theorem trim_headerLine {field : String} (hname : IsName field) (value : String) :
    Text.trim (field ++ ": " ++ value).toList =
      field.toList ++ ':' :: (' ' :: value.toList).rdropWhile Text.isBlank := by
  have hlist : (field ++ ": " ++ value).toList =
      field.toList ++ ':' :: ' ' :: value.toList := by simp
  have hcolon : Text.isBlank ':' = false := by decide
  have hdrop : (field.toList ++ ':' :: ' ' :: value.toList).dropWhile Text.isBlank =
      field.toList ++ ':' :: ' ' :: value.toList := by
    obtain ⟨c, cs, rfl, hstart, _⟩ := hname
    have hsolid := solid_of_isNameChar (isNameChar_of_isNameStart hstart)
    simp [hsolid.2]
  rw [hlist, Text.trim_eq, hdrop, Text.rdropWhile_append List.mem_cons_self hcolon,
    Text.rdropWhile_cons hcolon]

theorem headerField?_headerLine {field : String} (hfield : field ∈ ["name", "init", "accept"])
    (hname : IsName field) (value : String) :
    headerField? (Text.trim (field ++ ": " ++ value).toList) =
      some (field, Text.strip value) := by
  have hbefore : ∀ c ∈ field.toList, (c != ':') = true := fun c hc => by
    simpa using isName_ne_colon hname hc
  have hvalue : Text.trim ((' ' :: value.toList).rdropWhile Text.isBlank) =
      Text.trim value.toList := by
    rw [Text.trim_rdropWhile, Text.trim_cons_of_blank (by decide)]
  rw [trim_headerLine hname, headerField?, List.dropWhile_append_of_pos hbefore,
    List.takeWhile_append_of_pos hbefore]
  simp only [bne_self_eq_false, Bool.false_eq_true, not_false_eq_true, List.dropWhile_cons_of_neg,
    List.takeWhile_cons_of_neg, List.append_nil, String.ofList_toList]
  rw [if_pos hfield, hvalue]
  rfl

theorem isName_of_mem_fields {field : String} (h : field ∈ ["name", "init", "accept"]) :
    IsName field := by
  revert field
  decide

theorem strip_of_isName {name : String} (h : IsName name) : Text.strip name = name := by
  rw [Text.strip, Text.trim_eq_self fun c hc => (solid_of_mem_isName h hc).2, String.ofList_toList]

theorem acceptList_of_isName {name : String} (h : IsName name) : acceptList name = [name] := by
  have hcomma : ',' ∉ name.toList := fun hmem => (solid_of_mem_isName h hmem).1 rfl
  have htrim := Text.trim_eq_self fun c hc => (solid_of_mem_isName h hc).2
  have hne : name.toList.isEmpty = false := by
    obtain ⟨c, cs, rfl, _⟩ := h
    simp
  rw [acceptList, Text.splitAt_of_notMem hcomma]
  simp [htrim, hne, List.eraseDups_cons]

end Header

theorem isLineEnd_of_mem_headerLine {field value : String}
    (hfield : field ∈ ["name", "init", "accept"])
    (hvalue : ∀ c ∈ value.toList, Text.isLineEnd c = false) {c : Char}
    (hc : c ∈ (field ++ ": " ++ value).toList) : Text.isLineEnd c = false := by
  have hcases : c ∈ field.toList ∨ c ∈ ": ".toList ∨ c ∈ value.toList := by
    simpa [or_assoc] using hc
  cases hcases with
  | inl hmem => exact (solid_of_mem_isName (isName_of_mem_fields hfield) hmem).isLineEnd
  | inr hrest =>
    cases hrest with
    | inl hmem =>
      have hall : (": ".toList.all fun x => !Text.isLineEnd x) = true := by decide
      simpa using List.all_eq_true.1 hall c hmem
    | inr hmem => exact hvalue c hmem

section Reading

variable (ht : t.Regular) (hf : Faithful names (namedKeys t)) (o : Options)
variable (hpairs : ∀ e ∈ t.transitions, Pair names e)

include ht hf in
theorem exists_field_of_mem_headerLines {line : String} (hline : line ∈ headerLines o names t) :
    ∃ field ∈ ["name", "init", "accept"], ∃ value,
      line = field ++ ": " ++ value ∧ ∀ c ∈ value.toList, Text.isLineEnd c = false := by
  have hstart := hf.isName_nameIn (mem_namedKeys_of_mem ht.start_mem)
  have hfinish := hf.isName_nameIn (finish_mem_namedKeys t)
  simp only [headerLines, List.mem_cons, List.not_mem_nil, or_false] at hline
  cases hline with
  | inl heq =>
    exact ⟨"name", by simp, o.title, heq, fun c hc => Text.isLineEnd_of_mem_lineAt hc⟩
  | inr hline =>
    cases hline with
    | inl heq =>
      exact ⟨"init", by simp, _, heq, fun c hc => (solid_of_mem_isName hstart hc).isLineEnd⟩
    | inr heq =>
      exact ⟨"accept", by simp, _, heq, fun c hc => (solid_of_mem_isName hfinish hc).isLineEnd⟩

include ht hf hpairs in
theorem isLineEnd_of_mem_lines {line : String}
    (hline : line ∈ headerLines o names t ++ bodyLines names t) {c : Char}
    (hc : c ∈ line.toList) : Text.isLineEnd c = false := by
  cases List.mem_append.1 hline with
  | inl hmem =>
    obtain ⟨field, hfield, value, rfl, hvalue⟩ := exists_field_of_mem_headerLines ht hf o hmem
    exact isLineEnd_of_mem_headerLine hfield hvalue hc
  | inr hmem =>
    obtain ⟨e, he, hthree⟩ := List.mem_flatMap.1 hmem
    have hpair := hpairs e he
    simp only [List.mem_cons, List.not_mem_nil, or_false] at hthree
    cases hthree with
    | inl heq => simp [heq] at hc
    | inr hthree =>
      cases hthree with
      | inl heq => exact Text.isLineEnd_of_not_blank (hpair.not_blank_whenLine (heq ▸ hc))
      | inr heq => exact Text.isLineEnd_of_not_blank (hpair.not_blank_thenLine (heq ▸ hc))

def pairLines (names : List (Key × String)) (t : Table) : List (List Char) :=
  t.transitions.flatMap fun e => [(whenLine names e).toList, (thenLine names e).toList]

include ht hf hpairs in
/-- The lines of a written table that count: three for the header and two for each transition. -/
theorem contentLines_write :
    contentLines (String.join ((headerLines o names t ++ bodyLines names t).map (· ++ "\n"))).toList =
      (headerLines o names t).map (fun line => Text.trim line.toList) ++ pairLines names t := by
  have hends : ∀ line ∈ headerLines o names t ++ bodyLines names t, ∀ c ∈ line.toList,
      Text.isLineEnd c = false :=
    fun line hline c hc => isLineEnd_of_mem_lines ht hf o hpairs hline hc
  rw [contentLines, Text.lines_join hends, List.map_map, List.map_append, List.filter_append]
  congr 1
  · refine List.filter_eq_self.2 fun line hline => ?_
    obtain ⟨found, hfound, rfl⟩ := List.mem_map.1 hline
    obtain ⟨field, hfield, value, rfl, _⟩ := exists_field_of_mem_headerLines ht hf o hfound
    have hname := isName_of_mem_fields hfield
    simp only [Function.comp_apply, trim_headerLine hname]
    exact content_of_isName hname _
  · rw [bodyLines, pairLines, List.map_flatMap, List.filter_flatMap]
    refine List.flatMap_congr fun e he => ?_
    have hpair := hpairs e he
    have hwhen : Text.trim (whenLine names e).toList = (whenLine names e).toList :=
      Text.trim_eq_self fun c hc => hpair.not_blank_whenLine hc
    have hthen : Text.trim (thenLine names e).toList = (thenLine names e).toList :=
      Text.trim_eq_self fun c hc => hpair.not_blank_thenLine hc
    have hempty : Text.trim "".toList = [] := by decide
    simp only [List.map_cons, List.map_nil, Function.comp_apply, hwhen, hthen, hempty]
    rw [List.filter_cons_of_neg (by simp)]
    refine List.filter_eq_self.2 fun line hline => ?_
    simp only [List.mem_cons, List.not_mem_nil, or_false] at hline
    cases hline with
    | inl heq =>
      obtain ⟨c, _, _, hlist⟩ := hpair.toList_whenLine
      rw [heq, hlist]
      exact content_of_isName hpair.source _
    | inr heq =>
      obtain ⟨d, l, _, _, _, _, hlist⟩ := hpair.toList_thenLine
      rw [heq, hlist]
      exact content_of_isName hpair.target _

include ht hf hpairs in
theorem splitHeader_write :
    splitHeader ((headerLines o names t).map (fun line => Text.trim line.toList) ++
        pairLines names t) =
      ([("name", Text.strip o.title), ("init", nameIn names t.start),
        ("accept", nameIn names Key.finish)], pairLines names t) := by
  have hbody : splitHeader (pairLines names t) = ([], pairLines names t) := by
    cases htransitions : t.transitions with
    | nil => simp [pairLines, htransitions, splitHeader]
    | cons e rest =>
      have hnone := (hpairs e (by simp [htransitions])).headerField?_whenLine
      simp [pairLines, htransitions, splitHeader, hnone]
  have hfield : ∀ field ∈ ["name", "init", "accept"], ∀ value,
      headerField? (Text.trim (field ++ ": " ++ value).toList) = some (field, Text.strip value) :=
    fun field hmem => headerField?_headerLine hmem (isName_of_mem_fields hmem)
  have htitle : headerField? (Text.trim ("name: " ++ o.title).toList) =
      some ("name", Text.strip o.title) := hfield "name" (by simp) o.title
  have hinit : headerField? (Text.trim ("init: " ++ nameIn names t.start).toList) =
      some ("init", Text.strip (nameIn names t.start)) := hfield "init" (by simp) _
  have haccept : headerField? (Text.trim ("accept: " ++ nameIn names Key.finish).toList) =
      some ("accept", Text.strip (nameIn names Key.finish)) := hfield "accept" (by simp) _
  rw [strip_of_isName (hf.isName_nameIn (mem_namedKeys_of_mem ht.start_mem))] at hinit
  rw [strip_of_isName (hf.isName_nameIn (finish_mem_namedKeys t))] at haccept
  simp only [headerLines, List.map_cons, List.map_nil, List.cons_append, List.nil_append,
    splitHeader, htitle, hinit, haccept, hbody]

end Reading

/-- A written table is read back as its names and transitions. -/
theorem read_write (ht : t.Regular) {o : Options} {text : String} (h : write o t = .ok text) :
    read text = .ok ⟨Text.strip o.title, nameIn (Listing.names o.scheme t) t.start,
      [nameIn (Listing.names o.scheme t) Key.finish],
      t.transitions.map (action (Listing.names o.scheme t))⟩ := by
  have hf := faithful_names ht o.scheme
  obtain ⟨rfl, hwritable⟩ := write_eq_ok h
  generalize Listing.names o.scheme t = names at hf ⊢
  have hpairs : ∀ e ∈ t.transitions, Pair names e :=
    fun e he => pair_of_mem ht hf he (hwritable e he)
  have heven : (pairLines names t).length % 2 ≠ 1 := by
    have hlength : (pairLines names t).length = t.transitions.length * 2 := by
      simp [pairLines, List.length_flatMap]
    omega
  have hread : readPairs [] (pairLines names t) = .ok (t.transitions.map (action names)) :=
    readPairs_flatMap hpairs [] (nodup_actions ht hf)
  have haccept := acceptList_of_isName (hf.isName_nameIn (finish_mem_namedKeys t))
  rw [read, contentLines_write ht hf o hpairs, splitHeader_write ht hf o hpairs]
  simp [fieldOf?, List.lookup_cons, heven, hread, haccept, bind, Except.bind, pure, Except.pure]

end GenericTuring.Listing
