import GenericTuring.Program.Parse
import GenericTuring.Proofs.Lists
import GenericTuring.Proofs.Sessions
import GenericTuring.Proofs.Texts
import GenericTuring.Shell
import GenericTuring.Table.Expansion
import Mathlib

/-!
What a line typed into the shell does to a session. A word made of digit signs counts as a numeral, and
only a numeral that cannot be read breaks a session off; anything else is carried out or refused.
-/

namespace GenericTuring

namespace Text

/-- The text is taken for a numeral, and yet cannot be read: it is too long, or one of its signs is no
decimal digit. -/
def Unreadable (text : String) : Prop :=
  isDigits text = true ∧
    (digitLimit < text.toList.countP isDecimal ∨ ∃ c ∈ text.toList, isDecimal c = false)

def numeral? (text : String) : Option Int :=
  if isDigits text then readInt? text else none

theorem not_isPadding_of_isDigitSign {c : Char} (h : isDigitSign c = true) : isPadding c = false := by
  have hapart : ((decimalRanges ++ ornamentalDigitRanges).all fun r =>
      blankRanges.all fun b => decide (r.2 < b.1) || decide (b.2 < r.1)) = true := by decide
  have hblank : isBlank c = false := by
    rw [Bool.eq_false_iff]
    intro hblank
    obtain ⟨r, hr, hrange⟩ := exists_range_of_isDigitSign h
    obtain ⟨b, hb, hwithin⟩ : ∃ b ∈ blankRanges, b.1 ≤ c.toNat ∧ c.toNat ≤ b.2 := by
      simpa [isBlank, CodeRanges.contains] using hblank
    have hpair := List.all_eq_true.1 (List.all_eq_true.1 hapart r hr) b hb
    simp only [Bool.or_eq_true, decide_eq_true_eq] at hpair
    omega
  simp [isPadding, hblank]

theorem isDigitSign_of_isDigits {text : String} (h : isDigits text = true) :
    ∀ c ∈ text.toList, isDigitSign c = true := by
  simp only [isDigits, Bool.and_eq_true, List.all_eq_true] at h
  exact h.2

/-- Digit signs alone leave nothing to trim and no sign in front. -/
theorem readInt?_of_isDigits {text : String} (h : isDigits text = true) :
    readInt? text = (readNat? text.toList).map Int.ofNat := by
  have hsigns := isDigitSign_of_isDigits h
  rw [readInt?, trimWhile_eq_self fun c hc => not_isPadding_of_isDigitSign (hsigns c hc)]
  split
  · next digits heq =>
    have hminus := hsigns '-' (by simp [heq])
    simp [show isDigitSign '-' = false by decide] at hminus
  · next digits heq =>
    have hplus := hsigns '+' (by simp [heq])
    simp [show isDigitSign '+' = false by decide] at hplus
  · rfl

theorem readDigits?_cons {c : Char} (h : c ≠ '_') (value : Nat) (cs : List Char) :
    readDigits? value (c :: cs) =
      (decimalValue? c).bind fun d => readDigits? (10 * value + d) cs :=
  readDigits?.eq_3 value c cs fun _ _ heq => absurd heq h

theorem readDigits?_eq_none_iff {cs : List Char} (h : ∀ c ∈ cs, c ≠ '_') (value : Nat) :
    readDigits? value cs = none ↔ ∃ c ∈ cs, isDecimal c = false := by
  induction cs generalizing value with
  | nil => simp [readDigits?]
  | cons c cs ih =>
    have hcs := ih fun d hd => h d (List.mem_cons_of_mem c hd)
    rw [readDigits?_cons (h c List.mem_cons_self)]
    simp only [List.mem_cons, exists_eq_or_imp]
    cases hvalue : decimalValue? c with
    | none => simp [isDecimal, hvalue]
    | some d => simp [isDecimal, hvalue, hcs]

theorem readNat?_eq_none_iff {cs : List Char} (hcs : cs ≠ []) (h : ∀ c ∈ cs, c ≠ '_') :
    readNat? cs = none ↔
      digitLimit < cs.countP isDecimal ∨ ∃ c ∈ cs, isDecimal c = false := by
  cases cs with
  | nil => exact absurd rfl hcs
  | cons c cs =>
    have hdigits : (decimalValue? c).bind (fun d => readDigits? d cs) =
        readDigits? 0 (c :: cs) := by
      simp [readDigits?_cons (h c List.mem_cons_self)]
    rw [readNat?, hdigits]
    split
    · next hlong => simp [hlong]
    · next hshort => simp [hshort, readDigits?_eq_none_iff h]

theorem readInt?_eq_none_iff {text : String} (h : isDigits text = true) :
    readInt? text = none ↔ Unreadable text := by
  have hsigns := isDigitSign_of_isDigits h
  have hbare : ∀ c ∈ text.toList, c ≠ '_' := by
    intro c hc heq
    have hsign := hsigns c hc
    simp [heq, show isDigitSign '_' = false by decide] at hsign
  have hne : text.toList ≠ [] := by
    intro hnil
    simp [isDigits, String.toList_eq_nil_iff.1 hnil] at h
  rw [readInt?_of_isDigits h, Option.map_eq_none_iff, readNat?_eq_none_iff hne hbare]
  simp [Unreadable, h]

end Text

namespace Shell

namespace Command

def words : Command → List String
  | step => ["step", "s", "next", "n"]
  | resume => ["continue", "c", "run"]
  | reset => ["reset"]
  | tape => ["tape"]
  | setBreakpoint => ["break", "b"]
  | clearBreakpoints => ["clear"]
  | listBreakpoints => ["breakpoints"]
  | inspect => ["inspect", "i"]
  | quit => ["quit", "q"]
  | endOfInput => ["EOF"]
  | help => ["help"]

def moves : Command → Bool
  | step | resume | reset | tape => true
  | _ => false

def marks : Command → Bool
  | setBreakpoint | clearBreakpoints => true
  | _ => false

def counts : Command → Bool
  | setBreakpoint | clearBreakpoints | inspect => true
  | _ => false

def leaves : Command → Bool
  | quit | endOfInput => true
  | _ => false

theorem ofWord?_eq_some_iff (word : String) (command : Command) :
    ofWord? word = some command ↔ word ∈ command.words := by
  constructor
  · intro h
    obtain ⟨before, rest, htable, _⟩ := List.lookup_eq_some_iff.1 h
    have hlisted : ∀ entry ∈ before ++ (word, command) :: rest, entry.1 ∈ entry.2.words := by
      rw [← htable]
      decide
    exact hlisted (word, command) (by simp)
  · intro h
    have hfound : ∀ word ∈ command.words, ofWord? word = some command := by
      cases command <;> decide
    exact hfound word h

/-- A list of words that call just the commands of a kind. -/
theorem mem_iff_of_kind {kind : Command → Bool} {list : List String}
    (hlist : ∀ word ∈ list, (ofWord? word).any kind = true)
    (hall : ∀ command, kind command = true → ∀ word ∈ command.words, word ∈ list) (word : String) :
    word ∈ list ↔ (ofWord? word).any kind = true := by
  refine ⟨hlist word, fun h => ?_⟩
  cases hword : ofWord? word with
  | none => simp [hword] at h
  | some command =>
    have hkind : kind command = true := by simpa [hword] using h
    exact hall command hkind word ((ofWord?_eq_some_iff word command).1 hword)

/-- A command that moves the machine neither takes a numeral nor leaves. -/
theorem of_moves {command : Command} (h : command.moves = true) :
    command.counts = false ∧ command.leaves = false := by
  revert h
  cases command <;> decide

theorem counts_of_leaves {command : Command} (h : command.leaves = true) :
    command.counts = false := by
  revert h
  cases command <;> decide

end Command

variable {α : Type} {text : String}

theorem exists_numberOr_eq_error (h : Text.Unreadable text) (number : Int → α) (other : α) :
    ∃ c, numberOr text number other = .error c := by
  have hnone := (Text.readInt?_eq_none_iff h.1).2 h
  simp [numberOr, h.1, hnone]

theorem numberOr_of_readable (h : ¬Text.Unreadable text) (number : Int → α) (other : α) :
    numberOr text number other = .ok ((Text.numeral? text).elim other number) := by
  cases hdigits : Text.isDigits text with
  | false => simp [numberOr, Text.numeral?, hdigits]
  | true =>
    cases hread : Text.readInt? text with
    | none => exact absurd ((Text.readInt?_eq_none_iff hdigits).1 hread) h
    | some n => simp [numberOr, Text.numeral?, hdigits, hread]

def watchOf (arg : String) : Watch := (Text.numeral? arg).elim (.state arg) .line

def selectionOf (arg : String) : Selection :=
  if arg.isEmpty then .all else (Text.numeral? arg).elim (.onState arg) .byId

def createdText (d : Debugger) (watch : Watch) : String :=
  "breakpoint " ++ (⟨d.nextId, watch⟩ : Breakpoint).text ++ " created" ++ "\n"

def removedText (d : Debugger) (selection : Selection) : String :=
  s!"removed {(d.breakpoints.filter selection.selects).length} breakpoint(s)" ++ "\n"

inductive Answered (d : Debugger) (arg : String) : Command → Reply → Prop
  | broken {command : Command} (hcounts : command.counts = true) (harg : Text.Unreadable arg)
      (last : String) (c : Crash) : Answered d arg command ⟨"", ⟨d, last⟩, .crash c, []⟩
  | moved {command : Command} (hmoves : command.moves = true) (call : Debugger.Call)
      (output last : String) :
      Answered d arg command ⟨output, ⟨(d.perform call).2, last⟩, .goOn, []⟩
  | shown {command : Command} (hmoves : command.moves = false) (hmarks : command.marks = false)
      (hleaves : command.leaves = false) (harg : command.counts = true → ¬Text.Unreadable arg)
      (output last : String) : Answered d arg command ⟨output, ⟨d, last⟩, .goOn, []⟩
  | left {command : Command} (hleaves : command.leaves = true) (output last : String) :
      Answered d arg command ⟨output, ⟨d, last⟩, .leave, []⟩
  | set (harg : ¬Text.Unreadable arg) (hnonempty : arg ≠ "") (htakes : d.Takes (watchOf arg))
      (last : String) (log : List Log.Entry) : Answered d arg .setBreakpoint
        ⟨createdText d (watchOf arg), ⟨d.watching (watchOf arg), last⟩, .goOn, log⟩
  | notSet (harg : ¬Text.Unreadable arg) (message last : String)
      (hmessage : arg = "" ∧ message = "usage: break <state|line>" ∨
        arg ≠ "" ∧ ¬d.Takes (watchOf arg) ∧
          ∃ e : BreakpointError, message = "error: " ++ e.message) :
      Answered d arg .setBreakpoint ⟨message ++ "\n", ⟨d, last⟩, .goOn, []⟩
  | cleared (harg : ¬Text.Unreadable arg) (hoffers : d.Offers (selectionOf arg)) (last : String) :
      Answered d arg .clearBreakpoints
        ⟨removedText d (selectionOf arg), ⟨d.without (selectionOf arg), last⟩, .goOn, []⟩
  | notCleared (harg : ¬Text.Unreadable arg) (hoffers : ¬d.Offers (selectionOf arg))
      (last : String) (e : BreakpointError) :
      Answered d arg .clearBreakpoints ⟨"error: " ++ e.message ++ "\n", ⟨d, last⟩, .goOn, []⟩

namespace Answered

variable {d : Debugger} {arg : String} {command : Command} {reply : Reply}

theorem crash_iff (h : Answered d arg command reply) :
    (∃ c, reply.signal = .crash c) ↔ command.counts = true ∧ Text.Unreadable arg := by
  cases h with
  | broken hcounts harg => simp [hcounts, harg]
  | moved hmoves => simp [(Command.of_moves hmoves).1]
  | shown _ _ _ harg => simpa using harg
  | left hleaves => simp [Command.counts_of_leaves hleaves]
  | set harg => simp [harg]
  | notSet harg => simp [harg]
  | cleared harg => simp [harg]
  | notCleared harg => simp [harg]

theorem leave_iff (h : Answered d arg command reply) :
    reply.signal = .leave ↔ command.leaves = true := by
  cases h with
  | broken hcounts =>
    have hleaves : command.leaves ≠ true := by
      intro hleaves
      simp [Command.counts_of_leaves hleaves] at hcounts
    simp [hleaves]
  | moved hmoves => simp [(Command.of_moves hmoves).2]
  | shown _ _ hleaves => simp [hleaves]
  | left hleaves => simp [hleaves]
  | set => simp [Command.leaves]
  | notSet => simp [Command.leaves]
  | cleared => simp [Command.leaves]
  | notCleared => simp [Command.leaves]

theorem unmoved (h : Answered d arg command reply) (hmoves : command.moves = false) :
    reply.session.debugger.machine = d.machine ∧ reply.session.debugger.status = d.status ∧
      reply.session.debugger.fault = d.fault := by
  cases h with
  | moved hmoved => simp [hmoves] at hmoved
  | _ => exact ⟨rfl, rfl, rfl⟩

theorem unmarked (h : Answered d arg command reply) (hmoves : command.moves = false)
    (hmarks : command.marks = false) : reply.session.debugger = d := by
  cases h with
  | moved hmoved => simp [hmoves] at hmoved
  | set => simp [Command.marks] at hmarks
  | cleared => simp [Command.marks] at hmarks
  | _ => rfl

theorem sound (h : Answered d arg command reply) (hd : d.Sound) :
    reply.session.debugger.Sound := by
  cases h with
  | moved _ call => exact (Debugger.effect_perform hd call).sound hd
  | set => exact ⟨hd.truthful.of_same rfl rfl rfl, hd.numbered.add _⟩
  | cleared => exact ⟨hd.truthful.of_same rfl rfl rfl, hd.numbered.clear _⟩
  | _ => exact hd

theorem of_unreadable (h : Answered d arg command reply) (hcounts : command.counts = true)
    (harg : Text.Unreadable arg) : reply.session.debugger = d ∧ reply.output = "" := by
  cases h with
  | broken => exact ⟨rfl, rfl⟩
  | moved hmoves => simp [(Command.of_moves hmoves).1] at hcounts
  | shown _ _ _ hreadable => exact absurd harg (hreadable hcounts)
  | left hleaves => simp [Command.counts_of_leaves hleaves] at hcounts
  | set hreadable => exact absurd harg hreadable
  | notSet hreadable => exact absurd harg hreadable
  | cleared hreadable => exact absurd harg hreadable
  | notCleared hreadable => exact absurd harg hreadable

theorem of_setBreakpoint (h : Answered d arg .setBreakpoint reply) (harg : ¬Text.Unreadable arg) :
    (arg ≠ "" → d.Takes (watchOf arg) → reply.session.debugger = d.watching (watchOf arg) ∧
      reply.output = createdText d (watchOf arg)) ∧
    (arg = "" ∨ ¬d.Takes (watchOf arg) → reply.session.debugger = d ∧
      (reply.output = "usage: break <state|line>" ++ "\n" ∨
        ∃ e : BreakpointError, reply.output = "error: " ++ e.message ++ "\n")) := by
  cases h with
  | broken _ hbroken => exact absurd hbroken harg
  | moved hmoves => simp [Command.moves] at hmoves
  | shown _ hmarks => simp [Command.marks] at hmarks
  | left hleaves => simp [Command.leaves] at hleaves
  | set _ hnonempty htakes =>
    exact ⟨fun _ _ => ⟨rfl, rfl⟩, fun hnot => absurd htakes (hnot.resolve_left hnonempty)⟩
  | notSet _ _ _ hmessage =>
    cases hmessage with
    | inl hempty =>
      exact ⟨fun hnonempty => absurd hempty.1 hnonempty, fun _ => ⟨rfl, .inl (by rw [hempty.2])⟩⟩
    | inr herror =>
      obtain ⟨_, hnot, e, rfl⟩ := herror
      exact ⟨fun _ htakes => absurd htakes hnot, fun _ => ⟨rfl, .inr ⟨e, rfl⟩⟩⟩

theorem of_clearBreakpoints (h : Answered d arg .clearBreakpoints reply)
    (harg : ¬Text.Unreadable arg) :
    (d.Offers (selectionOf arg) → reply.session.debugger = d.without (selectionOf arg) ∧
      reply.output = removedText d (selectionOf arg)) ∧
    (¬d.Offers (selectionOf arg) → reply.session.debugger = d ∧
      ∃ e : BreakpointError, reply.output = "error: " ++ e.message ++ "\n") := by
  cases h with
  | broken _ hbroken => exact absurd hbroken harg
  | moved hmoves => simp [Command.moves] at hmoves
  | shown _ hmarks => simp [Command.marks] at hmarks
  | left hleaves => simp [Command.leaves] at hleaves
  | cleared _ hoffers => exact ⟨fun _ => ⟨rfl, rfl⟩, fun hnot => absurd hoffers hnot⟩
  | notCleared _ hnot _ e => exact ⟨fun hoffers => absurd hoffers hnot, fun _ => ⟨rfl, e, rfl⟩⟩

end Answered

namespace Session

theorem answered_report {s : Session} {command : Command} (call : Debugger.Call) (arg : String)
    {result : Except Fault (Outcome × Debugger)} (hmoves : command.moves = true)
    (hcall : s.debugger.perform call = s.debugger.report result)
    (h : ∃ o d, result = .ok (o, d)) : Answered s.debugger arg command (s.report result) := by
  obtain ⟨o, d, rfl⟩ := h
  have hd : (s.debugger.perform call).2 = d := by rw [hcall]; rfl
  rw [← hd]
  exact .moved hmoves call _ _

theorem answered_setBreakpoint {s : Session} (h : s.debugger.Numbered) (arg : String) :
    Answered s.debugger arg .setBreakpoint (s.setBreakpoint arg) := by
  by_cases hempty : arg = ""
  · subst hempty
    exact .notSet (by simp [Text.Unreadable, Text.isDigits]) _ _ (.inl ⟨rfl, rfl⟩)
  · have hnonempty : arg.isEmpty = false := by simpa using hempty
    by_cases harg : Text.Unreadable arg
    · obtain ⟨c, hc⟩ := exists_numberOr_eq_error harg Watch.line (.state arg)
      simp only [setBreakpoint, hnonempty, hc]
      exact .broken rfl harg _ c
    · have hwatch : numberOr arg Watch.line (.state arg) = .ok (watchOf arg) :=
        numberOr_of_readable harg _ _
      by_cases htakes : s.debugger.Takes (watchOf arg)
      · simp only [setBreakpoint, hnonempty, hwatch,
          Debugger.run_addBreakpoint_of_takes h htakes]
        exact .set harg hempty htakes _ _
      · obtain ⟨e, he⟩ := Debugger.run_addBreakpoint_of_not_takes htakes
        simp only [setBreakpoint, hnonempty, hwatch, he]
        exact .notSet harg _ _ (.inr ⟨hempty, htakes, e, rfl⟩)

theorem answered_clearBreakpoints {s : Session} (h : s.debugger.Numbered) (arg : String) :
    Answered s.debugger arg .clearBreakpoints (s.clearBreakpoints arg) := by
  by_cases harg : Text.Unreadable arg
  · have hnonempty : arg.isEmpty = false := by
      have hdigits := harg.1
      simp only [Text.isDigits, Bool.and_eq_true, Bool.not_eq_true'] at hdigits
      exact hdigits.1
    obtain ⟨c, hc⟩ := exists_numberOr_eq_error harg Selection.byId (.onState arg)
    simp only [clearBreakpoints, hnonempty, hc]
    exact .broken rfl harg _ c
  · have hselection : (if arg.isEmpty = true then .ok .all
        else numberOr arg Selection.byId (.onState arg)) = .ok (selectionOf arg) := by
      rw [numberOr_of_readable harg, selectionOf]
      split
      · rfl
      · rfl
    by_cases hoffers : s.debugger.Offers (selectionOf arg)
    · simp only [clearBreakpoints, hselection, Debugger.run_clearBreakpoints_of_offers h hoffers]
      exact .cleared harg hoffers _
    · obtain ⟨e, he⟩ := Debugger.run_clearBreakpoints_of_not_offers h hoffers
      simp only [clearBreakpoints, hselection, he]
      exact .notCleared harg hoffers _ e

theorem answered_perform {s : Session} (h : s.debugger.Sound) (command : Command) (arg : String) :
    Answered s.debugger arg command (s.perform command arg) := by
  have hgo : ∀ limit budget, ∃ o d, s.debugger.advance limit budget = .ok (o, d) := by
    intro limit budget
    cases hover : s.debugger.status.isFinished with
    | true => exact ⟨_, _, Debugger.advance_of_finished hover limit budget⟩
    | false =>
      obtain ⟨o, d, hadvance, _⟩ := Debugger.exists_advance h.truthful hover limit budget
      exact ⟨o, d, hadvance⟩
  cases command with
  | step => exact answered_report .step arg rfl rfl (hgo _ _)
  | resume => exact answered_report (.resume none) arg rfl rfl (hgo _ _)
  | reset => exact .moved rfl (.reset none) _ _
  | tape => exact .moved rfl (.reset (some arg)) _ _
  | setBreakpoint => exact answered_setBreakpoint h.numbered arg
  | clearBreakpoints => exact answered_clearBreakpoints h.numbered arg
  | listBreakpoints =>
    rw [perform, listBreakpoints]
    split
    · exact .shown rfl rfl rfl (by simp [Command.counts]) _ _
    · exact .shown rfl rfl rfl (by simp [Command.counts]) _ _
  | inspect =>
    rw [perform, inspect]
    by_cases harg : Text.Unreadable arg
    · obtain ⟨c, hc⟩ := exists_numberOr_eq_error harg some none
      rw [hc]
      exact .broken rfl harg _ c
    · rw [numberOr_of_readable harg]
      exact .shown rfl rfl rfl (fun _ => harg) _ _
  | quit => exact .left rfl _ _
  | endOfInput => exact .left rfl _ _
  | help =>
    rw [perform, help]
    split
    · exact .shown rfl rfl rfl (by simp [Command.counts]) _ _
    · exact .shown rfl rfl rfl (by simp [Command.counts]) _ _

def due (s : Session) (line : String) : List Char :=
  if Text.trim line.toList = [] then Text.trim s.lastLine.toList else Text.trim line.toList

def word (s : Session) (line : String) : String :=
  String.ofList ((s.due line).takeWhile isWordChar)

def argument (s : Session) (line : String) : String :=
  String.ofList (Text.trim ((s.due line).dropWhile isWordChar))

variable {s : Session}

theorem handle_eq (s : Session) (line : String) :
    s.handle line = if s.due line = [] then ⟨"", s, .goOn, []⟩ else s.dispatch (s.due line) := by
  rw [handle, due]
  split
  · next hline =>
    rw [if_pos hline]
    split
    · next hlast => rw [if_pos hlast]
    · next hlast => rw [if_neg hlast]
  · next hline => rw [if_neg hline, if_neg hline]

theorem exists_dispatch_eq {line : List Char} {command : Command}
    (h : Command.ofWord? (String.ofList (line.takeWhile isWordChar)) = some command) :
    ∃ last, s.dispatch line = (⟨s.debugger, last⟩ : Session).perform command
      (String.ofList (Text.trim (line.dropWhile isWordChar))) := by
  -- Lines that begin with an exclamation or a question mark have no word in front.
  have hfront : ∀ c rest, line = c :: rest → isWordChar c = true := by
    intro c rest hline
    subst hline
    by_contra hc
    simp [hc, show Command.ofWord? (String.ofList []) = none by decide] at h
  rw [dispatch.eq_def]
  split
  · next rest => simp [isWordChar] at hfront
  · split
    · next rest _ => simp [isWordChar] at hfront
    · simp only [h]
      exact ⟨_, rfl⟩

theorem help_keeps (s : Session) (topic : String) :
    (s.help topic).session.debugger = s.debugger ∧ (s.help topic).signal = .goOn := by
  rw [help]
  split
  · exact ⟨rfl, rfl⟩
  · exact ⟨rfl, rfl⟩

theorem dispatch_of_no_word {line : List Char}
    (h : Command.ofWord? (String.ofList (line.takeWhile isWordChar)) = none) :
    (s.dispatch line).session.debugger = s.debugger ∧ (s.dispatch line).signal = .goOn := by
  rw [dispatch.eq_def]
  split
  · exact ⟨rfl, rfl⟩
  · split
    · next rest _ =>
      have hword : ("help ".toList ++ rest).takeWhile isWordChar = "help".toList := by
        simp [isWordChar]
      have hhelp : Command.ofWord? (String.ofList "help".toList) = some .help := by decide
      simp only [hword, hhelp]
      exact help_keeps _ _
    · simp only [h]
      exact ⟨rfl, rfl⟩

theorem answered_handle {line : String} {command : Command} (h : s.debugger.Sound)
    (hword : Command.ofWord? (s.word line) = some command) :
    Answered s.debugger (s.argument line) command (s.handle line) := by
  have hdue : s.due line ≠ [] := by
    intro hnil
    simp [word, hnil, show Command.ofWord? (String.ofList []) = none by decide] at hword
  obtain ⟨last, hdispatch⟩ := exists_dispatch_eq hword
  rw [handle_eq, if_neg hdue, hdispatch]
  exact answered_perform (s := ⟨s.debugger, last⟩) h command _

theorem handle_of_no_word {line : String} (h : Command.ofWord? (s.word line) = none) :
    (s.handle line).session.debugger = s.debugger ∧ (s.handle line).signal = .goOn := by
  rw [handle_eq]
  split
  · exact ⟨rfl, rfl⟩
  · exact dispatch_of_no_word h

def movingWords : List String :=
  ["step", "s", "next", "n", "continue", "c", "run", "reset", "tape"]

def countingWords : List String := ["break", "b", "clear", "inspect", "i"]

def leavingWords : List String := ["quit", "q", "EOF"]

def Breaks (s : Session) (line : String) : Prop :=
  s.word line ∈ countingWords ∧ Text.Unreadable (s.argument line)

def Leaves (s : Session) (line : String) : Prop := s.word line ∈ leavingWords

structure Handled (s : Session) (line : String) : Prop where
  breaks_iff : (∃ c, (s.handle line).signal = .crash c) ↔ s.Breaks line
  leaves_iff : (s.handle line).signal = .leave ↔ s.Leaves line
  broken : s.Breaks line →
    (s.handle line).session.debugger = s.debugger ∧ (s.handle line).output = ""
  /-- Only the words that set the machine going or start it anew touch it. -/
  unmoved : s.word line ∉ movingWords →
    (s.handle line).session.debugger.machine = s.debugger.machine ∧
    (s.handle line).session.debugger.status = s.debugger.status ∧
    (s.handle line).session.debugger.fault = s.debugger.fault
  /-- Of the other words only those for breakpoints change anything. -/
  unmarked : s.word line ∉ movingWords → s.word line ∉ ["break", "b", "clear"] →
    (s.handle line).session.debugger = s.debugger
  set : s.word line ∈ ["break", "b"] → ¬s.Breaks line →
    (s.argument line ≠ "" → s.debugger.Takes (watchOf (s.argument line)) →
      (s.handle line).session.debugger = s.debugger.watching (watchOf (s.argument line)) ∧
      (s.handle line).output = createdText s.debugger (watchOf (s.argument line))) ∧
    (s.argument line = "" ∨ ¬s.debugger.Takes (watchOf (s.argument line)) →
      (s.handle line).session.debugger = s.debugger ∧
      ((s.handle line).output = "usage: break <state|line>" ++ "\n" ∨
        ∃ e : BreakpointError, (s.handle line).output = "error: " ++ e.message ++ "\n"))
  cleared : s.word line ∈ ["clear"] → ¬s.Breaks line →
    (s.debugger.Offers (selectionOf (s.argument line)) →
      (s.handle line).session.debugger = s.debugger.without (selectionOf (s.argument line)) ∧
      (s.handle line).output = removedText s.debugger (selectionOf (s.argument line))) ∧
    (¬s.debugger.Offers (selectionOf (s.argument line)) →
      (s.handle line).session.debugger = s.debugger ∧
      ∃ e : BreakpointError, (s.handle line).output = "error: " ++ e.message ++ "\n")

theorem mem_movingWords_iff (word : String) :
    word ∈ movingWords ↔ (Command.ofWord? word).any Command.moves = true :=
  Command.mem_iff_of_kind (by decide) (fun command => by cases command <;> decide) word

theorem mem_markingWords_iff (word : String) :
    word ∈ ["break", "b", "clear"] ↔ (Command.ofWord? word).any Command.marks = true :=
  Command.mem_iff_of_kind (by decide) (fun command => by cases command <;> decide) word

theorem mem_countingWords_iff (word : String) :
    word ∈ countingWords ↔ (Command.ofWord? word).any Command.counts = true :=
  Command.mem_iff_of_kind (by decide) (fun command => by cases command <;> decide) word

theorem mem_leavingWords_iff (word : String) :
    word ∈ leavingWords ↔ (Command.ofWord? word).any Command.leaves = true :=
  Command.mem_iff_of_kind (by decide) (fun command => by cases command <;> decide) word

theorem handled_of_no_word {line : String} (h : Command.ofWord? (s.word line) = none) :
    s.Handled line := by
  obtain ⟨hdebugger, hsignal⟩ := handle_of_no_word h
  have hbreaks : ¬s.Breaks line := by
    intro hbreak
    have hword := hbreak.1
    simp [mem_countingWords_iff, h] at hword
  refine ⟨by simp [hsignal, hbreaks], ?_, fun hb => absurd hb hbreaks, fun _ => by simp [hdebugger],
    fun _ _ => hdebugger, fun hword => ?_, fun hword => ?_⟩
  · simp [hsignal, Leaves, mem_leavingWords_iff, h]
  · simp [(Command.ofWord?_eq_some_iff _ .setBreakpoint).2 hword] at h
  · simp [(Command.ofWord?_eq_some_iff _ .clearBreakpoints).2 hword] at h

theorem handled_of_word {line : String} {command : Command} (h : s.debugger.Sound)
    (hword : Command.ofWord? (s.word line) = some command) : s.Handled line := by
  have hanswered := answered_handle h hword
  have hbreaks : s.Breaks line ↔ command.counts = true ∧ Text.Unreadable (s.argument line) := by
    simp [Breaks, mem_countingWords_iff, hword]
  refine ⟨hanswered.crash_iff.trans hbreaks.symm, ?_, fun hbroken => ?_, fun hstill => ?_,
    fun hstill hplain => ?_, fun hset hreadable => ?_, fun hclear hreadable => ?_⟩
  · simp [hanswered.leave_iff, Leaves, mem_leavingWords_iff, hword]
  · exact hanswered.of_unreadable (hbreaks.1 hbroken).1 (hbreaks.1 hbroken).2
  · exact hanswered.unmoved (by simpa [mem_movingWords_iff, hword] using hstill)
  · rw [mem_movingWords_iff] at hstill
    rw [mem_markingWords_iff] at hplain
    exact hanswered.unmarked (by simpa [hword] using hstill) (by simpa [hword] using hplain)
  · obtain rfl : Command.setBreakpoint = command := by
      simpa [hword] using ((Command.ofWord?_eq_some_iff _ .setBreakpoint).2 hset).symm
    exact hanswered.of_setBreakpoint fun harg => hreadable (hbreaks.2 ⟨rfl, harg⟩)
  · obtain rfl : Command.clearBreakpoints = command := by
      simpa [hword] using ((Command.ofWord?_eq_some_iff _ .clearBreakpoints).2 hclear).symm
    exact hanswered.of_clearBreakpoints fun harg => hreadable (hbreaks.2 ⟨rfl, harg⟩)

theorem handled (h : s.debugger.Sound) (line : String) : s.Handled line := by
  cases hword : Command.ofWord? (s.word line) with
  | none => exact handled_of_no_word hword
  | some command => exact handled_of_word h hword

theorem sound_handle (h : s.debugger.Sound) (line : String) :
    (s.handle line).session.debugger.Sound := by
  cases hword : Command.ofWord? (s.word line) with
  | none => rwa [(handle_of_no_word hword).1]
  | some command => exact (answered_handle h hword).sound h

def reached (s : Session) : List String → Session
  | [] => s
  | line :: rest => (s.handle line).session.reached rest

def StaysOpen (s : Session) : List String → Prop
  | [] => True
  | line :: rest => ¬s.Leaves line ∧ ¬s.Breaks line ∧ (s.handle line).session.StaysOpen rest

theorem sound_reached (h : s.debugger.Sound) (lines : List String) :
    (s.reached lines).debugger.Sound := by
  induction lines generalizing s with
  | nil => exact h
  | cons line rest ih => exact ih (sound_handle h line)

def BreaksWithin (s : Session) (lines : List String) : Prop :=
  ∃ before line rest, lines = before ++ line :: rest ∧ s.StaysOpen before ∧
    (s.reached before).Breaks line

theorem breaksWithin_cons {line : String} {rest : List String} :
    s.BreaksWithin (line :: rest) ↔ s.Breaks line ∨
      ¬s.Leaves line ∧ ¬s.Breaks line ∧ (s.handle line).session.BreaksWithin rest := by
  constructor
  · intro h
    obtain ⟨before, broken, later, heq, hopen, hbreaks⟩ := h
    cases before with
    | nil =>
      obtain ⟨rfl, rfl⟩ := List.cons.inj heq
      exact .inl hbreaks
    | cons first before =>
      obtain ⟨rfl, rfl⟩ := List.cons.inj heq
      exact .inr ⟨hopen.1, hopen.2.1, before, broken, later, rfl, hopen.2.2, hbreaks⟩
  · intro h
    cases h with
    | inl hbreaks => exact ⟨[], line, rest, rfl, trivial, hbreaks⟩
    | inr hlater =>
      obtain ⟨hleaves, hgoes, before, broken, later, rfl, hopen, hbreaks⟩ := hlater
      exact ⟨line :: before, broken, later, rfl, ⟨hleaves, hgoes, hopen⟩, hbreaks⟩

/-- A whole session breaks off exactly if one of its lines makes it. -/
theorem converse_crash_iff (h : s.debugger.Sound) (lines : List String) :
    (∃ c, (s.converse lines).crash = some c) ↔ s.BreaksWithin lines := by
  induction lines generalizing s with
  | nil => simp [converse, BreaksWithin]
  | cons line rest ih =>
    have hline := handled h line
    -- What the signal says of the line is what is known of its word; the rest is the later lines.
    rw [breaksWithin_cons, ← hline.breaks_iff, ← hline.leaves_iff,
      ← ih (sound_handle h line)]
    cases hsignal : (s.handle line).signal with
    | goOn => simp [converse, hsignal]
    | leave => simp [converse, hsignal]
    | crash c => simp [converse, hsignal]

/-- Whatever has been done to a debugger, and whatever lines its shell has been given since: a line
breaks the session off exactly if it gives a numeral that cannot be read to a command that takes one;
the session is left for the three words for leaving only; the machine, the status and the fault change
only with the words that move the machine; and a breakpoint that cannot be set or cleared is reported
and changes nothing. So a whole session breaks off only at such a numeral. -/
theorem broken_off_by_numerals_only (table : Table) (tape : String) (settings : Settings)
    (calls : List Debugger.Call) (lastLine : String) (lines : List String) :
    let s : Session := ⟨(Debugger.new table tape settings).after calls, lastLine⟩
    (∀ line, (s.reached lines).Handled line) ∧
      ((∃ c, (s.converse lines).crash = some c) ↔ s.BreaksWithin lines) := by
  intro s
  have hsound : s.debugger.Sound :=
    Debugger.sound_after (Debugger.sound_new table tape settings) calls
  exact ⟨handled (sound_reached hsound lines), converse_crash_iff hsound lines⟩

theorem handle_raised_digit (s : Session) :
    s.handle "break ²" = ⟨"", ⟨s.debugger, "break ²"⟩, .crash (.badNumeral "²"), []⟩ := rfl

theorem handle_unknown_state (h : "ghost" ∉ s.debugger.knownStates) :
    (s.handle "break ghost").output = "error: no such state: 'ghost'\n" := by
  have hhandle : s.handle "break ghost" =
      (⟨s.debugger, "break ghost"⟩ : Session).setBreakpoint "ghost" := rfl
  have hwatch : numberOr "ghost" Watch.line (.state "ghost") = .ok (.state "ghost") := rfl
  have hrefusal : s.debugger.refusal? (.state "ghost") = some (.noState "ghost") := if_neg h
  have herror : (Debugger.addBreakpoint (.state "ghost")).run s.debugger =
      .error (.noState "ghost") s.debugger := by
    simp only [Debugger.addBreakpoint, EStateM.run_bind, EStateM.run_get, hrefusal]
    rfl
  simp only [hhandle, setBreakpoint, hwatch, herror]
  rfl

set_option maxRecDepth 20000 in
/-- A raised digit is a digit sign and no decimal digit. Where another word that names no state is
refused, it breaks the session off. -/
theorem raised_digit_breaks_off :
    ∃ p t, Program.parse "start = a\na 0 = 0; a next\n" "<input>" = .ok p ∧ p.expand = .ok t ∧
      ((start (.new t)).handle "break ghost").output = "error: no such state: 'ghost'\n" ∧
      ((start (.new t)).handle "break ²").output = "" ∧
      ((start (.new t)).run ["break ²"]).crash = some (.badNumeral "²") := by
  obtain ⟨p, hp, hany⟩ := exists_ok_of_any
    (x := Program.parse "start = a\na 0 = 0; a next\n" "<input>")
    (t := fun p => p.expand.toOption.any fun t => !(Debugger.new t).knownStates.contains "ghost")
    (by decide_cbv)
  obtain ⟨t, ht, hghost⟩ := exists_ok_of_any hany
  have hunknown : "ghost" ∉ (Debugger.new t).knownStates := by simpa using hghost
  refine ⟨p, t, hp, ht, handle_unknown_state hunknown, by rw [handle_raised_digit], ?_⟩
  simp [run, converse, handle_raised_digit]

end Session

end Shell

end GenericTuring
