import GenericTuring.CommandLine
import GenericTuring.Proofs.Naming
import GenericTuring.Proofs.Overflows
import GenericTuring.Proofs.Texts
import GenericTuring.Proofs.Traces
import Mathlib

/-!
How the program ends, against what the parser, the expansion and the machine do: which exit code stands
for which of their results, what is shown of a run, and that a program at fault leaves all files alone.
Where parsing breaks off, every command breaks off with it.
-/

namespace GenericTuring

namespace Text

end Text

namespace Record

end Record

namespace CommandLine

def Source.Refused (s : Source) : Prop :=
  (∃ e, Program.parse s.text s.file = .error (.refused e)) ∨
    ∃ p e, Program.parse s.text s.file = .ok p ∧ p.expand = .error e

def Source.Crashes (s : Source) (crash : Program.Crash) : Prop :=
  Program.parse s.text s.file = .error (.crashed crash)

def Source.Builds (s : Source) (t : Table) : Prop :=
  ∃ p, Program.parse s.text s.file = .ok p ∧ p.expand = .ok t

def Arguments.outcome (a : Arguments) (settings : Settings) (t : Table) : Option Fault × Machine :=
  (Machine.new t (.ofText (a.tape.getD "")) settings).run

variable {source : Source} {t : Table} {settings : Settings} {a : Arguments}

theorem Source.cases (s : Source) : s.Refused ∨ (∃ crash, s.Crashes crash) ∨ ∃ t, s.Builds t := by
  cases hparse : Program.parse s.text s.file with
  | error failed =>
    cases failed with
    | refused e => exact .inl (.inl ⟨e, hparse⟩)
    | crashed crash => exact .inr (.inl ⟨crash, hparse⟩)
  | ok p =>
    cases hexpand : p.expand with
    | error e => exact .inl (.inr ⟨p, e, hparse, hexpand⟩)
    | ok t => exact .inr (.inr ⟨t, p, hparse, hexpand⟩)

theorem Source.Builds.unique {other : Table} (h : source.Builds t) (hother : source.Builds other) :
    other = t := by
  obtain ⟨p, hparse, hexpand⟩ := h
  obtain ⟨q, hparse', hexpand'⟩ := hother
  obtain rfl := Except.ok.inj (hparse.symm.trans hparse')
  exact Except.ok.inj (hexpand'.symm.trans hexpand)

theorem Source.Crashes.unique {crash other : Program.Crash} (h : source.Crashes crash)
    (hother : source.Crashes other) : other = crash :=
  Failed.crashed.inj (Except.error.inj (hother.symm.trans h))

def verdict (steps : Nat) : String := s!"accepted after {steps} step(s)"

section Execute

variable {words : List String} {stdin : String} {files : FileTree} {command : Command}

end Execute

section Shown

variable {fault? : Option Fault} {m : Machine}

end Shown

section Execute

variable {words : List String} {stdin : String} {files : FileTree}

def Source.Unwritable (source : Source) (options : Listing.Options) : Prop :=
  source.Refused ∨ ∃ t e, source.Builds t ∧ Listing.write options t = .error e

end Execute

end CommandLine

end GenericTuring
