import GenericTuring.Log
import GenericTuring.Program.Parse
import GenericTuring.Table.Expansion

/-!
Building the table of a program text, with a log of what was done.
-/

namespace GenericTuring

structure Build where
  log : List Log.Entry
  table : Except (Failed Diagnostic) Table

namespace Build

def completed (phase elapsed : String) : Log.Entry :=
  ⟨.debug, "gentm", s!"[{phase}] completed in {elapsed}s"⟩

def assembled (p : Program) : Log.Entry :=
  ⟨.debug, "gentm.parser", s!"assembled {p.definitions.length} definition(s) from {p.file}"⟩

def visited (p : Program) : List Key :=
  match p.expandingCycle?, p.startKey with
  | none, .ok start => (p.states start).visits.map fun v => v.node
  | _, _ => []

def built? (p : Program) (key : Key) : Option Log.Entry :=
  match p.meaning key with
  | .defined d =>
    some ⟨.debug, "gentm.expander", s!"built {key.text} ({d.rules.length} rule(s))"⟩
  | _ => none

def expanded (p : Program) (t : Table) : List Log.Entry :=
  (t.unreachable.map fun d =>
    ⟨.warning, "gentm.expander", s!"{d.loc.inFile p.file}: unreachable state definition '{d.name}'"⟩) ++
  [⟨.info, "gentm.expander",
    s!"specialised {t.rows.length} instance(s) from {p.definitions.length} definition(s)"⟩]

def ofSource (elapsed source file : String) : Build :=
  match Program.parse source file with
  | .error failed =>
    ⟨[completed "parse" elapsed], .error (failed.map fun e => e.diagnostic source file)⟩
  | .ok p =>
    let parsed := [assembled p, completed "parse" elapsed]
    let states := (visited p).filterMap (built? p)
    let done := [completed "expand" elapsed]
    match p.expand with
    | .error e => ⟨parsed ++ states ++ done, .error (.refused (e.diagnostic file))⟩
    | .ok t => ⟨parsed ++ states ++ expanded p t ++ done, .ok t⟩

end Build

end GenericTuring
