import GenericTuring.Statement

/-!
Gathering statements into a program. Lines with one head become one definition, whose parameters are
those of its first line; on every other line the parameters may be spelt differently and are renamed.
-/

namespace GenericTuring

inductive AssemblyError where
  | secondStart (loc first : Loc)
  | noStart
  | reservedName (loc : Loc)
  | repeatedParam (param : String) (loc : Loc)
  | redeclared (name : String) (expected got : Nat) (loc first : Loc)
  | duplicateRule (name : String) (read : Symbol) (loc first : Loc)
  | paramWithArgs (param : String) (loc : Loc)
  | undeclared (name owner : String) (loc : Loc)
  deriving DecidableEq, Repr

/-- The rule lines with one head, in source order. The first of them comes with it. -/
structure Entry where
  first : RuleLine
  others : List RuleLine

namespace Entry

def name (e : Entry) : String := e.first.head

def lines (e : Entry) : List RuleLine := e.first :: e.others

end Entry

structure Outline where
  start : Option (RawRef × Loc)
  entries : List Entry

namespace Outline

def empty : Outline := ⟨none, []⟩

def entry? (o : Outline) (name : String) : Option Entry := o.entries.find? fun e => e.name = name

def insert (line : RuleLine) : List Entry → List Entry
  | [] => [⟨line, []⟩]
  | e :: es =>
    if e.name = line.head then { e with others := e.others ++ [line] } :: es
    else e :: insert line es

def checkParams (loc : Loc) (seen : List String) : List String → Except AssemblyError Unit
  | [] => .ok ()
  | param :: rest =>
    if param = finishName then .error (.reservedName loc)
    else if param ∈ seen then .error (.repeatedParam param loc)
    else checkParams loc (seen ++ [param]) rest

def checkHead (line : RuleLine) : Except AssemblyError Unit :=
  if line.head = finishName then .error (.reservedName line.loc)
  else checkParams line.loc [] line.params

def add (o : Outline) : Statement → Except AssemblyError Outline
  | .start target loc =>
    match o.start with
    | some (_, first) => .error (.secondStart loc first)
    | none => .ok { o with start := some (target, loc) }
  | .rule line => do
    checkHead line
    match o.entry? line.head with
    | none => .ok { o with entries := insert line o.entries }
    | some e =>
      if e.first.params.length = line.params.length then
        .ok { o with entries := insert line o.entries }
      else
        .error (.redeclared line.head e.first.params.length line.params.length line.loc e.first.loc)

def ofStatements (statements : List Statement) : Except AssemblyError Outline :=
  statements.foldlM add empty

end Outline

namespace RawRef

/-- Tells parameters from states in a reference. The scope gives for each parameter of the line the
parameter of the definition that it stands for. A name that is given arguments cannot be a parameter;
on a line with parameters any other name has to be one of them, a defined state or the accepting
state. -/
def resolve (scope : List (String × String)) (defined : List String) (owner : String)
    (applied : Bool) : RawRef → Except AssemblyError Ref
  | .atom a =>
    match scope.lookup a.val with
    | some param =>
      if applied then .error (.paramWithArgs a.val a.loc) else .ok (.atom ⟨.param param, a.loc⟩)
    | none =>
      if applied || scope.isEmpty || a.val ∈ defined || a.val = finishName then
        .ok (.atom ⟨.state a.val, a.loc⟩)
      else .error (.undeclared a.val owner a.loc)
  | .app f x => do
    let head ← resolve scope defined owner true f
    let arg ← resolve scope defined owner false x
    return .app head arg

def closed (ref : RawRef) : Ref := Term.bind (fun a => .atom ⟨.state a.val, a.loc⟩) ref

end RawRef

namespace Entry

def rule (e : Entry) (defined : List String) (line : RuleLine) : Except AssemblyError Rule := do
  let target ← RawRef.resolve (line.params.zip e.first.params) defined e.name false line.target
  return ⟨line.read.val, line.write.val, target, line.move, line.loc⟩

def rules (e : Entry) (defined : List String) (done : List Rule) :
    List RuleLine → Except AssemblyError (List Rule)
  | [] => .ok done
  | line :: rest =>
    match done.find? fun r => r.read = line.read.val with
    | some r => .error (.duplicateRule e.name line.read.val line.loc r.loc)
    | none => do
      let r ← e.rule defined line
      rules e defined (done ++ [r]) rest

def definition (e : Entry) (defined : List String) : Except AssemblyError Definition := do
  let list ← e.rules defined [] e.lines
  return ⟨e.name, e.first.params, list, e.first.loc⟩

end Entry

namespace Program

def assemble (source file : String) (statements : List Statement) :
    Except AssemblyError Program := do
  let outline ← Outline.ofStatements statements
  match outline.start with
  | none => .error .noStart
  | some (target, loc) =>
    let defined := outline.entries.map Entry.name
    let definitions ← outline.entries.mapM fun e => e.definition defined
    return ⟨definitions, RawRef.closed target, loc, source, file⟩

end Program

end GenericTuring
