import GenericTuring.Diagnostic
import GenericTuring.Flow
import GenericTuring.Table

/-!
From programs to tables. Every state that can be reached from the start reference, by taking an argument
or by following a rule, gets a row. Programs whose references would grow without end are refused first.
-/

namespace GenericTuring

namespace Term

def upTo {α : Type} (atoms : List α) : Nat → List (Term α)
  | 0 => atoms.map atom
  | h + 1 =>
    atoms.map atom ++ (upTo atoms h).flatMap fun f => (upTo atoms h).map fun x => app f x

theorem mem_upTo {α : Type} {atoms : List α} {t : Term α} {h : Nat} (hh : t.height ≤ h)
    (ha : ∀ a ∈ t.atoms, a ∈ atoms) : t ∈ upTo atoms h := by
  induction t generalizing h with
  | atom a =>
    have := ha a (by simp [Term.atoms])
    cases h <;> simp [upTo, this]
  | app f x ihf ihx =>
    cases h with
    | zero => simp [height] at hh
    | succ h =>
      have hf : f ∈ upTo atoms h :=
        ihf (by simp [height] at hh; omega) fun a h => ha a (by simp [Term.atoms, h])
      have hx : x ∈ upTo atoms h :=
        ihx (by simp [height] at hh; omega) fun a h => ha a (by simp [Term.atoms, h])
      simp only [upTo, List.mem_append, List.mem_flatMap, List.mem_map]
      exact .inr ⟨f, hf, x, hx, rfl⟩

end Term

inductive Meaning where
  | finish
  | defined (d : Definition)
  | undefined
  | mismatch (expected : Nat)
  deriving DecidableEq, Repr

def Meaning.isResolved : Meaning → Bool
  | finish | defined _ => true
  | undefined | mismatch _ => false

inductive ExpansionError where
  /-- A cycle of hand-overs, beginning with an expanding one, in the definition `owner`. -/
  | cycle (owner : Definition) (edges : List Flow.Edge)
  | undefined (name : String) (loc : Loc) (chain : List Key)
  | mismatch (name : String) (expected got : Nat) (loc : Loc) (chain : List Key)
  /-- A reference mentions a parameter that nothing binds. No text gives such a program. -/
  | unbound (ref : Ref)
  /-- A state lies outside the bounds of its program. No program without cycles has one. -/
  | outgrown (key : Key)

namespace Program

def meaning (p : Program) (key : Key) : Meaning :=
  if key.head = finishName then
    if key.args.isEmpty then .finish else .mismatch 0
  else match p.definition? key.head with
    | none => .undefined
    | some d => if d.arity = key.args.length then .defined d else .mismatch d.arity

def bindings (d : Definition) (key : Key) : List (String × Key) := d.params.zip key.args

/-- The states that a state leads to: its arguments, then the targets of its rules. A target comes with
the place of the reference to it. -/
def successors (p : Program) (key : Key) : List (Option Loc × Key) :=
  match p.meaning key with
  | .defined d =>
    (key.args.map fun arg => (none, arg)) ++ d.rules.filterMap fun r =>
      (r.target.instantiate? (bindings d key)).map fun target => (some r.target.loc, target)
  | _ => []

structure Bounds where
  names : List String
  height : Nat

/-- A key is made of names of the program, and no state of a program without expanding cycles is higher
than this: a rule raises a parameter by at most the height of its target, and a value is raised at most
once for each parameter on its way. -/
def bounds (p : Program) : Bounds where
  names := p.names
  height :=
    let targets := p.definitions.flatMap fun d => d.rules.map fun r => Term.height r.target
    let params := (p.definitions.flatMap Definition.params).length
    Term.height p.start + (params + 2) * (targets.foldl max 0 + 1)

namespace Bounds

def admits (b : Bounds) (key : Key) : Bool :=
  key.height ≤ b.height && key.atoms.all (· ∈ b.names)

theorem admits_finite (b : Bounds) :
    ∃ nodes : List Key, ∀ k, b.admits k = true → k ∈ nodes :=
  ⟨Term.upTo b.names b.height, fun k hk => by
    simp only [admits, Bool.and_eq_true, decide_eq_true_eq, List.all_eq_true] at hk
    exact Term.mem_upTo hk.1 hk.2⟩

end Bounds

def states (p : Program) (start : Key) : Search.Found Key (Option Loc) :=
  let bounds := p.bounds
  Search.search p.successors (fun key => !(p.meaning key).isResolved) bounds.admits
    bounds.admits_finite [start]

def row (p : Program) (key : Key) : Except ExpansionError Row :=
  match p.meaning key with
  | .defined d => d.rules.mapM fun r =>
    match r.target.instantiate? (bindings d key) with
    | some target => .ok (r.read, ⟨r.write, target, r.move, r.loc⟩)
    | none => .error (.unbound r.target)
  | _ => .ok []

def site (p : Program) (v : Search.Visit Key (Option Loc)) : Loc :=
  -- An argument stands where its state does.
  ((v.trail.map Prod.snd).findSome? id).getD p.start.loc

def refusal (p : Program) (v : Search.Visit Key (Option Loc)) : ExpansionError :=
  match p.meaning v.node with
  | .mismatch expected =>
    .mismatch v.node.head expected v.node.args.length (p.site v) v.chain
  | _ => .undefined v.node.head (p.site v) v.chain

def expandingCycle? (p : Program) : Option (Definition × List Flow.Edge) := do
  let (first, back) ← Flow.cycle? (Flow.edges p)
  let owner ← p.definition? first.source.state
  return (owner, first :: back)

def startKey (p : Program) : Except ExpansionError Key :=
  match p.start.instantiate? [] with
  | some key => .ok key
  | none => .error (.unbound p.start)

def outgrown? (p : Program) (found : Search.Found Key (Option Loc)) : Option Key :=
  let bounds := p.bounds
  found.visits.findSome? fun v =>
    ((p.successors v.node).find? fun s => !bounds.admits s.2).map Prod.snd

def expand (p : Program) : Except ExpansionError Table := do
  match p.expandingCycle? with
  | some (owner, edges) => .error (.cycle owner edges)
  | none =>
    let start ← p.startKey
    let found := p.states start
    match found.stop with
    | some v => .error (p.refusal v)
    | none =>
      if let some key := p.outgrown? found then .error (.outgrown key)
      let rows ← found.visits.mapM fun v => do return (v.node, ← p.row v.node)
      let reached := rows.map fun r => r.1.head
      return ⟨start, rows, p.definitions.filter fun d => d.name ∉ reached, some p⟩

end Program

namespace ExpansionError

def diagnostic (file : String) : ExpansionError → Diagnostic
  | cycle owner edges =>
    let head := owner.name ++ "<" ++ ", ".intercalate owner.params ++ ">"
    let span := (edges.head?.map fun e => Span.ofLoc file e.ref.loc).getD .unknown
    .of (.unresolved (.instantiationCycle (head :: edges.map fun e => e.ref.text)) []) span
  | undefined name loc chain =>
    .of (.unresolved (.undefinedState name) (chain.map Key.text)) (.ofLoc file loc)
  | mismatch name expected got loc chain =>
    .of (.unresolved (.arityMismatch name expected got) (chain.map Key.text)) (.ofLoc file loc)
  | unbound ref =>
    .of (.unresolved (.plain s!"unbound parameter in '{ref.text}'") []) (.ofLoc file ref.loc)
  | outgrown key => .of (.unresolved (.plain s!"state '{key.text}' is out of bounds") [])

end ExpansionError

end GenericTuring
