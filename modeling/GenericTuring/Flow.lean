import GenericTuring.Program
import GenericTuring.Search

/-!
How parameters flow. A rule of a definition may hand one of its parameters on to a parameter of another
definition, as it is or wrapped in a larger reference. If a wrapped hand-over lies on a cycle, the
program has no finite table.
-/

namespace GenericTuring

namespace Program

def names (p : Program) : List String :=
  (p.start.states ++ p.definitions.flatMap fun d => d.rules.flatMap fun r => r.target.states).map
    Ref.name

def mentions (p : Program) (name : String) : List String :=
  match p.definition? name with
  | none => []
  | some d => (d.rules.flatMap fun r => r.target.states).map Ref.name

def mentioned (p : Program) : List Definition :=
  let found := Search.search (fun name => (p.mentions name).map fun n => ((), n)) (fun _ => false)
    (fun name => decide (name ∈ p.names)) ⟨p.names, by simp⟩ (p.start.states.map Ref.name)
  found.visits.filterMap fun v => p.definition? v.node

end Program

namespace Flow

structure Place where
  state : String
  param : String
  deriving DecidableEq, Repr

/-- At the reference `ref` the parameter `source` is handed to the parameter `target`; the hand-over
expands if the parameter is wrapped in a larger reference on the way. -/
structure Edge where
  source : Place
  target : Place
  expanding : Bool
  ref : Ref
  deriving DecidableEq, Repr

def edgesAt (owner callee : Definition) (ref : Ref) : List Edge :=
  -- Arguments beyond the parameters of the callee hand over nothing.
  (callee.params.zip ref.args).flatMap fun (param, arg) =>
    (Ref.params arg).map fun source =>
      ⟨⟨owner.name, source⟩, ⟨callee.name, param⟩, Ref.isState arg, ref⟩

def edgesOf (p : Program) (owner : Definition) : List Edge :=
  owner.rules.flatMap fun rule => rule.target.states.flatMap fun ref =>
    match p.definition? ref.name with
    | none => []
    | some callee => edgesAt owner callee ref

def edges (p : Program) : List Edge := p.mentioned.flatMap (edgesOf p)

def path? (edges : List Edge) (start goal : Place) : Option (List Edge) :=
  let targets := edges.map Edge.target
  let found := Search.search
    (fun place => (edges.filter fun e => e.source = place).map fun e => (e, e.target))
    (fun place => decide (place = goal)) (fun place => decide (place ∈ targets))
    ⟨targets, by simp⟩ [start]
  found.stop.map Search.Visit.labels

def cycle? (edges : List Edge) : Option (Edge × List Edge) :=
  (edges.filter Edge.expanding).findSome? fun e =>
    (path? edges e.target e.source).map fun back => (e, back)

end Flow

end GenericTuring
