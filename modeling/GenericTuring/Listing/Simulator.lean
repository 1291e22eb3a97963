import Std.Data.TreeMap
import GenericTuring.Dictionary
import GenericTuring.Listing

/-!
Reading listings back, and running them. States and symbols are plain texts here, and the blank is an
underscore.
-/

namespace GenericTuring.Listing

structure Action where
  target : String
  write : String
  move : Move
  deriving DecidableEq, Repr

structure Simulator where
  name : String
  init : String
  accept : List String
  /-- The action for a state and the symbol read, in the order of the listing. -/
  actions : List ((String × String) × Action)
  deriving DecidableEq, Repr

inductive ReadError where
  | noInit
  | unpaired
  | malformed (first second : String)
  deriving DecidableEq, Repr

def ReadError.message : ReadError → String
  | noInit => "generated text has no 'init:' line"
  | unpaired => "transition lines must come in pairs"
  | malformed first second =>
    "malformed transition: " ++ Text.quoted first ++ " / " ++ Text.quoted second

def ReadError.diagnostic (e : ReadError) : Diagnostic := .of (.unwritable e.message)

def contentLines (text : List Char) : List (List Char) :=
  ((Text.lines text).map Text.trim).filter fun line =>
    !line.isEmpty && !(['/', '/'].isPrefixOf line)

def headerField? (line : List Char) : Option (String × String) :=
  match line.dropWhile (· != ':') with
  | [] => none
  | _ :: value =>
    let field := String.ofList (line.takeWhile (· != ':'))
    if field ∈ ["name", "init", "accept"] then some (field, String.ofList (Text.trim value)) else none

def splitHeader : List (List Char) → List (String × String) × List (List Char)
  -- A header line counts only before the first other line.
  | [] => ([], [])
  | line :: rest =>
    match headerField? line with
    | some field =>
      let (fields, body) := splitHeader rest
      (field :: fields, body)
    | none => ([], line :: rest)

def fieldOf? (header : List (String × String)) (field : String) : Option String :=
  header.reverse.lookup field

def readPair? (first second : List Char) : Option ((String × String) × Action) :=
  match (Text.splitAt ',' first).map String.ofList, (Text.splitAt ',' second).map String.ofList with
  | [state, read], [target, write, letter] =>
    (Move.ofLetter? letter).map fun move => ((state, read), ⟨target, write, move⟩)
  | _, _ => none

def readPairs (actions : List ((String × String) × Action)) :
    List (List Char) → Except ReadError (List ((String × String) × Action))
  | first :: second :: rest =>
    match readPair? first second with
    | some (key, action) => readPairs (Dictionary.assign key action actions) rest
    | none => .error (.malformed (String.ofList first) (String.ofList second))
  | _ => .ok actions

def acceptList (text : String) : List String :=
  ((((Text.splitAt ',' text.toList).map Text.trim).filter (!·.isEmpty)).map String.ofList).eraseDups

def read (text : String) : Except ReadError Simulator := do
  let (header, body) := splitHeader (contentLines text.toList)
  match fieldOf? header "init" with
  | none => .error .noInit
  | some init =>
    if body.length % 2 = 1 then .error .unpaired
    let actions ← readPairs [] body
    return ⟨(fieldOf? header "name").getD "", init,
      acceptList ((fieldOf? header "accept").getD ""), actions⟩

inductive Verdict where
  | accept
  | reject
  | timeout
  deriving DecidableEq, Repr

def Verdict.text : Verdict → String
  | accept => "accept"
  | reject => "reject"
  | timeout => "timeout"

structure Situation where
  state : String
  cells : Std.TreeMap Int String
  head : Int

namespace Situation

def read (s : Situation) (pos : Int) : String := (s.cells[pos]?).getD "_"

def follow (s : Situation) (action : Action) : Situation where
  state := action.target
  cells := if action.write = "_" then s.cells.erase s.head else s.cells.insert s.head action.write
  head := s.head + action.move.offset

end Situation

namespace Simulator

def fill (cells : Std.TreeMap Int String) (entry : Char × Nat) : Std.TreeMap Int String :=
  if entry.1 = ' ' ∨ entry.1 = '_' then cells
  else cells.insert (entry.2 : Int) (String.singleton entry.1)

def cellsOf (text : String) : Std.TreeMap Int String := text.toList.zipIdx.foldl fill ∅

def begin (s : Simulator) (tape : String) : Situation := ⟨s.init, cellsOf tape, 0⟩

def runFor (s : Simulator) : (budget : Nat) → Situation → Verdict × Situation
  | 0, now => (if now.state ∈ s.accept then .accept else .timeout, now)
  | budget + 1, now =>
    if now.state ∈ s.accept then (.accept, now)
    else match s.actions.lookup (now.state, now.read now.head) with
      | none => (.reject, now)
      | some action => s.runFor budget (now.follow action)

def run (s : Simulator) (tape : String) (maxSteps : Int) : Verdict :=
  -- A negative number of steps allows none.
  (s.runFor maxSteps.toNat (s.begin tape)).1

end Simulator

end GenericTuring.Listing
