/-!
Log entries, each from one part of the program, and the lines they are shown as.
-/

namespace GenericTuring

namespace Log

inductive Level where
  | debug
  | info
  | warning
  | error
  deriving DecidableEq, Repr

def Level.tag : Level → String
  | debug => "DEBUG"
  | info => "INFO "
  | warning => "WARNI"
  | error => "ERROR"

def Level.rank : Level → Nat
  | debug => 0
  | info => 1
  | warning => 2
  | error => 3

structure Entry where
  level : Level
  source : String
  message : String
  deriving DecidableEq, Repr

def threshold (verbosity : Nat) : Level :=
  match verbosity with
  | 0 => .warning
  | 1 => .info
  | _ => .debug

def Entry.text (clock : String) (e : Entry) : String :=
  s!"{clock} [{e.level.tag}] {e.source}: {e.message}"

def Entry.isShown (verbosity : Nat) (e : Entry) : Bool :=
  (threshold verbosity).rank ≤ e.level.rank

end Log

end GenericTuring
