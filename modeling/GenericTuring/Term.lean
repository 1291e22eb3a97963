/-!
Applied terms: an atom with arguments, each of which is again a term. An argument is added one at a
time, so `app (app (atom f) x) y` is the atom `f` with the arguments `x` and `y`.
-/

namespace GenericTuring

inductive Term (α : Type) where
  | atom (a : α)
  | app (head arg : Term α)
  deriving DecidableEq, Repr

namespace Term

variable {α β : Type}

def head : Term α → α
  | atom a => a
  | app f _ => f.head

def args : Term α → List (Term α)
  | atom _ => []
  | app f x => f.args ++ [x]

def ofArgs (a : α) (args : List (Term α)) : Term α :=
  args.foldl app (atom a)

theorem ofArgs_append (a : α) (xs : List (Term α)) (x : Term α) :
    ofArgs a (xs ++ [x]) = app (ofArgs a xs) x := by
  simp [ofArgs]

@[simp] theorem ofArgs_head_args (t : Term α) : ofArgs t.head t.args = t := by
  induction t with
  | atom a => rfl
  | app f x ihf _ => simp [head, args, ofArgs_append, ihf]

def atoms : Term α → List α
  | atom a => [a]
  | app f x => f.atoms ++ x.atoms

def inner : Term α → List (Term α)
  | atom _ => []
  | app f x => f.inner ++ x :: x.inner

def subterms (t : Term α) : List (Term α) := t :: t.inner

def depth : Term α → Nat
  | atom _ => 1
  | app f x => max f.depth (x.depth + 1)

def height : Term α → Nat
  | atom _ => 0
  | app f x => max f.height x.height + 1

def bind (f : α → Term β) : Term α → Term β
  | atom a => f a
  | app g x => app (g.bind f) (x.bind f)

def bind? (f : α → Option (Term β)) : Term α → Option (Term β)
  | atom a => f a
  | app g x => do return app (← g.bind? f) (← x.bind? f)

section Written

variable (spell : α → String)

def withArgs (t : Term α) (list : String) : String :=
  match t with
  | atom a => spell a
  | app f _ => spell f.head ++ "<" ++ list ++ ">"

def argList : Term α → String
  | atom _ => ""
  | app (atom _) x => withArgs spell x (argList x)
  | app (app f y) x => argList (app f y) ++ ", " ++ withArgs spell x (argList x)

def written (t : Term α) : String := withArgs spell t (argList spell t)

end Written

end Term

end GenericTuring
