/-!
Dictionaries, as lists of keys with their values. A key keeps the place where it was first set.
-/

namespace GenericTuring.Dictionary

variable {α β : Type} [DecidableEq α]

def assign (key : α) (value : β) : List (α × β) → List (α × β)
  | [] => [(key, value)]
  | entry :: rest =>
    if entry.1 = key then (key, value) :: rest else entry :: assign key value rest

def remove (key : α) (entries : List (α × β)) : List (α × β) :=
  entries.filter fun entry => entry.1 ≠ key

end GenericTuring.Dictionary
