/-!
Sets of characters given as closed ranges of code points.
-/

namespace GenericTuring.Text

abbrev CodeRanges := List (Nat × Nat)

def CodeRanges.contains (ranges : CodeRanges) (c : Char) : Bool :=
  ranges.any fun r => r.1 ≤ c.toNat && c.toNat ≤ r.2

end GenericTuring.Text
