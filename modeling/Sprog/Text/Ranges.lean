/-!
# Sets of characters given by ranges of code points

A property of characters that a standard lists range by range is kept as that list, in increasing
order. `Ranges.has` decides membership.
-/
namespace Sprog.Text

/-- A set of code points: the first and the last member of each range, in increasing order. -/
abbrev Ranges := List (Nat × Nat)

/-- Whether `n` lies in one of the ranges; the search stops at the first range beyond `n`. -/
def Ranges.has : Ranges → Nat → Bool
  | [], _ => false
  | (first, last) :: rest, n => if n < first then false else n ≤ last || Ranges.has rest n

end Sprog.Text
