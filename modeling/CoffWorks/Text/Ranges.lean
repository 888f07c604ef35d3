namespace CoffWorks.Text

/-- A set of code points by its closed ranges, each beyond the one before. -/
abbrev Ranges := Array (Nat × Nat)

namespace Ranges

/-- Whether `n` lies in one of the ranges number `lo` to `hi - 1`, found by halving. -/
def hasBetween (r : Ranges) (n lo hi : Nat) : Bool :=
  if lo < hi then
    let mid := (lo + hi) / 2
    match r[mid]? with
    | some (first, last) =>
      if n < first then hasBetween r n lo mid
      else if last < n then hasBetween r n (mid + 1) hi
      else true
    | none => false
  else false
termination_by hi - lo

def has (r : Ranges) (n : Nat) : Bool := r.hasBetween n 0 r.size

end Ranges

end CoffWorks.Text
