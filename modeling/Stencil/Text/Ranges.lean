/-! # Character classes as ranges

A class of characters is a list of disjoint code point ranges in increasing order. -/

namespace Stencil.Text

abbrev Ranges := List (Nat × Nat)

def Ranges.hasCode : Ranges → Nat → Bool
  | [], _ => false
  | (lo, hi) :: rs, n => if n < lo then false else if n ≤ hi then true else Ranges.hasCode rs n

def Ranges.has (rs : Ranges) (c : Char) : Bool :=
  rs.hasCode c.toNat

end Stencil.Text
