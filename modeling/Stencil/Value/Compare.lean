import Stencil.Value.Coerce

/-! # Equality and order of values

Arrays and objects are equal only to themselves, so the equalities take a flag that tells whether
both operands are one and the same stored value. -/

namespace Stencil

def Value.strictEq (same : Bool) : Value → Value → Bool
  | .null, .null => true
  | .bool a, .bool b => a == b
  | .num a, .num b => a.toFloat == b.toFloat
  | .str a, .str b => a == b
  | .arr _, .arr _ => same
  | .obj _, .obj _ => same
  | _, _ => false

/-- Null equals only itself, truth values and texts beside a number count as numbers. -/
def Value.looseEq (same : Bool) : Value → Value → Bool
  | .null, .null => true
  | .null, _ => false
  | _, .null => false
  | .str a, .str b => a == b
  | .bool a, b => (Value.bool a).toNumber == b.toNumber
  | a, .bool b => a.toNumber == (Value.bool b).toNumber
  | .num a, .str b => a.toFloat == (Value.str b).toNumber
  | .str a, .num b => (Value.str a).toNumber == b.toFloat
  | a, b => a.strictEq same b

def compareFloat (x y : Float) : Option Ordering :=
  if x < y then some .lt else if x == y then some .eq else if y < x then some .gt else none

/-- Texts compare by their characters, all else as numbers. -/
def Value.compare : Value → Value → Option Ordering
  | .str a, .str b => some (compareOfLessAndEq a b)
  | a, b => compareFloat a.toNumber b.toNumber

end Stencil
