import Stencil.Value.Coerce

/-! # Properties of values -/

namespace Stencil

def Num.index? : Num → Option Nat
  | .int n => if 0 ≤ n then some n.toNat else none
  | .float _ => none

/-- A value stored inside another, with the name of its place there. An array is also entered by a
text that reads as an index. -/
def Value.child? : Value → Value → Option (String × Value)
  | .obj fields, key => (Fields.get? key.display fields).map fun v => (key.display, v)
  | .arr items, .num n => n.index?.bind fun i => items[i]?.map fun v => (toString i, v)
  | .arr items, .str s => (readIndex? s.toList).bind fun i => items[i]?.map fun v => (toString i, v)
  | _, _ => none

def Value.computed : Value → Value → Value
  | .arr items, .str k => if k == "length" then .ofNat items.length else .null
  | .str s, .str k => if k == "length" then .ofNat s.length else .null
  | .str s, .num n => match n.index?.bind fun i => s.toList[i]? with
    | some c => .str c.toString
    | none => .null
  | _, _ => .null

def Value.property (object key : Value) : Value :=
  match object.child? key with
  | some (_, v) => v
  | none => object.computed key

end Stencil
