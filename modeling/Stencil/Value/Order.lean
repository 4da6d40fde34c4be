import Stencil.Number.Read
import Stencil.Value.Basic

/-! # Enumeration order

Objects are enumerated with their array indices first, in increasing order, and then all other
names in the order in which they were first given. -/

namespace Stencil

/-- A name that is the decimal numeral of a number below `2 ^ 32 - 1`. -/
def arrayIndex? (key : String) : Option Nat :=
  match key.toList with
  | [] => none
  | c :: cs =>
    if c == '0' && !cs.isEmpty then none
    else if !(c :: cs).all isDigit then none
    else
      let n := digitsValue (c :: cs)
      if n < Nat.pow 2 32 - 1 then some n else none

def indexed : Fields → List (Nat × String × Value)
  | [] => []
  | (k, v) :: fs => match arrayIndex? k with
    | some i => (i, k, v) :: indexed fs
    | none => indexed fs

def named (fs : Fields) : Fields :=
  fs.filter fun f => (arrayIndex? f.1).isNone

def Fields.ordered (fs : Fields) : Fields :=
  ((indexed fs).mergeSort fun a b => a.1 ≤ b.1).map (·.2) ++ named fs

mutual
def Value.inKeyOrder : Value → Value
  | .arr items => .arr (inKeyOrders items)
  | .obj fields => .obj (Fields.ordered (inKeyOrderFields fields))
  | v => v
def inKeyOrders : List Value → List Value
  | [] => []
  | v :: vs => v.inKeyOrder :: inKeyOrders vs
def inKeyOrderFields : List (String × Value) → List (String × Value)
  | [] => []
  | (k, v) :: fs => (k, v.inKeyOrder) :: inKeyOrderFields fs
end

/-- Items with their keys, the way a loop takes them: arrays by index, objects by name, null not at
all, and any other value once. -/
def Value.entries : Value → List (Value × Value)
  | .null => []
  | .arr items => items.zipIdx.map fun (v, i) => (v, .ofNat i)
  | .obj fields => (Fields.ordered fields).map fun (k, v) => (v, .str k)
  | v => [(v, .ofNat 0)]

end Stencil
