import Stencil.Number.Binary

/-! # Values

The data templates are rendered with, and the values expressions compute. A number is either an
integer or a double; objects keep their fields in the order in which the names were first given. -/

namespace Stencil

inductive Num where
  | int (n : Int)
  | float (x : Float)

inductive Value where
  | null
  | bool (b : Bool)
  | num (n : Num)
  | str (s : String)
  | arr (items : List Value)
  | obj (fields : List (String × Value))

abbrev Fields := List (String × Value)

def Fields.get? (key : String) : Fields → Option Value
  | [] => none
  | (k, v) :: fs => if k == key then some v else Fields.get? key fs

/-- Overwriting a field keeps its place; a new one goes last. -/
def Fields.set (key : String) (value : Value) : Fields → Fields
  | [] => [(key, value)]
  | (k, v) :: fs => if k == key then (k, value) :: fs else (k, v) :: Fields.set key value fs

def Fields.ofList (pairs : List (String × Value)) : Fields :=
  pairs.foldl (fun fs (k, v) => Fields.set k v fs) []

def Num.toFloat : Num → Float
  | .int n => Float.ofInt n
  | .float x => x

/-- Integers of smaller magnitude are exact as doubles, and so is every one next to them. -/
def safeLimit : Nat := Nat.pow 2 53

/-- The value of a computed number: an integer where it is integral and safe, null where it is not
finite. -/
def Value.ofFloat (x : Float) : Value :=
  match decode x with
  | .finite b =>
    if b.isIntegral && b.floor < safeLimit then .num (.int b.trunc) else .num (.float x)
  | _ => .null

def Value.ofNat (n : Nat) : Value :=
  .num (.int n)

def Value.isNull : Value → Bool
  | .null => true
  | _ => false

/-- What a scope binds: the fields of an object, and nothing for any other value. -/
def Value.fields : Value → Fields
  | .obj fs => fs
  | _ => []

end Stencil
