import Stencil.Number.Layout
import Stencil.Text.Blank
import Stencil.Value.Order

/-! # Values as truths, texts and numbers -/

namespace Stencil

def Value.truthy : Value → Bool
  | .null => false
  | .bool b => b
  | .num n => n.toFloat != 0.0
  | .str s => s != ""
  | .arr _ => true
  | .obj _ => true

/-- An integer that is not safe is written as the double nearest to it. -/
def Num.text : Num → String
  | .int n => if n.natAbs < safeLimit then toString n else scriptText (Float.ofInt n)
  | .float x => scriptText x

mutual
def Value.display : Value → String
  | .null => ""
  | .bool b => if b then "true" else "false"
  | .num n => n.text
  | .str s => s
  | .arr items => String.intercalate "," (displays items)
  | .obj _ => "[object Object]"
def displays : List Value → List String
  | [] => []
  | v :: vs => v.display :: displays vs
end

mutual
/-- The class names in a value: arrays are flattened, objects give the names of their true fields,
and other values their text if they are true. -/
def Value.classes : Value → List String
  | .arr items => classesOf items
  | .obj fields => ((Fields.ordered fields).filter fun f => f.2.truthy).map (·.1)
  | v => if v.truthy then [v.display] else []
def classesOf : List Value → List String
  | [] => []
  | v :: vs => v.classes ++ classesOf vs
end

def Value.classList (v : Value) : String :=
  String.intercalate " " v.classes

def notANumber : Float := 0.0 / 0.0

/-- The number a text stands for: nothing is zero, and what is no numeral is no number. -/
def textToNumber (s : String) : Float :=
  let cs := Text.trim s.toList
  if cs.isEmpty then 0.0 else (readFloat? cs).getD notANumber

/-- An array stands for its only item, and for zero if it is empty. -/
def Value.toNumber : Value → Float
  | .null => 0.0
  | .bool b => if b then 1.0 else 0.0
  | .num n => n.toFloat
  | .str s => textToNumber s
  | .arr [] => 0.0
  | .arr [v] => v.toNumber
  | .arr _ => notANumber
  | .obj _ => notANumber

/-- A missing binding is null, so null has the type of one. -/
def Value.typeName : Value → String
  | .null => "undefined"
  | .bool _ => "boolean"
  | .num _ => "number"
  | .str _ => "string"
  | .arr _ => "object"
  | .obj _ => "object"

def Value.isTextual : Value → Bool
  | .str _ => true
  | .arr _ => true
  | .obj _ => true
  | _ => false

def Value.add (a b : Value) : Value :=
  if a.isTextual || b.isTextual then .str (a.display ++ b.display)
  else .ofFloat (a.toNumber + b.toNumber)

end Stencil
