import Stencil.Json.Write
import Stencil.Text.Case
import Stencil.Text.Offset
import Stencil.Value.Compare

/-! # Functions and methods

What expressions can call: three functions, one function of `JSON`, and the methods of texts, arrays
and numbers. -/

namespace Stencil

inductive EvalError where
  /-- The text is no expression; the reason says why. -/
  | badSyntax (reason : String)
  | nullProperty (key : String)
  | notAFunction (name : String)
  | notCallable
  | noMethod (name type : String)
  deriving DecidableEq, Repr

def EvalError.message : EvalError → String
  | .badSyntax reason => reason
  | .nullProperty key => "Cannot read properties of null (reading '" ++ key ++ "')"
  | .notAFunction name => name ++ " is not a function"
  | .notCallable => "Expression is not a function"
  | .noMethod name type => name ++ " is not a function on " ++ type

def indexOfText (sub : List Char) : List Char → Option Nat
  | [] => if sub.isEmpty then some 0 else none
  | c :: cs =>
    if Text.startsWith (c :: cs) sub then some 0 else (indexOfText sub cs).map (· + 1)

/-- Cut at every occurrence of the non-empty `sep`; `skip` counts the characters of an occurrence
still to be passed over, `acc` holds the current piece, last character first. -/
def splitText (sep : List Char) : (skip : Nat) → (acc : List Char) → List Char → List (List Char)
  | _, acc, [] => [acc.reverse]
  | 0, acc, c :: cs =>
    if Text.startsWith (c :: cs) sep then acc.reverse :: splitText sep (sep.length - 1) [] cs
    else splitText sep 0 (c :: acc) cs
  | k + 1, acc, _ :: cs => splitText sep k acc cs

/-- The integer part of a number, between zero and the largest position. -/
def clampToNat (x : Float) : Nat :=
  match decode x with
  | .nan => 0
  | .infinite neg => if neg then 0 else Nat.pow 2 64 - 1
  | .finite b => if b.neg then 0 else min b.floor (Nat.pow 2 64 - 1)

/-- One bound of a slice of `len` items: negative numbers count from the end. -/
def sliceBound (len default : Nat) (v : Value) : Nat :=
  if v.isNull then default
  else
    let x := v.toNumber
    if x.isNaN then 0
    else if x < 0.0 then clampToNat (Float.ofNat len + x)
    else min (clampToNat x) len

def sliceBounds (len : Nat) (start stop : Value) : Nat × Nat :=
  let s := sliceBound len 0 start
  (s, max (sliceBound len len stop) s)

def sliceList {α : Type} (xs : List α) (start stop : Value) : List α :=
  let (s, t) := sliceBounds xs.length start stop
  (xs.take t).drop s

def arg (args : List Value) (i : Nat) : Value :=
  args.getD i .null

def textMethod (s : String) (name : String) (args : List Value) : Option Value :=
  let first := (arg args 0).display
  if name == "toUpperCase" then some (.str (Text.upper s))
  else if name == "toLowerCase" then some (.str (Text.lower s))
  else if name == "trim" then some (.str (String.ofList (Text.trim s.toList)))
  else if name == "indexOf" then
    some (match indexOfText first.toList s.toList with
      | some i => .ofNat i
      | none => .num (.int (-1)))
  else if name == "includes" then some (.bool (indexOfText first.toList s.toList).isSome)
  else if name == "startsWith" then some (.bool (Text.startsWith s.toList first.toList))
  else if name == "split" then
    some (.arr (if first == "" then s.toList.map fun c => .str c.toString
      else (splitText first.toList 0 [] s.toList).map fun cs => .str (String.ofList cs)))
  else if name == "slice" then
    some (.str (String.ofList (sliceList s.toList (arg args 0) (arg args 1))))
  else none

/-- Arguments are copies, so no array or object among the items is one of them. -/
def arrayMethod (items : List Value) (name : String) (args : List Value) : Option Value :=
  let hit := fun v : Value => v.strictEq false (arg args 0)
  if name == "join" then
    let sep := if (arg args 0).isNull then "," else (arg args 0).display
    some (.str (String.intercalate sep (displays items)))
  else if name == "indexOf" then
    some (match items.findIdx? hit with
      | some i => .ofNat i
      | none => .num (.int (-1)))
  else if name == "includes" then some (.bool (items.any hit))
  else if name == "slice" then some (.arr (sliceList items (arg args 0) (arg args 1)))
  else none

def numberMethod (n : Num) (name : String) (args : List Value) : Option Value :=
  if name == "toFixed" then some (.str (fixedText n.toFloat (clampToNat (arg args 0).toNumber)))
  else none

def callMethod (target : Value) (name : String) (args : List Value) : Except EvalError Value :=
  let own := match target with
    | .str s => textMethod s name args
    | .arr items => arrayMethod items name args
    | .num n => numberMethod n name args
    | _ => none
  match own with
  | some v => .ok v
  | none =>
    if name == "toString" then .ok (.str target.display)
    else .error (.noMethod name target.typeName)

def callGlobal (name : String) (args : List Value) : Except EvalError Value :=
  if name == "String" then .ok (.str (arg args 0).display)
  else if name == "Number" then .ok (.ofFloat (arg args 0).toNumber)
  else if name == "Boolean" then .ok (.bool (arg args 0).truthy)
  else .error (.notAFunction name)

def callJson (name : String) (args : List Value) : Except EvalError Value :=
  if name == "stringify" then .ok (.str (Json.write (arg args 0).inKeyOrder))
  else .error (.notAFunction ("JSON." ++ name))

end Stencil
