import Stencil.Number.Binary

/-! # Reading numerals

A decimal numeral is read as the double nearest to it. -/

namespace Stencil

def isDigit (c : Char) : Bool :=
  '0' ≤ c && c ≤ '9'

def digitsValue (cs : List Char) : Nat :=
  cs.foldl (fun n c => 10 * n + (c.toNat - 0x30)) 0

/-- The double nearest to `m · 10 ^ e`. Magnitudes far outside the range of doubles are settled by
their number of digits. -/
def nearestFloat (m : Nat) (e : Int) : Float :=
  let top := (Nat.toDigits 10 m).length + e
  if m == 0 then 0.0
  else if 400 < top then 1.0 / 0.0
  else if top < -400 then 0.0
  else if 0 ≤ e then Float.ofScientific m false e.toNat
  else Float.ofScientific m true (-e).toNat

/-- A numeral taken apart: its digits as one number, and the power of ten it is scaled by. -/
structure Numeral where
  mant : Nat
  exp : Int

def Numeral.toFloat (n : Numeral) : Float :=
  nearestFloat n.mant n.exp

def readSign : List Char → Bool × List Char
  | '-' :: cs => (true, cs)
  | '+' :: cs => (false, cs)
  | cs => (false, cs)

def readExponent? : List Char → Option Int
  | [] => some 0
  | c :: cs =>
    if c == 'e' || c == 'E' then
      let (neg, ds) := readSign cs
      if ds.isEmpty || !ds.all isDigit then none
      else some (if neg then -(digitsValue ds : Int) else digitsValue ds)
    else none

def readNumeral? (cs : List Char) : Option Numeral :=
  let whole := cs.takeWhile isDigit
  let rest := cs.dropWhile isDigit
  let (frac, tail) := match rest with
    | '.' :: r => (r.takeWhile isDigit, r.dropWhile isDigit)
    | r => ([], r)
  if whole.isEmpty && frac.isEmpty then none
  else match readExponent? tail with
    | some e => some ⟨digitsValue (whole ++ frac), e - frac.length⟩
    | none => none

def readSpecial? (cs : List Char) : Option Float :=
  let name := String.ofList (cs.map Char.toLower)
  if name == "inf" || name == "infinity" then some (1.0 / 0.0)
  else if name == "nan" then some (0.0 / 0.0)
  else none

def readFloat? (cs : List Char) : Option Float :=
  let (neg, body) := readSign cs
  match readSpecial? body with
  | some x => some (negate neg x)
  | none => (readNumeral? body).map fun n => negate neg n.toFloat

/-- A natural number below `2 ^ 64`, with an optional plus sign. -/
def readIndex? (cs : List Char) : Option Nat :=
  let ds := match cs with
    | '+' :: r => r
    | r => r
  if ds.isEmpty || !ds.all isDigit then none
  else if digitsValue ds < Nat.pow 2 64 then some (digitsValue ds)
  else none

end Stencil
