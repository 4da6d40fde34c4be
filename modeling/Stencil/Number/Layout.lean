import Stencil.Number.Shortest

/-! # Number texts

The texts a double is written as: in rendered output, in messages, in serialized data, and with a
fixed number of places. The first three share the digits and differ in where they put the point. -/

namespace Stencil

def zeros (n : Int) : List Char :=
  List.replicate n.toNat '0'

def Decimal.positional (d : Decimal) : List Char :=
  let n := d.exp + 1
  let k : Int := d.digits.length
  if k ≤ n then d.digits ++ zeros (n - k)
  else if 0 < n then d.digits.take n.toNat ++ '.' :: d.digits.drop n.toNat
  else '0' :: '.' :: (zeros (-n) ++ d.digits)

def Decimal.exponential (d : Decimal) : List Char :=
  let exponent :=
    if d.exp < 0 then 'e' :: '-' :: decimalDigits (-d.exp).toNat
    else 'e' :: '+' :: decimalDigits d.exp.toNat
  match d.digits with
  | [] => exponent
  | [c] => c :: exponent
  | c :: cs => c :: '.' :: (cs ++ exponent)

/-- Without an exponent from `10 ^ -7` (not included) up to `10 ^ 21`. -/
def Decimal.script (d : Decimal) : List Char :=
  if -7 < d.exp && d.exp < 21 then d.positional else d.exponential

/-- Without an exponent, but with a point, from `10 ^ -5` up to `10 ^ 16`. -/
def Decimal.data (d : Decimal) : List Char :=
  if -5 ≤ d.exp && d.exp < 16 then
    if (d.digits.length : Int) ≤ d.exp + 1 then d.positional ++ ['.', '0'] else d.positional
  else d.exponential

def signed (neg : Bool) (cs : List Char) : String :=
  String.ofList (if neg then '-' :: cs else cs)

/-- The text of a number in output. Zero has no sign. Of two decimals just as near the larger one is
taken. -/
def scriptText (x : Float) : String :=
  match decode x with
  | .nan => "NaN"
  | .infinite neg => signed neg "Infinity".toList
  | .finite b => if b.mant == 0 then "0" else signed b.neg (b.shortest .up).script

def plainText (x : Float) : String :=
  match decode x with
  | .nan => "NaN"
  | .infinite neg => signed neg "inf".toList
  | .finite b => signed b.neg (if b.mant == 0 then ['0'] else (b.shortest .up).positional)

/-- The text of a finite number in serialized data; it always shows that it is no integer. Of two
decimals just as near the one with the even last digit is taken. -/
def dataText (x : Float) : String :=
  match decode x with
  | .finite b => signed b.neg (if b.mant == 0 then ['0', '.', '0'] else (b.shortest .even).data)
  | _ => "null"

def roundHalfEven (num den : Nat) : Nat :=
  let q := num / den
  let r := num % den
  if 2 * r < den then q else if den < 2 * r then q + 1 else q + q % 2

def padLeft (width : Nat) (cs : List Char) : List Char :=
  List.replicate (width - cs.length) '0' ++ cs

def fixedText (x : Float) (places : Nat) : String :=
  match decode x with
  | .nan => "NaN"
  | .infinite neg => signed neg "inf".toList
  | .finite b =>
    let (num, den) := b.ratio
    let ds := padLeft (places + 1) (decimalDigits (roundHalfEven (num * Nat.pow 10 places) den))
    let whole := ds.take (ds.length - places)
    signed b.neg (if places == 0 then whole else whole ++ '.' :: ds.drop (ds.length - places))

end Stencil
