import Stencil.Number.Binary

/-! # Shortest decimals

The decimal with the fewest digits that reads back as a given double, and of those the nearest one.
The doubles that round to `m · 2 ^ e` fill an interval around it; for one digit, two digits and so
on the two multiples of the last place next to the number are tried against that interval. -/

namespace Stencil

/-- A positive decimal `d.ddd… · 10 ^ exp`: a non-empty list of digits, the first and the last of
which are not zero. -/
structure Decimal where
  digits : List Char
  exp : Int
  deriving DecidableEq, Repr

def decimalDigits (n : Nat) : List Char :=
  Nat.toDigits 10 n

def dropTrailingZeros (cs : List Char) : List Char :=
  (cs.reverse.dropWhile (· == '0')).reverse

def Decimal.ofScaled (n : Nat) (e : Int) : Decimal :=
  let ds := decimalDigits n
  ⟨dropTrailingZeros ds, e + (ds.length : Int) - 1⟩

def scaleTen (e : Int) : Nat × Nat :=
  if 0 ≤ e then (Nat.pow 10 e.toNat, 1) else (1, Nat.pow 10 (-e).toNat)

def leadingExp (num den : Nat) : Int :=
  let e : Int := (decimalDigits num).length - (decimalDigits den).length
  let (up, down) := scaleTen e
  if den * up ≤ num * down then e else e - 1

/-- The interval of reals that round to a double, times a common denominator. -/
structure Rounding where
  value : Nat
  low : Nat
  high : Nat
  den : Nat
  closed : Bool

/-- The lower half is narrower at a power of two. -/
def Binary.rounding (b : Binary) : Rounding :=
  let (num, den) := b.ratio
  let (unit, _) := (Binary.mk false 1 b.exp).ratio
  let narrow := b.mant == Nat.pow 2 52 && b.exp != -1074
  { value := 4 * num
    low := 4 * num - (if narrow then unit else 2 * unit)
    high := 4 * num + 2 * unit
    den := 4 * den
    closed := b.mant % 2 == 0 }

def Rounding.holds (r : Rounding) (n : Nat) (e : Int) : Bool :=
  let (up, down) := scaleTen e
  let x := n * up * r.den
  let lo := r.low * down
  let hi := r.high * down
  if r.closed then lo ≤ x && x ≤ hi else lo < x && x < hi

inductive Tie where
  | up
  | even
  deriving DecidableEq, Repr

def Tie.down (tie : Tie) (below : Nat) : Ordering → Bool
  | .lt => true
  | .eq => tie == .even && below % 2 == 0
  | .gt => false

/-- The multiple of `10 ^ e` that lies in the interval and is nearest to the value. -/
def Rounding.atPlace (r : Rounding) (tie : Tie) (e : Int) : Option Nat :=
  let (up, down) := scaleTen e
  let below := (r.value * down) / (r.den * up)
  let rest := (r.value * down) % (r.den * up)
  let isDown := tie.down below (compare (2 * rest) (r.den * up))
  let near := if isDown then below else below + 1
  let far := if isDown then below + 1 else below
  if r.holds near e then some near else if r.holds far e then some far else none

def Rounding.search (r : Rounding) (tie : Tie) : (tries : Nat) → (e : Int) → Option Decimal
  | 0, _ => none
  | t + 1, e => match r.atPlace tie e with
    | some n => some (Decimal.ofScaled n e)
    | none => r.search tie t (e - 1)

/-- The shortest decimal of a non-zero magnitude. Seventeen digits always suffice. -/
def Binary.shortest (b : Binary) (tie : Tie) : Decimal :=
  let r := b.rounding
  let e := leadingExp r.value r.den
  match r.search tie 17 e with
  | some d => d
  | none => Decimal.ofScaled (r.value / r.den) 0

end Stencil
