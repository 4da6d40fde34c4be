/-! # Doubles as exact binary fractions

A finite double is `± mant · 2 ^ exp`. What it prints as, its remainders and its integer part are
computed exactly on that form. -/

namespace Stencil

/-- The number `mant · 2 ^ exp`, negated if `neg`. -/
structure Binary where
  neg : Bool
  mant : Nat
  exp : Int
  deriving DecidableEq, Repr

inductive Double where
  | nan
  | infinite (neg : Bool)
  | finite (b : Binary)
  deriving DecidableEq, Repr

def Double.ofBits (bits : Nat) : Double :=
  let neg := bits / Nat.pow 2 63 % 2 == 1
  let field : Nat := bits / Nat.pow 2 52 % Nat.pow 2 11
  let frac : Nat := bits % Nat.pow 2 52
  if field == 2047 then if frac == 0 then .infinite neg else .nan
  else if field == 0 then .finite ⟨neg, frac, -1074⟩
  else .finite ⟨neg, Nat.pow 2 52 + frac, Int.ofNat field - 1075⟩

def decode (x : Float) : Double :=
  .ofBits x.toBits.toNat

def Binary.ratio (b : Binary) : Nat × Nat :=
  if 0 ≤ b.exp then (b.mant * Nat.pow 2 b.exp.toNat, 1) else (b.mant, Nat.pow 2 (-b.exp).toNat)

def Binary.floor (b : Binary) : Nat :=
  b.ratio.1 / b.ratio.2

def Binary.isIntegral (b : Binary) : Bool :=
  b.ratio.1 % b.ratio.2 == 0

def Binary.trunc (b : Binary) : Int :=
  if b.neg then -(b.floor : Int) else b.floor

def negate (neg : Bool) (x : Float) : Float :=
  if neg then -x else x

/-- The double `± mant · 2 ^ exp`, when it is one. Zero keeps its sign and is not scaled. -/
def Binary.toFloat (b : Binary) : Float :=
  negate b.neg (if b.mant == 0 then 0.0 else (Float.ofNat b.mant).scaleB b.exp)

/-- The remainder of the division with a quotient rounded toward zero; its sign is the
dividend's. -/
def remainder (x y : Float) : Float :=
  match decode x, decode y with
  | .finite a, .finite b =>
    if b.mant == 0 then 0.0 / 0.0
    else
      let e := min a.exp b.exp
      let m := (a.mant * Nat.pow 2 (a.exp - e).toNat) % (b.mant * Nat.pow 2 (b.exp - e).toNat)
      Binary.toFloat ⟨a.neg, m, e⟩
  | .finite _, .infinite _ => x
  | _, _ => 0.0 / 0.0

end Stencil
