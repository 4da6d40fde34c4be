import Mathlib
import Stencil.Value.Basic

/-! # Doubles up to the sign of zero

A double is taken apart here in the form that arithmetic on doubles is defined on. Two doubles that
compare equal are then one and the same, or both are zero; and what the sign of a zero operand
changes in a result is the sign of a zero or of an infinity, never more. -/

namespace Stencil

open Float.Model (UnpackedFloat Format)
open Float.Model.UnpackedFloat (Sign unpackMantissa unpackExponent unpackSign)

/-! ## The two ways to take a double apart -/

theorem toNat_unpackMantissa (b : BitVec 64) :
    (@unpackMantissa Format.binary64 b).toNat = b.toNat % 2 ^ 52 := by
  simp [unpackMantissa]

theorem toNat_unpackExponent (b : BitVec 64) :
    (@unpackExponent Format.binary64 b).toNat = b.toNat / 2 ^ 52 % 2 ^ 11 := by
  simp [unpackExponent, Nat.shiftRight_eq_div_pow]

theorem toNat_unpackSign (b : BitVec 64) :
    (@unpackSign Format.binary64 b).toNat = b.toNat / 2 ^ 63 % 2 := by
  simp [unpackSign, Nat.shiftRight_eq_div_pow]

theorem ofBitVec_eq_negative (b : BitVec 1) :
    (Sign.ofBitVec b == .negative) = (b.toNat == 1) := by
  revert b
  decide

theorem toNat_one_append (m : BitVec 52) : (1#1 ++ m).toNat = 2 ^ 52 + m.toNat := by
  have h := Nat.two_pow_add_eq_or_of_lt m.isLt 1
  rw [BitVec.toNat_append, Nat.shiftLeft_eq, Nat.mul_comm]
  exact h.symm

theorem exponentBias_binary64 : ((Format.binary64.exponentBias : Nat) : Int) = 1023 := rfl

def Double.ofUnpacked : UnpackedFloat → Double
  | .notANumber => .nan
  | .infinity s => .infinite (s == .negative)
  | .zero s => .finite ⟨s == .negative, 0, -1074⟩
  | .finite s m e _ => .finite ⟨s == .negative, m, e⟩

theorem Double.ofBits_eq (b : BitVec 64) :
    Double.ofBits b.toNat = .ofUnpacked (.unpack Format.binary64 b) := by
  have hm := toNat_unpackMantissa b
  have he := toNat_unpackExponent b
  have hs := toNat_unpackSign b
  have hm0 : @unpackMantissa Format.binary64 b = 0#_ ↔ b.toNat % 2 ^ 52 = 0 := by
    rw [← hm, ← BitVec.toNat_inj]
    rfl
  have he0 : @unpackExponent Format.binary64 b = 0#_ ↔ b.toNat / 2 ^ 52 % 2 ^ 11 = 0 := by
    rw [← he, ← BitVec.toNat_inj]
    rfl
  have he1 : @unpackExponent Format.binary64 b = -1#_ ↔ b.toNat / 2 ^ 52 % 2 ^ 11 = 2047 := by
    rw [← he, ← BitVec.toNat_inj]
    rfl
  unfold Double.ofBits UnpackedFloat.unpack
  simp only [Nat.pow_eq, beq_iff_eq, he1, he0, hm0]
  by_cases h1 : b.toNat / 2 ^ 52 % 2 ^ 11 = 2047
  · rw [if_pos h1, if_pos h1]
    by_cases h2 : b.toNat % 2 ^ 52 = 0
    · rw [if_pos h2, if_pos h2, Double.ofUnpacked, ofBitVec_eq_negative, hs]
    · rw [if_neg h2, if_neg h2, Double.ofUnpacked]
  · rw [if_neg h1, if_neg h1]
    by_cases h0 : b.toNat / 2 ^ 52 % 2 ^ 11 = 0
    · rw [if_pos h0, if_pos h0]
      by_cases h2 : b.toNat % 2 ^ 52 = 0
      · rw [dif_pos h2, h2, Double.ofUnpacked, ofBitVec_eq_negative, hs]
      · rw [dif_neg h2, Double.ofUnpacked, ofBitVec_eq_negative, hs, hm, he, h0,
          exponentBias_binary64]
        rfl
    · rw [if_neg h0, if_neg h0, Double.ofUnpacked, ofBitVec_eq_negative, hs, toNat_one_append, hm,
        he, exponentBias_binary64]
      rfl

theorem decode_eq (x : Float) : decode x = .ofUnpacked x.toModel.unpack :=
  Double.ofBits_eq x.toModel.toBits.toBitVec

def Double.bits : Double → Nat
  | nan => 0
  | infinite neg => neg.toNat * 2 ^ 63 + 2047 * 2 ^ 52
  | finite b => b.neg.toNat * 2 ^ 63 + (b.exp + 1074).toNat * 2 ^ 52 + b.mant

theorem Double.bits_ofBits {a : Nat} (ha : a < 2 ^ 64) (hn : Double.ofBits a ≠ .nan) :
    (Double.ofBits a).bits = a := by
  have hsign : (a / 2 ^ 63 % 2 == 1).toNat = a / 2 ^ 63 := by
    by_cases h : a / 2 ^ 63 % 2 = 1
    · rw [h]
      simp
      omega
    · rw [beq_false_of_ne h]
      simp
      omega
  unfold Double.ofBits at hn ⊢
  simp only [beq_iff_eq, Nat.pow_eq] at hn ⊢
  split at hn
  · split at hn
    · next h1 h0 =>
      rw [if_pos h1, if_pos h0]
      simp only [Double.bits, hsign]
      omega
    · exact absurd rfl hn
  · next h1 =>
    rw [if_neg h1]
    split
    · simp only [Double.bits, hsign]
      omega
    · simp only [Double.bits, hsign, Int.ofNat_eq_natCast]
      omega

theorem eq_of_decode {x y : Float} (h : decode x = decode y) (hn : decode x ≠ .nan) : x = y := by
  unfold decode at h hn
  have hx := Double.bits_ofBits x.toBits.toNat_lt hn
  rw [h] at hx hn
  have hy := Double.bits_ofBits y.toBits.toNat_lt hn
  have hbits : x.toBits = y.toBits := UInt64.toNat_inj.1 (hx.symm.trans hy)
  obtain ⟨⟨a, _⟩⟩ := x
  obtain ⟨⟨b, _⟩⟩ := y
  obtain rfl : a = b := hbits
  rfl

/-! ## Equal doubles -/

def IsZero (x : Float) : Prop :=
  ∃ s, x.toModel.unpack = .zero s

/-- One and the same double, or two zeros. -/
def Coincide (x y : Float) : Prop :=
  x = y ∨ IsZero x ∧ IsZero y

theorem Coincide.refl (x : Float) : Coincide x x :=
  .inl rfl

theorem sign_eq_of_compare : {s t : Sign} → compare s t = .eq → s = t
  | .negative, .negative, _ => rfl
  | .positive, .positive, _ => rfl

theorem unpacked_of_compare {u v : UnpackedFloat} (h : u.compare v = some .eq) :
    u = v ∨ (∃ s, u = .zero s) ∧ ∃ s, v = .zero s := by
  cases u with
  | notANumber => cases h
  | infinity s =>
    cases v with
    | infinity t =>
      rw [sign_eq_of_compare (Option.some.inj h)]
      exact .inl rfl
    | _ => cases s <;> cases h
  | zero s =>
    cases v with
    | notANumber => cases h
    | zero t => exact .inr ⟨⟨s, rfl⟩, t, rfl⟩
    | infinity t => cases t <;> cases h
    | finite t n k hn => cases t <;> cases h
  | finite s m e hm =>
    cases v with
    | notANumber => cases s <;> cases h
    | infinity t => cases s <;> cases t <;> cases h
    | zero t => cases s <;> cases h
    | finite t n k hn =>
      have hsame : s = t ∧ e = k ∧ m = n := by
        cases s <;> cases t <;>
          simp [UnpackedFloat.compare, Ordering.then_eq_eq] at h <;> simp [h]
      obtain ⟨rfl, rfl, rfl⟩ := hsame
      exact .inl rfl

theorem compare_self {u : UnpackedFloat} (h : u ≠ .notANumber) : u.compare u = some .eq := by
  cases u with
  | notANumber => exact absurd rfl h
  | infinity s => cases s <;> rfl
  | zero s => rfl
  | finite s m e hm => cases s <;> simp [UnpackedFloat.compare]

theorem decode_eq_nan {x : Float} : decode x = .nan ↔ x.toModel.unpack = .notANumber := by
  rw [decode_eq]
  cases x.toModel.unpack <;> simp [Double.ofUnpacked]

theorem float_beq_iff (x y : Float) :
    (x == y) = true ↔ x.toModel.unpack.compare y.toModel.unpack = some .eq := by
  change (x.toModel.unpack.compare y.toModel.unpack == some .eq) = true ↔ _
  exact beq_iff_eq

theorem float_lt_iff (x y : Float) :
    x < y ↔ x.toModel.unpack.compare y.toModel.unpack = some .lt := by
  change decide (x.toModel < y.toModel) = true ↔ _
  rw [decide_eq_true_iff]
  change (x.toModel.unpack.compare y.toModel.unpack == some .lt) = true ↔ _
  exact beq_iff_eq

theorem coincide_of_beq {x y : Float} (h : (x == y) = true) : Coincide x y := by
  have hc := (float_beq_iff x y).1 h
  rcases unpacked_of_compare hc with he | hz
  · refine .inl (eq_of_decode ?_ ?_)
    · rw [decode_eq, decode_eq, he]
    · intro hn
      rw [decode_eq_nan.1 hn] at hc
      cases hc
  · exact .inr hz

theorem Coincide.beq {x y : Float} (h : Coincide x y) (hn : decode x ≠ .nan) :
    (x == y) = true := by
  rw [float_beq_iff]
  rcases h with rfl | ⟨⟨s, hs⟩, t, ht⟩
  · exact compare_self fun hx => hn (decode_eq_nan.2 hx)
  · rw [hs, ht]
    rfl

theorem compare_zero_left (s t : Sign) (v : UnpackedFloat) :
    (UnpackedFloat.zero s).compare v = (UnpackedFloat.zero t).compare v := by
  cases v with
  | notANumber => rfl
  | infinity r => cases r <;> rfl
  | zero r => rfl
  | finite r m e hm => cases r <;> rfl

theorem compare_zero_right (s t : Sign) (u : UnpackedFloat) :
    u.compare (.zero s) = u.compare (.zero t) := by
  cases u with
  | notANumber => rfl
  | infinity r => cases r <;> rfl
  | zero r => rfl
  | finite r m e hm => cases r <;> rfl

/-- The order does not see the sign of a zero. -/
theorem Coincide.compare {x x' y y' : Float} (hx : Coincide x x') (hy : Coincide y y') :
    x.toModel.unpack.compare y.toModel.unpack = x'.toModel.unpack.compare y'.toModel.unpack := by
  have hl : x.toModel.unpack.compare y.toModel.unpack =
      x'.toModel.unpack.compare y.toModel.unpack := by
    rcases hx with rfl | ⟨⟨s, hs⟩, t, ht⟩
    · rfl
    · rw [hs, ht]
      exact compare_zero_left s t _
  rw [hl]
  rcases hy with rfl | ⟨⟨s, hs⟩, t, ht⟩
  · rfl
  · rw [hs, ht]
    exact compare_zero_right s t _

theorem Coincide.beq_eq {x x' y y' : Float} (hx : Coincide x x') (hy : Coincide y y') :
    (x == y) = (x' == y') := by
  rw [Bool.eq_iff_iff, float_beq_iff, float_beq_iff, hx.compare hy]

theorem Coincide.lt_iff {x x' y y' : Float} (hx : Coincide x x') (hy : Coincide y y') :
    x < y ↔ x' < y' := by
  rw [float_lt_iff, float_lt_iff, hx.compare hy]

/-! ## What depends on the sign of zero -/

theorem IsZero.decode_eq {x : Float} (h : IsZero x) :
    ∃ neg, decode x = .finite ⟨neg, 0, -1074⟩ := by
  obtain ⟨s, hs⟩ := h
  exact ⟨_, by rw [Stencil.decode_eq, hs, Double.ofUnpacked]⟩

theorem Binary.ratio_zero (neg : Bool) (e : Int) : (Binary.mk neg 0 e).ratio.1 = 0 := by
  unfold Binary.ratio
  split <;> simp

theorem Binary.floor_zero (neg : Bool) (e : Int) : (Binary.mk neg 0 e).floor = 0 := by
  rw [Binary.floor, Binary.ratio_zero, Nat.zero_div]

theorem IsZero.ofFloat {x : Float} (h : IsZero x) : Value.ofFloat x = .num (.int 0) := by
  obtain ⟨neg, hx⟩ := h.decode_eq
  unfold Value.ofFloat
  rw [hx]
  simp [Binary.isIntegral, Binary.trunc, Binary.ratio_zero, Binary.floor_zero, safeLimit]

theorem Coincide.ofFloat {x y : Float} (h : Coincide x y) : Value.ofFloat x = Value.ofFloat y := by
  rcases h with rfl | ⟨hx, hy⟩
  · rfl
  · rw [hx.ofFloat, hy.ofFloat]

/-- The same form but for the sign of a zero or of an infinity. -/
inductive Blurs : UnpackedFloat → UnpackedFloat → Prop
  | refl (u : UnpackedFloat) : Blurs u u
  | zero (s t : Sign) : Blurs (.zero s) (.zero t)
  | infinity (s t : Sign) : Blurs (.infinity s) (.infinity t)

theorem isZero_pack (s : Sign) : IsZero (.ofModel (.pack (.zero s))) := by
  cases s with
  | negative => exact ⟨.negative, rfl⟩
  | positive => exact ⟨.positive, rfl⟩

/-- An infinity is no value, and a zero is an integer without a sign. -/
theorem Blurs.ofFloat {u v : UnpackedFloat} (h : Blurs u v) :
    Value.ofFloat (.ofModel (.pack u)) = Value.ofFloat (.ofModel (.pack v)) := by
  cases h with
  | refl => rfl
  | zero s t => rw [(isZero_pack s).ofFloat, (isZero_pack t).ofFloat]
  | infinity s t => cases s <;> cases t <;> rfl

/-- Operands that coincide give results of the same value, if the operation only blurs. -/
theorem ofFloat_congr {f : UnpackedFloat → UnpackedFloat → UnpackedFloat}
    (hl : ∀ s t v, Blurs (f (.zero s) v) (f (.zero t) v))
    (hr : ∀ s t u, Blurs (f u (.zero s)) (f u (.zero t)))
    {x x' y y' : Float} (hx : Coincide x x') (hy : Coincide y y') :
    Value.ofFloat (.ofModel (.pack (f x.toModel.unpack y.toModel.unpack))) =
      Value.ofFloat (.ofModel (.pack (f x'.toModel.unpack y'.toModel.unpack))) := by
  have hleft : Value.ofFloat (.ofModel (.pack (f x.toModel.unpack y.toModel.unpack))) =
      Value.ofFloat (.ofModel (.pack (f x'.toModel.unpack y.toModel.unpack))) := by
    rcases hx with rfl | ⟨⟨s, hs⟩, t, ht⟩
    · rfl
    · rw [hs, ht]
      exact (hl s t _).ofFloat
  rw [hleft]
  rcases hy with rfl | ⟨⟨s, hs⟩, t, ht⟩
  · rfl
  · rw [hs, ht]
    exact (hr s t _).ofFloat

theorem ofFloat_sum {f : UnpackedFloat → UnpackedFloat → UnpackedFloat}
    (hf : f = UnpackedFloat.add Format.binary64 ∨ f = UnpackedFloat.sub Format.binary64)
    {x x' y y' : Float} (hx : Coincide x x') (hy : Coincide y y') :
    Value.ofFloat (.ofModel (.pack (f x.toModel.unpack y.toModel.unpack))) =
      Value.ofFloat (.ofModel (.pack (f x'.toModel.unpack y'.toModel.unpack))) := by
  refine ofFloat_congr ?_ ?_ hx hy
  · intro s t v
    rcases hf with rfl | rfl <;> cases v with
    | zero r =>
      simp only [UnpackedFloat.add, UnpackedFloat.sub]
      split <;> split <;> exact .zero ..
    | _ => exact .refl _
  · intro s t u
    rcases hf with rfl | rfl <;> cases u with
    | zero r =>
      simp only [UnpackedFloat.add, UnpackedFloat.sub]
      split <;> split <;> exact .zero ..
    | _ => exact .refl _

theorem ofFloat_mul {x x' y y' : Float} (hx : Coincide x x') (hy : Coincide y y') :
    Value.ofFloat (x * y) = Value.ofFloat (x' * y') := by
  refine ofFloat_congr ?_ ?_ hx hy
  · intro s t v
    cases v with
    | notANumber => exact .refl _
    | infinity r => exact .refl _
    | zero r => exact .zero ..
    | finite r m e hm => exact .zero ..
  · intro s t u
    cases u with
    | notANumber => exact .refl _
    | infinity r => exact .refl _
    | zero r => exact .zero ..
    | finite r m e hm => exact .zero ..

theorem ofFloat_div {x x' y y' : Float} (hx : Coincide x x') (hy : Coincide y y') :
    Value.ofFloat (x / y) = Value.ofFloat (x' / y') := by
  refine ofFloat_congr ?_ ?_ hx hy
  · intro s t v
    cases v with
    | notANumber => exact .refl _
    | infinity r => exact .zero ..
    | zero r => exact .refl _
    | finite r m e hm => exact .zero ..
  · intro s t u
    cases u with
    | notANumber => exact .refl _
    | infinity r => exact .infinity ..
    | zero r => exact .refl _
    | finite r m e hm => exact .infinity ..

theorem IsZero.neg {x : Float} (h : IsZero x) : IsZero (-x) := by
  obtain ⟨s, hs⟩ := h
  have hneg : -x = .ofModel (.pack (.zero (-s))) := by
    change Float.ofModel (.pack x.toModel.unpack.neg) = _
    rw [hs]
    rfl
  rw [hneg]
  exact isZero_pack (-s)

theorem Coincide.neg {x y : Float} (h : Coincide x y) : Coincide (-x) (-y) := by
  rcases h with rfl | ⟨hx, hy⟩
  · exact .refl _
  · exact .inr ⟨hx.neg, hy.neg⟩

theorem IsZero.negate {x : Float} (h : IsZero x) (neg : Bool) : IsZero (negate neg x) := by
  cases neg with
  | false => exact h
  | true => exact h.neg

theorem Binary.toFloat_zero (neg : Bool) (e : Int) : IsZero (Binary.mk neg 0 e).toFloat := by
  have h : IsZero 0.0 := ⟨.positive, rfl⟩
  exact h.negate neg

theorem remainder_zero (x : Float) {y : Float} (h : IsZero y) : remainder x y = 0.0 / 0.0 := by
  obtain ⟨neg, hy⟩ := h.decode_eq
  unfold remainder
  rw [hy]
  cases decode x with
  | finite a => rfl
  | _ => rfl

theorem Coincide.remainder {x x' y y' : Float} (hx : Coincide x x') (hy : Coincide y y') :
    Coincide (remainder x y) (remainder x' y') := by
  rcases hy with rfl | ⟨hy, hy'⟩
  · rcases hx with rfl | ⟨hx, hx'⟩
    · exact .refl _
    · obtain ⟨neg, h⟩ := hx.decode_eq
      obtain ⟨neg', h'⟩ := hx'.decode_eq
      unfold Stencil.remainder
      rw [h, h']
      cases decode y with
      | nan => exact .refl _
      | infinite _ => exact .inr ⟨hx, hx'⟩
      | finite b =>
        dsimp only
        split
        · exact .refl _
        · simp only [Nat.zero_mul, Nat.zero_mod]
          exact .inr ⟨Binary.toFloat_zero .., Binary.toFloat_zero ..⟩
  · rw [remainder_zero x hy, remainder_zero x' hy']
    exact .refl _

end Stencil
