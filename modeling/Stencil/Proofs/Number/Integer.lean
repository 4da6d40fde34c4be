import Stencil.Proofs.Number.Double

/-! # Integers as doubles

An integer of fewer than 54 binary digits is a double: its digits, moved up until there are 53 of
them, are stored as they are. Larger ones are rounded, but every integer is some number as a
double. -/

namespace Stencil

open Float.Model (UnpackedFloat Format totalExponent)
open Float.Model.UnpackedFloat (Sign unpackExponent unpackSign packComponents ExtendedMantissa
  shiftToTargetExponent roundWithAccuracy unpackMantissa_packComponents
  unpackExponent_packComponents)

/-! ## Storing a number -/

theorem unpackSign_packComponents (s : Sign) (e : BitVec 11) (m : BitVec 52) :
    Sign.ofBitVec (unpackSign (packComponents Format.binary64 s e m)) = s := by
  have h : unpackSign (packComponents Format.binary64 s e m) = s.toBitVec := by
    ext i hi
    obtain rfl : i = 0 := by omega
    simp only [unpackSign, packComponents]
    grind
  rw [h]
  cases s <;> rfl

theorem log2_shifted {q : Nat} (hlo : 2 ^ 52 ≤ q) (hhi : q < 2 ^ 53) (j : Nat) :
    (q * 2 ^ j).log2 = 52 + j := by
  have hj : 0 < 2 ^ j := Nat.two_pow_pos j
  have hq : q * 2 ^ j ≠ 0 := by
    have := Nat.mul_le_mul hlo hj
    omega
  rw [Nat.log2_eq_iff hq, Nat.add_right_comm, Nat.pow_add, Nat.pow_add]
  exact ⟨Nat.mul_le_mul_right _ hlo, Nat.mul_lt_mul_of_pos_right hhi hj⟩

/-- A number with 53 digits is stored as it is. -/
theorem unpack_pack {q : Nat} {e : Int} (s : Sign) (hlo : 2 ^ 52 ≤ q) (hhi : q < 2 ^ 53)
    (he : -1074 ≤ e) (he' : e ≤ 971) (hq : 0 < q) :
    (Float.Model.pack (.finite s q e hq)).unpack = .finite s q e hq := by
  have hlog : q.log2 = 52 := by
    have := log2_shifted hlo hhi 0
    simpa using this
  have hbits : Format.binary64.mantissaBits = 53 := rfl
  have hbias : (e + Format.binary64.exponentBias +
      Format.binary64.mantissaBitsWithoutImplicit).toNat = (e + 1075).toNat := by
    rw [exponentBias_binary64, Int.add_assoc]
    rfl
  have hfield : (BitVec.ofNat 11 (e + 1075).toNat).toNat = (e + 1075).toNat := by
    rw [BitVec.toNat_ofNat]
    omega
  have hmant : (1#1 ++ BitVec.ofNat 52 q).toNat = q := by
    rw [toNat_one_append, BitVec.toNat_ofNat]
    omega
  change UnpackedFloat.unpack Format.binary64
    (UnpackedFloat.pack Format.binary64 (.finite s q e hq)) = _
  unfold UnpackedFloat.pack
  simp only [hlog, hbias, hbits, if_true]
  rw [if_neg (by simp; omega)]
  unfold UnpackedFloat.unpack
  simp only [unpackMantissa_packComponents, unpackExponent_packComponents,
    unpackSign_packComponents]
  rw [if_neg, if_neg]
  · simp [hmant, hfield, exponentBias_binary64]
    omega
  · intro h
    have := congrArg BitVec.toNat h
    simp at this
    omega
  · intro h
    have := congrArg BitVec.toNat h
    simp at this
    omega

theorem unpack_ne_nan {b : BitVec 64} (h : @unpackExponent Format.binary64 b ≠ -1#11) :
    UnpackedFloat.unpack Format.binary64 b ≠ .notANumber := by
  unfold UnpackedFloat.unpack
  rw [if_neg h]
  split
  · split <;> simp
  · simp

theorem unpack_pack_ne_nan {u : UnpackedFloat} (h : u ≠ .notANumber) :
    (Float.Model.pack u).unpack ≠ .notANumber := by
  change UnpackedFloat.unpack Format.binary64 (UnpackedFloat.pack Format.binary64 u) ≠ _
  have hinf : ∀ s, UnpackedFloat.unpack Format.binary64
      (UnpackedFloat.packedInfinity Format.binary64 s) ≠ .notANumber := by
    intro s
    simp [UnpackedFloat.packedInfinity, UnpackedFloat.unpack]
  cases u with
  | notANumber => exact absurd rfl h
  | infinity s => exact hinf s
  | zero s =>
    apply unpack_ne_nan
    simp [UnpackedFloat.pack, UnpackedFloat.packedZero]
  | finite s m e hm =>
    unfold UnpackedFloat.pack
    dsimp only
    split
    · exact hinf s
    · next hlt =>
      apply unpack_ne_nan
      split
      · rw [unpackExponent_packComponents]
        intro hc
        have := congrArg BitVec.toNat hc
        simp at this hlt
        omega
      · simp

/-! ## Rounding what needs no rounding -/

theorem repeat_shiftRightOne (q j : Nat) :
    j.repeat ExtendedMantissa.shiftRightOne ⟨q * 2 ^ j, false, false⟩ = ⟨q, false, false⟩ := by
  induction j generalizing q with
  | zero => simp [Nat.repeat]
  | succ j ih =>
    have h : q * 2 ^ (j + 1) = (q * 2) * 2 ^ j := by
      rw [Nat.pow_succ, Nat.mul_comm (2 ^ j), Nat.mul_assoc]
    rw [Nat.repeat, h, ih]
    simp [ExtendedMantissa.shiftRightOne]

theorem targetExponent_eq (m : Nat) (e : Int) :
    Format.binary64.targetExponent (totalExponent m e) = max (m.log2 + e - 52) (-1074) := by
  have hmin : Format.binary64.minExponent = -1074 := rfl
  have hbits : ((Format.binary64.mantissaBits : Nat) : Int) = 53 := rfl
  rw [Format.targetExponent, totalExponent, hmin, hbits]
  omega

theorem shiftToTargetExponent_exact {q : Nat} (hlo : 2 ^ 52 ≤ q) (hhi : q < 2 ^ 53) (j : Nat)
    {e : Int} (he : -1074 ≤ e + j) :
    shiftToTargetExponent Format.binary64 (q * 2 ^ j) e .exact = (⟨q, false, false⟩, e + j) := by
  unfold shiftToTargetExponent
  simp only [targetExponent_eq, log2_shifted hlo hhi, UnpackedFloat.shiftToExponent]
  have hj : (max (((52 + j : Nat) : Int) + e - 52) (-1074) - e).toNat = j := by omega
  rw [hj]
  exact congrArg (·, e + (j : Int)) (repeat_shiftRightOne q j)

theorem roundWithAccuracy_exact {q : Nat} (hlo : 2 ^ 52 ≤ q) (hhi : q < 2 ^ 53) (s : Sign)
    (j : Nat) {e : Int} (he : -1074 ≤ e + j) :
    roundWithAccuracy Format.binary64 s (q * 2 ^ j) e .exact =
      .finite s q (e + j) (Nat.lt_of_lt_of_le (by decide) hlo) := by
  have h0 := shiftToTargetExponent_exact hlo hhi 0 (e := e + j) (by simpa using he)
  rw [Nat.pow_zero, Nat.mul_one] at h0
  have hq : q ≠ 0 := by omega
  unfold roundWithAccuracy
  simp [shiftToTargetExponent_exact hlo hhi j he, ExtendedMantissa.roundedMantissa,
    ExtendedMantissa.accuracy, UnpackedFloat.Accuracy.roundToNearestEven, h0, hq]

theorem roundWithAccuracy_ne_nan (s : Sign) (m : Nat) (e : Int) (a : UnpackedFloat.Accuracy) :
    roundWithAccuracy Format.binary64 s m e a ≠ .notANumber := by
  unfold roundWithAccuracy
  dsimp only
  split <;> simp

/-! ## Integers -/

theorem log2_le_of_safe {n : Nat} (h0 : n ≠ 0) (h : n < 2 ^ 53) : n.log2 ≤ 52 := by
  have := (Nat.log2_lt h0).2 h
  omega

theorem shifted_bounds {n : Nat} (h0 : n ≠ 0) (h : n < 2 ^ 53) :
    2 ^ 52 ≤ n * 2 ^ (52 - n.log2) ∧ n * 2 ^ (52 - n.log2) < 2 ^ 53 := by
  have hlog := log2_le_of_safe h0 h
  have hlo := Nat.mul_le_mul_right (2 ^ (52 - n.log2)) (Nat.log2_self_le h0)
  have hhi := Nat.mul_lt_mul_of_pos_right (@Nat.lt_log2_self n) (Nat.two_pow_pos (52 - n.log2))
  rw [← Nat.pow_add] at hlo hhi
  rw [show n.log2 + (52 - n.log2) = 52 by omega] at hlo
  rw [show n.log2 + 1 + (52 - n.log2) = 53 by omega] at hhi
  exact ⟨hlo, hhi⟩

def shifted (s : Sign) {n : Nat} (h0 : n ≠ 0) (h : n < 2 ^ 53) : UnpackedFloat :=
  .finite s (n * 2 ^ (52 - n.log2)) (-(52 - n.log2 : Nat))
    (Nat.lt_of_lt_of_le (by decide) (shifted_bounds h0 h).1)

theorem unpack_pack_shifted (s : Sign) {n : Nat} (h0 : n ≠ 0) (h : n < 2 ^ 53) :
    (Float.Model.pack (shifted s h0 h)).unpack = shifted s h0 h := by
  obtain ⟨hlo, hhi⟩ := shifted_bounds h0 h
  exact unpack_pack s hlo hhi (by omega) (by omega) _

theorem ofNat_exact {n : Nat} (h0 : n ≠ 0) (h : n < 2 ^ 53) :
    UnpackedFloat.ofNat Format.binary64 n = shifted .positive h0 h := by
  obtain ⟨hlo, hhi⟩ := shifted_bounds h0 h
  have hlog := log2_le_of_safe h0 h
  have hround := roundWithAccuracy_exact hlo hhi .positive 0 (e := -(52 - n.log2 : Nat)) (by omega)
  have hpos : compare (n : Int) 0 = .gt := by
    rw [Int.compare_eq_gt]
    omega
  have htarget : max ((n.log2 : Int) + 0 - 52) (-1074) = -(52 - n.log2 : Nat) := by omega
  have hshift : (0 - -((52 - n.log2 : Nat) : Int)).toNat = 52 - n.log2 := by omega
  unfold UnpackedFloat.ofNat UnpackedFloat.ofInt UnpackedFloat.normalize
  rw [hpos]
  simp only [UnpackedFloat.round, Int.toNat_natCast, targetExponent_eq, htarget,
    UnpackedFloat.decreaseExponent]
  rw [hshift, Nat.shiftLeft_eq, Int.zero_sub]
  simpa [shifted] using hround

theorem unpack_one : (Float.ofBits 0x3FF0000000000000).toModel.unpack =
    .finite .positive (2 ^ 52) (-52) (by decide) :=
  rfl

/-- A safe number is a double. The conversion ends in a product with one, which is exact again. -/
theorem unpack_ofNat {n : Nat} (h0 : n ≠ 0) (h : n < 2 ^ 53) :
    (Float.ofNat n).toModel.unpack = shifted .positive h0 h := by
  obtain ⟨hlo, hhi⟩ := shifted_bounds h0 h
  have hproduct : Float.ofNat n = n.toUInt64.toFloat * Float.ofBits 0x3FF0000000000000 := by
    change Float.ofScientific n false 0 = _
    rw [Float.ofScientific, dif_pos ⟨h, by decide⟩]
    rfl
  have hfactor : n.toUInt64.toFloat.toModel.unpack = shifted .positive h0 h := by
    have hn : n.toUInt64.toNat = n := Nat.mod_eq_of_lt (by omega)
    change (Float.Model.pack (UnpackedFloat.ofNat Format.binary64 n.toUInt64.toNat)).unpack = _
    rw [hn, ofNat_exact h0 h, unpack_pack_shifted]
  rw [hproduct]
  change (Float.Model.pack (UnpackedFloat.mul Format.binary64 n.toUInt64.toFloat.toModel.unpack
    (Float.ofBits 0x3FF0000000000000).toModel.unpack)).unpack = _
  rw [hfactor, unpack_one]
  change (Float.Model.pack (roundWithAccuracy Format.binary64 .positive _ _ .exact)).unpack = _
  rw [roundWithAccuracy_exact hlo hhi _ _ (by omega)]
  have he : -((52 - n.log2 : Nat) : Int) + -52 + (52 : Nat) = -(52 - n.log2 : Nat) := by omega
  simp only [he]
  exact unpack_pack_shifted .positive h0 h

theorem isZero_ofInt : IsZero (Float.ofInt 0) :=
  ⟨.positive, rfl⟩

theorem decode_ofInt {n : Int} (h0 : n ≠ 0) (h : n.natAbs < 2 ^ 53) :
    decode (Float.ofInt n) = .finite
      ⟨decide (n < 0), n.natAbs * 2 ^ (52 - n.natAbs.log2), -(52 - n.natAbs.log2 : Nat)⟩ := by
  rw [decode_eq]
  cases n with
  | ofNat n =>
    have hneg : decide (Int.ofNat n < 0) = false :=
      decide_eq_false (Int.not_lt.2 (Int.natCast_nonneg n))
    have hn : n ≠ 0 := by simpa using h0
    change Double.ofUnpacked (Float.ofNat n).toModel.unpack = _
    rw [unpack_ofNat hn h, hneg]
    rfl
  | negSucc n =>
    have hneg : decide (Int.negSucc n < 0) = true := decide_eq_true (Int.negSucc_lt_zero n)
    change Double.ofUnpacked (Float.Model.pack (Float.ofNat (n + 1)).toModel.unpack.neg).unpack = _
    rw [unpack_ofNat (Nat.succ_ne_zero n) h]
    change Double.ofUnpacked
      (Float.Model.pack (shifted .negative (Nat.succ_ne_zero n) h)).unpack = _
    rw [unpack_pack_shifted, hneg]
    rfl

theorem unpack_ofNat_ne_nan (n : Nat) : (Float.ofNat n).toModel.unpack ≠ .notANumber := by
  by_cases h0 : n = 0
  · subst h0
    intro h
    cases h
  · by_cases h : n < 2 ^ 53
    · rw [unpack_ofNat h0 h]
      simp [shifted]
    · have hlarge : Float.ofNat n = .ofModel (.ofScientific n 0) := by
        change Float.ofScientific n false 0 = _
        rw [Float.ofScientific, dif_neg fun hc => h hc.1]
        rfl
      rw [hlarge]
      apply unpack_pack_ne_nan
      have hpow : (0 : Int) ≤ 2 ^ Format.binary64.exponentBits := by decide
      unfold UnpackedFloat.ofScientific
      rw [dif_neg h0, if_neg (by omega), if_neg (by omega), if_pos (Int.le_refl 0),
        UnpackedFloat.mul]
      exact roundWithAccuracy_ne_nan _ _ _ _

theorem decode_ofInt_ne_nan (n : Int) : decode (Float.ofInt n) ≠ .nan := by
  rw [Ne, decode_eq_nan]
  cases n with
  | ofNat n => exact unpack_ofNat_ne_nan n
  | negSucc n =>
    apply unpack_pack_ne_nan
    intro hneg
    apply unpack_ofNat_ne_nan (n + 1)
    cases hu : (Float.ofNat (n + 1)).toModel.unpack with
    | notANumber => rfl
    | _ =>
      change (Float.ofNat (n + 1)).toModel.unpack.neg = _ at hneg
      rw [hu] at hneg
      cases hneg

end Stencil
