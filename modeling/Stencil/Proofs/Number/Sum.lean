import Stencil.Proofs.Number.Integer
import Stencil.Proofs.Number.Leading

/-! # Rounded sums

The sum of two doubles is their exact sum, rounded to 53 binary digits. The digits that rounding
leaves out lie below a power of two, and no multiple of that power is passed: a sum with an integer
part of at most 53 digits stays between the integers next to it, and one that is a double is the sum
itself. -/

namespace Stencil

open Float.Model (UnpackedFloat Format totalExponent)
open Float.Model.UnpackedFloat (Sign Accuracy ExtendedMantissa shiftToTargetExponent
  roundWithAccuracy unpackMantissa_packComponents unpackExponent_packComponents)

/-! ## Leaving digits out -/

def roundedShift (m k : Nat) : Nat :=
  (k.repeat ExtendedMantissa.shiftRightOne ⟨m, false, false⟩).roundedMantissa

theorem mantissa_repeat_shiftRightOne (em : ExtendedMantissa) (k : Nat) :
    (k.repeat ExtendedMantissa.shiftRightOne em).mantissa = em.mantissa / 2 ^ k := by
  induction k with
  | zero => simp [Nat.repeat]
  | succ k ih =>
    change (k.repeat ExtendedMantissa.shiftRightOne em).mantissa / 2 = _
    rw [ih, Nat.div_div_eq_div_mul, Nat.pow_succ]

theorem roundedMantissa_between (em : ExtendedMantissa) :
    em.mantissa ≤ em.roundedMantissa ∧ em.roundedMantissa ≤ em.mantissa + 1 := by
  obtain ⟨m, round, sticky⟩ := em
  cases round <;> cases sticky <;>
    simp only [ExtendedMantissa.roundedMantissa, ExtendedMantissa.accuracy,
      Accuracy.roundToNearestEven] <;>
    omega

theorem roundedShift_between (m k : Nat) :
    m / 2 ^ k ≤ roundedShift m k ∧ roundedShift m k ≤ m / 2 ^ k + 1 := by
  have h := roundedMantissa_between (k.repeat ExtendedMantissa.shiftRightOne ⟨m, false, false⟩)
  rwa [mantissa_repeat_shiftRightOne] at h

theorem roundedShift_mul (n k : Nat) : roundedShift (n * 2 ^ k) k = n := by
  rw [roundedShift, repeat_shiftRightOne]
  rfl

/-- Rounding passes no multiple of the power that is left out. -/
theorem le_roundedShift {m n k : Nat} (h : n * 2 ^ k ≤ m) : n ≤ roundedShift m k :=
  ((Nat.le_div_iff_mul_le (Nat.two_pow_pos k)).2 h).trans (roundedShift_between m k).1

theorem roundedShift_le {m n k : Nat} (h : m ≤ n * 2 ^ k) : roundedShift m k ≤ n := by
  rcases h.eq_or_lt with rfl | hlt
  · rw [roundedShift_mul]
  · have := (Nat.div_lt_iff_lt_mul (Nat.two_pow_pos k)).2 hlt
    have := (roundedShift_between m k).2
    omega

/-! ## Rounding -/

def roundedExp (m : Nat) (e : Int) : Int :=
  max (m.log2 + e - 52) (-1074)

/-- The form with up to 53 digits; if rounding has carried into one digit more, that is a power of
two. -/
def storedForm (s : Sign) (r : Nat) (t : Int) : UnpackedFloat :=
  if h : r = 0 then .zero s
  else if r < 2 ^ 53 then .finite s r t (Nat.pos_of_ne_zero h)
  else .finite s (2 ^ 52) (t + 1) (by decide)

theorem shiftToTargetExponent_small {r : Nat} {t : Int} (hr : r < 2 ^ 53) (ht : -1074 ≤ t) :
    shiftToTargetExponent Format.binary64 r t .exact = (⟨r, false, false⟩, t) := by
  have hlog : r.log2 ≤ 52 := by
    by_cases h0 : r = 0
    · simp [h0]
    · exact log2_le_of_safe h0 hr
  have hshift : (max ((r.log2 : Int) + t - 52) (-1074) - t).toNat = 0 := by omega
  unfold shiftToTargetExponent
  simp only [targetExponent_eq, UnpackedFloat.shiftToExponent, hshift]
  exact congrArg (_, ·) (Int.add_zero t)

theorem roundedShift_le_full {m k : Nat} (h : m.log2 ≤ 52 + k) : roundedShift m k ≤ 2 ^ 53 := by
  apply roundedShift_le
  have hpow : 2 ^ (m.log2 + 1) ≤ 2 ^ (53 + k) := Nat.pow_le_pow_right (by decide) (by omega)
  rw [← Nat.pow_add]
  exact (Nat.lt_log2_self.trans_le hpow).le

theorem full_le_roundedShift {m k : Nat} (hm : m ≠ 0) (h : m.log2 = 52 + k) :
    2 ^ 52 ≤ roundedShift m k := by
  apply le_roundedShift
  rw [← Nat.pow_add, ← h]
  exact Nat.log2_self_le hm

theorem roundWithAccuracy_eq (s : Sign) {m : Nat} {e : Int} (he : e ≤ roundedExp m e) :
    roundWithAccuracy Format.binary64 s m e .exact =
      storedForm s (roundedShift m (roundedExp m e - e).toNat) (roundedExp m e) := by
  have hfirst : shiftToTargetExponent Format.binary64 m e .exact =
      ((roundedExp m e - e).toNat.repeat ExtendedMantissa.shiftRightOne ⟨m, false, false⟩,
        roundedExp m e) := by
    unfold shiftToTargetExponent
    simp only [targetExponent_eq, UnpackedFloat.shiftToExponent]
    exact congrArg (_, ·) (by unfold roundedExp at he ⊢; omega)
  have hmin : -1074 ≤ roundedExp m e := le_max_right _ _
  have hfull : roundedShift m (roundedExp m e - e).toNat ≤ 2 ^ 53 :=
    roundedShift_le_full (by unfold roundedExp; omega)
  unfold roundWithAccuracy
  simp only [hfirst, ← roundedShift.eq_1]
  unfold storedForm
  rcases hfull.lt_or_eq with hr | hr
  · simp only [shiftToTargetExponent_small hr hmin, if_pos hr]
  · have hcarry := shiftToTargetExponent_exact (q := 2 ^ 52) (by decide) (by decide) 1
      (e := roundedExp m e) (by omega)
    have hpow : 2 ^ 52 * 2 ^ 1 = 2 ^ 53 := by decide
    rw [hpow] at hcarry
    simp only [hr, hcarry]
    rfl

theorem log2_mul_two_pow {m : Nat} (hm : m ≠ 0) (j : Nat) : (m * 2 ^ j).log2 = m.log2 + j := by
  have hj := Nat.two_pow_pos j
  rw [Nat.log2_eq_iff (Nat.mul_ne_zero hm hj.ne'), Nat.add_right_comm, Nat.pow_add, Nat.pow_add]
  exact ⟨Nat.mul_le_mul_right _ (Nat.log2_self_le hm),
    Nat.mul_lt_mul_of_pos_right Nat.lt_log2_self hj⟩

theorem roundedExp_mul {m : Nat} (hm : m ≠ 0) (e : Int) (j : Nat) :
    roundedExp (m * 2 ^ j) (e - j) = roundedExp m e := by
  unfold roundedExp
  rw [log2_mul_two_pow hm]
  omega

/-- Digits are moved up where there are too few of them, and left out where there are too many. -/
theorem round_eq (s : Sign) {m : Nat} (hm : m ≠ 0) (e : Int) :
    UnpackedFloat.round Format.binary64 s m e =
      storedForm s (roundedShift (m * 2 ^ (e - roundedExp m e).toNat) (roundedExp m e - e).toNat)
        (roundedExp m e) := by
  have hexp := roundedExp_mul hm e (e - roundedExp m e).toNat
  have hround := roundWithAccuracy_eq s (m := m * 2 ^ (e - roundedExp m e).toNat)
    (e := e - (e - roundedExp m e).toNat) (by omega)
  have hshift : (roundedExp m e - (e - (e - roundedExp m e).toNat)).toNat =
      (roundedExp m e - e).toNat := by omega
  rw [hexp, hshift] at hround
  rw [← hround, UnpackedFloat.round]
  simp only [targetExponent_eq, UnpackedFloat.decreaseExponent, Nat.shiftLeft_eq]
  rfl

/-- What a number may be rounded to: no multiple of a power of two is passed that leaves room for
the digits of the number. -/
def Rounded (q v : ℚ) : Prop :=
  ∀ j n : Nat, j ≤ 1074 → q < 2 ^ (53 - j : Int) →
    ((n : ℚ) ≤ q * 2 ^ j → (n : ℚ) ≤ v * 2 ^ j) ∧ (q * 2 ^ j ≤ n → v * 2 ^ j ≤ n)

theorem two_zpow_pos (e : Int) : (0 : ℚ) < 2 ^ e :=
  zpow_pos (by norm_num) e

theorem two_zpow_split {a b c : Int} (h : a = b + c) : (2 : ℚ) ^ a = 2 ^ b * 2 ^ c := by
  rw [h, zpow_add₀ (by norm_num)]

theorem roundedExp_le {m : Nat} {e : Int} (hm : m ≠ 0) {j : Nat} (hj : j ≤ 1074)
    (h : (m : ℚ) * 2 ^ e < 2 ^ (53 - j : Int)) : roundedExp m e ≤ -j := by
  have hlog : (2 : ℚ) ^ ((m.log2 : Int) + e) ≤ m * 2 ^ e := by
    rw [zpow_add₀ (by norm_num), zpow_natCast]
    exact mul_le_mul_of_nonneg_right (by exact_mod_cast Nat.log2_self_le hm) (two_zpow_pos e).le
  have hlt := (zpow_lt_zpow_iff_right₀ (by norm_num)).1 (hlog.trans_lt h)
  unfold roundedExp
  omega

theorem mul_two_zpow_le_iff (a b : Nat) (s t : Int) :
    (a : ℚ) * 2 ^ s ≤ b * 2 ^ t ↔ a * 2 ^ (s - t).toNat ≤ b * 2 ^ (t - s).toNat := by
  have hs : (2 : ℚ) ^ s = (2 ^ (s - t).toNat : Nat) * 2 ^ min s t := by
    rw [two_zpow_split (show s = (s - t).toNat + min s t by omega)]
    norm_cast
  have ht : (2 : ℚ) ^ t = (2 ^ (t - s).toNat : Nat) * 2 ^ min s t := by
    rw [two_zpow_split (show t = (t - s).toNat + min s t by omega)]
    norm_cast
  rw [hs, ht, ← mul_assoc, ← mul_assoc, mul_le_mul_iff_left₀ (two_zpow_pos _)]
  exact_mod_cast Iff.rfl

theorem rounded_roundedShift {m : Nat} (hm : m ≠ 0) (e : Int) :
    Rounded (m * 2 ^ e) (roundedShift (m * 2 ^ (e - roundedExp m e).toNat)
      (roundedExp m e - e).toNat * 2 ^ roundedExp m e) := by
  intro j n hj hsmall
  have hexp := roundedExp_le hm hj hsmall
  generalize roundedExp m e = t at hexp
  have htwo : (0 : ℚ) < 2 ^ j := by positivity
  -- the multiple is one of the power that rounding leaves out, too
  obtain ⟨N, hN⟩ : ∃ N : Nat, (n : ℚ) = N * 2 ^ t * 2 ^ j := by
    refine ⟨n * 2 ^ (-j - t).toNat, ?_⟩
    rw [mul_assoc, ← zpow_natCast, ← zpow_add₀ (by norm_num), Nat.cast_mul, Nat.cast_pow, mul_assoc,
      Nat.cast_ofNat, ← zpow_natCast, ← zpow_add₀ (by norm_num)]
    rw [show (((-j - t).toNat : Nat) : Int) + (t + j) = 0 by omega, zpow_zero, mul_one]
  rw [hN, mul_le_mul_iff_left₀ htwo, mul_le_mul_iff_left₀ htwo, mul_le_mul_iff_left₀ htwo,
    mul_le_mul_iff_left₀ htwo, mul_le_mul_iff_left₀ (two_zpow_pos t),
    mul_le_mul_iff_left₀ (two_zpow_pos t), Nat.cast_le, Nat.cast_le, mul_two_zpow_le_iff,
    mul_two_zpow_le_iff]
  exact ⟨le_roundedShift, roundedShift_le⟩

/-! ## Storing a rounded number -/

theorem unpack_pack_last (s : Sign) {m : Nat} (hm : 0 < m) (h : m < 2 ^ 52) :
    (Float.Model.pack (.finite s m (-1074) hm)).unpack = .finite s m (-1074) hm := by
  have hlog : m.log2 < 52 := (Nat.log2_lt hm.ne').2 h
  have hbits : Format.binary64.mantissaBits = 53 := rfl
  have hmant : (BitVec.ofNat 52 m).toNat = m := by
    rw [BitVec.toNat_ofNat]
    exact Nat.mod_eq_of_lt h
  have hmant0 : BitVec.ofNat 52 m ≠ 0#52 := by
    intro h0
    have := congrArg BitVec.toNat h0
    rw [hmant] at this
    simp at this
    omega
  have hbias : (-1074 + Format.binary64.exponentBias +
      Format.binary64.mantissaBitsWithoutImplicit : Int).toNat = 1 := rfl
  change UnpackedFloat.unpack Format.binary64
    (UnpackedFloat.pack Format.binary64 (.finite s m (-1074) hm)) = _
  unfold UnpackedFloat.pack
  simp only [hbias, hbits]
  rw [if_neg (by decide), if_neg (by omega)]
  unfold UnpackedFloat.unpack
  simp only [unpackMantissa_packComponents, unpackExponent_packComponents,
    unpackSign_packComponents]
  rw [if_neg (by decide), if_pos trivial, dif_neg hmant0]
  simp [hmant, exponentBias_binary64]

theorem decode_storedForm (s : Sign) {r : Nat} {t : Int} (hr : r ≤ 2 ^ 53)
    (hfull : 2 ^ 52 ≤ r ∨ t = -1074) (ht : -1074 ≤ t) (ht' : t ≤ 970) :
    ∃ b : Binary, decode (.ofModel (.pack (storedForm s r t))) = .finite b ∧
      b.neg = (s == .negative) ∧ b.magnitude = r * 2 ^ t := by
  rw [decode_eq]
  unfold storedForm
  split
  · next h0 =>
    refine ⟨⟨s == .negative, 0, -1074⟩, ?_, rfl, ?_⟩
    · cases s <;> rfl
    · simp [Binary.magnitude, h0]
  · split
    · next h0 hlt =>
      refine ⟨⟨s == .negative, r, t⟩, ?_, rfl, rfl⟩
      change Double.ofUnpacked (Float.Model.pack _).unpack = _
      rcases Nat.lt_or_ge r (2 ^ 52) with hlow | hge
      · obtain rfl : t = -1074 := by omega
        rw [unpack_pack_last s _ hlow]
        rfl
      · rw [unpack_pack s hge hlt ht (by omega)]
        rfl
    · refine ⟨⟨s == .negative, 2 ^ 52, t + 1⟩, ?_, rfl, ?_⟩
      · change Double.ofUnpacked (Float.Model.pack _).unpack = _
        rw [unpack_pack s (by decide) (by decide) (by omega) (by omega)]
        rfl
      · obtain rfl : r = 2 ^ 53 := by omega
        rw [Binary.magnitude, zpow_add_one₀ (by norm_num)]
        push_cast
        ring

/-- **Rounding** a number of less than 54 digits before the point. -/
theorem decode_round (s : Sign) {m : Nat} (hm : m ≠ 0) {e : Int} (h : (m : ℚ) * 2 ^ e < 2 ^ 53) :
    ∃ b : Binary, decode (.ofModel (.pack (UnpackedFloat.round Format.binary64 s m e))) =
      .finite b ∧
      b.neg = (s == .negative) ∧ Rounded (m * 2 ^ e) b.magnitude := by
  have hexp : roundedExp m e ≤ -(0 : Nat) := roundedExp_le hm (by decide) (by simpa using h)
  have hlog := log2_mul_two_pow hm (e - roundedExp m e).toNat
  have hmin : -1074 ≤ roundedExp m e := le_max_right _ _
  have hr : roundedShift (m * 2 ^ (e - roundedExp m e).toNat) (roundedExp m e - e).toNat ≤ 2 ^ 53 :=
    roundedShift_le_full (by unfold roundedExp at hlog ⊢; omega)
  have hfull : 2 ^ 52 ≤ roundedShift (m * 2 ^ (e - roundedExp m e).toNat)
    (roundedExp m e - e).toNat ∨
      roundedExp m e = -1074 := by
    by_cases hlast : roundedExp m e = -1074
    · exact .inr hlast
    · refine .inl (full_le_roundedShift (Nat.mul_ne_zero hm (Nat.two_pow_pos _).ne') ?_)
      unfold roundedExp at hlast hlog ⊢
      omega
  obtain ⟨b, hb, hneg, hvalue⟩ := decode_storedForm s hr hfull hmin (by omega)
  refine ⟨b, ?_, hneg, ?_⟩
  · rw [round_eq s hm, hb]
  · rw [hvalue]
    exact rounded_roundedShift hm e

/-! ## Sums -/

def Binary.value (b : Binary) : ℚ :=
  if b.neg then -b.magnitude else b.magnitude

def Double.NotPositive : Double → Prop
  | nan => True
  | infinite neg => neg = true
  | finite b => b.neg = true ∨ b.mant = 0

theorem unpack_of_finite {x : Float} {b : Binary} (h : decode x = .finite b) (h0 : 0 < b.mant) :
    ∃ s : Sign, b.neg = (s == .negative) ∧ x.toModel.unpack = .finite s b.mant b.exp h0 := by
  rw [decode_eq] at h
  cases hx : x.toModel.unpack with
  | notANumber => rw [hx] at h; cases h
  | infinity s => rw [hx] at h; cases h
  | zero s =>
    rw [hx] at h
    obtain rfl := Double.finite.inj h
    cases h0
  | finite s m e hm =>
    rw [hx] at h
    obtain rfl := Double.finite.inj h
    exact ⟨s, rfl, rfl⟩

theorem apply_mul_zpow {b : Binary} {s : Sign} (hs : b.neg = (s == .negative)) {e : Int}
    (he : e ≤ b.exp) :
    ((s.apply (b.mant <<< (b.exp - e).toNat : Nat) : Int) : ℚ) * 2 ^ e = b.value := by
  have hvalue : ((b.mant <<< (b.exp - e).toNat : Nat) : ℚ) * 2 ^ e = b.magnitude := by
    rw [Nat.shiftLeft_eq, Nat.cast_mul, Nat.cast_pow, Nat.cast_ofNat, mul_assoc, ← zpow_natCast,
      ← two_zpow_split (show b.exp = ((b.exp - e).toNat : Nat) + e by omega)]
    rfl
  unfold Binary.value
  rw [hs]
  cases s with
  | negative =>
    change ((-((b.mant <<< (b.exp - e).toNat : Nat) : Int) : Int) : ℚ) * 2 ^ e = -b.magnitude
    rw [Int.cast_neg, Int.cast_natCast, neg_mul, hvalue]
  | positive =>
    change (((b.mant <<< (b.exp - e).toNat : Nat) : Int) : ℚ) * 2 ^ e = b.magnitude
    rw [Int.cast_natCast, hvalue]

/-- The sum of two numbers that are not zero is an exact sum of digits that is then rounded. -/
theorem exists_add_eq {x y : Float} {b c : Binary} (hx : decode x = .finite b) (hb : 0 < b.mant)
    (hy : decode y = .finite c) (hc : 0 < c.mant) :
    ∃ (m e : Int), (m : ℚ) * 2 ^ e = b.value + c.value ∧
      x + y = .ofModel (.pack (UnpackedFloat.normalize Format.binary64 m e .positive)) := by
  obtain ⟨s, hs, hux⟩ := unpack_of_finite hx hb
  obtain ⟨t, ht, huy⟩ := unpack_of_finite hy hc
  refine ⟨s.apply (b.mant <<< (b.exp - min b.exp c.exp).toNat : Nat) +
    t.apply (c.mant <<< (c.exp - min b.exp c.exp).toNat : Nat), min b.exp c.exp, ?_, ?_⟩
  · rw [Int.cast_add, add_mul, apply_mul_zpow hs (min_le_left ..), apply_mul_zpow ht
      (min_le_right ..)]
  · change Float.ofModel (.pack (UnpackedFloat.add _ x.toModel.unpack y.toModel.unpack)) = _
    rw [hux, huy]
    rfl

/-- **A positive sum** is rounded, and stays positive. -/
theorem decode_add {x y : Float} {b c : Binary} (hx : decode x = .finite b) (hb : 0 < b.mant)
    (hy : decode y = .finite c) (hc : 0 < c.mant) (hpos : 0 < b.value + c.value)
    (hlt : b.value + c.value < 2 ^ 53) :
    ∃ d : Binary, decode (x + y) = .finite d ∧ d.neg = false ∧
      Rounded (b.value + c.value) d.magnitude := by
  obtain ⟨m, e, hvalue, hsum⟩ := exists_add_eq hx hb hy hc
  have hm : 0 < m := by
    have := pos_of_mul_pos_left (hvalue ▸ hpos) (two_zpow_pos e).le
    exact_mod_cast this
  obtain ⟨n, rfl⟩ := Int.eq_ofNat_of_zero_le hm.le
  have hround : UnpackedFloat.normalize Format.binary64 n e .positive =
      UnpackedFloat.round Format.binary64 .positive n e := by
    rw [UnpackedFloat.normalize, Int.compare_eq_gt.2 hm]
    rfl
  rw [Int.cast_natCast] at hvalue
  rw [hsum, hround, ← hvalue]
  exact decode_round .positive (by omega) (hvalue ▸ hlt)

theorem notPositive_ofBits {b : BitVec 64}
    (h : Sign.ofBitVec (@UnpackedFloat.unpackSign Format.binary64 b) = .negative) :
    (Double.ofBits b.toNat).NotPositive := by
  rw [Double.ofBits_eq, UnpackedFloat.unpack]
  simp only [h]
  split
  · split
    · rfl
    · trivial
  · split
    · split
      · exact .inl rfl
      · exact .inl rfl
    · exact .inl rfl

theorem notPositive_negative (m : Nat) (e : Int) (hm : 0 < m) :
    (decode (.ofModel (.pack (.finite .negative m e hm)))).NotPositive := by
  apply notPositive_ofBits
  change Sign.ofBitVec (UnpackedFloat.unpackSign (UnpackedFloat.pack Format.binary64 _)) = _
  unfold UnpackedFloat.pack
  dsimp only
  split
  · exact unpackSign_packComponents ..
  · split
    · exact unpackSign_packComponents ..
    · exact unpackSign_packComponents ..

/-- A sum that is not positive does not become so by rounding. -/
theorem notPositive_add {x y : Float} {b c : Binary} (hx : decode x = .finite b) (hb : 0 < b.mant)
    (hy : decode y = .finite c) (hc : 0 < c.mant) (hneg : b.value + c.value ≤ 0) :
    (decode (x + y)).NotPositive := by
  obtain ⟨m, e, hvalue, hsum⟩ := exists_add_eq hx hb hy hc
  have hm : m ≤ 0 := by
    have := nonpos_of_mul_nonpos_left (hvalue ▸ hneg) (two_zpow_pos e)
    exact_mod_cast this
  rw [hsum, UnpackedFloat.normalize]
  rcases hm.lt_or_eq with hlt | rfl
  · rw [Int.compare_eq_lt.2 hlt]
    dsimp only
    rw [round_eq _ (by omega), storedForm]
    split
    · exact .inl rfl
    · split
      · exact notPositive_negative ..
      · exact notPositive_negative ..
  · obtain ⟨neg, hzero⟩ := (isZero_pack .positive).decode_eq
    change (decode (.ofModel (.pack (.zero .positive)))).NotPositive
    rw [hzero]
    exact .inr rfl

/-! ## Rounding next to integers -/

theorem Rounded.eq {q v : ℚ} (h : Rounded q v) {j n : Nat} (hj : j ≤ 1074)
    (hlt : q < 2 ^ (53 - j : Int)) (hn : q * 2 ^ j = n) : v = q := by
  obtain ⟨hle, hge⟩ := h j n hj hlt
  have heq : v * 2 ^ j = q * 2 ^ j := by
    rw [hn]
    exact le_antisymm (hge hn.le) (hle hn.ge)
  exact mul_right_cancel₀ (by positivity) heq

/-- The integers next to a number stay next to it. -/
theorem Rounded.between {q v : ℚ} (h : Rounded q v) (hlt : q < 2 ^ 53) (hpos : 0 ≤ q) :
    (⌊q⌋₊ : ℚ) ≤ v ∧ v ≤ ⌈q⌉₊ := by
  have hunit : q < 2 ^ (53 - (0 : Nat) : Int) := by simpa using hlt
  have hfloor := (h 0 ⌊q⌋₊ (by decide) hunit).1
  have hceil := (h 0 ⌈q⌉₊ (by decide) hunit).2
  rw [pow_zero, mul_one, mul_one] at hfloor hceil
  exact ⟨hfloor (Nat.floor_le hpos), hceil (Nat.le_ceil q)⟩

end Stencil
