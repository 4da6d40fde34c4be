import Stencil.Expr.Method
import Stencil.Proofs.Number.Sum

/-! # The bounds of slices

Scripts cut the number of an argument to an integer before they count from the end. A bound that
does so here adds the length first, so the two agree on integers and on what does not count from the
end; a negative fraction gives one of the integers next to the position it stands for, which for a
short fraction is the lower one. -/

namespace Stencil

open Float.Model (UnpackedFloat)

def towardZero (q : ℚ) : Int :=
  if q < 0 then ⌈q⌉ else ⌊q⌋

def positionAt (len : Nat) (k : Int) : Nat :=
  if k < 0 then (len + k).toNat else min k.toNat len

def scriptBound (len default : Nat) (v : Value) : Nat :=
  if v.isNull then default
  else match decode v.toNumber with
    | .nan => 0
    | .infinite neg => if neg then 0 else len
    | .finite b => positionAt len (towardZero b.value)

def Value.CountsBack (v : Value) (q : ℚ) : Prop :=
  v.isNull = false ∧ q < 0 ∧ ∃ b, decode v.toNumber = .finite b ∧ b.value = q

variable {len default : Nat} {v : Value} {x : Float} {b : Binary} {q : ℚ}

/-! ## Reading a double -/

theorem Binary.magnitude_nonneg (b : Binary) : 0 ≤ b.magnitude :=
  mul_nonneg (Nat.cast_nonneg _) (two_zpow_pos _).le

theorem Binary.value_neg_iff : b.value < 0 ↔ b.neg = true ∧ 0 < b.mant := by
  have hpos : 0 < b.magnitude ↔ 0 < b.mant := by
    rw [magnitude, mul_pos_iff_of_pos_right (two_zpow_pos _), Nat.cast_pos]
  have hnonneg := b.magnitude_nonneg
  unfold value
  cases b.neg with
  | true => simp [hpos]
  | false => simpa using hnonneg

theorem Binary.floor_eq (b : Binary) : b.floor = ⌊b.magnitude⌋₊ := by
  rw [← b.quotient_ratio, quotient, Nat.floor_div_eq_div]
  rfl

theorem eq_nan_iff (x : Float) : x = Float.nan ↔ decode x = .nan := by
  rw [decode_eq_nan, ← decide_eq_true_iff (p := x = Float.nan), ← Float.isNaN_eq_decide_eq_nan]
  change x.toModel.unpack.isNaN = true ↔ _
  cases x.toModel.unpack <;> simp [UnpackedFloat.isNaN]

theorem lt_zero_iff (x : Float) :
    x < 0.0 ↔ decode x = .infinite true ∨ ∃ b, decode x = .finite b ∧ b.value < 0 := by
  have hzero : (0.0 : Float).toModel.unpack = .zero .positive := rfl
  rw [float_lt_iff, hzero, decode_eq]
  cases x.toModel.unpack with
  | notANumber => simp [UnpackedFloat.compare, Double.ofUnpacked]
  | infinity s => cases s <;> simp [UnpackedFloat.compare, Double.ofUnpacked]
  | zero s =>
    simp [UnpackedFloat.compare, Double.ofUnpacked, Binary.value_neg_iff]
  | finite s m e hm =>
    cases s <;> simp [UnpackedFloat.compare, Double.ofUnpacked, Binary.value_neg_iff, hm]

theorem clampToNat_notPositive (h : (decode x).NotPositive) : clampToNat x = 0 := by
  unfold clampToNat
  cases hx : decode x with
  | nan => rfl
  | infinite neg =>
    rw [hx] at h
    simp [show neg = true from h]
  | finite b =>
    rw [hx] at h
    rcases h with hneg | hzero
    · simp [hneg]
    · obtain ⟨neg, m, e⟩ := b
      obtain rfl : m = 0 := hzero
      simp [Binary.floor_zero]

theorem clampToNat_finite (h : decode x = .finite b) (hneg : b.neg = false) :
    clampToNat x = min ⌊b.magnitude⌋₊ (2 ^ 64 - 1) := by
  unfold clampToNat
  rw [h]
  simp [hneg, Binary.floor_eq]

theorem notPositive_add_infinite (y : Float) (h : decode x = .infinite true) :
    (decode (y + x)).NotPositive := by
  have hx : x.toModel.unpack = .infinity .negative := by
    rw [decode_eq] at h
    cases hu : x.toModel.unpack with
    | infinity s =>
      rw [hu] at h
      cases s with
      | negative => rfl
      | positive => cases h
    | _ => rw [hu] at h; cases h
  have hinfinite : (decode (.ofModel (.pack (.infinity .negative)))).NotPositive := rfl
  have hnan : (decode (.ofModel (.pack .notANumber))).NotPositive := trivial
  change (decode
    (.ofModel (.pack (UnpackedFloat.add _ y.toModel.unpack x.toModel.unpack)))).NotPositive
  rw [hx]
  cases y.toModel.unpack with
  | notANumber => exact hnan
  | infinity s =>
    cases s with
    | negative => exact hinfinite
    | positive => exact hnan
  | zero s => exact hinfinite
  | finite s m e hm => exact hinfinite

/-! ## A bound that does not count from the end -/

theorem sliceBound_null (h : v.isNull = true) : sliceBound len default v = default := by
  rw [sliceBound, if_pos h]

theorem sliceBound_nan (h : v.isNull = false) (hx : decode v.toNumber = .nan) :
    sliceBound len default v = 0 := by
  simp [sliceBound, h, eq_nan_iff, hx]

theorem sliceBound_infinite (h : v.isNull = false) {neg : Bool}
    (hx : decode v.toNumber = .infinite neg) (hlen : len < 2 ^ 64) :
    sliceBound len default v = if neg then 0 else len := by
  unfold sliceBound
  cases neg with
  | true =>
    simp [h, eq_nan_iff, hx, lt_zero_iff,
      clampToNat_notPositive (notPositive_add_infinite _ hx)]
  | false =>
    have hclamp : clampToNat v.toNumber = 2 ^ 64 - 1 := by
      rw [clampToNat, hx]
      rfl
    simp [h, eq_nan_iff, hx, lt_zero_iff, hclamp]
    omega

theorem sliceBound_finite (h : v.isNull = false) (hx : decode v.toNumber = .finite b) :
    sliceBound len default v =
      if b.value < 0 then clampToNat (Float.ofNat len + v.toNumber)
      else min (clampToNat v.toNumber) len := by
  simp [sliceBound, h, eq_nan_iff, hx, lt_zero_iff]

theorem min_clampToNat (hx : decode x = .finite b) (hb : ¬ b.value < 0) (hlen : len < 2 ^ 64) :
    min (clampToNat x) len = positionAt len (towardZero b.value) := by
  have hclamp : min (clampToNat x) len = min ⌊b.value⌋₊ len := by
    rw [Binary.value_neg_iff] at hb
    cases hneg : b.neg with
    | false =>
      rw [clampToNat_finite hx hneg, Binary.value, hneg, if_neg Bool.false_ne_true]
      omega
    | true =>
      have hzero : b.mant = 0 := by simpa [hneg] using hb
      have hvalue : b.value = 0 := by simp [Binary.value, Binary.magnitude, hzero]
      have hnot : (decode x).NotPositive := by rw [hx]; exact .inl hneg
      rw [clampToNat_notPositive hnot, hvalue, Nat.floor_zero]
  have hfloor : ¬ ⌊b.value⌋ < 0 := not_lt.2 (Int.floor_nonneg.2 (not_lt.1 hb))
  unfold towardZero positionAt
  rw [hclamp, if_neg hb, if_neg hfloor, Int.floor_toNat]

theorem sliceBound_forward (hlen : len < 2 ^ 64) (h : ∀ q, ¬ v.CountsBack q) :
    sliceBound len default v = scriptBound len default v := by
  unfold scriptBound
  cases hnull : v.isNull with
  | true => exact sliceBound_null hnull
  | false =>
    rw [if_neg Bool.false_ne_true]
    cases hx : decode v.toNumber with
    | nan => exact sliceBound_nan hnull hx
    | infinite neg => exact sliceBound_infinite hnull hx hlen
    | finite b =>
      have hvalue : ¬ b.value < 0 := fun hlt => h b.value ⟨hnull, hlt, b, hx, rfl⟩
      rw [sliceBound_finite hnull hx, if_neg hvalue]
      exact min_clampToNat hx hvalue hlen

/-! ## A bound that counts from the end -/

theorem decode_ofNat (h0 : len ≠ 0) (h : len < 2 ^ 53) :
    ∃ b : Binary, decode (Float.ofNat len) = .finite b ∧ 0 < b.mant ∧ b.value = len := by
  refine ⟨⟨false, len * 2 ^ (52 - len.log2), -(52 - len.log2 : Nat)⟩, ?_, ?_, ?_⟩
  · rw [decode_eq, unpack_ofNat h0 h]
    rfl
  · exact Nat.mul_pos (Nat.pos_of_ne_zero h0) (Nat.two_pow_pos _)
  · rw [Binary.value, if_neg Bool.false_ne_true, Binary.magnitude, Nat.cast_mul, Nat.cast_pow,
      Nat.cast_ofNat, zpow_neg, zpow_natCast, mul_assoc, mul_inv_cancel₀ (by positivity), mul_one]

theorem sliceBound_before (hlen : len < 2 ^ 53) (h : v.CountsBack q) (hq : len + q ≤ 0) :
    sliceBound len default v = 0 := by
  obtain ⟨hnull, hneg, b, hx, rfl⟩ := h
  have hb := Binary.value_neg_iff.1 hneg
  rw [sliceBound_finite hnull hx, if_pos hneg]
  apply clampToNat_notPositive
  by_cases h0 : len = 0
  · subst h0
    obtain ⟨s, hs, hux⟩ := unpack_of_finite hx hb.2
    have hnegative : s = .negative := by
      cases s with
      | negative => rfl
      | positive => simp [hb.1] at hs
    have hsum : Float.ofNat 0 + v.toNumber =
        .ofModel (.pack (.finite .negative b.mant b.exp hb.2)) := by
      change Float.ofModel
        (.pack (UnpackedFloat.add _ (.zero .positive) v.toNumber.toModel.unpack)) = _
      rw [hux, hnegative]
      rfl
    rw [hsum]
    exact notPositive_negative ..
  · obtain ⟨a, ha, hpos, hvalue⟩ := decode_ofNat h0 hlen
    exact notPositive_add ha hpos hx hb.2 (by rwa [hvalue])

theorem sliceBound_within (hlen : len < 2 ^ 53) (h : v.CountsBack q) (hq : 0 < len + q) :
    ∃ r : ℚ, Rounded (len + q) r ∧ sliceBound len default v = ⌊r⌋₊ := by
  obtain ⟨hnull, hneg, b, hx, rfl⟩ := h
  have hb := Binary.value_neg_iff.1 hneg
  have hsafe : (len : ℚ) < 2 ^ 53 := by exact_mod_cast hlen
  have h0 : len ≠ 0 := by
    rintro rfl
    rw [Nat.cast_zero, zero_add] at hq
    exact absurd hneg hq.not_gt
  have hlt : len + b.value < 2 ^ 53 := by linarith
  obtain ⟨a, ha, hpos, hvalue⟩ := decode_ofNat h0 hlen
  obtain ⟨d, hd, hdneg, hround⟩ := decode_add ha hpos hx hb.2 (by rwa [hvalue]) (by rwa [hvalue])
  rw [hvalue] at hround
  have hsmall : ⌊d.magnitude⌋₊ ≤ 2 ^ 53 := by
    apply Nat.floor_le_of_le
    refine (hround.between hlt hq.le).2.trans ?_
    exact_mod_cast Nat.ceil_le.2 (by exact_mod_cast hlt.le)
  refine ⟨d.magnitude, hround, ?_⟩
  rw [sliceBound_finite hnull hx, if_pos hneg, clampToNat_finite hd hdneg]
  omega

/-- A bound that counts from the end is one of the positions next to the one it stands for. -/
theorem sliceBound_next (hlen : len < 2 ^ 53) (h : v.CountsBack q) :
    ⌊len + q⌋₊ ≤ sliceBound len default v ∧ sliceBound len default v ≤ ⌈len + q⌉₊ := by
  rcases le_or_gt ((len : ℚ) + q) 0 with hq | hq
  · rw [sliceBound_before hlen h hq, Nat.floor_of_nonpos hq]
    exact ⟨le_rfl, Nat.zero_le _⟩
  · obtain ⟨r, hround, heq⟩ : ∃ r : ℚ, Rounded (len + q) r ∧ sliceBound len default v = ⌊r⌋₊ :=
      sliceBound_within hlen h hq
    have hsafe : (len : ℚ) < 2 ^ 53 := by exact_mod_cast hlen
    obtain ⟨hlo, hhi⟩ := hround.between (by linarith [h.2.1]) hq.le
    rw [heq]
    exact ⟨Nat.le_floor hlo, Nat.floor_le_of_le hhi⟩

/-- With few enough digits behind the point, the position is cut toward the beginning. -/
theorem sliceBound_short (hlen : len < 2 ^ 53) (h : v.CountsBack q) {j : Nat} {k : Int}
    (hj : len * 2 ^ j ≤ 2 ^ 53) (hk : q * 2 ^ j = k) :
    sliceBound len default v = ⌊len + q⌋₊ := by
  rcases le_or_gt ((len : ℚ) + q) 0 with hq | hq
  · rw [sliceBound_before hlen h hq, Nat.floor_of_nonpos hq]
  · obtain ⟨r, hround, heq⟩ : ∃ r : ℚ, Rounded (len + q) r ∧ sliceBound len default v = ⌊r⌋₊ :=
      sliceBound_within hlen h hq
    have hsum : ((len : ℚ) + q) * 2 ^ j = (len * 2 ^ j + k : Int) := by
      rw [add_mul, hk]
      push_cast
      rfl
    have htwo : (0 : ℚ) < 2 ^ j := by positivity
    have hlen0 : 0 < len := by
      apply Nat.pos_of_ne_zero
      rintro rfl
      linarith [h.2.1, (Nat.cast_zero : ((0 : Nat) : ℚ) = 0)]
    have hj53 : j ≤ 53 :=
      (Nat.pow_le_pow_iff_right (by decide)).1 ((Nat.le_mul_of_pos_left _ hlen0).trans hj)
    have hsmall : (len : ℚ) + q < 2 ^ (53 - j : Int) := by
      have hcast : (len : ℚ) * 2 ^ j ≤ 2 ^ 53 := by exact_mod_cast hj
      rw [zpow_sub₀ (by norm_num), zpow_natCast, lt_div_iff₀ htwo]
      exact (mul_lt_mul_of_pos_right (by linarith [h.2.1]) htwo).trans_le hcast
    obtain ⟨n, hn⟩ := Int.eq_ofNat_of_zero_le (a := len * 2 ^ j + k)
      (by exact_mod_cast hsum ▸ (mul_pos hq htwo).le)
    rw [hn, Int.cast_natCast] at hsum
    rw [heq, hround.eq (by omega) hsmall hsum]

/-- In scripts the position is cut toward the end, but less than one from the end is the
beginning. -/
theorem scriptBound_countsBack (h : v.CountsBack q) :
    scriptBound len default v = if q ≤ -1 then ⌈len + q⌉₊ else 0 := by
  obtain ⟨hnull, hneg, b, hx, rfl⟩ := h
  have hceil : ⌈b.value⌉ ≤ 0 := Int.ceil_le.2 (by simpa using hneg.le)
  have hiff : ⌈b.value⌉ < 0 ↔ b.value ≤ -1 := by
    rw [← Int.le_sub_one_iff, Int.ceil_le]
    norm_num
  unfold scriptBound
  rw [hnull, if_neg Bool.false_ne_true, hx]
  simp only [towardZero, if_pos hneg, positionAt, hiff]
  split
  · rw [← Int.ceil_toNat, Int.ceil_natCast_add]
  · omega

/-- The argument is not negative, or it is a negative integer and the length is not too large to be
counted in. -/
def Value.CountsWhole (len : Nat) (v : Value) : Prop :=
  ∀ q, v.CountsBack q → len < 2 ^ 53 ∧ ∃ k : Int, q = k

theorem sliceBound_whole (hlen : len < 2 ^ 64) (h : v.CountsWhole len) :
    sliceBound len default v = scriptBound len default v := by
  by_cases hback : ∃ q, v.CountsBack q
  · obtain ⟨q, hq⟩ := hback
    obtain ⟨hsafe, k, rfl⟩ := h q hq
    have hneg : k ≤ -1 := by
      have : k < 0 := by exact_mod_cast hq.2.1
      omega
    have hsum : (len : ℚ) + k = (len + k : Int) := by push_cast; rfl
    rw [sliceBound_short hsafe hq (j := 0) (k := k) (by omega) (by simp), scriptBound_countsBack hq,
      if_pos (by exact_mod_cast hneg), hsum, ← Int.floor_toNat, ← Int.ceil_toNat, Int.floor_intCast,
      Int.ceil_intCast]
  · exact sliceBound_forward hlen fun q hq => hback ⟨q, hq⟩

theorem scriptBound_le (h : default ≤ len) : scriptBound len default v ≤ len := by
  unfold scriptBound
  split
  · exact h
  · split
    · exact Nat.zero_le _
    · split <;> omega
    · next b _ =>
      unfold positionAt
      split <;> omega

theorem sliceBound_le (hlen : len < 2 ^ 64) (hdefault : default ≤ len)
    (h : ∀ q, v.CountsBack q → len < 2 ^ 53) : sliceBound len default v ≤ len := by
  by_cases hback : ∃ q, v.CountsBack q
  · obtain ⟨q, hq⟩ := hback
    refine (sliceBound_next (h q hq) hq).2.trans (Nat.ceil_le.2 ?_)
    linarith [hq.2.1]
  · rw [sliceBound_forward hlen fun q hq => hback ⟨q, hq⟩]
    exact scriptBound_le hdefault

/-! ## Slices -/

/-- **The bounds of a slice** are in order, and inside unless a length of more than 53 digits is
counted in. They are those of scripts, except that a negative fraction gives a position next to the
one it stands for: for a short fraction the lower one, where scripts take the upper one, or the
beginning if the fraction is less than one. -/
theorem sliceBounds_script (hlen : len < 2 ^ 64) (start stop : Value) :
    (sliceBounds len start stop).1 ≤ (sliceBounds len start stop).2 ∧
    ((∀ q, start.CountsBack q ∨ stop.CountsBack q → len < 2 ^ 53) →
      (sliceBounds len start stop).2 ≤ len) ∧
    (start.CountsWhole len → (sliceBounds len start stop).1 = scriptBound len 0 start) ∧
    (stop.CountsWhole len → (sliceBounds len start stop).2 =
      max (scriptBound len len stop) (sliceBounds len start stop).1) ∧
    ∀ (default : Nat) (v : Value) (q : ℚ), len < 2 ^ 53 → v.CountsBack q →
      (⌊len + q⌋₊ ≤ sliceBound len default v ∧ sliceBound len default v ≤ ⌈len + q⌉₊) ∧
      (∀ (j : Nat) (k : Int), len * 2 ^ j ≤ 2 ^ 53 → q * 2 ^ j = k →
        sliceBound len default v = ⌊len + q⌋₊) ∧
      scriptBound len default v = if q ≤ -1 then ⌈len + q⌉₊ else 0 := by
  refine ⟨le_max_right _ _, fun h => ?_, fun h => ?_, fun h => ?_, fun default v q hsafe hq => ?_⟩
  · exact max_le (sliceBound_le hlen le_rfl fun q hq => h q (.inr hq))
      (sliceBound_le hlen (Nat.zero_le _) fun q hq => h q (.inl hq))
  · exact sliceBound_whole hlen h
  · exact congrArg (max · _) (sliceBound_whole hlen h)
  · exact ⟨sliceBound_next hsafe hq, fun j k hj hk => sliceBound_short hsafe hq hj hk,
      scriptBound_countsBack hq⟩

theorem countsBack_half : (Value.num (.float (-1.5))).CountsBack (-3 / 2) := by
  have hx : decode (Value.num (.float (-1.5))).toNumber = .finite ⟨true, 3 * 2 ^ 51, -52⟩ := rfl
  refine ⟨rfl, by norm_num, _, hx, ?_⟩
  norm_num [Binary.value, Binary.magnitude]

theorem sliceBounds_script_half :
    (sliceBounds 3 (.num (.float (-1.5))) .null).2 ≤ 3 ∧
    (sliceBounds 3 (.num (.float (-1.5))) .null).2 =
      max (scriptBound 3 3 .null) (sliceBounds 3 (.num (.float (-1.5))) .null).1 ∧
    sliceBound 3 0 (.num (.float (-1.5))) = ⌊(3 : Nat) + (-3 / 2 : ℚ)⌋₊ := by
  obtain ⟨-, hinside, -, hstop, hback⟩ :=
    sliceBounds_script (by decide : 3 < 2 ^ 64) (.num (.float (-1.5))) .null
  have hnull : ∀ q, ¬ Value.null.CountsBack q := fun q hq => Bool.noConfusion hq.1
  exact ⟨hinside fun _ _ => by decide, hstop fun q hq => absurd hq (hnull q),
    (hback 0 _ _ (by decide) countsBack_half).2.1 1 (-3) (by decide) (by norm_num)⟩

/-- One and a half from the end of three items is two in scripts; and in a length of more than 53
digits a bound may be past the end. -/
theorem sliceBounds_apart :
    sliceBounds 3 (.num (.float (-1.5))) .null = (1, 3) ∧
    scriptBound 3 0 (.num (.float (-1.5))) = 2 ∧
    sliceBounds (2 ^ 53 + 3) .null (.num (.float (-0.5))) = (0, 2 ^ 53 + 4) := by
  refine ⟨by decide +kernel, ?_, by decide +kernel⟩
  rw [scriptBound_countsBack countsBack_half, if_pos (by norm_num)]
  norm_num

end Stencil
