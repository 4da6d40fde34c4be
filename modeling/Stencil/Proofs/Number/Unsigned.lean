import Stencil.Proofs.Number.Integer
import Stencil.Proofs.Number.Positional

/-! # Numerals without a sign

A numeral without a sign is never read as a negative number, and not as a negative zero either. So
its text as a key and its text in output are the same, unless the latter has an exponent or is
missing. -/

namespace Stencil

open Float.Model (UnpackedFloat Format)
open Float.Model.UnpackedFloat (Sign unpackSign packComponents roundWithAccuracy)

instance decidableEqSign : DecidableEq Sign
  | .positive, .positive => .isTrue rfl
  | .negative, .negative => .isTrue rfl
  | .positive, .negative => .isFalse fun h => by cases h
  | .negative, .positive => .isFalse fun h => by cases h

def IsUnsigned : UnpackedFloat → Prop
  | .notANumber => True
  | .infinity s => s = .positive
  | .zero s => s = .positive
  | .finite s _ _ _ => s = .positive

instance : DecidablePred IsUnsigned
  | .notANumber => .isTrue trivial
  | .infinity s => inferInstanceAs (Decidable (s = .positive))
  | .zero s => inferInstanceAs (Decidable (s = .positive))
  | .finite s _ _ _ => inferInstanceAs (Decidable (s = .positive))

theorem isUnsigned_unpack {b : BitVec 64}
    (h : Sign.ofBitVec (@unpackSign Format.binary64 b) = .positive) :
    IsUnsigned (.unpack Format.binary64 b) := by
  unfold UnpackedFloat.unpack
  dsimp only
  split
  · split
    · exact h
    · trivial
  · split
    · split <;> exact h
    · exact h

theorem IsUnsigned.pack {u : UnpackedFloat} (h : IsUnsigned u) :
    IsUnsigned (Float.Model.pack u).unpack := by
  change IsUnsigned (.unpack Format.binary64 (UnpackedFloat.pack Format.binary64 u))
  apply isUnsigned_unpack
  cases u with
  | notANumber => exact unpackSign_packComponents ..
  | infinity s => exact (unpackSign_packComponents ..).trans h
  | zero s => exact (unpackSign_packComponents ..).trans h
  | finite s m e hm =>
    unfold UnpackedFloat.pack
    dsimp only
    split
    · exact (unpackSign_packComponents ..).trans h
    · split
      · exact (unpackSign_packComponents ..).trans h
      · exact (unpackSign_packComponents ..).trans h

theorem isUnsigned_round (m : Nat) (e : Int) (a : UnpackedFloat.Accuracy) :
    IsUnsigned (roundWithAccuracy Format.binary64 .positive m e a) := by
  unfold roundWithAccuracy
  dsimp only
  split <;> rfl

theorem IsUnsigned.product {f : UnpackedFloat → UnpackedFloat → UnpackedFloat}
    (hf : f = UnpackedFloat.mul Format.binary64 ∨ f = UnpackedFloat.div Format.binary64)
    {u v : UnpackedFloat} (hu : IsUnsigned u) (hv : IsUnsigned v) : IsUnsigned (f u v) := by
  rcases hf with rfl | rfl
  all_goals
    cases u <;> cases v <;> cases hu <;> cases hv
    all_goals
      first
        | trivial
        | rfl
        | exact isUnsigned_round ..

theorem isUnsigned_ofNat (n : Nat) : IsUnsigned (UnpackedFloat.ofNat Format.binary64 n) := by
  unfold UnpackedFloat.ofNat UnpackedFloat.ofInt UnpackedFloat.normalize
  split
  · next h =>
    rw [Int.compare_eq_lt] at h
    omega
  · rfl
  · exact isUnsigned_round ..

theorem isUnsigned_ofScientific (m : Nat) (e : Int) :
    IsUnsigned (UnpackedFloat.ofScientific Format.binary64 m e) := by
  unfold UnpackedFloat.ofScientific
  split
  · rfl
  · split
    · rfl
    · split
      · rfl
      · split
        · exact isUnsigned_round ..
        · exact isUnsigned_round ..

theorem isUnsigned_float (m : Nat) (down : Bool) (e : Nat) :
    IsUnsigned (Float.ofScientific m down e).toModel.unpack := by
  have htable : ∀ p ∈ Float.exactlyRepresentablePowersOfTen, IsUnsigned p.toModel.unpack := by
    decide
  unfold Float.ofScientific
  split
  · next h =>
    have hfactor : IsUnsigned m.toUInt64.toFloat.toModel.unpack := (isUnsigned_ofNat _).pack
    have hpower := htable _ (Array.getElem_mem (i := e) (by change e < 23; omega))
    dsimp only
    split
    · exact (hfactor.product (.inr rfl) hpower).pack
    · exact (hfactor.product (.inl rfl) hpower).pack
  · exact (isUnsigned_ofScientific ..).pack

theorem isUnsigned_nearestFloat (m : Nat) (e : Int) :
    IsUnsigned (nearestFloat m e).toModel.unpack := by
  unfold nearestFloat
  dsimp only
  split
  · rfl
  · split
    · rfl
    · split
      · rfl
      · split <;> exact isUnsigned_float ..

/-! ## Computed numbers as texts -/

theorem Binary.IsDouble.eq_shifted {b : Binary} (hb : b.IsDouble) (hwhole : b.isIntegral = true)
    (hsafe : b.floor < 2 ^ 53) : b.floor ≠ 0 ∧
      b = ⟨b.neg, b.floor * 2 ^ (52 - b.floor.log2), -(52 - b.floor.log2 : Nat)⟩ := by
  obtain ⟨neg, m, e⟩ := b
  have hdvd : (Binary.mk neg m e).floor * (Binary.mk neg m e).ratio.2 =
      (Binary.mk neg m e).ratio.1 := by
    rw [isIntegral, beq_iff_eq] at hwhole
    exact Nat.div_mul_cancel (Nat.dvd_of_mod_eq_zero hwhole)
  generalize (Binary.mk neg m e).floor = n at hdvd hsafe ⊢
  have hpos : 0 < m := hb.mant_pos
  have hlt : m < 2 ^ 53 := hb.mant_lt
  have hfull : 2 ^ 52 ≤ m ∨ e = -1074 := hb.full
  by_cases he : 0 < e
  · -- too large to be safe
    obtain ⟨k, hk⟩ := Int.eq_ofNat_of_zero_le (a := e - 1) (by omega)
    obtain rfl : e = ((k + 1 : Nat) : Int) := by omega
    have hratio : (Binary.mk neg m ((k + 1 : Nat) : Int)).ratio = (m * 2 ^ (k + 1), 1) := by
      simp [ratio]
      omega
    rw [hratio, Nat.mul_one] at hdvd
    dsimp only at hdvd
    have : 2 * m ≤ m * 2 ^ (k + 1) := by
      rw [Nat.pow_succ, ← Nat.mul_assoc, Nat.mul_comm _ 2]
      exact Nat.mul_le_mul_left 2 (Nat.le_mul_of_pos_right m (Nat.two_pow_pos k))
    omega
  · obtain ⟨k, hk⟩ := Int.eq_ofNat_of_zero_le (a := -e) (by omega)
    obtain rfl : e = -(k : Int) := by omega
    rw [ratio_neg] at hdvd
    dsimp only at hdvd
    have hn : n ≠ 0 := by
      rintro rfl
      omega
    have hk : k < 53 := by
      by_contra hlarge
      have := Nat.mul_le_mul (Nat.pos_of_ne_zero hn) (Nat.pow_le_pow_right (n := 2) (by decide)
        (Nat.not_lt.1 hlarge))
      omega
    have hlog : n.log2 + k = 52 := by
      have hlo := Nat.mul_le_mul_right (2 ^ k) (Nat.log2_self_le hn)
      have hhi := Nat.mul_lt_mul_of_pos_right (@Nat.lt_log2_self n) (Nat.two_pow_pos k)
      rw [hdvd, ← Nat.pow_add] at hlo hhi
      have hle := (Nat.pow_lt_pow_iff_right (by decide)).1 (hlo.trans_lt hlt)
      have hge := (Nat.pow_lt_pow_iff_right (by decide)).1
        ((show 2 ^ 52 ≤ m by omega).trans_lt hhi)
      omega
    refine ⟨hn, ?_⟩
    have hshift : 52 - n.log2 = k := by omega
    rw [hshift, hdvd]

theorem display_ofFloat {x : Float} {b : Binary} (h : decode x = .finite b) :
    (Value.ofFloat x).display = scriptText x := by
  unfold Value.ofFloat
  rw [h]
  dsimp only
  split
  · next hsafe =>
    rw [Value.display, Num.text_eq, Num.toFloat]
    rw [Bool.and_eq_true, decide_eq_true_eq] at hsafe
    obtain ⟨hwhole, hsafe⟩ := hsafe
    have hsafe : b.floor < 2 ^ 53 := hsafe
    by_cases h0 : b.mant = 0
    · obtain ⟨neg, m, e⟩ := b
      obtain rfl : m = 0 := h0
      have htrunc : (Binary.mk neg 0 e).trunc = 0 := by
        simp [Binary.trunc, Binary.floor_zero]
      have hzero : scriptText x = "0" := by
        unfold scriptText
        rw [h]
        rfl
      rw [htrunc, isZero_ofInt.scriptText, hzero]
    · obtain ⟨hn, hb⟩ := (isDouble_of_decode h h0).eq_shifted hwhole hsafe
      have habs : b.trunc.natAbs = b.floor := by
        unfold Binary.trunc
        split <;> simp
      have hneg : decide (b.trunc < 0) = b.neg := by
        unfold Binary.trunc
        cases b.neg with
        | true => simp; omega
        | false => simp
      have hint : decode (Float.ofInt b.trunc) = decode x := by
        rw [decode_ofInt (by omega) (by omega), habs, hneg, h, ← hb]
      have hnumber : decode (Float.ofInt b.trunc) ≠ .nan := by
        rw [hint, h]
        intro hnan
        cases hnan
      rw [eq_of_decode hint hnumber]
  · rfl

/-- No number, and an infinite one, has no text in output, but one as a key. -/
theorem display_ne_plainText {x : Float} (h : ∀ b, decode x ≠ .finite b) :
    (Value.ofFloat x).display ≠ plainText x := by
  unfold Value.ofFloat plainText
  cases hd : decode x with
  | nan =>
    dsimp only
    decide
  | infinite neg =>
    dsimp only
    cases neg <;> decide
  | finite b => exact absurd hd (h b)

/-- **Where the text of a number in output is its text as a key.** A number without a sign has one
text if it is zero, or at least `1e-6` and less than `1e21`; else the two differ. -/
theorem display_eq_plainText_iff {x : Float} (hx : IsUnsigned x.toModel.unpack) :
    (Value.ofFloat x).display = plainText x ↔ (x == 0.0) = true ∨ 1e-6 ≤ x ∧ x < 1e21 := by
  cases hd : decode x with
  | nan =>
    have hu := decode_eq_nan.1 hd
    refine iff_of_false (display_ne_plainText fun b hb => by cases hd.symm.trans hb) ?_
    rw [float_beq_iff, float_lt_iff, hu]
    rintro (h | ⟨-, h⟩) <;> cases h
  | infinite neg =>
    have hu : x.toModel.unpack = .infinity .positive := by
      rw [decode_eq] at hd
      cases hu : x.toModel.unpack with
      | infinity s =>
        rw [hu] at hx
        exact congrArg _ hx
      | _ =>
        rw [hu] at hd
        cases hd
    refine iff_of_false (display_ne_plainText fun b hb => by cases hd.symm.trans hb) ?_
    rw [float_beq_iff, float_lt_iff, hu]
    rintro (h | ⟨-, h⟩) <;> cases h
  | finite b =>
    rw [display_ofFloat hd]
    have hparts := hd
    rw [decode_eq] at hparts
    cases hu : x.toModel.unpack with
    | notANumber => rw [hu] at hparts; cases hparts
    | infinity s => rw [hu] at hparts; cases hparts
    | zero s =>
      rw [hu] at hparts hx
      obtain rfl : s = .positive := hx
      obtain rfl := Double.finite.inj hparts
      have hzero : scriptText x = plainText x := by
        unfold scriptText plainText
        rw [hd]
        rfl
      refine iff_of_true hzero (.inl ?_)
      rw [float_beq_iff, hu]
      rfl
    | finite s m e hm =>
      rw [hu] at hparts hx
      obtain rfl : s = .positive := hx
      obtain rfl := Double.finite.inj hparts
      have hne : ¬ (x == 0.0) = true := by
        rw [float_beq_iff, hu]
        nofun
      rw [eq_comm, plainText_eq_scriptText_iff hd ⟨rfl, hm⟩]
      exact (or_iff_right hne).symm

end Stencil
