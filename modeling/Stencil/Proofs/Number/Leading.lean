import Mathlib
import Stencil.Proofs.Number.Whole

/-! # The leading digit of shortest decimals

A double is taken as the rational number it is, and so is the interval of reals that round to it.
Two neighbouring decimals of seventeen digits are closer than such an interval is wide, so the
search for the shortest decimal always ends; and what it finds is of the order of the double, or the
next power of ten. -/

namespace Stencil

/-! ## Scales -/

def quotient (p : Nat × Nat) : ℚ :=
  p.1 / p.2

theorem scaleTen_pos (e : Int) : 0 < (scaleTen e).1 ∧ 0 < (scaleTen e).2 := by
  unfold scaleTen
  split
  · exact ⟨Nat.pow_pos (by decide), Nat.one_pos⟩
  · exact ⟨Nat.one_pos, Nat.pow_pos (by decide)⟩

theorem quotient_scaleTen (e : Int) : quotient (scaleTen e) = (10 : ℚ) ^ e := by
  unfold quotient scaleTen
  split
  · next h =>
    obtain ⟨n, rfl⟩ := Int.eq_ofNat_of_zero_le h
    simp
  · next h =>
    obtain ⟨n, hn⟩ := Int.eq_ofNat_of_zero_le (a := -e) (by omega)
    obtain rfl : e = -n := by omega
    simp

def Binary.magnitude (b : Binary) : ℚ :=
  b.mant * 2 ^ b.exp

theorem Binary.ratio_pos (b : Binary) : 0 < b.ratio.2 := by
  unfold ratio
  split
  · exact Nat.one_pos
  · exact Nat.pow_pos (by decide)

theorem Binary.quotient_ratio (b : Binary) : quotient b.ratio = b.magnitude := by
  unfold quotient ratio magnitude
  split
  · next h =>
    obtain ⟨n, hn⟩ := Int.eq_ofNat_of_zero_le h
    simp [hn]
  · next h =>
    obtain ⟨n, hn⟩ := Int.eq_ofNat_of_zero_le (a := -b.exp) (by omega)
    obtain hexp : b.exp = -n := by omega
    simp [hexp, div_eq_mul_inv]

/-! ## Decimal digits -/

theorem pow_length_decimalDigits {n : Nat} (h : 0 < n) :
    (10 : ℚ) ^ (((decimalDigits n).length : Int) - 1) ≤ n ∧
      (n : ℚ) < 10 ^ ((decimalDigits n).length : Int) := by
  obtain ⟨k, hk⟩ : ∃ k, (decimalDigits n).length = k + 1 :=
    Nat.exists_eq_succ_of_ne_zero (Nat.ne_of_gt Nat.length_toDigits_pos)
  have hhi : n < 10 ^ (k + 1) :=
    (Nat.length_toDigits_le_iff (by decide) (by omega)).1 (Nat.le_of_eq hk)
  have hlo : 10 ^ k ≤ n := by
    by_contra hlt
    cases k with
    | zero => omega
    | succ k =>
      have := (Nat.length_toDigits_le_iff (b := 10) (k := k + 1) (by decide) (by omega)).2
        (Nat.not_le.1 hlt)
      unfold decimalDigits at hk
      omega
  rw [hk]
  constructor
  · rw [show ((k + 1 : Nat) : Int) - 1 = (k : Int) by omega, zpow_natCast]
    exact_mod_cast hlo
  · rw [zpow_natCast]
    exact_mod_cast hhi

theorem zpow_ten_le {a b : Int} : (10 : ℚ) ^ a ≤ 10 ^ b ↔ a ≤ b :=
  zpow_le_zpow_iff_right₀ (by norm_num)

theorem zpow_ten_lt {a b : Int} : (10 : ℚ) ^ a < 10 ^ b ↔ a < b :=
  zpow_lt_zpow_iff_right₀ (by norm_num)

theorem leadingExp_spec {num den : Nat} (hnum : 0 < num) (hden : 0 < den) :
    (10 : ℚ) ^ leadingExp num den ≤ num / den ∧
      (num : ℚ) / den < 10 ^ (leadingExp num den + 1) := by
  obtain ⟨hnlo, hnhi⟩ := pow_length_decimalDigits hnum
  obtain ⟨hdlo, hdhi⟩ := pow_length_decimalDigits hden
  have hd : (0 : ℚ) < den := by exact_mod_cast hden
  have hten : ∀ e : Int, (0 : ℚ) < 10 ^ e := fun e => zpow_pos (by norm_num) e
  generalize he : ((decimalDigits num).length : Int) - (decimalDigits den).length = e
  -- the quotient is less than ten times off the quotient of the powers
  have hlo : (10 : ℚ) ^ (e - 1) ≤ num / den := by
    rw [le_div_iff₀ hd]
    calc (10 : ℚ) ^ (e - 1) * den ≤ 10 ^ (e - 1) * 10 ^ ((decimalDigits den).length : Int) :=
          mul_le_mul_of_nonneg_left hdhi.le (hten _).le
      _ = 10 ^ (((decimalDigits num).length : Int) - 1) := by
          rw [← zpow_add₀ (by norm_num)]
          congr 1
          omega
      _ ≤ num := hnlo
  have hhi : (num : ℚ) / den < 10 ^ (e + 1) := by
    rw [div_lt_iff₀ hd]
    calc (num : ℚ) < 10 ^ ((decimalDigits num).length : Int) := hnhi
      _ = 10 ^ (e + 1) * 10 ^ (((decimalDigits den).length : Int) - 1) := by
          rw [← zpow_add₀ (by norm_num)]
          congr 1
          omega
      _ ≤ 10 ^ (e + 1) * den := mul_le_mul_of_nonneg_left hdlo (hten _).le
  have htest : den * (scaleTen e).1 ≤ num * (scaleTen e).2 ↔ (10 : ℚ) ^ e ≤ num / den := by
    have hdown : (0 : ℚ) < (scaleTen e).2 := by exact_mod_cast (scaleTen_pos e).2
    rw [← quotient_scaleTen, quotient, div_le_div_iff₀ hdown hd, ← Nat.cast_le (α := ℚ)]
    push_cast
    rw [mul_comm (den : ℚ)]
  unfold leadingExp
  simp only [he, htest]
  split
  · next h => exact ⟨h, hhi⟩
  · next h =>
    rw [Int.sub_add_cancel]
    exact ⟨hlo, not_le.1 h⟩

theorem Decimal.ofScaled_exp {n : Nat} (h : 0 < n) (e : Int) :
    (10 : ℚ) ^ (Decimal.ofScaled n e).exp ≤ n * 10 ^ e ∧
      (n : ℚ) * 10 ^ e < 10 ^ ((Decimal.ofScaled n e).exp + 1) := by
  obtain ⟨hlo, hhi⟩ := pow_length_decimalDigits h
  have hten : (0 : ℚ) < 10 ^ e := zpow_pos (by norm_num) e
  have hexp : (Decimal.ofScaled n e).exp = ((decimalDigits n).length : Int) - 1 + e := by
    rw [ofScaled]
    dsimp only
    omega
  rw [hexp]
  constructor
  · rw [zpow_add₀ (by norm_num)]
    exact mul_le_mul_of_nonneg_right hlo hten.le
  · rw [show ((decimalDigits n).length : Int) - 1 + e + 1 = (decimalDigits n).length + e by omega,
      zpow_add₀ (by norm_num)]
    exact mul_lt_mul_of_pos_right hhi hten

/-! ## The interval around a double -/

structure Rounding.Spans (r : Rounding) (low value high : ℚ) : Prop where
  den_pos : 0 < r.den
  low_eq : (r.low : ℚ) / r.den = low
  value_eq : (r.value : ℚ) / r.den = value
  high_eq : (r.high : ℚ) / r.den = high

/-- How far the interval reaches below its value, in units of the last binary place. -/
def Binary.lowerPart (b : Binary) : ℚ :=
  if b.mant == Nat.pow 2 52 && b.exp != -1074 then 1 / 4 else 1 / 2

theorem Binary.rounding_spans {b : Binary} (h : 0 < b.mant) :
    b.rounding.Spans (b.magnitude - b.lowerPart * 2 ^ b.exp) b.magnitude
      (b.magnitude + 1 / 2 * 2 ^ b.exp) := by
  have hden : (0 : ℚ) < b.ratio.2 := by exact_mod_cast b.ratio_pos
  have hsame : (Binary.mk false 1 b.exp).ratio.2 = b.ratio.2 := by
    unfold ratio
    split <;> rfl
  have hunit : ((Binary.mk false 1 b.exp).ratio.1 : ℚ) / b.ratio.2 = 2 ^ b.exp := by
    have := (Binary.mk false 1 b.exp).quotient_ratio
    rw [quotient, hsame, magnitude, Nat.cast_one, one_mul] at this
    exact this
  have hvalue : (b.ratio.1 : ℚ) / b.ratio.2 = b.magnitude := b.quotient_ratio
  have hle : (Binary.mk false 1 b.exp).ratio.1 ≤ b.ratio.1 := by
    unfold ratio
    split
    · exact Nat.mul_le_mul_right _ h
    · exact h
  rw [← hvalue, ← hunit]
  unfold rounding lowerPart
  dsimp only
  generalize (Binary.mk false 1 b.exp).ratio.1 = unit at hle
  generalize b.ratio.1 = num at hle
  generalize b.ratio.2 = den at hden
  generalize (b.mant == Nat.pow 2 52 && b.exp != -1074) = narrow
  have hscale : ∀ x : ℚ, x / ((4 * den : Nat) : ℚ) = x / 4 / den := fun x => by
    push_cast
    rw [div_div]
  constructor
  · have : 0 < den := by exact_mod_cast hden
    dsimp only
    omega
  · dsimp only
    cases narrow with
    | true =>
      rw [if_pos rfl, if_pos rfl, Nat.cast_sub (by omega), hscale]
      push_cast
      ring
    | false =>
      rw [if_neg Bool.false_ne_true, if_neg Bool.false_ne_true, Nat.cast_sub (by omega), hscale]
      push_cast
      ring
  · dsimp only
    rw [hscale]
    push_cast
    ring
  · dsimp only
    rw [hscale]
    push_cast
    ring

theorem div_le_scaled {den n k : Nat} (hden : 0 < den) (e : Int) :
    k * (scaleTen e).2 ≤ n * (scaleTen e).1 * den ↔ (k : ℚ) / den ≤ n * 10 ^ e := by
  have hd : (0 : ℚ) < den := by exact_mod_cast hden
  have hdown : (0 : ℚ) < (scaleTen e).2 := by exact_mod_cast (scaleTen_pos e).2
  rw [← quotient_scaleTen, quotient, mul_div_assoc', div_le_div_iff₀ hd hdown,
    ← Nat.cast_le (α := ℚ)]
  push_cast
  rfl

theorem scaled_le_div {den n k : Nat} (hden : 0 < den) (e : Int) :
    n * (scaleTen e).1 * den ≤ k * (scaleTen e).2 ↔ (n : ℚ) * 10 ^ e ≤ k / den := by
  have hd : (0 : ℚ) < den := by exact_mod_cast hden
  have hdown : (0 : ℚ) < (scaleTen e).2 := by exact_mod_cast (scaleTen_pos e).2
  rw [← quotient_scaleTen, quotient, mul_div_assoc', div_le_div_iff₀ hdown hd,
    ← Nat.cast_le (α := ℚ)]
  push_cast
  rfl

namespace Rounding.Spans

variable {r : Rounding} {low value high : ℚ}

theorem le_of_holds (h : r.Spans low value high) {n : Nat} {e : Int} (hin : r.holds n e = true) :
    low ≤ n * 10 ^ e ∧ (n : ℚ) * 10 ^ e ≤ high := by
  have hle : r.low * (scaleTen e).2 ≤ n * (scaleTen e).1 * r.den ∧
      n * (scaleTen e).1 * r.den ≤ r.high * (scaleTen e).2 := by
    unfold holds at hin
    dsimp only at hin
    split at hin
    all_goals
      simp only [Bool.and_eq_true, decide_eq_true_eq] at hin
      omega
  rw [div_le_scaled h.den_pos, scaled_le_div h.den_pos, h.low_eq, h.high_eq] at hle
  exact hle

theorem holds_of_lt (h : r.Spans low value high) {n : Nat} {e : Int} (hlow : low < n * 10 ^ e)
    (hhigh : (n : ℚ) * 10 ^ e < high) : r.holds n e = true := by
  have hlt : r.low * (scaleTen e).2 < n * (scaleTen e).1 * r.den ∧
      n * (scaleTen e).1 * r.den < r.high * (scaleTen e).2 := by
    rw [← h.low_eq, ← not_le, ← scaled_le_div h.den_pos, not_le] at hlow
    rw [← h.high_eq, ← not_le, ← div_le_scaled h.den_pos, not_le] at hhigh
    exact ⟨hlow, hhigh⟩
  unfold holds
  dsimp only
  split
  all_goals
    simp only [Bool.and_eq_true, decide_eq_true_eq]
    omega

/-! ## The search -/

theorem le_of_down {tie : Tie} {below rest unit : Nat}
    (h : tie.down below (compare (2 * rest) unit) = true) : 2 * rest ≤ unit := by
  by_contra hgt
  rw [Nat.compare_eq_gt.2 (Nat.not_le.1 hgt)] at h
  cases h

theorem le_of_not_down {tie : Tie} {below rest unit : Nat}
    (h : tie.down below (compare (2 * rest) unit) = false) : unit ≤ 2 * rest := by
  by_contra hlt
  rw [Nat.compare_eq_lt.2 (Nat.not_le.1 hlt)] at h
  cases h

/-- The two multiples of a place next to the value, and how far the nearer one is. -/
theorem atPlace_eq (h : r.Spans low value high) (tie : Tie) (e : Int) :
    ∃ below near far : Nat, (below : ℚ) * 10 ^ e ≤ value ∧ value < (below + 1) * 10 ^ e ∧
      (near = below ∨ near = below + 1) ∧ (far = below ∨ far = below + 1) ∧
      |near * 10 ^ e - value| ≤ 10 ^ e / 2 ∧
      r.atPlace tie e = if r.holds near e then some near else if r.holds far e then some far
        else none := by
  have hup : (0 : ℚ) < (scaleTen e).1 := by exact_mod_cast (scaleTen_pos e).1
  have hdown : (0 : ℚ) < (scaleTen e).2 := by exact_mod_cast (scaleTen_pos e).2
  have hden : (0 : ℚ) < r.den := by exact_mod_cast h.den_pos
  have hten : (0 : ℚ) < 10 ^ e := zpow_pos (by norm_num) e
  have hunit : 0 < r.den * (scaleTen e).1 := Nat.mul_pos h.den_pos (scaleTen_pos e).1
  have hrest := Nat.mod_lt (r.value * (scaleTen e).2) hunit
  have hsplit : ((r.value * (scaleTen e).2 / (r.den * (scaleTen e).1) : Nat) : ℚ) * 10 ^ e +
      (r.value * (scaleTen e).2 % (r.den * (scaleTen e).1) : Nat) /
        (r.den * (scaleTen e).1 : Nat) * 10 ^ e = value := by
    have hdiv := Nat.div_add_mod (r.value * (scaleTen e).2) (r.den * (scaleTen e).1)
    have hcast := congrArg (Nat.cast (R := ℚ)) hdiv
    rw [← h.value_eq, ← quotient_scaleTen, quotient]
    push_cast at hcast ⊢
    field_simp
    linarith
  unfold atPlace
  dsimp only
  generalize r.value * (scaleTen e).2 / (r.den * (scaleTen e).1) = below at hsplit
  generalize r.value * (scaleTen e).2 % (r.den * (scaleTen e).1) = rest at hsplit hrest
  generalize r.den * (scaleTen e).1 = unit at hsplit hrest hunit
  have hu : (0 : ℚ) < unit := by exact_mod_cast hunit
  have hpart : (0 : ℚ) ≤ rest / unit := by positivity
  have hpart' : (rest : ℚ) / unit < 1 := (div_lt_one hu).2 (by exact_mod_cast hrest)
  have hlo : (below : ℚ) * 10 ^ e ≤ value := by
    rw [← hsplit]
    exact le_add_of_nonneg_right (mul_nonneg hpart hten.le)
  have hhi : value < (below + 1) * 10 ^ e := by
    rw [← hsplit, add_mul, one_mul]
    exact add_lt_add_right (mul_lt_of_lt_one_left hten hpart') _
  cases hdown : tie.down below (compare (2 * rest) unit) with
  | true =>
    have hhalf : (rest : ℚ) / unit ≤ 1 / 2 := by
      have hle : 2 * rest ≤ unit := le_of_down hdown
      rw [div_le_div_iff₀ hu (by norm_num), one_mul, mul_comm]
      exact_mod_cast hle
    refine ⟨below, below, below + 1, hlo, hhi, .inl rfl, .inr rfl, ?_, rfl⟩
    rw [abs_sub_comm, abs_of_nonneg (sub_nonneg.2 hlo), ← hsplit, add_sub_cancel_left]
    have := mul_le_mul_of_nonneg_right hhalf hten.le
    linarith
  | false =>
    have hhalf : 1 / 2 ≤ (rest : ℚ) / unit := by
      have hle : unit ≤ 2 * rest := le_of_not_down hdown
      rw [div_le_div_iff₀ (by norm_num) hu, one_mul, mul_comm]
      exact_mod_cast hle
    refine ⟨below, below + 1, below, hlo, hhi, .inr rfl, .inl rfl, ?_, rfl⟩
    push_cast
    rw [abs_of_nonneg (sub_nonneg.2 hhi.le), ← hsplit]
    have := mul_le_mul_of_nonneg_right hhalf hten.le
    linarith

theorem of_atPlace (h : r.Spans low value high) {tie : Tie} {e : Int} {n : Nat}
    (hn : r.atPlace tie e = some n) :
    r.holds n e = true ∧ ∃ below : Nat, (below : ℚ) * 10 ^ e ≤ value ∧
      value < (below + 1) * 10 ^ e ∧ (n = below ∨ n = below + 1) := by
  obtain ⟨below, near, far, hlo, hhi, hnear, hfar, -, heq⟩ := h.atPlace_eq tie e
  rw [heq] at hn
  split at hn
  · next hin =>
    obtain rfl := Option.some.inj hn
    exact ⟨hin, below, hlo, hhi, hnear⟩
  · split at hn
    · next hin =>
      obtain rfl := Option.some.inj hn
      exact ⟨hin, below, hlo, hhi, hfar⟩
    · cases hn

theorem exists_atPlace (h : r.Spans low value high) (tie : Tie) {e : Int}
    (hlow : low < value - 10 ^ e / 2) (hhigh : value + 10 ^ e / 2 < high) :
    ∃ n, r.atPlace tie e = some n := by
  obtain ⟨_, near, _, _, _, _, _, hdist, heq⟩ := h.atPlace_eq tie e
  obtain ⟨hdown, hup⟩ := abs_le.1 hdist
  rw [heq, if_pos (h.holds_of_lt (by linarith) (by linarith))]
  exact ⟨near, rfl⟩

end Rounding.Spans

theorem Rounding.of_search {r : Rounding} {tie : Tie} {tries : Nat} {e : Int} {d : Decimal}
    (h : r.search tie tries e = some d) :
    ∃ i n, i ≤ e ∧ r.atPlace tie i = some n ∧ d = .ofScaled n i := by
  induction tries generalizing e with
  | zero => cases h
  | succ t ih =>
    rw [search] at h
    split at h
    · next n hn => exact ⟨e, n, Int.le_refl e, hn, (Option.some.inj h).symm⟩
    · obtain ⟨i, n, hi, hn, hd⟩ := ih h
      exact ⟨i, n, by omega, hn, hd⟩

theorem Rounding.exists_search {r : Rounding} {tie : Tie} {e : Int} {n : Nat} (tries : Nat)
    (h : r.atPlace tie (e - tries) = some n) : ∃ d, r.search tie (tries + 1) e = some d := by
  induction tries generalizing e with
  | zero =>
    rw [Nat.cast_zero, Int.sub_zero] at h
    rw [search, h]
    exact ⟨_, rfl⟩
  | succ t ih =>
    rw [search]
    split
    · exact ⟨_, rfl⟩
    · exact ih (by rw [← h]; congr 1; omega)

/-- The parts of a double: fewer than 54 binary digits, and no fewer than 53 unless it is at the
lower end of the range. -/
structure Binary.IsDouble (b : Binary) : Prop where
  mant_pos : 0 < b.mant
  mant_lt : b.mant < 2 ^ 53
  full : 2 ^ 52 ≤ b.mant ∨ b.exp = -1074

/-- A neighbour of a value between two powers of ten is between them, too, the powers included. -/
theorem between_powers {value : ℚ} {k i : Int} {below n : Nat} (hi : i ≤ k)
    (hk : (10 : ℚ) ^ k ≤ value) (hk' : value < 10 ^ (k + 1)) (hlo : (below : ℚ) * 10 ^ i ≤ value)
    (hhi : value < (below + 1) * 10 ^ i) (hn : n = below ∨ n = below + 1) :
    (10 : ℚ) ^ k ≤ n * 10 ^ i ∧ (n : ℚ) * 10 ^ i ≤ 10 ^ (k + 1) := by
  obtain ⟨j, hj⟩ := Int.eq_ofNat_of_zero_le (a := k - i) (by omega)
  obtain rfl : k = j + i := by omega
  have hten : (0 : ℚ) < 10 ^ i := zpow_pos (by norm_num) i
  have hpow : (10 : ℚ) ^ ((j : Int) + i) = (10 ^ j : Nat) * 10 ^ i := by
    rw [zpow_add₀ (by norm_num), zpow_natCast]
    push_cast
    rfl
  have hpow' : (10 : ℚ) ^ ((j : Int) + i + 1) = (10 ^ (j + 1) : Nat) * 10 ^ i := by
    rw [show (j : Int) + i + 1 = ((j + 1 : Nat) : Int) + i by omega, zpow_add₀ (by norm_num),
      zpow_natCast]
    push_cast
    rfl
  rw [hpow] at hk ⊢
  rw [hpow'] at hk' ⊢
  have hge : 10 ^ j < below + 1 := by
    have := lt_of_mul_lt_mul_right (hk.trans_lt hhi) hten.le
    exact_mod_cast this
  have hlt : below < 10 ^ (j + 1) := by
    have := lt_of_mul_lt_mul_right (hlo.trans_lt hk') hten.le
    exact_mod_cast this
  have hle : 10 ^ j ≤ n ∧ n ≤ 10 ^ (j + 1) := by omega
  exact ⟨mul_le_mul_of_nonneg_right (by exact_mod_cast hle.1) hten.le,
    mul_le_mul_of_nonneg_right (by exact_mod_cast hle.2) hten.le⟩

namespace Binary

theorem IsDouble.magnitude_le {b : Binary} (h : b.IsDouble) :
    b.magnitude ≤ (2 ^ 53 - 1) * 2 ^ b.exp := by
  have hcast : ((b.mant + 1 : Nat) : ℚ) ≤ ((2 ^ 53 : Nat) : ℚ) := by exact_mod_cast h.mant_lt
  push_cast at hcast
  exact mul_le_mul_of_nonneg_right (by linarith) (zpow_pos (by norm_num) _).le

/-- Sixteen places below the leading digit the decimals are closer than the interval is wide. -/
theorem IsDouble.place_small {b : Binary} (h : b.IsDouble) {k : Int}
    (hk : (10 : ℚ) ^ k ≤ b.magnitude) :
    (10 : ℚ) ^ (k - 16) / 2 < b.lowerPart * 2 ^ b.exp ∧
      (10 : ℚ) ^ (k - 16) / 2 < 1 / 2 * 2 ^ b.exp := by
  have htwo : (0 : ℚ) < 2 ^ b.exp := zpow_pos (by norm_num) _
  have hplace : (10 : ℚ) ^ (k - 16) * 10 ^ (16 : Nat) ≤ b.magnitude := by
    rw [← zpow_natCast, ← zpow_add₀ (by norm_num)]
    exact (congrArg _ (by omega)).trans_le hk
  have hwide : (10 : ℚ) ^ (k - 16) / 2 < 1 / 2 * 2 ^ b.exp := by
    have := h.magnitude_le
    linarith
  refine ⟨?_, hwide⟩
  unfold lowerPart
  split
  · next hnarrow =>
    rw [Bool.and_eq_true, beq_iff_eq] at hnarrow
    rw [magnitude, hnarrow.1] at hplace
    push_cast at hplace
    linarith
  · exact hwide

/-- **Seventeen digits suffice**: what is found is a multiple of some place that lies in the
interval, and between the powers of ten next to the double. -/
theorem IsDouble.shortest_scaled {b : Binary} (h : b.IsDouble) (tie : Tie) :
    ∃ (k i : Int) (n : Nat), ((10 : ℚ) ^ k ≤ b.magnitude ∧ b.magnitude < 10 ^ (k + 1)) ∧
      b.shortest tie = .ofScaled n i ∧ 0 < n ∧ b.rounding.holds n i = true ∧
      (10 : ℚ) ^ k ≤ n * 10 ^ i ∧ (n : ℚ) * 10 ^ i ≤ 10 ^ (k + 1) := by
  have hspans := rounding_spans h.mant_pos
  have hmagnitude : 0 < b.magnitude :=
    mul_pos (by exact_mod_cast h.mant_pos) (zpow_pos (by norm_num) _)
  have hvalue : 0 < b.rounding.value := by
    by_contra hzero
    have := hspans.value_eq
    rw [Nat.le_zero.1 (Nat.not_lt.1 hzero), Nat.cast_zero, zero_div] at this
    exact hmagnitude.ne this
  obtain ⟨hlo, hhi⟩ := leadingExp_spec hvalue hspans.den_pos
  rw [hspans.value_eq] at hlo hhi
  unfold shortest
  dsimp only
  generalize leadingExp b.rounding.value b.rounding.den = k at hlo hhi
  obtain ⟨hlow, hhigh⟩ := h.place_small hlo
  obtain ⟨n₀, hn₀⟩ := hspans.exists_atPlace tie (e := k - 16) (by linarith) (by linarith)
  obtain ⟨d, hd⟩ := Rounding.exists_search 16 hn₀
  rw [hd]
  dsimp only
  obtain ⟨i, n, hi, hn, rfl⟩ := Rounding.of_search hd
  obtain ⟨hin, below, hbelow, habove, hnear⟩ := hspans.of_atPlace hn
  obtain ⟨hge, hle⟩ := between_powers hi hlo hhi hbelow habove hnear
  have hpos : 0 < n := by
    have hten : (0 : ℚ) < 10 ^ k := zpow_pos (by norm_num) k
    by_contra hzero
    rw [Nat.le_zero.1 (Nat.not_lt.1 hzero), Nat.cast_zero, zero_mul] at hge
    exact absurd hten (not_lt.2 hge)
  exact ⟨k, i, n, ⟨hlo, hhi⟩, rfl, hpos, hin, hge, hle⟩

/-- The leading digit of what is found stands where that of the double does, unless the double is
rounded up to the next power of ten. -/
theorem shortest_spec {b : Binary} (h : b.IsDouble) (tie : Tie) :
    ∃ k : Int, (10 : ℚ) ^ k ≤ b.magnitude ∧ b.magnitude < 10 ^ (k + 1) ∧
      ((b.shortest tie).exp = k ∨
        (b.shortest tie).exp = k + 1 ∧ (10 : ℚ) ^ (k + 1) ≤ b.magnitude + 1 / 2 * 2 ^ b.exp) := by
  obtain ⟨k, i, n, ⟨hlo, hhi⟩, hd, hpos, hin, hge, hle⟩ := h.shortest_scaled tie
  obtain ⟨hexp, hexp'⟩ := Decimal.ofScaled_exp hpos i
  rw [hd]
  have hfirst : k < (Decimal.ofScaled n i).exp + 1 := zpow_ten_lt.1 (hge.trans_lt hexp')
  have hlast : (Decimal.ofScaled n i).exp ≤ k + 1 := zpow_ten_le.1 (hexp.trans hle)
  refine ⟨k, hlo, hhi, ?_⟩
  by_cases hk : (Decimal.ofScaled n i).exp = k
  · exact .inl hk
  · have hnext : (Decimal.ofScaled n i).exp = k + 1 := by omega
    rw [hnext] at hexp
    exact .inr ⟨hnext, hexp.trans ((rounding_spans h.mant_pos).le_of_holds hin).2⟩

end Binary

end Stencil
