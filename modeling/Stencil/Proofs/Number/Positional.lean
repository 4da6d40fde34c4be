import Stencil.Proofs.Number.Leading
import Stencil.Proofs.Number.Numeral

/-! # Where number texts have an exponent

In output a number is written with an exponent if it is `1e21` or more or less than `1e-6`. Neither
limit splits the reals that round to one double, so the leading digit of the shortest decimal tells
on which side of it a double is. -/

namespace Stencil

open Float.Model (UnpackedFloat)

/-! ## The order of doubles -/

theorem isDouble_of_decode {x : Float} {b : Binary} (h : decode x = .finite b) (h0 : b.mant ≠ 0) :
    b.IsDouble := by
  unfold decode Double.ofBits at h
  simp only [Nat.pow_eq] at h
  split at h
  · split at h <;> cases h
  · have hfrac := Nat.mod_lt x.toBits.toNat (Nat.two_pow_pos 52)
    split at h
    all_goals
      obtain rfl := Double.finite.inj h
      dsimp only at h0
      constructor
      all_goals
        dsimp only
        omega

theorem unpack_of_decode {x : Float} {m : Nat} {e : Int}
    (h : decode x = .finite ⟨false, m, e⟩) (h0 : 0 < m) :
    x.toModel.unpack = .finite .positive m e h0 := by
  rw [decode_eq] at h
  cases hx : x.toModel.unpack with
  | notANumber => rw [hx] at h; cases h
  | infinity s => rw [hx] at h; cases h
  | zero s =>
    rw [hx] at h
    simp only [Double.ofUnpacked, Double.finite.injEq, Binary.mk.injEq] at h
    omega
  | finite s n k hn =>
    rw [hx] at h
    simp only [Double.ofUnpacked, Double.finite.injEq, Binary.mk.injEq] at h
    obtain ⟨hs, rfl, rfl⟩ := h
    cases s with
    | negative => simp at hs
    | positive => rfl

/-- One binary form is below another: its exponent is less, or its digits are. -/
def Binary.Below (b c : Binary) : Prop :=
  b.exp < c.exp ∨ b.exp = c.exp ∧ b.mant < c.mant

theorem Binary.not_below {b c : Binary} :
    ¬ b.Below c ↔ c.exp < b.exp ∨ b.exp = c.exp ∧ c.mant ≤ b.mant := by
  unfold Below
  omega

theorem compare_of_decode {x y : Float} {b c : Binary} (hx : decode x = .finite b)
    (hb : b.neg = false ∧ 0 < b.mant) (hy : decode y = .finite c)
    (hc : c.neg = false ∧ 0 < c.mant) :
    x.toModel.unpack.compare y.toModel.unpack =
      some ((compare b.exp c.exp).then (compare b.mant c.mant)) := by
  obtain ⟨neg, m, e⟩ := b
  obtain ⟨neg', n, k⟩ := c
  obtain ⟨rfl, hm⟩ := hb
  obtain ⟨rfl, hn⟩ := hc
  rw [unpack_of_decode hx hm, unpack_of_decode hy hn]
  rfl

theorem lt_iff_below {x y : Float} {b c : Binary} (hx : decode x = .finite b)
    (hb : b.neg = false ∧ 0 < b.mant) (hy : decode y = .finite c)
    (hc : c.neg = false ∧ 0 < c.mant) :
    x < y ↔ b.Below c := by
  rw [float_lt_iff, compare_of_decode hx hb hy hc, Option.some.injEq, Ordering.then_eq_lt,
    Int.compare_eq_lt, Int.compare_eq_eq, Nat.compare_eq_lt]
  rfl

theorem le_iff_not_below {x y : Float} {b c : Binary} (hx : decode x = .finite b)
    (hb : b.neg = false ∧ 0 < b.mant) (hy : decode y = .finite c)
    (hc : c.neg = false ∧ 0 < c.mant) :
    x ≤ y ↔ ¬ c.Below b := by
  change decide (x.toModel ≤ y.toModel) = true ↔ _
  rw [decide_eq_true_iff]
  change (x.toModel.unpack.compare y.toModel.unpack).any Ordering.isLE = true ↔ _
  rw [compare_of_decode hx hb hy hc, Option.any_some, Ordering.isLE_iff_ne_gt,
    Ordering.then_eq_gt, Int.compare_eq_gt, Int.compare_eq_eq, Nat.compare_eq_gt, Binary.Below,
    eq_comm (a := b.exp)]

/-! ## The limits -/

namespace Binary

variable {b c : Binary}

/-- What is below a double of 53 digits stays below the middle between that and the double before
it. -/
theorem IsDouble.high_le (hb : b.IsDouble) (hc : 2 ^ 52 < c.mant) (h : b.Below c) :
    b.magnitude + 1 / 2 * 2 ^ b.exp ≤ (c.mant - 1 / 2) * 2 ^ c.exp := by
  have htwo : (0 : ℚ) < 2 ^ b.exp := zpow_pos (by norm_num) _
  have hc' : ((2 ^ 52 + 1 : Nat) : ℚ) ≤ c.mant := by exact_mod_cast hc
  push_cast at hc'
  rcases h with he | ⟨he, hm⟩
  · have hexp : (2 : ℚ) ^ b.exp ≤ 2 ^ (c.exp - 1) := zpow_le_zpow_right₀ (by norm_num) (by omega)
    rw [zpow_sub_one₀ (by norm_num)] at hexp
    have hle := hb.magnitude_le
    have := mul_le_mul_of_nonneg_right hc' (zpow_pos (by norm_num : (0 : ℚ) < 2) c.exp).le
    linarith
  · have hm' : ((b.mant + 1 : Nat) : ℚ) ≤ c.mant := by exact_mod_cast hm
    push_cast at hm'
    rw [magnitude, he, ← add_mul]
    exact mul_le_mul_of_nonneg_right (by linarith) (he ▸ htwo.le)

theorem IsDouble.le_magnitude (hb : b.IsDouble) (hc : c.mant ≤ 2 ^ 53) (hexp : -1074 ≤ c.exp)
    (h : ¬ b.Below c) : c.magnitude ≤ b.magnitude := by
  rcases not_below.1 h with he | ⟨he, hm⟩
  · have hfull : 2 ^ 52 ≤ b.mant := by
      rcases hb.full with hfull | hlast
      · exact hfull
      · omega
    have hm : ((2 ^ 52 : Nat) : ℚ) ≤ b.mant := by exact_mod_cast hfull
    have hm' : (c.mant : ℚ) ≤ ((2 ^ 53 : Nat) : ℚ) := by exact_mod_cast hc
    push_cast at hm hm'
    have htwo : (2 : ℚ) ^ (c.exp + 1) ≤ 2 ^ b.exp := zpow_le_zpow_right₀ (by norm_num) (by omega)
    rw [zpow_add_one₀ (by norm_num)] at htwo
    calc c.magnitude ≤ 2 ^ 53 * 2 ^ c.exp :=
          mul_le_mul_of_nonneg_right hm' (zpow_pos (by norm_num) _).le
      _ = 2 ^ 52 * (2 ^ c.exp * 2) := by ring
      _ ≤ b.mant * 2 ^ b.exp := mul_le_mul hm htwo (by positivity) (by positivity)
  · rw [magnitude, magnitude, he]
    exact mul_le_mul_of_nonneg_right (by exact_mod_cast hm) (zpow_pos (by norm_num) _).le

def upperLimit : Binary :=
  ⟨false, 7629394531250000, 17⟩

/-- `1e-6`, which is slightly more than this. -/
def lowerLimit : Binary :=
  ⟨false, 4722366482869645, -72⟩

theorem magnitude_upperLimit : upperLimit.magnitude = 10 ^ (21 : Int) := by
  norm_num [magnitude, upperLimit]

theorem IsDouble.exp_lt_iff (hb : b.IsDouble) (tie : Tie) :
    (b.shortest tie).exp < 21 ↔ b.Below upperLimit := by
  obtain ⟨k, hlo, hhi, hexp⟩ := shortest_spec hb tie
  constructor
  · intro hlt
    by_contra hge
    have hle := hb.le_magnitude (by decide) (by decide) hge
    rw [magnitude_upperLimit] at hle
    have hk := zpow_ten_lt.1 (hle.trans_lt hhi)
    omega
  · intro hbelow
    have hhigh := hb.high_le (c := upperLimit) (by decide) hbelow
    have hlimit : ((upperLimit.mant : ℚ) - 1 / 2) * 2 ^ upperLimit.exp < 10 ^ (21 : Int) := by
      norm_num [upperLimit]
    have hhalf : (0 : ℚ) < 1 / 2 * 2 ^ b.exp := mul_pos (by norm_num) (zpow_pos (by norm_num) _)
    have hk := zpow_ten_lt.1 (lt_of_le_of_lt (hlo.trans (by linarith)) (hhigh.trans_lt hlimit))
    rcases hexp with hexp | ⟨hexp, hnext⟩
    · omega
    · have := zpow_ten_lt.1 (hnext.trans_lt (hhigh.trans_lt hlimit))
      omega

theorem IsDouble.lt_exp_iff (hb : b.IsDouble) (tie : Tie) :
    -7 < (b.shortest tie).exp ↔ ¬ b.Below lowerLimit := by
  obtain ⟨k, hlo, hhi, hexp⟩ := shortest_spec hb tie
  constructor
  · intro hlt hbelow
    have hhigh := hb.high_le (c := lowerLimit) (by decide) hbelow
    have hlimit : ((lowerLimit.mant : ℚ) - 1 / 2) * 2 ^ lowerLimit.exp < 10 ^ (-6 : Int) := by
      norm_num [lowerLimit]
    have hhalf : (0 : ℚ) < 1 / 2 * 2 ^ b.exp := mul_pos (by norm_num) (zpow_pos (by norm_num) _)
    have hk := zpow_ten_lt.1 (lt_of_le_of_lt (hlo.trans (by linarith)) (hhigh.trans_lt hlimit))
    rcases hexp with hexp | ⟨hexp, hnext⟩
    · omega
    · have := zpow_ten_lt.1 (hnext.trans_lt (hhigh.trans_lt hlimit))
      omega
  · intro hge
    by_cases heq : b.exp = lowerLimit.exp ∧ b.mant = lowerLimit.mant
    · -- the limit itself is written as it is read
      obtain ⟨neg, m, e⟩ := b
      obtain ⟨rfl, rfl⟩ := heq
      cases neg <;> cases tie <;> decide +kernel
    · have hnext : ¬ b.Below ⟨false, lowerLimit.mant + 1, lowerLimit.exp⟩ := by
        rw [not_below] at hge ⊢
        dsimp only
        omega
      have hle := hb.le_magnitude (by decide) (by decide) hnext
      have hlimit : (10 : ℚ) ^ (-6 : Int) ≤
          (Binary.mk false (lowerLimit.mant + 1) lowerLimit.exp).magnitude := by
        norm_num [magnitude, lowerLimit]
      have hk := zpow_ten_lt.1 ((hlimit.trans hle).trans_lt hhi)
      omega

end Binary

/-! ## Texts -/

theorem mem_of_mem_dropTrailingZeros {c : Char} {cs : List Char} (h : c ∈ dropTrailingZeros cs) :
    c ∈ cs :=
  List.mem_reverse.1 ((List.dropWhile_suffix _).mem (List.mem_reverse.1 h))

theorem Binary.isDigit_of_mem_shortest {b : Binary} {tie : Tie} {c : Char}
    (h : c ∈ (b.shortest tie).digits) : isDigit c = true := by
  have hscaled : ∃ n e, b.shortest tie = .ofScaled n e := by
    unfold shortest
    dsimp only
    split
    · next d hd =>
      obtain ⟨i, n, -, -, rfl⟩ := Rounding.of_search hd
      exact ⟨n, i, rfl⟩
    · exact ⟨_, _, rfl⟩
  obtain ⟨n, e, hd⟩ := hscaled
  rw [hd] at h
  exact isDigit_of_mem_decimalDigits (mem_of_mem_dropTrailingZeros h)

namespace Decimal

variable {d : Decimal}

theorem mem_exponential : 'e' ∈ d.exponential := by
  unfold exponential
  split
  all_goals
    dsimp only
    split <;> simp

theorem not_mem_positional (h : ∀ c ∈ d.digits, isDigit c = true) : 'e' ∉ d.positional := by
  have hdigits : 'e' ∉ d.digits := fun hmem => absurd (h 'e' hmem) (by decide)
  have hzeros : ∀ n, 'e' ∉ zeros n := fun n hmem =>
    absurd (List.eq_of_mem_replicate hmem) (by decide)
  intro hmem
  unfold positional at hmem
  dsimp only at hmem
  split at hmem
  · rcases List.mem_append.1 hmem with hmem | hmem
    · exact hdigits hmem
    · exact hzeros _ hmem
  · split at hmem
    · rcases List.mem_append.1 hmem with hmem | hmem
      · exact hdigits (List.mem_of_mem_take hmem)
      · rcases List.mem_cons.1 hmem with hmem | hmem
        · cases hmem
        · exact hdigits (List.mem_of_mem_drop hmem)
    · simp only [List.mem_cons, List.mem_append] at hmem
      rcases hmem with hmem | hmem | hmem | hmem
      · cases hmem
      · cases hmem
      · exact hzeros _ hmem
      · exact hdigits hmem

theorem positional_eq_script_iff (h : ∀ c ∈ d.digits, isDigit c = true) :
    d.positional = d.script ↔ -7 < d.exp ∧ d.exp < 21 := by
  unfold script
  simp only [Bool.and_eq_true, decide_eq_true_eq]
  split
  · next hrange => exact iff_of_true rfl hrange
  · next hrange =>
    refine iff_of_false (fun heq => not_mem_positional h ?_) hrange
    rw [heq]
    exact mem_exponential

end Decimal

theorem signed_inj {neg : Bool} {cs ds : List Char} : signed neg cs = signed neg ds ↔ cs = ds := by
  unfold signed
  cases neg <;> simp [String.ofList_inj]

/-- A positive double has one text in output and as a key where the text in output has no
exponent. -/
theorem plainText_eq_scriptText_iff {x : Float} {b : Binary} (h : decode x = .finite b)
    (hb : b.neg = false ∧ 0 < b.mant) : plainText x = scriptText x ↔ 1e-6 ≤ x ∧ x < 1e21 := by
  have hdouble := isDouble_of_decode h hb.2.ne'
  have hmant : (b.mant == 0) = false := beq_false_of_ne hb.2.ne'
  have hlower : decode 1e-6 = .finite Binary.lowerLimit := rfl
  have hupper : decode 1e21 = .finite Binary.upperLimit := rfl
  rw [le_iff_not_below hlower (by decide) h hb, lt_iff_below h hb hupper (by decide),
    ← hdouble.lt_exp_iff .up, ← hdouble.exp_lt_iff .up,
    ← Decimal.positional_eq_script_iff fun _ => Binary.isDigit_of_mem_shortest]
  unfold plainText scriptText
  rw [h]
  dsimp only
  rw [hmant, if_neg Bool.false_ne_true, if_neg Bool.false_ne_true, signed_inj]

end Stencil
