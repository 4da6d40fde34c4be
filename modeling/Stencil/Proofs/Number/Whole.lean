import Stencil.Proofs.Number.Integer
import Stencil.Value.Coerce

/-! # The texts of whole numbers

The doubles that round to a whole number of up to 53 binary digits lie less than one apart from it,
so the only whole number among them is that number, and its shortest decimal consists of its own
digits. A number is therefore written alike as an integer and as a double. -/

namespace Stencil

/-! ## The interval around a whole number -/

theorem Binary.ratio_neg (neg : Bool) (m k : Nat) :
    (Binary.mk neg m (-(k : Int))).ratio = (m, 2 ^ k) := by
  unfold Binary.ratio
  by_cases hk : k = 0
  · subst hk
    simp
  · rw [if_neg (by simp; omega)]
    simp

/-- An interval around a whole number that reaches less than one to either side. -/
structure Rounding.Whole (r : Rounding) (n : Nat) : Prop where
  den_pos : 0 < r.den
  value : r.value = n * r.den
  low_lt : r.low < r.value
  lt_low : r.value < r.low + r.den
  lt_high : r.value < r.high
  high_lt : r.high < r.value + r.den

theorem Binary.rounding_whole {n : Nat} (neg : Bool) (k : Nat) (h : 0 < n) :
    (Binary.mk neg (n * 2 ^ k) (-(k : Int))).rounding.Whole n := by
  have hk : 0 < 2 ^ k := Nat.two_pow_pos k
  have hn : 0 < n * 2 ^ k := Nat.mul_pos h hk
  unfold Binary.rounding
  simp only [Binary.ratio_neg]
  generalize (n * 2 ^ k == Nat.pow 2 52 && -(k : Int) != -1074) = narrow
  constructor
  · dsimp only
    omega
  · dsimp only
    rw [Nat.mul_left_comm]
  · dsimp only
    split <;> omega
  · dsimp only
    split <;> omega
  · dsimp only
    omega
  · dsimp only
    omega

theorem scaleTen_natCast (e : Nat) : scaleTen (e : Int) = (10 ^ e, 1) := by
  unfold scaleTen
  rw [if_pos (by omega)]
  simp

namespace Rounding.Whole

variable {r : Rounding} {n : Nat}

theorem holds_iff (h : r.Whole n) (m e : Nat) : r.holds m e = true ↔ m * 10 ^ e = n := by
  unfold Rounding.holds
  simp only [scaleTen_natCast, Nat.mul_one]
  constructor
  · intro hin
    have hle : r.low ≤ m * 10 ^ e * r.den ∧ m * 10 ^ e * r.den ≤ r.high := by
      split at hin
      · simpa using hin
      · simp only [Bool.and_eq_true, decide_eq_true_eq] at hin
        omega
    -- a whole number on either side is one away at least, which is outside
    apply Nat.le_antisymm
    · apply Nat.le_of_not_lt
      intro hlt
      have hnext := Nat.mul_le_mul_right r.den hlt
      rw [Nat.succ_mul, ← h.value] at hnext
      have := h.high_lt
      omega
    · apply Nat.le_of_not_lt
      intro hlt
      have hnext := Nat.mul_le_mul_right r.den hlt
      rw [Nat.succ_mul, ← h.value] at hnext
      have := h.lt_low
      omega
  · intro hm
    rw [hm, ← h.value]
    have := h.low_lt
    have := h.lt_high
    split
    · simp
      omega
    · simp
      omega

/-- At a whole place something is found only if the number is a multiple of it. -/
theorem atPlace_eq (h : r.Whole n) (tie : Tie) (e : Nat) :
    r.atPlace tie e = if 10 ^ e ∣ n then some (n / 10 ^ e) else none := by
  have hden := h.den_pos
  have hpow : 0 < 10 ^ e := Nat.pow_pos (by decide)
  unfold Rounding.atPlace
  simp only [scaleTen_natCast, Nat.mul_one, holds_iff h]
  by_cases hdvd : 10 ^ e ∣ n
  · have hbelow : r.value / (r.den * 10 ^ e) = n / 10 ^ e := by
      rw [h.value, Nat.mul_comm n, Nat.mul_div_mul_left _ _ hden]
    have hrest : r.value % (r.den * 10 ^ e) = 0 := by
      rw [h.value, Nat.mul_comm n, Nat.mul_mod_mul_left, Nat.mod_eq_zero_of_dvd hdvd, Nat.mul_zero]
    have hless : compare (2 * 0) (r.den * 10 ^ e) = .lt := by
      rw [Nat.compare_eq_lt]
      exact Nat.mul_pos hden hpow
    rw [hbelow, hrest, hless]
    simp [Tie.down, Nat.div_mul_cancel hdvd, hdvd]
  · have hnone : ∀ m, ¬ m * 10 ^ e = n := by
      intro m hm
      exact hdvd ⟨m, by rw [← hm, Nat.mul_comm]⟩
    rw [if_neg (hnone _), if_neg (hnone _), if_neg hdvd]

/-- A search that starts at a whole place ends at one, at the place of ones at the latest. -/
theorem search_eq (h : r.Whole n) (tie : Tie) {tries e : Nat} (he : e < tries) :
    ∃ i : Nat, 10 ^ i ∣ n ∧ r.search tie tries e = some (.ofScaled (n / 10 ^ i) i) := by
  induction tries generalizing e with
  | zero => omega
  | succ t ih =>
    unfold Rounding.search
    rw [atPlace_eq h]
    by_cases hdvd : 10 ^ e ∣ n
    · rw [if_pos hdvd]
      exact ⟨e, hdvd, rfl⟩
    · rw [if_neg hdvd]
      cases e with
      | zero => simp at hdvd
      | succ e =>
        obtain ⟨i, hi, hs⟩ := ih (by omega : e < t)
        have hnext : ((e + 1 : Nat) : Int) - 1 = e := by omega
        refine ⟨i, hi, ?_⟩
        simp only [hnext]
        exact hs

end Rounding.Whole

/-! ## Digits -/

theorem length_decimalDigits_mono {a b : Nat} (h : a ≤ b) :
    (decimalDigits a).length ≤ (decimalDigits b).length := by
  have hb : b < 10 ^ (decimalDigits b).length :=
    (Nat.length_toDigits_le_iff (by decide) Nat.length_toDigits_pos).1 (Nat.le_refl _)
  exact (Nat.length_toDigits_le_iff (by decide) Nat.length_toDigits_pos).2 (Nat.lt_of_le_of_lt h hb)

/-- The search for a number of at least one, with at most seventeen digits, starts at a whole
place. -/
theorem leadingExp_natCast {num den : Nat} (h : den ≤ num) (hnum : num < 10 ^ 17) :
    ∃ e : Nat, e < 17 ∧ leadingExp num den = e := by
  have hlen := length_decimalDigits_mono h
  have htop : (decimalDigits num).length ≤ 17 :=
    (Nat.length_toDigits_le_iff (by decide) (by decide)).2 hnum
  have hpos : 0 < (decimalDigits den).length := Nat.length_toDigits_pos
  obtain ⟨e, he⟩ : ∃ e : Nat,
      ((decimalDigits num).length : Int) - (decimalDigits den).length = e :=
    ⟨(decimalDigits num).length - (decimalDigits den).length, by omega⟩
  unfold leadingExp
  simp only [he, scaleTen_natCast]
  cases e with
  | zero => exact ⟨0, by omega, by simp [h]⟩
  | succ e =>
    split
    · exact ⟨e + 1, by omega, rfl⟩
    · exact ⟨e, by omega, by omega⟩

theorem decimalDigits_mul_pow {m : Nat} (h : 0 < m) (i : Nat) :
    decimalDigits (m * 10 ^ i) = decimalDigits m ++ List.replicate i '0' := by
  induction i with
  | zero => simp
  | succ i ih =>
    have hm : m * 10 ^ (i + 1) = 10 * (m * 10 ^ i) + 0 := by
      rw [Nat.pow_succ, Nat.add_zero, ← Nat.mul_assoc, Nat.mul_comm]
    have hpos : 0 < m * 10 ^ i := Nat.mul_pos h (Nat.pow_pos (by decide))
    unfold decimalDigits at ih ⊢
    rw [hm, ← Nat.toDigits_append_toDigits (by decide) hpos (by decide), ih, List.append_assoc,
      List.replicate_succ']
    rfl

theorem dropTrailingZeros_append (cs : List Char) :
    dropTrailingZeros cs ++ List.replicate (cs.length - (dropTrailingZeros cs).length) '0' =
      cs := by
  have hsplit := List.takeWhile_append_dropWhile (p := (· == '0')) (l := cs.reverse)
  have hzeros : cs.reverse.takeWhile (· == '0') =
      List.replicate (cs.reverse.takeWhile (· == '0')).length '0' := by
    rw [List.eq_replicate_iff]
    exact ⟨rfl, fun c hc => by simpa using List.mem_takeWhile_imp hc⟩
  have hlen := congrArg List.length hsplit
  rw [List.length_append, List.length_reverse] at hlen
  unfold dropTrailingZeros
  rw [List.length_reverse, ← hlen, Nat.add_sub_cancel, ← List.reverse_replicate, ← hzeros,
    ← List.reverse_append, hsplit, List.reverse_reverse]

/-- The zeros that a decimal leaves out are written again. -/
theorem script_ofScaled {n i : Nat} (hn : 0 < n) (hlt : n < 10 ^ 17) (hi : 10 ^ i ∣ n) :
    (Decimal.ofScaled (n / 10 ^ i) i).script = decimalDigits n := by
  obtain ⟨m, rfl⟩ := hi
  have hm : 0 < m := Nat.pos_of_mul_pos_left hn
  rw [Nat.mul_div_cancel_left _ (Nat.pow_pos (by decide)), Nat.mul_comm, decimalDigits_mul_pow hm]
  have hlen : (decimalDigits (m * 10 ^ i)).length ≤ 17 :=
    (Nat.length_toDigits_le_iff (by decide) (by decide)).2 (by rwa [Nat.mul_comm])
  rw [decimalDigits_mul_pow hm, List.length_append, List.length_replicate] at hlen
  have hpos : 0 < (decimalDigits m).length := Nat.length_toDigits_pos
  have hdrop := dropTrailingZeros_append (decimalDigits m)
  have hle := congrArg List.length hdrop
  rw [List.length_append, List.length_replicate] at hle
  have hzeros : ((i : Int) + (decimalDigits m).length - 1 + 1 -
      (dropTrailingZeros (decimalDigits m)).length).toNat =
      (decimalDigits m).length - (dropTrailingZeros (decimalDigits m)).length + i := by
    omega
  unfold Decimal.ofScaled Decimal.script Decimal.positional
  simp only [Bool.and_eq_true, decide_eq_true_eq]
  rw [if_pos (by omega), if_pos (by omega), zeros, hzeros, ← List.replicate_append_replicate,
    ← List.append_assoc, hdrop]

theorem Binary.shortest_whole {n k : Nat} (neg : Bool) (hn : 0 < n) (h : n * 2 ^ k < 2 ^ 53)
    (tie : Tie) :
    ((Binary.mk neg (n * 2 ^ k) (-(k : Int))).shortest tie).script = decimalDigits n := by
  have hwhole := Binary.rounding_whole neg k hn
  have hvalue : (Binary.mk neg (n * 2 ^ k) (-(k : Int))).rounding.value < 10 ^ 17 := by
    simp only [Binary.rounding, Binary.ratio_neg]
    omega
  have hsmall : n < 10 ^ 17 := by
    have := Nat.le_mul_of_pos_right n (Nat.two_pow_pos k)
    omega
  unfold Binary.shortest
  generalize (Binary.mk neg (n * 2 ^ k) (-(k : Int))).rounding = r at hwhole hvalue
  have hden : r.den ≤ r.value := by
    rw [hwhole.value]
    exact Nat.le_mul_of_pos_left _ hn
  obtain ⟨e, he, hlead⟩ := leadingExp_natCast hden hvalue
  obtain ⟨i, hi, hsearch⟩ := hwhole.search_eq tie he
  simp only [hlead, hsearch]
  exact script_ofScaled hn hsmall hi

/-! ## Texts -/

theorem IsZero.scriptText {x : Float} (h : IsZero x) : scriptText x = "0" := by
  obtain ⟨neg, hx⟩ := h.decode_eq
  unfold Stencil.scriptText
  rw [hx]
  rfl

theorem Coincide.scriptText {x y : Float} (h : Coincide x y) : scriptText x = scriptText y := by
  rcases h with rfl | ⟨hx, hy⟩
  · rfl
  · rw [hx.scriptText, hy.scriptText]

theorem toString_eq_signed (n : Int) :
    toString n = signed (decide (n < 0)) (decimalDigits n.natAbs) := by
  cases n with
  | ofNat n =>
    have hneg : decide (Int.ofNat n < 0) = false :=
      decide_eq_false (Int.not_lt.2 (Int.natCast_nonneg n))
    rw [hneg]
    exact Nat.toString_eq_ofList_toDigits
  | negSucc n =>
    have hneg : decide (Int.negSucc n < 0) = true := decide_eq_true (Int.negSucc_lt_zero n)
    rw [hneg]
    change "-" ++ Nat.repr (n + 1) = _
    rw [Nat.repr_eq_ofList_toDigits, signed, if_pos rfl, String.ofList_cons]
    rfl

theorem scriptText_ofInt {n : Int} (h : n.natAbs < safeLimit) :
    scriptText (Float.ofInt n) = toString n := by
  by_cases h0 : n = 0
  · subst h0
    exact isZero_ofInt.scriptText
  · have hn : 0 < n.natAbs := by omega
    obtain ⟨hlo, hhi⟩ := shifted_bounds (by omega) h
    have hmant : (n.natAbs * 2 ^ (52 - n.natAbs.log2) == 0) = false :=
      beq_false_of_ne (by omega)
    unfold scriptText
    rw [decode_ofInt h0 h, toString_eq_signed]
    dsimp only
    rw [hmant, Binary.shortest_whole _ hn hhi]
    rfl

theorem Num.text_eq (n : Num) : n.text = scriptText n.toFloat := by
  cases n with
  | float x => rfl
  | int n =>
    by_cases h : n.natAbs < safeLimit
    · rw [Num.text, if_pos h, Num.toFloat, scriptText_ofInt h]
    · rw [Num.text, if_neg h, Num.toFloat]

end Stencil
