import Stencil.Proofs.Number.Digits
import Stencil.Proofs.Number.Positional
import Stencil.Proofs.Number.Sum
import Stencil.Proofs.Text.Run

/-! # What number texts denote

The text of a decimal is read back as exactly that decimal, with or without an exponent: zeros fill
up the places between its digits and the point, and none is written that changes nothing. -/

namespace Stencil

/-! ## Decimals without needless zeros -/

structure Decimal.Canonical (d : Decimal) : Prop where
  digits_ne : d.digits ≠ []
  isDigit : ∀ c ∈ d.digits, isDigit c = true
  head_ne : d.digits.head? ≠ some '0'
  last_ne : d.digits.getLast? ≠ some '0'

def Decimal.value (d : Decimal) : ℚ :=
  digitsValue d.digits * 10 ^ (d.exp - d.digits.length + 1)

def Numeral.value (n : Numeral) : ℚ :=
  n.mant * 10 ^ n.exp

theorem head?_decimalDigits {n : Nat} (h : 0 < n) : (decimalDigits n).head? ≠ some '0' := by
  intro hzero
  obtain ⟨ds, hds⟩ := List.head?_eq_some_iff.1 hzero
  by_cases hne : ds = []
  · have hvalue := digitsValue_decimalDigits n
    rw [hds, hne] at hvalue
    exact h.ne hvalue
  · exact decimalDigits_ne_zero_cons hne hds

theorem getLast?_dropTrailingZeros (cs : List Char) :
    (dropTrailingZeros cs).getLast? ≠ some '0' := by
  intro hlast
  rw [dropTrailingZeros, List.getLast?_reverse] at hlast
  have h := List.head?_dropWhile_not (· == '0') cs.reverse
  rw [hlast] at h
  cases h

theorem Decimal.canonical_ofScaled {n : Nat} (h : 0 < n) (e : Int) :
    (Decimal.ofScaled n e).Canonical := by
  have hhead := head?_decimalDigits h
  have hsplit := dropTrailingZeros_append (decimalDigits n)
  have hne : dropTrailingZeros (decimalDigits n) ≠ [] := by
    intro hnil
    rw [hnil, List.nil_append] at hsplit
    obtain ⟨c, cs, hc⟩ := List.exists_cons_of_ne_nil (Nat.toDigits_ne_nil (b := 10) (n := n))
    change decimalDigits n = c :: cs at hc
    have hzero : c = '0' := List.eq_of_mem_replicate (hsplit ▸ hc ▸ List.mem_cons_self ..)
    exact hhead (by rw [hc, hzero]; rfl)
  refine ⟨hne, fun c hc => isDigit_of_mem_decimalDigits (mem_of_mem_dropTrailingZeros hc), ?_,
    getLast?_dropTrailingZeros _⟩
  intro hzero
  refine hhead ?_
  rw [← hsplit, List.head?_append_of_ne_nil _ hne]
  exact hzero

theorem Binary.IsDouble.canonical_shortest {b : Binary} (h : b.IsDouble) (tie : Tie) :
    (b.shortest tie).Canonical := by
  obtain ⟨k, i, n, -, hd, hpos, -⟩ := h.shortest_scaled tie
  rw [hd]
  exact Decimal.canonical_ofScaled hpos i

/-! ## Digits around a point -/

def point : List Char → List Char
  | [] => []
  | ds => '.' :: ds

def exponentPart (e : Int) : List Char :=
  'e' :: (if e < 0 then '-' else '+') :: decimalDigits e.natAbs

/-- Digits before a point and behind it, with no zero before another digit and none at the end. -/
structure Tidy (whole frac : List Char) : Prop where
  isDigit : ∀ c ∈ whole ++ frac, isDigit c = true
  whole_ne : whole ≠ []
  leading : whole.head? = some '0' → whole = ['0']
  trailing : frac.getLast? ≠ some '0'

theorem digitsValue_append_zeros (ds : List Char) (n : Nat) :
    digitsValue (ds ++ List.replicate n '0') = 10 ^ n * digitsValue ds :=
  (Nat.ofDigitChars_append 0).trans Nat.ofDigitChars_replicate_zero

theorem readNumeral?_point {whole frac tail : List Char} (h : Tidy whole frac) {e : Int}
    (htail : readExponent? tail = some e) (hstop : Stops (fun c => isDigit c || c == '.') tail) :
    readNumeral? (whole ++ point frac ++ tail) =
      some ⟨digitsValue (whole ++ frac), e - frac.length⟩ := by
  have hwhole : ∀ c ∈ whole, isDigit c = true := fun c hc =>
    h.isDigit c (List.mem_append_left _ hc)
  have hfrac : ∀ c ∈ frac, isDigit c = true := fun c hc =>
    h.isDigit c (List.mem_append_right _ hc)
  have hdigit : Stops isDigit tail := fun c hc => (Bool.or_eq_false_iff.1 (hstop c hc)).1
  -- so that no point is taken from what follows
  have hdot : ∀ r, tail = '.' :: r → False := by
    rintro r rfl
    exact absurd (hstop '.' rfl) (by decide)
  cases frac with
  | nil =>
    simp [readNumeral?, point, takeWhile_run hwhole hdigit, dropWhile_run hwhole hdigit,
      h.whole_ne, htail]
  | cons c cs =>
    have hpoint : Stops isDigit ('.' :: (c :: cs ++ tail)) := stops_cons (by decide)
    have htext : whole ++ point (c :: cs) ++ tail = whole ++ '.' :: (c :: cs ++ tail) := by
      simp [point]
    rw [htext, readNumeral?, takeWhile_run hwhole hpoint, dropWhile_run hwhole hpoint]
    simp only [takeWhile_run hfrac hdigit, dropWhile_run hfrac hdigit, htail]
    simp

theorem readExponent?_exponentPart (e : Int) : readExponent? (exponentPart e) = some e := by
  have hvalue := digitsValue_decimalDigits e.natAbs
  have hdigits : (decimalDigits e.natAbs).all isDigit = true :=
    List.all_eq_true.2 fun c hc => isDigit_of_mem_decimalDigits hc
  have hempty : (decimalDigits e.natAbs).isEmpty = false :=
    List.isEmpty_eq_false_iff.2 Nat.toDigits_ne_nil
  unfold exponentPart
  by_cases h : e < 0
  · rw [if_pos h]
    simp only [readExponent?, readSign, hempty, hdigits, hvalue, beq_self_eq_true, Bool.true_or,
      Bool.not_true, Bool.or_self, Bool.false_eq_true, if_true, if_false]
    exact congrArg some (by omega)
  · rw [if_neg h]
    simp only [readExponent?, readSign, hempty, hdigits, hvalue, beq_self_eq_true, Bool.true_or,
      Bool.not_true, Bool.or_self, Bool.false_eq_true, if_true, if_false]
    exact congrArg some (by omega)

theorem point_of_ne {ds : List Char} (h : ds ≠ []) : point ds = '.' :: ds := by
  cases ds with
  | nil => exact absurd rfl h
  | cons c cs => rfl

namespace Decimal

variable {d : Decimal}

theorem Canonical.tidy_whole (h : d.Canonical) (m : Nat) :
    Tidy (d.digits ++ List.replicate m '0') [] where
  isDigit c hc := by
    rw [List.append_nil, List.mem_append] at hc
    rcases hc with hc | hc
    · exact h.isDigit c hc
    · rw [List.eq_of_mem_replicate hc]
      rfl
  whole_ne := List.append_ne_nil_of_left_ne_nil h.digits_ne _
  leading hzero := absurd (by rwa [List.head?_append_of_ne_nil _ h.digits_ne] at hzero) h.head_ne
  trailing := nofun

theorem Canonical.tidy_split (h : d.Canonical) {m : Nat} (hpos : 0 < m) :
    Tidy (d.digits.take m) (d.digits.drop m) := by
  obtain ⟨c, cs, hd⟩ := List.exists_cons_of_ne_nil h.digits_ne
  obtain ⟨m, rfl⟩ := Nat.exists_eq_succ_of_ne_zero hpos.ne'
  have hhead := h.head_ne
  have hlast := h.last_ne
  have hdigit := h.isDigit
  rw [hd] at hhead hlast hdigit ⊢
  refine ⟨?_, nofun, fun hzero => absurd hzero hhead, ?_⟩
  · rwa [List.take_append_drop]
  · rw [List.getLast?_drop]
    split
    · nofun
    · exact hlast

theorem Canonical.tidy_small (h : d.Canonical) (m : Nat) :
    Tidy ['0'] (List.replicate m '0' ++ d.digits) where
  isDigit c hc := by
    rw [List.mem_append, List.mem_singleton, List.mem_append] at hc
    rcases hc with rfl | hc | hc
    · rfl
    · rw [List.eq_of_mem_replicate hc]
      rfl
    · exact h.isDigit c hc
  whole_ne := nofun
  leading _ := rfl
  trailing := by
    rw [List.getLast?_append_of_ne_nil _ h.digits_ne]
    exact h.last_ne

/-- Without an exponent there is nothing behind the point, or some of the digits, or zeros and all
of them. -/
theorem positional_point (h : d.Canonical) : ∃ whole frac, Tidy whole frac ∧
    d.positional = whole ++ point frac ∧
    (digitsValue (whole ++ frac) : ℚ) * 10 ^ (0 - (frac.length : Int)) = d.value := by
  unfold positional value
  dsimp only
  by_cases hlong : (d.digits.length : Int) ≤ d.exp + 1
  · obtain ⟨m, hm⟩ := Int.eq_ofNat_of_zero_le (a := d.exp - d.digits.length + 1) (by omega)
    rw [if_pos hlong, hm, zeros, show (d.exp + 1 - d.digits.length).toNat = m by omega]
    refine ⟨_, [], h.tidy_whole m, (List.append_nil _).symm, ?_⟩
    rw [List.append_nil, digitsValue_append_zeros]
    push_cast
    simp [mul_comm]
  · rw [if_neg hlong]
    by_cases hpos : 0 < d.exp + 1
    · rw [if_pos hpos]
      have hne : d.digits.drop (d.exp + 1).toNat ≠ [] := by
        rw [ne_eq, List.drop_eq_nil_iff]
        omega
      refine ⟨_, _, h.tidy_split (m := (d.exp + 1).toNat) (by omega), by rw [point_of_ne hne], ?_⟩
      rw [List.take_append_drop, List.length_drop]
      congr 2
      omega
    · rw [if_neg hpos, zeros]
      have hne : List.replicate (-(d.exp + 1)).toNat '0' ++ d.digits ≠ [] :=
        List.append_ne_nil_of_right_ne_nil _ h.digits_ne
      refine ⟨['0'], _, h.tidy_small _, by rw [point_of_ne hne]; rfl, ?_⟩
      rw [show digitsValue (['0'] ++ (List.replicate (-(d.exp + 1)).toNat '0' ++ d.digits)) =
        digitsValue d.digits from digitsValue_zeros (_ + 1) _, List.length_append,
        List.length_replicate]
      congr 2
      omega

theorem exponential_eq {c : Char} {cs : List Char} (h : d.digits = c :: cs) :
    d.exponential = [c] ++ point cs ++ exponentPart d.exp := by
  have hexponent : (if d.exp < 0 then 'e' :: '-' :: decimalDigits (-d.exp).toNat
      else 'e' :: '+' :: decimalDigits d.exp.toNat) = exponentPart d.exp := by
    unfold exponentPart
    split
    · rw [show d.exp.natAbs = (-d.exp).toNat by omega]
    · rw [show d.exp.natAbs = d.exp.toNat by omega]
  unfold exponential
  rw [h, hexponent]
  cases cs with
  | nil => rfl
  | cons x xs => rfl

theorem exponential_point (h : d.Canonical) : ∃ whole frac, Tidy whole frac ∧ whole.length = 1 ∧
    d.exponential = whole ++ point frac ++ exponentPart d.exp ∧
    (digitsValue (whole ++ frac) : ℚ) * 10 ^ (d.exp - frac.length) = d.value := by
  obtain ⟨c, cs, hd⟩ := List.exists_cons_of_ne_nil h.digits_ne
  have htidy := h.tidy_split Nat.one_pos
  rw [hd] at htidy
  refine ⟨[c], cs, htidy, rfl, exponential_eq hd, ?_⟩
  rw [value, hd, List.length_cons, List.singleton_append]
  congr 2
  omega

end Decimal

/-! ## Texts of doubles -/

theorem unpack_zero : (0 : Float).toModel.unpack = .zero .positive := rfl

theorem mant_pos_of_ne_zero {x : Float} {b : Binary} (h : decode x = .finite b)
    (hx : x < 0 ∨ 0 < x) : 0 < b.mant := by
  rw [decode_eq] at h
  rw [float_lt_iff, float_lt_iff, unpack_zero] at hx
  cases hu : x.toModel.unpack with
  | notANumber => rw [hu] at h; cases h
  | infinity s => rw [hu] at h; cases h
  | zero s =>
    rw [hu] at hx
    rcases hx with hx | hx <;> cases hx
  | finite s m e hm =>
    rw [hu] at h
    obtain rfl := Double.finite.inj h
    exact hm

theorem lt_zero_iff_neg {x : Float} {b : Binary} (h : decode x = .finite b) (h0 : 0 < b.mant) :
    x < 0 ↔ b.neg = true := by
  obtain ⟨s, hs, hu⟩ := unpack_of_finite h h0
  rw [float_lt_iff, unpack_zero, hu, hs]
  cases s with
  | negative => exact iff_of_true rfl rfl
  | positive => exact iff_of_false nofun nofun

/-- A number that is not zero is written as the decimal found for it, behind a sign if it is
negative. -/
theorem scriptText_of_decode {x : Float} {b : Binary} (h : decode x = .finite b)
    (hx : x < 0 ∨ 0 < x) : (b.shortest .up).Canonical ∧ scriptText x =
      String.ofList
        (if x < 0 then '-' :: (b.shortest .up).script else (b.shortest .up).script) := by
  have h0 := mant_pos_of_ne_zero h hx
  refine ⟨(isDouble_of_decode h h0.ne').canonical_shortest .up, ?_⟩
  have hmant : (b.mant == 0) = false := beq_false_of_ne h0.ne'
  unfold scriptText
  rw [h]
  dsimp only
  rw [hmant, if_neg Bool.false_ne_true, signed]
  simp only [lt_zero_iff_neg h h0]

/-- **Printed numbers denote their digits exactly.** The text of digits without zeros at their ends,
and of any exponent, is read as the decimal that they stand for. It has no exponent exactly if that
is above -7 and below 21, and otherwise one digit before the point and an exponent with its sign;
there is no zero before another digit and none at the end behind a point. A finite double other than
zero is written as such digits, and a negative one with a single sign in front. -/
theorem script_denotes :
    (∀ d : Decimal, d.Canonical →
      (readNumeral? d.script).map Numeral.value = some d.value ∧
      ∃ whole frac, Tidy whole frac ∧
        if -7 < d.exp ∧ d.exp < 21 then d.script = whole ++ point frac
        else whole.length = 1 ∧ d.script = whole ++ point frac ++ exponentPart d.exp) ∧
    ∀ x b, decode x = .finite b → x < 0 ∨ 0 < x → (b.shortest .up).Canonical ∧ scriptText x =
      String.ofList
        (if x < 0 then '-' :: (b.shortest .up).script else (b.shortest .up).script) := by
  refine ⟨fun d hd => ?_, fun x b => scriptText_of_decode⟩
  unfold Decimal.script
  simp only [Bool.and_eq_true, decide_eq_true_eq]
  split
  · obtain ⟨whole, frac, htidy, htext, hvalue⟩ := Decimal.positional_point hd
    refine ⟨?_, whole, frac, htidy, htext⟩
    have hread : readNumeral? (whole ++ point frac ++ []) =
        some ⟨digitsValue (whole ++ frac), 0 - frac.length⟩ :=
          readNumeral?_point htidy rfl stops_nil
    rw [List.append_nil] at hread
    rw [htext, hread, Option.map_some, Numeral.value, hvalue]
  · obtain ⟨whole, frac, htidy, hone, htext, hvalue⟩ := Decimal.exponential_point hd
    refine ⟨?_, whole, frac, htidy, hone, htext⟩
    have hread := readNumeral?_point htidy (readExponent?_exponentPart d.exp)
      (stops_cons (by decide))
    rw [htext, hread, Option.map_some, Numeral.value, hvalue]

/-- The first exponent that is written, and a negative number with a fraction. -/
theorem script_denotes_negative :
    let d : Decimal := ⟨['1', '5'], -7⟩
    let b : Binary := ⟨true, 5 * 2 ^ 50, -51⟩
    d.Canonical ∧ d.script = "1.5e-7".toList ∧
      (readNumeral? "1.5e-7".toList).map Numeral.value = some d.value ∧
      decode (-2.5) = .finite b ∧ (-2.5 : Float) < 0 ∧ scriptText (-2.5) = "-2.5" := by
  intro d b
  have hd : d.Canonical := ⟨by decide, by decide, by decide, by decide⟩
  have hscript : d.script = "1.5e-7".toList := by decide
  have hb : decode (-2.5) = .finite b := by decide
  have hneg : (-2.5 : Float) < 0 := by decide
  have hshortest : (b.shortest .up).script = "2.5".toList := by decide +kernel
  refine ⟨hd, hscript, ?_, hb, hneg, ?_⟩
  · rw [← hscript]
    exact (script_denotes.1 d hd).1
  · rw [(script_denotes.2 _ b hb (.inl hneg)).2, if_pos hneg, hshortest]
    rfl

end Stencil
