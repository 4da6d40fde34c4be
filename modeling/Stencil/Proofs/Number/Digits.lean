import Stencil.Proofs.Number.Numeral

/-! # Texts of digits

Digits that start with no zero are the numeral of the number they stand for, and all others are such
a numeral with zeros in front of it. -/

namespace Stencil

theorem isDigit_iff {c : Char} : isDigit c = true ↔ 0x30 ≤ c.toNat ∧ c.toNat ≤ 0x39 := by
  rw [isDigit, Bool.and_eq_true, decide_eq_true_eq, decide_eq_true_eq]
  exact Iff.rfl

theorem digitChar_of_isDigit {c : Char} (h : isDigit c = true) :
    Nat.digitChar (c.toNat - 0x30) = c := by
  obtain ⟨hlo, hhi⟩ := isDigit_iff.1 h
  rw [← Char.toNat_inj, Nat.toNat_digitChar_of_lt_ten (by omega)]
  omega

theorem decimalDigits_append {n : Nat} (hn : 0 < n) {ds : List Char}
    (hds : ∀ c ∈ ds, isDigit c = true) :
    decimalDigits n ++ ds = decimalDigits (ds.foldl (fun n c => 10 * n + (c.toNat - 0x30)) n) := by
  induction ds generalizing n with
  | nil => exact List.append_nil _
  | cons c ds ih =>
    obtain ⟨hc, hds⟩ := List.forall_mem_cons.1 hds
    have hd : c.toNat - 0x30 < 10 := by
      have := isDigit_iff.1 hc
      omega
    have hnext : decimalDigits n ++ [c] = decimalDigits (10 * n + (c.toNat - 0x30)) := by
      have happend := Nat.toDigits_append_toDigits (b := 10) (by decide) hn hd
      rwa [Nat.toDigits_of_lt_base hd, digitChar_of_isDigit hc] at happend
    rw [List.foldl_cons, ← ih (by omega) hds, ← hnext, List.append_assoc, List.singleton_append]

theorem decimalDigits_digitsValue {c : Char} {ds : List Char} (h0 : c ≠ '0')
    (h : ∀ x ∈ c :: ds, isDigit x = true) : decimalDigits (digitsValue (c :: ds)) = c :: ds := by
  obtain ⟨hc, hds⟩ := List.forall_mem_cons.1 h
  have hcode : c.toNat ≠ 0x30 := fun heq => h0 (Char.toNat_inj.1 heq)
  obtain ⟨hlo, hhi⟩ := isDigit_iff.1 hc
  have hfirst : decimalDigits (c.toNat - 0x30) = [c] := by
    rw [decimalDigits, Nat.toDigits_of_lt_base (by omega), digitChar_of_isDigit hc]
  have happend := decimalDigits_append (n := c.toNat - 0x30) (by omega) hds
  rw [hfirst, List.singleton_append] at happend
  rw [digitsValue, List.foldl_cons, Nat.mul_zero, Nat.zero_add, ← happend]

theorem digitsValue_zeros (k : Nat) (ds : List Char) :
    digitsValue (List.replicate k '0' ++ ds) = digitsValue ds := by
  induction k with
  | zero => rfl
  | succ k ih => exact ih

theorem eq_zeros_append {ds : List Char} (hne : ds ≠ []) (h : ∀ c ∈ ds, isDigit c = true) :
    ∃ k, ds = List.replicate k '0' ++ decimalDigits (digitsValue ds) := by
  induction ds with
  | nil => exact absurd rfl hne
  | cons c ds ih =>
    by_cases h0 : c = '0'
    · subst h0
      by_cases hds : ds = []
      · subst hds
        exact ⟨0, rfl⟩
      · obtain ⟨k, hk⟩ := ih hds (List.forall_mem_cons.1 h).2
        exact ⟨k + 1, congrArg ('0' :: ·) hk⟩
    · exact ⟨0, (decimalDigits_digitsValue h0 h).symm⟩

/-- Some digits stand for `n` exactly if they are its numeral with zeros in front. -/
theorem digits_iff {ds : List Char} {n : Nat} :
    ds ≠ [] ∧ (∀ c ∈ ds, isDigit c = true) ∧ digitsValue ds = n ↔
      ∃ k, ds = List.replicate k '0' ++ decimalDigits n := by
  constructor
  · rintro ⟨hne, hds, rfl⟩
    exact eq_zeros_append hne hds
  · rintro ⟨k, rfl⟩
    refine ⟨?_, fun c hc => ?_, ?_⟩
    · exact List.append_ne_nil_of_right_ne_nil _ Nat.toDigits_ne_nil
    · rcases List.mem_append.1 hc with hc | hc
      · rw [List.eq_of_mem_replicate hc]
        decide
      · exact isDigit_of_mem_decimalDigits hc
    · rw [digitsValue_zeros, digitsValue_decimalDigits]

theorem decimalDigits_ne_zero_cons {n : Nat} {ds : List Char} (hne : ds ≠ []) :
    decimalDigits n ≠ '0' :: ds := by
  intro heq
  have hds : ∀ c ∈ ds, isDigit c = true := fun c hc =>
    isDigit_of_mem_decimalDigits (heq ▸ List.mem_cons_of_mem '0' hc)
  have hvalue : digitsValue ds = n := by
    rw [← digitsValue_decimalDigits n, heq]
    rfl
  -- the digits behind the zero would be the whole numeral again
  obtain ⟨k, hk⟩ := eq_zeros_append hne hds
  have hlength := congrArg List.length hk
  rw [hvalue, heq, List.length_append, List.length_cons] at hlength
  omega

end Stencil
