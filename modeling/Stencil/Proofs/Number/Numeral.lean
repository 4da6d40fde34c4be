import Stencil.Number.Layout
import Stencil.Number.Read
import Stencil.Proofs.Number.Double

/-! # Reading natural numbers

Digits are read as the double nearest to the number they stand for, and a small number is one
itself. -/

namespace Stencil

theorem isDigit_of_mem_decimalDigits {n : Nat} {c : Char} (h : c ∈ decimalDigits n) :
    isDigit c = true := by
  have hc : c.isDigit = true := Nat.isDigit_of_mem_toDigits (by decide) (by decide) h
  rw [Char.isDigit, Bool.and_eq_true, decide_eq_true_eq, decide_eq_true_eq] at hc
  rw [isDigit, Bool.and_eq_true, decide_eq_true_eq, decide_eq_true_eq]
  exact hc

theorem digitsValue_decimalDigits (n : Nat) : digitsValue (decimalDigits n) = n :=
  Nat.ofDigitChars_ten_toDigits

theorem toLower_of_isDigit {c : Char} (h : isDigit c = true) : c.toLower = c := by
  rw [isDigit, Bool.and_eq_true, decide_eq_true_eq, decide_eq_true_eq] at h
  have hhi : c.val ≤ 57 := h.2
  unfold Char.toLower
  rw [dif_neg]
  rintro ⟨hlo, -⟩
  exact absurd (UInt32.le_trans hlo hhi) (by decide)

theorem readSpecial?_digit {c : Char} (h : isDigit c = true) (cs : List Char) :
    readSpecial? (c :: cs) = none := by
  have hne : ∀ {s : String} {d : Char} {ds : List Char}, s.toList = d :: ds → isDigit d = false →
      (String.ofList (c :: cs.map Char.toLower) == s) = false := by
    intro s d ds hs hd
    rw [beq_eq_false_iff_ne]
    rintro rfl
    rw [String.toList_ofList] at hs
    rw [← (List.cons.inj hs).1, h] at hd
    cases hd
  unfold readSpecial?
  rw [List.map_cons, toLower_of_isDigit h]
  dsimp only
  rw [hne (s := "inf") rfl rfl, hne (s := "infinity") rfl rfl, hne (s := "nan") rfl rfl]
  rfl

theorem readSign_digit {c : Char} (h : isDigit c = true) (cs : List Char) :
    readSign (c :: cs) = (false, c :: cs) := by
  unfold readSign
  split
  · next heq => cases heq; cases h
  · next heq => cases heq; cases h
  · rfl

theorem exists_nearestFloat {c : Char} (hc : isDigit c = true) {cs : List Char} {x : Float}
    (h : readFloat? (c :: cs) = some x) : ∃ m e, x = nearestFloat m e := by
  rw [readFloat?, readSign_digit hc] at h
  dsimp only at h
  rw [readSpecial?_digit hc] at h
  obtain ⟨n, -, rfl⟩ := Option.map_eq_some_iff.1 h
  exact ⟨n.mant, n.exp, if_neg Bool.false_ne_true⟩

theorem readFloat?_digits {ds : List Char} (hne : ds ≠ []) (hds : ∀ c ∈ ds, isDigit c = true) :
    readFloat? ds = some (nearestFloat (digitsValue ds) 0) := by
  obtain ⟨c, cs, rfl⟩ := List.exists_cons_of_ne_nil hne
  have hc := hds c (List.mem_cons_self ..)
  have hnumeral : readNumeral? (c :: cs) = some ⟨digitsValue (c :: cs), 0⟩ := by
    have htake : (c :: cs).takeWhile isDigit = c :: cs := List.takeWhile_eq_self_iff.2 hds
    have hdrop : (c :: cs).dropWhile isDigit = [] := List.dropWhile_eq_nil_iff.2 hds
    simp [readNumeral?, htake, hdrop, readExponent?]
  simp only [readFloat?, readSign_digit hc, readSpecial?_digit hc, hnumeral]
  rfl

theorem nearestFloat_zero : nearestFloat 0 0 = Float.ofNat 0 :=
  eq_of_decode rfl (by decide)

theorem nearestFloat_natCast {n : Nat} (h : n < 2 ^ 53) : nearestFloat n 0 = Float.ofNat n := by
  by_cases h0 : n = 0
  · rw [h0, nearestFloat_zero]
  · have hlen : (Nat.toDigits 10 n).length ≤ 16 :=
      (Nat.length_toDigits_le_iff (by decide) (by decide)).2 (by omega)
    unfold nearestFloat
    rw [if_neg (by simpa using h0), if_neg (by omega), if_neg (by omega), if_pos (Int.le_refl 0)]
    rfl

theorem readFloat?_decimalDigits {n : Nat} (h : n < 2 ^ 53) :
    readFloat? (decimalDigits n) = some (Float.ofNat n) := by
  have hne : decimalDigits n ≠ [] := Nat.toDigits_ne_nil
  rw [readFloat?_digits hne fun _ hc => isDigit_of_mem_decimalDigits hc, digitsValue_decimalDigits,
    nearestFloat_natCast h]

end Stencil
