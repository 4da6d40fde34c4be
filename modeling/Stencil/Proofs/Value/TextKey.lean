import Stencil.Proofs.Number.Digits
import Stencil.Value.Lookup

/-! # Texts as keys of arrays

An array is enumerated by the canonical numerals of its positions. It is entered by more texts than
these: a plus sign and zeros in front of a numeral do not count. -/

namespace Stencil

/-- A text that reads as the number `i`: its numeral, maybe with zeros and a plus sign in front. -/
def IsNumeralOf (k : String) (i : Nat) : Prop :=
  ∃ sign zeros : String, (sign = "" ∨ sign = "+") ∧ (∀ c ∈ zeros.toList, c = '0') ∧
    k = sign ++ zeros ++ toString i

theorem toList_toString (n : Nat) : (toString n).toList = decimalDigits n := by
  rw [Nat.toString_eq_ofList_toDigits, String.toList_ofList, decimalDigits]

theorem isNumeralOf_toString (i : Nat) : IsNumeralOf (toString i) i :=
  ⟨"", "", .inl rfl, nofun, by simp⟩

theorem isNumeralOf_iff {k : String} {i : Nat} :
    IsNumeralOf k i ↔ ∃ zeros, k.toList = List.replicate zeros '0' ++ decimalDigits i ∨
      k.toList = '+' :: (List.replicate zeros '0' ++ decimalDigits i) := by
  constructor
  · rintro ⟨sign, zeros, hsign, hzeros, rfl⟩
    have hrun := List.eq_replicate_of_mem hzeros
    refine ⟨zeros.toList.length, ?_⟩
    simp only [String.toList_append, toList_toString, ← hrun]
    rcases hsign with rfl | rfl
    · exact .inl rfl
    · exact .inr rfl
  · rintro ⟨zeros, hk⟩
    have hmem : ∀ c ∈ (String.ofList (List.replicate zeros '0')).toList, c = '0' := fun c hc =>
      List.eq_of_mem_replicate (String.toList_ofList ▸ hc)
    rcases hk with hk | hk
    · refine ⟨"", _, .inl rfl, hmem, String.toList_injective ?_⟩
      simp [hk, decimalDigits]
    · refine ⟨"+", _, .inr rfl, hmem, String.toList_injective ?_⟩
      simp [hk, decimalDigits]

def readDigits? (ds : List Char) : Option Nat :=
  if ds.isEmpty || !ds.all isDigit then none
  else if digitsValue ds < Nat.pow 2 64 then some (digitsValue ds)
  else none

theorem readDigits?_eq_some {ds : List Char} {i : Nat} : readDigits? ds = some i ↔
    (∃ zeros, ds = List.replicate zeros '0' ++ decimalDigits i) ∧ i < 2 ^ 64 := by
  rw [← digits_iff, readDigits?]
  split
  · next h =>
    refine iff_of_false nofun ?_
    rintro ⟨⟨hne, hds, -⟩, -⟩
    simp [hne, List.all_eq_true.2 hds] at h
  · next h =>
    simp only [Bool.or_eq_true, List.isEmpty_iff, Bool.not_eq_true', not_or,
      Bool.not_eq_false, List.all_eq_true] at h
    rw [Option.ite_none_right_eq_some, Option.some.injEq]
    constructor
    · rintro ⟨hlt, rfl⟩
      exact ⟨⟨h.1, h.2, rfl⟩, hlt⟩
    · rintro ⟨⟨-, -, rfl⟩, hlt⟩
      exact ⟨hlt, rfl⟩

theorem readIndex?_eq_some {k : String} {i : Nat} :
    readIndex? k.toList = some i ↔ IsNumeralOf k i ∧ i < 2 ^ 64 := by
  have hplus : ∀ zeros r, List.replicate zeros '0' ++ decimalDigits i ≠ '+' :: r := by
    intro zeros r heq
    obtain ⟨-, hds, -⟩ := digits_iff.2 ⟨zeros, heq.symm⟩
    exact absurd (hds '+' (List.mem_cons_self ..)) (by decide)
  rw [isNumeralOf_iff]
  unfold readIndex?
  split
  · next r heq =>
    change readDigits? r = some i ↔ _
    rw [readDigits?_eq_some, heq]
    simp only [(hplus _ _).symm, false_or, List.cons.injEq, true_and]
  · next hne =>
    change readDigits? k.toList = some i ↔ _
    rw [readDigits?_eq_some]
    have hsign : ∀ r, k.toList ≠ '+' :: r := fun r h => hne r h
    simp only [hsign, or_false]

theorem decimalDigits_canonical {c : Char} {cs : List Char} (h0 : ¬ (c = '0' ∧ cs ≠ []))
    (h : ∀ x ∈ c :: cs, isDigit x = true) : decimalDigits (digitsValue (c :: cs)) = c :: cs := by
  by_cases hc : c = '0'
  · obtain rfl : cs = [] := by
      by_contra hcs
      exact h0 ⟨hc, hcs⟩
    rw [hc]
    rfl
  · exact decimalDigits_digitsValue hc h

theorem arrayIndex?_eq_some {k : String} {i : Nat} :
    arrayIndex? k = some i ↔ k = toString i ∧ i < 2 ^ 32 - 1 := by
  rw [← String.toList_inj, toList_toString]
  unfold arrayIndex?
  split
  · next hnil =>
    rw [hnil]
    exact iff_of_false (Option.some_ne_none i).symm fun h => Nat.toDigits_ne_nil h.1.symm
  · next c cs hcons =>
    simp only [hcons, Bool.and_eq_true, beq_iff_eq, Bool.not_eq_true', List.isEmpty_iff,
      ← Bool.not_eq_true, List.all_eq_true]
    split
    · next h =>
      obtain ⟨rfl, hcs⟩ := h
      exact iff_of_false (Option.some_ne_none i).symm fun h =>
        decimalDigits_ne_zero_cons hcs h.1.symm
    · next h0 =>
      split
      · next hdigits =>
        exact iff_of_false (Option.some_ne_none i).symm fun h =>
          hdigits fun x hx => isDigit_of_mem_decimalDigits (h.1 ▸ hx)
      · next hdigits =>
        have hcanonical := decimalDigits_canonical h0 (Classical.not_not.1 hdigits)
        rw [Option.ite_none_right_eq_some, Option.some.injEq]
        constructor
        · rintro ⟨hlt, rfl⟩
          exact ⟨hcanonical.symm, hlt⟩
        · rintro ⟨heq, hlt⟩
          obtain rfl : digitsValue (c :: cs) = i := by rw [heq, digitsValue_decimalDigits]
          exact ⟨hlt, rfl⟩

/-! ## Looking up -/

/-- What a text selects in an array that only canonical numerals enter: an item, the length, or
null. -/
def Value.selected (items : List Value) (k : String) : Value :=
  match arrayIndex? k with
  | some i => items.getD i .null
  | none => if k = "length" then .ofNat items.length else .null

def IsLooseNumeralOf (k : String) (i : Nat) : Prop :=
  IsNumeralOf k i ∧ i < 2 ^ 64 ∧ arrayIndex? k = none

theorem Value.property_read (items : List Value) {k : String} {i : Nat}
    (h : readIndex? k.toList = some i) :
    (Value.arr items).property (.str k) = items.getD i .null := by
  have hk : k ≠ "length" := by
    rintro rfl
    cases h
  rw [property, child?, h, Option.bind_some]
  cases hi : items[i]? with
  | none => simp [computed, hk, hi]
  | some v => simp [hi]

/-- **Texts as keys of arrays.** A loose numeral selects the item at its number as well; every other
text selects what it would if only array indices entered an array. -/
theorem Value.property_textKey (items : List Value) (k : String) :
    ((∀ i, ¬ IsLooseNumeralOf k i) →
      (Value.arr items).property (.str k) = Value.selected items k) ∧
    ∀ i, IsLooseNumeralOf k i → (Value.arr items).property (.str k) = items.getD i .null := by
  refine ⟨fun hk => ?_, fun i h => property_read items (readIndex?_eq_some.2 ⟨h.1, h.2.1⟩)⟩
  rw [selected]
  cases ha : arrayIndex? k with
  | some i =>
    obtain ⟨rfl, hi⟩ := arrayIndex?_eq_some.1 ha
    exact property_read items (readIndex?_eq_some.2 ⟨isNumeralOf_toString i, by omega⟩)
  | none =>
    have hread : readIndex? k.toList = none := by
      by_contra hne
      obtain ⟨i, hi⟩ := Option.ne_none_iff_exists'.1 hne
      obtain ⟨hnumeral, hlt⟩ := readIndex?_eq_some.1 hi
      exact hk i ⟨hnumeral, hlt, ha⟩
    rw [property, child?, hread]
    simp [computed]

/-- The same item by its index, and by a numeral with a sign and a zero in front. -/
theorem Value.property_textKey_signed :
    let items := [Value.str "a", .str "b"]
    (∀ i, ¬ IsLooseNumeralOf "1" i) ∧ IsLooseNumeralOf "+01" 1 ∧
      (Value.arr items).property (.str "1") = .str "b" ∧
      (Value.arr items).property (.str "+01") = .str "b" := by
  intro items
  have hindex : ∀ i, ¬ IsLooseNumeralOf "1" i := fun i h => by
    have hone : arrayIndex? "1" = some 1 := by decide
    cases hone.symm.trans h.2.2
  have hloose : IsLooseNumeralOf "+01" 1 :=
    ⟨⟨"+", "0", .inr rfl, by simp, by decide⟩, by omega, by decide⟩
  exact ⟨hindex, hloose, (property_textKey items "1").1 hindex,
    (property_textKey items "+01").2 1 hloose⟩

/-- The text `01` is no array index and no `length`, but selects an item. -/
theorem Value.padded_key_selects :
    arrayIndex? "01" = none ∧ "01" ≠ "length" ∧
      (Value.arr [.str "a", .str "b"]).property (.str "01") = .str "b" ∧
      (Value.arr [.str "a", .str "b"]).property (.str "01") ≠ .null := by
  have hread : readIndex? "01".toList = some 1 := by decide
  have hitem := property_read [.str "a", .str "b"] hread
  exact ⟨by decide, by decide, hitem, hitem ▸ nofun⟩

end Stencil
