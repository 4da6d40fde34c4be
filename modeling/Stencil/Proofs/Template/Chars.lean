import Mathlib.Data.List.Find
import Stencil.Proofs.Template.Print
import Stencil.Proofs.Text.Run

/-! # Classes of characters

What the classes of characters that lines are made of have in common, and what keeps them apart. -/

namespace Stencil.Template

theorem toNat_between {c : Char} {m n : UInt32} (h : m ≤ c.val ∧ c.val ≤ n) :
    m.toNat ≤ c.toNat ∧ c.toNat ≤ n.toNat :=
  ⟨UInt32.le_iff_toNat_le.1 h.1, UInt32.le_iff_toNat_le.1 h.2⟩

theorem le_and_le_of_decide {m n x : UInt32} (h : (decide (m ≤ x) && decide (x ≤ n)) = true) :
    m ≤ x ∧ x ≤ n := by
  simpa using h

theorem toNat_of_isWordChar {c : Char} (h : isWordChar c = true) :
    48 ≤ c.toNat ∧ c.toNat ≤ 57 ∨ 65 ≤ c.toNat ∧ c.toNat ≤ 90 ∨ 97 ≤ c.toNat ∧ c.toNat ≤ 122 ∨
      c.toNat = 95 := by
  replace h : (((c.isUpper || c.isLower) || c.isDigit) || c == '_') = true := h
  simp only [Bool.or_eq_true, beq_iff_eq] at h
  rcases h with ((hupper | hlower) | hdigit) | rfl
  · exact .inr (.inl (toNat_between (of_decide_eq_true hupper)))
  · exact .inr (.inr (.inl (toNat_between (le_and_le_of_decide hlower))))
  · exact .inl (toNat_between (le_and_le_of_decide hdigit))
  · exact .inr (.inr (.inr rfl))

theorem toNat_of_isNameChar {c : Char} (h : isNameChar c = true) :
    48 ≤ c.toNat ∧ c.toNat ≤ 58 ∨ 65 ≤ c.toNat ∧ c.toNat ≤ 90 ∨ 97 ≤ c.toNat ∧ c.toNat ≤ 122 ∨
      c.toNat = 95 ∨ c.toNat = 45 := by
  simp only [isNameChar, Bool.or_eq_true, beq_iff_eq] at h
  rcases h with (h | rfl) | rfl
  · have := toNat_of_isWordChar h
    omega
  · decide
  · decide

theorem not_blank_of_toNat {c : Char} (h : 33 ≤ c.toNat ∧ c.toNat < 128) :
    Text.isBlank c = false := by
  unfold Text.isBlank
  simp only [Bool.or_eq_false_iff, Bool.and_eq_false_iff, beq_eq_false_iff_ne,
    decide_eq_false_iff_not]
  omega

theorem not_blank_of_isNameChar {c : Char} (h : isNameChar c = true) :
    Text.isBlank c = false := by
  have := toNat_of_isNameChar h
  exact not_blank_of_toNat (by omega)

theorem isNameChar_of_isWordChar {c : Char} (h : isWordChar c = true) : isNameChar c = true := by
  simp [isNameChar, h]

theorem isNameChar_of_isClassChar {c : Char} (h : isClassChar c = true) :
    isNameChar c = true := by
  simp only [isClassChar, Bool.or_eq_true] at h
  simp only [isNameChar, Bool.or_eq_true]
  exact .inl h

theorem not_indent_of_not_blank {c : Char} (h : Text.isBlank c = false) :
    Text.isIndent c = false := by
  by_cases hc : c = ' '
  · subst hc
    exact absurd h (by decide)
  · by_cases ht : c = '\t'
    · subst ht
      exact absurd h (by decide)
    · simp [Text.isIndent, hc, ht]

/-- A blank may be a line end, so what is not blank is none. -/
theorem ne_newline_of_not_blank {c : Char} (h : Text.isBlank c = false) :
    c ≠ '\n' ∧ c ≠ '\r' := by
  constructor
  · rintro rfl
    exact absurd h (by decide)
  · rintro rfl
    exact absurd h (by decide)

def startsLine (c : Char) : Bool :=
  isWordChar c || c == '/' || c == '|'

theorem toNat_of_startsLine {c : Char} (h : startsLine c = true) :
    33 ≤ c.toNat ∧ c.toNat < 128 := by
  simp only [startsLine, Bool.or_eq_true, beq_iff_eq] at h
  rcases h with (h | rfl) | rfl
  · have := toNat_of_isWordChar h
    omega
  · decide
  · decide

theorem not_blank_of_startsLine {c : Char} (h : startsLine c = true) : Text.isBlank c = false :=
  not_blank_of_toNat (toNat_of_startsLine h)

/-! ## Words of directives -/

theorem dropStart?_append (word rest : List Char) :
    Text.dropStart? (word ++ rest) word = some rest := by
  induction word with
  | nil => cases rest <;> rfl
  | cons c word ih =>
    rw [List.cons_append, Text.dropStart?, if_pos (beq_self_eq_true c)]
    exact ih

theorem eq_append_of_dropStart? {cs word rest : List Char}
    (h : Text.dropStart? cs word = some rest) : cs = word ++ rest := by
  induction word generalizing cs with
  | nil =>
    cases cs with
    | nil => exact Option.some.inj h
    | cons c cs => exact Option.some.inj h
  | cons d word ih =>
    cases cs with
    | nil => cases h
    | cons c cs =>
      rw [Text.dropStart?] at h
      split at h
      · next hc => rw [ih h, beq_iff_eq.1 hc]; rfl
      · cases h

/-- A text starts with a word if that is all of its first run of name characters. -/
theorem startsWord_iff {c : Cursor} {word : String} (run : List Char) {rest : List Char}
    (hc : c.rest = run ++ rest) (hrun : ∀ x ∈ run, isNameChar x = true)
    (hstop : Stops isNameChar rest) (hword : ∀ x ∈ word.toList, isNameChar x = true) :
    startsWord c word = true ↔ word.toList = run := by
  constructor
  · intro h
    unfold startsWord at h
    split at h
    · next x more hd =>
      have hx : isNameChar x = false := by simpa using h
      have hcs := eq_append_of_dropStart? hd
      have htake : c.rest.takeWhile isNameChar = word.toList := by
        rw [hcs]
        exact takeWhile_run hword (stops_cons hx)
      rw [← htake, hc, takeWhile_run hrun hstop]
    · next hd =>
      have hcs := eq_append_of_dropStart? hd
      have htake : c.rest.takeWhile isNameChar = word.toList := by
        rw [hcs]
        exact takeWhile_run hword stops_nil
      rw [← htake, hc, takeWhile_run hrun hstop]
    · cases h
  · intro h
    unfold startsWord
    rw [hc, ← h, dropStart?_append]
    cases rest with
    | nil => rfl
    | cons x rest => simp [hstop x rfl]

theorem directives_names : ∀ d ∈ directives, ∀ x ∈ d.1.toList, isNameChar x = true := by
  simp only [directives, List.mem_cons, List.not_mem_nil, or_false, forall_eq_or_imp, forall_eq]
  decide

theorem find?_directives_none {c : Cursor} (run : List Char) {rest : List Char}
    (hc : c.rest = run ++ rest) (hrun : ∀ x ∈ run, isNameChar x = true)
    (hstop : Stops isNameChar rest)
    (h : ∀ d ∈ directives, d.1.toList ≠ run) :
    directives.find? (fun d => startsWord c d.1) = none := by
  rw [List.find?_eq_none]
  intro d hd hs
  exact h d hd ((startsWord_iff run hc hrun hstop (directives_names d hd)).1 hs)

theorem find?_directives_some {c : Cursor} {word : String} {rest : List Char}
    (hc : c.rest = word.toList ++ rest) (hstop : Stops isNameChar rest)
    {d : String × (Cursor → Result (TokenKind × Cursor))}
    (hd : directives.find? (fun d => d.1 == word) = some d) :
    directives.find? (fun d => startsWord c d.1) = some d := by
  have hword : ∀ x ∈ word.toList, isNameChar x = true := by
    have hm := List.mem_of_find?_eq_some hd
    have he : d.1 = word := by simpa using List.find?_some hd
    rw [← he]
    exact directives_names d hm
  rw [← hd]
  refine List.find?_congr fun e he => ?_
  have hiff := startsWord_iff _ hc hword hstop (directives_names e he)
  rw [Bool.eq_iff_iff, hiff, beq_iff_eq]
  exact String.toList_inj

end Stencil.Template
