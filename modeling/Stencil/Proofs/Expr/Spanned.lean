import Stencil.Proofs.Expr.Lexeme
import Stencil.Proofs.Template.Nesting

/-! # Where tokens stand

The span of a token covers the text it was read from, in bytes; so each token of a text is what is
read at its start, and the tokens behind it are those of what it leaves. -/

namespace Stencil.Expr

/-! ## Widths -/

theorem width_eq_length {w : List Char} (h : ∀ c ∈ w, c.utf8Size = 1) :
    Text.width w = w.length := by
  induction w with
  | nil => rfl
  | cons c w ih =>
    obtain ⟨hc, hw⟩ := List.forall_mem_cons.1 h
    rw [Text.width, hc, ih hw, List.length_cons, Nat.add_comm]

theorem utf8Size_of_isDigit {c : Char} (h : isDigit c = true) : c.utf8Size = 1 := by
  rw [isDigit, Bool.and_eq_true, decide_eq_true_eq, decide_eq_true_eq] at h
  have hhi : c.toNat ≤ 0x39 := h.2
  refine Char.utf8Size_eq_one_iff.2 (UInt32.le_iff_toNat_le.2 (Nat.le_trans hhi ?_))
  decide

theorem width_digits (cs : List Char) :
    Text.width (cs.takeWhile isDigit) = (cs.takeWhile isDigit).length :=
  width_eq_length fun _ hc => utf8Size_of_isDigit (List.mem_takeWhile_imp hc)

theorem width_fraction (cs : List Char) :
    Text.width (splitFraction cs).1 = (splitFraction cs).1.length := by
  unfold splitFraction
  split
  · next r =>
    simp only [Text.width, width_digits, List.length_cons]
    exact Nat.add_comm ..
  · rfl

theorem width_sign (cs : List Char) : Text.width (splitSign cs).1 = (splitSign cs).1.length := by
  unfold splitSign
  split
  · next c r =>
    split
    · next hc =>
      rw [Bool.or_eq_true, beq_iff_eq, beq_iff_eq] at hc
      rcases hc with rfl | rfl <;> rfl
    · rfl
  · rfl

theorem width_exponent (cs : List Char) :
    Text.width (splitExponent cs).1 = (splitExponent cs).1.length := by
  unfold splitExponent
  split
  · next c r =>
    split
    · next hc =>
      have hsize : c.utf8Size = 1 := by
        rw [Bool.or_eq_true, beq_iff_eq, beq_iff_eq] at hc
        rcases hc with rfl | rfl <;> rfl
      simp only [List.cons_append, Text.width, Text.width_append, hsize, width_sign, width_digits,
        List.length_cons, List.length_append]
      exact Nat.add_comm ..
    · rfl
  · rfl

theorem width_number (cs : List Char) :
    Text.width (splitNumber cs).1 = (splitNumber cs).1.length := by
  simp only [splitNumber, Text.width_append, List.length_append, width_digits, width_fraction,
    width_exponent]

theorem readText_width {quote : Char} {start pos : Nat} {acc cs : List Char} {l : Lexeme}
    (hq : quote = '"' ∨ quote = '\'') (h : readText quote start pos acc cs = .ok l) :
    ∃ w, cs = w ++ l.rest ∧ l.stop = pos + Text.width w := by
  fun_induction readText quote start pos acc cs with
  | case2 pos acc a b c d cs stop ch _ ih =>
    obtain ⟨w, rfl, hstop⟩ := ih h
    refine ⟨'\\' :: 'u' :: ([a, b, c, d] ++ w), rfl, ?_⟩
    have hsize : Text.width ('\\' :: 'u' :: ([a, b, c, d] ++ w)) =
        2 + (Text.width [a, b, c, d] + Text.width w) := by
      rw [Text.width, Text.width, Text.width_append, ← Nat.add_assoc]
      rfl
    rw [hstop, hsize]
    simp only [stop]
    omega
  | case6 pos acc cs ih =>
    obtain ⟨w, rfl, hstop⟩ := ih h
    refine ⟨'\\' :: '\n' :: w, rfl, ?_⟩
    rw [hstop, Text.width, Text.width, show '\\'.utf8Size = 1 from rfl,
      show '\n'.utf8Size = 1 from rfl]
    omega
  | case7 pos acc c cs _ _ _ ih =>
    obtain ⟨w, rfl, hstop⟩ := ih h
    refine ⟨'\\' :: c :: w, rfl, ?_⟩
    rw [hstop, Text.width, Text.width, show '\\'.utf8Size = 1 from rfl]
    omega
  | case9 pos acc c cs _ _ _ _ _ hc =>
    obtain rfl := Except.ok.inj h
    refine ⟨[c], rfl, ?_⟩
    obtain rfl := beq_iff_eq.1 hc
    rcases hq with rfl | rfl <;> rfl
  | case11 pos acc c cs _ _ _ _ _ _ _ ih =>
    obtain ⟨w, rfl, hstop⟩ := ih h
    refine ⟨c :: w, rfl, ?_⟩
    rw [hstop, Text.width]
    omega
  | _ => simp at h

theorem readToken_width {pos : Nat} {c : Char} {cs : List Char} {l : Lexeme}
    (h : readToken pos (c :: cs) = .ok l) :
    ∃ w, c :: cs = w ++ l.rest ∧ l.stop = pos + Text.width w := by
  rw [readToken] at h
  split at h
  · simp only [readNumber] at h
    split at h
    · obtain rfl := Except.ok.inj h
      exact ⟨_, (splitNumber_isPart (c :: cs)).1, by rw [width_number]⟩
    · cases h
  · split at h
    · obtain rfl := Except.ok.inj h
      exact ⟨_, List.takeWhile_append_dropWhile.symm, rfl⟩
    · split at h
      · next hq =>
        rw [Bool.or_eq_true, beq_iff_eq, beq_iff_eq] at hq
        obtain ⟨w, rfl, hstop⟩ := readText_width hq h
        refine ⟨c :: w, rfl, ?_⟩
        have hsize : c.utf8Size = 1 := by rcases hq with rfl | rfl <;> rfl
        rw [hstop, Text.width, hsize, Nat.add_assoc]
      · obtain ⟨g, hg, -, hl⟩ := readSign_longest h
        exact ⟨_, hg, by rw [hl]⟩

/-! ## Tokens of a text -/

theorem tokensFrom_eq_cons {pos : Nat} {cs : List Char} {t : Token} {ts : List Token}
    (h : (tokensFrom pos cs).list = t :: ts) :
    ∃ u c r l, cs = u ++ c :: r ∧ (∀ x ∈ u, Text.isBlank x = true) ∧ Text.isBlank c = false ∧
      readToken (pos + Text.width u) (c :: r) = .ok l ∧
      t = ⟨l.kind, ⟨pos + Text.width u, l.stop⟩⟩ ∧ ts = (tokensFrom l.stop l.rest).list := by
  cases hd : cs.dropWhile Text.isBlank with
  | nil =>
    rw [tokensFrom_blank hd] at h
    cases h
  | cons c r =>
    cases hl : readToken (startOf pos cs) (c :: r) with
    | error e =>
      rw [tokensFrom_error hd hl] at h
      cases h
    | ok l =>
      rw [tokensFrom_token hd hl] at h
      obtain ⟨rfl, rfl⟩ := List.cons.inj h
      refine ⟨cs.takeWhile Text.isBlank, c, r, l, ?_, fun x hx => List.mem_takeWhile_imp hx, ?_,
        hl, rfl, rfl⟩
      · rw [← hd, List.takeWhile_append_dropWhile]
      · exact stops_dropWhile Text.isBlank cs c (by rw [hd]; rfl)

theorem tokensFrom_cons {pos : Nat} {c : Char} {r : List Char} {l : Lexeme}
    (hc : Text.isBlank c = false) (hl : readToken pos (c :: r) = .ok l) :
    (tokensFrom pos (c :: r)).list = ⟨l.kind, ⟨pos, l.stop⟩⟩ ::
    (tokensFrom l.stop l.rest).list := by
  have hstops : Stops Text.isBlank (c :: r) := stops_cons hc
  have hstart : startOf pos (c :: r) = pos := by
    rw [startOf, hstops.takeWhile]
    rfl
  rw [tokensFrom_token hstops.dropWhile (hstart ▸ hl), hstart]

theorem read_of_tokensFrom_cons {pos : Nat} {c : Char} {r : List Char} {t : Token} {ts : List Token}
    (hc : Text.isBlank c = false) (h : (tokensFrom pos (c :: r)).list = t :: ts) :
    ∃ l, readToken pos (c :: r) = .ok l ∧ t = ⟨l.kind, ⟨pos, l.stop⟩⟩ ∧
      ts = (tokensFrom l.stop l.rest).list := by
  obtain ⟨u, c', r', l, hcs, hu, -, hl, ht, hts⟩ := tokensFrom_eq_cons h
  cases u with
  | nil =>
    rw [hcs]
    exact ⟨l, hl, ht, hts⟩
  | cons x u =>
    obtain ⟨rfl, -⟩ := List.cons.inj hcs
    rw [hu c (List.mem_cons_self ..)] at hc
    cases hc

def ReadsFirst (v : List Char) (t : Token) (us : List Token) : Prop :=
  ∃ c r l, v = c :: r ∧ Text.isBlank c = false ∧ readToken t.span.start v = .ok l ∧
    t = ⟨l.kind, ⟨t.span.start, l.stop⟩⟩ ∧ us = (tokensFrom l.stop l.rest).list

/-- Each token is read at the byte where it starts. -/
theorem readsFirst_of_split {pos : Nat} {cs : List Char} {ts us : List Token} {t : Token}
    (h : (tokensFrom pos cs).list = ts ++ t :: us) :
    ∃ u v, cs = u ++ v ∧ t.span.start = pos + Text.width u ∧ ReadsFirst v t us := by
  induction ts generalizing pos cs with
  | nil =>
    obtain ⟨u, c, r, l, rfl, -, hc, hl, rfl, rfl⟩ := tokensFrom_eq_cons h
    exact ⟨u, c :: r, rfl, rfl, c, r, l, rfl, hc, hl, rfl, rfl⟩
  | cons x ts ih =>
    obtain ⟨u, c, r, l, rfl, -, -, hl, -, hts⟩ := tokensFrom_eq_cons h
    obtain ⟨w, hw, hstop⟩ := readToken_width hl
    obtain ⟨u', v, hrest, hstart, hread⟩ := ih hts.symm
    refine ⟨u ++ (w ++ u'), v, ?_, ?_, hread⟩
    · rw [hw, hrest, List.append_assoc, List.append_assoc]
    · rw [hstart, hstop, Text.width_append, Text.width_append]
      omega

def textAt (s : String) (t : Token) : List Char :=
  Text.dropBytes t.span.start s.toList

theorem readsFirst_textAt {s : String} {ts us : List Token} {t : Token}
    (h : (tokenize s).list = ts ++ t :: us) : ReadsFirst (textAt s t) t us := by
  obtain ⟨u, v, hs, hstart, hread⟩ := readsFirst_of_split h
  rw [Nat.zero_add] at hstart
  rw [textAt, hs, hstart, dropBytes_width]
  exact hread

end Stencil.Expr
