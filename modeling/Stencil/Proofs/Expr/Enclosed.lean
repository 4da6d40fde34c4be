import Stencil.Proofs.Expr.Negated

/-! # Expressions in parentheses

Parentheses around an expression hold it together, whatever stands around them, and change nothing
else. What is in parentheses, and what goes on from it with members and calls, is tight: no operator
next to it takes a part of it. -/

namespace Stencil.Expr

/-- The tokens `own` are read as `e`, whatever operators stand around them. -/
def Tight (own : List Kind) (e : Expr) : Prop :=
  ∀ stop, Reads stop Sign.dot.level Sign.dot.level own e

section

variable {own : List Kind} {e : Expr}

theorem Stands.enclosed (h : Stands own e) :
    Tight (.sign .lparen :: (own ++ [Kind.sign .rparen])) e :=
  fun _ => reads_operand fun ts ks _ ht => h.operand (by simpa using ht)

theorem Tight.stands (h : Tight own e) : Stands own e := by
  rintro stop _ ts ⟨k, r, rfl, hk, -⟩ ht
  exact (h stop).all ht (by decide) (Nat.le_trans (Nat.le_of_eq hk) (Nat.zero_le _))
    (Nat.le_of_eq hk)

theorem tight_name (n : String) : Tight [.name n] (.ref ⟨0, 0⟩ ⟨n, ⟨0, 0⟩⟩) :=
  fun _ => reads_operand fun ts ks _ ht => by
    obtain ⟨span, r, rfl, hr⟩ := kindsOf_eq_cons ht
    rw [parseOperand]
    exact ⟨_, rfl, rfl, hr⟩

theorem Tight.member (h : Tight own e) (n : String) :
    Tight (own ++ [Kind.sign .dot, wordKind n]) (.member ⟨0, 0⟩ e ⟨n, ⟨0, 0⟩⟩) := fun stop => by
  refine (h stop).suffix (Nat.le_refl _) (Nat.le_refl _) (Nat.le_refl _) ?_
  intro left span r ks hleft _ hr
  rw [parseSuffix]
  refine (yields_property (n := ⟨n, ⟨0, 0⟩⟩) hr).bind fun p hp hrest => ⟨_, rfl, ?_, hrest⟩
  simp only [Expr.bare, hleft, hp]

/-- A call with one argument, which may be any expression that does not start like the end of a
list. -/
theorem Tight.call (h : Tight own e) {arg : List Kind} {x : Expr} (hx : Stands arg x)
    (hstart : StartsItem arg) :
    Tight (own ++ Kind.sign .lparen :: (arg ++ [Kind.sign .rparen])) (.call ⟨0, 0⟩ e [x]) := by
  intro stop
  refine (h stop).suffix (Nat.le_refl _) (Nat.le_refl _) (Nat.le_refl _) ?_
  intro left span r ks hleft _ hr
  rw [List.append_assoc] at hr
  obtain ⟨k, own', rfl, hk⟩ := hstart
  obtain ⟨_, _, rfl, -⟩ := kindsOf_eq_cons hr
  rw [parseSuffix]
  have hlast : Yields (parseItems (.eof stop) .rparen _) (fun es => ∃ y, es = [y] ∧
    y.bare = x.bare) ks :=
    yields_lastItem (not_isSign_of_closes (.inl rfl) hk) (by decide) (hx ⟨_, _, rfl, rfl, rfl⟩ hr)
  refine hlast.bind fun p hp hrest => ⟨_, rfl, ?_, hrest⟩
  obtain ⟨y, hy, hbare⟩ := hp
  simp only [Expr.bare, bareExprs, hy, hleft, hbare]

theorem parse_of_tight {s : String} (hread : ReadAs s.toList own) (h : Tight own e) :
    ∃ y, parse s = .ok y ∧ y.bare = e.bare :=
  parse_of_readAs hread fun stop ts ht =>
    (h stop).all (by simpa using ht) (by decide) (Nat.zero_le _) (Nat.le_refl 0)

end

/-! ## Texts -/

section

variable {u v : List Char} {ks ls : List Kind}

theorem readAs_enclosed (h : ReadAs u ks) :
    ReadAs ('(' :: (u ++ [')'])) (.sign .lparen :: (ks ++ [Kind.sign .rparen])) :=
  h.grouped readAs_nil

theorem ReadAs.word {n : String} (hn : IsWord n) (hv : Stops Text.isIdChar v) (h : ReadAs v ks) :
    ReadAs (n.toList ++ v) (wordKind n :: ks) := by
  obtain ⟨c, cs, hcs, hc, hid⟩ := hn
  have hread := readToken_word 0 hc hid hv
  rw [← hcs, String.ofList_toList] at hread
  rw [hcs]
  exact h.cons (isBlank_of_isIdStart hc) hread

end

/-- **Parentheses are transparent**, and so are those of a negation. -/
theorem parse_enclosed {s : String} {x : Expr} (h : parse s = .ok x) :
    ∃ y, parse ("(" ++ s ++ ")") = .ok y ∧ y.bare = x.bare := by
  obtain ⟨own, hread, hstands⟩ := exists_stands_of_parse h
  have hchars : ("(" ++ s ++ ")").toList = '(' :: (s.toList ++ [')']) := by simp
  exact parse_of_tight (hchars ▸ readAs_enclosed hread) hstands.enclosed

theorem tokensFrom_single {c : Char} {s : Sign} (hc : (c, s) ∈ singleSigns) (pos : Nat)
    (cs : List Char) :
    ∃ next, kindsOf (tokensFrom pos (c :: cs)).list =
      .sign s :: kindsOf (tokensFrom next cs).list := by
  have hstops : Stops Text.isBlank (c :: cs) := stops_cons (isBlank_single hc)
  rw [tokensFrom_token hstops.dropWhile (readToken_single hc _)]
  exact ⟨_, rfl⟩

theorem ReadAs.tokensFrom_enclosed {u : List Char} {ks : List Kind} (h : ReadAs u ks) (pos : Nat)
    (v : List Char) :
    ∃ next, kindsOf (tokensFrom pos ('(' :: (u ++ ')' :: v))).list =
      .sign .lparen :: (ks ++ Kind.sign .rparen :: kindsOf (tokensFrom next v).list) := by
  have hapart : Apart (')' :: v) := fun c hc => Option.some.inj hc ▸ rfl
  obtain ⟨inner, hopen⟩ := tokensFrom_single (by decide : ('(', Sign.lparen) ∈ _) pos
    (u ++ ')' :: v)
  obtain ⟨hkinds, stop, hstop⟩ := h inner
  obtain ⟨close, hlist, -⟩ := tokensFrom_append hapart inner u hstop
  obtain ⟨next, hclose⟩ := tokensFrom_single (by decide : (')', Sign.rparen) ∈ _) close v
  refine ⟨next, ?_⟩
  rw [hopen, ← hclose, ← hkinds, kindsOf, hlist, List.map_append]
  rfl

/-- Wherever an expression stands in parentheses, they are read as an operand of its structure, and
what is behind them as if it began there. -/
theorem operand_enclosed {s : String} {x : Expr} (h : parse s = .ok x) (pos stop : Nat)
    (v : List Char) :
    ∃ next, Yields (parseOperand (.eof stop) (tokensFrom pos ('(' :: (s.toList ++ ')' :: v))).list)
      (·.bare = x.bare) (kindsOf (tokensFrom next v).list) := by
  obtain ⟨own, hread, hstands⟩ := exists_stands_of_parse h
  obtain ⟨next, htokens⟩ := hread.tokensFrom_enclosed pos v
  exact ⟨next, hstands.operand htokens⟩

end Stencil.Expr
