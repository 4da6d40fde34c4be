import Stencil.Proofs.Expr.Within

/-! # Negated expressions

The negation of an expression is an expression: the parentheses around it hold it together. -/

namespace Stencil.Expr

theorem parse_negated {s : String} {e : Expr} (h : parse s = .ok e) :
    ∃ e', parse ("!(" ++ s ++ ")") = .ok e' ∧ e'.bare = .unary ⟨0, 0⟩ .not e.bare := by
  obtain ⟨own, hread, hstands⟩ := exists_stands_of_parse h
  have htext : ReadAs ("!(" ++ s ++ ")").toList
      (.sign .bang :: .sign .lparen :: (own ++ [Kind.sign .rparen])) := by
    have hchars : ("!(" ++ s ++ ")").toList = '!' :: '(' :: (s.toList ++ [')']) := by simp
    rw [hchars]
    exact (hread.grouped readAs_nil).cons (by decide)
      (readToken_sign 0 .bang (r := '(' :: (s.toList ++ [')'])) (by simp [Sign.taken]))
  refine parse_of_readAs htext fun stop ts hts => ?_
  obtain ⟨span, r, rfl, hr⟩ := kindsOf_eq_cons hts
  refine yields_parseExpr (a := (·.bare = .unary ⟨0, 0⟩ .not e.bare)) ?_
    fun e' last rest he' hrest => yields_stop last he' hrest (Nat.le_refl 0)
  rw [parseOperand]
  dsimp only [Kind.literal?, Kind.unaryOp?]
  have hoperand : Yields (parseExpr (.eof stop) unaryLevel r) (·.bare = e.bare) [] :=
    yields_parseExpr (hstands.operand hr) fun e' last rest he' hrest =>
      yields_stop last he' hrest (Nat.zero_le _)
  refine hoperand.bind fun p hp hrest => ⟨_, rfl, ?_, hrest⟩
  simp only [Expr.bare, hp]

theorem accepts_negated {s : String} (h : accepts s = true) :
    accepts ("!(" ++ s ++ ")") = true := by
  obtain ⟨e, he⟩ := exists_ok h
  obtain ⟨e', he', -⟩ := parse_negated he
  rw [accepts, he']
  rfl

end Stencil.Expr
