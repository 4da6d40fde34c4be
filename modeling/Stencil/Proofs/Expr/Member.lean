import Stencil.Proofs.Expr.Within

/-! # Members

A member is read off the value in front of it, and null has none. It makes no difference whether a
dot or a question mark and a dot asks for it. -/

namespace Stencil

namespace Expr

theorem ReadAs.dotted {u : List Char} {ks : List Kind} (h : ReadAs u ks) {sign : Sign}
    (hsign : sign = .dot ∨ sign = .questionDot) :
    ReadAs (sign.text.toList ++ u) (.sign sign :: ks) := by
  rcases hsign with rfl | rfl
  · exact h.single (by decide)
  · exact h.cons (by decide) (readToken_sign 0 .questionDot (r := u) nofun)

theorem parse_member {s n : String} {e : Expr} (h : parse s = .ok e) (hn : IsWord n) {sign : Sign}
    (hsign : sign = .dot ∨ sign = .questionDot) :
    ∃ e', parse ("(" ++ s ++ ")" ++ sign.text ++ n) = .ok e' ∧
      e'.bare = .member ⟨0, 0⟩ e.bare ⟨n, ⟨0, 0⟩⟩ := by
  obtain ⟨own, hread, hstands⟩ := exists_stands_of_parse h
  have hword : ReadAs n.toList [wordKind n] := spelled_wordKind n ▸ readAs_legible (legible_word hn)
  have htext : ReadAs ("(" ++ s ++ ")" ++ sign.text ++ n).toList
      (.sign .lparen :: (own ++ Kind.sign .rparen :: [.sign sign, wordKind n])) := by
    have hchars : ("(" ++ s ++ ")" ++ sign.text ++ n).toList =
        '(' :: (s.toList ++ ')' :: (sign.text.toList ++ n.toList)) := by simp
    rw [hchars]
    exact hread.grouped (hword.dotted hsign)
  refine parse_of_readAs htext fun stop ts hts => ?_
  refine yields_parseExpr (hstands.operand hts) fun left last rest hleft hrest => ?_
  obtain ⟨span, r, rfl, hr⟩ := kindsOf_eq_cons hrest
  have hproperty : Yields (property (.eof stop) r) (·.bare = Ident.bare ⟨n, ⟨0, 0⟩⟩) [] :=
    yields_property hr
  have hsuffix : Yields (parseSuffix (.eof stop) left ⟨.sign sign, span⟩ r)
      (·.bare = .member ⟨0, 0⟩ e.bare ⟨n, ⟨0, 0⟩⟩) [] := by
    rw [parseSuffix]
    rcases hsign with rfl | rfl
    all_goals
      refine hproperty.bind fun p hp hrest => ⟨_, rfl, ?_, hrest⟩
      simp only [Expr.bare, hleft, hp]
      rfl
  have hlevel : 0 < sign.level := by rcases hsign with rfl | rfl <;> decide
  exact yields_climb hlevel hsuffix fun e' last rest he' hrest =>
    yields_stop last he' hrest (Nat.le_refl 0)

end Expr

def Value.member (v : Value) (n : String) : Except EvalError Value :=
  if v.isNull then .error (.nullProperty n) else .ok (v.property (.str n))

theorem Operand.value_property (o : Operand) (key : Value) :
    (o.property key).value = o.value.property key := by
  rw [property, Value.property]
  cases o.value.child? key with
  | none => rfl
  | some found => rfl

theorem Operand.member_value (o : Operand) (n : String) :
    (o.member (.str n)).map (·.value) = o.value.member n := by
  rw [member, Value.member]
  split
  · rfl
  · rw [Except.map, value_property]

theorem evaluate_member {s n : String} (h : Expr.accepts s = true) (hn : Expr.IsWord n)
    (scope : Scope) {sign : Expr.Sign} (hsign : sign = .dot ∨ sign = .questionDot) :
    evaluate ("(" ++ s ++ ")" ++ sign.text ++ n) scope = evaluate s scope >>= (·.member n) := by
  obtain ⟨e, he⟩ := exists_ok h
  obtain ⟨e', he', hbare⟩ := Expr.parse_member he hn hsign
  have hmember : e'.eval scope = e.eval scope >>= (·.member (.str n)) := by
    rw [← Expr.eval_bare, hbare, Expr.eval, Expr.eval_bare]
  rw [evaluate, evaluate, he', he]
  simp only [hmember]
  cases e.eval scope with
  | error x => rfl
  | ok o => exact o.member_value n

/-- **Optional chaining is plain member access.** Behind an expression in parentheses `?.` gives
what `.` gives: the fault of the expression if it has one, else a fault if its value is null, else
the property of the value. -/
theorem evaluate_optional {e n : String} (h : Expr.accepts e = true) (hn : Expr.IsWord n)
    (scope : Scope) :
    evaluate ("(" ++ e ++ ")?." ++ n) scope = evaluate ("(" ++ e ++ ")." ++ n) scope ∧
      evaluate ("(" ++ e ++ ")?." ++ n) scope = (do
        let v ← evaluate e scope
        if v.isNull then .error (.nullProperty n) else .ok (v.property (.str n))) := by
  have hoptional : "(" ++ e ++ ")?." ++ n = "(" ++ e ++ ")" ++ Expr.Sign.questionDot.text ++ n := by
    rw [show ")?." = ")" ++ Expr.Sign.questionDot.text from rfl, ← String.append_assoc]
  have hplain : "(" ++ e ++ ")." ++ n = "(" ++ e ++ ")" ++ Expr.Sign.dot.text ++ n := by
    rw [show ")." = ")" ++ Expr.Sign.dot.text from rfl, ← String.append_assoc]
  rw [hoptional, hplain, evaluate_member h hn scope (.inl rfl),
    evaluate_member h hn scope (.inr rfl)]
  exact ⟨rfl, rfl⟩

theorem evaluate_eq_null {s : String} {scope : Scope}
    (h : (evaluate s scope).toOption.map Value.isNull = some true) :
    evaluate s scope = .ok .null := by
  cases hs : evaluate s scope with
  | error x =>
    rw [hs] at h
    cases h
  | ok v =>
    rw [hs] at h
    cases v with
    | null => rfl
    | _ => cases h

/-- A keyword as the name, and an expression that needs the parentheses. -/
theorem evaluate_optional_conditional :
    let e := "a ? b : c"
    let bound := (Value.obj [("a", .bool true), ("b", .obj [("if", .str "x")])]).scope
    let unbound : Scope := fun _ => none
    Expr.accepts e = true ∧ Expr.IsWord "if" ∧
      evaluate "(a ? b : c)?.if" bound = evaluate "(a ? b : c).if" bound ∧
      (evaluate "(a ? b : c)?.if" bound).isOk = true ∧
      evaluate "(a ? b : c)?.if" unbound = .error (.nullProperty "if") := by
  intro e bound unbound
  have he : Expr.accepts e = true := by decide +kernel
  have hn : Expr.IsWord "if" := (Expr.isWord_iff _).1 (by decide +kernel)
  have hnull : evaluate e unbound = .ok .null := evaluate_eq_null (by decide +kernel)
  refine ⟨he, hn, (evaluate_optional he hn bound).1, by decide +kernel, ?_⟩
  have hfault := (evaluate_optional he hn unbound).2
  rw [hnull] at hfault
  exact hfault

/-- The value is null, and its member a fault. -/
theorem optional_null_fails :
    let unbound : Scope := fun _ => none
    evaluate "null" unbound = .ok .null ∧
      evaluate "(null)?.a" unbound = .error (.nullProperty "a") ∧
      evaluate "(null)?.a" unbound ≠ .ok .null := by
  intro unbound
  have hnull : evaluate "null" unbound = .ok .null := evaluate_eq_null (by decide +kernel)
  have hn : Expr.IsWord "a" := (Expr.isWord_iff _).1 (by decide +kernel)
  have hfault : evaluate "(null)?.a" unbound = .error (.nullProperty "a") := by
    refine (evaluate_member (s := "null") (by decide +kernel) hn unbound (.inr rfl)).trans ?_
    rw [hnull]
    rfl
  exact ⟨hnull, hfault, hfault ▸ nofun⟩

end Stencil
