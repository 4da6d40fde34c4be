import Stencil.Proofs.Expr.Member
import Stencil.Proofs.Number.Unsigned

/-! # Numbers as keys

A number in front of a colon names a field by its text without an exponent, and as an index it names
one by its text in output. Where the latter has an exponent, the field is not found. -/

namespace Stencil

namespace Expr

def IsNumber (n : String) (x : Float) : Prop :=
  kindsOf (tokenize n).list = [.number x] ∧ ∃ stop, (tokenize n).finish = .eof stop

variable {n s : String} {x : Float} {e : Expr}

theorem IsNumber.readAs (h : IsNumber n x) : ReadAs n.toList [.number x] := fun pos => by
  obtain ⟨hkinds, stop, hstop⟩ := h
  obtain ⟨hmoved, hfinish⟩ := tokensFrom_move hstop pos
  exact ⟨hmoved.trans hkinds, hfinish⟩

theorem isNumber_of_readToken {c : Char} {cs : List Char} {stop : Nat}
    (hblank : Text.isBlank c = false) (h : readToken 0 (c :: cs) = .ok ⟨.number x, stop, []⟩) :
    IsNumber (String.ofList (c :: cs)) x := by
  rw [IsNumber, tokenize, String.toList_ofList]
  exact readAs_nil.cons hblank h 0

theorem isUnsigned_of_readToken {pos : Nat} {c : Char} {cs : List Char} {l : Lexeme}
    (h : readToken pos (c :: cs) = .ok l) (hl : l.kind = .number x) :
    IsUnsigned x.toModel.unpack := by
  rw [readToken] at h
  split at h
  · next hc =>
    have hnum : (splitNumber (c :: cs)).1 = c :: (splitNumber (c :: cs)).1.tail := by
      simp [splitNumber, List.takeWhile_cons_of_pos hc]
    simp only [readNumber] at h
    rw [hnum] at h
    split at h
    · next y hy =>
      obtain rfl := Except.ok.inj h
      obtain ⟨m, e, rfl⟩ := exists_nearestFloat hc hy
      cases hl
      exact isUnsigned_nearestFloat m e
    · cases h
  · split at h
    · obtain rfl := Except.ok.inj h
      simp only [readName] at hl
      split at hl <;> cases hl
    · split at h
      · next hq =>
        rw [Bool.or_eq_true, beq_iff_eq, beq_iff_eq] at hq
        obtain ⟨w, t, -, -, hk⟩ := readText_spells h hq
        cases hk.symm.trans hl
      · obtain ⟨t, hk, -⟩ := readSign_spells h
        cases hk.symm.trans hl

/-- Numerals of expressions have no sign. -/
theorem IsNumber.isUnsigned (h : IsNumber n x) : IsUnsigned x.toModel.unpack := by
  have hkinds := h.1
  rw [tokenize] at hkinds
  cases hn : n.toList.dropWhile Text.isBlank with
  | nil =>
    rw [tokensFrom_blank hn] at hkinds
    cases hkinds
  | cons c r =>
    cases hl : readToken (startOf 0 n.toList) (c :: r) with
    | error y =>
      rw [tokensFrom_error hn hl] at hkinds
      cases hkinds
    | ok l =>
      rw [tokensFrom_token hn hl] at hkinds
      exact isUnsigned_of_readToken hl (List.cons.inj hkinds).1

theorem yields_number {stop : Nat} {ts : List Token} {ks : List Kind}
    (ht : kindsOf ts = .number x :: ks) (hk : headLevel ks = 0) :
    Yields (parseExpr (.eof stop) 0 ts) (·.bare = .lit ⟨0, 0⟩ (.num x)) ks := by
  obtain ⟨span, us, rfl, hus⟩ := kindsOf_eq_cons ht
  have hoperand : Yields (parseOperand (.eof stop) (⟨.number x, span⟩ :: us))
      (·.bare = .lit ⟨0, 0⟩ (.num x)) ks := by
    rw [parseOperand]
    exact ⟨_, rfl, rfl, hus⟩
  exact yields_parseExpr hoperand fun e' last rest he' hrest =>
    yields_stop last he' hrest (Nat.le_of_eq hk)

theorem yields_numberedObject {stop : Nat} {ts : List Token} {own ks : List Kind}
    (h : Stands own e)
    (ht : kindsOf ts =
      .sign .lbrace :: .number x :: .sign .colon :: (own ++ Kind.sign .rbrace :: ks)) :
    Yields (parseOperand (.eof stop) ts)
      (·.bare = .object ⟨0, 0⟩ [(⟨plainText x, false⟩, e.bare)]) ks := by
  obtain ⟨span, us, rfl, hus⟩ := kindsOf_eq_cons ht
  obtain ⟨keySpan, vs, rfl, hvs⟩ := kindsOf_eq_cons hus
  have hfield : Yields (parseField (.eof stop) (plainText x) keySpan vs)
      (fun f => f.1 = ⟨plainText x, false⟩ ∧ f.2.bare = e.bare) (.sign .rbrace :: ks) := by
    obtain ⟨colonSpan, ws, rfl, hws⟩ := kindsOf_eq_cons hvs
    rw [parseField, if_pos (Kind.isSign_iff.2 rfl)]
    exact (h ⟨_, _, rfl, rfl, rfl⟩ hws).bind fun p hp hrest => ⟨_, rfl, ⟨rfl, hp⟩, hrest⟩
  have hfields : Yields (parseFields (.eof stop) (⟨.number x, keySpan⟩ :: vs)) _ ks :=
    yields_lastField rfl hfield
  rw [parseOperand]
  refine hfields.bind fun p hp hrest => ⟨_, rfl, ?_, hrest⟩
  obtain ⟨⟨key, value⟩, hp, hkey, hvalue⟩ := hp
  obtain rfl : key = _ := hkey
  rw [Expr.bare, hp, bareFields, bareFields, hvalue]

theorem parse_numericKey (hn : IsNumber n x) (h : parse s = .ok e) :
    ∃ e', parse ("\x7b" ++ n ++ ": " ++ s ++ "\x7d[" ++ n ++ "]") = .ok e' ∧
      e'.bare = .index ⟨0, 0⟩ (.object ⟨0, 0⟩ [(⟨plainText x, false⟩, e.bare)])
        (.lit ⟨0, 0⟩ (.num x)) := by
  obtain ⟨own, hread, hstands⟩ := exists_stands_of_parse h
  have htext : ReadAs ("\x7b" ++ n ++ ": " ++ s ++ "\x7d[" ++ n ++ "]").toList
      (.sign .lbrace :: .number x :: .sign .colon :: (own ++ Kind.sign .rbrace :: .sign .lbracket ::
        .number x :: [.sign .rbracket])) := by
    have hchars : ("\x7b" ++ n ++ ": " ++ s ++ "\x7d[" ++ n ++ "]").toList =
        '\x7b' :: (n.toList ++
          ':' :: ' ' :: (s.toList ++ '\x7d' :: '[' :: (n.toList ++ [']']))) := by
      simp
    rw [hchars]
    have hnumber : ReadAs (n.toList ++ [']']) (.number x :: [.sign .rbracket]) :=
      hn.readAs.upTo readAs_nil (by decide)
    have hindex : ReadAs ('[' :: (n.toList ++ [']']))
        (.sign .lbracket :: .number x :: [.sign .rbracket]) := hnumber.single (by decide)
    have hvalue : ReadAs (s.toList ++ '\x7d' :: '[' :: (n.toList ++ [']']))
        (own ++ Kind.sign .rbrace :: .sign .lbracket :: .number x :: [.sign .rbracket]) :=
      hread.upTo hindex (by decide)
    have hkey : ReadAs
      (n.toList ++ ':' :: ' ' :: (s.toList ++ '\x7d' :: '[' :: (n.toList ++ [']'])))
        (.number x :: .sign .colon :: (own ++ Kind.sign .rbrace :: .sign .lbracket ::
          .number x :: [.sign .rbracket])) := hn.readAs.upTo (hvalue.blank (by decide)) (by decide)
    exact hkey.single (by decide)
  refine parse_of_readAs htext fun stop ts hts => ?_
  refine yields_parseExpr (yields_numberedObject hstands hts) fun left last rest hleft hrest => ?_
  obtain ⟨span, us, rfl, hus⟩ := kindsOf_eq_cons hrest
  have hindex : Yields (parseSuffix (.eof stop) left ⟨.sign .lbracket, span⟩ us)
      (·.bare = .index ⟨0, 0⟩ (.object ⟨0, 0⟩ [(⟨plainText x, false⟩, e.bare)])
        (.lit ⟨0, 0⟩ (.num x))) [] := by
    rw [parseSuffix]
    refine (yields_number hus rfl).bind fun p hp hrest => ?_
    refine (yields_expect p.last hrest).bind fun q _ hrest => ⟨_, rfl, ?_, hrest⟩
    simp only [Expr.bare, hleft, hp]
  exact yields_climb (Nat.zero_lt_succ _) hindex fun e' last rest he' hrest =>
    yields_stop last he' hrest (Nat.le_refl 0)

end Expr

theorem Value.property_field (name : String) (w key : Value) :
    (Value.obj [(name, w)]).property key = if name = key.display then w else .null := by
  by_cases h : name = key.display
  · rw [if_pos h, property, child?, Fields.get?, if_pos (beq_iff_eq.2 h)]
    rfl
  · rw [if_neg h, property, child?, Fields.get?, if_neg (beq_iff_eq.not.2 h)]
    rfl

theorem evaluate_indexed {n v : String} {x : Float} {w : Value} {scope : Scope}
    (hn : Expr.IsNumber n x) (hv : evaluate v scope = .ok w) :
    evaluate ("\x7b" ++ n ++ ": " ++ v ++ "\x7d[" ++ n ++ "]") scope =
      .ok (if (Value.ofFloat x).display = plainText x then w else .null) := by
  unfold evaluate at hv
  split at hv
  · cases hv
  · next e he =>
    obtain ⟨o, ho, rfl⟩ := map_eq_ok.1 hv
    obtain ⟨e', he', hbare⟩ := Expr.parse_numericKey hn he
    have hvalue : (e'.eval scope).map (·.value) =
        .ok ((Value.obj [(plainText x, o.value)]).property (.ofFloat x)) := by
      rw [← Expr.eval_bare, hbare, Expr.eval, Expr.eval, Expr.eval, Expr.evalFields,
        Expr.evalFields,
        Expr.eval_bare, ho]
      exact congrArg Except.ok (Operand.value_property _ _)
    rw [evaluate, he']
    dsimp only
    rw [hvalue, Value.property_field]
    simp only [eq_comm (a := plainText x)]

/-- **Numeric keys read back.** The field that a number names is found by that number exactly if the
number is zero, or at least `1e-6` and less than `1e21`; else there is no such field. -/
theorem evaluate_numericKey {n v : String} {x : Float} {w : Value} {scope : Scope}
    (hn : Expr.IsNumber n x) (hv : evaluate v scope = .ok w) :
    evaluate ("\x7b" ++ n ++ ": " ++ v ++ "\x7d[" ++ n ++ "]") scope =
      .ok (if (x == 0.0) = true ∨ 1e-6 ≤ x ∧ x < 1e21 then w else .null) := by
  rw [evaluate_indexed hn hv]
  simp only [display_eq_plainText_iff hn.isUnsigned]

/-- A number with an exponent, whose text has none. -/
theorem evaluate_numericKey_small :
    let unbound : Scope := fun _ => none
    Expr.IsNumber "25E-7" 25e-7 ∧ evaluate "7" unbound = .ok (.num (.int 7)) ∧
      evaluate "\x7b25E-7: 7\x7d[25E-7]" unbound = .ok (.num (.int 7)) := by
  intro unbound
  have hn : Expr.IsNumber "25E-7" 25e-7 := Expr.isNumber_of_readToken (by decide) rfl
  have hv : evaluate "7" unbound = .ok (.num (.int 7)) := by with_unfolding_all rfl
  have hfound := evaluate_numericKey hn hv
  rw [if_pos (.inr (by decide))] at hfound
  exact ⟨hn, hv, hfound⟩

/-- The key is `1000000000000000000000` and the index `1e+21`. -/
theorem numericKey_not_found :
    let unbound : Scope := fun _ => none
    Expr.IsNumber "1e21" 1e21 ∧ evaluate "7" unbound = .ok (.num (.int 7)) ∧
      evaluate "\x7b1e21: 7\x7d[1e21]" unbound = .ok .null ∧
      evaluate "\x7b1e21: 7\x7d[1e21]" unbound ≠ .ok (.num (.int 7)) := by
  intro unbound
  have hn : Expr.IsNumber "1e21" 1e21 := Expr.isNumber_of_readToken (by decide) rfl
  have hv : evaluate "7" unbound = .ok (.num (.int 7)) := by with_unfolding_all rfl
  have hlost := evaluate_indexed hn hv
  rw [if_neg (by decide +kernel)] at hlost
  have hnull : evaluate "\x7b1e21: 7\x7d[1e21]" unbound = .ok .null := hlost
  exact ⟨hn, hv, hnull, hnull ▸ nofun⟩

end Stencil
