import Stencil.Proofs.Expr.Print
import Stencil.Proofs.Number.Numeral
import Stencil.Proofs.Number.Whole
import Stencil.Proofs.Template.Attribute

/-! # Reading printed tokens

Each token of an expression that can be printed is read back from its own text; and texts with
blanks between them are read one by one. -/

namespace Stencil.Expr

def Legible (k : Kind) : Prop :=
  ∃ c cs stop, k.spelled = c :: cs ∧ Text.isBlank c = false ∧
    readToken 0 (c :: cs) = .ok ⟨k, stop, []⟩

/-! ## Kinds of tokens -/

theorem legible_sign (s : Sign) : Legible (.sign s) := by
  have hread := readToken_sign 0 s (r := []) fun _ _ => nofun
  rw [List.append_nil] at hread
  obtain ⟨c, cs, hs, hblank, -⟩ := head_of_sign s
  rw [hs] at hread
  exact ⟨c, cs, _, hs, hblank, hread⟩

theorem isBlank_of_isIdStart {c : Char} (h : Text.isIdStart c = true) : Text.isBlank c = false := by
  by_contra hb
  have hid := isIdChar_of_isBlank (Bool.not_eq_false _ ▸ hb)
  rw [isIdChar_of_isIdStart h] at hid
  cases hid

theorem spelled_wordKind (n : String) : (wordKind n).spelled = n.toList := by
  unfold wordKind
  split
  · next k hk => rw [Keyword.name_of_ofName? hk, Kind.spelled]
  · rfl

theorem legible_word {n : String} (h : IsWord n) : Legible (wordKind n) := by
  obtain ⟨c, cs, hn, hc, hcs⟩ := h
  have hread := readToken_word 0 hc hcs stops_nil
  rw [List.append_nil, ← hn, String.ofList_toList] at hread
  exact ⟨c, cs, _, by rw [spelled_wordKind, hn], isBlank_of_isIdStart hc, hn ▸ hread⟩

theorem legible_identifier {n : String} (h : IsIdentifier n) : Legible (.name n) := by
  have hword := legible_word h.1
  rwa [wordKind, h.2] at hword

theorem legible_keyword (k : Keyword) : Legible (.keyword k) := by
  have hword : IsWord k.name := by
    cases k <;> exact ⟨_, _, rfl, by decide +kernel, by decide +kernel⟩
  have hkind : wordKind k.name = .keyword k := by cases k <;> rfl
  rw [← hkind]
  exact legible_word hword

theorem legible_text (s : String) : Legible (.text s) := by
  obtain ⟨stop, hread⟩ := Template.readToken_quoted s
  exact ⟨'"', _, stop, rfl, by decide, hread⟩

theorem spelled_number {n : Nat} (h : n < 2 ^ 53) :
    (Kind.number (Float.ofNat n)).spelled = decimalDigits n := by
  have htext : scriptText (Float.ofNat n) = toString (n : Int) := scriptText_ofInt (n := n) h
  have hneg : decide ((n : Int) < 0) = false :=
    decide_eq_false (Int.not_lt.2 (Int.natCast_nonneg n))
  rw [Kind.spelled, htext, toString_eq_signed, hneg, signed, if_neg Bool.false_ne_true,
    String.toList_ofList, Int.natAbs_natCast]

theorem splitNumber_digits {ds : List Char} (h : ∀ c ∈ ds, isDigit c = true) :
    splitNumber ds = (ds, []) := by
  have htake : ds.takeWhile isDigit = ds := List.takeWhile_eq_self_iff.2 h
  have hdrop : ds.dropWhile isDigit = [] := List.dropWhile_eq_nil_iff.2 h
  simp [splitNumber, htake, hdrop, splitFraction, splitExponent]

theorem legible_number {n : Nat} (h : n < 2 ^ 53) : Legible (.number (Float.ofNat n)) := by
  have hdigits : ∀ c ∈ decimalDigits n, isDigit c = true := fun _ => isDigit_of_mem_decimalDigits
  have hread := readFloat?_decimalDigits h
  obtain ⟨c, cs, hn⟩ := List.exists_cons_of_ne_nil (l := decimalDigits n) Nat.toDigits_ne_nil
  rw [hn] at hdigits hread
  have hc := hdigits c (List.mem_cons_self ..)
  have hblank : Text.isBlank c = false := by
    by_contra hb
    have hid := isIdChar_of_isBlank (Bool.not_eq_false _ ▸ hb)
    rw [isIdChar_of_isDigit hc] at hid
    cases hid
  refine ⟨c, cs, 0 + (c :: cs).length, by rw [spelled_number h, hn], hblank, ?_⟩
  rw [readToken, if_pos hc, readNumber, splitNumber_digits hdigits]
  dsimp only
  rw [hread]

/-! ## Expressions -/

theorem legible_lit {l : Lit} (h : l.Printable) : Legible l.kind := by
  cases l with
  | null => exact legible_keyword .null
  | bool b => cases b <;> exact legible_keyword _
  | num x =>
    obtain ⟨n, hn, rfl⟩ := h
    exact legible_number hn
  | str s => exact legible_text s

theorem isWord_iff (n : String) : isWord n = true ↔ IsWord n := by
  unfold isWord IsWord
  cases n.toList with
  | nil => simp
  | cons c cs => simp

theorem legible_key (quote : Bool) (n : String) : Legible (keyKind quote n) := by
  unfold keyKind
  split
  · next h =>
    rw [Bool.and_eq_true] at h
    exact legible_word ((isWord_iff n).1 h.1)
  · exact legible_text n

theorem legible_unary (op : UnaryOp) : Legible op.kind := by
  cases op with
  | typeof => exact legible_keyword .typeof
  | _ => exact legible_sign _

def AllLegible (ks : List Kind) : Prop :=
  ∀ k ∈ ks, Legible k

theorem AllLegible.append {ks ls : List Kind} (h : AllLegible ks) (h' : AllLegible ls) :
    AllLegible (ks ++ ls) :=
  List.forall_mem_append.2 ⟨h, h'⟩

theorem AllLegible.cons {k : Kind} {ks : List Kind} (h : Legible k) (h' : AllLegible ks) :
    AllLegible (k :: ks) :=
  List.forall_mem_cons.2 ⟨h, h'⟩

theorem allLegible_one {k : Kind} (h : Legible k) : AllLegible [k] :=
  .cons h nofun

theorem AllLegible.enclosed {open_ close : Sign} {ks : List Kind} (h : AllLegible ks) :
    AllLegible (.sign open_ :: (ks ++ [Kind.sign close])) :=
  .cons (legible_sign _) (h.append (allLegible_one (legible_sign _)))

theorem AllLegible.grouped {ks : List Kind} (h : AllLegible ks) (loose : Bool) :
    AllLegible (grouped loose ks) := by
  cases loose with
  | true => exact h.enclosed
  | false => exact h

theorem allLegible_commaSeparated {parts : List (List Kind)} (h : ∀ ks ∈ parts, AllLegible ks) :
    AllLegible (commaSeparated parts) := by
  induction parts with
  | nil => exact nofun
  | cons ks parts ih =>
    obtain ⟨hks, hparts⟩ := List.forall_mem_cons.1 h
    cases parts with
    | nil =>
      rw [commaSeparated_one]
      exact hks
    | cons ls parts =>
      rw [commaSeparated_more]
      exact hks.append (.cons (legible_sign _) (ih hparts))

section

variable (quoted : Key → Expr → Bool)

mutual
theorem allLegible_kinds : {e : Expr} → e.Printable → AllLegible (e.kinds quoted)
  | .lit _ _, h => allLegible_one (legible_lit h)
  | .ref _ _, h => allLegible_one (legible_identifier h)
  | .array _ _, h => (allLegible_commaSeparated (allLegible_kindsAll h)).enclosed
  | .object _ _, h => (allLegible_commaSeparated (allLegible_kindsFields h)).enclosed
  | .member _ _ _, h => ((allLegible_kinds h.1).grouped _).append
      (.cons (legible_sign _) (allLegible_one (legible_word h.2)))
  | .index _ _ _, h => ((allLegible_kinds h.1).grouped _).append (allLegible_kinds h.2).enclosed
  | .call _ _ _, h => ((allLegible_kinds h.1).grouped _).append
      (allLegible_commaSeparated (allLegible_kindsAll h.2)).enclosed
  | .unary _ op e, h => .cons (legible_unary op) ((allLegible_kinds (e := e) h).grouped _)
  | .binary _ _ _ _, h => ((allLegible_kinds h.1).grouped _).append
      (.cons (legible_sign _) ((allLegible_kinds h.2).grouped _))
  | .cond _ _ _ _, h => ((allLegible_kinds h.1).grouped _).append (.cons (legible_sign _)
      ((allLegible_kinds h.2.1).append (.cons (legible_sign _) (allLegible_kinds h.2.2))))
theorem allLegible_kindsAll : {es : List Expr} → PrintableAll es →
    ∀ ks ∈ kindsAll quoted es, AllLegible ks
  | [], _ => nofun
  | _ :: _, h => List.forall_mem_cons.2 ⟨allLegible_kinds h.1, allLegible_kindsAll h.2⟩
theorem allLegible_kindsFields : {ps : List (Key × Expr)} → PrintableFields ps →
    ∀ ks ∈ kindsFields quoted ps, AllLegible ks
  | [], _ => nofun
  | (key, e) :: _, h => by
    refine List.forall_mem_cons.2 ⟨?_, allLegible_kindsFields h.2⟩
    have hfield := h.1
    refine .cons (legible_key _ _) ?_
    split
    · exact nofun
    · next hs =>
      rw [if_neg hs] at hfield
      exact .cons (legible_sign _) (allLegible_kinds hfield)
end

end

/-! ## Texts -/

theorem tokensFrom_legible {k : Kind} (h : Legible k) (pos : Nat) {v : List Char} (hv : Apart v) :
    ∃ stop, tokensFrom pos (k.spelled ++ v) =
      ⟨⟨k, ⟨pos, stop⟩⟩ :: (tokensFrom stop v).list, (tokensFrom stop v).finish⟩ := by
  obtain ⟨c, cs, stop, hk, hblank, hread⟩ := h
  obtain ⟨stop', hmoved⟩ := readToken_move hread pos
  have htoken := readToken_append hmoved hv
  have hs : Stops Text.isBlank (c :: cs ++ v) := stops_cons hblank
  have hstart : startOf pos (c :: cs ++ v) = pos := by
    rw [startOf, hs.takeWhile]
    rfl
  refine ⟨stop', ?_⟩
  rw [hk, tokensFrom_token hs.dropWhile (by rw [hstart]; exact htoken), hstart]
  rfl

/-- The tokens of a printed text are those it was printed from. -/
theorem tokensFrom_spaced {ks : List Kind} (h : AllLegible ks) (pos : Nat) :
    (tokensFrom pos (spaced ks)).list.map (·.kind) = ks ∧
      ∃ stop, (tokensFrom pos (spaced ks)).finish = .eof stop := by
  induction ks generalizing pos with
  | nil =>
    have hnil : tokensFrom pos (spaced []) = ⟨[], .eof pos⟩ := tokensFrom_blank rfl
    rw [hnil]
    exact ⟨rfl, pos, rfl⟩
  | cons k ks ih =>
    obtain ⟨hk, hks⟩ := List.forall_mem_cons.1 h
    cases ks with
    | nil =>
      obtain ⟨stop, htokens⟩ := tokensFrom_legible hk pos (v := []) nofun
      have hnil : tokensFrom stop [] = ⟨[], .eof stop⟩ := tokensFrom_blank rfl
      rw [spaced, List.map_singleton, List.intercalate_singleton, ← List.append_nil k.spelled,
        htokens, hnil]
      exact ⟨rfl, stop, rfl⟩
    | cons l ks =>
      have hblank : Apart (' ' :: spaced (l :: ks)) := by
        intro c hc
        obtain rfl := Option.some.inj hc
        rfl
      have hspaced : spaced (k :: l :: ks) = k.spelled ++ ' ' :: spaced (l :: ks) := by
        rw [spaced, List.map_cons, List.map_cons, List.intercalate_cons_cons, List.append_assoc]
        rfl
      obtain ⟨stop, htokens⟩ := tokensFrom_legible hk pos hblank
      obtain ⟨hlist, hfinish⟩ := ih hks (stop + Text.width [' '])
      have hskip : tokensFrom stop (' ' :: spaced (l :: ks)) =
          tokensFrom (stop + Text.width [' ']) (spaced (l :: ks)) :=
        tokensFrom_skip (u := [' ']) (by decide)
      rw [hspaced, htokens, hskip]
      exact ⟨congrArg (k :: ·) hlist, hfinish⟩

end Stencil.Expr
