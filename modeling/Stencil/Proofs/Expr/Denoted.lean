import Stencil.Proofs.Expr.Lexeme
import Stencil.Proofs.Expr.Shape

/-! # What quoted texts denote

An expression that begins with a quote and is a literal is a single quoted text, and its value is
what the characters between the quotes stand for. -/

namespace Stencil.Expr

inductive Denotes : List Char → List Char → Prop where
  | nil : Denotes [] []
  | char {c : Char} {cs v : List Char} : c ≠ '\\' → Denotes cs v → Denotes (c :: cs) (c :: v)
  | unit {a b c d u : Char} {cs v : List Char} : readUnit? [a, b, c, d] = some u → Denotes cs v →
    Denotes ('\\' :: 'u' :: a :: b :: c :: d :: cs) (u :: v)
  | lineEnd {cs v : List Char} : Denotes cs v → Denotes ('\\' :: '\n' :: cs) v
  | escape {c : Char} {cs v : List Char} : c ≠ 'u' → c ≠ '\n' → Denotes cs v →
    Denotes ('\\' :: c :: cs) (escaped c :: v)

/-- The text that is read is what stands in front of the quote that ends it denotes. -/
theorem readText_denotes {quote : Char} {start pos : Nat} {acc cs : List Char} {l : Lexeme}
    (h : readText quote start pos acc cs = .ok l) : ∃ w v, cs = w ++ quote :: l.rest ∧
      Denotes w v ∧ l.kind = .text (String.ofList (acc.reverse ++ v)) := by
  fun_induction readText quote start pos acc cs with
  | case2 pos acc a b c d cs stop ch hu ih =>
    obtain ⟨w, v, rfl, hw, hk⟩ := ih h
    rw [List.reverse_cons, List.append_assoc] at hk
    exact ⟨_, _, rfl, .unit hu hw, hk⟩
  | case6 pos acc cs ih =>
    obtain ⟨w, v, rfl, hw, hk⟩ := ih h
    exact ⟨_, _, rfl, .lineEnd hw, hk⟩
  | case7 pos acc c cs _ hunit hline ih =>
    obtain ⟨w, v, rfl, hw, hk⟩ := ih h
    rw [List.reverse_cons, List.append_assoc] at hk
    exact ⟨_, _, rfl, .escape hunit hline hw, hk⟩
  | case9 pos acc c cs _ _ _ _ _ hc =>
    obtain rfl := Except.ok.inj h
    rw [eq_of_beq hc]
    exact ⟨[], [], rfl, .nil, by rw [List.append_nil]⟩
  | case11 pos acc c cs _ _ _ hcons hnil _ _ ih =>
    obtain ⟨w, v, rfl, hw, hk⟩ := ih h
    rw [List.reverse_cons, List.append_assoc] at hk
    exact ⟨_, _, rfl, .char (ne_backslash hcons hnil) hw, hk⟩
  | _ => cases h

/-! ## Literals -/

theorem parseSuffix_ne_lit {fin : End} {left : Expr} {t : Token} {ts : List Token}
    {p : Parsed Expr (ts.length + 1)} (h : parseSuffix fin left t ts = .ok p) (span : Span)
    (l : Lit) :
    p.value ≠ .lit span l := by
  rw [parseSuffix] at h
  split at h
  · obtain ⟨y, -, h⟩ := bind_eq_ok.1 h
    obtain ⟨c, -, h⟩ := bind_eq_ok.1 h
    obtain ⟨n, -, h⟩ := bind_eq_ok.1 h
    obtain rfl := Except.ok.inj h
    intro heq
    cases heq
  · obtain ⟨q, -, h⟩ := bind_eq_ok.1 h
    obtain rfl := Except.ok.inj h
    intro heq
    cases heq
  · obtain ⟨q, -, h⟩ := bind_eq_ok.1 h
    obtain ⟨r, -, h⟩ := bind_eq_ok.1 h
    obtain rfl := Except.ok.inj h
    intro heq
    cases heq
  · obtain ⟨q, -, h⟩ := bind_eq_ok.1 h
    obtain rfl := Except.ok.inj h
    intro heq
    cases heq
  · obtain ⟨q, -, h⟩ := bind_eq_ok.1 h
    obtain rfl := Except.ok.inj h
    intro heq
    cases heq
  · split at h
    · obtain ⟨q, -, h⟩ := bind_eq_ok.1 h
      obtain rfl := Except.ok.inj h
      intro heq
      cases heq
    · cases h
  · cases h

theorem climb_eq_lit {fin : End} {level : Nat} {left : Expr} {last : Span} {ts : List Token}
    {p : Parsed Expr (ts.length + 1)} (h : climb fin level left last ts = .ok p) {span : Span}
    {l : Lit} (hp : p.value = .lit span l) : left = .lit span l ∧ p.rest = ts := by
  cases ts with
  | nil =>
    rw [climb] at h
    obtain ⟨t, -, h⟩ := bind_eq_ok.1 h
    obtain rfl := Except.ok.inj h
    exact ⟨hp, rfl⟩
  | cons t ts =>
    rw [climb] at h
    split at h
    · obtain ⟨q, hq, h⟩ := bind_eq_ok.1 h
      obtain ⟨r, hr, h⟩ := bind_eq_ok.1 h
      obtain rfl := Except.ok.inj h
      have := q.bound
      exact absurd (climb_eq_lit hr hp).1 (parseSuffix_ne_lit hq span l)
    · obtain rfl := Except.ok.inj h
      exact ⟨hp, rfl⟩
termination_by ts.length
decreasing_by subst_vars; rw [List.length_cons]; omega

theorem tokens_of_parse_lit {s : String} {t : Token} {ts : List Token} {l l' : Lit} {span : Span}
    (hts : (tokenize s).list = t :: ts) (ht : t.kind.literal? = some l)
    (h : parse s = .ok (.lit span l')) : l = l' ∧ ts = [] := by
  rw [parse, hts] at h
  obtain ⟨p, hp, h⟩ := bind_eq_ok.1 h
  rw [parseExpr] at hp
  obtain ⟨o, ho, hp⟩ := bind_eq_ok.1 hp
  obtain ⟨q, hq, hp⟩ := bind_eq_ok.1 hp
  obtain rfl := Except.ok.inj hp
  rw [parseOperand, ht] at ho
  obtain rfl := Except.ok.inj ho
  split at h
  · next hrest =>
    obtain ⟨e, -, h⟩ := bind_eq_ok.1 h
    obtain ⟨hleft, hts⟩ := climb_eq_lit hq (Except.ok.inj h)
    exact ⟨(Expr.lit.inj hleft).2, hts.symm.trans hrest⟩
  · cases h

theorem dropWhile_of_tokensFrom_nil {pos stop : Nat} {cs : List Char}
    (hlist : (tokensFrom pos cs).list = []) (hfin : (tokensFrom pos cs).finish = .eof stop) :
    cs.dropWhile Text.isBlank = [] := by
  cases hd : cs.dropWhile Text.isBlank with
  | nil => rfl
  | cons c r =>
    cases hl : readToken (startOf pos cs) (c :: r) with
    | error e =>
      rw [tokensFrom_error hd hl] at hfin
      cases hfin
    | ok l =>
      rw [tokensFrom_token hd hl] at hlist
      cases hlist

/-- A literal that begins with a quote is one quoted text, with blanks behind it. -/
theorem readText_of_parse {q : Char} {cs : List Char} {span : Span} {v : String}
    (hq : q = '"' ∨ q = '\'') (h : parse (String.ofList (q :: cs)) = .ok (.lit span (.str v))) :
    ∃ l, readText q 0 1 [] cs = .ok l ∧ l.kind = .text v ∧ l.rest.dropWhile Text.isBlank = [] := by
  obtain ⟨-, stop, hfin⟩ := run_of_parse h
  have hhead : (q :: cs).dropWhile Text.isBlank = q :: cs := by
    rcases hq with rfl | rfl <;> rfl
  have hread : readToken (startOf 0 (q :: cs)) (q :: cs) = readText q 0 1 [] cs := by
    have hstart : startOf 0 (q :: cs) = 0 := by
      rcases hq with rfl | rfl <;> rfl
    rw [hstart]
    rcases hq with rfl | rfl
    all_goals rw [readToken, if_neg (by decide), if_neg (by decide), if_pos (by decide)]
  have htokens : tokenize (String.ofList (q :: cs)) = tokensFrom 0 (q :: cs) := by
    rw [tokenize, String.toList_ofList]
  rw [htokens] at hfin
  cases hl : readText q 0 1 [] cs with
  | error e =>
    rw [hl] at hread
    rw [tokensFrom_error hhead hread] at hfin
    cases hfin
  | ok l =>
    rw [hl] at hread
    rw [tokensFrom_token hhead hread] at htokens hfin
    obtain ⟨w, s, -, hkind⟩ := readText_denotes hl
    obtain ⟨hv, hrest⟩ := tokens_of_parse_lit (congrArg Tokens.list htokens)
      (show l.kind.literal? = _ by rw [hkind.2]; rfl) h
    refine ⟨l, rfl, ?_, dropWhile_of_tokensFrom_nil hrest hfin⟩
    rw [hkind.2, Lit.str.inj hv]

/-- The value of a quoted text is what the characters between its quotes denote. -/
theorem denotes_of_parse {q : Char} {w : List Char} {span : Span} {v : String}
    (hq : q = '"' ∨ q = '\'')
    (h : parse (String.ofList (q :: (w ++ [q]))) = .ok (.lit span (.str v))) :
    Denotes w v.toList := by
  obtain ⟨l, hl, hkind, hblank⟩ := readText_of_parse hq h
  obtain ⟨w', s, hw, hdenotes, hkind'⟩ := readText_denotes hl
  obtain rfl : v = String.ofList s := by
    rw [hkind] at hkind'
    exact Kind.text.inj hkind'
  have hrest : l.rest = [] := by
    by_contra hne
    have hlast : l.rest.getLast hne = q := by
      have hends := congrArg List.getLast? hw
      rw [List.getLast?_concat, List.getLast?_append, List.getLast?_cons,
        List.getLast?_eq_some_getLast hne] at hends
      exact (Option.some.inj hends).symm
    have hq' := List.dropWhile_eq_nil_iff.1 hblank _ (List.getLast_mem hne)
    rw [hlast] at hq'
    rcases hq with rfl | rfl <;> cases hq'
  rw [hrest] at hw
  rw [String.toList_ofList, List.append_cancel_right hw]
  exact hdenotes

end Stencil.Expr
