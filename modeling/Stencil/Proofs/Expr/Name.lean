import Stencil.Expr.Free
import Stencil.Proofs.Expr.Lexeme
import Stencil.Proofs.Expr.Shape

/-! # Names

Which texts the lexer reads as one name, and where the names that an expression reads come from:
each stands in it as a name, or is the key of a field without a value. -/

namespace Stencil.Expr

def IsName (n : String) : Prop :=
  tokenize n = ⟨[⟨.name n, ⟨0, Text.width n.toList⟩⟩], .eof (Text.width n.toList)⟩

def IsWord (n : String) : Prop :=
  ∃ c cs, n.toList = c :: cs ∧ Text.isIdStart c = true ∧ ∀ x ∈ cs, Text.isIdChar x = true

def wordKind (n : String) : Kind :=
  match Keyword.ofName? n with
  | some k => .keyword k
  | none => .name n

theorem isIdChar_of_isIdStart {c : Char} (h : Text.isIdStart c = true) :
    Text.isIdChar c = true := by
  rw [Text.isIdChar, h, Bool.true_or]

theorem isDigit_of_isIdStart {c : Char} (h : Text.isIdStart c = true) : isDigit c = false := by
  have hall : ∀ n ∈ List.range' 0x30 10, ¬ n = 0x24 ∧ ¬ n = 0x5F ∧
      Text.idStartRanges.hasCode n = false := by decide +kernel
  by_contra hd
  rw [Bool.not_eq_false, isDigit, Bool.and_eq_true, decide_eq_true_eq, decide_eq_true_eq] at hd
  have hlo : 0x30 ≤ c.toNat := hd.1
  have hhi : c.toNat ≤ 0x39 := hd.2
  obtain ⟨hdollar, hline, hrange⟩ := hall c.toNat (by rw [List.mem_range'_1]; omega)
  simp only [Text.isIdStart, Text.Ranges.has, Bool.or_eq_true, beq_iff_eq] at h
  rcases h with (rfl | rfl) | h
  · exact hdollar rfl
  · exact hline rfl
  · rw [h] at hrange
    cases hrange

theorem readToken_word (pos : Nat) {c : Char} {cs rest : List Char}
    (hc : Text.isIdStart c = true) (hcs : ∀ x ∈ cs, Text.isIdChar x = true)
    (hr : Stops Text.isIdChar rest) :
    readToken pos (c :: (cs ++ rest)) =
      .ok ⟨wordKind (String.ofList (c :: cs)), pos + Text.width (c :: cs), rest⟩ := by
  have hall : ∀ x ∈ c :: cs, Text.isIdChar x = true :=
    List.forall_mem_cons.2 ⟨isIdChar_of_isIdStart hc, hcs⟩
  rw [readToken, isDigit_of_isIdStart hc, hc, if_neg Bool.false_ne_true, if_pos rfl, readName,
    ← List.cons_append, takeWhile_run hall hr, dropWhile_run hall hr]
  rfl

theorem tokensFrom_word {n : String} (h : IsWord n) (pos : Nat) {rest : List Char}
    (hr : Stops Text.isIdChar rest) :
    tokensFrom pos (n.toList ++ rest) =
      ⟨⟨wordKind n, ⟨pos, pos + Text.width n.toList⟩⟩ ::
          (tokensFrom (pos + Text.width n.toList) rest).list,
        (tokensFrom (pos + Text.width n.toList) rest).finish⟩ := by
  obtain ⟨c, cs, hn, hc, hcs⟩ := h
  have hblank : Text.isBlank c = false := by
    by_contra hb
    have hid := isIdChar_of_isBlank (Bool.not_eq_false _ ▸ hb)
    rw [isIdChar_of_isIdStart hc] at hid
    cases hid
  have hs : Stops Text.isBlank (n.toList ++ rest) := by
    rw [hn, List.cons_append]
    exact stops_cons hblank
  have hstart : startOf pos (n.toList ++ rest) = pos := by
    rw [startOf, hs.takeWhile]
    rfl
  have hl := readToken_word pos hc hcs hr
  have hdrop : (n.toList ++ rest).dropWhile Text.isBlank = c :: (cs ++ rest) := by
    rw [hs.dropWhile, hn, List.cons_append]
  rw [tokensFrom_token hdrop (by rw [hstart]; exact hl), hstart, ← hn, String.ofList_toList]

theorem tokensFrom_singleWord {n : String} (h : IsWord n) (pos : Nat) :
    tokensFrom pos n.toList = ⟨[⟨wordKind n, ⟨pos, pos + Text.width n.toList⟩⟩],
      .eof (pos + Text.width n.toList)⟩ := by
  have hw := tokensFrom_word h pos stops_nil
  have hnil : tokensFrom (pos + Text.width n.toList) [] = ⟨[], .eof (pos + Text.width n.toList)⟩ :=
    tokensFrom_blank rfl
  rwa [List.append_nil, hnil] at hw

theorem isWord_of_readToken {pos : Nat} {c : Char} {cs : List Char} {l : Lexeme} {n : String}
    (h : readToken pos (c :: cs) = .ok l) (hk : l.kind = .name n) :
    IsWord n ∧ Keyword.ofName? n = none := by
  rw [readToken] at h
  split at h
  · simp only [readNumber] at h
    split at h
    · obtain rfl := Except.ok.inj h
      cases hk
    · cases h
  · split at h
    · next hc =>
      obtain rfl := Except.ok.inj h
      simp only [readName, List.takeWhile_cons_of_pos (isIdChar_of_isIdStart hc)] at hk
      split at hk
      · cases hk
      · next hnone =>
        obtain rfl := Kind.name.inj hk
        refine ⟨⟨c, cs.takeWhile Text.isIdChar, String.toList_ofList, hc, ?_⟩, hnone⟩
        exact fun x hx => List.mem_takeWhile_imp hx
    · split at h
      · next hq =>
        rw [Bool.or_eq_true, beq_iff_eq, beq_iff_eq] at hq
        obtain ⟨w, s, -, -, hs⟩ := readText_spells h hq
        rw [hs] at hk
        cases hk
      · obtain ⟨s, hs, -⟩ := readSign_spells h
        rw [hs] at hk
        cases hk

theorem isWord_of_token {pos : Nat} {cs : List Char} {t : Token} {n : String}
    (ht : t ∈ (tokensFrom pos cs).list) (hk : t.kind = .name n) :
    IsWord n ∧ Keyword.ofName? n = none := by
  cases hd : cs.dropWhile Text.isBlank with
  | nil =>
    rw [tokensFrom_blank hd] at ht
    cases ht
  | cons c r =>
    cases hl : readToken (startOf pos cs) (c :: r) with
    | error e =>
      rw [tokensFrom_error hd hl] at ht
      cases ht
    | ok l =>
      rw [tokensFrom_token hd hl] at ht
      rcases List.mem_cons.1 ht with rfl | ht
      · exact isWord_of_readToken hl hk
      · have hlen : l.rest.length < cs.length := by
          have h₁ := readToken_rest hl
          have h₂ := length_dropWhile_le Text.isBlank cs
          rw [hd, List.length_cons] at h₂
          omega
        exact isWord_of_token ht hk
termination_by cs.length

theorem isName_iff {n : String} : IsName n ↔ IsWord n ∧ Keyword.ofName? n = none := by
  constructor
  · intro h
    have ht : ⟨.name n, ⟨0, Text.width n.toList⟩⟩ ∈ (tokenize n).list := by
      rw [h]
      exact List.mem_singleton_self _
    exact isWord_of_token ht rfl
  · rintro ⟨hw, hk⟩
    rw [IsName, tokenize, tokensFrom_singleWord hw, wordKind, hk, Nat.zero_add]

theorem isName_of_token {s n : String} {t : Token} (ht : t ∈ (tokenize s).list)
    (hk : t.kind = .name n) : IsName n :=
  isName_iff.2 (isWord_of_token ht hk)

theorem Keyword.name_of_ofName? {n : String} {k : Keyword} (h : Keyword.ofName? n = some k) :
    n = k.name := by
  unfold Keyword.ofName? at h
  split_ifs at h with h₁ h₂ h₃ h₄ h₅
  all_goals
    obtain rfl := Option.some.inj h
    exact eq_of_beq ‹_›

theorem IsWord.name_or_keyword {n : String} (h : IsWord n) :
    IsName n ∨ ∃ k : Keyword, n = k.name := by
  cases hk : Keyword.ofName? n with
  | none => exact .inl (isName_iff.2 ⟨h, hk⟩)
  | some k => exact .inr ⟨k, Keyword.name_of_ofName? hk⟩

/-! ## Lists of names -/

theorem tokensFrom_comma (pos : Nat) (rest : List Char) :
    tokensFrom pos (',' :: rest) =
      ⟨⟨.sign .comma, ⟨pos, pos + 1⟩⟩ :: (tokensFrom (pos + 1) rest).list,
      (tokensFrom (pos + 1) rest).finish⟩ := by
  have hs : Stops Text.isBlank (',' :: rest) := stops_cons (by decide)
  have hstart : startOf pos (',' :: rest) = pos := by
    rw [startOf, hs.takeWhile]
    rfl
  have hid : Text.isIdStart ',' = false := by decide
  have hl : readToken pos (',' :: rest) = .ok ⟨.sign .comma, pos + 1, rest⟩ := by
    rw [readToken, hid]
    rfl
  rw [tokensFrom_token hs.dropWhile (by rw [hstart]; exact hl), hstart]

theorem tokensFrom_names {ns : List String} (h : ∀ n ∈ ns, IsName n) (pos : Nat) :
    (tokensFrom pos (String.intercalate "," ns).toList).list.map (·.kind) =
        (ns.map Kind.name).intersperse (.sign .comma) ∧
      ∃ stop, (tokensFrom pos (String.intercalate "," ns).toList).finish = .eof stop := by
  induction ns generalizing pos with
  | nil =>
    rw [String.intercalate_nil]
    exact ⟨by rw [tokensFrom_blank rfl]; rfl, _, by rw [tokensFrom_blank rfl]⟩
  | cons n ns ih =>
    obtain ⟨hn, hns⟩ := List.forall_mem_cons.1 h
    obtain ⟨hw, hk⟩ := isName_iff.1 hn
    have hkind : wordKind n = .name n := by rw [wordKind, hk]
    cases ns with
    | nil =>
      rw [String.intercalate_singleton, tokensFrom_singleWord hw, hkind]
      exact ⟨rfl, _, rfl⟩
    | cons m ns =>
      obtain ⟨hlist, hfin⟩ := ih hns (pos + Text.width n.toList + 1)
      have hcomma : Stops Text.isIdChar (',' :: (String.intercalate "," (m :: ns)).toList) :=
        stops_cons (by decide)
      have htext : (String.intercalate "," (n :: m :: ns)).toList =
          n.toList ++ ',' :: (String.intercalate "," (m :: ns)).toList := by
        rw [String.intercalate_cons_cons, String.toList_append, String.toList_append,
          List.append_assoc]
        rfl
      rw [htext, tokensFrom_word hw pos hcomma, tokensFrom_comma, hkind]
      refine ⟨?_, hfin⟩
      rw [List.map_cons, List.map_cons, hlist]
      rfl

end Stencil.Expr

namespace Stencil

/-! ## References -/

mutual
def Expr.shorthands : Expr → List String
  | .lit _ _ => []
  | .ref _ _ => []
  | .array _ xs => shorthandsAll xs
  | .object _ ps => shorthandsFields ps
  | .member _ e _ => e.shorthands
  | .index _ e k => e.shorthands ++ k.shorthands
  | .call _ e xs => e.shorthands ++ shorthandsAll xs
  | .unary _ _ e => e.shorthands
  | .binary _ _ l r => l.shorthands ++ r.shorthands
  | .cond _ t y n => t.shorthands ++ y.shorthands ++ n.shorthands
def shorthandsAll : List Expr → List String
  | [] => []
  | e :: es => e.shorthands ++ shorthandsAll es
def shorthandsFields : List (Key × Expr) → List String
  | [] => []
  | (key, e) :: ps =>
    (if key.shorthand then [key.name] else []) ++ e.shorthands ++ shorthandsFields ps
end

namespace Expr

/-- Every name that is read stands among the tokens as a name, or as the key of a field without a
value. -/
def Grounded (tokens : List Token) (names keys : List String) : Prop :=
  ∀ n ∈ names, (∃ t ∈ tokens, t.kind = .name n) ∨ n ∈ keys ∧ ∃ t ∈ tokens, t.kind.key? = some n

section
variable {all : List Token}

theorem grounded_nil (keys : List String) : Grounded all [] keys :=
  nofun

theorem Grounded.append {names names' keys keys' : List String} (h : Grounded all names keys)
    (h' : Grounded all names' keys') : Grounded all (names ++ names') (keys ++ keys') := by
  intro n hn
  rcases List.mem_append.1 hn with hn | hn
  · exact (h n hn).imp_right fun hk => ⟨List.mem_append_left _ hk.1, hk.2⟩
  · exact (h' n hn).imp_right fun hk => ⟨List.mem_append_right _ hk.1, hk.2⟩

theorem references_withSpan (s : Span) (e : Expr) : (e.withSpan s).references = e.references := by
  cases e <;> rfl

theorem shorthands_withSpan (s : Span) (e : Expr) : (e.withSpan s).shorthands = e.shorthands := by
  cases e <;> rfl

theorem expect_rest {fin : End} {want : Sign} {last : Span} {ts : List Token}
    {p : Parsed Unit ts.length} (h : expect fin want last ts = .ok p) (hts : ts ⊆ all) :
    p.rest ⊆ all := by
  cases ts with
  | nil =>
    cases fin with
    | eof n => cases h
    | bad e => cases h
  | cons t ts =>
    rw [expect] at h
    split at h
    · obtain rfl := Except.ok.inj h
      exact (List.cons_subset.1 hts).2
    · cases h

theorem property_rest {fin : End} {ts : List Token} {p : Parsed Ident ts.length}
    (h : property fin ts = .ok p) (hts : ts ⊆ all) : p.rest ⊆ all := by
  obtain ⟨used, hused, -⟩ := property_leads h []
  intro t ht
  refine hts ?_
  rw [hused]
  exact List.mem_append_right _ ht

mutual
theorem parseExpr_grounded {fin : End} {level : Nat} {ts : List Token} {p : Parsed Expr ts.length}
    (h : parseExpr fin level ts = .ok p) (hts : ts ⊆ all) :
    Grounded all p.value.references p.value.shorthands ∧ p.rest ⊆ all := by
  rw [parseExpr] at h
  obtain ⟨q, hq, h⟩ := bind_eq_ok.1 h
  obtain ⟨r, hr, h⟩ := bind_eq_ok.1 h
  obtain rfl := Except.ok.inj h
  have := q.bound
  obtain ⟨hleft, hrest⟩ := parseOperand_grounded hq hts
  exact climb_grounded hr hleft hrest
termination_by 4 * ts.length + 1
decreasing_by all_goals omega

theorem parseOperand_grounded {fin : End} {ts : List Token} {p : Parsed Expr ts.length}
    (h : parseOperand fin ts = .ok p) (hts : ts ⊆ all) :
    Grounded all p.value.references p.value.shorthands ∧ p.rest ⊆ all := by
  cases ts with
  | nil =>
    rw [parseOperand] at h
    obtain ⟨t, _, h⟩ := bind_eq_ok.1 h
    cases h
  | cons t ts =>
    obtain ⟨ht, hrest⟩ := List.cons_subset.1 hts
    rw [parseOperand] at h
    split at h
    · obtain rfl := Except.ok.inj h
      exact ⟨grounded_nil _, hrest⟩
    · split at h
      · obtain ⟨q, hq, h⟩ := bind_eq_ok.1 h
        obtain rfl := Except.ok.inj h
        have hoperand := parseExpr_grounded hq hrest
        exact hoperand
      · split at h
        · next s hk =>
          obtain rfl := Except.ok.inj h
          refine ⟨?_, hrest⟩
          intro n hn
          obtain rfl := List.mem_singleton.1 hn
          exact .inl ⟨t, ht, hk⟩
        · obtain ⟨q, hq, h⟩ := bind_eq_ok.1 h
          obtain rfl := Except.ok.inj h
          have hitems := parseItems_grounded hq hrest
          exact hitems
        · obtain ⟨q, hq, h⟩ := bind_eq_ok.1 h
          obtain rfl := Except.ok.inj h
          have hfields := parseFields_grounded hq hrest
          exact hfields
        · obtain ⟨q, hq, h⟩ := bind_eq_ok.1 h
          obtain ⟨r, hr, h⟩ := bind_eq_ok.1 h
          obtain rfl := Except.ok.inj h
          obtain ⟨hinner, hclose⟩ := parseExpr_grounded hq hrest
          simp only [references_withSpan, shorthands_withSpan]
          exact ⟨hinner, expect_rest hr hclose⟩
        · cases h
termination_by 4 * ts.length
decreasing_by all_goals subst_vars; rw [List.length_cons]; omega

theorem climb_grounded {fin : End} {level : Nat} {left : Expr} {last : Span} {ts : List Token}
    {p : Parsed Expr (ts.length + 1)} (h : climb fin level left last ts = .ok p)
    (hleft : Grounded all left.references left.shorthands) (hts : ts ⊆ all) :
    Grounded all p.value.references p.value.shorthands ∧ p.rest ⊆ all := by
  cases ts with
  | nil =>
    rw [climb] at h
    obtain ⟨t, _, h⟩ := bind_eq_ok.1 h
    obtain rfl := Except.ok.inj h
    exact ⟨hleft, hts⟩
  | cons t ts =>
    rw [climb] at h
    split at h
    · obtain ⟨q, hq, h⟩ := bind_eq_ok.1 h
      obtain ⟨r, hr, h⟩ := bind_eq_ok.1 h
      obtain rfl := Except.ok.inj h
      have := q.bound
      obtain ⟨hmore, hrest⟩ := parseSuffix_grounded hq hleft (List.cons_subset.1 hts).2
      have hall := climb_grounded hr hmore hrest
      exact hall
    · obtain rfl := Except.ok.inj h
      exact ⟨hleft, hts⟩
termination_by 4 * ts.length
decreasing_by all_goals subst_vars; rw [List.length_cons]; omega

theorem parseSuffix_grounded {fin : End} {left : Expr} {t : Token} {ts : List Token}
    {p : Parsed Expr (ts.length + 1)} (h : parseSuffix fin left t ts = .ok p)
    (hleft : Grounded all left.references left.shorthands) (hts : ts ⊆ all) :
    Grounded all p.value.references p.value.shorthands ∧ p.rest ⊆ all := by
  rw [parseSuffix] at h
  split at h
  · obtain ⟨y, hy, h⟩ := bind_eq_ok.1 h
    obtain ⟨c, hc, h⟩ := bind_eq_ok.1 h
    obtain ⟨n, hn, h⟩ := bind_eq_ok.1 h
    obtain rfl := Except.ok.inj h
    have := Nat.lt_trans c.bound y.bound
    obtain ⟨hyes, hcolon⟩ := parseExpr_grounded hy hts
    obtain ⟨hno, hrest⟩ := parseExpr_grounded hn (expect_rest hc hcolon)
    exact ⟨(hleft.append hyes).append hno, hrest⟩
  · obtain ⟨q, hq, h⟩ := bind_eq_ok.1 h
    obtain rfl := Except.ok.inj h
    obtain ⟨hitems, hrest⟩ := parseItems_grounded hq hts
    exact ⟨hleft.append hitems, hrest⟩
  · obtain ⟨q, hq, h⟩ := bind_eq_ok.1 h
    obtain ⟨r, hr, h⟩ := bind_eq_ok.1 h
    obtain rfl := Except.ok.inj h
    obtain ⟨hkey, hclose⟩ := parseExpr_grounded hq hts
    exact ⟨hleft.append hkey, expect_rest hr hclose⟩
  · obtain ⟨q, hq, h⟩ := bind_eq_ok.1 h
    obtain rfl := Except.ok.inj h
    exact ⟨hleft, property_rest hq hts⟩
  · obtain ⟨q, hq, h⟩ := bind_eq_ok.1 h
    obtain rfl := Except.ok.inj h
    exact ⟨hleft, property_rest hq hts⟩
  · split at h
    · obtain ⟨q, hq, h⟩ := bind_eq_ok.1 h
      obtain rfl := Except.ok.inj h
      obtain ⟨hright, hrest⟩ := parseExpr_grounded hq hts
      exact ⟨hleft.append hright, hrest⟩
    · cases h
  · cases h
termination_by 4 * ts.length + 3
decreasing_by all_goals omega

theorem parseItems_grounded {fin : End} {close : Sign} {ts : List Token}
    {p : Parsed (List Expr) ts.length} (h : parseItems fin close ts = .ok p) (hts : ts ⊆ all) :
    Grounded all (referencesAll p.value) (shorthandsAll p.value) ∧ p.rest ⊆ all := by
  cases ts with
  | nil =>
    rw [parseItems] at h
    obtain ⟨t, _, h⟩ := bind_eq_ok.1 h
    cases h
  | cons t ts =>
    rw [parseItems] at h
    split at h
    · obtain rfl := Except.ok.inj h
      exact ⟨grounded_nil _, (List.cons_subset.1 hts).2⟩
    · obtain ⟨q, hq, h⟩ := bind_eq_ok.1 h
      obtain ⟨hitem, hrest⟩ := parseExpr_grounded hq hts
      have hlast := hitem.append (grounded_nil [])
      split at h
      · next c rest hr =>
        split at h
        · obtain ⟨r, hr', h⟩ := bind_eq_ok.1 h
          obtain rfl := Except.ok.inj h
          have : rest.length < ts.length + 1 := q.tail_bound hr
          rw [hr] at hrest
          obtain ⟨hmore, hend⟩ := parseItems_grounded hr' (List.cons_subset.1 hrest).2
          exact ⟨hitem.append hmore, hend⟩
        · obtain ⟨r, hr', h⟩ := bind_eq_ok.1 h
          obtain rfl := Except.ok.inj h
          exact ⟨hlast, expect_rest hr' hrest⟩
      · obtain ⟨r, hr', h⟩ := bind_eq_ok.1 h
        obtain rfl := Except.ok.inj h
        exact ⟨hlast, expect_rest hr' hrest⟩
termination_by 4 * ts.length + 2
decreasing_by all_goals subst_vars; rw [List.length_cons]; omega

theorem parseFields_grounded {fin : End} {ts : List Token}
    {p : Parsed (List (Key × Expr)) ts.length} (h : parseFields fin ts = .ok p) (hts : ts ⊆ all) :
    Grounded all (referencesFields p.value) (shorthandsFields p.value) ∧ p.rest ⊆ all := by
  cases ts with
  | nil =>
    rw [parseFields] at h
    obtain ⟨t, _, h⟩ := bind_eq_ok.1 h
    cases h
  | cons t ts =>
    obtain ⟨ht, hafter⟩ := List.cons_subset.1 hts
    rw [parseFields] at h
    split at h
    · obtain rfl := Except.ok.inj h
      exact ⟨grounded_nil _, hafter⟩
    · split at h
      · cases h
      · next key hkey =>
        obtain ⟨q, hq, h⟩ := bind_eq_ok.1 h
        obtain ⟨hfield, hrest⟩ := parseField_grounded hq ⟨t, ht, hkey⟩ hafter
        have hlast := hfield.append (grounded_nil [])
        split at h
        · next c rest hr =>
          split at h
          · obtain ⟨r, hr', h⟩ := bind_eq_ok.1 h
            obtain rfl := Except.ok.inj h
            have := q.tail_bound hr
            rw [hr] at hrest
            obtain ⟨hmore, hend⟩ := parseFields_grounded hr' (List.cons_subset.1 hrest).2
            exact ⟨hfield.append hmore, hend⟩
          · obtain ⟨r, hr', h⟩ := bind_eq_ok.1 h
            obtain rfl := Except.ok.inj h
            exact ⟨hlast, expect_rest hr' hrest⟩
        · obtain ⟨r, hr', h⟩ := bind_eq_ok.1 h
          obtain rfl := Except.ok.inj h
          exact ⟨hlast, expect_rest hr' hrest⟩
termination_by 4 * ts.length + 2
decreasing_by all_goals subst_vars; rw [List.length_cons]; omega

theorem parseField_grounded {fin : End} {key : String} {keySpan : Span} {ts : List Token}
    {p : Parsed (Key × Expr) (ts.length + 1)} (h : parseField fin key keySpan ts = .ok p)
    (hkey : ∃ t ∈ all, t.kind.key? = some key) (hts : ts ⊆ all) :
    Grounded all p.value.2.references
        ((if p.value.1.shorthand then [p.value.1.name] else []) ++ p.value.2.shorthands) ∧
      p.rest ⊆ all := by
  have hshort : Grounded all [key] [key] := by
    intro n hn
    obtain rfl := List.mem_singleton.1 hn
    exact .inr ⟨hn, hkey⟩
  cases ts with
  | nil =>
    rw [parseField] at h
    obtain ⟨t, _, h⟩ := bind_eq_ok.1 h
    obtain rfl := Except.ok.inj h
    exact ⟨hshort, hts⟩
  | cons t ts =>
    rw [parseField] at h
    split at h
    · obtain ⟨q, hq, h⟩ := bind_eq_ok.1 h
      obtain rfl := Except.ok.inj h
      have hvalue := parseExpr_grounded hq (List.cons_subset.1 hts).2
      exact hvalue
    · obtain rfl := Except.ok.inj h
      exact ⟨hshort, hts⟩
termination_by 4 * ts.length
decreasing_by all_goals subst_vars; rw [List.length_cons]; omega
end

end

/-- What an expression reads is a name, or the key of a field without a value that is written as a
text, a number or a keyword. -/
theorem isName_or_shorthand {s : String} {e : Expr} (h : parse s = .ok e) {n : String}
    (hn : n ∈ e.references) :
    IsName n ∨ n ∈ e.shorthands ∧
      ∃ t ∈ (tokenize s).list, t.kind.key? = some n ∧ ∀ m, t.kind ≠ .name m := by
  obtain ⟨p, hp, h⟩ := bind_eq_ok.1 h
  obtain ⟨hground, -⟩ := parseExpr_grounded hp (List.Subset.refl _)
  have he : p.value = e := by
    split at h
    · obtain ⟨_, -, h⟩ := bind_eq_ok.1 h
      exact Except.ok.inj h
    · cases h
  rw [he] at hground
  rcases hground n hn with ⟨t, ht, hk⟩ | ⟨hs, t, ht, hk⟩
  · exact .inl (isName_of_token ht hk)
  · by_cases hname : ∃ m, t.kind = .name m
    · obtain ⟨m, hm⟩ := hname
      rw [hm] at hk
      obtain rfl := Option.some.inj hk
      exact .inl (isName_of_token ht hm)
    · exact .inr ⟨hs, t, ht, hk, fun m hm => hname ⟨m, hm⟩⟩

end Expr

end Stencil
