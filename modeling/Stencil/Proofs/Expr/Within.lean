import Stencil.Expr.Eval
import Stencil.Proofs.Expr.Reparse

/-! # Expressions inside expressions

What the parser reads depends on the kinds of the tokens only, and it reads the same if more tokens
follow the first of which binds nothing: no operator takes it, and no list that is open ends early.
So the text of an expression means inside parentheses, brackets and braces what it means alone. -/

namespace Stencil.Expr

/-! ## Tokens -/

/-- Some tokens, the first of which goes on with no expression and no field in front of it. -/
def BindsNothing (ks : List Kind) : Prop :=
  ∃ k r, ks = k :: r ∧ k.level = 0 ∧ k.isSign .colon = false

section

variable {fin : End} {stop : Nat} {ks : List Kind}

theorem BindsNothing.headLevel_append (hks : BindsNothing ks) {level : Nat} (rest : List Token)
    (h : headLevel (kindsOf rest) ≤ level) : headLevel (kindsOf rest ++ ks) ≤ level := by
  obtain ⟨k, r, rfl, hk, -⟩ := hks
  cases rest with
  | nil => exact Nat.le_trans (Nat.le_of_eq hk) (Nat.zero_le level)
  | cons t rest => exact h

theorem kindsOf_of_expect {want : Sign} {last : Span} {ts : List Token} {p : Parsed Unit ts.length}
    (h : expect fin want last ts = .ok p) : kindsOf ts = .sign want :: kindsOf p.rest := by
  cases ts with
  | nil =>
    obtain ⟨t, -, h⟩ := bind_eq_ok.1 h
    cases h
  | cons t ts =>
    rw [expect] at h
    split at h
    · next hk =>
      obtain rfl := Except.ok.inj h
      rw [kindsOf, List.map_cons, Kind.isSign_iff.1 hk]
      rfl
    · cases h

theorem property_within {ts us : List Token} {p : Parsed Ident ts.length}
    (h : property fin ts = .ok p) (hu : kindsOf us = kindsOf ts ++ ks) :
    Yields (property (.eof stop) us) (·.bare = p.value.bare) (kindsOf p.rest ++ ks) := by
  cases ts with
  | nil =>
    obtain ⟨t, -, h⟩ := bind_eq_ok.1 h
    cases h
  | cons t ts =>
    obtain ⟨k, span⟩ := t
    obtain ⟨span', us, rfl, hus⟩ := kindsOf_eq_cons hu
    rw [property] at h ⊢
    dsimp only at h ⊢
    split at h
    all_goals
      first
        | cases h; done
        | obtain rfl := Except.ok.inj h
          exact ⟨_, rfl, rfl, hus⟩

mutual
theorem parseExpr_within (hks : BindsNothing ks) {level : Nat} {ts us : List Token}
    {p : Parsed Expr ts.length} (h : parseExpr fin level ts = .ok p)
    (hu : kindsOf us = kindsOf ts ++ ks) :
    Yields (parseExpr (.eof stop) level us) (·.bare = p.value.bare) (kindsOf p.rest ++ ks) := by
  rw [parseExpr] at h
  obtain ⟨q, hq, h⟩ := bind_eq_ok.1 h
  obtain ⟨r, hr, h⟩ := bind_eq_ok.1 h
  obtain rfl := Except.ok.inj h
  have := q.bound
  exact yields_parseExpr (parseOperand_within hks hq hu)
    fun _ _ _ hleft hrest => (climb_within hks hleft hr hrest :)
termination_by 4 * ts.length + 1
decreasing_by all_goals omega

theorem parseOperand_within (hks : BindsNothing ks) {ts us : List Token}
    {p : Parsed Expr ts.length} (h : parseOperand fin ts = .ok p)
    (hu : kindsOf us = kindsOf ts ++ ks) :
    Yields (parseOperand (.eof stop) us) (·.bare = p.value.bare) (kindsOf p.rest ++ ks) := by
  cases ts with
  | nil =>
    rw [parseOperand] at h
    obtain ⟨t, -, h⟩ := bind_eq_ok.1 h
    cases h
  | cons t ts =>
    obtain ⟨k, span⟩ := t
    obtain ⟨span', us, rfl, hus⟩ := kindsOf_eq_cons hu
    rw [parseOperand] at h ⊢
    dsimp only at h ⊢
    split at h
    · obtain rfl := Except.ok.inj h
      exact ⟨_, rfl, rfl, hus⟩
    · split at h
      · obtain ⟨q, hq, h⟩ := bind_eq_ok.1 h
        obtain rfl := Except.ok.inj h
        refine (parseExpr_within hks hq hus).bind fun q' hq' hrest => ⟨_, rfl, ?_, hrest⟩
        simp only [Expr.bare, hq']
      · split at h
        · obtain rfl := Except.ok.inj h
          exact ⟨_, rfl, rfl, hus⟩
        · obtain ⟨q, hq, h⟩ := bind_eq_ok.1 h
          obtain rfl := Except.ok.inj h
          refine (parseItems_within hks hq hus).bind fun q' hq' hrest => ⟨_, rfl, ?_, hrest⟩
          simp only [Expr.bare, hq']
        · obtain ⟨q, hq, h⟩ := bind_eq_ok.1 h
          obtain rfl := Except.ok.inj h
          refine (parseFields_within hks hq hus).bind fun q' hq' hrest => ⟨_, rfl, ?_, hrest⟩
          simp only [Expr.bare, hq']
        · obtain ⟨q, hq, h⟩ := bind_eq_ok.1 h
          obtain ⟨r, hr, h⟩ := bind_eq_ok.1 h
          obtain rfl := Except.ok.inj h
          refine (parseExpr_within hks hq hus).bind fun q' hq' hrest => ?_
          rw [kindsOf_of_expect hr] at hrest
          refine (yields_expect q'.last hrest).bind fun r' _ hrest => ⟨_, rfl, ?_, hrest⟩
          exact (bare_withSpan _ _).trans (hq'.trans (bare_withSpan _ _).symm)
        · cases h
termination_by 4 * ts.length
decreasing_by all_goals subst_vars; rw [List.length_cons]; omega

theorem climb_within (hks : BindsNothing ks) {level : Nat} {left left' : Expr}
    (hleft : left'.bare = left.bare) {last last' : Span} {ts us : List Token}
    {p : Parsed Expr (ts.length + 1)} (h : climb fin level left last ts = .ok p)
    (hu : kindsOf us = kindsOf ts ++ ks) :
    Yields (climb (.eof stop) level left' last' us) (·.bare = p.value.bare)
      (kindsOf p.rest ++ ks) := by
  cases ts with
  | nil =>
    rw [climb] at h
    obtain ⟨t, -, h⟩ := bind_eq_ok.1 h
    obtain rfl := Except.ok.inj h
    exact yields_stop last' hleft hu (hks.headLevel_append [] (Nat.zero_le level))
  | cons t ts =>
    rw [climb] at h
    split at h
    · next hl =>
      obtain ⟨k, span⟩ := t
      obtain ⟨span', us, rfl, hus⟩ := kindsOf_eq_cons hu
      obtain ⟨q, hq, h⟩ := bind_eq_ok.1 h
      obtain ⟨r, hr, h⟩ := bind_eq_ok.1 h
      obtain rfl := Except.ok.inj h
      have := q.bound
      exact yields_climb hl (parseSuffix_within hks hleft hq hus)
        fun _ _ _ hleft hrest => (climb_within hks hleft hr hrest :)
    · next hl =>
      obtain rfl := Except.ok.inj h
      exact yields_stop last' hleft hu
        (hks.headLevel_append (t :: ts) (Nat.not_lt.1 hl))
termination_by 4 * ts.length
decreasing_by all_goals subst_vars; rw [List.length_cons]; omega

theorem parseSuffix_within (hks : BindsNothing ks) {left left' : Expr}
    (hleft : left'.bare = left.bare) {k : Kind} {span span' : Span} {ts us : List Token}
    {p : Parsed Expr (ts.length + 1)} (h : parseSuffix fin left ⟨k, span⟩ ts = .ok p)
    (hu : kindsOf us = kindsOf ts ++ ks) :
    Yields (parseSuffix (.eof stop) left' ⟨k, span'⟩ us) (·.bare = p.value.bare)
      (kindsOf p.rest ++ ks) := by
  rw [parseSuffix] at h ⊢
  dsimp only at h ⊢
  split at h
  · obtain ⟨y, hy, h⟩ := bind_eq_ok.1 h
    obtain ⟨c, hc, h⟩ := bind_eq_ok.1 h
    obtain ⟨n, hn, h⟩ := bind_eq_ok.1 h
    obtain rfl := Except.ok.inj h
    have := Nat.lt_trans c.bound y.bound
    refine (parseExpr_within hks hy hu).bind fun y' hy' hrest => ?_
    rw [kindsOf_of_expect hc] at hrest
    refine (yields_expect y'.last hrest).bind fun c' _ hrest => ?_
    refine (parseExpr_within hks hn hrest).bind fun n' hn' hrest => ⟨_, rfl, ?_, hrest⟩
    simp only [Expr.bare, hleft, hy', hn']
  · obtain ⟨q, hq, h⟩ := bind_eq_ok.1 h
    obtain rfl := Except.ok.inj h
    refine (parseItems_within hks hq hu).bind fun q' hq' hrest => ⟨_, rfl, ?_, hrest⟩
    simp only [Expr.bare, hleft, hq']
  · obtain ⟨q, hq, h⟩ := bind_eq_ok.1 h
    obtain ⟨r, hr, h⟩ := bind_eq_ok.1 h
    obtain rfl := Except.ok.inj h
    refine (parseExpr_within hks hq hu).bind fun q' hq' hrest => ?_
    rw [kindsOf_of_expect hr] at hrest
    refine (yields_expect q'.last hrest).bind fun r' _ hrest => ⟨_, rfl, ?_, hrest⟩
    simp only [Expr.bare, hleft, hq']
  · obtain ⟨q, hq, h⟩ := bind_eq_ok.1 h
    obtain rfl := Except.ok.inj h
    refine (property_within hq hu).bind fun q' hq' hrest => ⟨_, rfl, ?_, hrest⟩
    simp only [Expr.bare, hleft, hq']
  · obtain ⟨q, hq, h⟩ := bind_eq_ok.1 h
    obtain rfl := Except.ok.inj h
    refine (property_within hq hu).bind fun q' hq' hrest => ⟨_, rfl, ?_, hrest⟩
    simp only [Expr.bare, hleft, hq']
  · split at h
    · obtain ⟨q, hq, h⟩ := bind_eq_ok.1 h
      obtain rfl := Except.ok.inj h
      refine (parseExpr_within hks hq hu).bind fun q' hq' hrest => ⟨_, rfl, ?_, hrest⟩
      simp only [Expr.bare, hleft, hq']
    · cases h
  · cases h
termination_by 4 * ts.length + 3
decreasing_by all_goals omega

theorem parseItems_within (hks : BindsNothing ks) {close : Sign} {ts us : List Token}
    {p : Parsed (List Expr) ts.length} (h : parseItems fin close ts = .ok p)
    (hu : kindsOf us = kindsOf ts ++ ks) :
    Yields (parseItems (.eof stop) close us) (bareExprs · = bareExprs p.value)
      (kindsOf p.rest ++ ks) := by
  cases ts with
  | nil =>
    rw [parseItems] at h
    obtain ⟨t, -, h⟩ := bind_eq_ok.1 h
    cases h
  | cons t ts =>
    obtain ⟨k, span⟩ := t
    obtain ⟨span', us, rfl, hus⟩ := kindsOf_eq_cons hu
    rw [parseItems] at h
    split at h
    · next hk =>
      obtain rfl := Except.ok.inj h
      rw [parseItems, if_pos hk]
      exact ⟨_, rfl, rfl, hus⟩
    · next hk =>
      obtain ⟨q, hq, h⟩ := bind_eq_ok.1 h
      have hitem := parseExpr_within hks hq hu
      have hopen : k.isSign close = false := Bool.not_eq_true _ ▸ hk
      split at h
      · next c rest hrest =>
        have hshort : rest.length < ts.length + 1 := q.tail_bound hrest
        rw [hrest] at hitem
        split at h
        · next hcomma =>
          obtain ⟨r, hr, h⟩ := bind_eq_ok.1 h
          obtain rfl := Except.ok.inj h
          rw [kindsOf, List.map_cons, Kind.isSign_iff.1 hcomma] at hitem
          refine (yields_nextItem hopen hitem fun rest' hrest' =>
            parseItems_within hks hr hrest').imp ?_
          rintro _ ⟨e, more, rfl, he, hmore⟩
          rw [bareExprs, bareExprs, he, hmore]
        · next hcomma =>
          obtain ⟨r, hr, h⟩ := bind_eq_ok.1 h
          obtain rfl := Except.ok.inj h
          have hclose := (congrArg kindsOf hrest).symm.trans (kindsOf_of_expect hr)
          have hother : close ≠ .comma := by
            rintro rfl
            exact hcomma (Kind.isSign_iff.2 (List.cons.inj hclose).1)
          rw [← hrest, kindsOf_of_expect hr] at hitem
          refine (yields_lastItem hopen hother hitem).imp ?_
          rintro _ ⟨e, rfl, he⟩
          rw [bareExprs, bareExprs, he]
          rfl
      · next hrest =>
        obtain ⟨r, hr, -⟩ := bind_eq_ok.1 h
        cases (congrArg kindsOf hrest).symm.trans (kindsOf_of_expect hr)
termination_by 4 * ts.length + 2
decreasing_by all_goals subst_vars; simp only [List.length_cons]; omega

theorem parseFields_within (hks : BindsNothing ks) {ts us : List Token}
    {p : Parsed (List (Key × Expr)) ts.length} (h : parseFields fin ts = .ok p)
    (hu : kindsOf us = kindsOf ts ++ ks) :
    Yields (parseFields (.eof stop) us) (bareFields · = bareFields p.value)
      (kindsOf p.rest ++ ks) := by
  cases ts with
  | nil =>
    rw [parseFields] at h
    obtain ⟨t, -, h⟩ := bind_eq_ok.1 h
    cases h
  | cons t ts =>
    obtain ⟨k, span⟩ := t
    obtain ⟨span', us, rfl, hus⟩ := kindsOf_eq_cons hu
    rw [parseFields] at h
    split at h
    · next hk =>
      obtain rfl := Except.ok.inj h
      rw [parseFields, if_pos hk]
      exact ⟨_, rfl, rfl, hus⟩
    · dsimp only at h
      split at h
      · cases h
      · next key hkey =>
        obtain ⟨q, hq, h⟩ := bind_eq_ok.1 h
        have hfield := (parseField_within hks hq hus : Yields (parseField _ _ span' us) _ _)
        split at h
        · next c rest hrest =>
          have hshort : rest.length < ts.length + 1 := q.tail_bound hrest
          rw [hrest] at hfield
          split at h
          · next hcomma =>
            obtain ⟨r, hr, h⟩ := bind_eq_ok.1 h
            obtain rfl := Except.ok.inj h
            rw [kindsOf, List.map_cons, Kind.isSign_iff.1 hcomma] at hfield
            refine (yields_nextField hkey hfield fun rest' hrest' =>
              parseFields_within hks hr hrest').imp ?_
            rintro _ ⟨f, more, rfl, ⟨hname, he⟩, hmore⟩
            rw [bareFields, bareFields, hname, he, hmore]
          · obtain ⟨r, hr, h⟩ := bind_eq_ok.1 h
            obtain rfl := Except.ok.inj h
            rw [← hrest, kindsOf_of_expect hr] at hfield
            refine (yields_lastField hkey hfield).imp ?_
            rintro _ ⟨f, rfl, hname, he⟩
            rw [bareFields, bareFields, hname, he]
            rfl
        · next hrest =>
          obtain ⟨r, hr, -⟩ := bind_eq_ok.1 h
          cases (congrArg kindsOf hrest).symm.trans (kindsOf_of_expect hr)
termination_by 4 * ts.length + 2
decreasing_by all_goals subst_vars; simp only [List.length_cons]; omega

theorem parseField_within (hks : BindsNothing ks) {key : String} {span span' : Span}
    {ts us : List Token} {p : Parsed (Key × Expr) (ts.length + 1)}
    (h : parseField fin key span ts = .ok p) (hu : kindsOf us = kindsOf ts ++ ks) :
    Yields (parseField (.eof stop) key span' us)
      (fun f => f.1 = p.value.1 ∧ f.2.bare = p.value.2.bare) (kindsOf p.rest ++ ks) := by
  cases ts with
  | nil =>
    rw [parseField] at h
    obtain ⟨t, -, h⟩ := bind_eq_ok.1 h
    obtain rfl := Except.ok.inj h
    obtain ⟨k, r, rfl, -, hcolon⟩ := hks
    refine (yields_shorthand hu nofun ?_).imp ?_
    · rintro r' h
      rw [(List.cons.inj h).1] at hcolon
      cases hcolon
    · rintro _ rfl
      exact ⟨rfl, rfl⟩
  | cons t ts =>
    obtain ⟨k, place⟩ := t
    obtain ⟨place', us, rfl, hus⟩ := kindsOf_eq_cons hu
    rw [parseField] at h ⊢
    split at h
    · next hcolon =>
      obtain ⟨q, hq, h⟩ := bind_eq_ok.1 h
      obtain rfl := Except.ok.inj h
      rw [if_pos hcolon]
      exact (parseExpr_within hks hq hus).bind fun q' hq' hrest => ⟨_, rfl, ⟨rfl, hq'⟩, hrest⟩
    · next hcolon =>
      obtain rfl := Except.ok.inj h
      rw [if_neg hcolon]
      exact ⟨_, rfl, ⟨rfl, rfl⟩, hu⟩
termination_by 4 * ts.length
decreasing_by all_goals subst_vars; rw [List.length_cons]; omega
end

/-- The tokens `own` are read as `e`, whatever follows that binds nothing. -/
def Stands (own : List Kind) (e : Expr) : Prop :=
  ∀ ⦃stop ks ts⦄, BindsNothing ks → kindsOf ts = own ++ ks →
    Yields (parseExpr (.eof stop) 0 ts) (·.bare = e.bare) ks

theorem Stands.operand {own : List Kind} {e : Expr} (h : Stands own e) {ts : List Token}
    (ht : kindsOf ts = .sign .lparen :: (own ++ Kind.sign .rparen :: ks)) :
    Yields (parseOperand (.eof stop) ts) (·.bare = e.bare) ks := by
  obtain ⟨span, r, rfl, hr⟩ := kindsOf_eq_cons ht
  rw [parseOperand]
  dsimp only [Kind.literal?, Kind.unaryOp?]
  refine (h ⟨_, _, rfl, rfl, rfl⟩ hr).bind fun p hp hrest => ?_
  refine (yields_expect p.last hrest).bind fun q _ hleft => ?_
  exact ⟨_, rfl, (bare_withSpan _ _).trans hp, hleft⟩

end

/-! ## Texts -/

def ReadAs (cs : List Char) (ks : List Kind) : Prop :=
  ∀ pos, kindsOf (tokensFrom pos cs).list = ks ∧ ∃ stop, (tokensFrom pos cs).finish = .eof stop

section

variable {cs u v : List Char} {k : Kind} {ks ls : List Kind}

theorem readAs_nil : ReadAs [] [] := fun pos => by
  rw [tokensFrom_blank rfl]
  exact ⟨rfl, _, rfl⟩

theorem ReadAs.cons {c : Char} {stop : Nat} (hblank : Text.isBlank c = false)
    (hread : readToken 0 (c :: cs) = .ok ⟨k, stop, v⟩) (h : ReadAs v ks) :
    ReadAs (c :: cs) (k :: ks) := fun pos => by
  obtain ⟨next, hmoved⟩ := readToken_move hread (startOf pos (c :: cs))
  obtain ⟨hkinds, hfinish⟩ := h next
  rw [tokensFrom_token (stops_cons hblank).dropWhile hmoved]
  exact ⟨congrArg (k :: ·) hkinds, hfinish⟩

theorem ReadAs.blank {c : Char} (hc : Text.isBlank c = true) (h : ReadAs v ks) :
    ReadAs (c :: v) ks := fun pos => by
  have hskip : tokensFrom pos (c :: v) = tokensFrom (pos + Text.width [c]) v :=
    tokensFrom_skip (u := [c]) (by simp [hc])
  rw [hskip]
  exact h _

theorem ReadAs.append (h : ReadAs u ks) (hv : Apart v) (h' : ReadAs v ls) :
    ReadAs (u ++ v) (ks ++ ls) := fun pos => by
  obtain ⟨hkinds, stop, hstop⟩ := h pos
  obtain ⟨next, hlist, hfinish⟩ := tokensFrom_append hv pos u hstop
  obtain ⟨hkinds', hfinish'⟩ := h' next
  rw [kindsOf, hlist, hfinish, List.map_append]
  exact ⟨congr (congrArg (· ++ ·) hkinds) hkinds', hfinish'⟩

theorem readAs_legible (h : Legible k) : ReadAs k.spelled [k] := by
  obtain ⟨c, cs, stop, hk, hblank, hread⟩ := h
  rw [hk]
  exact readAs_nil.cons hblank hread

def singleSigns : List (Char × Sign) :=
  [('(', .lparen), (')', .rparen), ('[', .lbracket), (']', .rbracket), ('\x7b', .lbrace),
    ('\x7d', .rbrace), (':', .colon), ('.', .dot), (',', .comma)]

def endSigns : List (Char × Sign) :=
  [(')', .rparen), (']', .rbracket), ('\x7d', .rbrace), (':', .colon), (',', .comma)]

theorem endSigns_spec : ∀ p ∈ endSigns, endsToken p.1 = true ∧ p ∈ singleSigns := by
  decide

theorem readToken_single {c : Char} {s : Sign} (hc : (c, s) ∈ singleSigns) (pos : Nat) :
    readToken pos (c :: cs) = .ok ⟨.sign s, pos + 1, cs⟩ := by
  have hall : ∀ p ∈ singleSigns, p.2.text.toList = [p.1] ∧ p.2.taken = [] ∧ p.1.utf8Size = 1 := by
    decide
  obtain ⟨htext, htaken, hsize⟩ := hall (c, s) hc
  have hread := readToken_sign pos s (r := cs) (by rw [htaken]; exact List.forall_mem_nil _)
  rwa [htext, Text.width, Text.width, hsize] at hread

theorem isBlank_single {c : Char} {s : Sign} (hc : (c, s) ∈ singleSigns) :
    Text.isBlank c = false := by
  have hall : ∀ p ∈ singleSigns, Text.isBlank p.1 = false := by decide +kernel
  exact hall (c, s) hc

theorem ReadAs.single {c : Char} {s : Sign} (h : ReadAs cs ks) (hc : (c, s) ∈ singleSigns) :
    ReadAs (c :: cs) (.sign s :: ks) :=
  h.cons (isBlank_single hc) (readToken_single hc 0)

theorem ReadAs.upTo {c : Char} {s : Sign} (h : ReadAs u ks) (h' : ReadAs v ls)
    (hc : (c, s) ∈ endSigns) : ReadAs (u ++ c :: v) (ks ++ Kind.sign s :: ls) := by
  obtain ⟨hends, hsingle⟩ := endSigns_spec _ hc
  exact h.append (fun d hd => Option.some.inj hd ▸ hends) (h'.single hsingle)

theorem ReadAs.grouped (h : ReadAs u ks) (h' : ReadAs v ls) :
    ReadAs ('(' :: (u ++ ')' :: v)) (.sign .lparen :: (ks ++ Kind.sign .rparen :: ls)) :=
  (h.upTo h' (by decide)).single (by decide)

end

/-- The text of an expression, as tokens that stand wherever they are. -/
theorem exists_stands_of_parse {s : String} {e : Expr} (h : parse s = .ok e) :
    ∃ own, ReadAs s.toList own ∧ Stands own e := by
  obtain ⟨-, stop, hstop⟩ := run_of_parse h
  obtain ⟨p, hp, h⟩ := bind_eq_ok.1 h
  refine ⟨kindsOf (tokenize s).list, fun pos => tokensFrom_move hstop pos, ?_⟩
  intro stop' ks ts hks hts
  split at h
  · next hrest =>
    obtain ⟨_, -, h⟩ := bind_eq_ok.1 h
    obtain rfl := Except.ok.inj h
    have hread : Yields (parseExpr (.eof stop') 0 ts) _ _ := parseExpr_within hks hp hts
    rwa [hrest] at hread
  · cases h

theorem parse_of_readAs {s : String} {ks : List Kind} {wanted : Expr → Prop}
    (h : ReadAs s.toList ks)
    (hread : ∀ stop ts, kindsOf ts = ks → Yields (parseExpr (.eof stop) 0 ts) wanted []) :
    ∃ e, parse s = .ok e ∧ wanted e := by
  obtain ⟨hkinds, stop, hstop⟩ := h 0
  obtain ⟨⟨e, last, rest, _⟩, hp, he, hrest⟩ := hread stop _ hkinds
  obtain rfl := List.map_eq_nil_iff.1 hrest
  refine ⟨e, ?_, he⟩
  rw [parse, tokenize, hstop, hp]
  rfl

/-! ## Values -/

theorem exists_ref_of_bare {e : Expr} {span : Span} {n : Ident} (h : e.bare = .ref span n) :
    ∃ span n, e = .ref span n := by
  cases e with
  | ref span n => exact ⟨span, n, rfl⟩
  | _ => cases h

theorem exists_member_of_bare {e o : Expr} {span : Span} {n : Ident}
    (h : e.bare = .member span o n) : ∃ span o n, e = .member span o n := by
  cases e with
  | member span o n => exact ⟨span, o, n, rfl⟩
  | _ => cases h

section

variable (scope : Scope)

mutual
/-- Evaluation does not look at places. -/
theorem eval_bare : (e : Expr) → e.bare.eval scope = e.eval scope
  | .lit _ l => by simp only [Expr.bare, eval]
  | .ref _ n => by rw [Expr.bare, eval, eval, Ident.bare]
  | .array _ xs => by rw [Expr.bare, eval, eval, evalAll_bare xs]
  | .object _ ps => by rw [Expr.bare, eval, eval, evalFields_bare ps]
  | .member _ e n => by rw [Expr.bare, eval, eval, eval_bare e, Ident.bare]
  | .index _ e k => by rw [Expr.bare, eval, eval, eval_bare e, eval_bare k]
  | .call _ e xs => by
    have hargs := evalAll_bare xs
    -- the callee is looked at, not evaluated, where it is a name or a method of one
    cases e with
    | ref span n => rw [Expr.bare, Expr.bare, eval, eval, hargs, Ident.bare]
    | member span o m =>
      have ho := eval_bare o
      cases o with
      | ref span n => rw [Expr.bare, Expr.bare, Expr.bare, eval, eval, hargs, Ident.bare,
          Ident.bare]
      | _ =>
        rw [Expr.bare, Expr.bare, eval, eval, hargs, ho, Ident.bare]
        · exact nofun
        · exact fun _ _ h => nomatch exists_ref_of_bare h
    | _ =>
      rw [Expr.bare, eval, eval, hargs]
      · exact nofun
      · exact nofun
      · exact nofun
      · exact fun _ _ h => nomatch exists_ref_of_bare h
      · exact fun _ _ _ _ h => nomatch exists_member_of_bare h
      · exact fun _ _ _ h => nomatch exists_member_of_bare h
  | .unary _ op e => by rw [Expr.bare, eval, eval, eval_bare e]
  | .binary _ op l r => by rw [Expr.bare, eval, eval, eval_bare l, eval_bare r]
  | .cond _ t y n => by rw [Expr.bare, eval, eval, eval_bare t, eval_bare y, eval_bare n]
theorem evalAll_bare : (es : List Expr) → evalAll scope (bareExprs es) = evalAll scope es
  | [] => rfl
  | e :: es => by rw [bareExprs, evalAll, evalAll, eval_bare e, evalAll_bare es]
theorem evalFields_bare : (ps : List (Key × Expr)) →
    evalFields scope (bareFields ps) = evalFields scope ps
  | [] => rfl
  | (key, e) :: ps => by rw [bareFields, evalFields, evalFields, eval_bare e, evalFields_bare ps]
end

end

end Stencil.Expr
