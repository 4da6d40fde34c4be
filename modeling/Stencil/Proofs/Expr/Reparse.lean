import Stencil.Proofs.Expr.Legible

/-! # Parsing printed expressions

Where the tokens of an expression stand behind an operator, the parser builds the expression up and
goes on with what follows it, provided that the operator in front binds less tightly than the
expression and the one behind it no more tightly. Printing puts parentheses wherever this would
fail. -/

namespace Stencil.Expr

def kindsOf (ts : List Token) : List Kind :=
  ts.map (·.kind)

theorem kindsOf_eq_cons {ts : List Token} {k : Kind} {ks : List Kind} (h : kindsOf ts = k :: ks) :
    ∃ span r, ts = ⟨k, span⟩ :: r ∧ kindsOf r = ks := by
  cases ts with
  | nil => cases h
  | cons t r =>
    obtain ⟨rfl, hks⟩ := List.cons.inj h
    exact ⟨t.span, r, rfl, hks⟩

def headLevel : List Kind → Nat
  | [] => 0
  | k :: _ => k.level

def Yields {α : Type} {n : Nat} (r : Except SyntaxError (Parsed α n)) (wanted : α → Prop)
    (ks : List Kind) : Prop :=
  ∃ p, r = .ok p ∧ wanted p.value ∧ kindsOf p.rest = ks

theorem Yields.bind {α β : Type} {n m : Nat} {x : Except SyntaxError (Parsed α n)}
    {f : Parsed α n → Except SyntaxError (Parsed β m)} {a : α → Prop} {b : β → Prop}
    {ks ls : List Kind} (hx : Yields x a ks)
    (hf : ∀ p, a p.value → kindsOf p.rest = ks → Yields (f p) b ls) : Yields (x >>= f) b ls := by
  obtain ⟨p, rfl, ha, hrest⟩ := hx
  exact hf p ha hrest

theorem Yields.imp {α : Type} {n : Nat} {r : Except SyntaxError (Parsed α n)} {a b : α → Prop}
    {ks : List Kind} (h : Yields r a ks) (hab : ∀ v, a v → b v) : Yields r b ks := by
  obtain ⟨p, hp, ha, hrest⟩ := h
  exact ⟨p, hp, hab _ ha, hrest⟩

section

variable {fin : End} {level : Nat} {ts : List Token} {ks ls : List Kind} {wanted a : Expr → Prop}

/-! ## One step of the parser -/

theorem yields_expect {want : Sign} (last : Span) (ht : kindsOf ts = .sign want :: ks) :
    Yields (expect fin want last ts) (fun _ => True) ks := by
  obtain ⟨span, r, rfl, hr⟩ := kindsOf_eq_cons ht
  rw [expect, if_pos (Kind.isSign_iff.2 rfl)]
  exact ⟨_, rfl, trivial, hr⟩

theorem yields_property {n : Ident} (ht : kindsOf ts = wordKind n.name :: ks) :
    Yields (property fin ts) (·.bare = n.bare) ks := by
  obtain ⟨span, r, rfl, hr⟩ := kindsOf_eq_cons ht
  rw [property]
  unfold wordKind
  cases hk : Keyword.ofName? n.name with
  | none => exact ⟨_, rfl, rfl, hr⟩
  | some k =>
    exact ⟨_, rfl, congrArg (Ident.mk · ⟨0, 0⟩) (Keyword.name_of_ofName? hk).symm, hr⟩

theorem yields_parseExpr (hx : Yields (parseOperand fin ts) a ks)
    (hmore : ∀ e last rest, a e → kindsOf rest = ks →
      Yields (climb fin level e last rest) wanted ls) :
    Yields (parseExpr fin level ts) wanted ls := by
  rw [parseExpr]
  exact hx.bind fun p hp hrest => (hmore p.value p.last p.rest hp hrest).bind
    fun q hq hleft => ⟨_, rfl, hq, hleft⟩

theorem yields_climb {left : Expr} {last : Span} {t : Token} {r : List Token}
    (hl : level < t.kind.level) (hx : Yields (parseSuffix fin left t r) a ks)
    (hmore : ∀ e last rest, a e → kindsOf rest = ks →
      Yields (climb fin level e last rest) wanted ls) :
    Yields (climb fin level left last (t :: r)) wanted ls := by
  rw [climb, if_pos hl]
  exact hx.bind fun p hp hrest => (hmore p.value p.last p.rest hp hrest).bind
    fun q hq hleft => ⟨_, rfl, hq, hleft⟩

theorem yields_stop {stop : Nat} {e : Expr} (last : Span) (he : wanted e) (ht : kindsOf ts = ks)
    (hl : headLevel ks ≤ level) : Yields (climb (.eof stop) level e last ts) wanted ks := by
  subst ht
  cases ts with
  | nil =>
    rw [climb]
    exact ⟨_, rfl, he, rfl⟩
  | cons t r =>
    have hl : t.kind.level ≤ level := hl
    rw [climb, if_neg (Nat.not_lt.2 hl)]
    exact ⟨_, rfl, he, rfl⟩

theorem yields_binary {op : BinaryOp} {left : Expr} {span : Span} {r : List Token}
    (hx : Yields (parseExpr fin op.sign.level r) a ks) :
    Yields (parseSuffix fin left ⟨.sign op.sign, span⟩ r)
      (fun e => ∃ s right, e = .binary s op left right ∧ a right) ks := by
  cases op <;>
    rw [parseSuffix] <;>
    exact hx.bind fun p hp hrest => ⟨_, rfl, ⟨_, p.value, rfl, hp⟩, hrest⟩

theorem yields_shorthand {name : String} {span : Span} (ht : kindsOf ts = ks) (hne : ks ≠ [])
    (hcolon : ∀ r, ks ≠ .sign .colon :: r) :
    Yields (parseField fin name span ts)
      (fun f => f = (⟨name, true⟩, .ref span ⟨name, span⟩)) ks := by
  cases ts with
  | nil => exact absurd ht.symm hne
  | cons t r =>
    have hother : t.kind.isSign .colon ≠ true := fun hc =>
      hcolon (kindsOf r) (by rw [← Kind.isSign_iff.1 hc]; exact ht.symm)
    rw [parseField, if_neg hother]
    exact ⟨_, rfl, rfl, ht⟩

theorem yields_lastItem {close : Sign} {a : Expr → Prop} {t : Token} {r : List Token}
    (ht : t.kind.isSign close = false) (hclose : close ≠ .comma)
    (hx : Yields (parseExpr fin 0 (t :: r)) a (.sign close :: ks)) :
    Yields (parseItems fin close (t :: r)) (fun es => ∃ e, es = [e] ∧ a e) ks := by
  rw [parseItems, if_neg (by simp [ht])]
  refine hx.bind fun p hp hrest => ?_
  split
  · next c rest hr =>
    have hc : c.kind = .sign close := (List.cons.inj (hr ▸ hrest)).1
    rw [if_neg (by simpa [hc, Kind.isSign] using hclose)]
    refine (yields_expect p.last hrest).bind fun q _ hleft => ?_
    exact ⟨_, rfl, ⟨p.value, rfl, hp⟩, hleft⟩
  · next hr =>
    rw [hr] at hrest
    cases hrest

theorem yields_nextItem {close : Sign} {a : Expr → Prop} {b : List Expr → Prop} {t : Token}
    {r : List Token} (ht : t.kind.isSign close = false)
    (hx : Yields (parseExpr fin 0 (t :: r)) a (.sign .comma :: ks))
    (hmore : ∀ rest, kindsOf rest = ks → Yields (parseItems fin close rest) b ls) :
    Yields (parseItems fin close (t :: r))
      (fun es => ∃ e more, es = e :: more ∧ a e ∧ b more) ls := by
  rw [parseItems, if_neg (by simp [ht])]
  refine hx.bind fun p hp hrest => ?_
  split
  · next c rest hr =>
    obtain ⟨hc, hks⟩ := List.cons.inj (hr ▸ hrest)
    rw [if_pos (Kind.isSign_iff.2 hc)]
    refine (hmore rest hks).bind fun q hq hleft => ?_
    exact ⟨_, rfl, ⟨p.value, q.value, rfl, hp, hq⟩, hleft⟩
  · next hr =>
    rw [hr] at hrest
    cases hrest

theorem isSign_of_key? {k : Kind} {name : String} {s : Sign} (h : k.key? = some name) :
    k.isSign s = false := by
  cases k with
  | sign => cases h
  | _ => rfl

theorem yields_lastField {a : Key × Expr → Prop} {key : String} {t : Token} {r : List Token}
    (ht : t.kind.key? = some key)
    (hx : Yields (parseField fin key t.span r) a (.sign .rbrace :: ks)) :
    Yields (parseFields fin (t :: r)) (fun fs => ∃ f, fs = [f] ∧ a f) ks := by
  rw [parseFields, if_neg (by simp [isSign_of_key? ht])]
  simp only [ht]
  refine hx.bind fun p hp hrest => ?_
  split
  · next c rest hr =>
    have hc : c.kind = .sign .rbrace := (List.cons.inj (hr ▸ hrest)).1
    rw [if_neg (by simp [hc, Kind.isSign])]
    refine (yields_expect p.last hrest).bind fun q _ hleft => ?_
    exact ⟨_, rfl, ⟨p.value, rfl, hp⟩, hleft⟩
  · next hr =>
    rw [hr] at hrest
    cases hrest

theorem yields_nextField {a : Key × Expr → Prop} {b : List (Key × Expr) → Prop} {key : String}
    {t : Token} {r : List Token} (ht : t.kind.key? = some key)
    (hx : Yields (parseField fin key t.span r) a (.sign .comma :: ks))
    (hmore : ∀ rest, kindsOf rest = ks → Yields (parseFields fin rest) b ls) :
    Yields (parseFields fin (t :: r)) (fun fs => ∃ f more, fs = f :: more ∧ a f ∧ b more) ls := by
  rw [parseFields, if_neg (by simp [isSign_of_key? ht])]
  simp only [ht]
  refine hx.bind fun p hp hrest => ?_
  split
  · next c rest hr =>
    obtain ⟨hc, hks⟩ := List.cons.inj (hr ▸ hrest)
    rw [if_pos (Kind.isSign_iff.2 hc)]
    refine (hmore rest hks).bind fun q hq hleft => ?_
    exact ⟨_, rfl, ⟨p.value, q.value, rfl, hp, hq⟩, hleft⟩
  · next hr =>
    rw [hr] at hrest
    cases hrest

end

/-! ## Expressions among operators -/

/-- An operator may stand in front of an expression if its level is lower than this: another
operator in front of an operand does not take a part of it. -/
def before : Expr → Nat
  | .unary _ _ _ => Sign.dot.level
  | e => e.level

/-- An operator may stand behind an expression if its level is no higher than this: the last part of
a conditional takes all operators. -/
def behind : Expr → Nat
  | .cond _ _ _ _ => 0
  | e => e.level

theorem level_le_before (e : Expr) : e.level ≤ e.before := by
  cases e with
  | unary => exact Nat.le_succ unaryLevel
  | _ => exact Nat.le_refl _

theorem level_le_behind {e : Expr} (h : Sign.question.level < e.level) : e.level ≤ e.behind := by
  cases e with
  | cond => exact absurd h (Nat.lt_irrefl _)
  | _ => exact Nat.le_refl _

theorem dot_le_before {e : Expr} (h : unaryLevel ≤ e.level) : Sign.dot.level ≤ e.before := by
  cases e with
  | binary _ op _ _ => exact absurd op.level_sign.2 (Nat.not_lt.2 h)
  | cond => exact absurd h (Nat.not_le.2 (by decide : Sign.question.level < unaryLevel))
  | _ => exact Nat.le_refl _

theorem level_pos (e : Expr) : 0 < e.level := by
  cases e with
  | binary _ op _ _ => exact Nat.zero_lt_of_lt op.level_sign.1
  | _ => simp [level, unaryLevel, Sign.level]

/-- The tokens `own` are read as `e` behind operators of a level below `m` and in front of those of
a level up to `n`; then the parser goes on with what is behind them. -/
def Reads (stop m n : Nat) (own : List Kind) (e : Expr) : Prop :=
  ∀ level ts ks wanted ls, level < m → headLevel ks ≤ n → kindsOf ts = own ++ ks →
    (∀ e' last rest, e'.bare = e.bare → kindsOf rest = ks →
      Yields (climb (.eof stop) level e' last rest) wanted ls) →
    Yields (parseExpr (.eof stop) level ts) wanted ls

section

variable {stop m n m' n' : Nat} {own : List Kind} {e : Expr}

theorem Reads.mono (h : Reads stop m n own e) (hm : m' ≤ m) (hn : n' ≤ n) :
    Reads stop m' n' own e :=
  fun level ts ks wanted ls hl hk => h level ts ks wanted ls (Nat.lt_of_lt_of_le hl hm)
    (Nat.le_trans hk hn)

theorem Reads.all (h : Reads stop m n own e) {level : Nat} {ts : List Token} {ks : List Kind}
    (ht : kindsOf ts = own ++ ks) (hm : level < m) (hn : headLevel ks ≤ n)
    (hl : headLevel ks ≤ level) :
    Yields (parseExpr (.eof stop) level ts) (·.bare = e.bare) ks :=
  h level ts ks _ ks hm hn ht fun _ last _ he hr => yields_stop last he hr hl

theorem Reads.all_inner (h : Reads stop e.before e.behind own e) {ts : List Token} {ks : List Kind}
    (ht : kindsOf ts = own ++ ks) (hk : headLevel ks = 0) :
    Yields (parseExpr (.eof stop) 0 ts) (·.bare = e.bare) ks :=
  h.all ht (Nat.lt_of_lt_of_le (level_pos e) (level_le_before e)) (hk ▸ Nat.zero_le _)
    (Nat.le_of_eq hk)

theorem not_loose {k l : Nat} (h : decide (k < l) = false) : l ≤ k :=
  Nat.not_lt.1 (of_decide_eq_false h)

theorem reads_operand (h : ∀ ts ks, headLevel ks ≤ n → kindsOf ts = own ++ ks →
    Yields (parseOperand (.eof stop) ts) (·.bare = e.bare) ks) : Reads stop m n own e :=
  fun _ ts ks _ _ _ hk ht hmore => yields_parseExpr (h ts ks hk ht) hmore

/-- Parentheses make an operand of any expression. -/
theorem Reads.grouped (h : Reads stop e.before e.behind own e) (loose : Bool)
    (hm : loose = false → m ≤ e.before) (hn : loose = false → n ≤ e.behind) :
    Reads stop m n (grouped loose own) e := by
  cases loose with
  | false => exact h.mono (hm rfl) (hn rfl)
  | true =>
    refine reads_operand fun ts ks _ ht => ?_
    rw [Expr.grouped, if_pos rfl, List.cons_append, List.append_assoc, List.singleton_append] at ht
    obtain ⟨span, r, rfl, hr⟩ := kindsOf_eq_cons ht
    have hpos : 0 < e.before := Nat.lt_of_lt_of_le (level_pos e) (level_le_before e)
    rw [parseOperand]
    dsimp only [Kind.literal?, Kind.unaryOp?]
    refine (h.all hr hpos (Nat.zero_le _) (Nat.le_refl 0)).bind fun p hp hrest => ?_
    refine (yields_expect p.last hrest).bind fun q _ hleft => ?_
    exact ⟨_, rfl, (bare_withSpan _ _).trans hp, hleft⟩

/-- An operand that is put in parentheses unless it is bound at least as tightly as `l`. -/
theorem Reads.operand (h : Reads stop e.before e.behind own e) (loose : Bool) {l : Nat}
    (hl : Sign.question.level < l) (hloose : loose = false → l ≤ e.level) :
    Reads stop l l (Expr.grouped loose own) e :=
  h.grouped loose (fun hf => Nat.le_trans (hloose hf) (level_le_before e)) fun hf =>
    Nat.le_trans (hloose hf) (level_le_behind (Nat.lt_of_lt_of_le hl (hloose hf)))

theorem Reads.suffix (h : Reads stop m n own e) {e' : Expr} {k : Kind} {tail : List Kind}
    (hk : k.level ≤ n) (hm : m' ≤ m) (hm' : m' ≤ k.level)
    (hsuffix : ∀ left span r ks, left.bare = e.bare → headLevel ks ≤ n' → kindsOf r = tail ++ ks →
      Yields (parseSuffix (.eof stop) left ⟨k, span⟩ r) (·.bare = e'.bare) ks) :
    Reads stop m' n' (own ++ k :: tail) e' := by
  intro level ts ks wanted ls hl hks ht hmore
  rw [List.append_assoc, List.cons_append] at ht
  refine h level ts (k :: (tail ++ ks)) wanted ls (Nat.lt_of_lt_of_le hl hm) hk ht ?_
  intro left last rest hleft hrest
  obtain ⟨span, r, rfl, hr⟩ := kindsOf_eq_cons hrest
  exact yields_climb (Nat.lt_of_lt_of_le hl hm') (hsuffix left span r ks hleft hks hr) hmore

end

/-! ## Printed expressions -/

def Kind.closes (k : Kind) : Bool :=
  k.isSign .rparen || k.isSign .rbracket

def StartsItem (own : List Kind) : Prop :=
  ∃ k r, own = k :: r ∧ k.closes = false

section

variable (quoted : Key → Expr → Bool)

theorem StartsItem.grouped {own : List Kind} (h : StartsItem own) (loose : Bool) :
    StartsItem (grouped loose own) := by
  cases loose with
  | true => exact ⟨_, _, rfl, rfl⟩
  | false => exact h

theorem StartsItem.append {own : List Kind} (h : StartsItem own) (tail : List Kind) :
    StartsItem (own ++ tail) := by
  obtain ⟨k, r, rfl, hk⟩ := h
  exact ⟨k, r ++ tail, rfl, hk⟩

theorem not_isSign_of_closes {close : Sign} (hclose : close = .rparen ∨ close = .rbracket)
    {k : Kind}
    (hk : k.closes = false) : k.isSign close = false := by
  simp only [Kind.closes, Bool.or_eq_false_iff] at hk
  rcases hclose with rfl | rfl
  · exact hk.1
  · exact hk.2

theorem startsItem_kinds : (e : Expr) → StartsItem (e.kinds quoted)
  | .lit _ value => ⟨_, _, rfl, by
    cases value with
    | bool b => cases b <;> rfl
    | _ => rfl⟩
  | .ref _ _ => ⟨_, _, rfl, rfl⟩
  | .array _ _ => ⟨_, _, rfl, rfl⟩
  | .object _ _ => ⟨_, _, rfl, rfl⟩
  | .member _ e _ => ((startsItem_kinds e).grouped _).append _
  | .index _ e _ => ((startsItem_kinds e).grouped _).append _
  | .call _ e _ => ((startsItem_kinds e).grouped _).append _
  | .unary _ op _ => ⟨_, _, rfl, by cases op <;> rfl⟩
  | .binary _ _ l _ => ((startsItem_kinds l).grouped _).append _
  | .cond _ t _ _ => ((startsItem_kinds t).grouped _).append _

theorem key?_wordKind (n : String) : (wordKind n).key? = some n := by
  unfold wordKind
  cases hk : Keyword.ofName? n with
  | none => rfl
  | some k => rw [Keyword.name_of_ofName? hk]; rfl

theorem key?_keyKind (quote : Bool) (n : String) : (keyKind quote n).key? = some n := by
  unfold keyKind
  split
  · exact key?_wordKind n
  · rfl

variable {stop : Nat}

theorem yields_parseField {key : Key} {e : Expr} {span : Span} {ts : List Token} {ks : List Kind}
    (h : if key.shorthand then e.bare = .ref ⟨0, 0⟩ ⟨key.name, ⟨0, 0⟩⟩ else e.Printable)
    (hreads : e.Printable → Reads stop e.before e.behind (e.kinds quoted) e)
    (ht : kindsOf ts = (if key.shorthand then [] else .sign .colon :: e.kinds quoted) ++ ks)
    (hcolon : ∀ r, ks ≠ .sign .colon :: r) (hne : ks ≠ []) (hk : headLevel ks = 0) :
    Yields (parseField (.eof stop) key.name span ts)
      (fun f => f.1 = key ∧ f.2.bare = e.bare) ks := by
  obtain ⟨name, shorthand⟩ := key
  cases shorthand with
  | true =>
    refine (yields_shorthand ht hne hcolon).imp ?_
    rintro _ rfl
    exact ⟨rfl, h.symm⟩
  | false =>
    obtain ⟨_, r, rfl, hr⟩ := kindsOf_eq_cons ht
    rw [parseField, if_pos (Kind.isSign_iff.2 rfl)]
    exact ((hreads h).all_inner hr hk).bind fun p hp hrest => ⟨_, rfl, ⟨rfl, hp⟩, hrest⟩

mutual
theorem reads_kinds : {e : Expr} → e.Printable →
    Reads stop e.before e.behind (e.kinds quoted) e
  | .lit _ value, _ => reads_operand fun ts ks _ ht => by
    obtain ⟨span, r, rfl, hr⟩ := kindsOf_eq_cons ht
    rw [parseOperand]
    dsimp only
    rw [Lit.literal?_kind]
    exact ⟨_, rfl, rfl, hr⟩
  | .ref _ n, _ => reads_operand fun ts ks _ ht => by
    obtain ⟨span, r, rfl, hr⟩ := kindsOf_eq_cons ht
    rw [parseOperand]
    exact ⟨_, rfl, rfl, hr⟩
  | .array _ xs, h => reads_operand fun ts ks _ ht => by
    rw [Expr.kinds, List.cons_append, List.append_assoc] at ht
    obtain ⟨span, r, rfl, hr⟩ := kindsOf_eq_cons ht
    rw [parseOperand]
    refine (yields_parseItems (.inr rfl) h hr).bind fun p hp hrest => ?_
    exact ⟨_, rfl, congrArg (Expr.array ⟨0, 0⟩) hp, hrest⟩
  | .object _ ps, h => reads_operand fun ts ks _ ht => by
    rw [Expr.kinds, List.cons_append, List.append_assoc] at ht
    obtain ⟨span, r, rfl, hr⟩ := kindsOf_eq_cons ht
    rw [parseOperand]
    refine (yields_parseFields h hr).bind fun p hp hrest => ?_
    exact ⟨_, rfl, congrArg (Expr.object ⟨0, 0⟩) hp, hrest⟩
  | .member _ e n, h => by
    have he := (reads_kinds h.1).operand _ (l := Sign.dot.level) (by decide) not_loose
    refine he.suffix (Nat.le_refl _) (Nat.le_refl _) (Nat.le_refl _) ?_
    intro left span r ks hleft _ hr
    rw [parseSuffix]
    refine (yields_property hr).bind fun p hp hrest => ⟨_, rfl, ?_, hrest⟩
    simp only [Expr.bare, hleft, hp]
  | .index _ e k, h => by
    have he := (reads_kinds h.1).operand _ (l := Sign.lbracket.level) (by decide) not_loose
    refine he.suffix (Nat.le_refl _) (Nat.le_refl _) (Nat.le_refl _) ?_
    intro left span r ks hleft _ hr
    rw [List.append_assoc] at hr
    rw [parseSuffix]
    refine ((reads_kinds h.2).all_inner hr rfl).bind fun p hp hrest => ?_
    refine (yields_expect p.last hrest).bind fun q _ hrest => ⟨_, rfl, ?_, hrest⟩
    simp only [Expr.bare, hleft, hp]
  | .call _ e xs, h => by
    have he := (reads_kinds h.1).operand _ (l := Sign.lparen.level) (by decide) not_loose
    refine he.suffix (Nat.le_refl _) (Nat.le_refl _) (Nat.le_refl _) ?_
    intro left span r ks hleft _ hr
    rw [List.append_assoc] at hr
    rw [parseSuffix]
    refine (yields_parseItems (.inl rfl) h.2 hr).bind fun p hp hrest => ⟨_, rfl, ?_, hrest⟩
    simp only [Expr.bare, hleft, hp]
  | .unary _ op e, h => reads_operand fun ts ks hk ht => by
    have he := (reads_kinds (e := e) h).grouped (m := Sign.dot.level) (n := unaryLevel)
      (e.level < unaryLevel) (fun hf => dot_le_before (not_loose hf)) (fun hf =>
        Nat.le_trans (not_loose hf)
          (level_le_behind (Nat.lt_of_lt_of_le (by decide) (not_loose hf))))
    obtain ⟨span, r, rfl, hr⟩ := kindsOf_eq_cons ht
    rw [parseOperand]
    dsimp only
    rw [UnaryOp.literal?_kind, UnaryOp.unaryOp?_kind]
    have hoperand := he.all hr (Nat.lt_succ_self unaryLevel) hk hk
    refine hoperand.bind fun p hp hrest => ⟨_, rfl, ?_, hrest⟩
    simp only [Expr.bare, hp]
  | .binary _ op l r, h => by
    have hop := op.level_sign
    have hl := (reads_kinds h.1).operand _ hop.1 not_loose
    have hr := (reads_kinds h.2).operand (r.level ≤ op.sign.level) (l := op.sign.level + 1)
      (Nat.lt_succ_of_lt hop.1) (fun hf => Nat.not_le.1 (of_decide_eq_false hf))
    refine hl.suffix (Nat.le_refl _) (Nat.le_refl _) (Nat.le_refl _) ?_
    intro left span ts ks hleft hk ht
    refine (yields_binary (hr.all ht (Nat.lt_succ_self _) (Nat.le_succ_of_le hk) hk)).imp ?_
    rintro _ ⟨s, right, rfl, hright⟩
    simp only [Expr.bare, hleft, hright]
  | .cond _ t y n, h => by
    have ht := (reads_kinds h.1).operand (t.level ≤ Sign.question.level)
      (l := Sign.question.level + 1) (by decide) (fun hf => Nat.not_le.1 (of_decide_eq_false hf))
    refine ht.suffix (Nat.le_succ _) (Nat.le_succ _) (Nat.le_refl _) ?_
    intro left span r ks hleft hk hr
    rw [List.append_assoc, List.cons_append] at hr
    rw [parseSuffix]
    refine ((reads_kinds h.2.1).all_inner hr rfl).bind fun p hp hrest => ?_
    refine (yields_expect p.last hrest).bind fun q _ hrest => ?_
    have hn := (reads_kinds h.2.2).all_inner hrest (Nat.le_zero.1 hk)
    refine hn.bind fun p' hp' hrest => ⟨_, rfl, ?_, hrest⟩
    simp only [Expr.bare, hleft, hp, hp']
theorem yields_parseItems {close : Sign} (hclose : close = .rparen ∨ close = .rbracket) :
    {xs : List Expr} → PrintableAll xs → {ts : List Token} → {ks : List Kind} →
    kindsOf ts = commaSeparated (kindsAll quoted xs) ++ Kind.sign close :: ks →
    Yields (parseItems (.eof stop) close ts) (bareExprs · = bareExprs xs) ks
  | [], _, ts, ks, ht => by
    obtain ⟨span, r, rfl, hr⟩ := kindsOf_eq_cons ht
    rw [parseItems, if_pos (Kind.isSign_iff.2 rfl)]
    exact ⟨_, rfl, rfl, hr⟩
  | [x], h, ts, ks, ht => by
    rw [kindsAll, kindsAll, commaSeparated_one] at ht
    obtain ⟨k, own, hx, hk⟩ := startsItem_kinds quoted x
    obtain ⟨span, r, rfl, -⟩ := kindsOf_eq_cons (by rw [ht, hx, List.cons_append])
    have hx := (reads_kinds h.1).all_inner ht (by rcases hclose with rfl | rfl <;> rfl)
    have hcomma : close ≠ .comma := by rcases hclose with rfl | rfl <;> nofun
    refine (yields_lastItem (not_isSign_of_closes hclose hk) hcomma hx).imp ?_
    rintro _ ⟨e, rfl, he⟩
    rw [bareExprs, bareExprs, he]
    rfl
  | x :: y :: ys, h, ts, ks, ht => by
    rw [kindsAll, kindsAll, commaSeparated_more, List.append_assoc, List.cons_append] at ht
    obtain ⟨k, own, hx, hk⟩ := startsItem_kinds quoted x
    obtain ⟨span, r, rfl, -⟩ := kindsOf_eq_cons (by rw [ht, hx, List.cons_append])
    have hx := (reads_kinds h.1).all_inner ht rfl
    refine (yields_nextItem (not_isSign_of_closes hclose hk) hx fun rest hr =>
      yields_parseItems hclose h.2 hr).imp ?_
    rintro _ ⟨e, more, rfl, he, hmore⟩
    rw [bareExprs, bareExprs, he, hmore]
theorem yields_parseFields : {ps : List (Key × Expr)} → PrintableFields ps →
    {ts : List Token} → {ks : List Kind} →
    kindsOf ts = commaSeparated (kindsFields quoted ps) ++ Kind.sign .rbrace :: ks →
    Yields (parseFields (.eof stop) ts) (bareFields · = bareFields ps) ks
  | [], _, ts, ks, ht => by
    obtain ⟨span, r, rfl, hr⟩ := kindsOf_eq_cons ht
    rw [parseFields, if_pos (Kind.isSign_iff.2 rfl)]
    exact ⟨_, rfl, rfl, hr⟩
  | [(key, e)], h, ts, ks, ht => by
    rw [kindsFields, kindsFields, commaSeparated_one, List.cons_append] at ht
    obtain ⟨span, r, rfl, hr⟩ := kindsOf_eq_cons ht
    refine (yields_lastField (key?_keyKind _ _)
      (yields_parseField quoted h.1 reads_kinds hr nofun nofun rfl)).imp ?_
    rintro _ ⟨⟨key', e'⟩, rfl, rfl, he⟩
    rw [bareFields, bareFields, he]
    rfl
  | (key, e) :: p :: ps, h, ts, ks, ht => by
    rw [kindsFields, kindsFields, commaSeparated_more, List.cons_append, List.cons_append,
      List.append_assoc, List.cons_append] at ht
    obtain ⟨span, r, rfl, hr⟩ := kindsOf_eq_cons ht
    refine (yields_nextField (key?_keyKind _ _)
      (yields_parseField quoted h.1 reads_kinds hr nofun nofun rfl)
      fun rest hr => yields_parseFields h.2 hr).imp ?_
    rintro _ ⟨⟨key', e'⟩, more, rfl, ⟨rfl, he⟩, hmore⟩
    rw [bareFields, bareFields, he, hmore]
end

/-- **Parsing inverts printing.** The parentheses that the levels of the operators ask for are
enough, at any depth: but for the places of its parts, the text of an expression is parsed as that
expression. -/
theorem parse_printed {e : Expr} (h : e.Printable) :
    ∃ e', parse (e.text quoted) = .ok e' ∧ e'.bare = e.bare := by
  obtain ⟨hlist, stop, hfinish⟩ := tokensFrom_spaced (allLegible_kinds quoted h) 0
  have htokens : kindsOf (tokenize (e.text quoted)).list = e.kinds quoted ++ [] := by
    rw [tokenize, Expr.text, String.toList_ofList, List.append_nil]
    exact hlist
  have heof : (tokenize (e.text quoted)).finish = .eof stop := by
    rw [tokenize, Expr.text, String.toList_ofList, hfinish]
  have hreads : Reads stop e.before e.behind (e.kinds quoted) e := reads_kinds quoted h
  obtain ⟨⟨value, last, rest, _⟩, hp, hbare, hrest⟩ := hreads.all_inner htokens rfl
  obtain rfl := List.map_eq_nil_iff.1 hrest
  refine ⟨value, ?_, hbare⟩
  rw [parse, heof, hp]
  rfl

end

/-- Parentheses around a conditional, an operand of a lower level, a right operand of the same level
and what is indexed, and none elsewhere; fields of all kinds. -/
theorem parse_printed_mixed :
    let place : Span := ⟨0, 0⟩
    let x n := Expr.ref place ⟨n, place⟩
    let num n := Expr.lit place (.num (Float.ofNat n))
    let fields := Expr.object place [(⟨"k", true⟩, x "k"), (⟨"in", false⟩, .lit place .null),
      (⟨"a b", false⟩, .array place [.lit place (.str "\"\n"), num 9007199254740991])]
    let value := Expr.call place (.index place (.unary place .typeof (x "s")) (num 2))
      [fields, x "y"]
    let product := Expr.binary place .mul (.binary place .or (x "p") (x "q"))
      (.binary place .mul (x "r") value)
    let e := Expr.cond place (.cond place (x "a") (x "b") (x "c"))
      (.unary place .minus (.member place (x "o") ⟨"if", place⟩)) product
    e.text (fun _ _ => false) = "( a ? b : c ) ? - o . if : ( p || q ) * ( r * ( typeof s ) " ++
        "[ 2 ] ( \x7b k , in : null , \"a b\" : [ \"\\\"\\n\" , 9007199254740991 ] \x7d , y ) )" ∧
      ∃ e', parse (e.text fun _ _ => false) = .ok e' ∧ e'.bare = e.bare := by
  intro place x num fields value product e
  have hx {n : String} (h : isWord n = true ∧ Keyword.ofName? n = none) : (x n).Printable :=
    ⟨(isWord_iff n).1 h.1, h.2⟩
  have hnum {n : Nat} (h : n < 2 ^ 53) : (num n).Printable := ⟨n, h, rfl⟩
  have hfields : fields.Printable := ⟨rfl, trivial, ⟨trivial, hnum (by decide), trivial⟩, trivial⟩
  have hvalue : value.Printable :=
    ⟨⟨hx (by decide +kernel), hnum (by decide)⟩, hfields, hx (by decide +kernel), trivial⟩
  have hproduct : product.Printable :=
    ⟨⟨hx (by decide +kernel), hx (by decide +kernel)⟩, hx (by decide +kernel), hvalue⟩
  refine ⟨by decide +kernel, parse_printed _ ⟨⟨?_, ?_, ?_⟩, ⟨?_, ?_⟩, hproduct⟩⟩
  · exact hx (by decide +kernel)
  · exact hx (by decide +kernel)
  · exact hx (by decide +kernel)
  · exact hx (by decide +kernel)
  · exact (isWord_iff _).1 (by decide +kernel)

end Stencil.Expr
