import Stencil.Expr.Parser
import Stencil.Proofs.Result

/-! # The shape of expressions

A machine that reads the tokens of an expression one by one and knows no more than the brackets that
are open and what may come next. It lets more through than the parser does, but it can tell whether
a token carries on what is complete already. -/

namespace Stencil.Expr

inductive Phase where
  | operand
  | after
  | member
  | key
  deriving DecidableEq

/-- The open brackets, innermost first, and what may come next. -/
structure Shape where
  stack : List Char
  phase : Phase

namespace Shape

def leave (b : Char) : List Char → Option Shape
  | [] => none
  | c :: stack => if c == b then some ⟨stack, .after⟩ else none

/-- The next part of a list. There is none outside all brackets. -/
def next : List Char → Option Shape
  | [] => none
  | c :: stack => some ⟨c :: stack, if c == '\x7b' then .key else .operand⟩

def stepOperand (stack : List Char) (k : Kind) : Option Shape :=
  match k.literal? with
  | some _ => some ⟨stack, .after⟩
  | none =>
    match k.unaryOp? with
    | some _ => some ⟨stack, .operand⟩
    | none =>
      match k with
      | .name _ => some ⟨stack, .after⟩
      | .sign .lparen => some ⟨'(' :: stack, .operand⟩
      | .sign .lbracket => some ⟨'[' :: stack, .operand⟩
      | .sign .lbrace => some ⟨'\x7b' :: stack, .key⟩
      | .sign .rparen => leave '(' stack
      | .sign .rbracket => leave '[' stack
      | _ => none

def stepAfter (stack : List Char) : Kind → Option Shape
  | .sign .lparen => some ⟨'(' :: stack, .operand⟩
  | .sign .lbracket => some ⟨'[' :: stack, .operand⟩
  | .sign .dot => some ⟨stack, .member⟩
  | .sign .questionDot => some ⟨stack, .member⟩
  | .sign .question => some ⟨stack, .operand⟩
  | .sign .colon => some ⟨stack, .operand⟩
  | .sign .comma => next stack
  | .sign .rparen => leave '(' stack
  | .sign .rbracket => leave '[' stack
  | .sign .rbrace => leave '\x7b' stack
  | .sign s => s.binaryOp?.map fun _ => ⟨stack, .operand⟩
  | _ => none

def stepMember (stack : List Char) : Kind → Option Shape
  | .name _ => some ⟨stack, .after⟩
  | .keyword _ => some ⟨stack, .after⟩
  | _ => none

def stepKey (stack : List Char) (k : Kind) : Option Shape :=
  if k.isSign .rbrace then leave '\x7b' stack
  else k.key?.map fun _ => ⟨stack, .after⟩

def step (s : Shape) (k : Kind) : Option Shape :=
  match s.phase with
  | .operand => stepOperand s.stack k
  | .after => stepAfter s.stack k
  | .member => stepMember s.stack k
  | .key => stepKey s.stack k

def run (s : Shape) : List Kind → Option Shape
  | [] => some s
  | k :: ks => (s.step k).bind fun t => t.run ks

theorem run_append (s : Shape) (ks ls : List Kind) :
    s.run (ks ++ ls) = (s.run ks).bind fun t => t.run ls := by
  induction ks generalizing s with
  | nil => rfl
  | cons k ks ih =>
    rw [List.cons_append, run, run]
    cases s.step k with
    | none => rfl
    | some t => exact ih t

end Shape

def Leads (s t : Shape) (ts rest : List Token) : Prop :=
  ∃ used, ts = used ++ rest ∧ s.run (used.map (·.kind)) = some t

theorem Leads.refl {s : Shape} {ts : List Token} : Leads s s ts ts :=
  ⟨[], rfl, rfl⟩

theorem Leads.trans {s t u : Shape} {ts₁ ts₂ ts₃ : List Token} (h₁ : Leads s t ts₁ ts₂)
    (h₂ : Leads t u ts₂ ts₃) : Leads s u ts₁ ts₃ := by
  obtain ⟨used₁, rfl, hr₁⟩ := h₁
  obtain ⟨used₂, rfl, hr₂⟩ := h₂
  refine ⟨used₁ ++ used₂, (List.append_assoc ..).symm, ?_⟩
  rw [List.map_append, Shape.run_append, hr₁]
  exact hr₂

theorem Leads.cons {s t u : Shape} {x : Token} {k : Kind} {ts rest : List Token} (hx : x.kind = k)
    (hk : s.step k = some t) (h : Leads t u ts rest) : Leads s u (x :: ts) rest := by
  obtain ⟨used, rfl, hr⟩ := h
  refine ⟨x :: used, rfl, ?_⟩
  rw [List.map_cons, Shape.run, hx, hk]
  exact hr

theorem Leads.one {s t : Shape} {x : Token} {k : Kind} {ts : List Token} (hx : x.kind = k)
    (hk : s.step k = some t) : Leads s t (x :: ts) ts :=
  .cons hx hk .refl

/-! ## What the parser takes -/

theorem Kind.isSign_iff {k : Kind} {s : Sign} : k.isSign s = true ↔ k = .sign s := by
  cases k with
  | sign t => simp [isSign]
  | _ => simp [isSign]

def Sign.opener : Sign → Char
  | .rparen => '('
  | .rbracket => '['
  | _ => '\x7b'

theorem expect_leads {fin : End} {want : Sign} {last : Span} {ts : List Token}
    {p : Parsed Unit ts.length} (h : expect fin want last ts = .ok p) {s t : Shape}
    (hs : s.step (.sign want) = some t) : Leads s t ts p.rest := by
  cases ts with
  | nil =>
    cases fin with
    | eof n => cases h
    | bad e => cases h
  | cons x ts =>
    rw [expect] at h
    split at h
    · next hx =>
      obtain rfl := Except.ok.inj h
      exact .one (Kind.isSign_iff.1 hx) hs
    · cases h

theorem property_leads {fin : End} {ts : List Token} {p : Parsed Ident ts.length}
    (h : property fin ts = .ok p) (stack : List Char) :
    Leads ⟨stack, .member⟩ ⟨stack, .after⟩ ts p.rest := by
  cases ts with
  | nil =>
    cases fin with
    | eof n => cases h
    | bad e => cases h
  | cons t ts =>
    rw [property] at h
    split at h
    · next hk =>
      obtain rfl := Except.ok.inj h
      exact .one hk rfl
    · next hk =>
      obtain rfl := Except.ok.inj h
      exact .one hk rfl
    · cases h

theorem End.token_eq_ok {fin : End} {t : Token} (h : fin.token = .ok t) :
    ∃ pos, fin = .eof pos := by
  cases fin with
  | eof pos => exact ⟨pos, rfl⟩
  | bad e => cases h

theorem step_binary {s : Sign} {op : BinaryOp} (h : s.binaryOp? = some op) (stack : List Char) :
    Shape.step ⟨stack, .after⟩ (.sign s) = some ⟨stack, .operand⟩ := by
  cases s with
  | _ => first | rfl | cases h

theorem step_literal {k : Kind} {l : Lit} (h : k.literal? = some l) (stack : List Char) :
    Shape.step ⟨stack, .operand⟩ k = some ⟨stack, .after⟩ := by
  simp only [Shape.step, Shape.stepOperand, h]

theorem step_unary {k : Kind} {op : UnaryOp} (h : k.unaryOp? = some op) (stack : List Char) :
    Shape.step ⟨stack, .operand⟩ k = some ⟨stack, .operand⟩ := by
  have hl : k.literal? = none := by
    cases k with
    | keyword w => cases w <;> first | rfl | cases h
    | sign s => rfl
    | _ => cases h
  simp only [Shape.step, Shape.stepOperand, hl, h]

theorem step_key {k : Kind} {key : String} (h : k.key? = some key)
    (hk : ¬ k.isSign .rbrace = true) {stack : List Char} :
    Shape.step ⟨stack, .key⟩ k = some ⟨stack, .after⟩ := by
  simp [Shape.step, Shape.stepKey, hk, h]

mutual
theorem parseExpr_leads {fin : End} {level : Nat} {ts : List Token} {p : Parsed Expr ts.length}
    (h : parseExpr fin level ts = .ok p) (stack : List Char) :
    Leads ⟨stack, .operand⟩ ⟨stack, .after⟩ ts p.rest := by
  rw [parseExpr] at h
  obtain ⟨q, hq, h⟩ := bind_eq_ok.1 h
  obtain ⟨r, hr, h⟩ := bind_eq_ok.1 h
  obtain rfl := Except.ok.inj h
  have := q.bound
  exact (parseOperand_leads hq stack).trans (climb_leads hr stack)
termination_by 4 * ts.length + 1
decreasing_by all_goals omega

theorem parseOperand_leads {fin : End} {ts : List Token} {p : Parsed Expr ts.length}
    (h : parseOperand fin ts = .ok p) (stack : List Char) :
    Leads ⟨stack, .operand⟩ ⟨stack, .after⟩ ts p.rest := by
  cases ts with
  | nil =>
    rw [parseOperand] at h
    obtain ⟨t, _, h⟩ := bind_eq_ok.1 h
    cases h
  | cons t ts =>
    rw [parseOperand] at h
    split at h
    · next l hl =>
      obtain rfl := Except.ok.inj h
      exact .one rfl (step_literal hl stack)
    · next hl =>
      split at h
      · next op ho =>
        obtain ⟨q, hq, h⟩ := bind_eq_ok.1 h
        obtain rfl := Except.ok.inj h
        exact .cons rfl (step_unary ho stack) (parseExpr_leads hq stack)
      · split at h
        · next hk =>
          obtain rfl := Except.ok.inj h
          exact .one hk rfl
        · next hk =>
          obtain ⟨q, hq, h⟩ := bind_eq_ok.1 h
          obtain rfl := Except.ok.inj h
          exact .cons hk rfl (parseItems_leads (.inr rfl) hq stack)
        · next hk =>
          obtain ⟨q, hq, h⟩ := bind_eq_ok.1 h
          obtain rfl := Except.ok.inj h
          exact .cons hk rfl (parseFields_leads hq stack)
        · next hk =>
          obtain ⟨q, hq, h⟩ := bind_eq_ok.1 h
          obtain ⟨r, hr, h⟩ := bind_eq_ok.1 h
          obtain rfl := Except.ok.inj h
          have hinner := parseExpr_leads hq ('(' :: stack)
          exact .cons hk rfl (hinner.trans (expect_leads hr rfl))
        · cases h
termination_by 4 * ts.length
decreasing_by all_goals subst_vars; rw [List.length_cons]; omega

theorem climb_leads {fin : End} {level : Nat} {left : Expr} {last : Span} {ts : List Token}
    {p : Parsed Expr (ts.length + 1)} (h : climb fin level left last ts = .ok p)
    (stack : List Char) : Leads ⟨stack, .after⟩ ⟨stack, .after⟩ ts p.rest := by
  cases ts with
  | nil =>
    rw [climb] at h
    obtain ⟨t, _, h⟩ := bind_eq_ok.1 h
    obtain rfl := Except.ok.inj h
    exact .refl
  | cons t ts =>
    rw [climb] at h
    split at h
    · obtain ⟨q, hq, h⟩ := bind_eq_ok.1 h
      obtain ⟨r, hr, h⟩ := bind_eq_ok.1 h
      obtain rfl := Except.ok.inj h
      have := q.bound
      exact (parseSuffix_leads hq stack).trans (climb_leads hr stack)
    · obtain rfl := Except.ok.inj h
      exact .refl
termination_by 4 * ts.length
decreasing_by all_goals subst_vars; rw [List.length_cons]; omega

theorem parseSuffix_leads {fin : End} {left : Expr} {t : Token} {ts : List Token}
    {p : Parsed Expr (ts.length + 1)} (h : parseSuffix fin left t ts = .ok p)
    (stack : List Char) : Leads ⟨stack, .after⟩ ⟨stack, .after⟩ (t :: ts) p.rest := by
  rw [parseSuffix] at h
  split at h
  · next hk =>
    obtain ⟨y, hy, h⟩ := bind_eq_ok.1 h
    obtain ⟨c, hc, h⟩ := bind_eq_ok.1 h
    obtain ⟨n, hn, h⟩ := bind_eq_ok.1 h
    obtain rfl := Except.ok.inj h
    have := Nat.lt_trans c.bound y.bound
    have hyes := parseExpr_leads hy stack
    have hcolon := expect_leads hc (s := ⟨stack, .after⟩) rfl
    have hno := parseExpr_leads hn stack
    exact .cons hk rfl (hyes.trans (hcolon.trans hno))
  · next hk =>
    obtain ⟨q, hq, h⟩ := bind_eq_ok.1 h
    obtain rfl := Except.ok.inj h
    exact .cons hk rfl (parseItems_leads (.inl rfl) hq stack)
  · next hk =>
    obtain ⟨q, hq, h⟩ := bind_eq_ok.1 h
    obtain ⟨r, hr, h⟩ := bind_eq_ok.1 h
    obtain rfl := Except.ok.inj h
    have hkey := parseExpr_leads hq ('[' :: stack)
    exact .cons hk rfl (hkey.trans (expect_leads hr rfl))
  · next hk =>
    obtain ⟨q, hq, h⟩ := bind_eq_ok.1 h
    obtain rfl := Except.ok.inj h
    exact .cons hk rfl (property_leads hq stack)
  · next hk =>
    obtain ⟨q, hq, h⟩ := bind_eq_ok.1 h
    obtain rfl := Except.ok.inj h
    exact .cons hk rfl (property_leads hq stack)
  · next s _ _ _ _ _ hk =>
    split at h
    · next op ho =>
      obtain ⟨q, hq, h⟩ := bind_eq_ok.1 h
      obtain rfl := Except.ok.inj h
      exact .cons hk (step_binary ho stack) (parseExpr_leads hq stack)
    · cases h
  · cases h
termination_by 4 * ts.length + 3
decreasing_by all_goals omega

theorem parseItems_leads {fin : End} {close : Sign} (hclose : close = .rparen ∨ close = .rbracket)
    {ts : List Token} {p : Parsed (List Expr) ts.length} (h : parseItems fin close ts = .ok p)
    (stack : List Char) :
    Leads ⟨close.opener :: stack, .operand⟩ ⟨stack, .after⟩ ts p.rest := by
  cases ts with
  | nil =>
    rw [parseItems] at h
    obtain ⟨t, _, h⟩ := bind_eq_ok.1 h
    cases h
  | cons t ts =>
    have hleave : ∀ phase, phase ≠ .key → phase ≠ .member →
        Shape.step ⟨close.opener :: stack, phase⟩ (.sign close) = some ⟨stack, .after⟩ := by
      intro phase hkey hmember
      rcases hclose with rfl | rfl <;> cases phase <;> first | rfl | contradiction
    have hnext : Shape.step ⟨close.opener :: stack, .after⟩ (.sign .comma) =
        some ⟨close.opener :: stack, .operand⟩ := by
      rcases hclose with rfl | rfl <;> rfl
    rw [parseItems] at h
    split at h
    · next hk =>
      obtain rfl := Except.ok.inj h
      exact .one (Kind.isSign_iff.1 hk) (hleave _ nofun nofun)
    · obtain ⟨q, hq, h⟩ := bind_eq_ok.1 h
      have hitem := parseExpr_leads hq (close.opener :: stack)
      split at h
      · next c rest hr =>
        split at h
        · next hk =>
          obtain ⟨r, hr', h⟩ := bind_eq_ok.1 h
          obtain rfl := Except.ok.inj h
          have : rest.length < ts.length + 1 := q.tail_bound hr
          have hmore := parseItems_leads hclose hr' stack
          rw [hr] at hitem
          exact hitem.trans (.cons (Kind.isSign_iff.1 hk) hnext hmore)
        · obtain ⟨r, hr', h⟩ := bind_eq_ok.1 h
          obtain rfl := Except.ok.inj h
          exact hitem.trans (expect_leads hr' (hleave _ nofun nofun))
      · obtain ⟨r, hr', h⟩ := bind_eq_ok.1 h
        obtain rfl := Except.ok.inj h
        exact hitem.trans (expect_leads hr' (hleave _ nofun nofun))
termination_by 4 * ts.length + 2
decreasing_by all_goals subst_vars; rw [List.length_cons]; omega

theorem parseFields_leads {fin : End} {ts : List Token} {p : Parsed (List (Key × Expr)) ts.length}
    (h : parseFields fin ts = .ok p) (stack : List Char) :
    Leads ⟨'\x7b' :: stack, .key⟩ ⟨stack, .after⟩ ts p.rest := by
  cases ts with
  | nil =>
    rw [parseFields] at h
    obtain ⟨t, _, h⟩ := bind_eq_ok.1 h
    cases h
  | cons t ts =>
    rw [parseFields] at h
    split at h
    · next hk =>
      obtain rfl := Except.ok.inj h
      exact .one (Kind.isSign_iff.1 hk) rfl
    · next hk =>
      split at h
      · cases h
      · next key hkey =>
        obtain ⟨q, hq, h⟩ := bind_eq_ok.1 h
        have hfield : Leads ⟨'\x7b' :: stack, .key⟩ ⟨'\x7b' :: stack, .after⟩ (t :: ts) q.rest :=
          .cons rfl (step_key hkey hk) (parseField_leads hq ('\x7b' :: stack))
        split at h
        · next c rest hr =>
          split at h
          · next hk =>
            obtain ⟨r, hr', h⟩ := bind_eq_ok.1 h
            obtain rfl := Except.ok.inj h
            have := q.tail_bound hr
            have hmore := parseFields_leads hr' stack
            rw [hr] at hfield
            exact hfield.trans (.cons (Kind.isSign_iff.1 hk) rfl hmore)
          · obtain ⟨r, hr', h⟩ := bind_eq_ok.1 h
            obtain rfl := Except.ok.inj h
            exact hfield.trans (expect_leads hr' rfl)
        · obtain ⟨r, hr', h⟩ := bind_eq_ok.1 h
          obtain rfl := Except.ok.inj h
          exact hfield.trans (expect_leads hr' rfl)
termination_by 4 * ts.length + 2
decreasing_by all_goals subst_vars; rw [List.length_cons]; omega

theorem parseField_leads {fin : End} {key : String} {keySpan : Span} {ts : List Token}
    {p : Parsed (Key × Expr) (ts.length + 1)} (h : parseField fin key keySpan ts = .ok p)
    (stack : List Char) : Leads ⟨stack, .after⟩ ⟨stack, .after⟩ ts p.rest := by
  cases ts with
  | nil =>
    rw [parseField] at h
    obtain ⟨t, _, h⟩ := bind_eq_ok.1 h
    obtain rfl := Except.ok.inj h
    exact .refl
  | cons t ts =>
    rw [parseField] at h
    split at h
    · next hk =>
      obtain ⟨q, hq, h⟩ := bind_eq_ok.1 h
      obtain rfl := Except.ok.inj h
      exact .cons (Kind.isSign_iff.1 hk) rfl (parseExpr_leads hq stack)
    · obtain rfl := Except.ok.inj h
      exact .refl
termination_by 4 * ts.length
decreasing_by all_goals subst_vars; rw [List.length_cons]; omega
end

/-- The tokens of an expression lead from nothing to something complete. -/
theorem run_of_parse {s : String} {e : Expr} (h : parse s = .ok e) :
    Shape.run ⟨[], .operand⟩ ((tokenize s).list.map (·.kind)) = some ⟨[], .after⟩ ∧
      ∃ pos, (tokenize s).finish = .eof pos := by
  obtain ⟨p, hp, h⟩ := bind_eq_ok.1 h
  obtain ⟨used, hused, hrun⟩ := parseExpr_leads hp []
  split at h
  · next hr =>
    obtain ⟨t, ht, _⟩ := bind_eq_ok.1 h
    refine ⟨?_, End.token_eq_ok ht⟩
    rw [hused, hr, List.append_nil]
    exact hrun
  · cases h

end Stencil.Expr
