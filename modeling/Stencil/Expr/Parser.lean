import Stencil.Expr.Basic
import Stencil.Expr.Lexer

/-! # Parsing expressions

Operators bind by their level; those of one level group to the left. Each function returns what it
read, the span of the last token it took, and the tokens left, fewer than it was given. -/

namespace Stencil.Expr

/-- How tightly a sign binds what stands before it; zero for signs that do not. -/
def Sign.level : Sign → Nat
  | .question => 1
  | .nullish => 2
  | .or => 3
  | .and => 4
  | .eq2 | .eq3 | .ne1 | .ne2 => 5
  | .lt | .le | .gt | .ge => 6
  | .plus | .minus => 7
  | .times | .slash | .percent => 8
  | .lparen | .lbracket | .dot | .questionDot => 10
  | _ => 0

def unaryLevel : Nat := 9

def Kind.level : Kind → Nat
  | .sign s => s.level
  | _ => 0

def Sign.binaryOp? : Sign → Option BinaryOp
  | .plus => some .add
  | .minus => some .sub
  | .times => some .mul
  | .slash => some .div
  | .percent => some .mod
  | .eq2 => some .looseEq
  | .ne1 => some .looseNe
  | .eq3 => some .strictEq
  | .ne2 => some .strictNe
  | .lt => some .lt
  | .le => some .le
  | .gt => some .gt
  | .ge => some .ge
  | .and => some .and
  | .or => some .or
  | .nullish => some .nullish
  | _ => none

def Kind.unaryOp? : Kind → Option UnaryOp
  | .sign .plus => some .plus
  | .sign .minus => some .minus
  | .sign .bang => some .not
  | .keyword .typeof => some .typeof
  | _ => none

def Kind.literal? : Kind → Option Lit
  | .number x => some (.num x)
  | .text s => some (.str s)
  | .keyword .true => some (.bool true)
  | .keyword .false => some (.bool false)
  | .keyword .null => some .null
  | .keyword .undefined => some .null
  | _ => none

def Kind.isSign (k : Kind) (s : Sign) : Bool :=
  match k with
  | .sign t => t == s
  | _ => false

/-- A result of parsing: the value, the span of the last token taken, and the fewer than `n` tokens
left. -/
structure Parsed (α : Type) (n : Nat) where
  value : α
  last : Span
  rest : List Token
  bound : rest.length < n

def Parsed.weaken {α : Type} {m n : Nat} (p : Parsed α m) (h : m ≤ n) : Parsed α n :=
  ⟨p.value, p.last, p.rest, Nat.lt_of_lt_of_le p.bound h⟩

theorem Parsed.tail_bound {α : Type} {n : Nat} (p : Parsed α n) {c : Token} {rest : List Token}
    (h : p.rest = c :: rest) : rest.length < n := by
  have hp := p.bound
  rw [h, List.length_cons] at hp
  omega

def End.token : End → Except SyntaxError Token
  | .eof p => .ok ⟨.eof, ⟨p, p⟩⟩
  | .bad e => .error e

def expect (fin : End) (want : Sign) (last : Span) :
    (ts : List Token) → Except SyntaxError (Parsed Unit ts.length)
  | [] => do
    let t ← fin.token
    throw (.expected want last t)
  | t :: ts =>
    if t.kind.isSign want then .ok ⟨(), t.span, ts, Nat.lt_succ_self _⟩
    else .error (.expected want last t)

/-- Take a name; keywords are names after a dot. -/
def property (fin : End) : (ts : List Token) → Except SyntaxError (Parsed Ident ts.length)
  | [] => do
    let t ← fin.token
    throw (.noName t.span)
  | t :: ts => match t.kind with
    | .name s => .ok ⟨⟨s, t.span⟩, t.span, ts, Nat.lt_succ_self _⟩
    | .keyword k => .ok ⟨⟨k.name, t.span⟩, t.span, ts, Nat.lt_succ_self _⟩
    | _ => .error (.noName t.span)

def Kind.key? : Kind → Option String
  | .name s => some s
  | .text s => some s
  | .number x => some (plainText x)
  | .keyword k => some k.name
  | _ => none

mutual
/-- An expression of operators that bind tighter than `level`. -/
def parseExpr (fin : End) (level : Nat) (ts : List Token) :
    Except SyntaxError (Parsed Expr ts.length) := do
  let p ← parseOperand fin ts
  have := p.bound
  let q ← climb fin level p.value p.last p.rest
  return q.weaken (Nat.succ_le_of_lt p.bound)
termination_by 4 * ts.length + 1

/-- An expression up to its first operator that stands behind an operand. -/
def parseOperand (fin : End) (ts : List Token) : Except SyntaxError (Parsed Expr ts.length) :=
  match ts with
  | [] => do
    let t ← fin.token
    throw (.noOperand t)
  | t :: ts =>
    match t.kind.literal? with
    | some l => .ok ⟨.lit t.span l, t.span, ts, Nat.lt_succ_self _⟩
    | none =>
      match t.kind.unaryOp? with
      | some op => do
        let p ← parseExpr fin unaryLevel ts
        return ⟨.unary (t.span.join p.last) op p.value, p.last, p.rest,
          Nat.lt_succ_of_lt p.bound⟩
      | none =>
        match t.kind with
        | .name s => .ok ⟨.ref t.span ⟨s, t.span⟩, t.span, ts, Nat.lt_succ_self _⟩
        | .sign .lbracket => do
          let p ← parseItems fin .rbracket ts
          return ⟨.array (t.span.join p.last) p.value, p.last, p.rest,
            Nat.lt_succ_of_lt p.bound⟩
        | .sign .lbrace => do
          let p ← parseFields fin ts
          return ⟨.object (t.span.join p.last) p.value, p.last, p.rest,
            Nat.lt_succ_of_lt p.bound⟩
        | .sign .lparen => do
          let p ← parseExpr fin 0 ts
          let q ← expect fin .rparen p.last p.rest
          return ⟨p.value.withSpan (t.span.join q.last), q.last, q.rest,
            Nat.lt_succ_of_lt (Nat.lt_trans q.bound p.bound)⟩
        | _ => .error (.noOperand t)
termination_by 4 * ts.length

/-- Extend `left` by the operators that follow it and bind tighter than `level`. -/
def climb (fin : End) (level : Nat) (left : Expr) (last : Span) (ts : List Token) :
    Except SyntaxError (Parsed Expr (ts.length + 1)) :=
  match ts with
  | [] => do
    let _ ← fin.token
    return ⟨left, last, [], Nat.lt_succ_self _⟩
  | t :: r =>
    if level < t.kind.level then do
      let p ← parseSuffix fin left t r
      have := p.bound
      let q ← climb fin level p.value p.last p.rest
      return q.weaken (Nat.le_succ_of_le p.bound)
    else .ok ⟨left, last, t :: r, Nat.lt_succ_self _⟩
termination_by 4 * ts.length

def parseSuffix (fin : End) (left : Expr) (t : Token) (ts : List Token) :
    Except SyntaxError (Parsed Expr (ts.length + 1)) :=
  match t.kind with
  | .sign .question => do
    let y ← parseExpr fin 0 ts
    let c ← expect fin .colon y.last y.rest
    have := Nat.lt_trans c.bound y.bound
    let n ← parseExpr fin 0 c.rest
    return ⟨.cond (left.span.join n.last) left y.value n.value, n.last, n.rest,
      Nat.lt_succ_of_lt (Nat.lt_trans n.bound this)⟩
  | .sign .lparen => do
    let p ← parseItems fin .rparen ts
    return ⟨.call (left.span.join p.last) left p.value, p.last, p.rest, Nat.lt_succ_of_lt p.bound⟩
  | .sign .lbracket => do
    let p ← parseExpr fin 0 ts
    let q ← expect fin .rbracket p.last p.rest
    return ⟨.index (left.span.join q.last) left p.value, q.last, q.rest,
      Nat.lt_succ_of_lt (Nat.lt_trans q.bound p.bound)⟩
  | .sign .dot => do
    let p ← property fin ts
    return ⟨.member (left.span.join p.last) left p.value, p.last, p.rest, Nat.lt_succ_of_lt p.bound⟩
  | .sign .questionDot => do
    let p ← property fin ts
    return ⟨.member (left.span.join p.last) left p.value, p.last, p.rest, Nat.lt_succ_of_lt p.bound⟩
  | .sign s =>
    match s.binaryOp? with
    | some op => do
      let p ← parseExpr fin s.level ts
      return ⟨.binary (left.span.join p.last) op left p.value, p.last, p.rest,
        Nat.lt_succ_of_lt p.bound⟩
    | none => .error (.noOperand t)
  | _ => .error (.noOperand t)
termination_by 4 * ts.length + 3

/-- Expressions between commas up to the closing sign; a comma may stand before it. -/
def parseItems (fin : End) (close : Sign) (ts : List Token) :
    Except SyntaxError (Parsed (List Expr) ts.length) :=
  match ts with
  | [] => do
    let t ← fin.token
    throw (.noOperand t)
  | t :: r =>
    if t.kind.isSign close then .ok ⟨[], t.span, r, Nat.lt_succ_self _⟩
    else do
      let p ← parseExpr fin 0 (t :: r)
      match hr : p.rest with
      | c :: rest =>
        if c.kind.isSign .comma then
          have : rest.length < r.length + 1 := p.tail_bound hr
          let q ← parseItems fin close rest
          return ⟨p.value :: q.value, q.last, q.rest, Nat.lt_trans q.bound this⟩
        else
          let q ← expect fin close p.last p.rest
          return ⟨[p.value], q.last, q.rest, Nat.lt_trans q.bound p.bound⟩
      | [] =>
        let q ← expect fin close p.last p.rest
        return ⟨[p.value], q.last, q.rest, Nat.lt_trans q.bound p.bound⟩
termination_by 4 * ts.length + 2

def parseFields (fin : End) (ts : List Token) :
    Except SyntaxError (Parsed (List (Key × Expr)) ts.length) :=
  match ts with
  | [] => do
    let t ← fin.token
    throw (.badKey t.span)
  | t :: r =>
    if t.kind.isSign .rbrace then .ok ⟨[], t.span, r, Nat.lt_succ_self _⟩
    else match t.kind.key? with
      | none => .error (.badKey t.span)
      | some key => do
        let p ← parseField fin key t.span r
        match hr : p.rest with
        | c :: rest =>
          if c.kind.isSign .comma then
            have : rest.length < r.length + 1 := p.tail_bound hr
            let q ← parseFields fin rest
            return ⟨p.value :: q.value, q.last, q.rest, Nat.lt_trans q.bound this⟩
          else
            let q ← expect fin .rbrace p.last p.rest
            return ⟨[p.value], q.last, q.rest, Nat.lt_trans q.bound p.bound⟩
        | [] =>
          let q ← expect fin .rbrace p.last p.rest
          return ⟨[p.value], q.last, q.rest, Nat.lt_trans q.bound p.bound⟩
termination_by 4 * ts.length + 2

def parseField (fin : End) (key : String) (keySpan : Span) (ts : List Token) :
    Except SyntaxError (Parsed (Key × Expr) (ts.length + 1)) :=
  match ts with
  | [] => do
    let _ ← fin.token
    return ⟨(⟨key, true⟩, .ref keySpan ⟨key, keySpan⟩), keySpan, [], Nat.lt_succ_self _⟩
  | t :: r =>
    if t.kind.isSign .colon then do
      let p ← parseExpr fin 0 r
      return ⟨(⟨key, false⟩, p.value), p.last, p.rest,
        Nat.lt_succ_of_lt (Nat.lt_succ_of_lt p.bound)⟩
    else .ok ⟨(⟨key, true⟩, .ref keySpan ⟨key, keySpan⟩), keySpan, t :: r, Nat.lt_succ_self _⟩
termination_by 4 * ts.length
end

def parse (s : String) : Except SyntaxError Expr := do
  let toks := tokenize s
  let p ← parseExpr toks.finish 0 toks.list
  match p.rest with
  | [] =>
    let _ ← toks.finish.token
    return p.value
  | t :: _ => throw (.trailing t)

def accepts (s : String) : Bool :=
  (parse s).isOk

end Stencil.Expr
