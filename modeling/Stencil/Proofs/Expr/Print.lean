import Mathlib
import Stencil.Proofs.Expr.Name
import Stencil.Proofs.Template.Print

/-! # Printing expressions

An expression as tokens, with parentheses only where the levels of its operators need them, and
these tokens as a text with one blank between any two of them. -/

namespace Stencil

/-! ## Expressions without their places -/

def Ident.bare (n : Ident) : Ident :=
  ⟨n.name, ⟨0, 0⟩⟩

mutual
def Expr.bare : Expr → Expr
  | .lit _ value => .lit ⟨0, 0⟩ value
  | .ref _ n => .ref ⟨0, 0⟩ n.bare
  | .array _ xs => .array ⟨0, 0⟩ (bareExprs xs)
  | .object _ ps => .object ⟨0, 0⟩ (bareFields ps)
  | .member _ e n => .member ⟨0, 0⟩ e.bare n.bare
  | .index _ e k => .index ⟨0, 0⟩ e.bare k.bare
  | .call _ e xs => .call ⟨0, 0⟩ e.bare (bareExprs xs)
  | .unary _ op e => .unary ⟨0, 0⟩ op e.bare
  | .binary _ op l r => .binary ⟨0, 0⟩ op l.bare r.bare
  | .cond _ t y n => .cond ⟨0, 0⟩ t.bare y.bare n.bare
def bareExprs : List Expr → List Expr
  | [] => []
  | e :: es => e.bare :: bareExprs es
def bareFields : List (Key × Expr) → List (Key × Expr)
  | [] => []
  | (key, e) :: ps => (key, e.bare) :: bareFields ps
end

theorem Expr.bare_withSpan (s : Span) (e : Expr) : (e.withSpan s).bare = e.bare := by
  cases e <;> rfl

/-! ## The tokens of operators and literals -/

def BinaryOp.sign : BinaryOp → Expr.Sign
  | .add => .plus
  | .sub => .minus
  | .mul => .times
  | .div => .slash
  | .mod => .percent
  | .looseEq => .eq2
  | .looseNe => .ne1
  | .strictEq => .eq3
  | .strictNe => .ne2
  | .lt => .lt
  | .le => .le
  | .gt => .gt
  | .ge => .ge
  | .and => .and
  | .or => .or
  | .nullish => .nullish

def UnaryOp.kind : UnaryOp → Expr.Kind
  | .plus => .sign .plus
  | .minus => .sign .minus
  | .not => .sign .bang
  | .typeof => .keyword .typeof

def Lit.kind : Lit → Expr.Kind
  | .null => .keyword .null
  | .bool true => .keyword .true
  | .bool false => .keyword .false
  | .num x => .number x
  | .str s => .text s

theorem UnaryOp.unaryOp?_kind (op : UnaryOp) : op.kind.unaryOp? = some op := by
  cases op <;> rfl

theorem UnaryOp.literal?_kind (op : UnaryOp) : op.kind.literal? = none := by
  cases op <;> rfl

theorem Lit.literal?_kind : (l : Lit) → l.kind.literal? = some l
  | .null => rfl
  | .bool true => rfl
  | .bool false => rfl
  | .num _ => rfl
  | .str _ => rfl

theorem BinaryOp.level_sign (op : BinaryOp) :
    Expr.Sign.question.level < op.sign.level ∧ op.sign.level < Expr.unaryLevel := by
  cases op <;> decide

namespace Expr

/-! ## Printing -/

/-- How tightly the parts of an expression are bound together; what begins and ends with an operand
of its own is bound tightest. -/
def level : Expr → Nat
  | .unary _ _ _ => unaryLevel
  | .binary _ op _ _ => op.sign.level
  | .cond _ _ _ _ => Sign.question.level
  | _ => Sign.dot.level

def grouped (loose : Bool) (ks : List Kind) : List Kind :=
  if loose then .sign .lparen :: (ks ++ [.sign .rparen]) else ks

def commaSeparated (parts : List (List Kind)) : List Kind :=
  [.sign .comma].intercalate parts

theorem commaSeparated_one (ks : List Kind) : commaSeparated [ks] = ks :=
  List.append_nil ks

theorem commaSeparated_more (ks ls : List Kind) (parts : List (List Kind)) :
    commaSeparated (ks :: ls :: parts) =
      ks ++ Kind.sign .comma :: commaSeparated (ls :: parts) := by
  rw [commaSeparated, List.intercalate_cons_cons, List.append_assoc]
  rfl

def isWord (n : String) : Bool :=
  match n.toList with
  | c :: cs => Text.isIdStart c && cs.all Text.isIdChar
  | [] => false

/-- The name of a field: it must be quoted unless it is a word, and may be quoted then. -/
def keyKind (quote : Bool) (n : String) : Kind :=
  if isWord n && !quote then wordKind n else .text n

end Expr

section

variable (quoted : Key → Expr → Bool)

open Stencil.Expr

mutual
/-- The tokens of an expression; `quoted` picks the fields whose names are quoted though they need
not be. -/
def Expr.kinds : Expr → List Kind
  | .lit _ value => [value.kind]
  | .ref _ n => [.name n.name]
  | .array _ xs => .sign .lbracket :: (commaSeparated (kindsAll xs) ++ [.sign .rbracket])
  | .object _ ps => .sign .lbrace :: (commaSeparated (kindsFields ps) ++ [.sign .rbrace])
  | .member _ e n =>
    grouped (e.level < Sign.dot.level) e.kinds ++ [.sign .dot, wordKind n.name]
  | .index _ e k =>
    grouped (e.level < Sign.lbracket.level) e.kinds ++
      .sign .lbracket :: (k.kinds ++ [.sign .rbracket])
  | .call _ e xs =>
    grouped (e.level < Sign.lparen.level) e.kinds ++
      .sign .lparen :: (commaSeparated (kindsAll xs) ++ [.sign .rparen])
  | .unary _ op e => op.kind :: grouped (e.level < unaryLevel) e.kinds
  | .binary _ op l r =>
    grouped (l.level < op.sign.level) l.kinds ++
      .sign op.sign :: grouped (r.level ≤ op.sign.level) r.kinds
  | .cond _ t y n =>
    grouped (t.level ≤ Sign.question.level) t.kinds ++
      .sign .question :: (y.kinds ++ .sign .colon :: n.kinds)
def kindsAll : List Expr → List (List Kind)
  | [] => []
  | e :: es => e.kinds :: kindsAll es
def kindsFields : List (Key × Expr) → List (List Kind)
  | [] => []
  | (key, e) :: ps =>
    (keyKind (quoted key e) key.name ::
      if key.shorthand then [] else .sign .colon :: e.kinds) :: kindsFields ps
end

end

namespace Expr

def Kind.spelled : Kind → List Char
  | .number x => (scriptText x).toList
  | .text s => Template.quotedChars s
  | .name s => s.toList
  | .keyword k => k.name.toList
  | .sign s => s.text.toList
  | .eof => []

def spaced (ks : List Kind) : List Char :=
  [' '].intercalate (ks.map Kind.spelled)

def text (quoted : Key → Expr → Bool) (e : Expr) : String :=
  String.ofList (spaced (e.kinds quoted))

end Expr

/-! ## What can be printed -/

def Expr.IsIdentifier (n : String) : Prop :=
  IsWord n ∧ Keyword.ofName? n = none

/-- Numbers have to be natural, and so small that each of them is a double. -/
def Lit.Printable : Lit → Prop
  | .num x => ∃ n : Nat, n < 2 ^ 53 ∧ x = Float.ofNat n
  | _ => True

mutual
def Expr.Printable : Expr → Prop
  | .lit _ value => value.Printable
  | .ref _ n => Expr.IsIdentifier n.name
  | .array _ xs => PrintableAll xs
  | .object _ ps => PrintableFields ps
  | .member _ e n => e.Printable ∧ Expr.IsWord n.name
  | .index _ e k => e.Printable ∧ k.Printable
  | .call _ e xs => e.Printable ∧ PrintableAll xs
  | .unary _ _ e => e.Printable
  | .binary _ _ l r => l.Printable ∧ r.Printable
  | .cond _ t y n => t.Printable ∧ y.Printable ∧ n.Printable
def PrintableAll : List Expr → Prop
  | [] => True
  | e :: es => e.Printable ∧ PrintableAll es
def PrintableFields : List (Key × Expr) → Prop
  | [] => True
  | (key, e) :: ps =>
    (if key.shorthand then e.bare = .ref ⟨0, 0⟩ ⟨key.name, ⟨0, 0⟩⟩ else e.Printable) ∧
      PrintableFields ps
end

end Stencil
