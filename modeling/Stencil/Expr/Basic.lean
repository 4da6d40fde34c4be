import Stencil.Diagnostic

/-! # Expressions

The small language embedded in templates: conditions, lists to loop over, interpolations and
attribute values. -/

namespace Stencil

structure Ident where
  name : String
  span : Span

inductive Lit where
  | null
  | bool (b : Bool)
  | num (x : Float)
  | str (s : String)

inductive UnaryOp where
  | plus
  | minus
  | not
  | typeof
  deriving DecidableEq, Repr

inductive BinaryOp where
  | add
  | sub
  | mul
  | div
  | mod
  | looseEq
  | looseNe
  | strictEq
  | strictNe
  | lt
  | le
  | gt
  | ge
  | and
  | or
  | nullish
  deriving DecidableEq, Repr

/-- The name of a field; alone, without a value, it is also a reference. -/
structure Key where
  name : String
  shorthand : Bool
  deriving DecidableEq, Repr

inductive Expr where
  | lit (span : Span) (value : Lit)
  | ref (span : Span) (name : Ident)
  | array (span : Span) (items : List Expr)
  | object (span : Span) (properties : List (Key × Expr))
  | member (span : Span) (object : Expr) (name : Ident)
  | index (span : Span) (object key : Expr)
  | call (span : Span) (callee : Expr) (args : List Expr)
  | unary (span : Span) (op : UnaryOp) (operand : Expr)
  | binary (span : Span) (op : BinaryOp) (left right : Expr)
  | cond (span : Span) (test yes no : Expr)

namespace Expr

def span : Expr → Span
  | lit s _ => s
  | ref s _ => s
  | array s _ => s
  | object s _ => s
  | member s _ _ => s
  | index s _ _ => s
  | call s _ _ => s
  | unary s _ _ => s
  | binary s _ _ _ => s
  | cond s _ _ _ => s

/-- The same expression, found at another place: what parentheses around it do. -/
def withSpan (s : Span) : Expr → Expr
  | lit _ v => lit s v
  | ref _ n => ref s n
  | array _ xs => array s xs
  | object _ ps => object s ps
  | member _ e n => member s e n
  | index _ e k => index s e k
  | call _ e xs => call s e xs
  | unary _ o e => unary s o e
  | binary _ o l r => binary s o l r
  | cond _ t y n => cond s t y n

end Expr

end Stencil
