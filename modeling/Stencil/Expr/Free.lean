import Stencil.Expr.Basic

/-! # Free names

The names an expression reads, in the order in which they first appear. -/

namespace Stencil

/-- Names that stand for something without being bound. -/
def isGlobal (name : String) : Bool :=
  name == "String" || name == "Number" || name == "Boolean" || name == "JSON"

def addName (names : List String) (name : String) : List String :=
  if names.contains name then names else names ++ [name]

mutual
/-- All references in an expression, from left to right; names of properties are none. -/
def Expr.references : Expr → List String
  | .lit _ _ => []
  | .ref _ n => [n.name]
  | .array _ xs => referencesAll xs
  | .object _ ps => referencesFields ps
  | .member _ e _ => e.references
  | .index _ e k => e.references ++ k.references
  | .call _ e xs => e.references ++ referencesAll xs
  | .unary _ _ e => e.references
  | .binary _ _ l r => l.references ++ r.references
  | .cond _ t y n => t.references ++ y.references ++ n.references
def referencesAll : List Expr → List String
  | [] => []
  | e :: es => e.references ++ referencesAll es
def referencesFields : List (Key × Expr) → List String
  | [] => []
  | (_, e) :: ps => e.references ++ referencesFields ps
end

def Expr.freeNames (e : Expr) : List String :=
  (e.references.filter fun n => !isGlobal n).foldl addName []

end Stencil
