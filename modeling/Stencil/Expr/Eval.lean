import Stencil.Expr.Method
import Stencil.Expr.Parser
import Stencil.Value.Lookup

/-! # Evaluation

Expressions never fail on names that are not bound: they read as null. Arrays and objects are equal
only to themselves, so an operand carries along where it is stored, if it is. -/

namespace Stencil

abbrev Scope := String → Option Value

/-- A place in a scope: a bound name, and the names of the fields and items down from its value. -/
structure Place where
  root : String
  path : List String
  deriving DecidableEq, Repr

def Place.child (p : Place) (step : String) : Place :=
  ⟨p.root, p.path ++ [step]⟩

/-- A value under evaluation, with its place if it was not newly made. -/
structure Operand where
  value : Value
  place : Option Place

namespace Operand

def made (v : Value) : Operand :=
  ⟨v, none⟩

def same (a b : Operand) : Bool :=
  match a.place, b.place with
  | some p, some q => p == q
  | _, _ => false

def property (o : Operand) (key : Value) : Operand :=
  match o.value.child? key with
  | some (step, v) => ⟨v, o.place.map (·.child step)⟩
  | none => made (o.value.computed key)

def member (o : Operand) (key : Value) : Except EvalError Operand :=
  if o.value.isNull then .error (.nullProperty key.display) else .ok (o.property key)

end Operand

def UnaryOp.apply (op : UnaryOp) (v : Value) : Value :=
  match op with
  | .plus => .ofFloat v.toNumber
  | .minus => .ofFloat (-v.toNumber)
  | .not => .bool (!v.truthy)
  | .typeof => .str v.typeName

def BinaryOp.apply (op : BinaryOp) (a b : Operand) : Value :=
  let l := a.value
  let r := b.value
  match op with
  | .add => l.add r
  | .sub => .ofFloat (l.toNumber - r.toNumber)
  | .mul => .ofFloat (l.toNumber * r.toNumber)
  | .div => .ofFloat (l.toNumber / r.toNumber)
  | .mod => .ofFloat (remainder l.toNumber r.toNumber)
  | .looseEq => .bool (l.looseEq (a.same b) r)
  | .looseNe => .bool (!l.looseEq (a.same b) r)
  | .strictEq => .bool (l.strictEq (a.same b) r)
  | .strictNe => .bool (!l.strictEq (a.same b) r)
  | .lt => .bool (l.compare r == some .lt)
  | .gt => .bool (l.compare r == some .gt)
  | .le => .bool (l.compare r == some .lt || l.compare r == some .eq)
  | .ge => .bool (l.compare r == some .gt || l.compare r == some .eq)
  | .and => r
  | .or => r
  | .nullish => r

def BinaryOp.shortCuts (op : BinaryOp) (l : Value) : Bool :=
  match op with
  | .and => !l.truthy
  | .or => l.truthy
  | .nullish => !l.isNull
  | _ => false

def BinaryOp.isChoice : BinaryOp → Bool
  | .and => true
  | .or => true
  | .nullish => true
  | _ => false

namespace Expr

mutual
def eval (scope : Scope) : Expr → Except EvalError Operand
  | .lit _ l => .ok <| .made <| match l with
    | .null => .null
    | .bool b => .bool b
    | .num x => .ofFloat x
    | .str s => .str s
  | .ref _ n => .ok <| match scope n.name with
    | some v => ⟨v, some ⟨n.name, []⟩⟩
    | none => .made .null
  | .array _ xs => do
    let vs ← evalAll scope xs
    return .made (.arr vs)
  | .object _ ps => do
    let fs ← evalFields scope ps
    return .made (.obj (Fields.ofList fs))
  | .member _ e n => do
    let o ← eval scope e
    o.member (.str n.name)
  | .index _ e k => do
    let key ← eval scope k
    let o ← eval scope e
    o.member key.value
  | .call _ (.ref _ n) xs => do
    let args ← evalAll scope xs
    if (scope n.name).isNone then .made <$> callGlobal n.name args else throw .notCallable
  | .call _ (.member _ (.ref _ n) m) xs => do
    let args ← evalAll scope xs
    match scope n.name with
    | some v => .made <$> callMethod v m.name args
    | none =>
      if n.name == "JSON" then .made <$> callJson m.name args
      else .made <$> callMethod .null m.name args
  | .call _ (.member _ e m) xs => do
    let args ← evalAll scope xs
    let target ← eval scope e
    .made <$> callMethod target.value m.name args
  | .call _ _ xs => do
    let _ ← evalAll scope xs
    throw .notCallable
  | .unary _ op e => do
    let o ← eval scope e
    return .made (op.apply o.value)
  | .binary _ op l r => do
    let a ← eval scope l
    if op.shortCuts a.value then return a
    let b ← eval scope r
    return if op.isChoice then b else .made (op.apply a b)
  | .cond _ t y n => do
    let o ← eval scope t
    if o.value.truthy then eval scope y else eval scope n
def evalAll (scope : Scope) : List Expr → Except EvalError (List Value)
  | [] => .ok []
  | e :: es => do
    let o ← eval scope e
    let vs ← evalAll scope es
    return o.value :: vs
def evalFields (scope : Scope) : List (Key × Expr) → Except EvalError (List (String × Value))
  | [] => .ok []
  | (k, e) :: ps => do
    let o ← eval scope e
    let fs ← evalFields scope ps
    return (k.name, o.value) :: fs
end

end Expr

def evaluate (source : String) (scope : Scope) : Except EvalError Value :=
  match Expr.parse source with
  | .error e => .error (.badSyntax e.message)
  | .ok e => (e.eval scope).map (·.value)

def Value.scope (v : Value) : Scope :=
  fun name => Fields.get? name v.fields

/-- An evaluator that remembers the expressions it has parsed. -/
structure Interpreter where
  parsed : List (String × Expr)

namespace Interpreter

def new : Interpreter :=
  ⟨[]⟩

/-- Only texts that are expressions are remembered. -/
def lookup (i : Interpreter) (source : String) : Except Expr.SyntaxError Expr × Interpreter :=
  match i.parsed.lookup source with
  | some e => (.ok e, i)
  | none => match Expr.parse source with
    | .ok e => (.ok e, ⟨(source, e) :: i.parsed⟩)
    | .error e => (.error e, i)

def evaluate (i : Interpreter) (source : String) (scope : Scope) :
    Except EvalError Value × Interpreter :=
  match i.lookup source with
  | (.ok e, j) => ((e.eval scope).map (·.value), j)
  | (.error e, j) => (.error (.badSyntax e.message), j)

def evaluateAll (i : Interpreter) (scope : Scope) : List String → List (Except EvalError Value)
  | [] => []
  | s :: ss =>
    let (r, j) := i.evaluate s scope
    r :: j.evaluateAll scope ss

end Interpreter

end Stencil
