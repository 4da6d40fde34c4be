import Stencil.Diagnostic
import Stencil.Expr.Method
import Stencil.Program.Basic

/-! # What a rendering gives

The pieces of the rendered text and the modules that were used, or the reason why there are none. -/

namespace Stencil

inductive RenderFault where
  | evaluation (e : EvalError)
  /-- A loop went on past the given number of times. -/
  | loopLimit (times : Nat)

def RenderFault.code : RenderFault → String
  | .evaluation _ => "EVALUATION_FAILED"
  | .loopLimit _ => "LOOP_LIMIT"

def RenderFault.message : RenderFault → String
  | .evaluation e => e.message
  | .loopLimit times => "`while` ran more than " ++ toString times ++ " times"

structure RenderError where
  fault : RenderFault
  filename : Option String
  expr : String
  line : Nat

def RenderError.text (e : RenderError) : String :=
  "[" ++ e.fault.code ++ "] " ++ e.fault.message ++ " in " ++ backquoted e.expr ++ " on line " ++
    toString e.line ++ " of " ++ e.filename.getD "template"

structure Record where
  dependency : Dependency
  options : Value

structure Rendered where
  pieces : List Html.Piece
  /-- The modules used, each after those that it used itself. -/
  records : List Record

namespace Rendered

def empty : Rendered :=
  ⟨[], []⟩

def ofPieces (ps : List Html.Piece) : Rendered :=
  ⟨ps, []⟩

instance : Append Rendered where
  append a b := ⟨a.pieces ++ b.pieces, a.records ++ b.records⟩

theorem append_def (a b : Rendered) :
    a ++ b = ⟨a.pieces ++ b.pieces, a.records ++ b.records⟩ :=
  rfl

theorem append_assoc (a b c : Rendered) : a ++ b ++ c = a ++ (b ++ c) := by
  simp [append_def]

theorem empty_append (a : Rendered) : empty ++ a = a := by
  simp [append_def, empty]

theorem append_empty (a : Rendered) : a ++ empty = a := by
  simp [append_def, empty]

def html (r : Rendered) : String :=
  Html.join r.pieces

end Rendered

abbrev Rendering := Except RenderError Rendered

def Rendering.forEach {α : Type} (f : α → Rendering) : List α → Rendering
  | [] => .ok .empty
  | a :: as => do
    let r ← f a
    let rs ← forEach f as
    return r ++ rs

/-- Render a body as often as its condition holds. A condition that still holds after the given
number of times is a fault. -/
def Rendering.repeatWhile (condition : Unit → Except RenderError Bool) (body : Unit → Rendering)
    (limit : RenderError) : (times : Nat) → Rendering
  | 0 => do
    if ← condition () then throw limit
    return .empty
  | n + 1 => do
    if ← condition () then
      let r ← body ()
      let rs ← repeatWhile condition body limit n
      return r ++ rs
    else return .empty

end Stencil
