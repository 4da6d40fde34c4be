import Stencil.Diagnostic
import Stencil.Expr.Free
import Stencil.Expr.Parser
import Stencil.Program.Basic
import Stencil.Scopes
import Stencil.Text.Blank

/-! # The free names of a program

A walk through a list of instructions, in which every loop opens a scope for its names, collects the
names that expressions read and no scope binds. The programs of other modules are left out, since
they bind their own. -/

namespace Stencil

/-- The names that the loops around bind, and the free names so far. -/
structure Binder where
  scopes : Scopes Unit
  free : List String

namespace Binder

def expr (b : Binder) (source : String) (line : Nat) : Result Binder :=
  match Expr.parse source with
  | .error e =>
    .error (.atSpan (.badExpression (String.ofList (Text.trim source.toList)) e.message)
      ⟨0, 0⟩ line)
  | .ok e =>
    .ok { b with free := (e.freeNames.filter fun n => !b.scopes.isDefined n).foldl addName b.free }

def part (line : Nat) (b : Binder) : Part → Result Binder
  | .text _ => .ok b
  | .expr source => b.expr source line

def option (line : Nat) (b : Binder) (o : OptionEntry) : Result Binder :=
  match o.value with
  | .boolean => .ok b
  | .text parts => parts.foldlM (part line) b
  | .expr source => b.expr source line

def enterLoop (b : Binder) (value : String) (key : Option String) : Binder :=
  let s := b.scopes.enter.define value ()
  { b with scopes := key.elim s fun k => s.define k () }

def leave (b : Binder) : Binder :=
  { b with scopes := b.scopes.exit?.getD b.scopes }

mutual
def instruction (b : Binder) : Instruction → Result Binder
  | .text _ => .ok b
  | .output expr _ line => b.expr expr line
  | .attr _ expr _ line => b.expr expr line
  | .ifElse branches otherwise => do
    let b ← b.branches branches
    b.body? otherwise
  | .whileTrue expr body line => do
    let b ← b.expr expr line
    b.body body
  | .caseOf expr arms line => do
    let b ← b.expr expr line
    b.arms line arms
  | .each value key expr body line => do
    -- The list is read outside the loop.
    let b ← b.expr expr line
    let b ← (b.enterLoop value key).body body
    return b.leave
  | .block _ body => b.body body
  | .extension _ options overrides _ line => do
    let b ← options.foldlM (option line) b
    b.overrides overrides
  | .inclusion _ options _ line => options.foldlM (option line) b
def body (b : Binder) : List Instruction → Result Binder
  | [] => .ok b
  | i :: is => do
    let b ← b.instruction i
    b.body is
def branches (b : Binder) : List (Guarded (List Instruction)) → Result Binder
  | [] => .ok b
  | ⟨expr, body, line⟩ :: bs => do
    let b ← b.expr expr line
    let b ← b.body body
    b.branches bs
-- The arms of a case have no lines of their own.
def arms (b : Binder) (line : Nat) : List (CaseArm (List Instruction)) → Result Binder
  | [] => .ok b
  | ⟨some expr, body⟩ :: as => do
    let b ← b.expr expr line
    let b ← b.body body
    b.arms line as
  | ⟨none, body⟩ :: as => do
    let b ← b.body body
    b.arms line as
def body? (b : Binder) : Option (List Instruction) → Result Binder
  | none => .ok b
  | some body => b.body body
def overrides (b : Binder) : List (Override (List Instruction)) → Result Binder
  | [] => .ok b
  | ⟨_, before, replace, after⟩ :: os => do
    let b ← b.body? before
    let b ← b.body? replace
    let b ← b.body? after
    b.overrides os
end

end Binder

/-- The free names of a list of instructions, in the order in which they first appear. -/
def freeNamesOf (body : List Instruction) : Result (List String) :=
  (Binder.body ⟨.empty, []⟩ body).map (·.free)

end Stencil
