import Stencil.Program.Free

/-! # Expressions and the loops around them

Every expression of a list of instructions, with the names that the loops around it bind, in the
order in which they stand. Looking for free names is to add those of one such expression after the
other: the scopes that are open at an expression define exactly these names. -/

namespace Stencil

/-- An expression in a program, its line, and the names that loops around it bind. -/
structure Site where
  source : String
  line : Nat
  bound : List String
  deriving DecidableEq, Repr

def Part.sites (line : Nat) (bound : List String) : Part → List Site
  | .text _ => []
  | .expr source => [⟨source, line, bound⟩]

def OptionEntry.sites (line : Nat) (bound : List String) (o : OptionEntry) : List Site :=
  match o.value with
  | .boolean => []
  | .text parts => parts.flatMap (Part.sites line bound)
  | .expr source => [⟨source, line, bound⟩]

def optionSites (line : Nat) (bound : List String) (os : List OptionEntry) : List Site :=
  os.flatMap (OptionEntry.sites line bound)

mutual
def Instruction.sites (bound : List String) : Instruction → List Site
  | .text _ => []
  | .output expr _ line => [⟨expr, line, bound⟩]
  | .attr _ expr _ line => [⟨expr, line, bound⟩]
  | .ifElse branches otherwise => sitesOfBranches bound branches ++ sitesOfOption bound otherwise
  | .whileTrue expr body line => ⟨expr, line, bound⟩ :: sitesOf bound body
  | .caseOf expr arms line => ⟨expr, line, bound⟩ :: sitesOfArms bound line arms
  | .each value key expr body line =>
    -- The list is read outside the loop.
    ⟨expr, line, bound⟩ :: sitesOf (key.toList ++ value :: bound) body
  | .block _ body => sitesOf bound body
  | .extension _ options overrides _ line =>
    optionSites line bound options ++ sitesOfOverrides bound overrides
  | .inclusion _ options _ line => optionSites line bound options
def sitesOf (bound : List String) : List Instruction → List Site
  | [] => []
  | i :: is => i.sites bound ++ sitesOf bound is
def sitesOfBranches (bound : List String) : List (Guarded (List Instruction)) → List Site
  | [] => []
  | ⟨expr, body, line⟩ :: bs => ⟨expr, line, bound⟩ :: sitesOf bound body ++
      sitesOfBranches bound bs
def sitesOfArms (bound : List String) (line : Nat) : List (CaseArm (List Instruction)) → List Site
  | [] => []
  | ⟨some expr, body⟩ :: as =>
    ⟨expr, line, bound⟩ :: sitesOf bound body ++ sitesOfArms bound line as
  | ⟨none, body⟩ :: as => sitesOf bound body ++ sitesOfArms bound line as
def sitesOfOption (bound : List String) : Option (List Instruction) → List Site
  | none => []
  | some body => sitesOf bound body
def sitesOfOverrides (bound : List String) : List (Override (List Instruction)) → List Site
  | [] => []
  | ⟨_, before, replace, after⟩ :: os =>
    sitesOfOption bound before ++ sitesOfOption bound replace ++ sitesOfOption bound after ++
      sitesOfOverrides bound os
end

/-! ## Scopes -/

namespace Scopes

variable {α : Type}

/-- The scopes define these names and no others. -/
def Binds (s : Scopes α) (bound : List String) : Prop :=
  ∀ n, s.isDefined n = bound.contains n

theorem binds_empty : (Scopes.empty : Scopes α).Binds [] :=
  fun _ => rfl

theorem Binds.enter {s : Scopes α} {bound : List String} (h : s.Binds bound) :
    s.enter.Binds bound := by
  intro n
  rw [← h n]
  rfl

theorem resolve_define (s : Scopes α) (name n : String) (value : α) :
    (s.define name value).resolve n = if n == name then some value else s.resolve n := by
  obtain ⟨_ | ⟨f, fs⟩⟩ := s
  · cases h : n == name <;> simp [Scopes.define, resolve, List.lookup_cons, h]
  · cases h : n == name <;> simp [Scopes.define, resolve, List.findSome?_cons, List.lookup_cons, h]

theorem Binds.define {s : Scopes α} {bound : List String} (h : s.Binds bound) (name : String)
    (value : α) : (s.define name value).Binds (name :: bound) := by
  intro n
  rw [isDefined, resolve_define, List.contains_cons, ← h n]
  cases n == name <;> rfl

end Scopes

/-! ## The walk -/

def addFree (names : List String) (s : Site) : Result (List String) :=
  match Expr.parse s.source with
  | .error e =>
    .error (.atSpan (.badExpression (String.ofList (Text.trim s.source.toList)) e.message) ⟨0, 0⟩
      s.line)
  | .ok e => .ok ((e.freeNames.filter fun n => !s.bound.contains n).foldl addName names)

namespace Binder

def adds (b : Binder) (ss : List Site) : Result Binder :=
  (ss.foldlM addFree b.free).map (Binder.mk b.scopes)

variable {s : Scopes Unit} {bound : List String} {free : List String}

theorem adds_bind {ss ts : List Site} {f : Binder → Result Binder}
    (hf : ∀ free, f ⟨s, free⟩ = (Binder.mk s free).adds ts) :
    (Binder.mk s free).adds ss >>= f = (Binder.mk s free).adds (ss ++ ts) := by
  rw [adds, adds, List.foldlM_append]
  cases ss.foldlM addFree free with
  | error e => rfl
  | ok names => exact hf names

theorem expr_eq (h : s.Binds bound) (source : String) (line : Nat) :
    (Binder.mk s free).expr source line = (Binder.mk s free).adds [⟨source, line, bound⟩] := by
  have hbound : (fun n => !s.isDefined n) = fun n => !bound.contains n :=
    funext fun n => by rw [h n]
  rw [expr, adds, List.foldlM_cons, addFree]
  cases Expr.parse source with
  | error e => rfl
  | ok e =>
    dsimp only
    rw [hbound]
    rfl

theorem foldlM_eq {α : Type} {step : Binder → α → Result Binder} {sites : α → List Site}
    (h : ∀ free x, step ⟨s, free⟩ x = (Binder.mk s free).adds (sites x)) (free : List String)
    (xs : List α) : xs.foldlM step ⟨s, free⟩ = (Binder.mk s free).adds (xs.flatMap sites) := by
  induction xs generalizing free with
  | nil => rfl
  | cons x xs ih =>
    rw [List.foldlM_cons, h, List.flatMap_cons]
    exact adds_bind ih

theorem option_eq (h : s.Binds bound) (line : Nat) (free : List String) (o : OptionEntry) :
    option line ⟨s, free⟩ o = (Binder.mk s free).adds (o.sites line bound) := by
  rw [option, OptionEntry.sites]
  cases o.value with
  | boolean => rfl
  | text parts =>
    refine foldlM_eq (fun free p => ?_) free parts
    cases p with
    | text _ => rfl
    | expr source => exact expr_eq h source line
  | expr source => exact expr_eq h source line

theorem options_eq (h : s.Binds bound) (line : Nat) (free : List String) (os : List OptionEntry) :
    os.foldlM (option line) ⟨s, free⟩ = (Binder.mk s free).adds (optionSites line bound os) :=
  foldlM_eq (option_eq h line) free os

theorem binds_enterLoop (h : s.Binds bound) (value : String) (key : Option String) :
    ((Binder.mk s free).enterLoop value key).scopes.Binds (key.toList ++ value :: bound) := by
  cases key with
  | none => exact h.enter.define value ()
  | some k => exact (h.enter.define value ()).define k ()

/-- A scope that was entered for a loop is left with the scopes around it. -/
theorem leave_enterLoop (value : String) (key : Option String) (names : List String) :
    leave ⟨((Binder.mk s free).enterLoop value key).scopes, names⟩ = ⟨s, names⟩ := by
  cases key <;> rfl

-- The induction is on instructions, for all free names so far; the scopes are those that bind what
-- the loops around do, and the walk comes back to them.
mutual
theorem instruction_eq {s : Scopes Unit} {bound : List String} (h : s.Binds bound)
    (free : List String) : (i : Instruction) →
    instruction ⟨s, free⟩ i = (Binder.mk s free).adds (i.sites bound)
  | .text _ => by
    rw [instruction]
    rfl
  | .output expr _ line => by
    rw [instruction, Instruction.sites]
    exact expr_eq h expr line
  | .attr _ expr _ line => by
    rw [instruction, Instruction.sites]
    exact expr_eq h expr line
  | .ifElse bs otherwise => by
    rw [instruction, Instruction.sites, branches_eq h free bs]
    exact adds_bind fun free => body?_eq h free otherwise
  | .whileTrue expr is line => by
    rw [instruction, Instruction.sites, expr_eq h]
    exact adds_bind fun free => body_eq h free is
  | .caseOf expr as line => by
    rw [instruction, Instruction.sites, expr_eq h]
    exact adds_bind fun free => arms_eq h line free as
  | .each value key expr is line => by
    rw [instruction, Instruction.sites, expr_eq h]
    refine adds_bind fun free => ?_
    have henter : (Binder.mk s free).enterLoop value key =
        ⟨((Binder.mk s free).enterLoop value key).scopes, free⟩ := rfl
    rw [henter, body_eq (binds_enterLoop h value key) free is, adds, adds]
    cases (sitesOf (key.toList ++ value :: bound) is).foldlM addFree free with
    | error e => rfl
    | ok names => exact congrArg Except.ok (leave_enterLoop value key names)
  | .block _ is => by
    rw [instruction, Instruction.sites]
    exact body_eq h free is
  | .extension _ options os _ line => by
    rw [instruction, Instruction.sites, options_eq h]
    exact adds_bind fun free => overrides_eq h free os
  | .inclusion _ options _ line => by
    rw [instruction, Instruction.sites]
    exact options_eq h line free options
theorem body_eq {s : Scopes Unit} {bound : List String} (h : s.Binds bound) (free : List String) :
    (is : List Instruction) → body ⟨s, free⟩ is = (Binder.mk s free).adds (sitesOf bound is)
  | [] => by
    rw [body]
    rfl
  | i :: is => by
    rw [body, sitesOf, instruction_eq h free i]
    exact adds_bind fun free => body_eq h free is
theorem branches_eq {s : Scopes Unit} {bound : List String} (h : s.Binds bound)
    (free : List String) : (bs : List (Guarded (List Instruction))) →
    branches ⟨s, free⟩ bs = (Binder.mk s free).adds (sitesOfBranches bound bs)
  | [] => by
    rw [branches]
    rfl
  | ⟨expr, is, line⟩ :: bs => by
    rw [branches, sitesOfBranches, expr_eq h]
    refine adds_bind fun free => ?_
    rw [body_eq h free is]
    exact adds_bind fun free => branches_eq h free bs
theorem arms_eq {s : Scopes Unit} {bound : List String} (h : s.Binds bound) (line : Nat)
    (free : List String) : (as : List (CaseArm (List Instruction))) →
    arms ⟨s, free⟩ line as = (Binder.mk s free).adds (sitesOfArms bound line as)
  | [] => by
    rw [arms]
    rfl
  | ⟨some expr, is⟩ :: as => by
    rw [arms, sitesOfArms, expr_eq h]
    refine adds_bind fun free => ?_
    rw [body_eq h free is]
    exact adds_bind fun free => arms_eq h line free as
  | ⟨none, is⟩ :: as => by
    rw [arms, sitesOfArms, body_eq h free is]
    exact adds_bind fun free => arms_eq h line free as
theorem body?_eq {s : Scopes Unit} {bound : List String} (h : s.Binds bound) (free : List String) :
    (o : Option (List Instruction)) →
    body? ⟨s, free⟩ o = (Binder.mk s free).adds (sitesOfOption bound o)
  | none => by
    rw [body?]
    rfl
  | some is => by
    rw [body?, sitesOfOption]
    exact body_eq h free is
theorem overrides_eq {s : Scopes Unit} {bound : List String} (h : s.Binds bound)
    (free : List String) : (os : List (Override (List Instruction))) →
    overrides ⟨s, free⟩ os = (Binder.mk s free).adds (sitesOfOverrides bound os)
  | [] => by
    rw [overrides]
    rfl
  | ⟨_, before, replace, after⟩ :: os => by
    rw [overrides, sitesOfOverrides, body?_eq h free before, List.append_assoc, List.append_assoc]
    refine adds_bind fun free => ?_
    rw [body?_eq h free replace]
    refine adds_bind fun free => ?_
    rw [body?_eq h free after]
    exact adds_bind fun free => overrides_eq h free os
end

end Binder

/-- The free names are those of all expressions, added from left to right. -/
theorem freeNamesOf_eq (body : List Instruction) :
    freeNamesOf body = (sitesOf [] body).foldlM addFree [] := by
  rw [freeNamesOf, Binder.body_eq Scopes.binds_empty, Binder.adds]
  cases (sitesOf [] body).foldlM addFree [] <;> rfl

end Stencil
