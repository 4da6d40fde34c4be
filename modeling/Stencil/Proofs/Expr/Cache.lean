import Stencil.Expr.Eval

/-! # Remembered expressions

An interpreter remembers the expressions that it has parsed. What it remembers of a text is what
parsing gives, so its answers do not depend on what it was asked before. -/

namespace Stencil.Interpreter

structure Call where
  source : String
  scope : Scope

def run (i : Interpreter) : List Call → List (Except EvalError Value) × Interpreter
  | [] => ([], i)
  | c :: cs =>
    let (r, j) := i.evaluate c.source c.scope
    let (rs, k) := j.run cs
    (r :: rs, k)

def Remembers (i : Interpreter) (source : String) : Prop :=
  source ∈ i.parsed.map Prod.fst

def Faithful (i : Interpreter) : Prop :=
  ∀ p ∈ i.parsed, Expr.parse p.1 = .ok p.2

theorem faithful_new : new.Faithful :=
  List.forall_mem_nil _

/-! ## One call -/

section

variable {i : Interpreter}

theorem Faithful.parse_of_lookup (h : i.Faithful) {source : String} {e : Expr}
    (he : i.parsed.lookup source = some e) : Expr.parse source = .ok e := by
  obtain ⟨before, after, hparsed, -⟩ := List.lookup_eq_some_iff.1 he
  apply h (source, e)
  simp [hparsed]

theorem Faithful.lookup_eq (h : i.Faithful) (source : String) :
    (i.lookup source).1 = Expr.parse source := by
  unfold lookup
  split
  · next e he => exact (h.parse_of_lookup he).symm
  · split
    · next e he => exact he.symm
    · next e he => exact he.symm

theorem Faithful.lookup (h : i.Faithful) (source : String) : (i.lookup source).2.Faithful := by
  unfold Interpreter.lookup
  split
  · exact h
  · split
    · next e he => exact List.forall_mem_cons.2 ⟨he, h⟩
    · exact h

theorem remembers_lookup (i : Interpreter) (source s : String) :
    (i.lookup source).2.Remembers s ↔
      i.Remembers s ∨ source = s ∧ ∃ e, Expr.parse s = .ok e := by
  unfold Interpreter.lookup Remembers
  split
  · next e he =>
    obtain ⟨before, after, hparsed, -⟩ := List.lookup_eq_some_iff.1 he
    constructor
    · exact .inl
    · rintro (hs | ⟨rfl, -⟩)
      · exact hs
      · simp [hparsed]
  · by_cases hs : source = s
    · subst hs
      split
      · next e he => simp [he]
      · next e he => simp [he]
    · have hne : s ≠ source := fun h => hs h.symm
      split
      · simp [hs, hne]
      · simp [hs]

theorem evaluate_snd (i : Interpreter) (source : String) (scope : Scope) :
    (i.evaluate source scope).2 = (i.lookup source).2 := by
  unfold Interpreter.evaluate
  split
  · next hl => rw [hl]
  · next hl => rw [hl]

/-- An interpreter answers as if it had no memory. -/
theorem Faithful.evaluate_eq (h : i.Faithful) (source : String) (scope : Scope) :
    (i.evaluate source scope).1 = Stencil.evaluate source scope := by
  have hparse := h.lookup_eq source
  unfold Interpreter.evaluate Stencil.evaluate
  split
  · next e j hl =>
    rw [hl] at hparse
    rw [← hparse]
  · next e j hl =>
    rw [hl] at hparse
    rw [← hparse]

theorem Faithful.evaluate (h : i.Faithful) (source : String) (scope : Scope) :
    (i.evaluate source scope).2.Faithful := by
  rw [evaluate_snd]
  exact h.lookup source

/-! ## Runs of calls -/

theorem Faithful.run (h : i.Faithful) (calls : List Call) : (i.run calls).2.Faithful := by
  induction calls generalizing i with
  | nil => exact h
  | cons c cs ih => exact ih (h.evaluate c.source c.scope)

theorem Faithful.run_eq (h : i.Faithful) (calls : List Call) :
    (i.run calls).1 = calls.map fun c => Stencil.evaluate c.source c.scope := by
  induction calls generalizing i with
  | nil => rfl
  | cons c cs ih =>
    rw [List.map_cons, ← ih (h.evaluate c.source c.scope), ← h.evaluate_eq]
    rfl

theorem remembers_run (i : Interpreter) (calls : List Call) (s : String) :
    (i.run calls).2.Remembers s ↔
      i.Remembers s ∨ (∃ c ∈ calls, c.source = s) ∧ ∃ e, Expr.parse s = .ok e := by
  induction calls generalizing i with
  | nil => simp [run]
  | cons c cs ih =>
    simp only [run]
    rw [ih, evaluate_snd, remembers_lookup, or_assoc, ← or_and_right]
    simp

theorem evaluateAll_eq_run (i : Interpreter) (scope : Scope) (sources : List String) :
    i.evaluateAll scope sources = (i.run (sources.map fun s => ⟨s, scope⟩)).1 := by
  induction sources generalizing i with
  | nil => rfl
  | cons s ss ih => simp [Interpreter.evaluateAll, Interpreter.run, ih]

end

/-- **Remembering is transparent.** Whatever an interpreter is asked one after another, each answer
is that of a new interpreter, which is the value of the text without any memory; and so is the next
answer. It remembers the texts that it was asked for, except those that cannot be parsed. -/
theorem run_transparent (calls : List Call) :
    (new.run calls).1 = calls.map (fun c => (new.evaluate c.source c.scope).1) ∧
      (∀ c : Call, ((new.run calls).2.evaluate c.source c.scope).1 =
        (new.evaluate c.source c.scope).1 ∧
        (new.evaluate c.source c.scope).1 = Stencil.evaluate c.source c.scope) ∧
      (∀ scope sources, new.evaluateAll scope sources =
        sources.map fun s => (new.evaluate s scope).1) ∧
      ∀ s, (new.run calls).2.Remembers s ↔
        (∃ c ∈ calls, c.source = s) ∧ ∃ e, Expr.parse s = .ok e := by
  have hnew : ∀ (source : String) (scope : Scope),
      (new.evaluate source scope).1 = Stencil.evaluate source scope := faithful_new.evaluate_eq
  refine ⟨?_, fun c => ⟨?_, hnew _ _⟩, fun scope sources => ?_, fun s => ?_⟩
  · simp only [hnew]
    exact faithful_new.run_eq calls
  · rw [hnew]
    exact (faithful_new.run calls).evaluate_eq _ _
  · rw [evaluateAll_eq_run, faithful_new.run_eq, List.map_map]
    simp only [hnew]
    rfl
  · rw [remembers_run]
    simp [Remembers, new]

end Stencil.Interpreter
