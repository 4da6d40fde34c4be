import Stencil.Diagnostic

/-! # Runs that go alike

Two runs of a stage that both succeed, with related results, or both fail, with the same code on the
same line. What a diagnostic says beside that (the texts and the places it quotes) may differ. -/

namespace Stencil

inductive Alike {α β : Type} (R : α → β → Prop) : Result α → Result β → Prop
  | ok {a : α} {b : β} (related : R a b) : Alike R (.ok a) (.ok b)
  | error {e f : Diagnostic} (code : e.cause.code = f.cause.code) (line : e.line = f.line) :
    Alike R (.error e) (.error f)

namespace Alike

variable {α β γ δ : Type} {R R' : α → β → Prop} {S : γ → δ → Prop} {x : Result α} {y : Result β}

theorem refl (x : Result α) : Alike (· = ·) x x := by
  cases x with
  | error e => exact .error rfl rfl
  | ok a => exact .ok rfl

theorem mono (h : Alike R x y) (hR : ∀ a b, R a b → R' a b) : Alike R' x y := by
  cases h with
  | ok related => exact .ok (hR _ _ related)
  | error code line => exact .error code line

theorem symm (h : Alike R x y) : Alike (fun b a => R a b) y x := by
  cases h with
  | ok related => exact .ok related
  | error code line => exact .error code.symm line.symm

theorem trans {z : Result γ} {Q : β → γ → Prop} (hx : Alike R x y) (hy : Alike Q y z) :
    Alike (fun a c => ∃ b, R a b ∧ Q b c) x z := by
  cases hx with
  | ok related =>
    cases hy with
    | ok related' => exact .ok ⟨_, related, related'⟩
  | error code line =>
    cases hy with
    | error code' line' => exact .error (code.trans code') (line.trans line')

theorem with_results (h : Alike R x y) :
    Alike (fun a b => x = .ok a ∧ y = .ok b ∧ R a b) x y := by
  cases h with
  | ok related => exact .ok ⟨rfl, rfl, related⟩
  | error code line => exact .error code line

theorem bind {f : α → Result γ} {g : β → Result δ} (hx : Alike R x y)
    (hf : ∀ a b, R a b → Alike S (f a) (g b)) : Alike S (x >>= f) (y >>= g) := by
  cases hx with
  | ok related => exact hf _ _ related
  | error code line => exact .error code line

theorem map {f : α → γ} {g : β → δ} (hx : Alike R x y) (hf : ∀ a b, R a b → S (f a) (g b)) :
    Alike S (x.map f) (y.map g) := by
  cases hx with
  | ok related => exact .ok (hf _ _ related)
  | error code line => exact .error code line

theorem mapError {f g : Diagnostic → Diagnostic} (hx : Alike R x y)
    (hf : ∀ e, (f e).cause = e.cause ∧ (f e).line = e.line)
    (hg : ∀ e, (g e).cause = e.cause ∧ (g e).line = e.line) :
    Alike R (x.mapError f) (y.mapError g) := by
  cases hx with
  | ok related => exact .ok related
  | error code line =>
    refine .error ?_ ?_
    · rw [(hf _).1, (hg _).1, code]
    · rw [(hf _).2, (hg _).2, line]

end Alike

end Stencil
