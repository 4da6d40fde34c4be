import Mathlib.Data.List.Forall2

/-! # Results and faults

From a result that is no fault, the results of its stages; and what holds of a result whichever way
its stages go, or of two results side by side. -/

namespace Stencil

theorem bind_eq_ok {ε α β : Type} {x : Except ε α} {f : α → Except ε β} {b : β} :
    x >>= f = .ok b ↔ ∃ a, x = .ok a ∧ f a = .ok b := by
  cases x with
  | error e => simp [bind, Except.bind]
  | ok a => simp [bind, Except.bind]

theorem map_eq_ok {ε α β : Type} {x : Except ε α} {f : α → β} {b : β} :
    x.map f = .ok b ↔ ∃ a, x = .ok a ∧ f a = b := by
  cases x with
  | error e => simp [Except.map]
  | ok a => simp [Except.map]

theorem bind_eq_error {ε α β : Type} {x : Except ε α} {f : α → Except ε β} {e : ε} :
    x >>= f = .error e ↔ x = .error e ∨ ∃ a, x = .ok a ∧ f a = .error e := by
  cases x with
  | error x => simp [bind, Except.bind]
  | ok a => simp [bind, Except.bind]

theorem map_eq_error {ε α β : Type} {x : Except ε α} {f : α → β} {e : ε} :
    x.map f = .error e ↔ x = .error e := by
  cases x with
  | error x => simp [Except.map]
  | ok a => simp [Except.map]

theorem mapError_eq_ok {ε δ α : Type} {x : Except ε α} {f : ε → δ} {a : α} :
    x.mapError f = .ok a ↔ x = .ok a := by
  cases x with
  | error e =>
    constructor
    · intro h
      cases h
    · intro h
      cases h
  | ok b =>
    constructor
    · intro h
      rw [Except.ok.inj h]
    · intro h
      exact congrArg Except.ok (Except.ok.inj h)

theorem mapError_eq_error {ε δ α : Type} {x : Except ε α} {f : ε → δ} {e : δ} :
    x.mapError f = .error e ↔ ∃ y, x = .error y ∧ f y = e := by
  cases x with
  | error y =>
    constructor
    · intro h
      exact ⟨y, rfl, Except.error.inj h⟩
    · rintro ⟨z, hz, rfl⟩
      exact congrArg (fun e => Except.error (f e)) (Except.error.inj hz)
  | ok b =>
    constructor
    · intro h
      cases h
    · rintro ⟨y, hy, -⟩
      cases hy

theorem exists_ok {ε α : Type} {x : Except ε α} (h : x.isOk = true) : ∃ a, x = .ok a := by
  cases x with
  | error e => cases h
  | ok a => exact ⟨a, rfl⟩

theorem ok_of_toOption {ε α : Type} {x : Except ε α} {a : α} (h : x.toOption = some a) :
    x = .ok a := by
  cases x with
  | error e => cases h
  | ok b => rw [Option.some.inj h]

/-- A stage that gives something good, or fails with a fault of a kind. -/
def Ensures {ε α : Type} (fault : ε → Prop) (good : α → Prop) : Except ε α → Prop
  | .ok a => good a
  | .error e => fault e

namespace Ensures

variable {ε α β : Type} {fault fault' : ε → Prop} {good good' : α → Prop} {fine : β → Prop}

theorem bind {x : Except ε α} {f : α → Except ε β} (hx : Ensures fault good x)
    (hf : ∀ a, good a → Ensures fault fine (f a)) : Ensures fault fine (x >>= f) := by
  cases x with
  | error e => exact hx
  | ok a => exact hf a hx

theorem map {x : Except ε α} {f : α → β} (hx : Ensures fault good x)
    (hf : ∀ a, good a → fine (f a)) : Ensures fault fine (x.map f) := by
  cases x with
  | error e => exact hx
  | ok a => exact hf a hx

theorem mono {x : Except ε α} (hx : Ensures fault good x) (he : ∀ e, fault e → fault' e)
    (ha : ∀ a, good a → good' a) : Ensures fault' good' x := by
  cases x with
  | error e => exact he e hx
  | ok a => exact ha a hx

theorem imp {x : Except ε α} (hx : Ensures fault good x) (ha : ∀ a, good a → good' a) :
    Ensures fault good' x :=
  hx.mono (fun _ he => he) ha

end Ensures

/-- Two stages that both give something, which is related, or both fail in the same way. -/
inductive Parallel {ε α β : Type} (R : α → β → Prop) : Except ε α → Except ε β → Prop
  | ok {a : α} {b : β} (related : R a b) : Parallel R (.ok a) (.ok b)
  | error (e : ε) : Parallel R (.error e) (.error e)

namespace Parallel

variable {ε δ α β γ κ : Type} {R R' : α → β → Prop} {S : γ → κ → Prop}
variable {x : Except ε α} {y : Except ε β}

theorem same (x : Except ε α) : Parallel (fun a b => a = b ∧ x = .ok a) x x := by
  cases x with
  | error e => exact .error e
  | ok a => exact .ok ⟨rfl, rfl⟩

theorem mono (h : Parallel R x y) (hR : ∀ a b, R a b → R' a b) : Parallel R' x y := by
  cases h with
  | ok related => exact .ok (hR _ _ related)
  | error e => exact .error e

theorem bind {f : α → Except ε γ} {g : β → Except ε κ} (hx : Parallel R x y)
    (hf : ∀ a b, R a b → Parallel S (f a) (g b)) : Parallel S (x >>= f) (y >>= g) := by
  cases hx with
  | ok related => exact hf _ _ related
  | error e => exact .error e

theorem map {f : α → γ} {g : β → κ} (hx : Parallel R x y) (hf : ∀ a b, R a b → S (f a) (g b)) :
    Parallel S (x.map f) (y.map g) := by
  cases hx with
  | ok related => exact .ok (hf _ _ related)
  | error e => exact .error e

theorem of_map {f : α → γ} {g : β → κ} (hx : Parallel S (x.map f) (y.map g)) :
    Parallel (fun a b => S (f a) (g b)) x y := by
  cases x with
  | error e =>
    cases y with
    | error e' => cases hx; exact .error e
    | ok b => cases hx
  | ok a =>
    cases y with
    | error e => cases hx
    | ok b => cases hx with
      | ok related => exact .ok related

theorem mapError (hx : Parallel R x y) (f : ε → δ) :
    Parallel R (x.mapError f) (y.mapError f) := by
  cases hx with
  | ok related => exact .ok related
  | error e => exact .error (f e)

theorem with_results (hx : Parallel R x y) :
    Parallel (fun a b => x = .ok a ∧ y = .ok b ∧ R a b) x y := by
  cases hx with
  | ok related => exact .ok ⟨rfl, rfl, related⟩
  | error e => exact .error e

theorem meet {z : Except ε γ} {Q : α → γ → Prop} {Q' : β → γ → Prop} (hx : Parallel Q x z)
    (hy : Parallel Q' y z) : Parallel (fun a b => ∃ c, z = .ok c ∧ Q a c ∧ Q' b c) x y := by
  cases hx with
  | error e =>
    cases hy with
    | error e => exact .error e
  | ok hq =>
    cases hy with
    | ok hq' => exact .ok ⟨_, rfl, hq, hq'⟩

theorem exists_left (hx : Parallel R x y) {b : β} (hb : y = .ok b) : ∃ a, x = .ok a ∧ R a b := by
  subst hb
  cases hx with
  | ok related => exact ⟨_, rfl, related⟩

theorem related (hx : Parallel R x y) {a : α} {b : β} (ha : x = .ok a) (hb : y = .ok b) :
    R a b := by
  subst ha hb
  cases hx with
  | ok related => exact related

end Parallel

theorem rel_or {α β : Type} {R : α → β → Prop} {a a' : Option α} {b b' : Option β}
    (h : Option.Rel R a b) (h' : Option.Rel R a' b') : Option.Rel R (a.or a') (b.or b') := by
  cases h with
  | none => exact h'
  | some h => exact .some h

theorem rel_getD {α β : Type} {R : α → β → Prop} {a : Option α} {b : Option β}
    (h : Option.Rel R a b) {c : α} {d : β} (h' : R c d) : R (a.getD c) (b.getD d) := by
  cases h with
  | none => exact h'
  | some h => exact h

theorem rel_map {α β γ δ : Type} {R : α → β → Prop} {S : γ → δ → Prop} {a : Option α}
    {b : Option β} {f : α → γ} {g : β → δ} (h : Option.Rel R a b)
    (hf : ∀ x y, R x y → S (f x) (g y)) : Option.Rel S (a.map f) (b.map g) := by
  cases h with
  | none => exact .none
  | some h => exact .some (hf _ _ h)

theorem forall₂_getElem? {α β : Type} {R : α → β → Prop} {as : List α} {bs : List β}
    (h : List.Forall₂ R as bs) (i : Nat) : Option.Rel R as[i]? bs[i]? := by
  induction h generalizing i with
  | nil => exact .none
  | cons hab _ ih =>
    cases i with
    | zero => exact .some hab
    | succ i => exact ih i

end Stencil
