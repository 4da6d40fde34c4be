import Stencil.Expr.Eval
import Stencil.Expr.Free

/-! # Evaluation reads its references only

Two scopes that agree on the references of an expression give it the same value. They need not agree
on everything: a name may be bound to null in one and unbound in the other, as long as it stands for
nothing of its own. -/

namespace Stencil

def Both {ε α : Type} (R : α → α → Prop) : Except ε α → Except ε α → Prop
  | .ok a, .ok b => R a b
  | .error _, .error _ => True
  | _, _ => False

namespace Both

variable {ε α β : Type} {R : α → α → Prop} {S : β → β → Prop}

theorem ok {a b : α} (h : R a b) : Both R (.ok a : Except ε α) (.ok b) := h

theorem error (d e : ε) : Both R (.error d) (.error e) := trivial

theorem refl (x : Except ε α) : Both Eq x x := by
  cases x with
  | error e => exact error e e
  | ok a => exact ok rfl

theorem bind {x y : Except ε α} {f g : α → Except ε β} (h : Both R x y)
    (hf : ∀ a b, R a b → Both S (f a) (g b)) : Both S (x >>= f) (y >>= g) := by
  cases x with
  | error d => cases y with
    | error e => exact error d e
    | ok b => exact h.elim
  | ok a => cases y with
    | error e => exact h.elim
    | ok b => exact hf a b h

theorem map {x y : Except ε α} {f g : α → β} (h : Both R x y) (hf : ∀ a b, R a b → S (f a) (g b)) :
    Both S (x.map f) (y.map g) := by
  cases x with
  | error d => cases y with
    | error e => exact error d e
    | ok b => exact h.elim
  | ok a => cases y with
    | error e => exact h.elim
    | ok b => exact hf a b h

theorem toOption {x y : Except ε α} (h : Both Eq x y) : x.toOption = y.toOption := by
  cases x with
  | error d => cases y with
    | error e => rfl
    | ok b => exact h.elim
  | ok a => cases y with
    | error e => exact h.elim
    | ok b => exact congrArg some h

end Both

/-- Two scopes agree on a name: they bind it alike, or one binds it to null and the other does not
bind it, which is the same for a name that is not global. -/
def Scope.Agree (s t : Scope) (n : String) : Prop :=
  s n = t n ∨ s n = some .null ∧ t n = none ∧ isGlobal n = false

/-- Two operands agree: they have the same value, and unless that is null, at the same place. -/
structure Operand.Agree (a b : Operand) : Prop where
  value : a.value = b.value
  place : a.place = b.place ∨ a.value = .null

namespace Operand.Agree

theorem refl (a : Operand) : a.Agree a :=
  ⟨rfl, .inl rfl⟩

theorem made {v w : Value} (h : v = w) : (Operand.made v).Agree (.made w) :=
  h ▸ refl _

theorem member {a b : Operand} (h : a.Agree b) (key : Value) :
    Both Operand.Agree (a.member key) (b.member key) := by
  obtain ⟨v, p⟩ := a
  obtain ⟨w, q⟩ := b
  obtain rfl : v = w := h.value
  unfold Operand.member
  by_cases hn : v.isNull = true
  · simp only [hn, if_true]
    exact Both.error _ _
  · have hp : p = q := h.place.resolve_right fun e => by
      obtain rfl : v = .null := e
      exact hn rfl
    subst hp
    simp only [hn]
    exact Both.ok (refl _)

theorem same {a b c d : Operand} (h : a.Agree b) (h' : c.Agree d) :
    a.same c = b.same d ∨ a.value = .null ∨ c.value = .null := by
  rcases h.place with hp | hp
  · rcases h'.place with hq | hq
    · exact .inl (by rw [Operand.same, Operand.same, hp, hq])
    · exact .inr (.inr hq)
  · exact .inr (.inl hp)

/-- Where null is stored does not matter when it is compared. -/
theorem strictEq {a b c d : Operand} (h : a.Agree b) (h' : c.Agree d) :
    a.value.strictEq (a.same c) c.value = b.value.strictEq (b.same d) d.value := by
  rw [← h.value, ← h'.value]
  rcases same h h' with hs | hn | hn
  · rw [hs]
  · rw [hn]
    cases c.value <;> rfl
  · rw [hn]
    cases a.value <;> rfl

theorem looseEq {a b c d : Operand} (h : a.Agree b) (h' : c.Agree d) :
    a.value.looseEq (a.same c) c.value = b.value.looseEq (b.same d) d.value := by
  rw [← h.value, ← h'.value]
  rcases same h h' with hs | hn | hn
  · rw [hs]
  · rw [hn]
    cases c.value <;> rfl
  · rw [hn]
    cases a.value <;> rfl

theorem apply {a b c d : Operand} (op : BinaryOp) (h : a.Agree b) (h' : c.Agree d) :
    op.apply a c = op.apply b d := by
  cases op with
  | looseEq => exact congrArg Value.bool (looseEq h h')
  | looseNe => exact congrArg (fun x => Value.bool !x) (looseEq h h')
  | strictEq => exact congrArg Value.bool (strictEq h h')
  | strictNe => exact congrArg (fun x => Value.bool !x) (strictEq h h')
  | _ => simp only [BinaryOp.apply, h.value, h'.value]

end Operand.Agree

theorem callGlobal_of_not_global {n : String} (h : isGlobal n = false) (args : List Value) :
    callGlobal n args = .error (.notAFunction n) := by
  simp only [isGlobal, Bool.or_eq_false_iff] at h
  simp [callGlobal, h]

namespace Expr

variable {s t : Scope}

/-- Calling a name fails in both scopes, unless neither of them binds it. -/
theorem call_agree {n : String} (h : s.Agree t n) (args : List Value) :
    Both Operand.Agree
      (if (s n).isNone then .made <$> callGlobal n args else throw EvalError.notCallable)
      (if (t n).isNone then .made <$> callGlobal n args else throw EvalError.notCallable) := by
  rcases h with h | ⟨hs, ht, hn⟩
  · rw [h]
    by_cases hb : (t n).isNone = true
    · rw [if_pos hb]
      exact Both.map (Both.refl _) fun a b e => .made e
    · rw [if_neg hb]
      exact Both.error _ _
  · rw [hs, ht, callGlobal_of_not_global hn]
    exact Both.error _ _

theorem callMethod_agree {n : String} (h : s.Agree t n) (m : String) (args : List Value) :
    Both Operand.Agree
      (match s n with
      | some v => .made <$> callMethod v m args
      | none =>
        if n == "JSON" then .made <$> callJson m args else .made <$> callMethod .null m args)
      (match t n with
      | some v => .made <$> callMethod v m args
      | none =>
        if n == "JSON" then .made <$> callJson m args else .made <$> callMethod .null m args) := by
  have hrefl : ∀ x : Except EvalError Value, Both Operand.Agree (.made <$> x) (.made <$> x) :=
    fun x => Both.map (Both.refl x) fun a b e => .made e
  rcases h with h | ⟨hs, ht, hn⟩
  · rw [h]
    cases t n with
    | some v => exact hrefl _
    | none =>
      by_cases hj : (n == "JSON") = true
      · rw [if_pos hj]
        exact hrefl _
      · rw [if_neg hj]
        exact hrefl _
  · have hj : ¬ (n == "JSON") = true := by
      simp only [isGlobal, Bool.or_eq_false_iff] at hn
      simp [hn]
    simp only [hs, ht]
    rw [if_neg hj]
    exact hrefl _

mutual
theorem eval_agree : {e : Expr} → (∀ n ∈ e.references, s.Agree t n) →
    Both Operand.Agree (e.eval s) (e.eval t)
  | .lit _ l, _ => by
    simp only [eval]
    exact Both.ok (.refl _)
  | .ref _ n, h => by
    rw [references] at h
    rw [eval, eval]
    rcases h n.name (List.mem_cons_self ..) with h | ⟨hs, ht, -⟩
    · rw [h]
      exact Both.ok (.refl _)
    · rw [hs, ht]
      exact Both.ok ⟨rfl, .inr rfl⟩
  | .array _ xs, h => by
    rw [references] at h
    rw [eval, eval]
    exact (evalAll_agree h).bind fun vs ws e => Both.ok (.made (congrArg Value.arr e))
  | .object _ ps, h => by
    rw [references] at h
    rw [eval, eval]
    exact (evalFields_agree h).bind fun fs gs e =>
      Both.ok (.made (congrArg (fun fs => Value.obj (Fields.ofList fs)) e))
  | .member _ e n, h => by
    rw [references] at h
    rw [eval, eval]
    exact (eval_agree h).bind fun a b hab => hab.member _
  | .index _ e k, h => by
    rw [references] at h
    rw [eval, eval]
    refine (eval_agree fun n hn => h n (List.mem_append_right _ hn)).bind fun c d hcd => ?_
    refine (eval_agree fun n hn => h n (List.mem_append_left _ hn)).bind fun a b hab => ?_
    rw [hcd.value]
    exact hab.member _
  | .call _ e xs, h => by
    rw [references] at h
    have hargs := evalAll_agree fun n hn => h n (List.mem_append_right _ hn)
    have he : ∀ n ∈ e.references, s.Agree t n := fun n hn => h n (List.mem_append_left _ hn)
    -- The callee is looked at, not evaluated, where it is a name or a method of one.
    cases e with
    | ref span n =>
      rw [references] at he
      rw [eval, eval]
      refine hargs.bind fun vs ws hvw => ?_
      rw [hvw]
      exact call_agree (he n.name (List.mem_cons_self ..)) ws
    | member span o m =>
      rw [references] at he
      have ho := eval_agree he
      cases o with
      | ref span n =>
        rw [references] at he
        rw [eval, eval]
        refine hargs.bind fun vs ws hvw => ?_
        rw [hvw]
        exact callMethod_agree (he n.name (List.mem_cons_self ..)) m.name ws
      | _ =>
        rw [eval, eval]
        · refine hargs.bind fun vs ws hvw => ?_
          refine ho.bind fun a b hab => ?_
          rw [hvw, hab.value]
          exact Both.map (Both.refl _) fun a b e => .made e
        all_goals exact nofun
    | _ =>
      rw [eval, eval]
      · exact hargs.bind fun vs ws _ => Both.error _ _
      all_goals exact nofun
  | .unary _ op e, h => by
    rw [references] at h
    rw [eval, eval]
    exact (eval_agree h).bind fun a b hab => Both.ok (.made (congrArg op.apply hab.value))
  | .binary _ op l r, h => by
    rw [references] at h
    rw [eval, eval]
    refine (eval_agree fun n hn => h n (List.mem_append_left _ hn)).bind fun a b hab => ?_
    rw [hab.value]
    by_cases hc : op.shortCuts b.value = true
    · simp only [hc, if_true]
      exact Both.ok hab
    · simp only [hc]
      refine (eval_agree fun n hn => h n (List.mem_append_right _ hn)).bind fun c d hcd => ?_
      by_cases ho : op.isChoice = true
      · simp only [ho, if_true]
        exact Both.ok hcd
      · simp only [ho]
        exact Both.ok (.made (hab.apply op hcd))
  | .cond _ c y n, h => by
    rw [references] at h
    rw [eval, eval]
    refine (eval_agree fun m hm => h m ?_).bind fun a b hab => ?_
    · exact List.mem_append_left _ (List.mem_append_left _ hm)
    rw [hab.value]
    by_cases ht : b.value.truthy = true
    · rw [if_pos ht, if_pos ht]
      exact eval_agree fun m hm => h m (List.mem_append_left _ (List.mem_append_right _ hm))
    · rw [if_neg ht, if_neg ht]
      exact eval_agree fun m hm => h m (List.mem_append_right _ hm)
theorem evalAll_agree : {es : List Expr} → (∀ n ∈ referencesAll es, s.Agree t n) →
    Both Eq (evalAll s es) (evalAll t es)
  | [], _ => by
    rw [evalAll, evalAll]
    exact Both.ok rfl
  | e :: es, h => by
    rw [referencesAll] at h
    rw [evalAll, evalAll]
    refine (eval_agree fun n hn => h n (List.mem_append_left _ hn)).bind fun a b hab => ?_
    refine (evalAll_agree fun n hn => h n (List.mem_append_right _ hn)).bind fun vs ws e => ?_
    exact Both.ok (congr (congrArg List.cons hab.value) e)
theorem evalFields_agree : {ps : List (Key × Expr)} → (∀ n ∈ referencesFields ps, s.Agree t n) →
    Both Eq (evalFields s ps) (evalFields t ps)
  | [], _ => by
    rw [evalFields, evalFields]
    exact Both.ok rfl
  | (k, e) :: ps, h => by
    rw [referencesFields] at h
    rw [evalFields, evalFields]
    refine (eval_agree fun n hn => h n (List.mem_append_left _ hn)).bind fun a b hab => ?_
    refine (evalFields_agree fun n hn => h n (List.mem_append_right _ hn)).bind fun fs gs e => ?_
    exact Both.ok (by rw [hab.value, e])
end

end Expr

/-- An expression given as text has one value, or none, in scopes that agree on what it reads. -/
theorem evaluate_agree {source : String} {s t : Scope}
    (h : ∀ e, Expr.parse source = .ok e → ∀ n ∈ e.references, s.Agree t n) :
    Both Eq (evaluate source s) (evaluate source t) := by
  unfold evaluate
  cases hp : Expr.parse source with
  | error e => exact Both.error _ _
  | ok e => exact (Expr.eval_agree (h e hp)).map fun a b hab => hab.value

end Stencil
