import Stencil.Expr.Eval
import Stencil.Proofs.Value.Equivalent

/-! # What an evaluation shows of its numbers

In scopes with equivalent values an expression fails alike, or it has equivalent values with the
same text. There are three exceptions: an integer indexes an array or a text but a double does not,
a serialized number shows whether it is one, and a fixed number of places shows the sign of zero.
The numbers that one of the three gets hold of are listed along the evaluation; where all of them
are represented the way computed numbers are, there is no difference. -/

namespace Stencil

variable {a a' b b' : Value} {args args' : List Value}

/-! ## Lookups -/

def Value.lookupShows : Value → Value → List Num
  | .arr _, .num n => [n]
  | .str _, .num n => [n]
  | _, _ => []

theorem item_equivalent {xs ys : List Value} (h : equivalentAll xs ys = true) (i : Nat) :
    Option.Rel (fun p q => p.1 = q.1 ∧ p.2.equivalent q.2 = true)
      (xs[i]?.map fun v => (toString i, v)) (ys[i]?.map fun v => (toString i, v)) :=
  rel_map (forall₂_getElem? (equivalentAll_iff.1 h) i) fun _ _ hvw => ⟨rfl, hvw⟩

theorem child?_equivalent (ha : a.equivalent a' = true) (hb : b.equivalent b' = true)
    (hs : ∀ n ∈ a.lookupShows b, n.IsCanonical) (ht : ∀ n ∈ a'.lookupShows b', n.IsCanonical) :
    Option.Rel (fun p q => p.1 = q.1 ∧ p.2.equivalent q.2 = true) (a.child? b) (a'.child? b') := by
  cases Value.equivalent_iff.1 ha with
  | obj h =>
    rw [Value.child?, Value.child?, display_equivalent hb]
    exact rel_map (get?_equivalent h _) fun _ _ hvw => ⟨rfl, hvw⟩
  | arr h =>
    cases Value.equivalent_iff.1 hb with
    | num hn =>
      obtain rfl := (hs _ (List.mem_singleton_self _)).eq (ht _ (List.mem_singleton_self _)) hn
      rw [Value.child?, Value.child?]
      rename_i n
      cases n.index? with
      | none => exact .none
      | some i => exact item_equivalent h i
    | str s =>
      rw [Value.child?, Value.child?]
      cases readIndex? s.toList with
      | none => exact .none
      | some i => exact item_equivalent h i
    | _ => exact .none
  | _ => exact .none

theorem length_equivalent {xs ys : List Value} (h : equivalentAll xs ys = true) :
    xs.length = ys.length :=
  (equivalentAll_iff.1 h).length_eq

theorem computed_equivalent (ha : a.equivalent a' = true) (hb : b.equivalent b' = true)
    (hs : ∀ n ∈ a.lookupShows b, n.IsCanonical) (ht : ∀ n ∈ a'.lookupShows b', n.IsCanonical) :
    (a.computed b).equivalent (a'.computed b') = true := by
  have hnull : Value.null.equivalent .null = true := Value.equivalent_iff.2 .null
  cases Value.equivalent_iff.1 ha with
  | arr h =>
    cases Value.equivalent_iff.1 hb with
    | str k =>
      rw [Value.computed, Value.computed, length_equivalent h]
      split
      · exact equivalent_int _
      · exact hnull
    | _ => exact hnull
  | str s =>
    cases Value.equivalent_iff.1 hb with
    | str k =>
      rw [Value.computed]
      split
      · exact equivalent_int _
      · exact hnull
    | num hn =>
      obtain rfl := (hs _ (List.mem_singleton_self _)).eq (ht _ (List.mem_singleton_self _)) hn
      rw [Value.computed]
      split
      · exact equivalent_str rfl
      · exact hnull
    | _ => exact hnull
  | _ => exact hnull

/-! ## Methods and functions -/

theorem arg_equivalent (h : equivalentAll args args' = true) (i : Nat) :
    (arg args i).equivalent (arg args' i) = true := by
  unfold arg
  rw [List.getD_eq_getElem?_getD, List.getD_eq_getElem?_getD]
  exact rel_getD (forall₂_getElem? (equivalentAll_iff.1 h) i) (Value.equivalent_iff.2 .null)

theorem clampToNat_coincide {x y : Float} (h : Coincide x y) : clampToNat x = clampToNat y := by
  rcases h with rfl | ⟨hx, hy⟩
  · rfl
  · obtain ⟨neg, hx⟩ := hx.decode_eq
    obtain ⟨neg', hy⟩ := hy.decode_eq
    unfold clampToNat
    rw [hx, hy]
    simp [Binary.floor_zero]

theorem Coincide.eq_of_neg {x y : Float} (h : Coincide x y) (hx : x < 0.0) : x = y := by
  rcases h with h | ⟨⟨s, hs⟩, -⟩
  · exact h
  · rw [float_lt_iff, hs] at hx
    cases hx

theorem sliceBound_equivalent (len default : Nat) (h : a.equivalent a' = true) :
    sliceBound len default a = sliceBound len default a' := by
  have hnum := toNumber_equivalent h
  have hnan : a.toNumber.isNaN = a'.toNumber.isNaN := by
    rcases hnum with hn | ⟨⟨s, hs⟩, t, ht⟩
    · rw [hn]
    · change a.toNumber.toModel.unpack.isNaN = a'.toNumber.toModel.unpack.isNaN
      rw [hs, ht]
      rfl
  unfold sliceBound
  simp only [isNull_equivalent h, hnan]
  split
  · rfl
  · split
    · rfl
    · by_cases hneg : a.toNumber < 0.0
      · rw [hnum.eq_of_neg hneg]
      · have hneg' : ¬ a'.toNumber < 0.0 := fun hc => hneg ((hnum.lt_iff (.refl _)).2 hc)
        rw [if_neg hneg, if_neg hneg', clampToNat_coincide hnum]

theorem sliceBounds_equivalent (len : Nat) (ha : a.equivalent a' = true)
    (hb : b.equivalent b' = true) : sliceBounds len a b = sliceBounds len a' b' := by
  unfold sliceBounds
  rw [sliceBound_equivalent len 0 ha, sliceBound_equivalent len len hb]

theorem equivalentAll_str {α : Type} (f : α → String) (xs : List α) :
    equivalentAll (xs.map fun x => .str (f x)) (xs.map fun x => .str (f x)) = true := by
  rw [equivalentAll_iff, List.forall₂_same]
  intro v hv
  obtain ⟨s, -, rfl⟩ := List.mem_map.1 hv
  exact equivalent_str rfl

theorem self_ite {c : Prop} [Decidable c] {v : Value} {o : Option Value}
    (hv : v.equivalent v = true) (ho : ∀ w ∈ o, w.equivalent w = true) :
    ∀ w ∈ if c then some v else o, w.equivalent w = true := by
  split
  · rintro w ⟨⟩
    exact hv
  · exact ho

/-- What a text gives is made of texts, truths and counts, which equal themselves. -/
theorem textMethod_self (s name : String) :
    ∀ v ∈ textMethod s name args, v.equivalent v = true := by
  unfold textMethod
  apply self_ite (equivalent_str rfl)
  apply self_ite (equivalent_str rfl)
  apply self_ite (equivalent_str rfl)
  apply self_ite
  · split
    · exact equivalent_int _
    · exact equivalent_int _
  apply self_ite (equivalent_bool rfl)
  apply self_ite (equivalent_bool rfl)
  apply self_ite
  · split
    · exact Value.equivalent_iff.2 (.arr (equivalentAll_str ..))
    · exact Value.equivalent_iff.2 (.arr (equivalentAll_str ..))
  apply self_ite (equivalent_str rfl)
  exact nofun

theorem textMethod_equivalent (s name : String) (h : equivalentAll args args' = true) :
    textMethod s name args = textMethod s name args' := by
  have hslice : sliceList s.toList (arg args 0) (arg args 1) =
      sliceList s.toList (arg args' 0) (arg args' 1) := by
    unfold sliceList
    rw [sliceBounds_equivalent _ (arg_equivalent h 0) (arg_equivalent h 1)]
  unfold textMethod
  rw [display_equivalent (arg_equivalent h 0), hslice]

theorem arrayMethod_equivalent {xs ys : List Value} (name : String)
    (hxs : equivalentAll xs ys = true) (h : equivalentAll args args' = true) :
    Option.Rel (fun v w => v.equivalent w = true) (arrayMethod xs name args)
      (arrayMethod ys name args') := by
  have harg := arg_equivalent h 0
  have hall := equivalentAll_iff.1 hxs
  have hhits : xs.map (fun v => v.strictEq false (arg args 0)) =
      ys.map (fun v => v.strictEq false (arg args' 0)) := by
    clear hxs
    induction hall with
    | nil => rfl
    | cons hvw _ ih => rw [List.map_cons, List.map_cons, strictEq_equivalent hvw harg, ih]
  have hfind : xs.findIdx? (fun v => v.strictEq false (arg args 0)) =
      ys.findIdx? (fun v => v.strictEq false (arg args' 0)) := by
    have := congrArg (List.findIdx? id) hhits
    rwa [List.findIdx?_map, List.findIdx?_map] at this
  have hany : xs.any (fun v => v.strictEq false (arg args 0)) =
      ys.any (fun v => v.strictEq false (arg args' 0)) := by
    have := congrArg (List.any · id) hhits
    rwa [List.any_map, List.any_map] at this
  have hslice : equivalentAll (sliceList xs (arg args 0) (arg args 1))
      (sliceList ys (arg args' 0) (arg args' 1)) = true := by
    unfold sliceList
    rw [length_equivalent hxs, sliceBounds_equivalent _ harg (arg_equivalent h 1)]
    exact equivalentAll_iff.2 (List.forall₂_drop _ (List.forall₂_take _ hall))
  unfold arrayMethod
  simp only [isNull_equivalent harg, display_equivalent harg, displays_equivalent hxs, hfind, hany]
  split
  · exact .some (equivalent_str rfl)
  split
  · split
    · exact .some (equivalent_int _)
    · exact .some (equivalent_int _)
  split
  · exact .some (equivalent_bool rfl)
  split
  · exact .some (Value.equivalent_iff.2 (.arr hslice))
  · exact .none

/-- The numbers whose representation a method shows: a zero that is written with its sign. -/
def Value.methodShows : Value → String → List Num
  | .num n, name => if name == "toFixed" && n.toFloat == 0.0 then [n] else []
  | _, _ => []

theorem IsZero.beq_zero {x : Float} (h : IsZero x) : (x == 0.0) = true := by
  obtain ⟨s, hs⟩ := h
  rw [float_beq_iff, hs]
  rfl

theorem numberMethod_equivalent {m n : Num} (name : String) (hmn : (m.toFloat == n.toFloat) = true)
    (h : equivalentAll args args' = true)
    (hs : ∀ k ∈ (Value.num m).methodShows name, k.IsCanonical)
    (ht : ∀ k ∈ (Value.num n).methodShows name, k.IsCanonical) :
    Option.Rel (fun v w => v.equivalent w = true) (numberMethod m name args)
      (numberMethod n name args') := by
  unfold numberMethod
  by_cases hname : (name == "toFixed") = true
  · rw [if_pos hname, if_pos hname]
    apply Option.Rel.some
    apply equivalent_str
    rw [clampToNat_coincide (toNumber_equivalent (arg_equivalent h 0))]
    rcases coincide_of_beq hmn with hx | ⟨hx, hy⟩
    · rw [hx]
    · simp only [Value.methodShows, hname, hx.beq_zero, hy.beq_zero, Bool.and_self, if_true,
        List.forall_mem_singleton] at hs ht
      rw [hs.eq ht hmn]
  · rw [if_neg hname, if_neg hname]
    exact .none

theorem orToString_equivalent {x y : Option Value} (name : String) (ha : a.equivalent a' = true) :
    Option.Rel (fun v w => v.equivalent w = true) x y →
    Parallel (fun v w => v.equivalent w = true)
      (match x with
      | some v => .ok v
      | none => if name == "toString" then .ok (.str a.display)
        else .error (EvalError.noMethod name a.typeName))
      (match y with
      | some v => .ok v
      | none => if name == "toString" then .ok (.str a'.display)
        else .error (EvalError.noMethod name a'.typeName)) := by
  intro h
  cases h with
  | some hvw => exact .ok hvw
  | none =>
    rw [display_equivalent ha, typeName_equivalent ha]
    dsimp only
    split
    · exact .ok (equivalent_str rfl)
    · exact .error _

theorem callMethod_equivalent (name : String) (ha : a.equivalent a' = true)
    (h : equivalentAll args args' = true) (hs : ∀ n ∈ a.methodShows name, n.IsCanonical)
    (ht : ∀ n ∈ a'.methodShows name, n.IsCanonical) :
    Parallel (fun v w => v.equivalent w = true) (callMethod a name args)
      (callMethod a' name args') := by
  unfold callMethod
  apply orToString_equivalent name ha
  cases Value.equivalent_iff.1 ha with
  | str s =>
    dsimp only
    rw [textMethod_equivalent s name h]
    cases hv : textMethod s name args' with
    | none => exact .none
    | some v => exact .some (textMethod_self _ _ _ hv)
  | arr hxs => exact arrayMethod_equivalent name hxs h
  | num hmn => exact numberMethod_equivalent name hmn h hs ht
  | _ => exact .none

theorem callGlobal_equivalent (name : String) (h : equivalentAll args args' = true) :
    Parallel (fun v w => v.equivalent w = true) (callGlobal name args) (callGlobal name args') := by
  have harg := arg_equivalent h 0
  unfold callGlobal
  split
  · exact .ok (equivalent_str (display_equivalent harg))
  split
  · exact .ok (equivalent_ofFloat (toNumber_equivalent harg).ofFloat)
  split
  · exact .ok (equivalent_bool (truthy_equivalent harg))
  · exact .error _

def jsonShows (name : String) (args : List Value) : List Num :=
  if name == "stringify" then (arg args 0).numbers else []

theorem callJson_equivalent (name : String) (h : equivalentAll args args' = true)
    (hs : ∀ n ∈ jsonShows name args, n.IsCanonical)
    (ht : ∀ n ∈ jsonShows name args', n.IsCanonical) :
    Parallel (fun v w => v.equivalent w = true) (callJson name args) (callJson name args') := by
  unfold jsonShows at hs ht
  unfold callJson
  split
  · next hname =>
    rw [if_pos hname] at hs ht
    rw [eq_of_canonical (arg_equivalent h 0) hs ht]
    exact .ok (equivalent_str rfl)
  · exact .error _

/-! ## Operators -/

theorem unary_equivalent (op : UnaryOp) (h : a.equivalent a' = true) :
    (op.apply a).equivalent (op.apply a') = true := by
  cases op with
  | plus => exact equivalent_ofFloat (toNumber_equivalent h).ofFloat
  | minus => exact equivalent_ofFloat (toNumber_equivalent h).neg.ofFloat
  | not => exact equivalent_bool (congrArg not (truthy_equivalent h))
  | typeof => exact equivalent_str (typeName_equivalent h)

structure Operand.Equivalent (x y : Operand) : Prop where
  value : x.value.equivalent y.value = true
  place : x.place = y.place

variable {x x' y y' : Operand}

theorem Operand.Equivalent.made (h : a.equivalent a' = true) :
    (Operand.made a).Equivalent (.made a') :=
  ⟨h, rfl⟩

theorem Operand.Equivalent.same (hx : x.Equivalent x') (hy : y.Equivalent y') :
    x.same y = x'.same y' := by
  rw [Operand.same, Operand.same, hx.place, hy.place]

theorem binary_equivalent (op : BinaryOp) (hx : x.Equivalent x') (hy : y.Equivalent y') :
    (op.apply x y).equivalent (op.apply x' y') = true := by
  have hxn := toNumber_equivalent hx.value
  have hyn := toNumber_equivalent hy.value
  have hloose := looseEq_equivalent hx.value hy.value (x.same y)
  have hstrict := strictEq_equivalent hx.value hy.value (x.same y)
  have hcompare := compare_equivalent hx.value hy.value
  unfold BinaryOp.apply
  dsimp only
  rw [← hx.same hy, hloose, hstrict, hcompare]
  cases op with
  | add => exact add_equivalent hx.value hy.value
  | sub => exact equivalent_ofFloat (ofFloat_sum (.inr rfl) hxn hyn)
  | mul => exact equivalent_ofFloat (ofFloat_mul hxn hyn)
  | div => exact equivalent_ofFloat (ofFloat_div hxn hyn)
  | mod => exact equivalent_ofFloat (hxn.remainder hyn).ofFloat
  | and => exact hy.value
  | or => exact hy.value
  | nullish => exact hy.value
  | _ => exact equivalent_bool rfl

theorem shortCuts_equivalent (op : BinaryOp) (h : a.equivalent a' = true) :
    op.shortCuts a = op.shortCuts a' := by
  unfold BinaryOp.shortCuts
  rw [truthy_equivalent h, isNull_equivalent h]

theorem member_equivalent (hx : x.Equivalent x') (hb : b.equivalent b' = true)
    (hs : ∀ n ∈ x.value.lookupShows b, n.IsCanonical)
    (ht : ∀ n ∈ x'.value.lookupShows b', n.IsCanonical) :
    Parallel Operand.Equivalent (x.member b) (x'.member b') := by
  unfold Operand.member
  rw [isNull_equivalent hx.value, display_equivalent hb]
  split
  · exact .error _
  · apply Parallel.ok
    have hchild := child?_equivalent hx.value hb hs ht
    unfold Operand.property
    generalize x.value.child? b = p at hchild
    generalize x'.value.child? b' = q at hchild
    cases hchild with
    | none => exact .made (computed_equivalent hx.value hb hs ht)
    | some hpq =>
      rename_i p q
      obtain ⟨step, v⟩ := p
      obtain ⟨step', w⟩ := q
      obtain ⟨rfl, hvw⟩ : step = step' ∧ v.equivalent w = true := hpq
      exact ⟨hvw, congrArg (Option.map (·.child step)) hx.place⟩

/-! ## Evaluation -/

def shownAfter {α : Type} (x : Except EvalError α) (f : α → List Num) : List Num :=
  match x with
  | .ok a => f a
  | .error _ => []

def Expr.callShows (scope : Scope) (e : Expr) (target : Value) (name : String)
    (args : List Value) : List Num :=
  match e with
  | .ref _ n =>
    if (scope n.name).isNone && n.name == "JSON" then jsonShows name args
    else target.methodShows name
  | _ => target.methodShows name

mutual
/-- The numbers whose representation an evaluation shows, in the order of evaluation. -/
def Expr.shown (scope : Scope) : Expr → List Num
  | .lit _ _ => []
  | .ref _ _ => []
  | .array _ xs => shownAll scope xs
  | .object _ ps => shownFields scope ps
  | .member _ e _ => e.shown scope
  | .index _ e k => k.shown scope ++ shownAfter (k.eval scope) fun key =>
    e.shown scope ++ shownAfter (e.eval scope) fun o => o.value.lookupShows key.value
  | .call _ (.member _ e m) xs => shownAll scope xs ++ shownAfter (Expr.evalAll scope xs)
      fun args =>
    e.shown scope ++ shownAfter (e.eval scope) fun o => e.callShows scope o.value m.name args
  | .call _ _ xs => shownAll scope xs
  | .unary _ _ e => e.shown scope
  | .binary _ op l r => l.shown scope ++ shownAfter (l.eval scope) fun o =>
    if op.shortCuts o.value then [] else r.shown scope
  | .cond _ t y n => t.shown scope ++ shownAfter (t.eval scope) fun o =>
    if o.value.truthy then y.shown scope else n.shown scope
def shownAll (scope : Scope) : List Expr → List Num
  | [] => []
  | e :: es => e.shown scope ++ shownAfter (e.eval scope) fun _ => shownAll scope es
def shownFields (scope : Scope) : List (Key × Expr) → List Num
  | [] => []
  | (_, e) :: ps => e.shown scope ++ shownAfter (e.eval scope) fun _ => shownFields scope ps
end

def Scope.Equivalent (s t : Scope) : Prop :=
  ∀ n, Option.Rel (fun v w => v.equivalent w = true) (s n) (t n)

theorem Scope.Equivalent.isNone {s t : Scope} (h : s.Equivalent t) (n : String) :
    (s n).isNone = (t n).isNone := by
  have hn := h n
  generalize s n = v at hn ⊢
  generalize t n = w at hn ⊢
  cases hn <;> rfl

theorem Parallel.bind_shown {α β γ δ : Type} {R : α → β → Prop} {S : γ → δ → Prop}
    {x : Except EvalError α} {y : Except EvalError β} {f : α → Except EvalError γ}
    {g : β → Except EvalError δ} {p : α → List Num} {q : β → List Num} (h : Parallel R x y)
    (hs : ∀ n ∈ shownAfter x p, n.IsCanonical) (ht : ∀ n ∈ shownAfter y q, n.IsCanonical)
    (hf : ∀ a b, R a b → (∀ n ∈ p a, n.IsCanonical) → (∀ n ∈ q b, n.IsCanonical) →
      Parallel S (f a) (g b)) : Parallel S (x >>= f) (y >>= g) := by
  cases h with
  | ok related => exact hf _ _ related hs ht
  | error e => exact .error e

theorem made_equivalent {x y : Except EvalError Value}
    (h : Parallel (fun v w => v.equivalent w = true) x y) :
    Parallel Operand.Equivalent (Operand.made <$> x) (Operand.made <$> y) :=
  h.map fun _ _ hvw => .made hvw

namespace Expr

variable {s t : Scope}

theorem callNamed_equivalent (h : s.Equivalent t) (n m : String)
    (hargs : equivalentAll args args' = true)
    (hs : ∀ k ∈ (if (s n).isNone && n == "JSON" then jsonShows m args
      else ((s n).getD .null).methodShows m), k.IsCanonical)
    (ht : ∀ k ∈ (if (t n).isNone && n == "JSON" then jsonShows m args'
      else ((t n).getD .null).methodShows m), k.IsCanonical) :
    Parallel Operand.Equivalent
      (match s n with
      | some v => .made <$> callMethod v m args
      | none =>
        if n == "JSON" then .made <$> callJson m args else .made <$> callMethod .null m args)
      (match t n with
      | some v => .made <$> callMethod v m args'
      | none =>
        if n == "JSON" then .made <$> callJson m args'
        else .made <$> callMethod .null m args') := by
  have hn := h n
  generalize s n = v at hn hs ⊢
  generalize t n = w at hn ht ⊢
  cases hn with
  | some hvw => exact made_equivalent (callMethod_equivalent m hvw hargs hs ht)
  | none =>
    by_cases hj : (n == "JSON") = true
    · simp only [hj, Option.isNone_none, Bool.and_self, if_true] at hs ht ⊢
      exact made_equivalent (callJson_equivalent m hargs hs ht)
    · simp only [hj] at hs ht ⊢
      have hnull : Value.null.equivalent .null = true := Value.equivalent_iff.2 .null
      exact made_equivalent (callMethod_equivalent m hnull hargs nofun nofun)

theorem shownAfter_ref (scope : Scope) (span : Span) (n : Ident) (m : String) (args : List Value) :
    shownAfter (eval scope (.ref span n))
        (fun o => callShows scope (.ref span n) o.value m args) =
      if (scope n.name).isNone && n.name == "JSON" then jsonShows m args
      else ((scope n.name).getD .null).methodShows m := by
  rw [eval]
  simp only [shownAfter, callShows]
  cases scope n.name <;> rfl

mutual
theorem eval_equivalent (h : s.Equivalent t) : {e : Expr} → (∀ n ∈ e.shown s, n.IsCanonical) →
    (∀ n ∈ e.shown t, n.IsCanonical) → Parallel Operand.Equivalent (e.eval s) (e.eval t)
  | .lit _ l, _, _ => by
    simp only [eval]
    apply Parallel.ok
    apply Operand.Equivalent.made
    cases l with
    | null => exact Value.equivalent_iff.2 .null
    | bool b => exact equivalent_bool rfl
    | num x => exact equivalent_ofFloat rfl
    | str s => exact equivalent_str rfl
  | .ref _ n, _, _ => by
    rw [eval, eval]
    apply Parallel.ok
    have hn := h n.name
    generalize s n.name = v at hn
    generalize t n.name = w at hn
    cases hn with
    | none => exact .made (Value.equivalent_iff.2 .null)
    | some hvw => exact ⟨hvw, rfl⟩
  | .array _ xs, hs, ht => by
    rw [shown] at hs ht
    rw [eval, eval]
    exact (evalAll_equivalent h hs ht).bind fun vs ws hvw =>
      .ok (.made (Value.equivalent_iff.2 (.arr hvw)))
  | .object _ ps, hs, ht => by
    rw [shown] at hs ht
    rw [eval, eval]
    exact (evalFields_equivalent h hs ht).bind fun fs gs hfg =>
      .ok (.made (Value.equivalent_iff.2 (.obj (ofList_equivalent hfg))))
  | .member _ e n, hs, ht => by
    rw [shown] at hs ht
    rw [eval, eval]
    refine (eval_equivalent h hs ht).bind fun a b hab => ?_
    -- a name is no number, so it shows none
    have hshows : ∀ v : Value, v.lookupShows (.str n.name) = [] := fun v => by cases v <;> rfl
    apply member_equivalent hab (equivalent_str rfl)
    · rw [hshows]
      nofun
    · rw [hshows]
      nofun
  | .index _ e k, hs, ht => by
    simp only [shown, List.forall_mem_append] at hs ht
    rw [eval, eval]
    refine (eval_equivalent h hs.1 ht.1).bind_shown hs.2 ht.2 fun key key' hkey hs ht => ?_
    simp only [List.forall_mem_append] at hs ht
    refine (eval_equivalent h hs.1 ht.1).bind_shown hs.2 ht.2 fun a b hab hs ht => ?_
    exact member_equivalent hab hkey.value hs ht
  | .call _ e xs, hs, ht => by
    -- The callee is looked at, not evaluated, where it is a name or a method of one.
    cases e with
    | member span o m =>
      simp only [shown, List.forall_mem_append] at hs ht
      have hargs := evalAll_equivalent h hs.1 ht.1
      have ho := eval_equivalent (e := o) h
      cases o with
      | ref span n =>
        rw [eval, eval]
        refine hargs.bind_shown hs.2 ht.2 fun vs ws hvw hs ht => ?_
        rw [shown, List.nil_append, shownAfter_ref] at hs ht
        exact callNamed_equivalent h n.name m.name hvw hs ht
      | _ =>
        rw [eval, eval]
        · refine hargs.bind_shown hs.2 ht.2 fun vs ws hvw hs ht => ?_
          simp only [List.forall_mem_append] at hs ht
          refine (ho hs.1 ht.1).bind_shown hs.2 ht.2 fun a b hab hs ht => ?_
          simp only [callShows] at hs ht
          exact made_equivalent (callMethod_equivalent m.name hab.value hvw hs ht)
        all_goals exact nofun
    | ref span n =>
      simp only [shown] at hs ht
      rw [eval, eval]
      refine (evalAll_equivalent h hs ht).bind fun vs ws hvw => ?_
      rw [h.isNone n.name]
      split
      · exact made_equivalent (callGlobal_equivalent n.name hvw)
      · exact .error _
    | _ =>
      simp only [shown] at hs ht
      rw [eval, eval]
      · exact (evalAll_equivalent h hs ht).bind fun vs ws _ => .error _
      all_goals exact nofun
  | .unary _ op e, hs, ht => by
    rw [shown] at hs ht
    rw [eval, eval]
    exact (eval_equivalent h hs ht).bind fun a b hab => .ok (.made (unary_equivalent op hab.value))
  | .binary _ op l r, hs, ht => by
    simp only [shown, List.forall_mem_append] at hs ht
    rw [eval, eval]
    refine (eval_equivalent h hs.1 ht.1).bind_shown hs.2 ht.2 fun a b hab hs ht => ?_
    rw [shortCuts_equivalent op hab.value] at hs ⊢
    by_cases hc : op.shortCuts b.value = true
    · simp only [hc, if_true]
      exact .ok hab
    · rw [if_neg hc] at hs ht
      simp only [hc]
      refine (eval_equivalent h hs ht).bind fun c d hcd => ?_
      by_cases ho : op.isChoice = true
      · simp only [ho, if_true]
        exact .ok hcd
      · simp only [ho]
        exact .ok (.made (binary_equivalent op hab hcd))
  | .cond _ c y n, hs, ht => by
    simp only [shown, List.forall_mem_append] at hs ht
    rw [eval, eval]
    refine (eval_equivalent h hs.1 ht.1).bind_shown hs.2 ht.2 fun a b hab hs ht => ?_
    rw [truthy_equivalent hab.value] at hs ⊢
    by_cases hb : b.value.truthy = true
    · rw [if_pos hb] at hs ht ⊢
      rw [if_pos hb]
      exact eval_equivalent h hs ht
    · rw [if_neg hb] at hs ht ⊢
      rw [if_neg hb]
      exact eval_equivalent h hs ht
theorem evalAll_equivalent (h : s.Equivalent t) : {es : List Expr} →
    (∀ n ∈ shownAll s es, n.IsCanonical) → (∀ n ∈ shownAll t es, n.IsCanonical) →
    Parallel (fun vs ws => equivalentAll vs ws = true) (evalAll s es) (evalAll t es)
  | [], _, _ => by
    rw [evalAll, evalAll]
    exact .ok (equivalentAll_iff.2 .nil)
  | e :: es, hs, ht => by
    simp only [shownAll, List.forall_mem_append] at hs ht
    rw [evalAll, evalAll]
    refine (eval_equivalent h hs.1 ht.1).bind_shown hs.2 ht.2 fun a b hab hs ht => ?_
    refine (evalAll_equivalent h hs ht).bind fun vs ws hvw => ?_
    exact .ok (equivalentAll_iff.2 (.cons hab.value (equivalentAll_iff.1 hvw)))
theorem evalFields_equivalent (h : s.Equivalent t) : {ps : List (Key × Expr)} →
    (∀ n ∈ shownFields s ps, n.IsCanonical) → (∀ n ∈ shownFields t ps, n.IsCanonical) →
    Parallel (fun fs gs => equivalentFields fs gs = true) (evalFields s ps) (evalFields t ps)
  | [], _, _ => by
    rw [evalFields, evalFields]
    exact .ok (equivalentFields_iff.2 .nil)
  | (k, e) :: ps, hs, ht => by
    simp only [shownFields, List.forall_mem_append] at hs ht
    rw [evalFields, evalFields]
    refine (eval_equivalent h hs.1 ht.1).bind_shown hs.2 ht.2 fun a b hab hs ht => ?_
    refine (evalFields_equivalent h hs ht).bind fun fs gs hfg => ?_
    exact .ok (equivalentFields_iff.2 (.cons ⟨rfl, hab.value⟩ (equivalentFields_iff.1 hfg)))
end

end Expr

def evaluateShows (source : String) (scope : Scope) : List Num :=
  match Expr.parse source with
  | .error _ => []
  | .ok e => e.shown scope

theorem scope_equivalent {v w : Value} (h : v.equivalent w = true) :
    v.scope.Equivalent w.scope := by
  intro n
  cases Value.equivalent_iff.1 h with
  | obj h => exact get?_equivalent h n
  | _ => exact .none

/-- In two scopes with equivalent values an expression fails alike, or it has equivalent values with
the same text, as long as it shows no number that is represented otherwise than a computed one. -/
theorem evaluate_unobserving (source : String) {s t : Scope} (h : s.Equivalent t)
    (hs : ∀ n ∈ evaluateShows source s, n.IsCanonical)
    (ht : ∀ n ∈ evaluateShows source t, n.IsCanonical) :
    Parallel (fun v w => v.equivalent w = true ∧ v.display = w.display) (evaluate source s)
      (evaluate source t) := by
  unfold evaluateShows at hs ht
  unfold evaluate
  cases hp : Expr.parse source with
  | error e => exact .error _
  | ok e =>
    rw [hp] at hs ht
    refine (Expr.eval_equivalent h hs ht).map fun a b hab => ?_
    exact ⟨hab.value, display_equivalent hab.value⟩

/-- Integers beside doubles and zeros of both signs: only the index is shown. -/
theorem evaluate_unobserving_mixed :
    let v : Value := .obj [("xs", .arr [.num (.int 7), .str "b"]), ("i", .num (.int 1)),
      ("n", .num (.float 6.0)), ("z", .num (.float (-0.0)))]
    let w : Value := .obj [("xs", .arr [.num (.float 7.0), .str "b"]), ("i", .num (.int 1)),
      ("n", .num (.int 6)), ("z", .num (.int 0))]
    let source := "[xs[i], xs[0] % n, n / z, -z, xs.indexOf(n + 1), String(n)]"
    v.equivalent w = true ∧ evaluateShows source v.scope = [.int 1, .int 0] ∧
      Parallel (fun v w => v.equivalent w = true ∧ v.display = w.display)
        (evaluate source v.scope) (evaluate source w.scope) := by
  intro v w source
  have hvw : v.equivalent w = true := by decide +kernel
  have hshows : evaluateShows source v.scope = [.int 1, .int 0] ∧
      evaluateShows source w.scope = [.int 1, .int 0] := by decide +kernel
  have hcanonical : ∀ n ∈ [Num.int 1, .int 0], n.IsCanonical := by decide +kernel
  refine ⟨hvw, hshows.1, evaluate_unobserving source (scope_equivalent hvw) ?_ ?_⟩
  · rwa [hshows.1]
  · rwa [hshows.2]

/-- An index, a serialized number and a number with fixed places show how numbers are
represented. -/
theorem representation_observed :
    let v : Value := .obj [("xs", .arr [.str "a", .str "b"]), ("i", .num (.int 1)),
      ("z", .num (.int 0))]
    let w : Value := .obj [("xs", .arr [.str "a", .str "b"]), ("i", .num (.float 1.0)),
      ("z", .num (.float (-0.0)))]
    let texts := fun source =>
      [v, w].map fun data => (evaluate source data.scope).toOption.map Value.display
    v.equivalent w = true ∧ texts "xs[i]" = [some "b", some ""] ∧
      texts "JSON.stringify(i)" = [some "1", some "1.0"] ∧
      texts "z.toFixed(1)" = [some "0.0", some "-0.0"] := by
  decide +kernel

end Stencil
