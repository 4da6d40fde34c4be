import Mathlib.Data.List.Lex
import Mathlib.Order.Defs.LinearOrder
import Stencil.Expr.Free

/-! # Where an expression reads a name

A place in a tree is the path to it, the number of a child on each level. Paths are ordered as they
are met on a walk through the tree that visits the children one after another, which is their
lexicographic order. The references of an expression are the names at all its places, in that
order. -/

namespace Stencil

/-! ## Names at places -/

/-- The names are those at the places that `At` describes, in the order of these. -/
def Enumerates (At : String → List Nat → Prop) (names : List String) : Prop :=
  ∃ os : List (List Nat × String), os.map (·.2) = names ∧ os.Pairwise (fun a b => a.1 < b.1) ∧
    ∀ x p, At x p ↔ (p, x) ∈ os

def Below {α : Type} (At : α → String → List Nat → Prop) (cs : List α) (x : String)
    (q : List Nat) : Prop :=
  ∃ k c p, cs[k]? = some c ∧ At c x p ∧ q = k :: p

/-- What does not depend on the place may be asked for on any level. -/
theorem below_and {α : Type} {At : α → String → List Nat → Prop} {Q : String → Prop} {cs : List α} :
    Below (fun c x p => Q x ∧ At c x p) cs = fun x q => Q x ∧ Below At cs x q := by
  funext x q
  refine propext ⟨?_, ?_⟩
  · rintro ⟨k, c, p, hc, ⟨hx, hp⟩, rfl⟩
    exact ⟨hx, k, c, p, hc, hp, rfl⟩
  · rintro ⟨hx, k, c, p, hc, hp, rfl⟩
    exact ⟨k, c, p, hc, ⟨hx, hp⟩, rfl⟩

namespace Enumerates

variable {At Other : String → List Nat → Prop} {names : List String}

theorem congr (h : Enumerates At names) (hAt : ∀ x p, Other x p ↔ At x p) :
    Enumerates Other names := by
  obtain ⟨os, hos, hsorted, hmem⟩ := h
  exact ⟨os, hos, hsorted, fun x p => (hAt x p).trans (hmem x p)⟩

theorem mem_iff (h : Enumerates At names) {x : String} : x ∈ names ↔ ∃ p, At x p := by
  obtain ⟨os, rfl, -, hmem⟩ := h
  simp [hmem]

theorem filter (h : Enumerates At names) (keep : String → Bool) :
    Enumerates (fun x p => keep x = true ∧ At x p) (names.filter keep) := by
  obtain ⟨os, rfl, hsorted, hmem⟩ := h
  refine ⟨os.filter fun o => keep o.2, ?_, hsorted.filter _, fun x p => ?_⟩
  · rw [List.filter_map]
    rfl
  · rw [List.mem_filter, ← hmem]
    exact and_comm

theorem none : Enumerates (fun _ _ => False) [] :=
  ⟨[], rfl, .nil, fun _ _ => ⟨False.elim, nofun⟩⟩

theorem below_from {α : Type} {At : α → String → List Nat → Prop} {f : α → List String}
    {cs : List α} (h : ∀ c ∈ cs, Enumerates (At c) (f c)) (n : Nat) :
    Enumerates (fun x q => ∃ k c p, cs[k]? = some c ∧ At c x p ∧ q = (n + k) :: p)
      (cs.flatMap f) := by
  induction cs generalizing n with
  | nil =>
    refine none.congr fun x q => iff_of_false ?_ not_false
    rintro ⟨k, c, p, hk, -⟩
    cases hk
  | cons c cs ih =>
    obtain ⟨hc, hcs⟩ := List.forall_mem_cons.1 h
    obtain ⟨os, hos, hsorted, hmem⟩ := hc
    obtain ⟨rest, hrest, hrestSorted, hrestMem⟩ := ih hcs (n + 1)
    refine ⟨os.map (fun o => (n :: o.1, o.2)) ++ rest, ?_, ?_, fun x q => ?_⟩
    · rw [List.map_append, List.map_map, hrest, List.flatMap_cons, ← hos]
      rfl
    · refine List.pairwise_append.2 ⟨?_, hrestSorted, ?_⟩
      · rw [List.pairwise_map]
        exact hsorted.imp fun hlt => List.Lex.cons hlt
      · rintro a ha ⟨q, x⟩ hb
        obtain ⟨o, -, rfl⟩ := List.mem_map.1 ha
        obtain ⟨k, c', p, -, -, rfl⟩ := (hrestMem x q).2 hb
        exact List.Lex.rel (by omega)
    · rw [List.mem_append, ← hrestMem]
      constructor
      · rintro ⟨_ | k, c', p, hk, hp, rfl⟩
        · obtain rfl := Option.some.inj hk
          exact .inl (List.mem_map.2 ⟨(p, x), (hmem x p).1 hp, rfl⟩)
        · exact .inr ⟨k, c', p, hk, hp, by rw [Nat.add_assoc, Nat.add_comm 1]⟩
      · rintro (hx | ⟨k, c', p, hk, hp, rfl⟩)
        · obtain ⟨⟨p, y⟩, ho, heq⟩ := List.mem_map.1 hx
          obtain ⟨rfl, rfl⟩ := Prod.mk.inj heq
          exact ⟨0, c, p, rfl, (hmem _ p).2 ho, rfl⟩
        · exact ⟨k + 1, c', p, hk, hp, by rw [Nat.add_assoc, Nat.add_comm 1]⟩

theorem below {α : Type} {At : α → String → List Nat → Prop} {f : α → List String}
    {cs : List α} (h : ∀ c ∈ cs, Enumerates (At c) (f c)) :
    Enumerates (Below At cs) (cs.flatMap f) :=
  (below_from h 0).congr fun x q => by simp only [Below, Nat.zero_add]

theorem node (own : Option String) (h : Enumerates At names) (hne : ∀ x p, At x p → p ≠ []) :
    Enumerates (fun x p => own = some x ∧ p = [] ∨ At x p) (own.toList ++ names) := by
  obtain ⟨os, rfl, hsorted, hmem⟩ := h
  refine ⟨own.toList.map (fun x => ([], x)) ++ os, ?_, ?_, fun x p => ?_⟩
  · rw [List.map_append, List.map_map]
    exact congrArg (· ++ _) (List.map_id' _)
  · refine List.pairwise_append.2 ⟨?_, hsorted, ?_⟩
    · cases own <;> simp
    · rintro a ha ⟨q, x⟩ hb
      obtain ⟨y, -, rfl⟩ := List.mem_map.1 ha
      cases q with
      | nil => exact absurd rfl (hne x [] ((hmem x []).2 hb))
      | cons k q => exact List.Lex.nil
  · rw [List.mem_append, ← hmem]
    refine or_congr_left ?_
    cases own with
    | none => simp
    | some y => simp [and_comm, eq_comm]

end Enumerates

/-! ## Places in expressions -/

def Expr.children : Expr → List Expr
  | .lit _ _ => []
  | .ref _ _ => []
  | .array _ xs => xs
  | .object _ ps => ps.map (·.2)
  | .member _ e _ => [e]
  | .index _ e k => [e, k]
  | .call _ e xs => e :: xs
  | .unary _ _ e => [e]
  | .binary _ _ l r => [l, r]
  | .cond _ t y n => [t, y, n]

def Expr.name? : Expr → Option String
  | .ref _ n => some n.name
  | _ => none

inductive Expr.ReadsAt (x : String) : Expr → List Nat → Prop
  | here {e : Expr} (name : e.name? = some x) : ReadsAt x e []
  | child {e c : Expr} {k : Nat} {p : List Nat} (child : e.children[k]? = some c)
    (reads : ReadsAt x c p) : ReadsAt x e (k :: p)

theorem Expr.readsAt_iff {x : String} {e : Expr} {q : List Nat} : e.ReadsAt x q ↔
    e.name? = some x ∧ q = [] ∨ Below (fun c x p => c.ReadsAt x p) e.children x q := by
  constructor
  · rintro (h | ⟨hc, hp⟩)
    · exact .inl ⟨h, rfl⟩
    · exact .inr ⟨_, _, _, hc, hp, rfl⟩
  · rintro (⟨h, rfl⟩ | ⟨k, c, p, hc, hp, rfl⟩)
    · exact .here h
    · exact .child hc hp

mutual
/-- What an expression has if all expressions right inside it have it. -/
theorem Expr.children_induction {P : Expr → Prop} (h : ∀ e : Expr, (∀ c ∈ e.children, P c) → P e) :
    (e : Expr) → P e
  | .array _ xs => h _ (forall_items h xs)
  | .object _ ps => h _ (forall_values h ps)
  | .member _ e _ => h _ (List.forall_mem_singleton.2 (children_induction h e))
  | .index _ e k => h _ (List.forall_mem_cons.2
      ⟨children_induction h e, List.forall_mem_singleton.2 (children_induction h k)⟩)
  | .call _ e xs => h _ (List.forall_mem_cons.2 ⟨children_induction h e, forall_items h xs⟩)
  | .unary _ _ e => h _ (List.forall_mem_singleton.2 (children_induction h e))
  | .binary _ _ l r => h _ (List.forall_mem_cons.2
      ⟨children_induction h l, List.forall_mem_singleton.2 (children_induction h r)⟩)
  | .cond _ t y n => h _ (List.forall_mem_cons.2 ⟨children_induction h t, List.forall_mem_cons.2
      ⟨children_induction h y, List.forall_mem_singleton.2 (children_induction h n)⟩⟩)
  | .lit _ _ => h _ nofun
  | .ref _ _ => h _ nofun
theorem Expr.forall_items {P : Expr → Prop} (h : ∀ e : Expr, (∀ c ∈ e.children, P c) → P e) :
    (xs : List Expr) → ∀ c ∈ xs, P c
  | [] => nofun
  | x :: xs => List.forall_mem_cons.2 ⟨children_induction h x, forall_items h xs⟩
theorem Expr.forall_values {P : Expr → Prop} (h : ∀ e : Expr, (∀ c ∈ e.children, P c) → P e) :
    (ps : List (Key × Expr)) → ∀ c ∈ ps.map (·.2), P c
  | [] => nofun
  | (_, e) :: ps => List.forall_mem_cons.2 ⟨children_induction h e, forall_values h ps⟩
end

theorem referencesAll_eq (xs : List Expr) : referencesAll xs = xs.flatMap Expr.references := by
  induction xs with
  | nil => rfl
  | cons x xs ih => rw [referencesAll, ih, List.flatMap_cons]

theorem referencesFields_eq (ps : List (Key × Expr)) :
    referencesFields ps = (ps.map (·.2)).flatMap Expr.references := by
  induction ps with
  | nil => rfl
  | cons p ps ih => rw [referencesFields, ih, List.map_cons, List.flatMap_cons]

theorem Expr.references_eq (e : Expr) :
    e.references = e.name?.toList ++ e.children.flatMap Expr.references := by
  cases e <;> simp [references, name?, children, referencesAll_eq, referencesFields_eq]

/-- The references of an expression are the names at all its places, from left to right. -/
theorem Expr.enumerates_references (e : Expr) :
    Enumerates (fun x p => e.ReadsAt x p) e.references := by
  refine Expr.children_induction (P := fun e => Enumerates (fun x p => e.ReadsAt x p) e.references)
    (fun e ih => ?_) e
  rw [references_eq]
  refine (Enumerates.node e.name? (Enumerates.below ih) ?_).congr fun x p => readsAt_iff
  rintro x _ ⟨k, c, p, -, -, rfl⟩
  exact List.cons_ne_nil k p

end Stencil
