import Mathlib.Data.Option.Basic
import Mathlib.Data.List.Basic
import Stencil.Proofs.Value.TextKey
import Stencil.Value.Coerce

/-! # Enumeration order

Objects are enumerated as scripts do it: array indices first, from the least to the greatest, then
all other names as they were given. Putting a value in this order, however deep its objects are
nested, moves fields only, and whoever enumerates it sees no difference. -/

namespace Stencil

/-! ## Parts of an enumeration -/

def withIndex? (f : String × Value) : Option (Nat × String × Value) :=
  (arrayIndex? f.1).map fun i => (i, f)

def indexLe (a b : Nat × String × Value) : Bool :=
  a.1 ≤ b.1

theorem indexLe_trans (a b c : Nat × String × Value) (hab : indexLe a b = true)
    (hbc : indexLe b c = true) : indexLe a c = true := by
  simp only [indexLe, decide_eq_true_eq] at *
  omega

theorem indexLe_total (a b : Nat × String × Value) : (indexLe a b || indexLe b a) = true := by
  simp only [indexLe, Bool.or_eq_true, decide_eq_true_eq]
  omega

theorem indexed_eq (fs : Fields) : indexed fs = fs.filterMap withIndex? := by
  induction fs with
  | nil => rfl
  | cons f fs ih =>
    rw [indexed, List.filterMap_cons, withIndex?]
    cases arrayIndex? f.1 <;> simp [ih]

theorem mem_indexed {fs : Fields} {i : Nat} {f : String × Value} :
    (i, f) ∈ indexed fs ↔ f ∈ fs ∧ arrayIndex? f.1 = some i := by
  simp only [indexed_eq, List.mem_filterMap, withIndex?, Option.map_eq_some_iff, Prod.mk.injEq]
  constructor
  · rintro ⟨f, hf, i, hi, rfl, rfl⟩
    exact ⟨hf, hi⟩
  · rintro ⟨hf, hi⟩
    exact ⟨f, hf, i, hi, rfl, rfl⟩

theorem map_indexed (fs : Fields) :
    (indexed fs).map (·.2) = fs.filter fun f => (arrayIndex? f.1).isSome := by
  induction fs with
  | nil => rfl
  | cons f fs ih =>
    rw [indexed, List.filter_cons]
    cases arrayIndex? f.1 <;> simp [ih]

def sortedIndexed (fs : Fields) : List (Nat × String × Value) :=
  (indexed fs).mergeSort indexLe

theorem ordered_eq (fs : Fields) : Fields.ordered fs = (sortedIndexed fs).map (·.2) ++ named fs :=
  rfl

theorem mem_sortedIndexed {fs : Fields} {i : Nat} {f : String × Value} :
    (i, f) ∈ sortedIndexed fs ↔ f ∈ fs ∧ arrayIndex? f.1 = some i := by
  rw [sortedIndexed, List.mem_mergeSort, mem_indexed]

theorem pairwise_sortedIndexed (fs : Fields) :
    (sortedIndexed fs).Pairwise fun a b => indexLe a b = true :=
  List.pairwise_mergeSort indexLe_trans indexLe_total _

theorem ordered_perm (fs : Fields) : (Fields.ordered fs).Perm fs := by
  have hfront :
    ((sortedIndexed fs).map (·.2)).Perm (fs.filter fun f => (arrayIndex? f.1).isSome) := by
    rw [← map_indexed]
    exact (List.mergeSort_perm _ _).map _
  have hback : named fs = fs.filter fun f => !(arrayIndex? f.1).isSome := by
    simp [named]
  rw [ordered_eq, hback]
  exact (hfront.append_right _).trans (List.filter_append_perm _ fs)

/-! ## The order of scripts -/

/-- The fields `gs` are the fields `fs` as a script enumerates them. -/
structure Fields.Enumerate (fs gs : Fields) : Prop where
  perm : gs.Perm fs
  parts : ∃ (indices : List Nat) (front back : Fields), gs = front ++ back ∧
    front.map Prod.fst = indices.map toString ∧ indices.Pairwise (· < ·) ∧
    (∀ i ∈ indices, i < 2 ^ 32 - 1) ∧
    back.Sublist fs ∧ ∀ f ∈ back, ∀ i < 2 ^ 32 - 1, f.1 ≠ toString i

theorem strict_sortedIndexed {fs : Fields} (h : (fs.map Prod.fst).Nodup) :
    ((sortedIndexed fs).map Prod.fst).Pairwise (· < ·) := by
  have hnames : ((sortedIndexed fs).map fun p => p.2.1).Nodup := by
    have hnodup := ((ordered_perm fs).map Prod.fst).nodup_iff.2 h
    rw [ordered_eq, List.map_append, List.map_map] at hnodup
    exact hnodup.of_append_left
  have hindex : ∀ p ∈ sortedIndexed fs, p.2.1 = toString p.1 := fun p hp =>
    (arrayIndex?_eq_some.1 (mem_sortedIndexed.1 hp).2).1
  rw [List.pairwise_map]
  -- of two equal indices the names would be equal, too
  refine ((pairwise_sortedIndexed fs).and (List.pairwise_map.1 hnames)).imp_of_mem ?_
  intro a b ha hb hab
  have hle : a.1 ≤ b.1 := by simpa [indexLe] using hab.1
  have hne : a.1 ≠ b.1 := by
    intro he
    apply hab.2
    rw [hindex a ha, hindex b hb, he]
  omega

/-- Where each name is given once, objects are enumerated in the order of scripts. -/
theorem enumerate_ordered {fs : Fields} (h : (fs.map Prod.fst).Nodup) :
    Fields.Enumerate fs (Fields.ordered fs) where
  perm := ordered_perm fs
  parts := by
    have hindex : ∀ p ∈ sortedIndexed fs, p.2.1 = toString p.1 ∧ p.1 < 2 ^ 32 - 1 := fun p hp =>
      arrayIndex?_eq_some.1 (mem_sortedIndexed.1 hp).2
    refine ⟨(sortedIndexed fs).map Prod.fst, _, _, ordered_eq fs, ?_, strict_sortedIndexed h, ?_,
      List.filter_sublist, ?_⟩
    · rw [List.map_map, List.map_map]
      exact List.map_congr_left fun p hp => (hindex p hp).1
    · intro i hi
      obtain ⟨p, hp, rfl⟩ := List.mem_map.1 hi
      exact (hindex p hp).2
    · intro f hf i hi he
      have hsome := arrayIndex?_eq_some.2 ⟨he, hi⟩
      simp [named, hsome] at hf

/-! ## Ordering twice -/

theorem ordered_ordered (fs : Fields) : Fields.ordered (Fields.ordered fs) = Fields.ordered fs := by
  have hfront : ∀ p ∈ sortedIndexed fs, arrayIndex? p.2.1 = some p.1 := fun p hp =>
    (mem_sortedIndexed.1 hp).2
  have hback : ∀ f ∈ named fs, arrayIndex? f.1 = none := by
    simp [named]
  have hnamed : named (Fields.ordered fs) = named fs := by
    have hnone : named ((sortedIndexed fs).map (·.2)) = [] := by
      simp only [named, List.filter_eq_nil_iff, List.mem_map]
      rintro f ⟨p, hp, rfl⟩
      simp [hfront p hp]
    have hself : named (named fs) = named fs := by
      simp [named]
    rw [ordered_eq]
    unfold named at *
    rw [List.filter_append, hnone, List.nil_append, hself]
  have hindexed : indexed (Fields.ordered fs) = sortedIndexed fs := by
    have hnone : (named fs).filterMap withIndex? = [] := by
      rw [List.filterMap_eq_nil_iff]
      intro f hf
      simp [withIndex?, hback f hf]
    rw [indexed_eq, ordered_eq, List.filterMap_append, hnone, List.append_nil, List.filterMap_map]
    calc
      (sortedIndexed fs).filterMap (withIndex? ∘ Prod.snd)
        = (sortedIndexed fs).filterMap some := List.filterMap_congr fun p hp => by
            simp [withIndex?, hfront p hp]
      _ = sortedIndexed fs := List.filterMap_some
  rw [ordered_eq (Fields.ordered fs), hnamed, sortedIndexed, hindexed,
    List.mergeSort_of_pairwise (pairwise_sortedIndexed fs), ← ordered_eq]

/-! ## Changing values in their places -/

def Fields.mapValues (g : Value → Value) (fs : Fields) : Fields :=
  fs.map fun f => (f.1, g f.2)

theorem names_mapValues (g : Value → Value) (fs : Fields) :
    (fs.mapValues g).map Prod.fst = fs.map Prod.fst := by
  simp [Fields.mapValues]

theorem indexed_mapValues (g : Value → Value) (fs : Fields) :
    indexed (fs.mapValues g) = (indexed fs).map fun p => (p.1, p.2.1, g p.2.2) := by
  simp only [indexed_eq, Fields.mapValues, List.filterMap_map, List.map_filterMap]
  apply List.filterMap_congr
  intro f hf
  simp [withIndex?, Function.comp_def]

theorem named_mapValues (g : Value → Value) (fs : Fields) :
    named (fs.mapValues g) = (named fs).mapValues g := by
  simp [named, Fields.mapValues, List.filter_map, Function.comp_def]

/-- The order depends on names only. -/
theorem ordered_mapValues (g : Value → Value) (fs : Fields) :
    Fields.ordered (fs.mapValues g) = (Fields.ordered fs).mapValues g := by
  have hsorted : sortedIndexed (fs.mapValues g) =
      (sortedIndexed fs).map fun p => (p.1, p.2.1, g p.2.2) := by
    rw [sortedIndexed, indexed_mapValues]
    symm
    apply List.map_mergeSort
    intro a ha b hb
    rfl
  rw [ordered_eq, ordered_eq, hsorted, named_mapValues]
  simp [Fields.mapValues]

/-! ## Looking up -/

/-- Fields of one name have one index, so sorting does not move them past each other. -/
theorem filter_sortedIndexed {k : String} {i : Nat} (hk : arrayIndex? k = some i) (fs : Fields) :
    (sortedIndexed fs).filter (fun p => p.2.1 == k) = (indexed fs).filter fun p => p.2.1 == k := by
  have hindex : ∀ p ∈ (indexed fs).filter (fun p => p.2.1 == k), p.1 = i := by
    intro p hp
    obtain ⟨hmem, he⟩ := List.mem_filter.1 hp
    have hsome := (mem_indexed.1 hmem).2
    rw [beq_iff_eq.1 he, hk] at hsome
    exact (Option.some.inj hsome).symm
  have hrun : ((indexed fs).filter fun p => p.2.1 == k).Pairwise fun a b => indexLe a b = true := by
    apply List.pairwise_of_forall_mem_list
    intro a ha b hb
    simp [indexLe, hindex a ha, hindex b hb]
  have hsub := (List.sublist_mergeSort indexLe_trans indexLe_total hrun List.filter_sublist).filter
    fun p => p.2.1 == k
  simp only [List.filter_filter, Bool.and_self] at hsub
  symm
  -- as many on both sides, and sorting is stable
  apply hsub.eq_of_length
  exact ((List.mergeSort_perm _ _).filter _).length_eq.symm

theorem filter_ordered (k : String) (fs : Fields) :
    (Fields.ordered fs).filter (·.1 == k) = fs.filter (·.1 == k) := by
  rw [ordered_eq, List.filter_append, List.filter_map]
  cases hk : arrayIndex? k with
  | none =>
    have hfront : (sortedIndexed fs).filter ((·.1 == k) ∘ (·.2)) = [] := by
      rw [List.filter_eq_nil_iff]
      intro p hp he
      have hsome := (mem_sortedIndexed.1 hp).2
      simp [beq_iff_eq.1 he, hk] at hsome
    rw [hfront, List.map_nil, List.nil_append, named, List.filter_filter]
    apply List.filter_congr
    intro f hf
    by_cases he : f.1 = k
    · simp [he, hk]
    · simp [he]
  | some i =>
    have hback : (named fs).filter (·.1 == k) = [] := by
      simp only [named, List.filter_eq_nil_iff, List.mem_filter]
      rintro f ⟨hf, hnone⟩ he
      simp [beq_iff_eq.1 he, hk] at hnone
    have hfront : (sortedIndexed fs).filter ((·.1 == k) ∘ (·.2)) =
        (indexed fs).filter ((·.1 == k) ∘ (·.2)) := filter_sortedIndexed hk fs
    rw [hback, List.append_nil, hfront, ← List.filter_map, map_indexed, List.filter_filter]
    apply List.filter_congr
    intro f hf
    by_cases he : f.1 = k
    · simp [he, hk]
    · simp [he]

theorem get?_eq_filter (k : String) (fs : Fields) :
    Fields.get? k fs = ((fs.filter (·.1 == k)).head?).map (·.2) := by
  induction fs with
  | nil => rfl
  | cons f fs ih =>
    rw [Fields.get?, List.filter_cons]
    by_cases hk : (f.1 == k) = true
    · simp [hk]
    · simp [hk, ih]

theorem get?_ordered (k : String) (fs : Fields) :
    Fields.get? k (Fields.ordered fs) = Fields.get? k fs := by
  simp [get?_eq_filter, filter_ordered]

theorem get?_mapValues (g : Value → Value) (k : String) (fs : Fields) :
    Fields.get? k (fs.mapValues g) = (Fields.get? k fs).map g := by
  induction fs with
  | nil => rfl
  | cons f fs ih =>
    change (if f.1 == k then some (g f.2) else Fields.get? k (Fields.mapValues g fs)) = _
    rw [ih, Fields.get?]
    by_cases hk : (f.1 == k) = true
    · simp [hk]
    · simp [hk]

/-! ## Values in order -/

def Value.IsLeaf : Value → Prop
  | .arr _ => False
  | .obj _ => False
  | _ => True

/-- Induction over values, with all items of an array and all fields of an object at once. -/
theorem Value.nested {P : Value → Prop} (leaf : ∀ v : Value, v.IsLeaf → P v)
    (arr : ∀ items : List Value, (∀ v ∈ items, P v) → P (.arr items))
    (obj : ∀ fields : Fields, (∀ f ∈ fields, P f.2) → P (.obj fields)) (v : Value) : P v :=
  @Value.rec P (fun items => ∀ v ∈ items, P v) (fun fields => ∀ f ∈ fields, P f.2)
    (fun f => P f.2) (leaf .null trivial) (fun b => leaf (.bool b) trivial)
    (fun n => leaf (.num n) trivial) (fun s => leaf (.str s) trivial) arr obj
    (List.forall_mem_nil _)
    (fun _ _ hv hvs => List.forall_mem_cons.2 ⟨hv, hvs⟩) (List.forall_mem_nil _)
    (fun _ _ hf hfs => List.forall_mem_cons.2 ⟨hf, hfs⟩) (fun _ _ hv => hv) v

theorem inKeyOrder_leaf {v : Value} (h : v.IsLeaf) : v.inKeyOrder = v := by
  cases v with
  | arr items => exact h.elim
  | obj fs => exact h.elim
  | _ => simp [Value.inKeyOrder]

theorem inKeyOrders_eq (items : List Value) : inKeyOrders items = items.map Value.inKeyOrder := by
  induction items with
  | nil => simp [inKeyOrders]
  | cons v vs ih => simp [inKeyOrders, ih]

theorem inKeyOrderFields_eq (fs : Fields) :
    inKeyOrderFields fs = fs.mapValues Value.inKeyOrder := by
  induction fs with
  | nil => simp [inKeyOrderFields, Fields.mapValues]
  | cons f fs ih =>
    obtain ⟨k, v⟩ := f
    simp [inKeyOrderFields, ih, Fields.mapValues]

theorem inKeyOrder_arr (items : List Value) :
    (Value.arr items).inKeyOrder = .arr (items.map Value.inKeyOrder) := by
  rw [Value.inKeyOrder, inKeyOrders_eq]

theorem inKeyOrder_obj (fs : Fields) :
    (Value.obj fs).inKeyOrder = .obj ((Fields.ordered fs).mapValues Value.inKeyOrder) := by
  rw [Value.inKeyOrder, inKeyOrderFields_eq, ordered_mapValues]

theorem inKeyOrder_inKeyOrder (v : Value) : v.inKeyOrder.inKeyOrder = v.inKeyOrder := by
  induction v using Value.nested with
  | leaf v h => rw [inKeyOrder_leaf h, inKeyOrder_leaf h]
  | arr items ih => simpa [inKeyOrder_arr] using ih
  | obj fs ih =>
    have hvalues : ((Fields.ordered fs).mapValues Value.inKeyOrder).mapValues Value.inKeyOrder =
        (Fields.ordered fs).mapValues Value.inKeyOrder := by
      simp only [Fields.mapValues, List.map_map]
      apply List.map_congr_left
      intro f hf
      simp [ih f ((ordered_perm fs).mem_iff.1 hf)]
    rw [inKeyOrder_obj, inKeyOrder_obj, ordered_mapValues, ordered_ordered, hvalues]

/-! ## What enumerates values -/

theorem truthy_inKeyOrder (v : Value) : v.inKeyOrder.truthy = v.truthy := by
  cases v <;> simp [Value.inKeyOrder, Value.truthy]

theorem displays_eq (items : List Value) : displays items = items.map Value.display := by
  induction items with
  | nil => simp [displays]
  | cons v vs ih => simp [displays, ih]

theorem display_inKeyOrder (v : Value) : v.inKeyOrder.display = v.display := by
  induction v using Value.nested with
  | leaf v h => rw [inKeyOrder_leaf h]
  | arr items ih =>
    have hitems : (items.map Value.inKeyOrder).map Value.display = items.map Value.display := by
      simpa using ih
    rw [inKeyOrder_arr, Value.display, Value.display, displays_eq, displays_eq, hitems]
  | obj fs ih => simp [inKeyOrder_obj, Value.display]

theorem classesOf_eq (items : List Value) : classesOf items = items.flatMap Value.classes := by
  induction items with
  | nil => simp [classesOf]
  | cons v vs ih => simp [classesOf, ih]

theorem classes_inKeyOrder (v : Value) : v.inKeyOrder.classes = v.classes := by
  induction v using Value.nested with
  | leaf v h => rw [inKeyOrder_leaf h]
  | arr items ih =>
    rw [inKeyOrder_arr, Value.classes, Value.classes, classesOf_eq, classesOf_eq, List.flatMap_map]
    exact List.flatMap_congr ih
  | obj fs ih =>
    rw [inKeyOrder_obj, Value.classes, Value.classes, ordered_mapValues, ordered_ordered]
    simp [Fields.mapValues, List.filter_map, Function.comp_def, truthy_inKeyOrder]

theorem entries_inKeyOrder (v : Value) :
    v.inKeyOrder.entries = v.entries.map fun e => (e.1.inKeyOrder, e.2) := by
  cases v with
  | arr items => simp [inKeyOrder_arr, Value.entries, List.zipIdx_map, Function.comp_def]
  | obj fs =>
    rw [inKeyOrder_obj, Value.entries, Value.entries, ordered_mapValues, ordered_ordered]
    simp [Fields.mapValues, Function.comp_def]
  | _ => simp [Value.inKeyOrder, Value.entries]

/-! ## Inside a value -/

def Value.at? (v : Value) : List Value → Option Value
  | [] => some v
  | key :: path => (v.child? key).bind fun c => c.2.at? path

/-- The same leaf, an array of the same length, or an object with the same names, in order. -/
inductive Value.Alongside : Value → Value → Prop
  | leaf {v : Value} (h : v.IsLeaf) : Alongside v v
  | arr {xs ys : List Value} (h : ys.length = xs.length) : Alongside (.arr xs) (.arr ys)
  | obj {fs gs : Fields} (kept : (gs.map Prod.fst).Perm (fs.map Prod.fst))
      (ordered : gs.map Prod.fst = (Fields.ordered fs).map Prod.fst) : Alongside (.obj fs) (.obj gs)

theorem alongside_inKeyOrder (v : Value) : v.Alongside v.inKeyOrder := by
  induction v using Value.nested with
  | leaf v h =>
    rw [inKeyOrder_leaf h]
    exact .leaf h
  | arr items =>
    rw [inKeyOrder_arr]
    exact .arr (List.length_map _)
  | obj fs =>
    rw [inKeyOrder_obj]
    refine .obj ?_ (names_mapValues _ _)
    rw [names_mapValues]
    exact (ordered_perm fs).map _

theorem child?_inKeyOrder (v key : Value) :
    v.inKeyOrder.child? key = (v.child? key).map fun c => (c.1, c.2.inKeyOrder) := by
  cases v with
  | arr items =>
    rw [inKeyOrder_arr]
    cases key with
    | num n => simp [Value.child?, Option.map_bind, Function.comp_def]
    | str s => simp [Value.child?, Option.map_bind, Function.comp_def]
    | _ => simp [Value.child?]
  | obj fs =>
    simp [inKeyOrder_obj, Value.child?, get?_mapValues, get?_ordered, Function.comp_def]
  | _ => simp [Value.inKeyOrder, Value.child?]

theorem at?_inKeyOrder (v : Value) (path : List Value) :
    v.inKeyOrder.at? path = (v.at? path).map Value.inKeyOrder := by
  induction path generalizing v with
  | nil => rfl
  | cons key path ih =>
    rw [Value.at?, Value.at?, child?_inKeyOrder]
    simp [Option.bind_map, Option.map_bind, ih]

/-! ## The result -/

theorem mem_names_set {k n : String} {v : Value} {fs : Fields}
    (h : n ∈ (Fields.set k v fs).map Prod.fst) : n = k ∨ n ∈ fs.map Prod.fst := by
  induction fs with
  | nil => simpa [Fields.set] using h
  | cons f fs ih =>
    rw [Fields.set] at h
    by_cases hk : (f.1 == k) = true
    · rw [if_pos hk] at h
      exact .inr (by simpa using h)
    · rw [if_neg hk, List.map_cons, List.mem_cons] at h
      rcases h with rfl | h
      · simp
      · have hor := ih h
        simp only [List.map_cons, List.mem_cons]
        tauto

theorem nodup_set (k : String) (v : Value) {fs : Fields} (h : (fs.map Prod.fst).Nodup) :
    ((Fields.set k v fs).map Prod.fst).Nodup := by
  induction fs with
  | nil => simp [Fields.set]
  | cons f fs ih =>
    rw [List.map_cons, List.nodup_cons] at h
    rw [Fields.set]
    by_cases hk : (f.1 == k) = true
    · rw [if_pos hk, List.map_cons, List.nodup_cons]
      exact h
    · rw [if_neg hk, List.map_cons, List.nodup_cons]
      refine ⟨fun hmem => ?_, ih h.2⟩
      rcases mem_names_set hmem with he | hmem
      · exact hk (beq_iff_eq.2 he)
      · exact h.1 hmem

/-- Objects are made of fields given one after another, so they have each name once. -/
theorem nodup_ofList (pairs : List (String × Value)) :
    ((Fields.ofList pairs).map Prod.fst).Nodup := by
  unfold Fields.ofList
  refine List.foldlRecOn pairs _ (motive := fun fs : Fields => (fs.map Prod.fst).Nodup) .nil ?_
  intro fs h p hp
  exact nodup_set p.1 p.2 h

/-- **Enumeration order.** An object is enumerated as a script does it. A value put in this order is
in order for good; along each path of keys it has what the value has there, objects with their names
in order; and its entries, with their values in order, its classes and its text are those of the
value. -/
theorem Value.enumerated :
    (∀ fs : Fields, (fs.map Prod.fst).Nodup → Fields.Enumerate fs (Fields.ordered fs)) ∧
      ∀ v : Value, v.inKeyOrder.inKeyOrder = v.inKeyOrder ∧
        (∀ path, Option.Rel Value.Alongside (v.at? path) (v.inKeyOrder.at? path)) ∧
        v.inKeyOrder.entries = v.entries.map (fun e => (e.1.inKeyOrder, e.2)) ∧
        v.inKeyOrder.classList = v.classList ∧ v.inKeyOrder.display = v.display := by
  refine ⟨fun fs h => enumerate_ordered h, fun v => ⟨inKeyOrder_inKeyOrder v, fun path => ?_,
    entries_inKeyOrder v, ?_, display_inKeyOrder v⟩⟩
  · rw [at?_inKeyOrder]
    cases v.at? path with
    | none => exact .none
    | some w => exact .some (alongside_inKeyOrder w)
  · rw [Value.classList, Value.classList, classes_inKeyOrder]

/-- Indices move to the front, and a numeral with a zero in front is no index. -/
theorem Value.enumerated_indices :
    let fs := Fields.ofList [("b", .bool true), ("10", .null), ("2", .null), ("01", .null)]
    (fs.map Prod.fst).Nodup ∧ Fields.Enumerate fs (Fields.ordered fs) ∧
      (Fields.ordered fs).map Prod.fst = ["2", "10", "b", "01"] := by
  intro fs
  have hnodup : (fs.map Prod.fst).Nodup := nodup_ofList _
  have hindexed : indexed fs = [(10, "10", .null), (2, "2", .null)] := by rfl
  have hnamed : named fs = [("b", .bool true), ("01", .null)] := by rfl
  refine ⟨hnodup, Value.enumerated.1 fs hnodup, ?_⟩
  simp [Fields.ordered, hindexed, hnamed, List.mergeSort]

end Stencil
