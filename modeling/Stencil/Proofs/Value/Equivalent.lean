import Stencil.Proofs.Number.Whole
import Stencil.Proofs.Result
import Stencil.Value.Lookup
import Stencil.Value.Compare

/-! # Values with the same numbers

Values are equivalent if they have the same shape and differ at most in how their numbers are
represented: as an integer or as a double, and a zero with any sign. Equivalent values are true
together, have the same text, coincide as numbers, and compare alike with equivalent values. -/

namespace Stencil

mutual
/-- Same arrays and objects throughout, and strictly equal values in them. -/
def Value.equivalent : Value → Value → Bool
  | .arr xs, .arr ys => equivalentAll xs ys
  | .obj fs, .obj gs => equivalentFields fs gs
  | v, w => v.strictEq false w
def equivalentAll : List Value → List Value → Bool
  | [], [] => true
  | v :: vs, w :: ws => v.equivalent w && equivalentAll vs ws
  | _, _ => false
def equivalentFields : List (String × Value) → List (String × Value) → Bool
  | [], [] => true
  | (k, v) :: fs, (l, w) :: gs => k == l && v.equivalent w && equivalentFields fs gs
  | _, _ => false
end

inductive Value.Same : Value → Value → Prop
  | null : Same .null .null
  | bool (b : Bool) : Same (.bool b) (.bool b)
  | num {a b : Num} (h : (a.toFloat == b.toFloat) = true) : Same (.num a) (.num b)
  | str (s : String) : Same (.str s) (.str s)
  | arr {xs ys : List Value} (h : equivalentAll xs ys = true) : Same (.arr xs) (.arr ys)
  | obj {fs gs : Fields} (h : equivalentFields fs gs = true) : Same (.obj fs) (.obj gs)

theorem Value.equivalent_iff {v w : Value} : v.equivalent w = true ↔ v.Same w := by
  constructor
  · intro h
    cases v with
    | null =>
      cases w with
      | null => exact .null
      | _ => simp [Value.equivalent, Value.strictEq] at h
    | bool a =>
      cases w with
      | bool b =>
        obtain rfl : a = b := by simpa [Value.equivalent, Value.strictEq] using h
        exact .bool a
      | _ => simp [Value.equivalent, Value.strictEq] at h
    | num a =>
      cases w with
      | num b => exact .num (by simpa only [Value.equivalent, Value.strictEq] using h)
      | _ => simp [Value.equivalent, Value.strictEq] at h
    | str a =>
      cases w with
      | str b =>
        obtain rfl : a = b := by simpa [Value.equivalent, Value.strictEq] using h
        exact .str a
      | _ => simp [Value.equivalent, Value.strictEq] at h
    | arr xs =>
      cases w with
      | arr ys => exact .arr (by simpa only [Value.equivalent] using h)
      | _ => simp [Value.equivalent, Value.strictEq] at h
    | obj fs =>
      cases w with
      | obj gs => exact .obj (by simpa only [Value.equivalent] using h)
      | _ => simp [Value.equivalent, Value.strictEq] at h
  · intro h
    cases h with
    | null => simp [Value.equivalent, Value.strictEq]
    | bool b => simp [Value.equivalent, Value.strictEq]
    | num h => simpa only [Value.equivalent, Value.strictEq] using h
    | str s => simp [Value.equivalent, Value.strictEq]
    | arr h => simpa only [Value.equivalent] using h
    | obj h => simpa only [Value.equivalent] using h

theorem equivalentAll_iff {xs ys : List Value} :
    equivalentAll xs ys = true ↔ List.Forall₂ (fun v w => v.equivalent w = true) xs ys := by
  induction xs generalizing ys with
  | nil => cases ys <;> simp [equivalentAll]
  | cons v vs ih => cases ys <;> simp [equivalentAll, ih]

/-! ## Truths, texts and numbers -/

theorem truthy_equivalent {v w : Value} (h : v.equivalent w = true) : v.truthy = w.truthy := by
  cases Value.equivalent_iff.1 h with
  | num h => exact congrArg not ((coincide_of_beq h).beq_eq (.refl _))
  | _ => rfl

theorem isNull_equivalent {v w : Value} (h : v.equivalent w = true) : v.isNull = w.isNull := by
  cases Value.equivalent_iff.1 h <;> rfl

theorem typeName_equivalent {v w : Value} (h : v.equivalent w = true) :
    v.typeName = w.typeName := by
  cases Value.equivalent_iff.1 h <;> rfl

theorem isTextual_equivalent {v w : Value} (h : v.equivalent w = true) :
    v.isTextual = w.isTextual := by
  cases Value.equivalent_iff.1 h <;> rfl

mutual
theorem display_equivalent {v w : Value} (h : v.equivalent w = true) : v.display = w.display := by
  cases Value.equivalent_iff.1 h with
  | num h =>
    rw [Value.display, Value.display, Num.text_eq, Num.text_eq]
    exact (coincide_of_beq h).scriptText
  | arr h => rw [Value.display, Value.display, displays_equivalent h]
  | _ => rfl
theorem displays_equivalent {xs ys : List Value} (h : equivalentAll xs ys = true) :
    displays xs = displays ys := by
  cases equivalentAll_iff.1 h with
  | nil => rfl
  | cons hv hvs =>
    rw [displays, displays, display_equivalent hv, displays_equivalent (equivalentAll_iff.2 hvs)]
end

theorem toNumber_equivalent {v w : Value} (h : v.equivalent w = true) :
    Coincide v.toNumber w.toNumber := by
  cases Value.equivalent_iff.1 h with
  | num h => exact coincide_of_beq h
  | arr h =>
    cases equivalentAll_iff.1 h with
    | nil => exact .refl _
    | cons hv hvs =>
      cases hvs with
      | nil =>
        rw [Value.toNumber, Value.toNumber]
        exact toNumber_equivalent hv
      | cons _ _ => exact .refl _
  | _ => exact .refl _

/-! ## Computed values -/

theorem equivalent_int (n : Int) : (Value.num (.int n)).equivalent (.num (.int n)) = true :=
  Value.equivalent_iff.2 (.num ((Coincide.refl _).beq (decode_ofInt_ne_nan n)))

/-- A computed number is itself a number, so it equals itself. -/
theorem equivalent_ofFloat {x y : Float} (h : Value.ofFloat x = Value.ofFloat y) :
    (Value.ofFloat x).equivalent (Value.ofFloat y) = true := by
  rw [← h]
  unfold Value.ofFloat
  cases hx : decode x with
  | nan => exact Value.equivalent_iff.2 .null
  | infinite neg => exact Value.equivalent_iff.2 .null
  | finite b =>
    dsimp only
    split
    · exact equivalent_int _
    · exact Value.equivalent_iff.2 (.num ((Coincide.refl x).beq (by rw [hx]; nofun)))

theorem equivalent_str {s t : String} (h : s = t) : (Value.str s).equivalent (.str t) = true :=
  Value.equivalent_iff.2 (h ▸ .str s)

theorem equivalent_bool {a b : Bool} (h : a = b) : (Value.bool a).equivalent (.bool b) = true :=
  Value.equivalent_iff.2 (h ▸ .bool a)

variable {a a' b b' : Value}

theorem add_equivalent (ha : a.equivalent a' = true) (hb : b.equivalent b' = true) :
    (a.add b).equivalent (a'.add b') = true := by
  unfold Value.add
  rw [isTextual_equivalent ha, isTextual_equivalent hb]
  split
  · apply equivalent_str
    rw [display_equivalent ha, display_equivalent hb]
  · apply equivalent_ofFloat
    exact ofFloat_sum (.inl rfl) (toNumber_equivalent ha) (toNumber_equivalent hb)

/-! ## Equality and order -/

theorem strictEq_equivalent (ha : a.equivalent a' = true) (hb : b.equivalent b' = true)
    (same : Bool) : a.strictEq same b = a'.strictEq same b' := by
  cases Value.equivalent_iff.1 ha with
  | num h =>
    cases Value.equivalent_iff.1 hb with
    | num h' => exact (coincide_of_beq h).beq_eq (coincide_of_beq h')
    | _ => rfl
  | _ => cases Value.equivalent_iff.1 hb <;> rfl

theorem looseEq_equivalent (ha : a.equivalent a' = true) (hb : b.equivalent b' = true)
    (same : Bool) : a.looseEq same b = a'.looseEq same b' := by
  have hnum := (toNumber_equivalent ha).beq_eq (toNumber_equivalent hb)
  cases Value.equivalent_iff.1 ha with
  | null => cases Value.equivalent_iff.1 hb <;> rfl
  | bool x =>
    cases Value.equivalent_iff.1 hb with
    | null => rfl
    | _ => exact hnum
  | num h =>
    cases Value.equivalent_iff.1 hb with
    | null => rfl
    | arr h' => rfl
    | obj h' => rfl
    | _ => exact hnum
  | str s =>
    cases Value.equivalent_iff.1 hb with
    | bool y => exact hnum
    | num h' => exact hnum
    | _ => rfl
  | arr h =>
    cases Value.equivalent_iff.1 hb with
    | bool y => exact hnum
    | _ => rfl
  | obj h =>
    cases Value.equivalent_iff.1 hb with
    | bool y => exact hnum
    | _ => rfl

theorem compareFloat_coincide {x x' y y' : Float} (hx : Coincide x x') (hy : Coincide y y') :
    compareFloat x y = compareFloat x' y' := by
  simp only [compareFloat, hx.lt_iff hy, hy.lt_iff hx, hx.beq_eq hy]

theorem compare_equivalent (ha : a.equivalent a' = true) (hb : b.equivalent b' = true) :
    a.compare b = a'.compare b' := by
  have hnum := compareFloat_coincide (toNumber_equivalent ha) (toNumber_equivalent hb)
  cases Value.equivalent_iff.1 ha with
  | str s =>
    cases Value.equivalent_iff.1 hb with
    | str t => rfl
    | _ => exact hnum
  | _ => exact hnum

/-! ## Fields -/

theorem equivalentFields_iff {fs gs : Fields} : equivalentFields fs gs = true ↔
    List.Forall₂ (fun f g => f.1 = g.1 ∧ f.2.equivalent g.2 = true) fs gs := by
  induction fs generalizing gs with
  | nil => cases gs <;> simp [equivalentFields]
  | cons f fs ih => cases gs <;> simp [equivalentFields, ih]

theorem get?_equivalent {fs gs : Fields} (h : equivalentFields fs gs = true) (key : String) :
    Option.Rel (fun v w => v.equivalent w = true) (Fields.get? key fs) (Fields.get? key gs) := by
  have hall := equivalentFields_iff.1 h
  induction hall with
  | nil => exact .none
  | cons hfg hrest ih =>
    rename_i f g fs gs
    rw [Fields.get?, Fields.get?, hfg.1]
    split
    · exact .some hfg.2
    · exact ih (equivalentFields_iff.2 hrest)

theorem set_equivalent {fs gs : Fields} (h : equivalentFields fs gs = true) (key : String)
    (ha : a.equivalent a' = true) :
    equivalentFields (Fields.set key a fs) (Fields.set key a' gs) = true := by
  have hall := equivalentFields_iff.1 h
  rw [equivalentFields_iff]
  clear h
  induction hall with
  | nil => exact .cons ⟨rfl, ha⟩ .nil
  | cons hfg hrest ih =>
    rename_i f g fs gs
    rw [Fields.set, Fields.set, hfg.1]
    split
    · exact .cons ⟨rfl, ha⟩ hrest
    · exact .cons ⟨rfl, hfg.2⟩ ih

theorem foldl_set_equivalent {fs gs ps qs : Fields} (h : equivalentFields fs gs = true)
    (hpq : equivalentFields ps qs = true) :
    equivalentFields (fs.foldl (fun acc (k, v) => Fields.set k v acc) ps)
      (gs.foldl (fun acc (k, v) => Fields.set k v acc) qs) = true := by
  have hall := equivalentFields_iff.1 h
  clear h
  induction hall generalizing ps qs with
  | nil => exact hpq
  | cons hfg hrest ih =>
    rename_i f g fs gs
    obtain ⟨k, v⟩ := f
    obtain ⟨l, w⟩ := g
    obtain ⟨rfl, hvw⟩ : k = l ∧ v.equivalent w = true := hfg
    exact ih (set_equivalent hpq k hvw)

theorem ofList_equivalent {fs gs : Fields} (h : equivalentFields fs gs = true) :
    equivalentFields (Fields.ofList fs) (Fields.ofList gs) = true :=
  foldl_set_equivalent h rfl

/-! ## Numbers represented alike -/

def Num.IsCanonical (n : Num) : Prop :=
  Value.ofFloat n.toFloat = .num n

deriving instance DecidableEq for Num

instance (n : Num) : Decidable n.IsCanonical :=
  match h : Value.ofFloat n.toFloat with
  | .num m => decidable_of_iff (m = n) (by rw [Num.IsCanonical, h, Value.num.injEq])
  | .null => isFalse (by rw [Num.IsCanonical, h]; nofun)
  | .bool _ => isFalse (by rw [Num.IsCanonical, h]; nofun)
  | .str _ => isFalse (by rw [Num.IsCanonical, h]; nofun)
  | .arr _ => isFalse (by rw [Num.IsCanonical, h]; nofun)
  | .obj _ => isFalse (by rw [Num.IsCanonical, h]; nofun)

theorem Num.IsCanonical.eq {m n : Num} (hm : m.IsCanonical) (hn : n.IsCanonical)
    (h : (m.toFloat == n.toFloat) = true) : m = n := by
  have hvalue : Value.num m = Value.num n := by
    rw [← hm, ← hn]
    exact (coincide_of_beq h).ofFloat
  exact Value.num.inj hvalue

mutual
def Value.numbers : Value → List Num
  | .num n => [n]
  | .arr items => numbersOf items
  | .obj fields => numbersOfFields fields
  | _ => []
def numbersOf : List Value → List Num
  | [] => []
  | v :: vs => v.numbers ++ numbersOf vs
def numbersOfFields : List (String × Value) → List Num
  | [] => []
  | (_, v) :: fs => v.numbers ++ numbersOfFields fs
end

mutual
/-- Only the representation of numbers tells equivalent values apart. -/
theorem eq_of_canonical {v w : Value} (h : v.equivalent w = true)
    (hv : ∀ n ∈ v.numbers, n.IsCanonical) (hw : ∀ n ∈ w.numbers, n.IsCanonical) : v = w := by
  cases Value.equivalent_iff.1 h with
  | num h =>
    simp only [Value.numbers, List.forall_mem_singleton] at hv hw
    rw [hv.eq hw h]
  | arr h =>
    rw [Value.numbers] at hv hw
    rw [allEq_of_canonical h hv hw]
  | obj h =>
    rw [Value.numbers] at hv hw
    rw [fieldsEq_of_canonical h hv hw]
  | _ => rfl
theorem allEq_of_canonical {vs ws : List Value} (h : equivalentAll vs ws = true)
    (hv : ∀ n ∈ numbersOf vs, n.IsCanonical) (hw : ∀ n ∈ numbersOf ws, n.IsCanonical) :
    vs = ws := by
  cases equivalentAll_iff.1 h with
  | nil => rfl
  | cons hhead htail =>
    simp only [numbersOf, List.forall_mem_append] at hv hw
    rw [eq_of_canonical hhead hv.1 hw.1,
      allEq_of_canonical (equivalentAll_iff.2 htail) hv.2 hw.2]
theorem fieldsEq_of_canonical {fs gs : Fields} (h : equivalentFields fs gs = true)
    (hf : ∀ n ∈ numbersOfFields fs, n.IsCanonical) (hg : ∀ n ∈ numbersOfFields gs, n.IsCanonical) :
    fs = gs := by
  cases equivalentFields_iff.1 h with
  | nil => rfl
  | cons hhead htail =>
    rename_i f g fs gs
    obtain ⟨k, v⟩ := f
    obtain ⟨l, w⟩ := g
    obtain ⟨rfl, hvw⟩ : k = l ∧ v.equivalent w = true := hhead
    simp only [numbersOfFields, List.forall_mem_append] at hf hg
    rw [eq_of_canonical hvw hf.1 hg.1,
      fieldsEq_of_canonical (equivalentFields_iff.2 htail) hf.2 hg.2]
end

end Stencil
