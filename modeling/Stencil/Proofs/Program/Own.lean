import Stencil.Proofs.Render.Page

/-! # The own instructions of a program

The instructions in all bodies of a program and in what it has for the blocks of the modules it
extends. The instructions of these modules are not its own. -/

namespace Stencil

def Override.bodies {α : Type} (o : Override α) : List α :=
  o.before.toList ++ o.replace.toList ++ o.after.toList

namespace Instruction

/-- The lists of instructions right inside an instruction, that of a module apart. -/
def bodies : Instruction → List (List Instruction)
  | .text _ => []
  | .output _ _ _ => []
  | .attr _ _ _ _ => []
  | .ifElse branches otherwise => branches.map (·.body) ++ otherwise.toList
  | .whileTrue _ body _ => [body]
  | .caseOf _ arms _ => arms.map (·.body)
  | .each _ _ _ body _ => [body]
  | .block _ body => [body]
  | .extension _ _ overrides _ _ => overrides.flatMap Override.bodies
  | .inclusion _ _ _ _ => []

def module? : Instruction → Option Program
  | .extension p _ _ _ _ => some p
  | .inclusion p _ _ _ => some p
  | _ => none

def blockName? : Instruction → Option String
  | .block name _ => some name
  | _ => none

def isText : Instruction → Bool
  | .text _ => true
  | _ => false

def isLeaf : Instruction → Bool
  | .text _ => true
  | .output _ _ _ => true
  | .attr _ _ _ _ => true
  | _ => false

end Instruction

mutual
def Instruction.nested : Instruction → List Instruction
  | .text _ => []
  | .output _ _ _ => []
  | .attr _ _ _ _ => []
  | .ifElse branches otherwise => ownOfBranches branches ++ ownOfOption otherwise
  | .whileTrue _ body _ => ownOf body
  | .caseOf _ arms _ => ownOfArms arms
  | .each _ _ _ body _ => ownOf body
  | .block _ body => ownOf body
  | .extension _ _ overrides _ _ => ownOfOverrides overrides
  | .inclusion _ _ _ _ => []
def ownOf : List Instruction → List Instruction
  | [] => []
  | i :: is => i :: i.nested ++ ownOf is
def ownOfBranches : List (Guarded (List Instruction)) → List Instruction
  | [] => []
  | ⟨_, body, _⟩ :: bs => ownOf body ++ ownOfBranches bs
def ownOfArms : List (CaseArm (List Instruction)) → List Instruction
  | [] => []
  | ⟨_, body⟩ :: as => ownOf body ++ ownOfArms as
def ownOfOption : Option (List Instruction) → List Instruction
  | none => []
  | some body => ownOf body
def ownOfOverrides : List (Override (List Instruction)) → List Instruction
  | [] => []
  | ⟨_, before, replace, after⟩ :: os =>
    ownOfOption before ++ ownOfOption replace ++ ownOfOption after ++ ownOfOverrides os
end

/-! ## Own instructions by bodies -/

theorem ownOfBranches_eq (bs : List (Guarded (List Instruction))) :
    ownOfBranches bs = (bs.map (·.body)).flatMap ownOf := by
  induction bs with
  | nil => rfl
  | cons b bs ih => rw [ownOfBranches, ih, List.map_cons, List.flatMap_cons]

theorem ownOfArms_eq (as : List (CaseArm (List Instruction))) :
    ownOfArms as = (as.map (·.body)).flatMap ownOf := by
  induction as with
  | nil => rfl
  | cons a as ih => rw [ownOfArms, ih, List.map_cons, List.flatMap_cons]

theorem ownOfOption_eq (o : Option (List Instruction)) :
    ownOfOption o = o.toList.flatMap ownOf := by
  cases o <;> simp [ownOfOption]

theorem ownOfOverrides_eq (os : List (Override (List Instruction))) :
    ownOfOverrides os = (os.flatMap Override.bodies).flatMap ownOf := by
  induction os with
  | nil => rfl
  | cons o os ih =>
    rw [ownOfOverrides, ih, List.flatMap_cons, List.flatMap_append, Override.bodies]
    simp only [ownOfOption_eq, List.flatMap_append]

theorem Instruction.nested_eq (i : Instruction) : i.nested = i.bodies.flatMap ownOf := by
  cases i <;> simp [nested, bodies, ownOfBranches_eq, ownOfArms_eq, ownOfOption_eq,
    ownOfOverrides_eq]

theorem ownOf_append (is js : List Instruction) : ownOf (is ++ js) = ownOf is ++ ownOf js := by
  induction is with
  | nil => rfl
  | cons i is ih => simp [ownOf, ih]

theorem ownOf_singleton (i : Instruction) : ownOf [i] = i :: i.bodies.flatMap ownOf := by
  simp [ownOf, Instruction.nested_eq]

theorem Instruction.isLeaf_of_isText {i : Instruction} (h : i.isText = true) : i.isLeaf = true := by
  cases i with
  | text s => rfl
  | _ => cases h

theorem Instruction.bodies_of_isLeaf {i : Instruction} (h : i.isLeaf = true) : i.bodies = [] := by
  cases i with
  | text s => rfl
  | output e format line => rfl
  | attr name e escape line => rfl
  | _ => cases h

theorem ownOf_of_leaves {is : List Instruction} (h : ∀ i ∈ is, i.isLeaf = true) :
    ownOf is = is := by
  induction is with
  | nil => rfl
  | cons i is ih =>
    rw [ownOf, Instruction.nested_eq, Instruction.bodies_of_isLeaf (h i (List.mem_cons_self ..)),
      ih fun j hj => h j (List.mem_cons_of_mem _ hj)]
    rfl

/-- Joining texts changes nothing but texts. -/
theorem flatMap_ownOf_coalesce {β : Type} {f : Instruction → List β} (hf : ∀ s, f (.text s) = [])
    (is : List Instruction) : (ownOf (coalesce is)).flatMap f = (ownOf is).flatMap f := by
  fun_induction coalesce is with
  | case1 => rfl
  | case2 s is t rest hc ih =>
    rw [hc] at ih
    simpa [ownOf, Instruction.nested, hf] using ih
  | case3 s is hs hne ih => simpa [ownOf, Instruction.nested, hf] using ih
  | case4 s is hs hne ih => simpa [ownOf, Instruction.nested, hf] using ih
  | case5 i is hne ih => simp [ownOf, ih]

theorem mem_ownOf_coalesce {i : Instruction} {is : List Instruction}
    (h : i ∈ ownOf (coalesce is)) : i ∈ ownOf is ∨ i.isText = true := by
  let f (i : Instruction) : List Instruction := if i.isText then [] else [i]
  have hf : ∀ s, f (.text s) = [] := fun s => rfl
  cases ht : i.isText with
  | true => exact .inr rfl
  | false =>
    have hi : i ∈ (ownOf (coalesce is)).flatMap f :=
      List.mem_flatMap.2 ⟨i, h, by simp [f, ht]⟩
    rw [flatMap_ownOf_coalesce hf] at hi
    obtain ⟨j, hj, hi⟩ := List.mem_flatMap.1 hi
    by_cases htj : j.isText = true
    · simp [f, htj] at hi
    · rw [show f j = [j] by simp [f, htj], List.mem_singleton] at hi
      exact .inl (hi ▸ hj)

/-! ## Induction on bodies -/

section
variable {P : List Instruction → Prop}

mutual
theorem Instruction.forall_bodies
    (h : ∀ is : List Instruction, (∀ i ∈ is, ∀ b ∈ i.bodies, P b) → P is) :
    (i : Instruction) → ∀ b ∈ i.bodies, P b
  | .text _ => List.forall_mem_nil P
  | .output _ _ _ => List.forall_mem_nil P
  | .attr _ _ _ _ => List.forall_mem_nil P
  | .ifElse branches otherwise => fun b hb =>
    (List.mem_append.1 hb).elim (forall_bodiesOfBranches h branches b)
      (forall_bodiesOfOption h otherwise b)
  | .whileTrue _ body _ => List.forall_mem_singleton.2 (h body (forall_bodiesOf h body))
  | .caseOf _ arms _ => forall_bodiesOfArms h arms
  | .each _ _ _ body _ => List.forall_mem_singleton.2 (h body (forall_bodiesOf h body))
  | .block _ body => List.forall_mem_singleton.2 (h body (forall_bodiesOf h body))
  | .extension _ _ overrides _ _ => forall_bodiesOfOverrides h overrides
  | .inclusion _ _ _ _ => List.forall_mem_nil P
theorem forall_bodiesOf
    (h : ∀ is : List Instruction, (∀ i ∈ is, ∀ b ∈ i.bodies, P b) → P is) :
    (is : List Instruction) → ∀ i ∈ is, ∀ b ∈ i.bodies, P b
  | [] => nofun
  | i :: is => List.forall_mem_cons.2 ⟨Instruction.forall_bodies h i, forall_bodiesOf h is⟩
theorem forall_bodiesOfBranches
    (h : ∀ is : List Instruction, (∀ i ∈ is, ∀ b ∈ i.bodies, P b) → P is) :
    (bs : List (Guarded (List Instruction))) → ∀ b ∈ bs.map (·.body), P b
  | [] => nofun
  | ⟨_, body, _⟩ :: bs =>
    List.forall_mem_cons.2 ⟨h body (forall_bodiesOf h body), forall_bodiesOfBranches h bs⟩
theorem forall_bodiesOfArms
    (h : ∀ is : List Instruction, (∀ i ∈ is, ∀ b ∈ i.bodies, P b) → P is) :
    (as : List (CaseArm (List Instruction))) → ∀ b ∈ as.map (·.body), P b
  | [] => nofun
  | ⟨_, body⟩ :: as =>
    List.forall_mem_cons.2 ⟨h body (forall_bodiesOf h body), forall_bodiesOfArms h as⟩
theorem forall_bodiesOfOption
    (h : ∀ is : List Instruction, (∀ i ∈ is, ∀ b ∈ i.bodies, P b) → P is) :
    (o : Option (List Instruction)) → ∀ b ∈ o.toList, P b
  | none => nofun
  | some body => List.forall_mem_singleton.2 (h body (forall_bodiesOf h body))
theorem forall_bodiesOfOverrides
    (h : ∀ is : List Instruction, (∀ i ∈ is, ∀ b ∈ i.bodies, P b) → P is) :
    (os : List (Override (List Instruction))) → ∀ b ∈ os.flatMap Override.bodies, P b
  | [] => nofun
  | ⟨_, before, replace, after⟩ :: os => by
    simp only [List.flatMap_cons, Override.bodies, List.mem_append, or_imp, forall_and]
    exact ⟨⟨⟨forall_bodiesOfOption h before, forall_bodiesOfOption h replace⟩,
      forall_bodiesOfOption h after⟩, forall_bodiesOfOverrides h os⟩
end

/-- What a list of instructions has if all bodies of its instructions have it. -/
theorem bodies_induction (h : ∀ is : List Instruction, (∀ i ∈ is, ∀ b ∈ i.bodies, P b) → P is)
    (is : List Instruction) : P is :=
  h is (forall_bodiesOf h is)

end

/-! ## What holds of all own instructions -/

def AllOwn (P : Instruction → Prop) (is : List Instruction) : Prop :=
  ∀ i ∈ ownOf is, P i

section
variable {P : Instruction → Prop} {is js : List Instruction}

theorem AllOwn.append (hi : AllOwn P is) (hj : AllOwn P js) : AllOwn P (is ++ js) := by
  intro i h
  rw [ownOf_append] at h
  rcases List.mem_append.1 h with h | h
  · exact hi i h
  · exact hj i h

theorem allOwn_leaves (hP : ∀ i, i.isLeaf = true → P i) (h : ∀ i ∈ is, i.isLeaf = true) :
    AllOwn P is := by
  intro i hi
  rw [ownOf_of_leaves h] at hi
  exact hP i (h i hi)

theorem AllOwn.coalesce (hP : ∀ i, i.isLeaf = true → P i) (h : AllOwn P is) :
    AllOwn P (coalesce is) := by
  intro i hi
  rcases mem_ownOf_coalesce hi with hi | ht
  · exact h i hi
  · exact hP i (Instruction.isLeaf_of_isText ht)

theorem allOwn_singleton {i : Instruction} (hi : P i) (hb : ∀ body ∈ i.bodies, AllOwn P body) :
    AllOwn P [i] := by
  intro j hj
  rw [ownOf_singleton] at hj
  rcases List.mem_cons.1 hj with rfl | hj
  · exact hi
  · obtain ⟨body, hbody, hj⟩ := List.mem_flatMap.1 hj
    exact hb body hbody j hj

end

/-! ## What holds of all content for blocks -/

theorem forall_bodies_add {Q : List Instruction → Prop} {o : Override (List Instruction)}
    {body : List Instruction} (ho : ∀ b ∈ o.bodies, Q b)
    (hjoin : ∀ old : Option (List Instruction), (∀ b ∈ old.toList, Q b) →
      Q (coalesce (old.getD [] ++ body))) (position : Template.Position) :
    ∀ b ∈ (o.add position body).bodies, Q b := by
  obtain ⟨block, before, replace, after⟩ := o
  simp only [Override.bodies, List.mem_append, or_imp, forall_and] at ho
  obtain ⟨⟨hbefore, hreplace⟩, hafter⟩ := ho
  cases position with
  | before =>
    simp only [Override.add, Override.bodies, List.mem_append, or_imp, forall_and]
    exact ⟨⟨List.forall_mem_singleton.2 (hjoin before hbefore), hreplace⟩, hafter⟩
  | replace =>
    simp only [Override.add, Override.bodies, List.mem_append, or_imp, forall_and]
    exact ⟨⟨hbefore, List.forall_mem_singleton.2 (hjoin replace hreplace)⟩, hafter⟩
  | after =>
    simp only [Override.add, Override.bodies, List.mem_append, or_imp, forall_and]
    exact ⟨⟨hbefore, hreplace⟩, List.forall_mem_singleton.2 (hjoin after hafter)⟩

theorem forall_addOverride {R : Override (List Instruction) → Prop} {position : Template.Position}
    {block : String} {body : List Instruction} {os : List (Override (List Instruction))}
    (ho : ∀ o ∈ os, R o) (hnew : R (Override.add ⟨block, none, none, none⟩ position body))
    (hadd : ∀ o, R o → R (o.add position body)) :
    ∀ o ∈ addOverride position block body os, R o := by
  induction os with
  | nil => exact List.forall_mem_singleton.2 hnew
  | cons o os ih =>
    obtain ⟨hfirst, hrest⟩ := List.forall_mem_cons.1 ho
    rw [addOverride]
    split
    · exact List.forall_mem_cons.2 ⟨hadd o hfirst, hrest⟩
    · exact List.forall_mem_cons.2 ⟨hfirst, ih hrest⟩

/-! ## Programs by own instructions -/

def Instruction.modules (i : Instruction) : List Program :=
  i.module?.toList.flatMap programsFrom

mutual
theorem Instruction.programs_eq : (i : Instruction) →
    i.programs = i.modules ++ i.nested.flatMap Instruction.modules
  | .text _ => rfl
  | .output _ _ _ => rfl
  | .attr _ _ _ _ => rfl
  | .ifElse branches otherwise => by
    rw [Instruction.programs, Instruction.nested, List.flatMap_append, programsOfBranches_eq,
      programsOfOption_eq]
    rfl
  | .whileTrue _ body _ => by
    rw [Instruction.programs, Instruction.nested, programsOf_eq body]
    rfl
  | .caseOf _ arms _ => by
    rw [Instruction.programs, Instruction.nested, programsOfArms_eq arms]
    rfl
  | .each _ _ _ body _ => by
    rw [Instruction.programs, Instruction.nested, programsOf_eq body]
    rfl
  | .block _ body => by
    rw [Instruction.programs, Instruction.nested, programsOf_eq body]
    rfl
  | .extension p _ overrides _ _ => by
    rw [Instruction.programs, Instruction.nested, programsOfOverrides_eq]
    simp [Instruction.modules, Instruction.module?]
  | .inclusion p _ _ _ => by
    simp [Instruction.programs, Instruction.nested, Instruction.modules, Instruction.module?]
theorem programsOf_eq : (is : List Instruction) →
    programsOf is = (ownOf is).flatMap Instruction.modules
  | [] => rfl
  | i :: is => by
    rw [programsOf, ownOf, Instruction.programs_eq i, programsOf_eq is, List.flatMap_append,
      List.flatMap_cons]
theorem programsOfBranches_eq : (bs : List (Guarded (List Instruction))) →
    programsOfBranches bs = (ownOfBranches bs).flatMap Instruction.modules
  | [] => rfl
  | ⟨_, body, _⟩ :: bs => by
    rw [programsOfBranches, ownOfBranches, programsOf_eq body, programsOfBranches_eq bs,
      List.flatMap_append]
theorem programsOfArms_eq : (as : List (CaseArm (List Instruction))) →
    programsOfArms as = (ownOfArms as).flatMap Instruction.modules
  | [] => rfl
  | ⟨_, body⟩ :: as => by
    rw [programsOfArms, ownOfArms, programsOf_eq body, programsOfArms_eq as, List.flatMap_append]
theorem programsOfOption_eq : (o : Option (List Instruction)) →
    programsOfOption o = (ownOfOption o).flatMap Instruction.modules
  | none => rfl
  | some body => programsOf_eq body
theorem programsOfOverrides_eq : (os : List (Override (List Instruction))) →
    programsOfOverrides os = (ownOfOverrides os).flatMap Instruction.modules
  | [] => rfl
  | ⟨_, before, replace, after⟩ :: os => by
    simp only [programsOfOverrides, ownOfOverrides, programsOfOption_eq, programsOfOverrides_eq os,
      List.flatMap_append]
end

theorem mem_programsFrom (p : Program) : p ∈ programsFrom p := by
  rw [programsFrom]
  exact List.mem_cons_self ..

theorem mem_programsOf {q : Program} {is : List Instruction} :
    q ∈ programsOf is ↔ ∃ i ∈ ownOf is, ∃ p, i.module? = some p ∧ q ∈ programsFrom p := by
  simp only [programsOf_eq, List.mem_flatMap, Instruction.modules, Option.mem_toList]

end Stencil
