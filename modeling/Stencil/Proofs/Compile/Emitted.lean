import Stencil.Proofs.Compile.Invert
import Stencil.Proofs.Compile.Meaning
import Stencil.Proofs.Program.Own

/-! # What the compiler emits

Said once for all instructions of a compiled document: their bodies are complete lists, the modules
in them were embedded for a reference, and content is only there for blocks that its module
lists. -/

namespace Stencil

open Template

/-! ## Texts and tags -/

theorem leaves_append {is js : List Instruction} (hi : ∀ i ∈ is, i.isLeaf = true)
    (hj : ∀ j ∈ js, j.isLeaf = true) : ∀ i ∈ is ++ js, i.isLeaf = true := by
  intro i h
  rcases List.mem_append.1 h with h | h
  · exact hi i h
  · exact hj i h

theorem leaves_segments (line : Nat) (ss : List Segment) :
    ∀ i ∈ ss.map (Segment.instruction line), i.isLeaf = true := by
  intro i h
  obtain ⟨s, -, rfl⟩ := List.mem_map.1 h
  cases s <;> rfl

theorem leaves_interpolate {text : String} {line : Nat} {is : List Instruction}
    (h : interpolate text line = .ok is) : ∀ i ∈ is, i.isLeaf = true := by
  obtain ⟨ss, -, rfl⟩ := map_eq_ok.1 h
  exact leaves_segments line ss

theorem leaves_between {is : List Instruction} (h : ∀ i ∈ is, i.isLeaf = true) (s t : String) :
    ∀ i ∈ Instruction.text s :: is ++ [Instruction.text t], i.isLeaf = true := by
  intro i hi
  simp only [List.cons_append, List.mem_cons, List.mem_append, List.not_mem_nil, or_false] at hi
  rcases hi with rfl | hi | rfl
  · rfl
  · exact h i hi
  · rfl

namespace Compiler

variable {c : Compiler}

theorem leaves_attrBesideClass {tag : String} {line : Nat} {a : Attribute}
    {is : List Instruction} (h : c.attrBesideClass tag line a = .ok is) :
    ∀ i ∈ is, i.isLeaf = true := by
  unfold attrBesideClass at h
  split at h
  · obtain rfl := Except.ok.inj h
    simp
  · obtain ⟨content, hc, h⟩ := bind_eq_ok.1 h
    obtain rfl := Except.ok.inj h
    exact leaves_between (leaves_interpolate hc) _ _
  · unfold Compiler.attr at h
    split at h
    · obtain rfl := Except.ok.inj h
      simp [Instruction.isLeaf]
    · obtain ⟨ss, hs, h⟩ := bind_eq_ok.1 h
      obtain rfl := Except.ok.inj h
      refine leaves_between ?_ _ _
      split
      · simp [Instruction.isLeaf]
      · exact leaves_segments line ss
    · obtain rfl := Except.ok.inj h
      simp [Instruction.isLeaf]

theorem leaves_attrs {tag : String} {line : Nat} {as : List Attribute}
    {is : List Instruction} (h : c.attrs tag line as = .ok is) : ∀ i ∈ is, i.isLeaf = true := by
  induction as generalizing is with
  | nil =>
    obtain rfl := Except.ok.inj h
    simp
  | cons a as ih =>
    rw [Compiler.attrs] at h
    obtain ⟨first, hf, h⟩ := bind_eq_ok.1 h
    obtain ⟨rest, hr, h⟩ := bind_eq_ok.1 h
    obtain rfl := Except.ok.inj h
    exact leaves_append (leaves_attrBesideClass hf) (ih hr)

theorem leaves_classValue {line : Nat} {a : Attribute} {is : List Instruction}
    (h : classValue line a = .ok is) : ∀ i ∈ is, i.isLeaf = true := by
  unfold classValue at h
  split at h
  · exact leaves_interpolate h
  · obtain rfl := Except.ok.inj h
    simp [Instruction.isLeaf]
  · obtain rfl := Except.ok.inj h
    simp

theorem leaves_classValues {line : Nat} {first : Bool} {as : List Attribute}
    {is : List Instruction} (h : classValues line first as = .ok is) :
    ∀ i ∈ is, i.isLeaf = true := by
  induction as generalizing first is with
  | nil =>
    obtain rfl := Except.ok.inj h
    simp
  | cons a as ih =>
    rw [classValues] at h
    obtain ⟨value, hv, h⟩ := bind_eq_ok.1 h
    obtain ⟨rest, hr, h⟩ := bind_eq_ok.1 h
    obtain rfl := Except.ok.inj h
    refine leaves_append (leaves_append ?_ (leaves_classValue hv)) (ih hr)
    cases first <;> simp [Instruction.isLeaf]

theorem leaves_classes {head : TagHead} {line : Nat} {is : List Instruction}
    (h : c.classes head line = .ok is) : ∀ i ∈ is, i.isLeaf = true := by
  unfold Compiler.classes at h
  dsimp only at h
  split at h
  · obtain rfl := Except.ok.inj h
    simp
  · obtain ⟨values, hv, h⟩ := bind_eq_ok.1 h
    obtain rfl := Except.ok.inj h
    exact leaves_between (leaves_classValues hv) _ _

theorem leaves_layout (indent : String) : ∀ i ∈ c.layout indent, i.isLeaf = true := by
  unfold Compiler.layout
  split <;> simp [Instruction.isLeaf]

theorem leaves_openTag {indent : String} {head : TagHead} {line : Nat}
    {is : List Instruction} (h : c.openTag indent head line = .ok is) :
    ∀ i ∈ is, i.isLeaf = true := by
  obtain ⟨attrs, ha, h⟩ := bind_eq_ok.1 h
  obtain ⟨classes, hc, h⟩ := bind_eq_ok.1 h
  obtain rfl := Except.ok.inj h
  rw [List.append_assoc, List.append_assoc]
  refine leaves_append ?_ ?_
  · split
    · simp
    · exact leaves_layout indent
  · rw [List.cons_append, ← List.append_assoc]
    exact leaves_between (leaves_append (leaves_attrs ha) (leaves_classes hc)) _ _

theorem leaves_closeTag (indent : String) (head : TagHead) (hasBody : Bool) :
    ∀ i ∈ c.closeTag indent head hasBody, i.isLeaf = true := by
  unfold Compiler.closeTag
  refine leaves_append ?_ (by simp [Instruction.isLeaf])
  split
  · simp
  · exact leaves_layout indent

theorem leaves_tagText {head : TagHead} {line : Nat} {is : List Instruction}
    (h : tagText head line = .ok is) : ∀ i ∈ is, i.isLeaf = true := by
  unfold tagText at h
  split at h
  · exact leaves_interpolate h
  · obtain rfl := Except.ok.inj h
    simp

end Compiler

/-! ## Instructions -/

def Instruction.overridden : Instruction → List String
  | .extension _ _ overrides _ _ => overrides.map (·.block)
  | _ => []

namespace Compiler

variable {c : Compiler} {rs : List String}

structure Emits (c : Compiler) (rs : List String) (i : Instruction) : Prop where
  complete : ∀ body ∈ i.bodies, ∃ is, body = coalesce is
  embedded : ∀ p, i.module? = some p →
    ∃ reference ∈ rs, ∃ line indent e, c.embed reference line indent = .ok e ∧ e.program = p
  listed : ∀ p, i.module? = some p → ∀ name ∈ i.overridden, name ∈ p.blocks

theorem emits_of_isLeaf (i : Instruction) (h : i.isLeaf = true) : c.Emits rs i := by
  cases i with
  | text s => exact ⟨nofun, nofun, nofun⟩
  | output e format line => exact ⟨nofun, nofun, nofun⟩
  | attr name e escape line => exact ⟨nofun, nofun, nofun⟩
  | _ => cases h

def EmitsAll (c : Compiler) (rs : List String) (is : List Instruction) : Prop :=
  AllOwn (c.Emits rs) is

structure EmitsBody (c : Compiler) (rs : List String) (body : List Instruction) : Prop where
  complete : ∃ is, body = coalesce is
  all : c.EmitsAll rs body

theorem EmitsAll.append {is js : List Instruction} (hi : c.EmitsAll rs is) (hj : c.EmitsAll rs js) :
    c.EmitsAll rs (is ++ js) :=
  AllOwn.append hi hj

theorem emitsAll_leaves {is : List Instruction} (h : ∀ i ∈ is, i.isLeaf = true) :
    c.EmitsAll rs is :=
  allOwn_leaves emits_of_isLeaf h

theorem EmitsAll.coalesce {is : List Instruction} (h : c.EmitsAll rs is) :
    c.EmitsAll rs (coalesce is) :=
  AllOwn.coalesce emits_of_isLeaf h

theorem EmitsAll.body {is : List Instruction} (h : c.EmitsAll rs is) :
    c.EmitsBody rs (Stencil.coalesce is) :=
  ⟨⟨is, rfl⟩, h.coalesce⟩

theorem emitsAll_singleton {i : Instruction}
    (hm : ∀ p, i.module? = some p →
      ∃ reference ∈ rs, ∃ line indent e, c.embed reference line indent = .ok e ∧ e.program = p)
    (hl : ∀ p, i.module? = some p → ∀ name ∈ i.overridden, name ∈ p.blocks)
    (hb : ∀ body ∈ i.bodies, c.EmitsBody rs body) : c.EmitsAll rs [i] :=
  allOwn_singleton ⟨fun body hbody => (hb body hbody).complete, hm, hl⟩
    fun body hbody => (hb body hbody).all

def EmitsOverrides (c : Compiler) (rs : List String) (p : Program)
    (os : List (Override (List Instruction))) : Prop :=
  ∀ o ∈ os, o.block ∈ p.blocks ∧ ∀ body ∈ o.bodies, c.EmitsBody rs body

theorem emitsBody_joined {body : List Instruction} (hb : c.EmitsAll rs body)
    (old : Option (List Instruction)) (ho : ∀ b ∈ old.toList, c.EmitsBody rs b) :
    c.EmitsBody rs (Stencil.coalesce (old.getD [] ++ body)) := by
  cases old with
  | none => exact hb.body
  | some is => exact ((ho is (by simp)).all.append hb).body

theorem emitsOverrides_addOverride {p : Program} {position : Position} {block : String}
    {body : List Instruction} (hblock : block ∈ p.blocks) (hb : c.EmitsAll rs body)
    {os : List (Override (List Instruction))} (ho : c.EmitsOverrides rs p os) :
    c.EmitsOverrides rs p (addOverride position block body os) := by
  refine forall_addOverride ho ⟨?_, forall_bodies_add nofun (emitsBody_joined hb) position⟩ ?_
  · cases position <;> exact hblock
  · intro o ho
    refine ⟨?_, forall_bodies_add ho.2 (emitsBody_joined hb) position⟩
    cases position <;> exact ho.1

mutual
theorem emitsAll_node {indent : String} : {n : Node} → {is : List Instruction} →
    n.references ⊆ rs → c.node indent n = .ok is → c.EmitsAll rs is
  | .doctype _ _, is, _, h => by
    rw [node] at h
    obtain rfl := Except.ok.inj h
    exact emitsAll_leaves (by simp [Instruction.isLeaf])
  | .tag mark head body, is, hr, h => by
    rw [node] at h
    obtain ⟨start, hs, h⟩ := bind_eq_ok.1 h
    split at h
    · obtain rfl := Except.ok.inj h
      exact emitsAll_leaves (leaves_openTag hs)
    · obtain ⟨text, ht, h⟩ := bind_eq_ok.1 h
      obtain ⟨content, hb, h⟩ := bind_eq_ok.1 h
      obtain rfl := Except.ok.inj h
      have hstart := leaves_append (leaves_openTag hs) (leaves_tagText ht)
      exact ((emitsAll_leaves hstart).append (emitsAll_nodes hr hb)).append
        (emitsAll_leaves (leaves_closeTag indent head _))
  | .text mark text, is, _, h => by
    rw [node] at h
    exact emitsAll_leaves (leaves_interpolate h)
  | .comment _ _ true, is, _, h => by
    rw [node] at h
    obtain rfl := Except.ok.inj h
    exact emitsAll_leaves (leaves_append (leaves_layout indent) (by simp [Instruction.isLeaf]))
  | .comment _ _ false, is, _, h => by
    rw [node] at h
    obtain rfl := Except.ok.inj h
    exact emitsAll_leaves nofun
  | .block _ name body, is, hr, h => by
    rw [node] at h
    obtain ⟨content, hb, h⟩ := bind_eq_ok.1 h
    obtain rfl := Except.ok.inj h
    refine emitsAll_singleton nofun nofun ?_
    simpa [Instruction.bodies] using (emitsAll_nodes hr hb).body
  | .extension mark reference options replaces, is, hr, h => by
    obtain ⟨href, hrs⟩ := List.cons_subset.1 hr
    rw [node] at h
    obtain ⟨e, he, h⟩ := bind_eq_ok.1 h
    obtain ⟨overrides, hos, h⟩ := bind_eq_ok.1 h
    obtain ⟨os, -, h⟩ := bind_eq_ok.1 h
    obtain rfl := Except.ok.inj h
    have hall := emitsOverrides_replacements hrs hos nofun
    refine emitsAll_singleton ?_ ?_ ?_
    · intro p hp
      obtain rfl := Option.some.inj hp
      exact ⟨reference, href, mark.line, indent, e, he, rfl⟩
    · intro p hp name hname
      obtain rfl := Option.some.inj hp
      obtain ⟨o, ho, rfl⟩ := List.mem_map.1 hname
      exact (hall o ho).1
    · intro body hbody
      obtain ⟨o, ho, hbody⟩ := List.mem_flatMap.1 hbody
      exact (hall o ho).2 body hbody
  | .inclusion mark reference options, is, hr, h => by
    rw [node] at h
    obtain ⟨e, he, h⟩ := bind_eq_ok.1 h
    obtain ⟨os, -, h⟩ := bind_eq_ok.1 h
    obtain rfl := Except.ok.inj h
    refine emitsAll_singleton ?_ nofun nofun
    intro p hp
    obtain rfl := Option.some.inj hp
    exact ⟨reference, hr (List.mem_singleton_self _), mark.line, indent, e, he, rfl⟩
  | .caseOf mark expr arms, is, hr, h => by
    rw [node] at h
    obtain ⟨as, ha, h⟩ := bind_eq_ok.1 h
    obtain rfl := Except.ok.inj h
    exact emitsAll_singleton nofun nofun (emitsBody_arms hr ha)
  | .ifElse _ branches otherwise, is, hr, h => by
    obtain ⟨hbs, hos⟩ := List.append_subset.1 hr
    rw [node] at h
    obtain ⟨bs, hb, h⟩ := bind_eq_ok.1 h
    obtain ⟨o, ho, h⟩ := bind_eq_ok.1 h
    obtain rfl := Except.ok.inj h
    refine emitsAll_singleton nofun nofun ?_
    intro body hbody
    rcases List.mem_append.1 hbody with hbody | hbody
    · exact emitsBody_guarded hbs hb body hbody
    · exact emitsBody_alternative hos ho body hbody
  | .whileTrue mark expr body, is, hr, h => by
    rw [node] at h
    obtain ⟨content, hb, h⟩ := bind_eq_ok.1 h
    obtain rfl := Except.ok.inj h
    refine emitsAll_singleton nofun nofun ?_
    simpa [Instruction.bodies] using (emitsAll_nodes hr hb).body
  | .each mark value key expr body, is, hr, h => by
    rw [node] at h
    obtain ⟨content, hb, h⟩ := bind_eq_ok.1 h
    obtain rfl := Except.ok.inj h
    refine emitsAll_singleton nofun nofun ?_
    simpa [Instruction.bodies] using (emitsAll_nodes hr hb).body
theorem emitsAll_nodes {indent : String} : {ns : List Node} → {is : List Instruction} →
    referencesOf ns ⊆ rs → c.nodes indent ns = .ok is → c.EmitsAll rs is
  | [], is, _, h => by
    rw [nodes] at h
    obtain rfl := Except.ok.inj h
    exact nofun
  | n :: ns, is, hr, h => by
    obtain ⟨href, hrs⟩ := List.append_subset.1 hr
    rw [nodes] at h
    obtain ⟨first, hn, h⟩ := bind_eq_ok.1 h
    obtain ⟨rest, hns, h⟩ := bind_eq_ok.1 h
    obtain rfl := Except.ok.inj h
    exact (emitsAll_node href hn).append (emitsAll_nodes hrs hns)
theorem emitsBody_arms {indent : String} : {as : List (Arm (List Node))} →
    {cs : List (CaseArm (List Instruction))} → referencesOfArms as ⊆ rs →
    c.caseArms indent as = .ok cs →
    ∀ body ∈ cs.map (·.body), c.EmitsBody rs body
  | [], cs, _, h => by
    rw [caseArms] at h
    obtain rfl := Except.ok.inj h
    exact nofun
  | ⟨_, _, body⟩ :: as, cs, hr, h => by
    obtain ⟨href, hrs⟩ := List.append_subset.1 hr
    rw [caseArms] at h
    obtain ⟨content, hb, h⟩ := bind_eq_ok.1 h
    obtain ⟨rest, hrest, h⟩ := bind_eq_ok.1 h
    obtain rfl := Except.ok.inj h
    rw [List.map_cons, List.forall_mem_cons]
    exact ⟨(emitsAll_nodes href hb).body, emitsBody_arms hrs hrest⟩
theorem emitsBody_guarded {indent : String} : {bs : List (Branch (List Node))} →
    {gs : List (Guarded (List Instruction))} → referencesOfBranches bs ⊆ rs →
    c.guarded indent bs = .ok gs →
    ∀ body ∈ gs.map (·.body), c.EmitsBody rs body
  | [], gs, _, h => by
    rw [guarded] at h
    obtain rfl := Except.ok.inj h
    exact nofun
  | ⟨_, _, body⟩ :: bs, gs, hr, h => by
    obtain ⟨href, hrs⟩ := List.append_subset.1 hr
    rw [guarded] at h
    obtain ⟨content, hb, h⟩ := bind_eq_ok.1 h
    obtain ⟨rest, hrest, h⟩ := bind_eq_ok.1 h
    obtain rfl := Except.ok.inj h
    rw [List.map_cons, List.forall_mem_cons]
    exact ⟨(emitsAll_nodes href hb).body, emitsBody_guarded hrs hrest⟩
theorem emitsBody_alternative {indent : String} : {o : Option (List Node)} →
    {is : Option (List Instruction)} → referencesOfOtherwise o ⊆ rs →
    c.alternative indent o = .ok is →
    ∀ body ∈ is.toList, c.EmitsBody rs body
  | none, is, _, h => by
    rw [alternative] at h
    obtain rfl := Except.ok.inj h
    exact nofun
  | some body, is, hr, h => by
    rw [alternative] at h
    obtain ⟨content, hb, h⟩ := bind_eq_ok.1 h
    obtain rfl := Except.ok.inj h
    simpa using (emitsAll_nodes hr hb).body
theorem emitsOverrides_replacements {indent : String} {e : Embedded} :
    {qs : List (Replace (List Node))} → {done os : List (Override (List Instruction))} →
    referencesOfReplaces qs ⊆ rs → c.replacements indent e done qs = .ok os →
    c.EmitsOverrides rs e.program done → c.EmitsOverrides rs e.program os
  | [], done, os, _, h, hd => by
    rw [replacements] at h
    obtain rfl := Except.ok.inj h
    exact hd
  | ⟨position, block, _, body⟩ :: qs, done, os, hr, h, hd => by
    obtain ⟨href, hrs⟩ := List.append_subset.1 hr
    rw [replacements] at h
    split at h
    · next hblock =>
      obtain ⟨content, hb, h⟩ := bind_eq_ok.1 h
      exact emitsOverrides_replacements hrs h
        (emitsOverrides_addOverride (List.contains_iff_mem.1 hblock)
          (emitsAll_nodes href hb).coalesce hd)
    · cases h
end

end Compiler

end Stencil
