import Stencil.Proofs.Compile.Blocks
import Stencil.Proofs.Compile.Coalesced

/-! # Where the instructions of a node are

The instructions of every node that is kept stand together in one list of the program, before the
texts of that list are joined. -/

namespace Stencil

open Template

inductive Within (js : List Instruction) : List Instruction → Prop where
  | here (before after : List Instruction) : Within js (before ++ js ++ after)
  | inside {is content : List Instruction} {i : Instruction} (hi : i ∈ is)
      (hb : coalesce content ∈ i.bodies) (h : Within js content) : Within js is

namespace Within

variable {is js : List Instruction}

theorem refl (js : List Instruction) : Within js js := by
  have h : Within js ([] ++ js ++ []) := here [] []
  rw [List.nil_append, List.append_nil] at h
  exact h

theorem append_left (ks : List Instruction) (h : Within js is) : Within js (ks ++ is) := by
  cases h with
  | here before after =>
    have h : Within js (ks ++ before ++ js ++ after) := here (ks ++ before) after
    simpa only [List.append_assoc] using h
  | inside hi hb h => exact inside (List.mem_append_right _ hi) hb h

theorem append_right (ks : List Instruction) (h : Within js is) : Within js (is ++ ks) := by
  cases h with
  | here before after =>
    have h : Within js (before ++ js ++ (after ++ ks)) := here before (after ++ ks)
    simpa only [List.append_assoc] using h
  | inside hi hb h => exact inside (List.mem_append_left _ hi) hb h

theorem front {ks : List Instruction} (h : Within (js ++ ks) is) : Within js is := by
  induction h with
  | here before after =>
    have h : Within js (before ++ js ++ (ks ++ after)) := here before (ks ++ after)
    simpa only [List.append_assoc] using h
  | inside hi hb _ ih => exact inside hi hb ih

end Within

namespace Compiler

variable {c : Compiler} {n : Node}

def Places (c : Compiler) (n : Node) (is : List Instruction) : Prop :=
  ∃ indent js, c.node indent n = .ok js ∧ Within js is

theorem Places.append_left {is : List Instruction} (ks : List Instruction) (h : c.Places n is) :
    c.Places n (ks ++ is) := by
  obtain ⟨indent, js, hn, h⟩ := h
  exact ⟨indent, js, hn, h.append_left ks⟩

theorem Places.append_right {is : List Instruction} (ks : List Instruction) (h : c.Places n is) :
    c.Places n (is ++ ks) := by
  obtain ⟨indent, js, hn, h⟩ := h
  exact ⟨indent, js, hn, h.append_right ks⟩

def PlacesIn (c : Compiler) (n : Node) (bodies : List (List Instruction)) : Prop :=
  ∃ content, coalesce content ∈ bodies ∧ c.Places n content

theorem Places.body {is : List Instruction} (h : c.Places n is) : c.PlacesIn n [coalesce is] :=
  ⟨is, List.mem_singleton_self _, h⟩

theorem PlacesIn.mono {bs cs : List (List Instruction)} (h : c.PlacesIn n bs)
    (hsub : ∀ b ∈ bs, b ∈ cs) : c.PlacesIn n cs := by
  obtain ⟨content, hb, h⟩ := h
  exact ⟨content, hsub _ hb, h⟩

theorem PlacesIn.singleton {i : Instruction} (h : c.PlacesIn n i.bodies) : c.Places n [i] := by
  obtain ⟨content, hb, indent, js, hn, h⟩ := h
  exact ⟨indent, js, hn, .inside (List.mem_singleton_self i) hb h⟩

/-! ## Content for blocks -/

theorem placesIn_joined {old : Option (List Instruction)} (body : List Instruction)
    (h : c.PlacesIn n old.toList) :
    c.PlacesIn n (some (coalesce (old.getD [] ++ coalesce body))).toList := by
  obtain ⟨content, hb, h⟩ := h
  rw [Option.mem_toList] at hb
  refine ⟨content ++ body, ?_, h.append_right body⟩
  rw [hb, Option.getD_some, coalesce_coalesce_append, coalesce_append_coalesce]
  simp

theorem placesIn_joined_new (old : Option (List Instruction)) {body : List Instruction}
    (h : c.Places n body) :
    c.PlacesIn n (some (coalesce (old.getD [] ++ coalesce body))).toList := by
  refine ⟨old.getD [] ++ body, ?_, h.append_left _⟩
  rw [coalesce_append_coalesce]
  simp

theorem placesIn_bodies {o : Override (List Instruction)} :
    c.PlacesIn n o.bodies ↔ c.PlacesIn n o.before.toList ∨ c.PlacesIn n o.replace.toList ∨
      c.PlacesIn n o.after.toList := by
  simp only [PlacesIn, Override.bodies, List.mem_append, or_and_right, exists_or, or_assoc]

theorem placesIn_add {o : Override (List Instruction)} (position : Position)
    (body : List Instruction) (h : c.PlacesIn n o.bodies) :
    c.PlacesIn n (o.add position (coalesce body)).bodies := by
  rw [placesIn_bodies] at h ⊢
  cases position with
  | before => exact h.imp_left (placesIn_joined body)
  | replace => exact h.imp_right (.imp_left (placesIn_joined body))
  | after => exact h.imp_right (.imp_right (placesIn_joined body))

theorem placesIn_add_new (o : Override (List Instruction)) (position : Position)
    {body : List Instruction} (h : c.Places n body) :
    c.PlacesIn n (o.add position (coalesce body)).bodies := by
  rw [placesIn_bodies]
  cases position with
  | before => exact .inl (placesIn_joined_new _ h)
  | replace => exact .inr (.inl (placesIn_joined_new _ h))
  | after => exact .inr (.inr (placesIn_joined_new _ h))

theorem placesIn_cons {o : Override (List Instruction)} {os : List (Override (List Instruction))} :
    c.PlacesIn n ((o :: os).flatMap Override.bodies) ↔
      c.PlacesIn n o.bodies ∨ c.PlacesIn n (os.flatMap Override.bodies) := by
  simp only [PlacesIn, List.flatMap_cons, List.mem_append, or_and_right, exists_or]

/-- More content leaves what was there. -/
theorem placesIn_addOverride (position : Position) (block : String) (body : List Instruction)
    {os : List (Override (List Instruction))} (h : c.PlacesIn n (os.flatMap Override.bodies)) :
    c.PlacesIn n ((addOverride position block (coalesce body) os).flatMap Override.bodies) := by
  induction os with
  | nil =>
    obtain ⟨content, hb, -⟩ := h
    cases hb
  | cons o os ih =>
    rw [placesIn_cons] at h
    rw [addOverride]
    split
    · rw [placesIn_cons]
      exact h.imp_left (placesIn_add position body)
    · rw [placesIn_cons]
      exact h.imp_right ih

theorem placesIn_addOverride_new (position : Position) (block : String) {body : List Instruction}
    (h : c.Places n body) (os : List (Override (List Instruction))) :
    c.PlacesIn n ((addOverride position block (coalesce body) os).flatMap Override.bodies) := by
  induction os with
  | nil =>
    rw [addOverride, List.flatMap_singleton]
    exact placesIn_add_new _ position h
  | cons o os ih =>
    rw [addOverride]
    split
    · exact placesIn_cons.2 (.inl (placesIn_add_new o position h))
    · exact placesIn_cons.2 (.inr ih)

/-! ## Nodes -/

mutual
theorem places_below {indent : String} : {m : Node} → {is : List Instruction} →
    c.node indent m = .ok is → n ∈ m.keptBelow → c.Places n is
  | .doctype _ _, is, h, hn => by cases hn
  | .tag mark head body, is, h, hn => by
    rw [node] at h
    rw [Node.keptBelow] at hn
    obtain ⟨start, hs, h⟩ := bind_eq_ok.1 h
    split at h
    · next hc =>
      rw [if_pos hc] at hn
      cases hn
    · next hc =>
      rw [if_neg hc] at hn
      obtain ⟨text, ht, h⟩ := bind_eq_ok.1 h
      obtain ⟨content, hb, h⟩ := bind_eq_ok.1 h
      obtain rfl := Except.ok.inj h
      exact ((places_nodes hb hn).append_left _).append_right _
  | .text _ _, is, h, hn => by cases hn
  | .comment _ _ _, is, h, hn => by cases hn
  | .block _ name body, is, h, hn => by
    rw [node] at h
    obtain ⟨content, hb, h⟩ := bind_eq_ok.1 h
    obtain rfl := Except.ok.inj h
    exact PlacesIn.singleton (places_nodes hb hn).body
  | .extension mark reference options replaces, is, h, hn => by
    rw [node] at h
    obtain ⟨e, he, h⟩ := bind_eq_ok.1 h
    obtain ⟨overrides, hr, h⟩ := bind_eq_ok.1 h
    obtain ⟨os, -, h⟩ := bind_eq_ok.1 h
    obtain rfl := Except.ok.inj h
    exact PlacesIn.singleton (placesIn_replacements hr (.inr hn))
  | .inclusion _ _ _, is, h, hn => by cases hn
  | .caseOf mark expr arms, is, h, hn => by
    rw [node] at h
    obtain ⟨as, ha, h⟩ := bind_eq_ok.1 h
    obtain rfl := Except.ok.inj h
    exact PlacesIn.singleton (placesIn_arms ha hn)
  | .ifElse _ branches otherwise, is, h, hn => by
    rw [node] at h
    obtain ⟨bs, hb, h⟩ := bind_eq_ok.1 h
    obtain ⟨o, ho, h⟩ := bind_eq_ok.1 h
    obtain rfl := Except.ok.inj h
    refine PlacesIn.singleton ?_
    rcases List.mem_append.1 hn with hn | hn
    · exact (placesIn_guarded hb hn).mono fun b hb => List.mem_append_left _ hb
    · exact (placesIn_alternative ho hn).mono fun b hb => List.mem_append_right _ hb
  | .whileTrue mark expr body, is, h, hn => by
    rw [node] at h
    obtain ⟨content, hb, h⟩ := bind_eq_ok.1 h
    obtain rfl := Except.ok.inj h
    exact PlacesIn.singleton (places_nodes hb hn).body
  | .each mark value key expr body, is, h, hn => by
    rw [node] at h
    obtain ⟨content, hb, h⟩ := bind_eq_ok.1 h
    obtain rfl := Except.ok.inj h
    exact PlacesIn.singleton (places_nodes hb hn).body
theorem places_nodes {indent : String} : {ms : List Node} → {is : List Instruction} →
    c.nodes indent ms = .ok is → n ∈ keptOf ms → c.Places n is
  | [], is, h, hn => by cases hn
  | m :: ms, is, h, hn => by
    rw [nodes] at h
    obtain ⟨first, hm, h⟩ := bind_eq_ok.1 h
    obtain ⟨rest, hr, h⟩ := bind_eq_ok.1 h
    obtain rfl := Except.ok.inj h
    rw [keptOf, List.cons_append, List.mem_cons, List.mem_append] at hn
    rcases hn with rfl | hn | hn
    · exact Places.append_right _ ⟨indent, first, hm, .refl first⟩
    · exact (places_below hm hn).append_right _
    · exact (places_nodes hr hn).append_left _
theorem placesIn_arms {indent : String} : {as : List (Arm (List Node))} →
    {cs : List (CaseArm (List Instruction))} → c.caseArms indent as = .ok cs →
    n ∈ keptOfArms as → c.PlacesIn n (cs.map (·.body))
  | [], cs, h, hn => by cases hn
  | ⟨_, _, body⟩ :: as, cs, h, hn => by
    rw [caseArms] at h
    obtain ⟨content, hb, h⟩ := bind_eq_ok.1 h
    obtain ⟨rest, hr, h⟩ := bind_eq_ok.1 h
    obtain rfl := Except.ok.inj h
    rcases List.mem_append.1 hn with hn | hn
    · exact ⟨content, List.mem_cons_self .., places_nodes hb hn⟩
    · exact (placesIn_arms hr hn).mono fun b hb => List.mem_cons_of_mem _ hb
theorem placesIn_guarded {indent : String} : {bs : List (Branch (List Node))} →
    {gs : List (Guarded (List Instruction))} → c.guarded indent bs = .ok gs →
    n ∈ keptOfBranches bs → c.PlacesIn n (gs.map (·.body))
  | [], gs, h, hn => by cases hn
  | ⟨_, _, body⟩ :: bs, gs, h, hn => by
    rw [guarded] at h
    obtain ⟨content, hb, h⟩ := bind_eq_ok.1 h
    obtain ⟨rest, hr, h⟩ := bind_eq_ok.1 h
    obtain rfl := Except.ok.inj h
    rcases List.mem_append.1 hn with hn | hn
    · exact ⟨content, List.mem_cons_self .., places_nodes hb hn⟩
    · exact (placesIn_guarded hr hn).mono fun b hb => List.mem_cons_of_mem _ hb
theorem placesIn_alternative {indent : String} : {o : Option (List Node)} →
    {is : Option (List Instruction)} → c.alternative indent o = .ok is →
    n ∈ keptOfOtherwise o → c.PlacesIn n is.toList
  | none, is, h, hn => by cases hn
  | some body, is, h, hn => by
    rw [alternative] at h
    obtain ⟨content, hb, h⟩ := bind_eq_ok.1 h
    obtain rfl := Except.ok.inj h
    exact (places_nodes hb hn).body
/-- What is there for the blocks so far stays, and the rest is added. -/
theorem placesIn_replacements {indent : String} {e : Embedded} :
    {rs : List (Replace (List Node))} → {done os : List (Override (List Instruction))} →
    c.replacements indent e done rs = .ok os →
    c.PlacesIn n (done.flatMap Override.bodies) ∨ n ∈ keptOfReplaces rs →
    c.PlacesIn n (os.flatMap Override.bodies)
  | [], done, os, h, hn => by
    rw [replacements] at h
    obtain rfl := Except.ok.inj h
    exact hn.resolve_right nofun
  | ⟨position, block, _, body⟩ :: rs, done, os, h, hn => by
    rw [replacements] at h
    rw [keptOfReplaces, List.mem_append] at hn
    split at h
    · obtain ⟨content, hb, h⟩ := bind_eq_ok.1 h
      refine placesIn_replacements h ?_
      rcases hn with hn | hn | hn
      · exact .inl (placesIn_addOverride position block content hn)
      · exact .inl (placesIn_addOverride_new position block (places_nodes hb hn) done)
      · exact .inr hn
    · cases h
end

end Compiler

end Stencil
