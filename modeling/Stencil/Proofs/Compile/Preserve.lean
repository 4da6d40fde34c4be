import Stencil.Proofs.Compile.Markup

/-! # Compilation preserves meaning

Running the program of a document shows what the document itself shows, and fails with the same
error where that fails. What an extension has for the blocks of a module was regrouped by block and
place when it was compiled; `heldShown` says what is found again for each of them. The two ways to
fill blocks are related through `Fills`. -/

namespace Stencil

open Template

/-! ## Overrides -/

def Override.at {α : Type} (o : Override α) : Position → Option α
  | .before => o.before
  | .replace => o.replace
  | .after => o.after

def held (os : List (Override (List Instruction))) (position : Position) (block : String) :
    Option (List Instruction) :=
  (os.find? fun o => o.block == block).bind (·.at position)

theorem Override.block_add (o : Override (List Instruction)) (p : Position)
    (body : List Instruction) : (o.add p body).block = o.block := by
  cases p <;> rfl

theorem Override.at_add (o : Override (List Instruction)) (p q : Position)
    (body : List Instruction) :
    (o.add p body).at q = if p = q then some (coalesce ((o.at p).getD [] ++ body)) else o.at q := by
  cases p <;> cases q <;> rfl

theorem find?_addOverride (p : Position) (b n : String) (body : List Instruction)
    (os : List (Override (List Instruction))) :
    (addOverride p b body os).find? (fun o => o.block == n) =
      if b = n then
        some (((os.find? fun o => o.block == n).getD ⟨b, none, none, none⟩).add p body)
      else os.find? fun o => o.block == n := by
  induction os with
  | nil =>
    rw [addOverride, List.find?_cons, Override.block_add]
    by_cases hb : b = n
    · simp [hb]
    · simp [hb, beq_false_of_ne hb]
  | cons o os ih =>
    rw [addOverride]
    by_cases ho : o.block = b
    · rw [if_pos (beq_iff_eq.2 ho), List.find?_cons, List.find?_cons, Override.block_add, ho]
      by_cases hb : b = n
      · simp [hb]
      · simp [hb, beq_false_of_ne hb]
    · rw [if_neg (by simpa using ho), List.find?_cons, ih, List.find?_cons]
      by_cases hn : o.block = n
      · have hb : ¬ b = n := fun e => ho (hn.trans e.symm)
        simp [hn, hb]
      · simp only [beq_false_of_ne hn]

theorem held_addOverride (p q : Position) (b n : String) (body : List Instruction)
    (os : List (Override (List Instruction))) :
    held (addOverride p b body os) q n =
      if p = q ∧ b = n then some (coalesce ((held os q n).getD [] ++ body)) else held os q n := by
  unfold held
  rw [find?_addOverride]
  by_cases hb : b = n
  · rw [if_pos hb, Option.bind_some, Override.at_add]
    cases os.find? fun o => o.block == n with
    | none => by_cases hp : p = q <;> cases q <;> simp [hp, hb, Override.at]
    | some o => by_cases hp : p = q <;> simp [hp, hb]
  · rw [if_neg hb, if_neg fun h => hb h.2]

theorem nodup_addOverride {p : Position} {b : String} {body : List Instruction}
    {os : List (Override (List Instruction))} (h : (os.map (·.block)).Nodup) :
    ((addOverride p b body os).map (·.block)).Nodup := by
  have hmem : ∀ os : List (Override (List Instruction)), ∀ n ∈ (addOverride p b body os).map
      (·.block), n = b ∨ n ∈ os.map (·.block) := by
    intro os n hn
    induction os with
    | nil => simpa [addOverride, Override.block_add] using hn
    | cons o os ih =>
      rw [addOverride] at hn
      split at hn
      · rw [List.map_cons, Override.block_add] at hn
        exact .inr hn
      · rw [List.map_cons, List.mem_cons] at hn
        rcases hn with rfl | hn
        · exact .inr (List.mem_cons_self ..)
        · exact (ih hn).imp_right (List.mem_cons_of_mem _)
  induction os with
  | nil => simp [addOverride]
  | cons o os ih =>
    rw [List.map_cons, List.nodup_cons] at h
    rw [addOverride]
    split
    · rw [List.map_cons, Override.block_add, List.nodup_cons]
      exact h
    · next ho =>
      rw [List.map_cons, List.nodup_cons]
      refine ⟨fun hn => ?_, ih h.2⟩
      rcases hmem os _ hn with e | hn
      · exact ho (beq_iff_eq.2 e)
      · exact h.1 hn

section
variable (root : Binding) (limit : Nat) (f : Frame)

def heldShown (os : List (Override (List Instruction))) (position : Position) (block : String) :
    Shown :=
  match held os position block with
  | none => .nothing
  | some body => (runAll root limit f body).shown

theorem heldShown_addOverride (p q : Position) (b n : String) (body : List Instruction)
    (os : List (Override (List Instruction))) :
    heldShown root limit f (addOverride p b body os) q n =
      if p = q ∧ b = n then
        .andThen (heldShown root limit f os q n) (runAll root limit f body).shown
      else heldShown root limit f os q n := by
  unfold heldShown
  rw [held_addOverride]
  by_cases h : p = q ∧ b = n
  · rw [if_pos h, if_pos h]
    simp only [shown_runAll_coalesce, shown_runAll_append]
    cases held os q n with
    | none => rfl
    | some old => rfl
  · rw [if_neg h, if_neg h]

/-- With one override for each block it does not matter that the later one counts. -/
theorem slotFor_eq {name : String} {os : List (Override (List Instruction))}
    (h : (os.map (·.block)).Nodup) :
    slotFor root limit f name os = (os.find? fun o => o.block == name).map fun o =>
      ⟨content root limit f o.before, content root limit f o.replace,
        content root limit f o.after⟩ := by
  induction os with
  | nil => rfl
  | cons o os ih =>
    rw [List.map_cons, List.nodup_cons] at h
    rw [slotFor, ih h.2, List.find?_cons]
    by_cases hn : o.block = name
    · have hnone : os.find? (fun o => o.block == name) = none := by
        rw [List.find?_eq_none]
        intro o' ho' e
        exact h.1 (hn ▸ beq_iff_eq.1 e ▸ List.mem_map_of_mem ho')
      simp [hn, hnone]
    · simp [beq_false_of_ne hn]

theorem shown_run_content (body : Option (List Instruction)) :
    (Slot.run (content root limit f body)).shown = match body with
      | none => Shown.nothing
      | some body => (runAll root limit f body).shown := by
  cases body <;> rfl

theorem shown_fill (own : Unit → Rendering) (slot : Slot) :
    (Slot.fill own (some slot)).shown = Shown.inOrder [(Slot.run slot.before).shown,
      (slot.replace.getD own ()).shown, (Slot.run slot.after).shown] := by
  rw [Slot.fill]
  generalize Slot.run slot.before = x
  generalize slot.replace.getD own () = y
  generalize Slot.run slot.after = z
  rw [Shown.inOrder, Shown.inOrder, Shown.inOrder_singleton, ← Rendering.shown_append,
    ← Rendering.shown_append]
  cases x with
  | error e => rfl
  | ok a => cases y with
    | error e => rfl
    | ok b => cases z with
      | error e => rfl
      | ok c => exact congrArg Rendering.shown (congrArg Except.ok (Rendered.append_assoc a b c))

theorem shown_fill_slotFor {name : String} {os : List (Override (List Instruction))}
    (h : (os.map (·.block)).Nodup) (own : Unit → Rendering) :
    (Slot.fill own (slotFor root limit f name os)).shown = Shown.inOrder
      [heldShown root limit f os .before name,
        if (held os .replace name).isSome then heldShown root limit f os .replace name
        else (own ()).shown,
        heldShown root limit f os .after name] := by
  rw [slotFor_eq root limit f h]
  unfold heldShown held
  cases os.find? fun o => o.block == name with
  | none => simp [Slot.fill, Shown.inOrder, Shown.nothing_andThen, Shown.andThen_nothing]
  | some o =>
    rw [Option.map_some, shown_fill, shown_run_content, shown_run_content]
    simp only [Option.bind_some, Override.at]
    obtain ⟨block, before, replace, after⟩ := o
    cases replace with
    | none => rfl
    | some body => rfl

end

/-! ## Nodes -/

def Fills (slots : String → Option Slot) (fill : Fill) : Prop :=
  ∀ name own, (Slot.fill own (slots name)).shown = fill name (own ()).shown

theorem fills_noSlots : Fills noSlots Fill.own :=
  fun _ _ => rfl

structure Embedded.Shows (limit : Nat) (e : Embedded) (m : Module) : Prop where
  target : m.target = e.target
  shown : ∀ {slots fill}, Fills slots fill → ∀ input,
    (invoke rootScope limit slots input e.program).shown = m.shown fill input

def Compiler.Finds (c : Compiler) (limit : Nat) (find : String → Nat → String → Option Module)
    (references : List String) : Prop :=
  ∀ reference ∈ references, ∀ {line indent e}, c.embed reference line indent = .ok e →
    ∃ m, find reference line indent = some m ∧ e.Shows limit m

theorem Compiler.Finds.left {c : Compiler} {limit : Nat}
    {find : String → Nat → String → Option Module} {rs ss : List String}
    (h : c.Finds limit find (rs ++ ss)) : c.Finds limit find rs :=
  fun r hr => h r (List.mem_append_left _ hr)

theorem Compiler.Finds.right {c : Compiler} {limit : Nat}
    {find : String → Nat → String → Option Module} {rs ss : List String}
    (h : c.Finds limit find (rs ++ ss)) : c.Finds limit find ss :=
  fun r hr => h r (List.mem_append_right _ hr)

section
variable {limit : Nat} {c : Compiler} {find : String → Nat → String → Option Module}

theorem shown_use {f : Frame} {line : Nat} {as : List Attribute} {os : List OptionEntry}
    {kind : Use} {e : Embedded} {m : Module} {slots : String → Option Slot} {fill : Fill}
    (ho : c.optionList line as = .ok os) (hm : e.Shows limit m) (hs : Fills slots fill) :
    Rendering.shown (do
      let input ← f.input line os
      let r ← invoke rootScope limit slots input e.program
      return r ++ .record (c.dependency e.target kind) input) =
    (c.viewer limit find).use f.toSetting line as kind m fill := by
  rw [Rendering.shown_bind, input_eq limit f.toSetting c find ho, Viewer.use]
  congr 1
  funext input
  rw [← hm.shown hs input, hm.target]
  cases invoke rootScope limit slots input e.program with
  | error e => rfl
  | ok r =>
    refine congrArg Except.ok (Page.ext (html_append _ _) ?_)
    unfold Compiler.dependency Compiler.viewer
    cases c.options.dep <;> rfl

theorem held_replacements {indent : String} {e : Embedded}
    {done os : List (Override (List Instruction))} {rs : List (Replace (List Node))}
    (h : c.replacements indent e done rs = .ok os) (block : String) :
    (held os .replace block).isSome = ((held done .replace block).isSome ||
      rs.any fun r => r.position == .replace && r.block == block) := by
  induction rs generalizing done with
  | nil =>
    rw [Compiler.replacements] at h
    obtain rfl := Except.ok.inj h
    exact (Bool.or_false _).symm
  | cons r rs ih =>
    rw [Compiler.replacements] at h
    split at h
    · obtain ⟨body, hb, h⟩ := bind_eq_ok.1 h
      rw [ih h, held_addOverride]
      by_cases hr : r.position = .replace ∧ r.block = block
      · rw [if_pos hr]
        simp [hr]
      · have hr' : (r.position == .replace && r.block == block) = false := by simpa using hr
        rw [if_neg hr]
        simp [hr']
    · cases h

theorem nodup_replacements {indent : String} {e : Embedded}
    {done os : List (Override (List Instruction))} {rs : List (Replace (List Node))}
    (h : c.replacements indent e done rs = .ok os) (hd : (done.map (·.block)).Nodup) :
    (os.map (·.block)).Nodup := by
  induction rs generalizing done with
  | nil =>
    rw [Compiler.replacements] at h
    obtain rfl := Except.ok.inj h
    exact hd
  | cons r rs ih =>
    rw [Compiler.replacements] at h
    split at h
    · obtain ⟨body, hb, h⟩ := bind_eq_ok.1 h
      exact ih h (nodup_addOverride hd)
    · cases h

theorem written_cons (r : Replace Shown) (rs : List (Replace Shown)) (p : Position)
    (b : String) :
    written (r :: rs) p b =
      if r.position = p ∧ r.block = b then .andThen r.body (written rs p b)
      else written rs p b := by
  unfold written
  by_cases h : r.position = p ∧ r.block = b
  · rw [if_pos h, List.filter_cons_of_pos (by simpa using h), List.map_cons, Shown.inOrder]
  · rw [if_neg h, List.filter_cons_of_neg (by simpa using h)]

theorem isReplaced_shownReplaces (v : Viewer) (fill : Fill) (g : Setting) (indent block : String)
    (rs : List (Replace (List Node))) :
    isReplaced (v.shownReplaces fill g indent rs) block =
      rs.any fun r => r.position == .replace && r.block == block := by
  induction rs with
  | nil => rfl
  | cons r rs ih =>
    rw [Viewer.shownReplaces, isReplaced, List.any_cons, List.any_cons, ← ih]
    rfl

mutual
/-- The instructions of a node show what the node shows, wherever its blocks are filled alike. -/
theorem shown_node {fill : Fill} {f : Frame} (hf : Fills f.slots fill) {indent : String} :
    {n : Node} → {is : List Instruction} → c.Finds limit find n.references →
      c.node indent n = .ok is →
      (runAll rootScope limit f is).shown = (c.viewer limit find).node fill f.toSetting indent n
  | .doctype _ value, is, _, h => by
    rw [Compiler.node] at h
    obtain rfl := Except.ok.inj h
    rw [shown_runAll_singleton, shown_run_text, Viewer.node]
  | .tag mark head body, is, hm, h => by
    rw [Node.references] at hm
    rw [Compiler.node] at h
    obtain ⟨start, hs, h⟩ := bind_eq_ok.1 h
    rw [Viewer.node, ← shown_openTag rootScope limit f c find hs]
    split at h
    · next hc =>
      obtain rfl := Except.ok.inj h
      rw [if_pos hc, Shown.andThen_nothing]
    · next hc =>
      obtain ⟨text, ht, h⟩ := bind_eq_ok.1 h
      obtain ⟨content, hb, h⟩ := bind_eq_ok.1 h
      obtain rfl := Except.ok.inj h
      rw [if_neg hc, ← shown_tagText rootScope limit f ht, ← shown_nodes hf hm hb,
        ← shown_closeTag rootScope limit f c find]
      simp only [shown_runAll_append, Shown.inOrder, Shown.andThen_assoc, Shown.andThen_nothing]
  | .text mark text, is, _, h => by
    rw [Compiler.node] at h
    rw [shown_interpolate rootScope limit f h, Viewer.node]
  | .comment _ text true, is, _, h => by
    rw [Compiler.node] at h
    obtain rfl := Except.ok.inj h
    rw [shown_runAll_append, shown_layout rootScope limit f c find, shown_runAll_singleton,
      shown_run_text, Viewer.node]
  | .comment _ _ false, is, _, h => by
    rw [Compiler.node] at h
    obtain rfl := Except.ok.inj h
    rw [shown_runAll_nil, Viewer.node]
  | .block _ name body, is, hm, h => by
    rw [Node.references] at hm
    rw [Compiler.node] at h
    obtain ⟨content, hb, h⟩ := bind_eq_ok.1 h
    obtain rfl := Except.ok.inj h
    rw [shown_runAll_singleton, Instruction.run, hf, shown_runAll_coalesce, shown_nodes hf hm hb,
      Viewer.node]
  | .extension mark reference options replaces, is, hm, h => by
    rw [Node.references] at hm
    rw [Compiler.node] at h
    obtain ⟨e, he, h⟩ := bind_eq_ok.1 h
    obtain ⟨overrides, hr, h⟩ := bind_eq_ok.1 h
    obtain ⟨os, ho, h⟩ := bind_eq_ok.1 h
    obtain rfl := Except.ok.inj h
    obtain ⟨m, hfind, hs⟩ := hm reference (List.mem_cons_self ..) he
    rw [shown_runAll_singleton, Instruction.run, Viewer.node]
    simp only [Compiler.viewer, hfind]
    -- What was regrouped fills the blocks as the replaces do in their own order.
    refine shown_use ho hs fun name own => ?_
    have hn := nodup_replacements hr List.nodup_nil
    have hreplaced := held_replacements hr name
    have hwritten := fun p =>
      shown_replacements hf (fun r hr => hm r (List.mem_cons_of_mem _ hr)) hr p name
    have hnone : ∀ p, heldShown rootScope limit f [] p name = Shown.nothing := fun p => rfl
    rw [shown_fill_slotFor rootScope limit f hn own, hwritten, hwritten, hwritten, hreplaced,
      Fill.extended, isReplaced_shownReplaces]
    simp only [hnone, Shown.nothing_andThen]
    rfl
  | .inclusion mark reference options, is, hm, h => by
    rw [Node.references] at hm
    rw [Compiler.node] at h
    obtain ⟨e, he, h⟩ := bind_eq_ok.1 h
    obtain ⟨os, ho, h⟩ := bind_eq_ok.1 h
    obtain rfl := Except.ok.inj h
    obtain ⟨m, hfind, hs⟩ := hm reference (List.mem_cons_self ..) he
    rw [shown_runAll_singleton, Instruction.run, Viewer.node]
    simp only [Compiler.viewer, hfind]
    exact shown_use ho hs fills_noSlots
  | .caseOf mark expr arms, is, hm, h => by
    rw [Node.references] at hm
    rw [Compiler.node] at h
    obtain ⟨as, ha, h⟩ := bind_eq_ok.1 h
    obtain rfl := Except.ok.inj h
    rw [shown_runAll_singleton, Instruction.run, Rendering.shown_bind, Viewer.node]
    congr 1
    funext subject
    exact shown_arms hf hm ha (shown_default hf hm ha)
  | .ifElse _ branches otherwise, is, hm, h => by
    rw [Node.references] at hm
    rw [Compiler.node] at h
    obtain ⟨bs, hb, h⟩ := bind_eq_ok.1 h
    obtain ⟨o, ho, h⟩ := bind_eq_ok.1 h
    obtain rfl := Except.ok.inj h
    rw [shown_runAll_singleton, Instruction.run, Viewer.node]
    exact shown_branches hf hm.left hb (shown_alternative hf hm.right ho)
  | .whileTrue mark expr body, is, hm, h => by
    rw [Node.references] at hm
    rw [Compiler.node] at h
    obtain ⟨content, hb, h⟩ := bind_eq_ok.1 h
    obtain rfl := Except.ok.inj h
    rw [shown_runAll_singleton, Instruction.run, Rendering.shown_repeatWhile,
      shown_runAll_coalesce, shown_nodes hf hm hb, Viewer.node]
    rfl
  | .each mark value key expr body, is, hm, h => by
    rw [Node.references] at hm
    rw [Compiler.node] at h
    obtain ⟨content, hb, h⟩ := bind_eq_ok.1 h
    obtain rfl := Except.ok.inj h
    rw [shown_runAll_singleton, Instruction.run, Rendering.shown_bind, Viewer.node]
    congr 1
    funext list
    refine Rendering.shown_forEach _ _ (fun entry => ?_) list.entries
    have hbind : Fills (f.bind value key entry).slots fill := hf
    rw [shown_runAll_coalesce, shown_nodes hbind hm hb]
    rfl
theorem shown_nodes {fill : Fill} {f : Frame} (hf : Fills f.slots fill) {indent : String} :
    {ns : List Node} → {is : List Instruction} → c.Finds limit find (referencesOf ns) →
      c.nodes indent ns = .ok is →
      (runAll rootScope limit f is).shown = (c.viewer limit find).nodes fill f.toSetting indent ns
  | [], is, _, h => by
    rw [Compiler.nodes] at h
    obtain rfl := Except.ok.inj h
    rw [shown_runAll_nil, Viewer.nodes]
  | n :: ns, is, hm, h => by
    rw [referencesOf] at hm
    rw [Compiler.nodes] at h
    obtain ⟨first, hn, h⟩ := bind_eq_ok.1 h
    obtain ⟨rest, hr, h⟩ := bind_eq_ok.1 h
    obtain rfl := Except.ok.inj h
    rw [shown_runAll_append, shown_node hf hm.left hn, shown_nodes hf hm.right hr, Viewer.nodes]
theorem shown_branches {fill : Fill} {f : Frame} (hf : Fills f.slots fill) {indent : String}
    {otherwise : Unit → Rendering} {other : Shown} :
    {bs : List (Branch (List Node))} → {gs : List (Guarded (List Instruction))} →
      c.Finds limit find (referencesOfBranches bs) → c.guarded indent bs = .ok gs →
      (otherwise ()).shown = other →
      (runBranches rootScope limit f otherwise gs).shown =
        (c.viewer limit find).firstBranch fill f.toSetting indent other bs
  | [], gs, _, h, ho => by
    rw [Compiler.guarded] at h
    obtain rfl := Except.ok.inj h
    rw [runBranches, Viewer.firstBranch, ho]
  | ⟨expr, line, body⟩ :: bs, gs, hm, h, ho => by
    rw [referencesOfBranches] at hm
    rw [Compiler.guarded] at h
    obtain ⟨content, hb, h⟩ := bind_eq_ok.1 h
    obtain ⟨rest, hr, h⟩ := bind_eq_ok.1 h
    obtain rfl := Except.ok.inj h
    rw [runBranches, Rendering.shown_bind, Viewer.firstBranch]
    congr 1
    funext b
    cases b with
    | true =>
      exact (shown_runAll_coalesce rootScope limit f content).trans (shown_nodes hf hm.left hb)
    | false => exact shown_branches hf hm.right hr ho
theorem shown_alternative {fill : Fill} {f : Frame} (hf : Fills f.slots fill) {indent : String} :
    {o : Option (List Node)} → {is : Option (List Instruction)} →
      c.Finds limit find (referencesOfOtherwise o) → c.alternative indent o = .ok is →
      (runOption rootScope limit f is).shown =
        (c.viewer limit find).alternative fill f.toSetting indent o
  | none, is, _, h => by
    rw [Compiler.alternative] at h
    obtain rfl := Except.ok.inj h
    rw [runOption, Rendering.shown_ok_empty, Viewer.alternative]
  | some body, is, hm, h => by
    rw [referencesOfOtherwise] at hm
    rw [Compiler.alternative] at h
    obtain ⟨content, hb, h⟩ := bind_eq_ok.1 h
    obtain rfl := Except.ok.inj h
    rw [runOption, shown_runAll_coalesce, shown_nodes hf hm hb, Viewer.alternative]
theorem shown_arms {fill : Fill} {f : Frame} (hf : Fills f.slots fill) {indent : String}
    {line : Nat} {subject : Value} {default : Unit → Rendering} {other : Shown} :
    {as : List (Arm (List Node))} → {cs : List (CaseArm (List Instruction))} →
      c.Finds limit find (referencesOfArms as) → c.caseArms indent as = .ok cs →
      (default ()).shown = other →
      (runArms rootScope limit f line subject default cs).shown =
        (c.viewer limit find).firstArm fill f.toSetting indent line subject other as
  | [], cs, _, h, hd => by
    rw [Compiler.caseArms] at h
    obtain rfl := Except.ok.inj h
    rw [runArms, Viewer.firstArm, hd]
  | ⟨none, _, body⟩ :: as, cs, hm, h, hd => by
    rw [referencesOfArms] at hm
    rw [Compiler.caseArms] at h
    obtain ⟨content, hb, h⟩ := bind_eq_ok.1 h
    obtain ⟨rest, hr, h⟩ := bind_eq_ok.1 h
    obtain rfl := Except.ok.inj h
    rw [runArms, Viewer.firstArm]
    exact shown_arms hf hm.right hr hd
  | ⟨some expr, _, body⟩ :: as, cs, hm, h, hd => by
    rw [referencesOfArms] at hm
    rw [Compiler.caseArms] at h
    obtain ⟨content, hb, h⟩ := bind_eq_ok.1 h
    obtain ⟨rest, hr, h⟩ := bind_eq_ok.1 h
    obtain rfl := Except.ok.inj h
    rw [runArms, Rendering.shown_bind, Viewer.firstArm]
    congr 1
    funext x
    split
    · exact (shown_runAll_coalesce rootScope limit f content).trans (shown_nodes hf hm.left hb)
    · exact shown_arms hf hm.right hr hd
theorem shown_default {fill : Fill} {f : Frame} (hf : Fills f.slots fill) {indent : String} :
    {as : List (Arm (List Node))} → {cs : List (CaseArm (List Instruction))} →
      c.Finds limit find (referencesOfArms as) → c.caseArms indent as = .ok cs →
      (runDefault rootScope limit f cs).shown =
        (c.viewer limit find).defaultArm fill f.toSetting indent as
  | [], cs, _, h => by
    rw [Compiler.caseArms] at h
    obtain rfl := Except.ok.inj h
    rw [runDefault, Rendering.shown_ok_empty, Viewer.defaultArm]
  | ⟨some _, _, body⟩ :: as, cs, hm, h => by
    rw [referencesOfArms] at hm
    rw [Compiler.caseArms] at h
    obtain ⟨content, hb, h⟩ := bind_eq_ok.1 h
    obtain ⟨rest, hr, h⟩ := bind_eq_ok.1 h
    obtain rfl := Except.ok.inj h
    rw [runDefault, Viewer.defaultArm, shown_default hf hm.right hr]
  | ⟨none, _, body⟩ :: as, cs, hm, h => by
    rw [referencesOfArms] at hm
    rw [Compiler.caseArms] at h
    obtain ⟨content, hb, h⟩ := bind_eq_ok.1 h
    obtain ⟨rest, hr, h⟩ := bind_eq_ok.1 h
    obtain rfl := Except.ok.inj h
    rw [runDefault, Viewer.defaultArm, shown_runAll_coalesce, shown_nodes hf hm.left hb]
/-- What is held for a place of a block grows by the replaces that are for it. -/
theorem shown_replacements {fill : Fill} {f : Frame} (hf : Fills f.slots fill) {indent : String}
    {e : Embedded} {done : List (Override (List Instruction))} :
    {rs : List (Replace (List Node))} → {os : List (Override (List Instruction))} →
      c.Finds limit find (referencesOfReplaces rs) → c.replacements indent e done rs = .ok os →
      ∀ position block, heldShown rootScope limit f os position block =
        .andThen (heldShown rootScope limit f done position block)
          (written ((c.viewer limit find).shownReplaces fill f.toSetting indent rs) position block)
  | [], os, _, h, position, block => by
    rw [Compiler.replacements] at h
    obtain rfl := Except.ok.inj h
    rw [Viewer.shownReplaces]
    exact (Shown.andThen_nothing _).symm
  | ⟨p, b, _, body⟩ :: rs, os, hm, h, position, block => by
    rw [referencesOfReplaces] at hm
    rw [Compiler.replacements] at h
    split at h
    · obtain ⟨content, hb, h⟩ := bind_eq_ok.1 h
      rw [shown_replacements hf hm.right h position block, heldShown_addOverride,
        Viewer.shownReplaces, written_cons, shown_runAll_coalesce, shown_nodes hf hm.left hb]
      by_cases hp : p = position ∧ b = block
      · rw [if_pos hp, if_pos hp, Shown.andThen_assoc]
      · rw [if_neg hp, if_neg hp]
    · cases h
end

end

/-! ## Documents -/

/-- A program shows what its document shows, if all modules are found that it embeds. -/
theorem shown_program {limit : Nat} {c : Compiler}
    {find : String → Nat → String → Option Module} {d : Document} {p : Program}
    (h : c.program d = .ok p) (hm : c.Finds limit find d.references)
    {slots : String → Option Slot} {fill : Fill} (hs : Fills slots fill) (input : Value) :
    (invoke rootScope limit slots input p).shown = (c.viewer limit find).nodes fill
      ⟨c.options.filename, rootScope p.freeNames input⟩ c.options.indent d.nodes := by
  obtain ⟨body, hb, hfile, hbody, -⟩ := Compiler.program_eq_ok h
  obtain ⟨file, sid, name, instructions, blocks, freeNames⟩ := p
  obtain rfl : file = c.options.filename := hfile
  obtain rfl : instructions = coalesce body := hbody
  rw [invoke, shown_runAll_coalesce]
  exact shown_nodes hs hm hb

/-- A compiled document shows what the document shows. Modules are compiled outside the chain that
leads to them, so the induction is on the number of files outside it. -/
theorem shown_compile {limit : Nat} {files : Files} {transforms : Transforms} {options : Options}
    {chain : List String} {d : Document} {p : Program}
    (h : compile files transforms options chain d = .ok p) {slots : String → Option Slot}
    {fill : Fill} (hs : Fills slots fill) (input : Value) :
    (invoke rootScope limit slots input p).shown =
      shownDocument limit files transforms options chain d fill input := by
  obtain ⟨embed, hp, hm⟩ := compile_eq_ok h
  rw [shownDocument, h]
  refine shown_program hp (fun reference _ line indent e he => ?_) hs input
  obtain ⟨m, hf, htarget, hcompile⟩ := hm he
  have hf' : findModule files options chain (scopeId options.filename options.instanceName)
    reference line = .ok m := hf
  rw [hf']
  exact ⟨_, rfl, htarget, fun hs input => shown_compile hcompile hs input⟩
termination_by files.outside chain
decreasing_by exact m.outside

/-! ## Sessions -/

namespace Session

/-- **Compilation preserves meaning.** A document that refers to no module shows, when its program
is run, what its nodes show one after the other, and fails with the same error where they fail. -/
theorem shown_render_standalone {s : Session} {d : Document} {options : Options} {t : Compiled}
    (h : s.compileDocument d options = .ok t) (hd : d.references = []) (input : Value)
    (limit : Nat) :
    (t.render input limit).shown =
      Viewer.nodes
        { options := { options with filename := nameOf options d }
          sid := scopeId (nameOf options d) options.instanceName
          transforms := s.transforms
          limit := limit
          find := fun _ _ _ => none }
        .own ⟨nameOf options d, rootScope t.program.freeNames input⟩ options.indent d.nodes := by
  obtain ⟨embed, hp, -⟩ := compile_eq_ok (compileDocument_eq_ok h)
  refine shown_program hp (fun reference hr => ?_) fills_noSlots input
  rw [hd] at hr
  cases hr

/-- A list with an id, classes and a block in each item. -/
theorem shown_render_standalone_loop :
    let s : Session := ⟨.empty, []⟩
    let mark : Mark := ⟨1, ⟨0, 0⟩⟩
    let item : Node := .tag mark ⟨"li", false, false, [⟨"id", .literal "i#{k}", true⟩], ["item"],
      some "#{v}"⟩ [.block mark "more" [.text mark "!{v}"]]
    let d : Document := ⟨[.doctype mark "html", .each mark "v" (some "k") "items" [item],
      .ifElse mark [⟨"a.b", 2, [.comment mark "b" true]⟩] none], some "/page.made"⟩
    ∃ t, s.compileDocument d {} = .ok t ∧ d.references = [] ∧ ∀ input limit,
      (t.render input limit).shown =
        Viewer.nodes
          { options := { filename := some "/page.made" }
            sid := scopeId (some "/page.made") ""
            transforms := []
            limit := limit
            find := fun _ _ _ => none }
          .own ⟨some "/page.made", rootScope t.program.freeNames input⟩ "\n" d.nodes := by
  intro s mark item d
  obtain ⟨t, ht⟩ := exists_ok (x := s.compileDocument d {}) (by decide +kernel)
  have hn : nameOf {} d = some "/page.made" := by decide +kernel
  refine ⟨t, ht, rfl, fun input limit => ?_⟩
  have := shown_render_standalone ht rfl input limit
  rw [hn] at this
  exact this

/-- **Inheritance composes.** Rendering shows the document with all its modules in place, those of
any depth: a block of an extended module is filled by `Fill.extended` each time it is reached, and
what an extension has for it is read in the setting of the extension, where `fill` is still that of
the extending template. -/
theorem shown_render {s : Session} {d : Document} {options : Options} {t : Compiled}
    (h : s.compileDocument d options = .ok t) (input : Value) (limit : Nat) :
    (t.render input limit).shown =
      shownDocument limit s.files s.transforms { options with filename := nameOf options d }
        (nameOf options d).toList d .own input :=
  shown_compile (compileDocument_eq_ok h) fills_noSlots input

/-- A loop around an extension of a template that extends another one. -/
theorem shown_render_layout :
    let files : Files := ⟨[⟨"/layout.made", "/layout.made", "body\n  block content\n    p none"⟩,
      ⟨"/middle.made", "/middle.made", "extends layout\n  append content\n    block more"⟩]⟩
    let mark : Mark := ⟨1, ⟨0, 0⟩⟩
    let d : Document := ⟨[.each mark "v" none "items" [.extension mark "middle" []
      [⟨.replace, "more", 2, [.text mark "a #{v}"]⟩, ⟨.before, "more", 3, [.text mark "b"]⟩,
        ⟨.replace, "more", 4, [.text mark "c"]⟩]]], some "/page.made"⟩
    ∃ t, Session.compileDocument ⟨files, []⟩ d {} = .ok t ∧ ∀ input limit,
      (t.render input limit).shown = shownDocument limit files [] { filename := some "/page.made" }
        ["/page.made"] d .own input := by
  intro files mark d
  obtain ⟨t, ht⟩ := exists_ok (x := Session.compileDocument ⟨files, []⟩ d {}) (by decide +kernel)
  have hn : nameOf {} d = some "/page.made" := by decide +kernel
  refine ⟨t, ht, fun input limit => ?_⟩
  have := shown_render ht input limit
  rw [hn] at this
  exact this

end Session

end Stencil
