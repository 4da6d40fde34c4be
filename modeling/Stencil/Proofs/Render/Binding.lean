import Stencil.Proofs.Expr.Agree
import Stencil.Proofs.Program.Free
import Stencil.Render.Run

/-! # Free names are all that needs binding

A program sees its free names only. Binding everything that its input holds would render the same:
the frames of both renderings agree on all names that an expression can read, and instruction by
instruction they stay so. -/

namespace Stencil

open Template

/-! ## Options of a program -/

mutual
def Instruction.options : Instruction → List OptionEntry
  | .text _ => []
  | .output _ _ _ => []
  | .attr _ _ _ _ => []
  | .ifElse branches otherwise => optionsOfBranches branches ++ optionsOfOption otherwise
  | .whileTrue _ body _ => optionsOf body
  | .caseOf _ arms _ => optionsOfArms arms
  | .each _ _ _ body _ => optionsOf body
  | .block _ body => optionsOf body
  | .extension p os overrides _ _ => os ++ (optionsFrom p ++ optionsOfOverrides overrides)
  | .inclusion p os _ _ => os ++ optionsFrom p
def optionsOf : List Instruction → List OptionEntry
  | [] => []
  | i :: is => i.options ++ optionsOf is
def optionsOfBranches : List (Guarded (List Instruction)) → List OptionEntry
  | [] => []
  | ⟨_, body, _⟩ :: bs => optionsOf body ++ optionsOfBranches bs
def optionsOfArms : List (CaseArm (List Instruction)) → List OptionEntry
  | [] => []
  | ⟨_, body⟩ :: as => optionsOf body ++ optionsOfArms as
def optionsOfOption : Option (List Instruction) → List OptionEntry
  | none => []
  | some body => optionsOf body
def optionsOfOverrides : List (Override (List Instruction)) → List OptionEntry
  | [] => []
  | ⟨_, before, replace, after⟩ :: os =>
    optionsOfOption before ++ optionsOfOption replace ++ optionsOfOption after ++
      optionsOfOverrides os
def optionsFrom : ProgramOf (List Instruction) → List OptionEntry
  | ⟨_, _, _, body, _, _⟩ => optionsOf body
end

/-- What agreement of two renderings rests on, for some part of a program: its expressions read
names that are known or bound around them, its programs bind their free names, and no option has the
name of something global. -/
structure Ready (known : String → Prop) (sites : List Site) (programs : List Program)
    (options : List OptionEntry) : Prop where
  closed : ∀ s ∈ sites, s.Closed known
  bound : ∀ q ∈ programs, q.Bound
  named : ∀ o ∈ options, isGlobal o.name = false

namespace Ready

variable {known : String → Prop} {ss ts : List Site} {ps qs : List Program}
variable {os us : List OptionEntry}

theorem left (h : Ready known (ss ++ ts) (ps ++ qs) (os ++ us)) : Ready known ss ps os where
  closed s hs := h.closed s (List.mem_append_left _ hs)
  bound q hq := h.bound q (List.mem_append_left _ hq)
  named o ho := h.named o (List.mem_append_left _ ho)

theorem right (h : Ready known (ss ++ ts) (ps ++ qs) (os ++ us)) : Ready known ts qs us where
  closed s hs := h.closed s (List.mem_append_right _ hs)
  bound q hq := h.bound q (List.mem_append_right _ hq)
  named o ho := h.named o (List.mem_append_right _ ho)

theorem tail {s : Site} (h : Ready known (s :: ss) ps os) : Ready known ss ps os :=
  { h with closed := fun s hs => h.closed s (List.mem_cons_of_mem _ hs) }

end Ready

/-! ## Frames that agree -/

def Setting.Agree (known : String → Prop) (bound : List String) (g g' : Setting) : Prop :=
  ∀ n, n ∈ bound ∨ known n → g.scope.Agree g'.scope n

def SlotsAgree (slots slots' : String → Option Slot) : Prop :=
  ∀ name own own', Both Eq (own ()) (own' ()) →
    Both Eq (Slot.fill own (slots name)) (Slot.fill own' (slots' name))

structure Frame.Agree (known : String → Prop) (bound : List String) (f f' : Frame) : Prop where
  setting : f.toSetting.Agree known bound f'.toSetting
  slots : SlotsAgree f.slots f'.slots

theorem slotsAgree_noSlots : SlotsAgree noSlots noSlots :=
  fun _ _ _ h => h

namespace Setting.Agree

variable {known : String → Prop} {bound : List String} {g g' : Setting}

theorem eval (h : g.Agree known bound g') {source : String} {line : Nat}
    (hs : Site.Closed known ⟨source, line, bound⟩) (line' : Nat) :
    Both Eq (g.eval source line') (g'.eval source line') := by
  have he := evaluate_agree fun e he n hn => h n (hs e he n hn)
  unfold Setting.eval
  cases hx : evaluate source g.scope with
  | error d => cases hy : evaluate source g'.scope with
    | error e => exact Both.error _ _
    | ok w =>
      rw [hx, hy] at he
      exact he.elim
  | ok v => cases hy : evaluate source g'.scope with
    | error e =>
      rw [hx, hy] at he
      exact he.elim
    | ok w =>
      rw [hx, hy] at he
      exact Both.ok he

theorem holds (h : g.Agree known bound g') {source : String} {line : Nat}
    (hs : Site.Closed known ⟨source, line, bound⟩) (line' : Nat) :
    Both Eq (g.holds source line') (g'.holds source line') :=
  (h.eval hs line').map fun _ _ e => congrArg Value.truthy e

theorem bind (h : g.Agree known bound g') (value : String) (key : Option String)
    (entry : Value × Value) :
    (g.bind value key entry).Agree known (key.toList ++ value :: bound)
      (g'.bind value key entry) := by
  intro n hn
  unfold Scope.Agree Setting.bind
  dsimp only
  by_cases hk : (key == some n) = true
  · rw [if_pos hk, if_pos hk]
    exact .inl rfl
  · rw [if_neg hk, if_neg hk]
    by_cases hv : (value == n) = true
    · rw [if_pos hv, if_pos hv]
      exact .inl rfl
    · rw [if_neg hv, if_neg hv]
      refine h n ?_
      rcases hn with hn | hn
      · rcases List.mem_append.1 hn with hn | hn
        · exact absurd (by simpa using hn) hk
        · rcases List.mem_cons.1 hn with rfl | hn
          · exact absurd (beq_self_eq_true n) hv
          · exact .inl hn
      · exact .inr hn

theorem optionText (h : g.Agree known bound g') {line : Nat} :
    {parts : List Part} → (∀ s ∈ parts.flatMap (Part.sites line bound), s.Closed known) →
      Both Eq (g.optionText line parts) (g'.optionText line parts)
  | [], _ => Both.ok rfl
  | .text s :: ps, hs => by
    rw [List.flatMap_cons, Part.sites, List.nil_append] at hs
    rw [Setting.optionText, Setting.optionText]
    exact (optionText h hs).bind fun a b e => Both.ok (congrArg (s ++ ·) e)
  | .expr source :: ps, hs => by
    rw [List.flatMap_cons, Part.sites] at hs
    rw [Setting.optionText, Setting.optionText]
    refine (h.eval (hs _ (List.mem_cons_self ..)) line).bind fun v w hv => ?_
    refine (optionText h fun s hm => hs s (List.mem_cons_of_mem _ hm)).bind fun a b e => ?_
    exact Both.ok (by rw [hv, e])

theorem optionValue (h : g.Agree known bound g') {line : Nat} {o : OptionEntry}
    (hs : ∀ s ∈ o.sites line bound, s.Closed known) :
    Both Eq (g.optionValue line o.value) (g'.optionValue line o.value) := by
  unfold OptionEntry.sites at hs
  cases hv : o.value with
  | boolean => exact Both.ok rfl
  | expr source =>
    rw [hv] at hs
    exact h.eval (hs _ (List.mem_cons_self ..)) line
  | text parts =>
    rw [hv] at hs
    exact (h.optionText hs).map fun a b e => congrArg Value.str e

theorem optionFields (h : g.Agree known bound g') {line : Nat} :
    {os : List OptionEntry} → (∀ s ∈ optionSites line bound os, s.Closed known) →
      Both (fun fs gs => fs = gs ∧ fs.map (·.1) = os.map (·.name)) (g.optionFields line os)
        (g'.optionFields line os)
  | [], _ => Both.ok ⟨rfl, rfl⟩
  | o :: os, hs => by
    rw [optionSites, List.flatMap_cons] at hs
    rw [Setting.optionFields, Setting.optionFields]
    refine (h.optionValue fun s hm => hs s (List.mem_append_left _ hm)).bind fun v w hv => ?_
    refine (optionFields h fun s hm => hs s (List.mem_append_right _ hm)).bind fun fs gs e => ?_
    refine Both.ok ⟨?_, ?_⟩
    · rw [hv, e.1]
    · rw [List.map_cons, List.map_cons, e.2]

end Setting.Agree

/-! ## Inputs -/

theorem Fields.get?_set {k n : String} {v w : Value} {fs : Fields}
    (h : Fields.get? n (Fields.set k v fs) = some w) : n = k ∨ ∃ u, Fields.get? n fs = some u := by
  induction fs with
  | nil =>
    simp only [Fields.set, Fields.get?] at h
    split at h
    · next hk => exact .inl (beq_iff_eq.1 hk).symm
    · cases h
  | cons f fs ih =>
    obtain ⟨k', v'⟩ := f
    rw [Fields.set] at h
    by_cases hn : (k' == n) = true
    · exact .inr ⟨v', by rw [Fields.get?, if_pos hn]⟩
    · rw [Fields.get?, if_neg hn]
      split at h
      · rw [Fields.get?, if_neg hn] at h
        exact .inr ⟨w, h⟩
      · rw [Fields.get?, if_neg hn] at h
        exact ih h

theorem Fields.mem_of_get?_ofList {n : String} {w : Value} {ps : List (String × Value)}
    (h : Fields.get? n (Fields.ofList ps) = some w) : n ∈ ps.map (·.1) := by
  have hfold : ∀ (ps : List (String × Value)) (fs : Fields) (w : Value),
      Fields.get? n (ps.foldl (fun fs p => Fields.set p.1 p.2 fs) fs) = some w →
      n ∈ ps.map (·.1) ∨ ∃ u, Fields.get? n fs = some u := by
    intro ps
    induction ps with
    | nil => exact fun fs w h => .inr ⟨w, h⟩
    | cons p ps ih =>
      intro fs w h
      rcases ih _ w h with h | ⟨u, h⟩
      · exact .inl (List.mem_cons_of_mem _ h)
      · rcases Fields.get?_set h with rfl | h
        · exact .inl (List.mem_cons_self ..)
        · exact .inr h
  rcases hfold ps [] w h with h | ⟨u, h⟩
  · exact h
  · cases h

def Value.NoGlobals (input : Value) : Prop :=
  ∀ n, isGlobal n = true → input.scope n = none

theorem Setting.Agree.input {known : String → Prop} {bound : List String} {g g' : Setting}
    (h : g.Agree known bound g') {line : Nat} {os : List OptionEntry}
    (hs : ∀ s ∈ optionSites line bound os, s.Closed known)
    (ho : ∀ o ∈ os, isGlobal o.name = false) :
    Both (fun v w => v = w ∧ v.NoGlobals) (g.input line os) (g'.input line os) := by
  refine (h.optionFields hs).bind fun fs gs e => Both.ok ⟨?_, fun n hn => ?_⟩
  · rw [e.1]
  · cases hget : Fields.get? n (Fields.ofList fs) with
    | none => exact hget
    | some w =>
      have hmem := Fields.mem_of_get?_ofList hget
      rw [e.2] at hmem
      obtain ⟨o, hm, rfl⟩ := List.mem_map.1 hmem
      rw [ho o hm] at hn
      cases hn

def wholeScope : Binding := fun _ input =>
  input.scope

/-- A program whose free names are bound sees as much as one with its whole input. -/
theorem ProgramOf.Bound.agree {p : Program} (hp : p.Bound) {input : Value} (hi : input.NoGlobals)
    (filename : Option String) :
    Setting.Agree (Known p.freeNames) [] ⟨filename, rootScope p.freeNames input⟩
      ⟨filename, wholeScope p.freeNames input⟩ := by
  intro n hn
  have hfree := (freeNamesOf_closed hp).2
  unfold Scope.Agree rootScope wholeScope
  dsimp only
  by_cases hm : n ∈ p.freeNames
  · rw [if_pos (List.contains_iff_mem.2 hm)]
    cases input.scope n with
    | some v => exact .inl rfl
    | none => exact .inr ⟨rfl, rfl, hfree n hm⟩
  · have hg : isGlobal n = true := by
      rcases hn with hn | hn | hn
      · cases hn
      · exact absurd hn hm
      · exact hn
    rw [if_neg (by simpa using hm), hi n hg]
    exact .inl rfl

/-! ## Renderings that agree -/

theorem Both.append {x x' y y' : Rendering} (hx : Both Eq x x') (hy : Both Eq y y') :
    Both Eq (do let r ← x; let s ← y; return r ++ s) (do let r ← x'; let s ← y'; return r ++ s) :=
  hx.bind fun _ _ e => hy.bind fun _ _ e' => Both.ok (by rw [e, e'])

theorem Both.forEach {α : Type} {f f' : α → Rendering} (h : ∀ a, Both Eq (f a) (f' a)) :
    (as : List α) → Both Eq (Rendering.forEach f as) (Rendering.forEach f' as)
  | [] => Both.ok rfl
  | a :: as => Both.append (h a) (forEach h as)

theorem Both.repeatWhile {c c' : Unit → Except RenderError Bool} {body body' : Unit → Rendering}
    (hc : Both Eq (c ()) (c' ())) (hb : Both Eq (body ()) (body' ())) (e e' : RenderError) :
    (n : Nat) → Both Eq (Rendering.repeatWhile c body e n) (Rendering.repeatWhile c' body' e' n)
  | 0 => by
    refine hc.bind fun a b h => ?_
    subst h
    cases a with
    | true => exact Both.error _ _
    | false => exact Both.ok rfl
  | n + 1 => by
    refine hc.bind fun a b h => ?_
    subst h
    cases a with
    | true => exact Both.append hb (repeatWhile hc hb e e' n)
    | false => exact Both.ok rfl

def ContentAgree : Option (Unit → Rendering) → Option (Unit → Rendering) → Prop
  | none, none => True
  | some c, some c' => Both Eq (c ()) (c' ())
  | _, _ => False

def SlotAgree : Option Slot → Option Slot → Prop
  | none, none => True
  | some s, some s' => ContentAgree s.before s'.before ∧ ContentAgree s.replace s'.replace ∧
    ContentAgree s.after s'.after
  | _, _ => False

theorem ContentAgree.run {c c' : Option (Unit → Rendering)} (h : ContentAgree c c') :
    Both Eq (Slot.run c) (Slot.run c') := by
  cases c with
  | none => cases c' with
    | none => exact Both.ok rfl
    | some c' => exact h.elim
  | some c => cases c' with
    | none => exact h.elim
    | some c' => exact h

theorem ContentAgree.getD {c c' : Option (Unit → Rendering)} (h : ContentAgree c c')
    {own own' : Unit → Rendering} (ho : Both Eq (own ()) (own' ())) :
    Both Eq (c.getD own ()) (c'.getD own' ()) := by
  cases c with
  | none => cases c' with
    | none => exact ho
    | some c' => exact h.elim
  | some c => cases c' with
    | none => exact h.elim
    | some c' => exact h

theorem SlotAgree.fill {s s' : Option Slot} (h : SlotAgree s s') {own own' : Unit → Rendering}
    (ho : Both Eq (own ()) (own' ())) : Both Eq (Slot.fill own s) (Slot.fill own' s') := by
  cases s with
  | none => cases s' with
    | none => exact ho
    | some s' => exact h.elim
  | some s => cases s' with
    | none => exact h.elim
    | some s' =>
      obtain ⟨hb, hr, ha⟩ := h
      refine hb.run.bind fun _ _ e => (hr.getD ho).bind fun _ _ e' => ha.run.bind fun _ _ e'' => ?_
      exact Both.ok (by rw [e, e', e''])

section
variable {limit : Nat}

mutual
/-- An instruction renders alike in frames that agree on what it reads. -/
theorem run_agree {known : String → Prop} {bound : List String} {f f' : Frame}
    (hf : f.Agree known bound f') : {i : Instruction} →
    Ready known (i.sites bound) i.programs i.options →
    Both Eq (i.run rootScope limit f) (i.run wholeScope limit f')
  | .text s, _ => Both.ok rfl
  | .output expr format line, h => by
    rw [Instruction.run, Instruction.run]
    refine (hf.setting.eval (h.closed _ (List.mem_cons_self ..)) line).bind fun v w e => ?_
    exact Both.ok (by rw [e])
  | .attr name expr escape line, h => by
    rw [Instruction.run, Instruction.run]
    refine (hf.setting.eval (h.closed _ (List.mem_cons_self ..)) line).bind fun v w e => ?_
    exact Both.ok (by rw [e])
  | .ifElse branches otherwise, h => by
    rw [Instruction.sites, Instruction.programs, Instruction.options] at h
    rw [Instruction.run, Instruction.run]
    exact runBranches_agree hf h.left (runOption_agree hf h.right)
  | .whileTrue expr body line, h => by
    rw [Instruction.sites, Instruction.programs, Instruction.options] at h
    rw [Instruction.run, Instruction.run]
    have hc := hf.setting.holds (h.closed _ (List.mem_cons_self ..)) line
    exact Both.repeatWhile hc (runAll_agree hf h.tail) _ _ limit
  | .caseOf expr arms line, h => by
    rw [Instruction.sites, Instruction.programs, Instruction.options] at h
    rw [Instruction.run, Instruction.run]
    refine (hf.setting.eval (h.closed _ (List.mem_cons_self ..)) line).bind fun v w e => ?_
    rw [e]
    exact runArms_agree hf h.tail (runDefault_agree hf h.tail)
  | .each value key expr body line, h => by
    rw [Instruction.sites, Instruction.programs, Instruction.options] at h
    rw [Instruction.run, Instruction.run]
    refine (hf.setting.eval (h.closed _ (List.mem_cons_self ..)) line).bind fun v w e => ?_
    rw [e]
    refine Both.forEach (fun entry => ?_) w.entries
    have hbind : Frame.Agree known (key.toList ++ value :: bound) (f.bind value key entry)
        (f'.bind value key entry) := ⟨hf.setting.bind value key entry, hf.slots⟩
    exact runAll_agree hbind h.tail
  | .block name body, h => by
    rw [Instruction.sites, Instruction.programs, Instruction.options] at h
    rw [Instruction.run, Instruction.run]
    exact hf.slots name _ _ (runAll_agree hf h)
  | .extension program os overrides dependency line, h => by
    rw [Instruction.sites, Instruction.programs, Instruction.options] at h
    rw [Instruction.run, Instruction.run]
    have hs := fun s hm => h.closed s (List.mem_append_left _ hm)
    have ho := fun o hm => h.named o (List.mem_append_left _ hm)
    have hp := fun q hm => h.bound q (List.mem_append_left _ hm)
    have hu := fun o hm => h.named o (List.mem_append_right _ (List.mem_append_left _ hm))
    have hrest : Ready known (sitesOfOverrides bound overrides) (programsOfOverrides overrides)
        (optionsOfOverrides overrides) :=
      { closed := fun s hm => h.closed s (List.mem_append_right _ hm)
        bound := fun q hm => h.bound q (List.mem_append_right _ hm)
        named := fun o hm => h.named o (List.mem_append_right _ (List.mem_append_right _ hm)) }
    refine (hf.setting.input hs ho).bind fun v w e => ?_
    rw [← e.1]
    have hslots : SlotsAgree (fun name => slotFor rootScope limit f name overrides)
        (fun name => slotFor wholeScope limit f' name overrides) :=
      fun name own own' h => (slotFor_agree hf hrest name).fill h
    exact (invoke_agree hslots e.2 hp hu).bind fun r r' e => Both.ok (by rw [e])
  | .inclusion program os dependency line, h => by
    rw [Instruction.sites, Instruction.programs, Instruction.options] at h
    rw [Instruction.run, Instruction.run]
    have ho := fun o hm => h.named o (List.mem_append_left _ hm)
    have hu := fun o hm => h.named o (List.mem_append_right _ hm)
    refine (hf.setting.input h.closed ho).bind fun v w e => ?_
    rw [← e.1]
    exact (invoke_agree slotsAgree_noSlots e.2 h.bound hu).bind fun r r' e => Both.ok (by rw [e])
theorem runAll_agree {known : String → Prop} {bound : List String} {f f' : Frame}
    (hf : f.Agree known bound f') : {is : List Instruction} →
    Ready known (sitesOf bound is) (programsOf is) (optionsOf is) →
    Both Eq (runAll rootScope limit f is) (runAll wholeScope limit f' is)
  | [], _ => Both.ok rfl
  | i :: is, h => by
    rw [sitesOf, programsOf, optionsOf] at h
    rw [runAll, runAll]
    exact Both.append (run_agree hf h.left) (runAll_agree hf h.right)
theorem runOption_agree {known : String → Prop} {bound : List String} {f f' : Frame}
    (hf : f.Agree known bound f') : {o : Option (List Instruction)} →
    Ready known (sitesOfOption bound o) (programsOfOption o) (optionsOfOption o) →
    Both Eq (runOption rootScope limit f o) (runOption wholeScope limit f' o)
  | none, _ => Both.ok rfl
  | some body, h => by
    rw [sitesOfOption, programsOfOption, optionsOfOption] at h
    rw [runOption, runOption]
    exact runAll_agree hf h
theorem runBranches_agree {known : String → Prop} {bound : List String} {f f' : Frame}
    (hf : f.Agree known bound f') {other other' : Unit → Rendering} :
    {bs : List (Guarded (List Instruction))} →
    Ready known (sitesOfBranches bound bs) (programsOfBranches bs) (optionsOfBranches bs) →
    Both Eq (other ()) (other' ()) →
    Both Eq (runBranches rootScope limit f other bs) (runBranches wholeScope limit f' other' bs)
  | [], _, ho => by
    rw [runBranches, runBranches]
    exact ho
  | ⟨expr, body, line⟩ :: bs, h, ho => by
    rw [sitesOfBranches, programsOfBranches, optionsOfBranches] at h
    rw [runBranches, runBranches]
    refine (hf.setting.holds (h.closed _ (List.mem_cons_self ..)) line).bind fun a b e => ?_
    subst e
    cases a with
    | true => exact runAll_agree hf h.tail.left
    | false => exact runBranches_agree hf h.tail.right ho
theorem runArms_agree {known : String → Prop} {bound : List String} {f f' : Frame}
    (hf : f.Agree known bound f') {line : Nat} {subject : Value}
    {default default' : Unit → Rendering} : {as : List (CaseArm (List Instruction))} →
    Ready known (sitesOfArms bound line as) (programsOfArms as) (optionsOfArms as) →
    Both Eq (default ()) (default' ()) →
    Both Eq (runArms rootScope limit f line subject default as)
      (runArms wholeScope limit f' line subject default' as)
  | [], _, hd => by
    rw [runArms, runArms]
    exact hd
  | ⟨none, body⟩ :: as, h, hd => by
    rw [sitesOfArms, programsOfArms, optionsOfArms] at h
    rw [runArms, runArms]
    exact runArms_agree hf h.right hd
  | ⟨some expr, body⟩ :: as, h, hd => by
    rw [sitesOfArms, programsOfArms, optionsOfArms] at h
    rw [runArms, runArms]
    refine (hf.setting.eval (h.closed _ (List.mem_cons_self ..)) line).bind fun v w e => ?_
    rw [e]
    by_cases hv : subject.strictEq false w = true
    · rw [if_pos hv, if_pos hv]
      exact runAll_agree hf h.tail.left
    · rw [if_neg hv, if_neg hv]
      exact runArms_agree hf h.tail.right hd
theorem runDefault_agree {known : String → Prop} {bound : List String} {f f' : Frame}
    (hf : f.Agree known bound f') {line : Nat} : {as : List (CaseArm (List Instruction))} →
    Ready known (sitesOfArms bound line as) (programsOfArms as) (optionsOfArms as) →
    Both Eq (runDefault rootScope limit f as) (runDefault wholeScope limit f' as)
  | [], _ => Both.ok rfl
  | ⟨some _, body⟩ :: as, h => by
    rw [sitesOfArms, programsOfArms, optionsOfArms] at h
    rw [runDefault, runDefault]
    exact runDefault_agree hf h.tail.right
  | ⟨none, body⟩ :: as, h => by
    rw [sitesOfArms, programsOfArms, optionsOfArms] at h
    rw [runDefault, runDefault]
    exact runAll_agree hf h.left
theorem content_agree {known : String → Prop} {bound : List String} {f f' : Frame}
    (hf : f.Agree known bound f') : {o : Option (List Instruction)} →
    Ready known (sitesOfOption bound o) (programsOfOption o) (optionsOfOption o) →
    ContentAgree (content rootScope limit f o) (content wholeScope limit f' o)
  | none, _ => trivial
  | some body, h => by
    rw [sitesOfOption, programsOfOption, optionsOfOption] at h
    rw [content, content]
    exact runAll_agree hf h
theorem slotFor_agree {known : String → Prop} {bound : List String} {f f' : Frame}
    (hf : f.Agree known bound f') : {os : List (Override (List Instruction))} →
    Ready known (sitesOfOverrides bound os) (programsOfOverrides os) (optionsOfOverrides os) →
    ∀ name, SlotAgree (slotFor rootScope limit f name os) (slotFor wholeScope limit f' name os)
  | [], _, _ => trivial
  | ⟨block, before, replace, after⟩ :: os, h, name => by
    rw [sitesOfOverrides, programsOfOverrides, optionsOfOverrides] at h
    rw [slotFor, slotFor]
    have hrest := slotFor_agree hf h.right name
    cases hs : slotFor rootScope limit f name os with
    | some s => cases hs' : slotFor wholeScope limit f' name os with
      | some s' =>
        rw [hs, hs'] at hrest
        exact hrest
      | none =>
        rw [hs, hs'] at hrest
        exact hrest.elim
    | none => cases hs' : slotFor wholeScope limit f' name os with
      | some s' =>
        rw [hs, hs'] at hrest
        exact hrest.elim
      | none =>
        by_cases hb : (block == name) = true
        · rw [if_pos hb, if_pos hb]
          exact ⟨content_agree hf h.left.left.left, content_agree hf h.left.left.right,
            content_agree hf h.left.right⟩
        · rw [if_neg hb, if_neg hb]
          exact trivial
/-- A program renders alike with its free names and with its whole input. -/
theorem invoke_agree {slots slots' : String → Option Slot} (hs : SlotsAgree slots slots')
    {input : Value} (hi : input.NoGlobals) : {p : ProgramOf (List Instruction)} →
    (∀ q ∈ programsFrom p, q.Bound) → (∀ o ∈ optionsFrom p, isGlobal o.name = false) →
    Both Eq (invoke rootScope limit slots input p) (invoke wholeScope limit slots' input p)
  | ⟨filename, sid, name, body, blocks, freeNames⟩, hp, ho => by
    rw [programsFrom] at hp
    rw [optionsFrom] at ho
    rw [invoke, invoke]
    have hb := hp _ (List.mem_cons_self ..)
    refine runAll_agree ⟨hb.agree hi filename, hs⟩ ?_
    exact ⟨(freeNamesOf_closed hb).1, fun q hq => hp q (List.mem_cons_of_mem _ hq), ho⟩
end

end

/-- Rendering with every field of each program's input bound. -/
def ProgramOf.renderWhole (p : Program) (input : Value) (limit : Nat) : Rendering :=
  invoke wholeScope limit noSlots input p

/-- **Free names suffice.** A compiled program renders alike with its free names bound and with its
whole input bound, or fails both ways, if nothing handed to it or its modules has the name of
something global. -/
theorem render_eq_renderWhole {files : Files} {transforms : Transforms} {options : Options}
    {chain : List String} {d : Document} {p : Program}
    (h : compile files transforms options chain d = .ok p)
    (ho : ∀ o ∈ optionsFrom p, isGlobal o.name = false) {input : Value}
    (hi : ∀ n, isGlobal n = true → input.scope n = none) (limit : Nat) :
    (Program.render p input limit).toOption = (p.renderWhole input limit).toOption :=
  (invoke_agree slotsAgree_noSlots hi (bound_compile h) ho).toOption

/-- A loop that hands its item on to a module, which reads more than it is given. -/
theorem render_eq_renderWhole_inclusion :
    let files : Files := ⟨[⟨"/item.made", "/item.made", "li #{title} #{JSON.stringify(rest)}"⟩]⟩
    let mark : Mark := ⟨1, ⟨0, 0⟩⟩
    let d : Document := ⟨[.each mark "x" none "items"
      [.inclusion mark "item" [⟨"title", .expr "x || other", true⟩]]], none⟩
    let input : Value := .obj [("items", .arr [.str "a", .null]), ("rest", .bool true)]
    ∃ p, compile files [] {} [] d = .ok p ∧ (∀ o ∈ optionsFrom p, isGlobal o.name = false) ∧
      (∀ n, isGlobal n = true → input.scope n = none) ∧ ∀ limit,
        (Program.render p input limit).toOption = (p.renderWhole input limit).toOption := by
  intro files mark d input
  obtain ⟨p, hp⟩ := exists_ok (x := compile files [] {} [] d) (by decide +kernel)
  have hnames : (compile files [] {} [] d).toOption.map (fun p => (optionsFrom p).map (·.name)) =
      some ["title"] := by decide +kernel
  rw [hp] at hnames
  have htitle : (optionsFrom p).map (·.name) = ["title"] := Option.some.inj hnames
  have ho : ∀ o ∈ optionsFrom p, isGlobal o.name = false := by
    intro o ho
    have hmem := List.mem_map_of_mem (f := (·.name)) ho
    rw [htitle, List.mem_singleton] at hmem
    rw [hmem]
    decide
  have hi : ∀ n, isGlobal n = true → input.scope n = none := by
    intro n hn
    have h1 : ¬ "items" = n := fun e => by subst e; exact absurd hn (by decide)
    have h2 : ¬ "rest" = n := fun e => by subst e; exact absurd hn (by decide)
    simp [input, Value.scope, Value.fields, Fields.get?, h1, h2]
  exact ⟨p, hp, ho, hi, fun limit => render_eq_renderWhole hp ho hi limit⟩

end Stencil
