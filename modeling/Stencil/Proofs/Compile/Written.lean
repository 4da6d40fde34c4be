import Stencil.Proofs.Compile.Parallel
import Stencil.Proofs.Compile.Preserve

/-! # Programs that write alike

Two programs are compared by what they write, seen under an aspect of texts: the text itself, say,
or the text without its blanks. Lists of instructions that write alike, wherever what they have for
blocks does, too, can be put together in every way the compiler does it. -/

namespace Stencil

open Template

/-- An aspect of texts, which that of a whole is put together from those of its parts. -/
structure Text.Aspect where
  of : String → String
  append : ∀ s t, of (s ++ t) = of s ++ of t

def Text.Aspect.whole : Text.Aspect :=
  ⟨id, fun _ _ => rfl⟩

structure Page.Alike (v : Text.Aspect) (p q : Page) : Prop where
  html : v.of p.html = v.of q.html
  records : p.records = q.records

theorem Page.Alike.append {v : Text.Aspect} {p p' q q' : Page} (hp : p.Alike v p')
    (hq : q.Alike v q') : (p ++ q).Alike v (p' ++ q') where
  html := by rw [Page.html_append, Page.html_append, v.append, v.append, hp.html, hq.html]
  records := by rw [Page.records_append, Page.records_append, hp.records, hq.records]

namespace Shown

abbrev Alike (v : Text.Aspect) : Shown → Shown → Prop :=
  Parallel (Page.Alike v)

variable {v : Text.Aspect}

theorem Alike.refl (a : Shown) : a.Alike v a := by
  refine (Parallel.same a).mono ?_
  rintro p _ ⟨rfl, -⟩
  exact ⟨rfl, rfl⟩

theorem Alike.andThen {a a' b b' : Shown} (ha : a.Alike v a') (hb : b.Alike v b') :
    (andThen a b).Alike v (andThen a' b') := by
  refine Parallel.bind ha fun p p' hp => ?_
  refine Parallel.bind hb fun q q' hq => ?_
  exact .ok (hp.append hq)

theorem Alike.bind {α : Type} (x : Except RenderError α) {f g : α → Shown}
    (h : ∀ a, (f a).Alike v (g a)) : Shown.Alike v (x >>= f) (x >>= g) := by
  refine (Parallel.same x).bind ?_
  rintro a _ ⟨rfl, -⟩
  exact h a

theorem Alike.forEach {α : Type} {f g : α → Shown} (h : ∀ a, (f a).Alike v (g a)) (as : List α) :
    (forEach f as).Alike v (forEach g as) := by
  induction as with
  | nil => exact .refl _
  | cons a as ih => exact (h a).andThen ih

theorem Alike.repeatWhile {condition : Except RenderError Bool} {a a' : Shown} (h : a.Alike v a')
    (limit : RenderError) (times : Nat) :
    (repeatWhile condition a limit times).Alike v (repeatWhile condition a' limit times) := by
  induction times with
  | zero => exact .refl _
  | succ n ih =>
    refine Alike.bind condition fun b => ?_
    cases b with
    | true => exact h.andThen ih
    | false => exact .refl _

theorem alike_text {s t : String} (h : v.of s = v.of t) : (text s).Alike v (text t) :=
  .ok ⟨h, rfl⟩

end Shown

/-! ## Frames -/

/-- What two frames have for their blocks comes to the same, wherever their own content does. -/
def SlotsAlike (v : Text.Aspect) (slots slots' : String → Option Slot) : Prop :=
  ∀ name own own', (own ()).shown.Alike v (own' ()).shown →
    (Slot.fill own (slots name)).shown.Alike v (Slot.fill own' (slots' name)).shown

def WritesAlike (v : Text.Aspect) (a b : List Instruction) : Prop :=
  ∀ limit g slots slots', SlotsAlike v slots slots' →
    (runAll rootScope limit ⟨g, slots⟩ a).shown.Alike v
      (runAll rootScope limit ⟨g, slots'⟩ b).shown

structure OptionEntry.Alike (o o' : OptionEntry) : Prop where
  name : o.name = o'.name
  value : ∀ (g : Setting) line, g.optionValue line o.value = g.optionValue line o'.value
  sites : o.SameSites o'

theorem OptionEntry.Alike.refl (o : OptionEntry) : o.Alike o :=
  ⟨rfl, fun _ _ => rfl, fun _ _ => rfl⟩

theorem Setting.input_congr (g : Setting) (line : Nat) {os os' : List OptionEntry}
    (h : List.Forall₂ OptionEntry.Alike os os') : g.input line os = g.input line os' := by
  have hfields : g.optionFields line os = g.optionFields line os' := by
    induction h with
    | nil => rfl
    | cons ho _ ih => rw [optionFields, optionFields, ho.name, ho.value, ih]
  rw [input, input, hfields]

variable {v : Text.Aspect}

theorem slotsAlike_noSlots : SlotsAlike v noSlots noSlots :=
  fun _ _ _ h => h

section
variable {limit : Nat} {g : Setting} {slots slots' : String → Option Slot}

theorem runAll_leaves {is : List Instruction} (h : ∀ i ∈ is, i.isLeaf = true) :
    runAll rootScope limit ⟨g, slots⟩ is = runAll rootScope limit ⟨g, slots'⟩ is := by
  induction is with
  | nil => rfl
  | cons i is ih =>
    rw [List.forall_mem_cons] at h
    have hi : i.run rootScope limit ⟨g, slots⟩ = i.run rootScope limit ⟨g, slots'⟩ := by
      cases i with
      | text s => rfl
      | output expr format line => rfl
      | attr name expr escape line => rfl
      | _ => cases h.1
    rw [runAll, runAll, hi, ih h.2]

/-! ## Instructions -/

variable (hs : SlotsAlike v slots slots')
include hs

theorem alike_option {o o' : Option (List Instruction)} (h : Option.Rel (WritesAlike v) o o') :
    (runOption rootScope limit ⟨g, slots⟩ o).shown.Alike v
      (runOption rootScope limit ⟨g, slots'⟩ o').shown := by
  cases h with
  | none => exact .refl _
  | some h => exact h limit g slots slots' hs

theorem alike_branches {bs bs' : List (Guarded (List Instruction))}
    (h : List.Forall₂ (Guarded.Related (WritesAlike v)) bs bs') {other other' : Unit → Rendering}
    (ho : (other ()).shown.Alike v (other' ()).shown) :
    (runBranches rootScope limit ⟨g, slots⟩ other bs).shown.Alike v
      (runBranches rootScope limit ⟨g, slots'⟩ other' bs').shown := by
  induction h with
  | nil => exact ho
  | @cons b b' bs bs' hb _ ih =>
    obtain ⟨expr, body, line⟩ := b
    obtain ⟨_, body', _⟩ := b'
    obtain ⟨rfl, rfl, hbody⟩ := hb
    rw [runBranches, runBranches, Rendering.shown_bind, Rendering.shown_bind]
    refine Shown.Alike.bind _ fun b => ?_
    cases b with
    | true => exact hbody limit g slots slots' hs
    | false => exact ih

theorem alike_arms {as as' : List (CaseArm (List Instruction))}
    (h : List.Forall₂ (CaseArm.Related (WritesAlike v)) as as') (line : Nat) (subject : Value)
    {other other' : Unit → Rendering} (ho : (other ()).shown.Alike v (other' ()).shown) :
    (runArms rootScope limit ⟨g, slots⟩ line subject other as).shown.Alike v
      (runArms rootScope limit ⟨g, slots'⟩ line subject other' as').shown := by
  induction h with
  | nil => exact ho
  | @cons a a' as as' ha _ ih =>
    obtain ⟨expr, body⟩ := a
    obtain ⟨_, body'⟩ := a'
    obtain ⟨rfl, hbody⟩ := ha
    cases expr with
    | none => exact ih
    | some expr =>
      rw [runArms, runArms, Rendering.shown_bind, Rendering.shown_bind]
      refine Shown.Alike.bind _ fun x => ?_
      split
      · exact hbody limit g slots slots' hs
      · exact ih

theorem alike_default {as as' : List (CaseArm (List Instruction))}
    (h : List.Forall₂ (CaseArm.Related (WritesAlike v)) as as') :
    (runDefault rootScope limit ⟨g, slots⟩ as).shown.Alike v
      (runDefault rootScope limit ⟨g, slots'⟩ as').shown := by
  induction h with
  | nil => exact .refl _
  | @cons a a' as as' ha _ ih =>
    obtain ⟨expr, body⟩ := a
    obtain ⟨_, body'⟩ := a'
    obtain ⟨rfl, hbody⟩ := ha
    cases expr with
    | none => exact hbody limit g slots slots' hs
    | some expr => exact ih

theorem alike_invoke {p q : Program} (h : p.Related (WritesAlike v) q) (input : Value) :
    (invoke rootScope limit slots input p).shown.Alike v
      (invoke rootScope limit slots' input q).shown := by
  obtain ⟨filename, sid, name, body, blocks, freeNames⟩ := p
  obtain ⟨_, _, _, body', _, _⟩ := q
  obtain ⟨rfl, rfl, rfl, rfl, rfl, hbody⟩ := h
  exact hbody limit _ slots slots' hs

end

/-! ## Content for blocks -/

abbrev ContentAlike (v : Text.Aspect) :
    Option (Unit → Rendering) → Option (Unit → Rendering) → Prop :=
  Option.Rel fun x x' => (x ()).shown.Alike v (x' ()).shown

structure Slot.Alike (v : Text.Aspect) (s s' : Slot) : Prop where
  before : ContentAlike v s.before s'.before
  replace : ContentAlike v s.replace s'.replace
  after : ContentAlike v s.after s'.after

theorem ContentAlike.run {x x' : Option (Unit → Rendering)} (h : ContentAlike v x x') :
    (Slot.run x).shown.Alike v (Slot.run x').shown := by
  rw [Slot.run_eq, Slot.run_eq]
  exact rel_getD h (.refl _)

theorem alike_fill {s s' : Option Slot} (h : Option.Rel (Slot.Alike v) s s')
    {own own' : Unit → Rendering} (ho : (own ()).shown.Alike v (own' ()).shown) :
    (Slot.fill own s).shown.Alike v (Slot.fill own' s').shown := by
  cases h with
  | none => exact ho
  | @some s s' h =>
    have hcontent : (s.replace.getD own ()).shown.Alike v (s'.replace.getD own' ()).shown :=
      rel_getD h.replace ho
    rw [shown_fill, shown_fill]
    -- `Shown.inOrder` ends in nothing at all.
    exact h.before.run.andThen (hcontent.andThen (h.after.run.andThen (.refl _)))

section
variable {limit : Nat} {g : Setting} {slots slots' : String → Option Slot}
  (hs : SlotsAlike v slots slots')
include hs

theorem alike_content {o o' : Option (List Instruction)} (h : Option.Rel (WritesAlike v) o o') :
    ContentAlike v (content rootScope limit ⟨g, slots⟩ o)
      (content rootScope limit ⟨g, slots'⟩ o') := by
  cases h with
  | none => exact .none
  | some h => exact .some (h limit g slots slots' hs)

theorem alike_slotFor {os os' : List (Override (List Instruction))}
    (h : List.Forall₂ (Override.Related (WritesAlike v)) os os') (name : String) :
    Option.Rel (Slot.Alike v) (slotFor rootScope limit ⟨g, slots⟩ name os)
      (slotFor rootScope limit ⟨g, slots'⟩ name os') := by
  induction h with
  | nil => exact .none
  | @cons o o' os os' ho _ ih =>
    rw [slotFor, slotFor, ← ho.block]
    refine rel_or ih ?_
    split
    · exact .some ⟨alike_content hs ho.before, alike_content hs ho.replace,
        alike_content hs ho.after⟩
    · exact .none

theorem slotsAlike_overrides {os os' : List (Override (List Instruction))}
    (h : List.Forall₂ (Override.Related (WritesAlike v)) os os') :
    SlotsAlike v (fun name => slotFor rootScope limit ⟨g, slots⟩ name os)
      (fun name => slotFor rootScope limit ⟨g, slots'⟩ name os') := by
  intro name own own' ho
  exact alike_fill (alike_slotFor hs h name) ho

end

theorem Compiler.dependency_congr {change : Options → Options} (hdep : ∀ o, (change o).dep = o.dep)
    {c d : Compiler} (hd : d.options = change c.options) (m : Resolved) (use : Use) :
    d.dependency m use = c.dependency m use := by
  rw [dependency, dependency, hd, hdep]

theorem alike_use {x x' : Rendering} (h : x.shown.Alike v x'.shown) (r : Rendered) :
    Shown.Alike v (Rendering.shown (do let y ← x; return y ++ r))
      (Rendering.shown (do let y ← x'; return y ++ r)) := by
  have happend : ∀ x : Rendering, Rendering.shown (do let y ← x; return y ++ r) =
      Shown.andThen x.shown (.ok ⟨r.html, r.records⟩) :=
    fun x => Rendering.shown_append x (.ok r)
  rw [happend, happend]
  exact h.andThen (.refl _)

/-! ## The compiler -/

/-- Lists of instructions that write alike are put together to ones that do, if the layout does. -/
theorem kept_writesAlike {change : Options → Options} {indented : String → Prop}
    (hdep : ∀ o, (change o).dep = o.dep)
    (hdeeper : ∀ {indent}, indented indent → indented (Compiler.deeper indent))
    (hlayout : ∀ {c d : Compiler} {indent}, d.options = change c.options → indented indent →
      WritesAlike v (c.layout indent) (d.layout indent)) :
    Kept change indented OptionEntry.Alike (WritesAlike v) where
  deeper := hdeeper
  entry := OptionEntry.Alike.refl
  leaves := fun h limit g slots slots' _ => by
    rw [runAll_leaves h]
    exact .refl _
  append := fun ha hb limit g slots slots' hs => by
    rw [shown_runAll_append, shown_runAll_append]
    exact (ha limit g slots slots' hs).andThen (hb limit g slots slots' hs)
  coalesce := fun ha limit g slots slots' hs => by
    rw [shown_runAll_coalesce, shown_runAll_coalesce]
    exact ha limit g slots slots' hs
  layout := hlayout
  block := fun name ha limit g slots slots' hs => by
    rw [shown_runAll_singleton, shown_runAll_singleton, Instruction.run, Instruction.run]
    exact hs name _ _ (ha limit g slots slots' hs)
  ifElse := fun hbs ho limit g slots slots' hs => by
    rw [shown_runAll_singleton, shown_runAll_singleton, Instruction.run, Instruction.run]
    exact alike_branches hs hbs (alike_option hs ho)
  whileTrue := fun expr line ha limit g slots slots' hs => by
    rw [shown_runAll_singleton, shown_runAll_singleton, Instruction.run, Instruction.run,
      Rendering.shown_repeatWhile, Rendering.shown_repeatWhile]
    exact (ha limit g slots slots' hs).repeatWhile _ limit
  caseOf := fun expr line has limit g slots slots' hs => by
    rw [shown_runAll_singleton, shown_runAll_singleton, Instruction.run, Instruction.run,
      Rendering.shown_bind, Rendering.shown_bind]
    refine Shown.Alike.bind _ fun subject => ?_
    exact alike_arms hs has line subject (alike_default hs has)
  each := fun value key expr line ha limit g slots slots' hs => by
    rw [shown_runAll_singleton, shown_runAll_singleton, Instruction.run, Instruction.run,
      Rendering.shown_bind, Rendering.shown_bind]
    refine Shown.Alike.bind _ fun list => ?_
    rw [Rendering.shown_forEach _ _ fun _ => rfl, Rendering.shown_forEach _ _ fun _ => rfl]
    exact Shown.Alike.forEach (fun entry => ha limit _ slots slots' hs) _
  extension := fun line hd he hentries hos limit g slots slots' hs => by
    rw [shown_runAll_singleton, shown_runAll_singleton, Instruction.run, Instruction.run,
      Rendering.shown_bind, Rendering.shown_bind, Compiler.dependency_congr hdep hd,
      ← he.target, g.input_congr line hentries]
    refine Shown.Alike.bind _ fun input => ?_
    exact alike_use (alike_invoke (slotsAlike_overrides hs hos) he.program input) _
  inclusion := fun line hd he hentries limit g slots slots' hs => by
    rw [shown_runAll_singleton, shown_runAll_singleton, Instruction.run, Instruction.run,
      Rendering.shown_bind, Rendering.shown_bind, Compiler.dependency_congr hdep hd,
      ← he.target, g.input_congr line hentries]
    refine Shown.Alike.bind _ fun input => ?_
    exact alike_use (alike_invoke slotsAlike_noSlots he.program input) _

theorem Compiled.alike_render {t u : Compiled} (h : t.program.Related (WritesAlike v) u.program)
    (input : Value) (limit : Nat) :
    Parallel (fun r r' => v.of r.html = v.of r'.html ∧ r.records = r'.records)
      (t.render input limit) (u.render input limit) := by
  have hrender : (t.render input limit).shown.Alike v (u.render input limit).shown :=
    alike_invoke slotsAlike_noSlots h input
  exact (Parallel.of_map hrender).mono fun r r' h => ⟨h.html, h.records⟩

end Stencil
