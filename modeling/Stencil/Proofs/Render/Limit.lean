import Stencil.Proofs.Render.Page
import Stencil.Proofs.Result

/-! # The limit on loops

The condition of a loop is evaluated in the setting of the frame that the loop runs in, and that is
the same after a round of its body as before it. So a loop whose condition holds once never ends
normally, and a rendering that succeeds has run no loop at all: the limit has no say in what it
gives. -/

namespace Stencil

/-! ## Loops -/

section
variable {condition : Unit → Except RenderError Bool} {body : Unit → Rendering}
  {limit : RenderError}

/-- A loop whose condition holds ends at the limit, or with what its body fails with. -/
theorem repeatWhile_of_holds (h : condition () = .ok true) (times : Nat) :
    Rendering.repeatWhile condition body limit times = .error limit ∨
      ∃ e, body () = .error e ∧ Rendering.repeatWhile condition body limit times = .error e := by
  induction times with
  | zero =>
    rw [Rendering.repeatWhile, h]
    exact .inl rfl
  | succ n ih =>
    rw [Rendering.repeatWhile, h]
    cases hbody : body () with
    | error e => exact .inr ⟨e, rfl, rfl⟩
    | ok r =>
      rcases ih with ih | ⟨e, he, -⟩
      · rw [ih]
        exact .inl rfl
      · rw [hbody] at he
        cases he

theorem repeatWhile_eq_ok {times : Nat} {r : Rendered}
    (h : Rendering.repeatWhile condition body limit times = .ok r) :
    condition () = .ok false ∧ r = .empty := by
  cases hc : condition () with
  | error e =>
    cases times <;>
    · rw [Rendering.repeatWhile, hc] at h
      cases h
  | ok b =>
    cases b with
    | true =>
      have hends : Rendering.repeatWhile condition body limit times = .error limit ∨
          ∃ e, body () = .error e ∧ Rendering.repeatWhile condition body limit times = .error e :=
        repeatWhile_of_holds hc times
      rcases hends with he | ⟨e, -, he⟩ <;>
      · rw [he] at h
        cases h
    | false =>
      cases times <;>
      · rw [Rendering.repeatWhile, hc] at h
        exact ⟨rfl, (Except.ok.inj h).symm⟩

theorem repeatWhile_of_not_holds (h : condition () = .ok false) (times : Nat) :
    Rendering.repeatWhile condition body limit times = .ok .empty := by
  cases times <;> rw [Rendering.repeatWhile, h] <;> rfl

end

/-! ## Success under two limits -/

def Outlasts {α : Type} (x y : Except RenderError α) : Prop :=
  ∀ a, x = .ok a → y = .ok a

namespace Outlasts

variable {α β : Type}

theorem refl (x : Except RenderError α) : Outlasts x x :=
  fun _ h => h

theorem bind {x y : Except RenderError α} {f g : α → Except RenderError β} (h : Outlasts x y)
    (hf : ∀ a, Outlasts (f a) (g a)) : Outlasts (x >>= f) (y >>= g) := by
  intro b hb
  obtain ⟨a, ha, hb⟩ := bind_eq_ok.1 hb
  exact bind_eq_ok.2 ⟨a, h a ha, hf a b hb⟩

theorem after (x : Except RenderError α) {f g : α → Except RenderError β}
    (hf : ∀ a, Outlasts (f a) (g a)) : Outlasts (x >>= f) (x >>= g) :=
  (refl x).bind hf

theorem andThen {x y x' y' : Rendering} (h : Outlasts x y) (h' : Outlasts x' y') :
    Outlasts (do let r ← x; let s ← x'; return r ++ s) (do let r ← y; let s ← y'; return r ++ s) :=
  h.bind fun _ => h'.bind fun _ => refl _

theorem forEach {f g : α → Rendering} (h : ∀ a, Outlasts (f a) (g a)) (as : List α) :
    Outlasts (Rendering.forEach f as) (Rendering.forEach g as) := by
  induction as with
  | nil => exact refl _
  | cons a as ih => exact (h a).andThen ih

/-- A loop that has ended normally never ran its body, so neither the body nor the limit counts. -/
theorem repeatWhile {condition : Unit → Except RenderError Bool} (body body' : Unit → Rendering)
    (limit limit' : RenderError) (n m : Nat) :
    Outlasts (Rendering.repeatWhile condition body limit n)
      (Rendering.repeatWhile condition body' limit' m) := by
  intro r hr
  obtain ⟨hcondition, rfl⟩ := repeatWhile_eq_ok hr
  exact repeatWhile_of_not_holds hcondition m

end Outlasts

/-! ## Blocks -/

abbrev ContentOutlasts : Option (Unit → Rendering) → Option (Unit → Rendering) → Prop :=
  Option.Rel fun x y => Outlasts (x ()) (y ())

structure Slot.Outlasts (s t : Slot) : Prop where
  before : ContentOutlasts s.before t.before
  replace : ContentOutlasts s.replace t.replace
  after : ContentOutlasts s.after t.after

def SlotsOutlast (slots slots' : String → Option Slot) : Prop :=
  ∀ name, Option.Rel Slot.Outlasts (slots name) (slots' name)

theorem slotsOutlast_noSlots : SlotsOutlast noSlots noSlots :=
  fun _ => .none

theorem ContentOutlasts.run {x y : Option (Unit → Rendering)} (h : ContentOutlasts x y) :
    Stencil.Outlasts (Slot.run x) (Slot.run y) := by
  rw [Slot.run_eq, Slot.run_eq]
  exact rel_getD (R := fun x y : Unit → Rendering => Outlasts (x ()) (y ())) h (.refl _)

theorem outlasts_fill {s t : Option Slot} (h : Option.Rel Slot.Outlasts s t)
    {own own' : Unit → Rendering} (ho : Outlasts (own ()) (own' ())) :
    Outlasts (Slot.fill own s) (Slot.fill own' t) := by
  cases h with
  | none => exact ho
  | @some s t h =>
    have hcontent : Outlasts (s.replace.getD own ()) (t.replace.getD own' ()) :=
      rel_getD (R := fun x y : Unit → Rendering => Outlasts (x ()) (y ())) h.replace ho
    exact h.before.run.bind fun _ => hcontent.bind fun _ => h.after.run.bind fun _ => .refl _

/-! ## Instructions -/

section
variable {root : Binding} {n m : Nat}

-- The induction is on instructions. What the slots have was closed in another frame, so it is no
-- part of the block that it is run for: the frame brings along that it outlasts the limit, and an
-- extension makes that of its own overrides.
mutual
theorem outlasts_run {g : Setting} {slots slots' : String → Option Slot}
    (hs : SlotsOutlast slots slots') : (i : Instruction) →
    Outlasts (i.run root n ⟨g, slots⟩) (i.run root m ⟨g, slots'⟩)
  | .text s => .refl _
  | .output expr format line => by
    rw [Instruction.run, Instruction.run]
    exact .after _ fun _ => .refl _
  | .attr name expr escape line => by
    rw [Instruction.run, Instruction.run]
    exact .after _ fun _ => .refl _
  | .ifElse branches otherwise => by
    rw [Instruction.run, Instruction.run]
    exact outlasts_branches hs (outlasts_option hs otherwise) branches
  | .whileTrue expr body line => by
    rw [Instruction.run, Instruction.run]
    exact .repeatWhile _ _ _ _ n m
  | .caseOf expr arms line => by
    rw [Instruction.run, Instruction.run]
    exact .after _ fun subject => outlasts_arms hs line subject (outlasts_default hs arms) arms
  | .each value key expr body line => by
    rw [Instruction.run, Instruction.run]
    refine .after _ fun list => ?_
    exact .forEach (fun entry => outlasts_runAll (g := g.bind value key entry) hs body) _
  | .block name body => by
    rw [Instruction.run, Instruction.run]
    exact outlasts_fill (hs name) (outlasts_runAll hs body)
  | .extension program options overrides dependency line => by
    rw [Instruction.run, Instruction.run]
    refine .after _ fun input => ?_
    exact (outlasts_invoke (outlasts_slots hs overrides) input program).bind fun _ => .refl _
  | .inclusion program options dependency line => by
    rw [Instruction.run, Instruction.run]
    refine .after _ fun input => ?_
    exact (outlasts_invoke slotsOutlast_noSlots input program).bind fun _ => .refl _
theorem outlasts_runAll {g : Setting} {slots slots' : String → Option Slot}
    (hs : SlotsOutlast slots slots') : (is : List Instruction) →
    Outlasts (runAll root n ⟨g, slots⟩ is) (runAll root m ⟨g, slots'⟩ is)
  | [] => .refl _
  | i :: is => by
    rw [runAll, runAll]
    exact (outlasts_run hs i).andThen (outlasts_runAll hs is)
theorem outlasts_option {g : Setting} {slots slots' : String → Option Slot}
    (hs : SlotsOutlast slots slots') : (o : Option (List Instruction)) →
    Outlasts (runOption root n ⟨g, slots⟩ o) (runOption root m ⟨g, slots'⟩ o)
  | none => .refl _
  | some body => by
    rw [runOption, runOption]
    exact outlasts_runAll hs body
theorem outlasts_branches {g : Setting} {slots slots' : String → Option Slot}
    (hs : SlotsOutlast slots slots') {other other' : Unit → Rendering}
    (ho : Outlasts (other ()) (other' ())) : (bs : List (Guarded (List Instruction))) →
    Outlasts (runBranches root n ⟨g, slots⟩ other bs) (runBranches root m ⟨g, slots'⟩ other' bs)
  | [] => by
    rw [runBranches, runBranches]
    exact ho
  | ⟨expr, body, line⟩ :: bs => by
    rw [runBranches, runBranches]
    refine .after _ fun b => ?_
    cases b with
    | true => exact outlasts_runAll hs body
    | false => exact outlasts_branches hs ho bs
theorem outlasts_arms {g : Setting} {slots slots' : String → Option Slot}
    (hs : SlotsOutlast slots slots') (line : Nat) (subject : Value)
    {other other' : Unit → Rendering} (ho : Outlasts (other ()) (other' ())) :
    (as : List (CaseArm (List Instruction))) →
    Outlasts (runArms root n ⟨g, slots⟩ line subject other as)
      (runArms root m ⟨g, slots'⟩ line subject other' as)
  | [] => by
    rw [runArms, runArms]
    exact ho
  | ⟨none, body⟩ :: as => by
    rw [runArms, runArms]
    exact outlasts_arms hs line subject ho as
  | ⟨some expr, body⟩ :: as => by
    rw [runArms, runArms]
    refine .after _ fun v => ?_
    split
    · exact outlasts_runAll hs body
    · exact outlasts_arms hs line subject ho as
theorem outlasts_default {g : Setting} {slots slots' : String → Option Slot}
    (hs : SlotsOutlast slots slots') :
    (as : List (CaseArm (List Instruction))) →
    Outlasts (runDefault root n ⟨g, slots⟩ as) (runDefault root m ⟨g, slots'⟩ as)
  | [] => .refl _
  | ⟨some _, body⟩ :: as => by
    rw [runDefault, runDefault]
    exact outlasts_default hs as
  | ⟨none, body⟩ :: as => by
    rw [runDefault, runDefault]
    exact outlasts_runAll hs body
theorem outlasts_content {g : Setting} {slots slots' : String → Option Slot}
    (hs : SlotsOutlast slots slots') : (o : Option (List Instruction)) →
    ContentOutlasts (content root n ⟨g, slots⟩ o) (content root m ⟨g, slots'⟩ o)
  | none => .none
  | some body => by
    rw [content, content]
    exact .some (outlasts_runAll hs body)
theorem outlasts_slots {g : Setting} {slots slots' : String → Option Slot}
    (hs : SlotsOutlast slots slots') :
    (os : List (Override (List Instruction))) →
    SlotsOutlast (fun name => slotFor root n ⟨g, slots⟩ name os)
      (fun name => slotFor root m ⟨g, slots'⟩ name os)
  | [] => fun _ => .none
  | ⟨block, before, replace, after⟩ :: os => by
    intro name
    dsimp only
    rw [slotFor, slotFor]
    refine rel_or (outlasts_slots hs os name) ?_
    split
    · exact .some ⟨outlasts_content hs before, outlasts_content hs replace,
        outlasts_content hs after⟩
    · exact .none
theorem outlasts_invoke {slots slots' : String → Option Slot} (hs : SlotsOutlast slots slots')
    (input : Value) :
    (p : ProgramOf (List Instruction)) →
    Outlasts (invoke root n slots input p) (invoke root m slots' input p)
  | ⟨filename, _, _, body, _, freeNames⟩ => by
    rw [invoke, invoke]
    exact outlasts_runAll (g := ⟨filename, root freeNames input⟩) hs body
end

end

/-- **The limit does not matter.** A rendering that succeeds under one limit on loops gives the same
text and the same records under every limit. For in no frame does a loop whose condition holds end
normally: it ends at the limit, or with what its body fails with. -/
theorem render_any_limit (p : Program) (input : Value) :
    (∀ n r, p.render input n = .ok r → ∀ m, p.render input m = .ok r) ∧
      ∀ (limit : Nat) (f : Frame) (expr : String) (body : List Instruction) (line : Nat),
        f.holds expr line = .ok true →
        (Instruction.whileTrue expr body line).run rootScope limit f =
            .error ⟨.loopLimit limit, f.filename, expr, line⟩ ∨
          ∃ e, runAll rootScope limit f body = .error e ∧
            (Instruction.whileTrue expr body line).run rootScope limit f = .error e := by
  constructor
  · intro n r h m
    exact outlasts_invoke slotsOutlast_noSlots input p r h
  · intro limit f expr body line h
    rw [Instruction.run]
    exact repeatWhile_of_holds h limit

/-- A layout with a loop of its own, and one in the content for its block that sees another `x`;
neither condition holds. In a frame where it does, the loop goes on to the limit, unless its body
fails. -/
theorem render_any_limit_layout :
    let loop := Instruction.whileTrue "x < 1" [.output "y" .escape 2] 2
    let layout : Program := ⟨some "/layout.made", "", "",
      [.text "[", loop, .block "content" [.text "none"], .text "]"], ["content"], ["x", "y"]⟩
    let page : Program := ⟨some "/page.made", "", "",
      [.extension layout [⟨"x", .expr "x - 1"⟩] [⟨"content", none, some [loop, .text "some"], none⟩]
        (some ⟨"/layout.made", "", .extension⟩) 1], [], ["x", "y"]⟩
    let input : Value := .obj [("x", .ofNat 2), ("y", .str "more")]
    let f : Frame := ⟨⟨none, Value.scope (.obj [("x", .ofNat 0)])⟩, noSlots⟩
    (∃ r, page.render input 0 = .ok r ∧ r.html = "[some]" ∧ r.records.length = 1 ∧
      page.render input defaultLimit = .ok r) ∧
    f.holds "x < 1" 2 = .ok true ∧
    (loop.run rootScope 3 f = .error ⟨.loopLimit 3, none, "x < 1", 2⟩ ∨
      ∃ e, runAll rootScope 3 f [.output "y" .escape 2] = .error e ∧
        loop.run rootScope 3 f = .error e) := by
  intro loop layout page input f
  have hr : (page.render input 0).toOption.map (fun r => (r.html, r.records.length)) =
      some ("[some]", 1) := by decide +kernel
  obtain ⟨r, hr, hshown⟩ := Option.map_eq_some_iff.1 hr
  obtain ⟨hhtml, hrecords⟩ := Prod.mk.inj hshown
  have hholds : (f.holds "x < 1" 2).toOption = some true := by decide +kernel
  have hholds : f.holds "x < 1" 2 = .ok true := ok_of_toOption hholds
  refine ⟨⟨r, ok_of_toOption hr, hhtml, hrecords, ?_⟩, hholds, ?_⟩
  · exact (render_any_limit page input).1 0 r (ok_of_toOption hr) defaultLimit
  · exact (render_any_limit page input).2 3 f "x < 1" _ 2 hholds

end Stencil
