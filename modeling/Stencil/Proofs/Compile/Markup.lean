import Stencil.Proofs.Compile.Invert
import Stencil.Proofs.Compile.Meaning

/-! # Compiled markup

The instructions for texts, attributes and tags show what is read off the nodes directly, and the
options compiled for a module are worth what the attributes they came from are worth. -/

namespace Stencil

open Template

section
variable (root : Binding) (limit : Nat) (f : Frame)

/-! ## Texts and attributes -/

theorem shown_run_output (e : String) (format : Format) (line : Nat) :
    ((Instruction.output e format line).run root limit f).shown = (do
      let v ← f.eval e line
      Shown.text (Html.format v format)) := by
  rw [Instruction.run, Rendering.shown_bind]
  congr 1

theorem shown_run_attr (name e : String) (escape : Bool) (line : Nat) :
    ((Instruction.attr name e escape line).run root limit f).shown = (do
      let v ← f.eval e line
      Shown.text (Html.join (Html.attr name v escape))) := by
  rw [Instruction.run, Rendering.shown_bind]
  rfl

theorem shown_segment (line : Nat) (s : Segment) :
    ((s.instruction line).run root limit f).shown = Viewer.segment f.toSetting line s := by
  cases s with
  | literal s => exact shown_run_text root limit f s
  | interpolation e escape offset =>
    rw [Segment.instruction, shown_run_output, Viewer.segment]
    cases escape <;> rfl

theorem shown_segments (line : Nat) (ss : List Segment) :
    (runAll root limit f (ss.map (Segment.instruction line))).shown =
      Shown.forEach (Viewer.segment f.toSetting line) ss := by
  induction ss with
  | nil => rfl
  | cons s ss ih =>
    rw [List.map_cons, shown_runAll_cons, shown_segment, ih]
    rfl

theorem shown_interpolate {text : String} {line : Nat} {is : List Instruction}
    (h : interpolate text line = .ok is) :
    (runAll root limit f is).shown = Viewer.interpolated f.toSetting line text := by
  obtain ⟨ss, hs, rfl⟩ := map_eq_ok.1 h
  rw [shown_segments, Viewer.interpolated, segmentsOnLine_eq_ok.1 hs]

theorem shown_between (s t : String) (is : List Instruction) :
    (runAll root limit f (Instruction.text s :: is ++ [Instruction.text t])).shown =
      Shown.inOrder [Shown.text s, (runAll root limit f is).shown, Shown.text t] := by
  rw [List.cons_append, shown_runAll_cons, shown_runAll_append, shown_runAll_singleton,
    shown_run_text, shown_run_text]
  simp only [Shown.inOrder, Shown.andThen_nothing]

end

def Compiler.viewer (c : Compiler) (limit : Nat)
    (find : String → Nat → String → Option Module) : Viewer :=
  ⟨c.options, c.sid, c.transforms, limit, find⟩

section
variable (root : Binding) (limit : Nat) (f : Frame) (c : Compiler)
variable (find : String → Nat → String → Option Module)

theorem shown_literalAttr {tag name value : String} {line : Nat} {is : List Instruction}
    (h : c.literalAttr tag name value line = .ok is) :
    (runAll root limit f is).shown = Shown.inOrder [Shown.text (" " ++ name ++ "=\""),
      match (c.viewer limit find).transformed name value (.tag tag) with
      | some s => .text s
      | none => Viewer.interpolated f.toSetting line value,
      Shown.text "\""] := by
  obtain ⟨ss, hs, h⟩ := bind_eq_ok.1 h
  obtain rfl := Except.ok.inj h
  rw [segmentsOnLine_eq_ok] at hs
  rw [shown_between]
  simp only [Viewer.transformed, Compiler.viewer, Viewer.interpolated, hs]
  cases if isPlain ss = true then c.transforms.run name value (.tag tag) c.options else none with
  | none => simp only [shown_segments]
  | some s => simp only [shown_runAll_singleton, shown_run_text]

theorem shown_idAttr {value : String} {line : Nat} {is : List Instruction}
    (h : c.idAttr value line = .ok is) :
    (runAll root limit f is).shown = Shown.inOrder
      [Shown.text (" id=\"" ++ (c.viewer limit find).idStart),
        Viewer.interpolated f.toSetting line value,
        Shown.text "\""] := by
  obtain ⟨content, hc, h⟩ := bind_eq_ok.1 h
  obtain rfl := Except.ok.inj h
  rw [shown_between, shown_interpolate root limit f hc]
  simp only [Viewer.idStart, Compiler.viewer, String.append_assoc]
  rfl

theorem shown_attr {tag : String} {line : Nat} {a : Attribute} {is : List Instruction}
    (h : c.attrBesideClass tag line a = .ok is) :
    (runAll root limit f is).shown = (c.viewer limit find).attr f.toSetting line tag a := by
  unfold Viewer.attr
  unfold Compiler.attrBesideClass at h
  split at h
  · next hn =>
    obtain rfl := Except.ok.inj h
    rw [if_pos hn]
    rfl
  · next value hn hv =>
    have hne : ¬ a.name = "class" := by rw [hn]; decide
    rw [if_neg hne, hv]
    simp only [hn, if_true]
    exact shown_idAttr root limit f c find h
  · next hn hid =>
    rw [if_neg hn]
    unfold Compiler.attr at h
    split at h
    · next hv =>
      obtain rfl := Except.ok.inj h
      rw [hv, shown_runAll_singleton, shown_run_text]
    · next value hv =>
      have hne : ¬ a.name = "id" := fun e => hid value e hv
      rw [hv]
      simp only [hne, if_false]
      exact shown_literalAttr root limit f c find h
    · next e hv =>
      obtain rfl := Except.ok.inj h
      rw [hv, shown_runAll_singleton, shown_run_attr]

theorem shown_attrs {tag : String} {line : Nat} {as : List Attribute} {is : List Instruction}
    (h : c.attrs tag line as = .ok is) :
    (runAll root limit f is).shown =
      Shown.forEach ((c.viewer limit find).attr f.toSetting line tag) as := by
  induction as generalizing is with
  | nil =>
    obtain rfl := Except.ok.inj h
    rfl
  | cons a as ih =>
    rw [Compiler.attrs] at h
    obtain ⟨first, hf, h⟩ := bind_eq_ok.1 h
    obtain ⟨rest, hr, h⟩ := bind_eq_ok.1 h
    obtain rfl := Except.ok.inj h
    rw [shown_runAll_append, ih hr, shown_attr root limit f c find hf]
    rfl

/-! ## Classes -/

theorem intersperse_cons_eq {α : Type} (sep a : α) (as : List α) :
    (a :: as).intersperse sep = a :: as.flatMap fun b => [sep, b] := by
  induction as generalizing a with
  | nil => rfl
  | cons b as ih => rw [List.intersperse_cons_cons, ih]; rfl

theorem shown_intercalate (s : String) (ss : List String) :
    Shown.text (String.intercalate " " (s :: ss)) =
      Shown.inOrder (Shown.text s :: (ss.map Shown.text).flatMap fun b => [Shown.text " ", b]) := by
  induction ss generalizing s with
  | nil => exact (Shown.inOrder_singleton _).symm
  | cons t ss ih =>
    rw [String.intercalate_cons_cons, ← Shown.text_andThen_text, ih, ← Shown.text_andThen_text]
    exact Shown.andThen_assoc _ _ _

theorem shown_classValue {line : Nat} {a : Attribute} {is : List Instruction}
    (h : Compiler.classValue line a = .ok is) :
    (runAll root limit f is).shown = Viewer.classValue f.toSetting line a := by
  unfold Viewer.classValue
  unfold Compiler.classValue at h
  cases hv : a.value with
  | boolean =>
    rw [hv] at h
    obtain rfl := Except.ok.inj h
    rfl
  | literal value =>
    rw [hv] at h
    exact shown_interpolate root limit f h
  | expr e =>
    rw [hv] at h
    obtain rfl := Except.ok.inj h
    rw [shown_runAll_singleton, shown_run_output]
    rfl

theorem shown_classValues {line : Nat} {first : Bool} {as : List Attribute}
    {is : List Instruction} (h : Compiler.classValues line first as = .ok is) :
    (runAll root limit f is).shown = Shown.inOrder
      (if first then (as.map (Viewer.classValue f.toSetting line)).intersperse (Shown.text " ")
      else (as.map (Viewer.classValue f.toSetting line)).flatMap fun b => [Shown.text " ", b]) := by
  induction as generalizing first is with
  | nil =>
    obtain rfl := Except.ok.inj h
    cases first <;> rfl
  | cons a as ih =>
    rw [Compiler.classValues] at h
    obtain ⟨value, hv, h⟩ := bind_eq_ok.1 h
    obtain ⟨rest, hr, h⟩ := bind_eq_ok.1 h
    obtain rfl := Except.ok.inj h
    rw [shown_runAll_append, shown_runAll_append, shown_classValue root limit f hv, ih hr]
    cases first with
    | true =>
      rw [List.map_cons, if_pos rfl, if_pos rfl, intersperse_cons_eq, Shown.inOrder]
      exact congrArg (Shown.andThen · _) (Shown.nothing_andThen _)
    | false =>
      simp only [Bool.false_eq_true, if_false, List.map_cons, List.flatMap_cons,
        Shown.inOrder_append, Shown.inOrder, Shown.andThen_nothing, shown_runAll_singleton,
        shown_run_text]

theorem shown_classes {head : TagHead} {line : Nat} {is : List Instruction}
    (h : c.classes head line = .ok is) :
    (runAll root limit f is).shown = (c.viewer limit find).classes f.toSetting line head := by
  unfold Compiler.classes at h
  unfold Viewer.classes
  simp only [Compiler.viewer]
  generalize head.attrs.filter (fun a => a.name == "class") = given at h ⊢
  dsimp only at h
  split at h
  · next he =>
    obtain rfl := Except.ok.inj h
    simp only [Bool.and_eq_true, List.isEmpty_iff] at he
    rw [he.1, he.2]
    rfl
  · next he =>
    obtain ⟨values, hv, h⟩ := bind_eq_ok.1 h
    obtain rfl := Except.ok.inj h
    rw [shown_between, shown_classValues root limit f hv, ← Shown.text_andThen_text]
    cases hc : head.classes with
    | nil =>
      cases given with
      | nil => simp [hc] at he
      | cons a as =>
        simp [Shown.inOrder, Shown.inOrder_append, Shown.text_empty, Shown.andThen_nothing]
    | cons n ns =>
      simp only [List.map_cons, List.cons_append, List.isEmpty_cons, Bool.false_eq_true, if_false]
      rw [shown_intercalate, intersperse_cons_eq, List.flatMap_append, List.map_map]
      simp [Shown.inOrder, Shown.inOrder_append, Shown.andThen_assoc, Shown.andThen_nothing,
        Function.comp_def]

/-! ## Tags -/

theorem shown_layout (indent : String) :
    (runAll root limit f (c.layout indent)).shown = (c.viewer limit find).layout indent := by
  unfold Compiler.layout Viewer.layout
  cases hp : c.options.pretty with
  | true => simp [Compiler.viewer, hp, shown_runAll_singleton, shown_run_text]
  | false => simp [Compiler.viewer, hp, runAll, Rendering.shown_ok_empty]

theorem shown_openTag {indent : String} {head : TagHead} {line : Nat} {is : List Instruction}
    (h : c.openTag indent head line = .ok is) :
    (runAll root limit f is).shown =
      (c.viewer limit find).openTag f.toSetting indent line head := by
  obtain ⟨attrs, ha, h⟩ := bind_eq_ok.1 h
  obtain ⟨classes, hc, h⟩ := bind_eq_ok.1 h
  obtain rfl := Except.ok.inj h
  simp only [Viewer.openTag, shown_runAll_append, shown_runAll_cons, shown_runAll_nil,
    shown_run_text, shown_attrs root limit f c find ha, shown_classes root limit f c find hc,
    Shown.inOrder, Shown.andThen_assoc, Shown.andThen_nothing]
  cases head.inline with
  | true => rfl
  | false => simp [shown_layout root limit f c find]

theorem shown_closeTag (indent : String) (head : TagHead) (hasBody : Bool) :
    (runAll root limit f (c.closeTag indent head hasBody)).shown =
      (c.viewer limit find).closeTag indent head hasBody := by
  simp only [Compiler.closeTag, Viewer.closeTag, shown_runAll_append, shown_runAll_singleton,
    shown_run_text, Shown.inOrder, Shown.andThen_nothing]
  cases head.inline || !hasBody with
  | true => rfl
  | false => simp [shown_layout root limit f c find]

theorem shown_tagText {head : TagHead} {line : Nat} {is : List Instruction}
    (h : Compiler.tagText head line = .ok is) :
    (runAll root limit f is).shown = Viewer.tagText f.toSetting line head := by
  unfold Compiler.tagText at h
  unfold Viewer.tagText
  cases ht : head.text with
  | none =>
    rw [ht] at h
    obtain rfl := Except.ok.inj h
    rfl
  | some text =>
    rw [ht] at h
    exact shown_interpolate root limit f h

end

/-! ## Options -/

section
variable (limit : Nat) (g : Setting) (c : Compiler)
variable (find : String → Nat → String → Option Module)

theorem optionText_map_part (line : Nat) (ss : List Segment) :
    g.optionText line (ss.map Segment.part) = Viewer.optionText g line ss := by
  induction ss with
  | nil => rfl
  | cons s ss ih =>
    cases s with
    | literal s =>
      rw [List.map_cons, Segment.part, Setting.optionText, Viewer.optionText, ih]
    | interpolation e escape offset =>
      rw [List.map_cons, Segment.part, Setting.optionText, Viewer.optionText, ih]
      rfl

theorem optionText_text (line : Nat) (s : String) : g.optionText line [.text s] = .ok s := by
  simp [Setting.optionText, bind, Except.bind, pure, Except.pure]

theorem option_name {line : Nat} {a : Attribute} {o : OptionEntry}
    (h : c.option line a = .ok o) : o.name = a.name := by
  unfold Compiler.option at h
  split at h
  · exact (congrArg OptionEntry.name (Except.ok.inj h)).symm
  · exact (congrArg OptionEntry.name (Except.ok.inj h)).symm
  · obtain ⟨parts, hp, rfl⟩ := map_eq_ok.1 h
    rfl

theorem optionValue_eq {line : Nat} {a : Attribute} {o : OptionEntry}
    (h : c.option line a = .ok o) :
    g.optionValue line o.value = (c.viewer limit find).option g line a := by
  unfold Compiler.option at h
  unfold Viewer.option
  cases hv : a.value with
  | boolean =>
    rw [hv] at h
    obtain rfl := Except.ok.inj h
    rfl
  | expr e =>
    rw [hv] at h
    obtain rfl := Except.ok.inj h
    rfl
  | literal value =>
    rw [hv] at h
    obtain ⟨parts, hp, rfl⟩ := map_eq_ok.1 h
    obtain ⟨ss, hs, hp⟩ := bind_eq_ok.1 hp
    obtain rfl := Except.ok.inj hp
    rw [segmentsOnLine_eq_ok] at hs
    simp only [Viewer.transformed, Compiler.viewer, hs, Setting.optionValue]
    cases if isPlain ss = true then c.transforms.run a.name value .option c.options else none with
    | some s => rw [optionText_text]; rfl
    | none => rw [optionText_map_part]

theorem optionFields_eq {line : Nat} {as : List Attribute} {os : List OptionEntry}
    (h : c.optionList line as = .ok os) :
    g.optionFields line os = (c.viewer limit find).optionFields g line as := by
  induction as generalizing os with
  | nil =>
    obtain rfl := Except.ok.inj h
    rfl
  | cons a as ih =>
    rw [Compiler.optionList] at h
    obtain ⟨o, ho, h⟩ := bind_eq_ok.1 h
    obtain ⟨rest, hr, h⟩ := bind_eq_ok.1 h
    obtain rfl := Except.ok.inj h
    rw [Setting.optionFields, Viewer.optionFields, optionValue_eq limit g c find ho, ih hr,
      option_name c ho]

theorem input_eq {line : Nat} {as : List Attribute} {os : List OptionEntry}
    (h : c.optionList line as = .ok os) :
    g.input line os = (c.viewer limit find).input g line as := by
  rw [Setting.input, Viewer.input, optionFields_eq limit g c find h]

end

end Stencil
