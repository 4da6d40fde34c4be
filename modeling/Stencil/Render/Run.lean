import Stencil.Expr.Eval
import Stencil.Render.Output

/-! # Running programs

A program runs in a frame: a setting, which binds its names, and what an extending template has for
its blocks. That content has been given the frame of the template it was written in, so it is
closed: it can be rendered wherever the block stands. How the names of a program are bound to its
input is a parameter of running it; `rootScope` is what rendering uses. -/

namespace Stencil

structure Slot where
  before : Option (Unit → Rendering)
  replace : Option (Unit → Rendering)
  after : Option (Unit → Rendering)

structure Setting where
  filename : Option String
  scope : Scope

structure Frame extends Setting where
  slots : String → Option Slot

namespace Setting

def eval (g : Setting) (expr : String) (line : Nat) : Except RenderError Value :=
  match evaluate expr g.scope with
  | .ok v => .ok v
  | .error e => .error ⟨.evaluation e, g.filename, expr, line⟩

def holds (g : Setting) (expr : String) (line : Nat) : Except RenderError Bool :=
  (g.eval expr line).map (·.truthy)

/-- The setting of one round of a loop. The key hides an item of the same name. -/
def bind (g : Setting) (value : String) (key : Option String) (entry : Value × Value) : Setting :=
  { g with
    scope := fun n =>
      if key == some n then some entry.2
      else if value == n then some entry.1
      else g.scope n }

def optionText (g : Setting) (line : Nat) : List Part → Except RenderError String
  | [] => .ok ""
  | .text s :: ps => do
    let rest ← g.optionText line ps
    return s ++ rest
  | .expr e :: ps => do
    let v ← g.eval e line
    let rest ← g.optionText line ps
    return Html.format v .raw ++ rest

def optionValue (g : Setting) (line : Nat) : OptionValue → Except RenderError Value
  | .boolean => .ok (.bool true)
  | .expr e => g.eval e line
  | .text parts => (g.optionText line parts).map .str

def optionFields (g : Setting) (line : Nat) :
    List OptionEntry → Except RenderError (List (String × Value))
  | [] => .ok []
  | o :: os => do
    let v ← g.optionValue line o.value
    let fs ← g.optionFields line os
    return (o.name, v) :: fs

/-- What is handed to a module: an object of its options, later ones overwriting. -/
def input (g : Setting) (line : Nat) (os : List OptionEntry) : Except RenderError Value := do
  let fs ← g.optionFields line os
  return .obj (Fields.ofList fs)

end Setting

def Frame.bind (f : Frame) (value : String) (key : Option String) (entry : Value × Value) : Frame :=
  { f with toSetting := f.toSetting.bind value key entry }

/-- How the names of a program are bound, from its free names and its input. -/
abbrev Binding := List String → Value → Scope

/-- The bindings of a program: its free names, null where the input has nothing for them. -/
def rootScope : Binding := fun freeNames input n =>
  if freeNames.contains n then some ((input.scope n).getD .null) else none

def noSlots : String → Option Slot := fun _ => none

def Rendered.record (dependency : Option Dependency) (input : Value) : Rendered :=
  ⟨[], dependency.toList.map fun d => ⟨d, input⟩⟩

def Slot.run : Option (Unit → Rendering) → Rendering
  | some content => content ()
  | none => .ok .empty

/-- A block whose own content is `own`: that comes between what the slot has before and after it,
unless the slot has something in its place. -/
def Slot.fill (own : Unit → Rendering) : Option Slot → Rendering
  | none => own ()
  | some slot => do
    let before ← Slot.run slot.before
    let content ← slot.replace.getD own ()
    let after ← Slot.run slot.after
    return before ++ content ++ after

section
variable (root : Binding) (limit : Nat)

mutual
def Instruction.run (f : Frame) : Instruction → Rendering
  | .text s => .ok (.ofPieces [.markup s])
  | .output expr format line => do
    let v ← f.eval expr line
    return .ofPieces [.data (Html.format v format)]
  | .attr name expr escape line => do
    let v ← f.eval expr line
    return .ofPieces (Html.attr name v escape)
  | .ifElse branches otherwise =>
    runBranches f (fun _ => runOption f otherwise) branches
  | .whileTrue expr body line =>
    Rendering.repeatWhile (fun _ => f.holds expr line) (fun _ => runAll f body)
      ⟨.loopLimit limit, f.filename, expr, line⟩ limit
  | .caseOf expr arms line => do
    let subject ← f.eval expr line
    runArms f line subject (fun _ => runDefault f arms) arms
  | .each value key expr body line => do
    let list ← f.eval expr line
    Rendering.forEach (fun entry => runAll (f.bind value key entry) body) list.entries
  | .block name body => Slot.fill (fun _ => runAll f body) (f.slots name)
  | .extension program options overrides dependency line => do
    let input ← f.input line options
    let r ← invoke (fun name => slotFor f name overrides) input program
    return r ++ .record dependency input
  | .inclusion program options dependency line => do
    let input ← f.input line options
    let r ← invoke noSlots input program
    return r ++ .record dependency input
def runAll (f : Frame) : List Instruction → Rendering
  | [] => .ok .empty
  | i :: is => do
    let r ← i.run f
    let rs ← runAll f is
    return r ++ rs
def runOption (f : Frame) : Option (List Instruction) → Rendering
  | some body => runAll f body
  | none => .ok .empty
def runBranches (f : Frame) (otherwise : Unit → Rendering) :
    List (Guarded (List Instruction)) → Rendering
  | [] => otherwise ()
  | ⟨expr, body, line⟩ :: bs => do
    if ← f.holds expr line then runAll f body else runBranches f otherwise bs
def runArms (f : Frame) (line : Nat) (subject : Value) (default : Unit → Rendering) :
    List (CaseArm (List Instruction)) → Rendering
  | [] => default ()
  | ⟨none, _⟩ :: as => runArms f line subject default as
  | ⟨some expr, body⟩ :: as => do
    let v ← f.eval expr line
    if subject.strictEq false v then runAll f body
    else runArms f line subject default as
/-- The first default arm, wherever it stands. -/
def runDefault (f : Frame) : List (CaseArm (List Instruction)) → Rendering
  | [] => .ok .empty
  | ⟨some _, _⟩ :: as => runDefault f as
  | ⟨none, body⟩ :: _ => runAll f body
def content (f : Frame) : Option (List Instruction) → Option (Unit → Rendering)
  | some body => some fun _ => runAll f body
  | none => none
/-- The overrides of a block; of two for the same block the later one counts. -/
def slotFor (f : Frame) (name : String) :
    List (Override (List Instruction)) → Option Slot
  | [] => none
  | ⟨block, before, replace, after⟩ :: os =>
    (slotFor f name os).or <|
      if block == name then
        some ⟨content f before, content f replace, content f after⟩
      else none
def invoke (slots : String → Option Slot) (input : Value) :
    ProgramOf (List Instruction) → Rendering
  | ⟨filename, _, _, body, _, freeNames⟩ =>
    runAll ⟨⟨filename, root freeNames input⟩, slots⟩ body
end

end

def Program.render (p : Program) (input : Value) (limit : Nat) : Rendering :=
  invoke rootScope limit noSlots input p

def defaultLimit : Nat := 10000

end Stencil
