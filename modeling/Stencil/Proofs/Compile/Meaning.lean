import Stencil.Compile.Module
import Stencil.Proofs.Render.Page

/-! # The meaning of documents

What a document shows, read off its nodes with no program in between: every node writes its own text
in source order, and a use of a module shows the document of that module. A block shows what the
templates that extend its own have for it; that content is read where it was written. -/

namespace Stencil

open Template

/-- What is shown for a block, from what its own template has for it. -/
abbrev Fill := String → Shown → Shown

/-- A template that nothing extends keeps its blocks. -/
def Fill.own : Fill := fun _ own => own

def written (rs : List (Replace Shown)) (position : Position) (block : String) : Shown :=
  .inOrder ((rs.filter fun r => r.position == position && r.block == block).map (·.body))

def isReplaced (rs : List (Replace Shown)) (block : String) : Bool :=
  rs.any fun r => r.position == .replace && r.block == block

/-- An extension shows a block between what it has before it and after it, and in its place whatever
it has for that; with nothing for that, the block is what its own template has. -/
def Fill.extended (rs : List (Replace Shown)) : Fill := fun block own =>
  .inOrder [written rs .before block,
    if isReplaced rs block then written rs .replace block else own,
    written rs .after block]

/-- A module as a reference finds it: what it shows, from how its blocks are filled and its
input. -/
structure Module where
  target : Resolved
  shown : Fill → Value → Shown

structure Viewer where
  options : Options
  sid : String
  transforms : Transforms
  limit : Nat
  /-- The module that a reference on a line, at an indentation, stands for. -/
  find : (reference : String) → (line : Nat) → (indent : String) → Option Module

namespace Viewer

def segment (g : Setting) (line : Nat) : Segment → Shown
  | .literal s => .text s
  | .interpolation e escape _ => do
    let v ← g.eval e line
    Shown.text (if escape then Html.encode v.display else v.display)

def interpolated (g : Setting) (line : Nat) (text : String) : Shown :=
  match segments text with
  | .ok ss => .forEach (segment g line) ss
  | .error _ => .nothing

def transformed (v : Viewer) (name value : String) (target : Target) : Option String :=
  match segments value with
  | .ok ss => if isPlain ss then v.transforms.run name value target v.options else none
  | .error _ => none

def idStart (v : Viewer) : String :=
  v.sid ++ "-" ++ if v.options.instanceName == "" then "" else v.options.instanceName ++ "-"

def attr (v : Viewer) (g : Setting) (line : Nat) (tag : String) (a : Attribute) : Shown :=
  if a.name = "class" then .nothing
  else match a.value with
    | .boolean => .text (" " ++ a.name)
    | .expr e => do
      let x ← g.eval e line
      Shown.text (Html.join (Html.attr a.name x a.escaped))
    | .literal value =>
      let content := match v.transformed a.name value (.tag tag) with
        | some s => .text s
        | none => interpolated g line value
      .inOrder <|
        if a.name = "id" then [.text (" id=\"" ++ v.idStart), interpolated g line value, .text "\""]
        else [.text (" " ++ a.name ++ "=\""), content, .text "\""]

def classValue (g : Setting) (line : Nat) (a : Attribute) : Shown :=
  match a.value with
  | .literal value => interpolated g line value
  | .expr e => do
    let x ← g.eval e line
    Shown.text (Html.encode x.classList)
  | .boolean => .nothing

def classes (v : Viewer) (g : Setting) (line : Nat) (head : TagHead) : Shown :=
  let own := head.classes.map fun n => Shown.text (v.sid ++ "-" ++ n)
  let given := (head.attrs.filter fun a => a.name == "class").map (classValue g line)
  if (own ++ given).isEmpty then .nothing
  else .inOrder (.text " class=\"" :: (own ++ given).intersperse (.text " ") ++ [.text "\""])

def layout (v : Viewer) (indent : String) : Shown :=
  if v.options.pretty then .text indent else .nothing

def openTag (v : Viewer) (g : Setting) (indent : String) (line : Nat) (head : TagHead) : Shown :=
  .inOrder [if head.inline then .nothing else v.layout indent, .text ("<" ++ head.name),
    .forEach (v.attr g line head.name) head.attrs, v.classes g line head, .text ">"]

def closeTag (v : Viewer) (indent : String) (head : TagHead) (hasBody : Bool) : Shown :=
  .inOrder [if head.inline || !hasBody then .nothing else v.layout indent,
    .text ("</" ++ head.name ++ ">")]

def tagText (g : Setting) (line : Nat) (head : TagHead) : Shown :=
  match head.text with
  | some text => interpolated g line text
  | none => .nothing

def optionText (g : Setting) (line : Nat) : List Segment → Except RenderError String
  | [] => .ok ""
  | .literal s :: ss => do
    let rest ← optionText g line ss
    return s ++ rest
  | .interpolation e _ _ :: ss => do
    let x ← g.eval e line
    let rest ← optionText g line ss
    return x.display ++ rest

def option (v : Viewer) (g : Setting) (line : Nat) (a : Attribute) : Except RenderError Value :=
  match a.value with
  | .boolean => .ok (.bool true)
  | .expr e => g.eval e line
  | .literal value => match v.transformed a.name value .option, segments value with
    | some s, _ => .ok (.str s)
    | none, .ok ss => (optionText g line ss).map .str
    | none, .error _ => .ok .null

def optionFields (v : Viewer) (g : Setting) (line : Nat) :
    List Attribute → Except RenderError (List (String × Value))
  | [] => .ok []
  | a :: as => do
    let x ← v.option g line a
    let fs ← optionFields v g line as
    return (a.name, x) :: fs

def input (v : Viewer) (g : Setting) (line : Nat) (options : List Attribute) :
    Except RenderError Value := do
  let fs ← v.optionFields g line options
  return .obj (Fields.ofList fs)

def use (v : Viewer) (g : Setting) (line : Nat) (options : List Attribute) (kind : Use) (m : Module)
    (fill : Fill) : Shown := do
  let input ← v.input g line options
  let page ← m.shown fill input
  let record := if v.options.dep then
      [⟨⟨m.target.filename, m.target.instanceName, kind⟩, input⟩] else []
  return page ++ ⟨"", record⟩

mutual
def node (v : Viewer) (fill : Fill) (g : Setting) (indent : String) : Node → Shown
  | .doctype _ value => .text ("<!DOCTYPE " ++ value ++ ">")
  | .tag mark head body =>
    .andThen (v.openTag g indent mark.line head) <|
      if head.selfClosing then .nothing
      else .inOrder [tagText g mark.line head, nodes v fill g (Compiler.deeper indent) body,
        v.closeTag indent head !body.isEmpty]
  | .text mark text => interpolated g mark.line text
  | .comment _ text true => .andThen (v.layout indent) (.text ("<!--" ++ text ++ "-->"))
  | .comment _ _ false => .nothing
  | .block _ name body => fill name (nodes v fill g indent body)
  | .extension mark reference options replaces => match v.find reference mark.line indent with
    | none => .nothing
    | some m =>
      v.use g mark.line options .extension m (.extended (shownReplaces v fill g indent replaces))
  | .inclusion mark reference options => match v.find reference mark.line indent with
    | none => .nothing
    | some m => v.use g mark.line options .inclusion m .own
  | .caseOf mark expr arms => do
    let subject ← g.eval expr mark.line
    firstArm v fill g indent mark.line subject (defaultArm v fill g indent arms) arms
  | .ifElse _ branches otherwise =>
    firstBranch v fill g indent (alternative v fill g indent otherwise) branches
  | .whileTrue mark expr body =>
    .repeatWhile (g.holds expr mark.line) (nodes v fill g indent body)
      ⟨.loopLimit v.limit, g.filename, expr, mark.line⟩ v.limit
  | .each mark value key expr body => do
    let list ← g.eval expr mark.line
    Shown.forEach (fun entry => nodes v fill (g.bind value key entry) indent body) list.entries
def nodes (v : Viewer) (fill : Fill) (g : Setting) (indent : String) : List Node → Shown
  | [] => .nothing
  | n :: ns => .andThen (node v fill g indent n) (nodes v fill g indent ns)
def firstBranch (v : Viewer) (fill : Fill) (g : Setting) (indent : String) (otherwise : Shown) :
    List (Branch (List Node)) → Shown
  | [] => otherwise
  | ⟨expr, line, body⟩ :: bs => do
    if ← g.holds expr line then nodes v fill g indent body
    else firstBranch v fill g indent otherwise bs
def alternative (v : Viewer) (fill : Fill) (g : Setting) (indent : String) :
    Option (List Node) → Shown
  | none => .nothing
  | some body => nodes v fill g indent body
def firstArm (v : Viewer) (fill : Fill) (g : Setting) (indent : String) (line : Nat)
    (subject : Value) (default : Shown) : List (Arm (List Node)) → Shown
  | [] => default
  | ⟨none, _, _⟩ :: as => firstArm v fill g indent line subject default as
  | ⟨some expr, _, body⟩ :: as => do
    let x ← g.eval expr line
    if subject.strictEq false x then nodes v fill g indent body
    else firstArm v fill g indent line subject default as
/-- The first default arm, wherever it stands. -/
def defaultArm (v : Viewer) (fill : Fill) (g : Setting) (indent : String) :
    List (Arm (List Node)) → Shown
  | [] => .nothing
  | ⟨some _, _, _⟩ :: as => defaultArm v fill g indent as
  | ⟨none, _, body⟩ :: _ => nodes v fill g indent body
/-- The content for blocks of the extended template; it is read where the extension stands. -/
def shownReplaces (v : Viewer) (fill : Fill) (g : Setting) (indent : String) :
    List (Replace (List Node)) → List (Replace Shown)
  | [] => []
  | ⟨position, block, line, body⟩ :: rs =>
    ⟨position, block, line, nodes v fill g (Compiler.deeper indent) body⟩ ::
      shownReplaces v fill g indent rs
end

end Viewer

namespace Template

mutual
def Node.references : Node → List String
  | .doctype _ _ => []
  | .tag _ _ body => referencesOf body
  | .text _ _ => []
  | .comment _ _ _ => []
  | .block _ _ body => referencesOf body
  | .extension _ reference _ replaces => reference :: referencesOfReplaces replaces
  | .inclusion _ reference _ => [reference]
  | .caseOf _ _ arms => referencesOfArms arms
  | .ifElse _ branches otherwise => referencesOfBranches branches ++ referencesOfOtherwise otherwise
  | .whileTrue _ _ body => referencesOf body
  | .each _ _ _ _ body => referencesOf body
def referencesOf : List Node → List String
  | [] => []
  | n :: ns => n.references ++ referencesOf ns
def referencesOfReplaces : List (Replace (List Node)) → List String
  | [] => []
  | ⟨_, _, _, body⟩ :: rs => referencesOf body ++ referencesOfReplaces rs
def referencesOfArms : List (Arm (List Node)) → List String
  | [] => []
  | ⟨_, _, body⟩ :: as => referencesOf body ++ referencesOfArms as
def referencesOfBranches : List (Branch (List Node)) → List String
  | [] => []
  | ⟨_, _, body⟩ :: bs => referencesOf body ++ referencesOfBranches bs
def referencesOfOtherwise : Option (List Node) → List String
  | none => []
  | some body => referencesOf body
end

def Document.references (d : Document) : List String :=
  referencesOf d.nodes

end Template

def boundNames : Result Program → List String
  | .ok p => p.freeNames
  | .error _ => []

def shownDocument (limit : Nat) (files : Files) (transforms : Transforms) (options : Options)
    (chain : List String) (d : Document) (fill : Fill) (input : Value) : Shown :=
  let sid := scopeId options.filename options.instanceName
  let find (reference : String) (line : Nat) (indent : String) : Option Module :=
    match findModule files options chain sid reference line with
    | .error _ => none
    | .ok m =>
      have := m.outside
      some ⟨m.target, fun fill input =>
        shownDocument limit files transforms (options.forModule m.target indent)
          (chain ++ [m.target.filename]) m.document fill input⟩
  let names := boundNames (compile files transforms options chain d)
  (Viewer.mk options sid transforms limit find).nodes fill
    ⟨options.filename, rootScope names input⟩ options.indent d.nodes
termination_by files.outside chain

end Stencil
