import Stencil.Program.Basic
import Stencil.Reference
import Stencil.ScopeId
import Stencil.Template.Document
import Stencil.Text.Similar
import Stencil.Transform

/-! # Compiling nodes

The instructions of the nodes of one file. A node gives its instructions one by one; texts next to
each other are joined where a list of instructions is complete. -/

namespace Stencil

open Template

/-- Join neighbouring texts and leave out empty ones. -/
def coalesce : List Instruction → List Instruction
  | [] => []
  | .text s :: is => match coalesce is with
    | .text t :: rest => .text (s ++ t) :: rest
    | rest => if s == "" then rest else .text s :: rest
  | i :: is => i :: coalesce is

structure Embedded where
  program : Program
  target : Resolved

structure Compiler where
  options : Options
  sid : String
  transforms : Transforms
  /-- The module that a reference on a line, at an indentation, stands for. -/
  embed : (reference : String) → (line : Nat) → (indent : String) → Result Embedded

def Segment.instruction (line : Nat) : Segment → Instruction
  | .literal s => .text s
  | .interpolation e escape _ => .output e (if escape then .escape else .raw) line

def Segment.part : Segment → Part
  | .literal s => .text s
  | .interpolation e _ _ => .expr e

def interpolate (text : String) (line : Nat) : Result (List Instruction) :=
  (segmentsOnLine text line).map fun ss => ss.map (Segment.instruction line)

def Override.add (o : Override (List Instruction)) (position : Position)
    (body : List Instruction) : Override (List Instruction) :=
  let joined (old : Option (List Instruction)) := some (coalesce (old.getD [] ++ body))
  match position with
  | .before => { o with before := joined o.before }
  | .replace => { o with replace := joined o.replace }
  | .after => { o with after := joined o.after }

def addOverride (position : Position) (block : String) (body : List Instruction) :
    List (Override (List Instruction)) → List (Override (List Instruction))
  | [] => [Override.add ⟨block, none, none, none⟩ position body]
  | o :: os =>
    if o.block == block then o.add position body :: os else o :: addOverride position block body os

namespace Compiler

/-- A literal attribute; a value with interpolations is not transformed. -/
def literalAttr (c : Compiler) (tag name value : String) (line : Nat) : Result (List Instruction) :=
  do
    let ss ← segmentsOnLine value line
    let transformed :=
      if isPlain ss then c.transforms.run name value (.tag tag) c.options else none
    let content := match transformed with
      | some s => [.text s]
      | none => ss.map (Segment.instruction line)
    return .text (" " ++ name ++ "=\"") :: content ++ [.text "\""]

def attr (c : Compiler) (tag : String) (line : Nat) (a : Attribute) : Result (List Instruction) :=
  match a.value with
  | .boolean => .ok [.text (" " ++ a.name)]
  | .literal value => c.literalAttr tag a.name value line
  | .expr e => .ok [.attr a.name e a.escaped line]

/-- A literal id is kept apart from those of other files and instances. -/
def idAttr (c : Compiler) (value : String) (line : Nat) : Result (List Instruction) := do
  let name := if c.options.instanceName == "" then "" else c.options.instanceName ++ "-"
  let content ← interpolate value line
  return .text (" id=\"" ++ c.sid ++ "-" ++ name) :: content ++ [.text "\""]

def attrBesideClass (c : Compiler) (tag : String) (line : Nat) (a : Attribute) :
    Result (List Instruction) :=
  match a.name, a.value with
  | "class", _ => .ok []
  | "id", .literal value => c.idAttr value line
  | _, _ => c.attr tag line a

def attrs (c : Compiler) (tag : String) (line : Nat) : List Attribute → Result (List Instruction)
  | [] => .ok []
  | a :: as => do
    let first ← c.attrBesideClass tag line a
    let rest ← c.attrs tag line as
    return first ++ rest

def classValue (line : Nat) (a : Attribute) : Result (List Instruction) :=
  match a.value with
  | .literal value => interpolate value line
  | .expr e => .ok [.output e .classList line]
  | .boolean => .ok []

/-- The values of the attributes for classes, with a blank before each but the very first. -/
def classValues (line : Nat) (first : Bool) : List Attribute → Result (List Instruction)
  | [] => .ok []
  | a :: as => do
    let value ← classValue line a
    let rest ← classValues line false as
    return (if first then [] else [.text " "]) ++ value ++ rest

/-- One attribute for all classes. Those of the short form are kept apart from those of other
files. -/
def classes (c : Compiler) (head : TagHead) (line : Nat) : Result (List Instruction) := do
  let given := head.attrs.filter fun a => a.name == "class"
  if head.classes.isEmpty && given.isEmpty then return []
  let own := String.intercalate " " (head.classes.map fun n => c.sid ++ "-" ++ n)
  let values ← classValues line head.classes.isEmpty given
  return .text (" class=\"" ++ own) :: values ++ [.text "\""]

def layout (c : Compiler) (indent : String) : List Instruction :=
  if c.options.pretty then [.text indent] else []

def openTag (c : Compiler) (indent : String) (head : TagHead) (line : Nat) :
    Result (List Instruction) := do
  let attrs ← c.attrs head.name line head.attrs
  let classes ← c.classes head line
  return (if head.inline then [] else c.layout indent) ++ .text ("<" ++ head.name) :: attrs ++
    classes ++ [.text ">"]

def closeTag (c : Compiler) (indent : String) (head : TagHead) (hasBody : Bool) :
    List Instruction :=
  (if head.inline || !hasBody then [] else c.layout indent) ++ [.text ("</" ++ head.name ++ ">")]

def tagText (head : TagHead) (line : Nat) : Result (List Instruction) :=
  match head.text with
  | some text => interpolate text line
  | none => .ok []

def optionText (c : Compiler) (name value : String) (line : Nat) : Result (List Part) := do
  let ss ← segmentsOnLine value line
  let transformed := if isPlain ss then c.transforms.run name value .option c.options else none
  return match transformed with
    | some s => [.text s]
    | none => ss.map Segment.part

def option (c : Compiler) (line : Nat) (a : Attribute) : Result OptionEntry :=
  match a.value with
  | .boolean => .ok ⟨a.name, .boolean⟩
  | .expr e => .ok ⟨a.name, .expr e⟩
  | .literal value => (c.optionText a.name value line).map fun parts => ⟨a.name, .text parts⟩

def optionList (c : Compiler) (line : Nat) : List Attribute → Result (List OptionEntry)
  | [] => .ok []
  | a :: as => do
    let o ← c.option line a
    let os ← c.optionList line as
    return o :: os

def dependency (c : Compiler) (m : Resolved) (use : Use) : Option Dependency :=
  if c.options.dep then some ⟨m.filename, m.instanceName, use⟩ else none

def deeper (indent : String) : String :=
  indent ++ "  "

mutual
def node (c : Compiler) (indent : String) : Node → Result (List Instruction)
  | .doctype _ value => .ok [.text ("<!DOCTYPE " ++ value ++ ">")]
  | .tag mark head body => do
    let start ← c.openTag indent head mark.line
    if head.selfClosing then return start
    let text ← tagText head mark.line
    let content ← nodes c (deeper indent) body
    return start ++ text ++ content ++ c.closeTag indent head !body.isEmpty
  | .text mark text => interpolate text mark.line
  | .comment _ text true => .ok (c.layout indent ++ [.text ("<!--" ++ text ++ "-->")])
  | .comment _ _ false => .ok []
  | .block _ name body => do
    let body ← nodes c indent body
    return [.block name (coalesce body)]
  | .extension mark reference options replaces => do
    let e ← c.embed reference mark.line indent
    let overrides ← replacements c indent e [] replaces
    let options ← c.optionList mark.line options
    return [.extension e.program options overrides (c.dependency e.target .extension) mark.line]
  | .inclusion mark reference options => do
    let e ← c.embed reference mark.line indent
    let options ← c.optionList mark.line options
    return [.inclusion e.program options (c.dependency e.target .inclusion) mark.line]
  | .caseOf mark expr arms => do
    let arms ← caseArms c indent arms
    return [.caseOf expr arms mark.line]
  | .ifElse _ branches otherwise => do
    let branches ← guarded c indent branches
    let otherwise ← alternative c indent otherwise
    return [.ifElse branches otherwise]
  | .whileTrue mark expr body => do
    let body ← nodes c indent body
    return [.whileTrue expr (coalesce body) mark.line]
  | .each mark value key expr body => do
    let body ← nodes c indent body
    return [.each value key expr (coalesce body) mark.line]
def nodes (c : Compiler) (indent : String) : List Node → Result (List Instruction)
  | [] => .ok []
  | n :: ns => do
    let first ← node c indent n
    let rest ← nodes c indent ns
    return first ++ rest
def caseArms (c : Compiler) (indent : String) :
    List (Arm (List Node)) → Result (List (CaseArm (List Instruction)))
  | [] => .ok []
  | ⟨expr, _, body⟩ :: as => do
    let body ← nodes c indent body
    let rest ← caseArms c indent as
    return ⟨expr, coalesce body⟩ :: rest
def guarded (c : Compiler) (indent : String) :
    List (Branch (List Node)) → Result (List (Guarded (List Instruction)))
  | [] => .ok []
  | ⟨expr, line, body⟩ :: bs => do
    let body ← nodes c indent body
    let rest ← guarded c indent bs
    return ⟨expr, coalesce body, line⟩ :: rest
def alternative (c : Compiler) (indent : String) :
    Option (List Node) → Result (Option (List Instruction))
  | none => .ok none
  | some body => do
    let body ← nodes c indent body
    return some (coalesce body)
/-- The overrides for an extended module, which must have the blocks they are for. -/
def replacements (c : Compiler) (indent : String) (e : Embedded)
    (done : List (Override (List Instruction))) :
    List (Replace (List Node)) → Result (List (Override (List Instruction)))
  | [] => .ok done
  | ⟨position, block, line, body⟩ :: rs =>
    if e.program.blocks.contains block then do
      let body ← nodes c (deeper indent) body
      replacements c indent e (addOverride position block (coalesce body) done) rs
    else
      let similar := Text.findSimilar block e.program.blocks
      .error (.onLine (.noSuchBlock block e.target.filename similar) line)
end

end Compiler

end Stencil
