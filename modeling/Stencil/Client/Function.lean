import Stencil.Client.Literal
import Stencil.Client.Support
import Stencil.Program.Basic

/-! # Client functions

A program as the source of a function that takes the input and returns the rendered text, together
with the modules used if these are recorded. The free names of a program become parameters of an
inner function; expressions are copied as they are, in parentheses. -/

namespace Stencil.Client

def braced (s : String) : String :=
  "\x7b" ++ s ++ "\x7d"

def push (s : String) : String :=
  "__made_buf.push(" ++ s ++ ");"

def text (expr : String) : String :=
  "__made_view.str((" ++ expr ++ "))"

def test (expr : String) : String :=
  "(__made_view.ok((" ++ expr ++ ")))"

def output (expr : String) : Format → String
  | .escape => "__made_view.encode((" ++ expr ++ "))"
  | .raw => text expr
  | .classList => "__made_view.encode(__made_view.cls((" ++ expr ++ ")))"

def part : Part → String
  | .text s => literal s
  | .expr e => text e

def optionValue : OptionValue → String
  | .boolean => "true"
  | .expr e => "(" ++ e ++ ")"
  | .text [] => "\"\""
  | .text parts => "(" ++ String.intercalate "+" (parts.map part) ++ ")"

def option (o : OptionEntry) : String :=
  literal o.name ++ ":" ++ optionValue o.value

def options (os : List OptionEntry) : String :=
  braced (String.intercalate "," (os.map option))

def parameters (value : String) : Option String → String
  | some key => value ++ "," ++ key
  | none => value

def record (recording : Bool) : Option Dependency → String
  | none => ""
  | some d =>
    if recording then
      "__made_dep.push(" ++
        braced ("filename:" ++ literal d.filename ++ ",instance:" ++ literal d.instanceName ++
          ",type:" ++ literal d.use.name ++ ",options:__made_locals") ++
        ");"
    else ""

section
variable (recording : Bool)

mutual
def instruction : Instruction → String
  | .text s => push (literal s)
  | .output expr format _ => push (output expr format)
  | .attr name expr escape _ =>
    push ("__made_view.attr(" ++ literal name ++ ",(" ++ expr ++ ")," ++
      (if escape then "true" else "false") ++ ")")
  | .ifElse branches otherwise =>
    String.intercalate "else " (conditions branches) ++ alternative otherwise
  | .whileTrue expr body _ => "while" ++ test expr ++ braced (instructions body)
  | .caseOf expr arms _ =>
    "switch((" ++ expr ++ "))" ++ braced (cases arms ++ default arms)
  | .each value key expr body _ =>
    "__made_view.each((" ++ expr ++ "),function(" ++ parameters value key ++ ")" ++
      braced (instructions body) ++ ");"
  | .block name body =>
    "__made_view.block(__made_block," ++ literal name ++ ",function()" ++
      braced (instructions body) ++ ");"
  | .extension p os overrides dependency _ =>
    "(function(__made_locals,__made_block)" ++ braced (program p ++ record recording dependency) ++
      ")(" ++ options os ++ "," ++
      braced (String.intercalate "," (contents overrides)) ++ ");"
  | .inclusion p os dependency _ =>
    "(function(__made_locals,__made_block)" ++ braced (program p ++ record recording dependency) ++
      ")(" ++ options os ++ "," ++ braced "" ++ ");"
def instructions : List Instruction → String
  | [] => ""
  | i :: is => instruction i ++ instructions is
def conditions : List (Guarded (List Instruction)) → List String
  | [] => []
  | ⟨expr, body, _⟩ :: bs =>
    ("if" ++ test expr ++ braced (instructions body)) :: conditions bs
def alternative : Option (List Instruction) → String
  | none => ""
  | some body => "else" ++ braced (instructions body)
def cases : List (CaseArm (List Instruction)) → String
  | [] => ""
  | ⟨none, _⟩ :: as => cases as
  | ⟨some expr, body⟩ :: as =>
    "case (" ++ expr ++ "):" ++ braced (instructions body ++ "break") ++ cases as
/-- The first default arm, written last. -/
def default : List (CaseArm (List Instruction)) → String
  | [] => ""
  | ⟨some _, _⟩ :: as => default as
  | ⟨none, body⟩ :: _ => "default:" ++ braced (instructions body)
def content : Option (List Instruction) → String
  | none => "null"
  | some body => "function()" ++ braced (instructions body)
def contents : List (Override (List Instruction)) → List String
  | [] => []
  | ⟨block, before, replace, after⟩ :: os =>
    (literal block ++ ":[" ++ content before ++ "," ++ content replace ++ "," ++
      content after ++ "]") :: contents os
def program : ProgramOf (List Instruction) → String
  | ⟨_, _, _, body, _, freeNames⟩ =>
    ";(function(" ++ String.intercalate "," freeNames ++ ")" ++ braced (instructions body) ++
      ")(" ++
      String.intercalate "," (freeNames.map fun n => "__made_locals[" ++ literal n ++ "]") ++ ");"
end

end

def functionWith (support : String) (p : Program) (recording : Bool) : String :=
  "function(__made_locals)" ++
    braced ("var __made_view=" ++ support ++
      ";var __made_buf=[];var __made_block=" ++ braced "" ++
      ";__made_locals=__made_locals||" ++ braced "" ++ ";" ++
      (if recording then "var __made_dep=[];" else "") ++
      program recording p ++
      (if recording then "return [__made_buf.join(\"\"),__made_dep];"
        else "return __made_buf.join(\"\");"))

end Stencil.Client

namespace Stencil

def Program.toClient (p : Program) (recording : Bool) : String :=
  Client.functionWith Client.support p recording

end Stencil
