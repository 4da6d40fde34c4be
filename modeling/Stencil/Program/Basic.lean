import Stencil.Html

/-! # Programs

The compiled form of a template: a list of instructions, with the programs of the modules it uses
inside them. -/

namespace Stencil

/-- A piece of an option's text; it is not escaped, since the module that gets it does that. -/
inductive Part where
  | text (literal : String)
  | expr (source : String)
  deriving DecidableEq, Repr

inductive OptionValue where
  | boolean
  | text (parts : List Part)
  | expr (source : String)
  deriving DecidableEq, Repr

structure OptionEntry where
  name : String
  value : OptionValue
  deriving DecidableEq, Repr

inductive Use where
  | extension
  | inclusion
  deriving DecidableEq, Repr

def Use.name : Use → String
  | .extension => "extends"
  | .inclusion => "include"

structure Dependency where
  filename : String
  instanceName : String
  use : Use
  deriving DecidableEq, Repr

structure Guarded (α : Type) where
  expr : String
  body : α
  line : Nat
  deriving DecidableEq, Repr

structure CaseArm (α : Type) where
  expr : Option String
  body : α
  deriving DecidableEq, Repr

structure Override (α : Type) where
  block : String
  before : Option α
  replace : Option α
  after : Option α
  deriving DecidableEq, Repr

/-- One compiled file. Only its free names are bound when it is run. -/
structure ProgramOf (α : Type) where
  filename : Option String
  sid : String
  instanceName : String
  instructions : α
  blocks : List String
  freeNames : List String
  deriving DecidableEq, Repr

inductive Instruction where
  | text (literal : String)
  | output (expr : String) (format : Format) (line : Nat)
  | attr (name expr : String) (escape : Bool) (line : Nat)
  | ifElse (branches : List (Guarded (List Instruction))) (otherwise : Option (List Instruction))
  | whileTrue (expr : String) (body : List Instruction) (line : Nat)
  | caseOf (expr : String) (arms : List (CaseArm (List Instruction))) (line : Nat)
  | each (value : String) (key : Option String) (expr : String) (body : List Instruction)
      (line : Nat)
  | block (name : String) (body : List Instruction)
  | extension (program : ProgramOf (List Instruction)) (options : List OptionEntry)
      (overrides : List (Override (List Instruction))) (dependency : Option Dependency) (line : Nat)
  | inclusion (program : ProgramOf (List Instruction)) (options : List OptionEntry)
      (dependency : Option Dependency) (line : Nat)

abbrev Program := ProgramOf (List Instruction)

mutual
/-- The programs inside an instruction, each before those inside it. -/
def Instruction.programs : Instruction → List Program
  | .text _ => []
  | .output _ _ _ => []
  | .attr _ _ _ _ => []
  | .ifElse branches otherwise => programsOfBranches branches ++ programsOfOption otherwise
  | .whileTrue _ body _ => programsOf body
  | .caseOf _ arms _ => programsOfArms arms
  | .each _ _ _ body _ => programsOf body
  | .block _ body => programsOf body
  | .extension p _ overrides _ _ => programsFrom p ++ programsOfOverrides overrides
  | .inclusion p _ _ _ => programsFrom p
def programsOf : List Instruction → List Program
  | [] => []
  | i :: is => i.programs ++ programsOf is
def programsOfBranches : List (Guarded (List Instruction)) → List Program
  | [] => []
  | ⟨_, body, _⟩ :: bs => programsOf body ++ programsOfBranches bs
def programsOfArms : List (CaseArm (List Instruction)) → List Program
  | [] => []
  | ⟨_, body⟩ :: as => programsOf body ++ programsOfArms as
def programsOfOption : Option (List Instruction) → List Program
  | none => []
  | some body => programsOf body
def programsOfOverrides : List (Override (List Instruction)) → List Program
  | [] => []
  | ⟨_, before, replace, after⟩ :: os =>
    programsOfOption before ++ programsOfOption replace ++ programsOfOption after ++
      programsOfOverrides os
def programsFrom : ProgramOf (List Instruction) → List Program
  | ⟨filename, sid, name, body, blocks, free⟩ =>
    ⟨filename, sid, name, body, blocks, free⟩ :: programsOf body
end

end Stencil
