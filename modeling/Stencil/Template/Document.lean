import Stencil.Template.Token

/-! # Documents

A parsed template: a tree of nodes, each with the line and the span of the token it came from. -/

namespace Stencil.Template

structure Mark where
  line : Nat
  span : Span
  deriving DecidableEq, Repr

structure TagHead where
  name : String
  selfClosing : Bool
  inline : Bool
  attrs : List Attribute
  classes : List String
  text : Option String
  deriving DecidableEq, Repr

structure Replace (α : Type) where
  position : Position
  block : String
  line : Nat
  body : α

/-- An arm of a case; the default arm has no expression. -/
structure Arm (α : Type) where
  expr : Option String
  line : Nat
  body : α

structure Branch (α : Type) where
  expr : String
  line : Nat
  body : α

inductive Node where
  | doctype (mark : Mark) (value : String)
  | tag (mark : Mark) (head : TagHead) (body : List Node)
  | text (mark : Mark) (text : String)
  | comment (mark : Mark) (text : String) (buffered : Bool)
  | block (mark : Mark) (name : String) (body : List Node)
  | extension (mark : Mark) (reference : String) (options : List Attribute)
      (replaces : List (Replace (List Node)))
  | inclusion (mark : Mark) (reference : String) (options : List Attribute)
  | caseOf (mark : Mark) (expr : String) (arms : List (Arm (List Node)))
  | ifElse (mark : Mark) (branches : List (Branch (List Node))) (otherwise : Option (List Node))
  | whileTrue (mark : Mark) (expr : String) (body : List Node)
  | each (mark : Mark) (value : String) (key : Option String) (expr : String) (body : List Node)

structure Document where
  nodes : List Node
  filename : Option String

mutual
/-- The blocks declared in a node, with their lines, in the order of declaration. -/
def Node.blocks : Node → List (String × Nat)
  | .doctype _ _ => []
  | .tag _ _ body => blocksOf body
  | .text _ _ => []
  | .comment _ _ _ => []
  | .block mark name body => (name, mark.line) :: blocksOf body
  | .extension _ _ _ replaces => blocksOfReplaces replaces
  | .inclusion _ _ _ => []
  | .caseOf _ _ arms => blocksOfArms arms
  | .ifElse _ branches otherwise => blocksOfBranches branches ++ blocksOfOtherwise otherwise
  | .whileTrue _ _ body => blocksOf body
  | .each _ _ _ _ body => blocksOf body
def blocksOf : List Node → List (String × Nat)
  | [] => []
  | n :: ns => n.blocks ++ blocksOf ns
def blocksOfReplaces : List (Replace (List Node)) → List (String × Nat)
  | [] => []
  | ⟨_, _, _, body⟩ :: rs => blocksOf body ++ blocksOfReplaces rs
def blocksOfArms : List (Arm (List Node)) → List (String × Nat)
  | [] => []
  | ⟨_, _, body⟩ :: as => blocksOf body ++ blocksOfArms as
def blocksOfBranches : List (Branch (List Node)) → List (String × Nat)
  | [] => []
  | ⟨_, _, body⟩ :: bs => blocksOf body ++ blocksOfBranches bs
def blocksOfOtherwise : Option (List Node) → List (String × Nat)
  | none => []
  | some body => blocksOf body
end

def Document.blocks (d : Document) : List (String × Nat) :=
  blocksOf d.nodes

def firstRepeated (seen : List String) : List (String × Nat) → Option (String × Nat)
  | [] => none
  | (name, line) :: bs =>
    if seen.contains name then some (name, line) else firstRepeated (name :: seen) bs

end Stencil.Template
