import Stencil.Options

/-! # Transforms

Rewriting of plain literal values of attributes and options, looked up by name. -/

namespace Stencil

inductive Target where
  | tag (name : String)
  /-- An option for another module. -/
  | option
  deriving DecidableEq, Repr

/-- A new value, or none to keep the given one. -/
abbrev Transform := String → Target → Options → Option String

/-- The latest registration comes first. -/
abbrev Transforms := List (String × Transform)

def Transforms.insert (ts : Transforms) (name : String) (f : Transform) : Transforms :=
  (name, f) :: ts

def Transforms.run (ts : Transforms) (name value : String) (target : Target) (options : Options) :
    Option String :=
  (List.lookup name ts).bind fun f => f value target options

end Stencil
