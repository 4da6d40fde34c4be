/-! # Nested scopes

Bindings by name in scopes that are entered and left; a name is resolved from the innermost scope
outwards. -/

namespace Stencil

/-- Scopes, innermost first, each with the bindings made in it. -/
structure Scopes (α : Type) where
  frames : List (List (String × α))

namespace Scopes

variable {α : Type}

def empty : Scopes α :=
  ⟨[]⟩

def enter (s : Scopes α) : Scopes α :=
  ⟨[] :: s.frames⟩

def exit? (s : Scopes α) : Option (Scopes α) :=
  match s.frames with
  | [] => none
  | _ :: fs => some ⟨fs⟩

/-- Bind a name in the innermost scope; without one, in a new outermost scope. -/
def define (s : Scopes α) (name : String) (value : α) : Scopes α :=
  match s.frames with
  | [] => ⟨[[(name, value)]]⟩
  | f :: fs => ⟨((name, value) :: f) :: fs⟩

def depth (s : Scopes α) : Nat :=
  s.frames.length

def resolve (s : Scopes α) (name : String) : Option α :=
  s.frames.findSome? fun f => f.lookup name

def isDefined (s : Scopes α) (name : String) : Bool :=
  (s.resolve name).isSome

end Scopes

end Stencil
