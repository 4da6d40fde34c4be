/-! # Paths

Paths are texts with slashes. Two paths name the same file when their parts agree: repeated slashes,
slashes at the end and points in the middle do not count. -/

namespace Stencil.Path

def pieces (acc : List Char) : List Char → List String
  | [] => [String.ofList acc.reverse]
  | c :: cs => if c == '/' then String.ofList acc.reverse :: pieces [] cs else pieces (c :: acc) cs

/-- A path taken apart. A point is a part only at the start of a relative path. -/
structure Parts where
  absolute : Bool
  names : List String
  deriving DecidableEq, Repr

def isAbsolute (path : String) : Bool :=
  path.toList.head? == some '/'

def parts (path : String) : Parts :=
  let named := (pieces [] path.toList).filter (· != "")
  if isAbsolute path then ⟨true, named.filter (· != ".")⟩
  else match named with
    | [] => ⟨false, []⟩
    | n :: ns => ⟨false, n :: ns.filter (· != ".")⟩

def Parts.text (p : Parts) : String :=
  (if p.absolute then "/" else "") ++ String.intercalate "/" p.names

def same (a b : String) : Bool :=
  parts a == parts b

theorem same_comm (a b : String) : same a b = same b a := by
  simp only [same]
  exact Bool.beq_comm

/-- Follow `..` back; the names so far are last first. -/
def resolveUp : List String → List String → List String
  | done, [] => done.reverse
  | done, n :: ns => if n == ".." then resolveUp done.tail ns else resolveUp (n :: done) ns

/-- Collapse `.` and `..`. A path that starts with one of them starts at the working directory,
which is taken to be the root. -/
def normalize (path : String) : String :=
  let p := parts path
  match p.absolute, p.names with
  | false, n :: ns =>
    if n == "." || n == ".." then Parts.text ⟨true, resolveUp [] ns⟩
    else Parts.text ⟨false, resolveUp [] (n :: ns)⟩
  | absolute, ns => Parts.text ⟨absolute, resolveUp [] ns⟩

def join (base path : String) : String :=
  if isAbsolute path then path
  else if base == "" || base.toList.getLast? == some '/' then base ++ path
  else base ++ "/" ++ path

def parent? (path : String) : Option String :=
  let p := parts path
  if p.names.isEmpty then none else some (Parts.text ⟨p.absolute, p.names.dropLast⟩)

end Stencil.Path
