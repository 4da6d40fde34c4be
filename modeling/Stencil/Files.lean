import Stencil.Diagnostic
import Stencil.Path
import Stencil.Text.LineEnding
import Stencil.Text.Offset

/-! # The table of files

Template sources by number and by path. A file keeps its number when its text is loaded again. -/

namespace Stencil

/-- A source: the path it was first loaded under, the path it was last loaded under, and its
normalized text. -/
structure File where
  path : String
  name : String
  source : String
  deriving DecidableEq, Repr

structure Files where
  entries : List File
  deriving DecidableEq, Repr

namespace Files

def empty : Files :=
  ⟨[]⟩

def id? (fs : Files) (path : String) : Option Nat :=
  fs.entries.findIdx? fun f => Path.same f.path path

def get? (fs : Files) (id : Nat) : Option File :=
  fs.entries[id]?

def «exists» (fs : Files) (path : String) : Bool :=
  fs.entries.any fun f => Path.same f.path path

def file? (fs : Files) (path : String) : Option File :=
  fs.entries.find? fun f => Path.same f.path path

def locate? (fs : Files) (path : String) : Option (Nat × File) :=
  (fs.id? path).bind fun id => (fs.get? id).map fun f => (id, f)

theorem mem_of_locate? {fs : Files} {path : String} {id : Nat} {file : File}
    (h : fs.locate? path = some (id, file)) :
    file ∈ fs.entries ∧ Path.same file.path path = true := by
  simp only [locate?, id?, get?, Option.bind_eq_some_iff, Option.map_eq_some_iff,
    List.findIdx?_eq_some_iff_getElem] at h
  obtain ⟨i, ⟨hi, hs, _⟩, f, hf, he⟩ := h
  obtain ⟨rfl, rfl⟩ := Prod.mk.inj he
  obtain ⟨_, rfl⟩ := List.getElem?_eq_some_iff.1 hf
  exact ⟨List.getElem_mem _, hs⟩

def load (fs : Files) (path text : String) : Nat × Files :=
  match fs.id? path with
  | some id =>
    (id, ⟨fs.entries.modify id fun f => { f with name := path, source := Text.normalize text }⟩)
  | none => (fs.entries.length, ⟨fs.entries ++ [⟨path, path, Text.normalize text⟩]⟩)

def resolve (fs : Files) (path : String) : Result Nat :=
  match fs.id? path with
  | some id => .ok id
  | none => .error (.plain (.unreadableFile path))

end Files

def lineStartsFrom (pos : Nat) : List Char → List Nat
  | [] => []
  | c :: cs =>
    if c == '\n' then (pos + 1) :: lineStartsFrom (pos + 1) cs
    else lineStartsFrom (pos + c.utf8Size) cs

def File.lineStarts (f : File) : List Nat :=
  0 :: lineStartsFrom 0 f.source.toList

/-- The line a byte is in; bytes past the end are in the last line. -/
def File.lineIndex (f : File) (byte : Nat) : Nat :=
  (f.lineStarts.filter (· ≤ byte)).length - 1

structure LineTooLarge where
  given : Nat
  max : Nat
  deriving DecidableEq, Repr

def LineTooLarge.message (e : LineTooLarge) : String :=
  "invalid line " ++ toString e.given ++ ", maximum line is " ++ toString e.max

/-- Where a line starts; the line past the last one starts at the end of the text. -/
def File.lineStart (f : File) (line : Nat) : Except LineTooLarge Nat :=
  let starts := f.lineStarts
  match starts[line]? with
  | some n => .ok n
  | none =>
    if line == starts.length then .ok (Text.width f.source.toList)
    else .error ⟨line, starts.length - 1⟩

def File.lineRange (f : File) (line : Nat) : Except LineTooLarge (Nat × Nat) := do
  let start ← f.lineStart line
  let stop ← f.lineStart (line + 1)
  return (start, stop)

end Stencil
