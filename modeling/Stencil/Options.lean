import Stencil.Json.Read

/-! # Options

How a template is compiled: where its modules are looked for, how its instances are named, and how
its markup is laid out. -/

namespace Stencil

/-- The build mode. It changes nothing by itself; transforms may read it. -/
inductive Model where
  | dev
  | prod
  deriving DecidableEq, Repr

structure Options where
  /-- The template of a module that is a directory. -/
  entry : String := "view.made"
  ext : String := ".made"
  /-- The directory that module references are resolved against. -/
  basedir : String := "."
  /-- The file under compilation, if it has a name. -/
  filename : Option String := none
  instanceName : String := ""
  /-- Whether the scope id and the instance of a file go into those of its modules. -/
  instanceThrough : Bool := true
  model : Model := .dev
  /-- Whether tags go on lines of their own. -/
  pretty : Bool := false
  /-- The line break and indentation to start with. -/
  indent : String := "\n"
  /-- Whether the modules used in a rendering are recorded. -/
  dep : Bool := false
  deriving DecidableEq, Repr

namespace Options

open Json (Tree)

def text? : Tree → Option String
  | .str s => s
  | _ => none

def flag? : Tree → Option Bool
  | .bool b => some b
  | _ => none

def optionalText? : Tree → Option (Option String)
  | .null => some none
  | .str s => s.map some
  | _ => none

def modelNamed? (name : String) : Option Model :=
  if name == "dev" then some .dev else if name == "prod" then some .prod else none

/-- A model is written as its name, or as an object whose only field has that name and is null. -/
def model? : Tree → Option Model
  | .str (some s) => modelNamed? s
  | .obj [(some s, .null)] => modelNamed? s
  | _ => none

def settings : List String :=
  ["entry", "ext", "basedir", "filename", "instance", "instance_through", "model", "pretty",
    "indent", "dep"]

/-- Change one setting. Names that are no setting are passed over. -/
def set? (o : Options) (name : String) (t : Tree) : Option Options :=
  match name with
  | "entry" => (text? t).map fun s => { o with entry := s }
  | "ext" => (text? t).map fun s => { o with ext := s }
  | "basedir" => (text? t).map fun s => { o with basedir := s }
  | "filename" => (optionalText? t).map fun s => { o with filename := s }
  | "instance" => (text? t).map fun s => { o with instanceName := s }
  | "instance_through" => (flag? t).map fun b => { o with instanceThrough := b }
  | "model" => (model? t).map fun m => { o with model := m }
  | "pretty" => (flag? t).map fun b => { o with pretty := b }
  | "indent" => (text? t).map fun s => { o with indent := s }
  | "dep" => (flag? t).map fun b => { o with dep := b }
  | _ => some o

/-- Settings by name; none may be given twice. -/
def setFields (seen : List String) (o : Options) : List (Option String × Tree) → Option Options
  | [] => some o
  | (none, _) :: _ => none
  | (some name, t) :: fs =>
    if seen.contains name then none
    else (o.set? name t).bind fun o =>
      setFields (if settings.contains name then name :: seen else seen) o fs

/-- Settings by place; there may be fewer than all. -/
def setItems (o : Options) : List String → List Tree → Option Options
  | _, [] => some o
  | [], _ :: _ => none
  | name :: names, t :: ts => (o.set? name t).bind fun o => setItems o names ts

def ofTree? : Tree → Option Options
  | .obj fields => setFields [] {} fields
  | .arr items => setItems {} settings items
  | _ => none

/-- Options given as a JSON document. What it leaves out has its default. -/
def read? (text : String) : Option Options :=
  (Json.read? text).bind ofTree?

end Options

end Stencil
