import Stencil.Client.Function
import Stencil.Compile.Module
import Stencil.Render.Run

/-! # Sessions

A session keeps the sources loaded so far and the transforms, over any number of compilations. -/

namespace Stencil

structure Session where
  files : Files
  transforms : Transforms

structure Compiled where
  program : Program
  recording : Bool

namespace Compiled

def render (t : Compiled) (input : Value) (limit : Nat) : Rendering :=
  t.program.render input limit

def toClient (t : Compiled) : String :=
  t.program.toClient t.recording

end Compiled

namespace Session

def anonymous : String := "template"

def load (s : Session) (path text : String) : Nat × Session :=
  let (id, files) := s.files.load path text
  (id, { s with files := files })

/-- Compile a parsed document. Its name counts if the options give none, and is seen from the root
as the working directory (`Path.normalize`). -/
def compileDocument (s : Session) (d : Template.Document) (options : Options) : Result Compiled :=
  let filename := (options.filename.or d.filename).map Path.normalize
  let options := { options with filename := filename }
  (compile s.files s.transforms options filename.toList d).map fun p => ⟨p, options.dep⟩

def compileLoaded (s : Session) (id : Nat) (source : String) (options : Options) :
    Result Compiled :=
  let compiled := do
    let d ← Template.parse source options.filename
    s.compileDocument d options
  compiled.mapError (·.forFile id)

def compileSource (s : Session) (source : String) (options : Options) :
    Result Compiled × Session :=
  let (id, s) := s.load (options.filename.getD anonymous) source
  (s.compileLoaded id (Text.normalize source) options, s)

def compileFile (s : Session) (path : String) (options : Options) : Result Compiled :=
  match s.files.locate? path with
  | some (id, file) => s.compileLoaded id file.source { options with filename := some path }
  | none => .error ((Diagnostic.plain (.unreadableFile path)).inFile (some path))

end Session

end Stencil
