import Stencil.Files
import Stencil.Options
import Stencil.Text.Blank

/-! # Module references

The way a template names another one: `id`, then `:instance`, then `!forced`, the last two optional.
A reference gives the file of the module and the name of its instance. -/

namespace Stencil

structure Reference where
  id : String
  instanceName : Option String
  /-- Stands for the whole name of the instance. -/
  forced : Option String
  deriving DecidableEq, Repr

structure Resolved where
  filename : String
  instanceName : String
  deriving DecidableEq, Repr

namespace Reference

def splitAt (mark : Char) : List Char → List Char × Option (List Char)
  | [] => ([], none)
  | c :: cs =>
    if c == mark then ([], some cs)
    else ((c :: (splitAt mark cs).1), (splitAt mark cs).2)

/-- Read a reference without blanks around it. No part of it may be empty or hold a blank. -/
def ofChars? (cs : List Char) : Option Reference :=
  if cs.any Text.isBlank then none
  else
    let (rest, forced) := splitAt '!' cs
    let (id, instanceName) := splitAt ':' rest
    if id.isEmpty || instanceName == some [] || forced == some [] then none
    else some ⟨String.ofList id, instanceName.map String.ofList, forced.map String.ofList⟩

def parse? (text : String) : Option Reference :=
  ofChars? (Text.trim text.toList)

def print (r : Reference) : String :=
  r.id ++
    (match r.instanceName with
      | some i => ":" ++ i
      | none => "") ++
    (match r.forced with
      | some f => "!" ++ f
      | none => "")

def isRelative (id : String) : Bool :=
  "./".toList.isPrefixOf id.toList || "../".toList.isPrefixOf id.toList

def base (id : String) (options : Options) : String :=
  match options.filename.bind Path.parent? with
  | some dir => if isRelative id then dir else options.basedir
  | none => options.basedir

/-- The file of a module. An id without the extension of templates is a file with it, unless only
the directory of that name has an entry. The working directory is the root (`Path.normalize`). -/
def modulePath (id : String) (options : Options) (files : Files) : String :=
  let path := Path.join (base id options) id
  if options.ext.toList.isSuffixOf id.toList then Path.normalize path
  else
    let file := Path.normalize (path ++ options.ext)
    let entry := Path.normalize (Path.join path options.entry)
    if !files.exists file && files.exists entry then entry else file

def instanceFor (r : Reference) (sid : String) (options : Options) : String :=
  match r.forced with
  | some forced => forced
  | none =>
    let outer :=
      if options.instanceThrough then
        if options.instanceName == "" then [sid] else [sid, options.instanceName]
      else []
    String.intercalate "-" (outer ++ r.instanceName.toList)

def resolve (text sid : String) (options : Options) (files : Files) : Result Resolved :=
  match parse? text with
  | some r => .ok ⟨modulePath r.id options files, r.instanceFor sid options⟩
  | none => .error (.plain (.badReference (String.ofList (Text.trim text.toList))))

end Reference

end Stencil
