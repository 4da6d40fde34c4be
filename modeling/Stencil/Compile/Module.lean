import Stencil.Compile.Node
import Stencil.Program.Free
import Stencil.Template.Parser

/-! # Compiling files

A file is compiled together with all modules it refers to, and these with theirs. The files that
lead from the first one to the current one form a chain. A module may not refer back into the chain,
so each step leaves fewer files outside it. -/

namespace Stencil

open Template

def inChain (chain : List String) (path : String) : Bool :=
  chain.any fun p => Path.same p path

def Files.outside (fs : Files) (chain : List String) : Nat :=
  (fs.entries.filter fun f => !inChain chain f.path).length

theorem length_filter_le {α : Type} {p q : α → Bool} (h : ∀ a, q a = true → p a = true)
    (l : List α) : (l.filter q).length ≤ (l.filter p).length := by
  simpa only [List.countP_eq_length_filter] using List.countP_mono_left fun a _ => h a

theorem length_filter_lt {α : Type} {p q : α → Bool} (h : ∀ a, q a = true → p a = true) {x : α}
    (hp : p x = true) (hq : q x = false) {l : List α} (hx : x ∈ l) :
    (l.filter q).length < (l.filter p).length := by
  obtain ⟨s, t, rfl⟩ := List.append_of_mem hx
  have hs := length_filter_le h s
  have ht := length_filter_le h t
  simp [hp, hq]
  omega

theorem inChain_append (chain : List String) (a b : String) :
    inChain (chain ++ [a]) b = (inChain chain b || Path.same a b) := by
  simp [inChain]

theorem inChain_congr {chain : List String} {a b : String} (h : Path.same a b = true) :
    inChain chain a = inChain chain b := by
  simp only [Path.same, beq_iff_eq] at h
  simp [inChain, Path.same, h]

theorem Files.outside_append {fs : Files} {chain : List String} {path : String} {id : Nat}
    {file : File} (hf : fs.locate? path = some (id, file)) (hc : inChain chain path = false) :
    fs.outside (chain ++ [path]) < fs.outside chain := by
  obtain ⟨hm, hs⟩ := Files.mem_of_locate? hf
  refine length_filter_lt (fun f hf => ?_) ?_ ?_ hm
  · simp only [inChain_append, Bool.not_or, Bool.and_eq_true] at hf
    exact hf.1
  · rw [inChain_congr hs, hc]; rfl
  · have : Path.same path file.path = true := by rw [Path.same_comm]; exact hs
    simp [inChain_append, this]

def Compiler.program (c : Compiler) (d : Document) : Result Program :=
  match firstRepeated [] d.blocks with
  | some (name, line) => .error (.onLine (.repeatedBlock name) line)
  | none => do
    let body ← c.nodes c.options.indent d.nodes
    let instructions := coalesce body
    let freeNames ← freeNamesOf instructions
    return ⟨c.options.filename, c.sid, c.options.instanceName, instructions, d.blocks.map (·.1),
      freeNames⟩

/-- A module that a file at the end of a chain refers to: what the reference stands for, the number
of its file, and its document. It is not in the chain. -/
structure Referred (files : Files) (chain : List String) where
  target : Resolved
  file : Nat
  document : Document
  outside : files.outside (chain ++ [target.filename]) < files.outside chain

def findModule (files : Files) (options : Options) (chain : List String) (sid reference : String)
    (line : Nat) : Result (Referred files chain) :=
  match Reference.resolve reference sid options files with
  | .error e => .error (e.withLine line)
  | .ok m =>
    match hc : inChain chain m.filename with
    | true => .error (.onLine (.cycle (chain ++ [m.filename])) line)
    | false => match hf : files.locate? m.filename with
      | none =>
        let trimmed := String.ofList (Text.trim reference.toList)
        .error (.onLine (.noSuchModule trimmed m.filename) line)
      | some (id, file) => match parse file.source (some m.filename) with
        | .error e => .error (e.forFile id)
        | .ok document => .ok ⟨m, id, document, Files.outside_append hf hc⟩

def Options.forModule (options : Options) (m : Resolved) (indent : String) : Options :=
  { options with
    filename := some m.filename
    instanceName := m.instanceName
    indent := indent
    instanceThrough := true }

def compile (files : Files) (transforms : Transforms) (options : Options) (chain : List String)
    (d : Document) : Result Program :=
  let sid := scopeId options.filename options.instanceName
  let embed (reference : String) (line : Nat) (indent : String) : Result Embedded :=
    match findModule files options chain sid reference line with
    | .error e => .error e
    | .ok m =>
      have := m.outside
      match compile files transforms (options.forModule m.target indent)
        (chain ++ [m.target.filename]) m.document with
      | .error e => .error (e.forFile m.file)
      | .ok p => .ok ⟨p, m.target⟩
  match (Compiler.mk options sid transforms embed).program d with
  | .error e => .error (e.inFile options.filename)
  | .ok p => .ok p
termination_by files.outside chain

end Stencil
