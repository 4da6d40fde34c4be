import Stencil.Proofs.Compile.Chain
import Stencil.Proofs.Files

/-! # Which file is at fault

A fault is raised while one file is read or compiled, however deep in the modules of the file that
compilation started with. It says so, and the files further out do not change what it says: its
name, its line and the file of its labels are those of the file it was raised in. -/

namespace Stencil

open Template

structure Origin where
  name : Option String
  file : Nat
  source : String

/-- What goes wrong when the first file is read and compiled, at the end of a chain: in the second
one, which is the same or a module, a fault is found that knows nothing of files yet. A file goes by
the name it was given while it is read, and by that of its options after that. -/
inductive Raises (files : Files) (transforms : Transforms) :
    Options → List String → Origin → Origin → Diagnostic → Prop
  | text {o : Options} {chain : List String} {p : Origin} {x : Diagnostic}
      (fault : parse p.source none = .error x) : Raises files transforms o chain p p x
  | block {o : Options} {chain : List String} {p : Origin} {d : Document} {ts : List Token}
      {x : Diagnostic} (read : parse p.source p.name = .ok d) (tokens : tokenize p.source = .ok ts)
      (fault : BlockFault files transforms o chain ts d x) :
      Raises files transforms o chain p { p with name := o.filename } x
  | reference {o : Options} {chain : List String} {p : Origin} {d : Document} {ts : List Token}
      {t : Token} {reference : String} {cause : Cause} (read : parse p.source p.name = .ok d)
      (tokens : tokenize p.source = .ok ts) (mem : t ∈ ts)
      (refers : t.kind.reference? = some reference)
      (fault : Unusable files o chain (scopeId o.filename o.instanceName) reference cause) :
      Raises files transforms o chain p { p with name := o.filename } (.onLine cause t.line)
  | module {o : Options} {chain : List String} {p q : Origin} {d : Document} {ts : List Token}
      {t : Token} {reference indent : String} {m : Resolved} {id : Nat} {file : File}
      {x : Diagnostic}
      (read : parse p.source p.name = .ok d) (tokens : tokenize p.source = .ok ts) (mem : t ∈ ts)
      (refers : t.kind.reference? = some reference)
      (resolved : Reference.resolve reference (scopeId o.filename o.instanceName) o files = .ok m)
      (outside : inChain chain m.filename = false)
      (located : files.locate? m.filename = some (id, file))
      (inner : Raises files transforms (o.forModule m indent) (chain ++ [m.filename])
        ⟨some m.filename, id, file.source⟩ q x) : Raises files transforms o chain p q x

structure Blames (files : Files) (q : Origin) (x e : Diagnostic) : Prop where
  cause : e.cause = x.cause
  filename : e.filename = q.name
  line : ∃ file n, files.get? q.file = some file ∧ file.source = q.source ∧ x.line = some n ∧
    e.line = some n ∧ HasLine file.lineStarts.length n
  labels : e.labels = x.labels.map fun l => { l with file := some q.file }

namespace Blames

variable {files : Files} {q : Origin} {x e : Diagnostic}

/-- Files further out have nothing to add. -/
theorem keep (h : Blames files q x e) (hq : q.name.isSome = true) (name : Option String)
    (id : Nat) : Blames files q x ((e.inFile name).forFile id) where
  cause := h.cause
  filename := by
    obtain ⟨f, hf⟩ := Option.isSome_iff_exists.1 hq
    rw [Diagnostic.forFile, Diagnostic.inFile, h.filename, hf]
    rfl
  line := h.line
  labels := by
    rw [Diagnostic.forFile, Diagnostic.inFile, h.labels, List.map_map]
    rfl

theorem located {file : File} (hfile : files.get? q.file = some file) (hs : file.source = q.source)
    (hx : x.filename = none) (hlabels : ∀ l ∈ x.labels, l.file = none) {n : Nat}
    (hn : x.line = some n) (hline : HasLine file.lineStarts.length n) :
    Blames files q x ((x.inFile q.name).forFile q.file) where
  cause := rfl
  filename := by
    rw [Diagnostic.forFile, Diagnostic.inFile, hx]
    rfl
  line := ⟨file, n, hfile, hs, hn, hn, hline⟩
  labels := by
    apply List.map_congr_left
    intro l hl
    rw [hlabels l hl]
    rfl

end Blames

/-- The faults of modules are found in files that have names. -/
theorem Raises.named {files : Files} {transforms : Transforms} {o : Options} {chain : List String}
    {p q : Origin} {x : Diagnostic} (h : Raises files transforms o chain p q x)
    (hp : p.name.isSome = true) (ho : o.filename.isSome = true) : q.name.isSome = true := by
  induction h with
  | text => exact hp
  | block => exact ho
  | reference => exact ho
  | module _ _ _ _ _ _ _ _ ih => exact ih rfl rfl

theorem filename_of_parse {source : String} {name : Option String} {d : Document}
    (h : parse source name = .ok d) : d.filename = name := by
  unfold parse at h
  split at h
  · cases h
  · unfold parseTokens at h
    split at h
    · cases h
    · obtain rfl := Except.ok.inj h
      rfl

theorem mem_of_firstRepeated {seen : List String} {bs : List (String × Nat)} {b : String × Nat}
    (h : firstRepeated seen bs = some b) : b ∈ bs := by
  induction bs generalizing seen with
  | nil => cases h
  | cons x bs ih =>
    rw [firstRepeated] at h
    split at h
    · obtain rfl := Option.some.inj h
      exact List.mem_cons_self ..
    · exact List.mem_cons_of_mem x (ih h)

section

variable {files : Files} {transforms : Transforms} {o : Options} {chain : List String} {p : Origin}
  {file : File} {x e : Diagnostic}

theorem Files.Loaded.lineCount (hs : files.Loaded) {id : Nat} (h : files.get? id = some file) :
    lineCount file.source = file.lineStarts.length := by
  have hmem : file ∈ files.entries := List.mem_of_getElem? h
  rw [Template.lineCount, Text.newlines_normalizeChars (hs.not_mem file hmem),
    file.length_lineStarts]

theorem blames_text (hs : files.Loaded) (hfile : files.get? p.file = some file)
    (hp : file.source = p.source) (h : parse p.source p.name = .error e) :
    ∃ x, parse p.source none = .error x ∧ Blames files p x (e.forFile p.file) := by
  obtain ⟨x, rfl, hx, hlexical⟩ := parse_isLexical h
  obtain ⟨n, hn, hline⟩ := hlexical.line
  rw [← hp, hs.lineCount hfile] at hline
  exact ⟨x, hx, .located hfile hp hlexical.filename hlexical.unbound hn hline⟩

theorem blames_onLine {ts : List Token} (hs : files.Loaded) (hfile : files.get? p.file = some file)
    (hp : file.source = p.source) (hts : tokenize p.source = .ok ts) {t : Token} (ht : t ∈ ts)
    (cause : Cause) (name : Option String) :
    Blames files { p with name := name } (.onLine cause t.line)
      (((Diagnostic.onLine cause t.line).inFile name).forFile p.file) := by
  have hline := (vettedTokens_of_tokenize hts t ht).line
  rw [← hp, hs.lineCount hfile] at hline
  exact .located (q := { p with name := name }) hfile hp rfl (List.forall_mem_nil _) rfl hline

theorem line_of_blockFault {ts : List Token} {d : Document} (hmade : MadeOfAll ts d.nodes)
    (h : BlockFault files transforms o chain ts d x) :
    ∃ t ∈ ts, ∃ cause, x = .onLine cause t.line := by
  cases h with
  | repeated again =>
    obtain ⟨span, ht⟩ := blocksOf_madeOf hmade _ (mem_of_firstRepeated again)
    exact ⟨_, ht, _, rfl⟩
  | missing mem => exact ⟨_, mem, _, rfl⟩

end

/-- The fault of a compilation is found in some file, and that is the file it is reported for. -/
theorem compile_blames {files : Files} (hs : files.Loaded) {transforms : Transforms} {o : Options}
    {chain : List String} {p : Origin} {file : File} (hfile : files.get? p.file = some file)
    (hp : file.source = p.source) {d : Document} (hd : parse p.source p.name = .ok d)
    {e : Diagnostic} (h : compile files transforms o chain d = .error e) :
    ∃ q x, Raises files transforms o chain p q x ∧ Blames files q x (e.forFile p.file) := by
  obtain ⟨ts, hts, hmade⟩ := madeOf_of_parse hd
  obtain ⟨y, rfl, hblock | ⟨t, ht, reference, -, hk, hmodule⟩⟩ :=
    compile_eq_error (vettedTokens_of_tokenize hts).checked hmade h
  · obtain ⟨t, ht, cause, rfl⟩ := line_of_blockFault hmade hblock
    exact ⟨_, _, .block hd hts hblock, blames_onLine hs hfile hp hts ht cause o.filename⟩
  · rcases hmodule with hy | ⟨m, indent, z, hm, hz, rfl⟩
    · rcases findModule_eq_error hy with ⟨cause, hc, rfl⟩ | ⟨m, id, f, z, hm, hout, hf, hz, rfl⟩
      · exact ⟨_, _, .reference hd hts ht hk hc, blames_onLine hs hfile hp hts ht cause o.filename⟩
      · -- the module could not be read
        let q : Origin := ⟨some m.filename, id, f.source⟩
        obtain ⟨x, hx, hblames⟩ := blames_text (p := q) hs (Files.get?_of_locate? hf) rfl hz
        have hinner : Raises files transforms (o.forModule m "") (chain ++ [m.filename]) q q x :=
          .text hx
        exact ⟨q, x, .module hd hts ht hk hm hout hf hinner, hblames.keep rfl o.filename p.file⟩
    · -- the fault was found while the module was compiled
      obtain ⟨hresolve, hout, f, hf, hparse⟩ := findModule_eq_ok hm
      have := m.outside
      let q : Origin := ⟨some m.target.filename, m.file, f.source⟩
      obtain ⟨r, x, hraises, hblames⟩ :=
        compile_blames (p := q) hs (Files.get?_of_locate? hf) rfl hparse hz
      exact ⟨r, x, .module hd hts ht hk hresolve hout hf hraises,
        hblames.keep (hraises.named rfl rfl) o.filename p.file⟩
termination_by files.outside chain

namespace Session

def Root.name (r : Root) : Option String :=
  r.options.filename.map Path.normalize

def Root.Raises (r : Root) (q : Origin) (x : Diagnostic) : Prop :=
  Stencil.Raises r.session.files r.session.transforms { r.options with filename := r.name }
    r.name.toList ⟨r.options.filename, r.id, r.source⟩ q x

theorem root_stored {s : Session} (hs : s.files.Loaded) {options : Options} {request : Request}
    {r : Root} (hr : s.root options request = .ok r) :
    r.session.files.Loaded ∧ ∃ file, r.session.files.get? r.id = some file ∧
      file.source = r.source := by
  cases request with
  | source text =>
    obtain rfl := Except.ok.inj hr
    exact ⟨.load _ _ hs, Files.get?_load ..⟩
  | file path =>
    rw [root] at hr
    split at hr
    · next id file hf =>
      obtain rfl := Except.ok.inj hr
      exact ⟨hs, file, Files.get?_of_locate? hf, rfl⟩
    · cases hr

/-- **Faults point at the file that caused them.** If a source or a file of a session cannot be
compiled, then a fault was found in a file, the first one or a module at any depth: in its text,
which could not be read, in its blocks, or in a reference. The fault is reported under the name that
this file went by, on a line that its stored text has, and with labels for that file. -/
theorem answer_blames {s : Session} (hs : s.files.Loaded) {options : Options} {request : Request}
    {r : Root} (hr : s.root options request = .ok r) {e : Diagnostic}
    (he : s.answer options request = .error e) :
    ∃ q x, r.Raises q x ∧ Blames r.session.files q x e := by
  obtain ⟨hloaded, file, hfile, hp⟩ := root_stored hs hr
  rw [answer_eq, hr] at he
  obtain ⟨y, rfl, hy | ⟨d, hd, hy⟩⟩ := compileLoaded_eq_error he
  · let p : Origin := ⟨r.options.filename, r.id, r.source⟩
    obtain ⟨x, hx, hblames⟩ := blames_text (p := p) hloaded hfile hp hy
    exact ⟨p, x, .text hx, hblames⟩
  · have hcompile := compileDocument_eq_error hy
    have hname : nameOf r.options d = r.name := by
      rw [nameOf, filename_of_parse hd, Option.or_self]
      rfl
    rw [hname] at hcompile
    exact compile_blames (p := ⟨r.options.filename, r.id, r.source⟩) hloaded hfile hp hd hcompile

/-- A source without a name includes a module, and on the last line of another one that this extends
a value is missing. -/
theorem answer_blames_leaf :
    let files := ((Files.empty.load "/lib/leaf.made" "b\n\np(x=)").2.load "/side.made"
      "\n\nextends ./lib/leaf").2
    let s : Session := ⟨files, []⟩
    let request : Request := .source "i\r\ninclude side\np"
    files.Loaded ∧ ∃ r e q x, s.root {} request = .ok r ∧ s.answer {} request = .error e ∧
      r.Raises q x ∧ Blames r.session.files q x e ∧
      (e.filename, e.line, e.labels.map (·.file)) = (some "/lib/leaf.made", some 3, [some 0]) := by
  intro files s request
  have hloaded : files.Loaded := .load _ _ (.load _ _ .empty)
  have hreport : (match s.answer {} request with
      | .ok _ => none
      | .error e => some (e.filename, e.line, e.labels.map (·.file))) =
        some (some "/lib/leaf.made", some 3, [some 0]) := by decide +kernel
  split at hreport
  · cases hreport
  · next e he =>
    have hroot : s.root {} request = .ok _ := rfl
    obtain ⟨q, x, hraises, hblames⟩ := answer_blames (s := s) hloaded hroot he
    exact ⟨hloaded, _, e, q, x, rfl, he, hraises, hblames, Option.some.inj hreport⟩

end Session

end Stencil
