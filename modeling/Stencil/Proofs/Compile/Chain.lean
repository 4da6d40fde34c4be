import Mathlib.Data.List.Chain
import Mathlib.Logic.Relation
import Stencil.Proofs.Compile.Fault
import Stencil.Proofs.Path

/-! # Chains of modules

Only the chain of files keeps compilation from going round in circles. So it goes no deeper than
there are files, the programs inside one another are of different files, and a chain is only ever
closed where the references between the files form a circle. -/

namespace Stencil

open Template Relation

/-! ## How deep compilation goes -/

section

variable (files : Files) (transforms : Transforms)

/-- What stands for the documents of modules in the compilation of a document. -/
abbrev Nested := Options → List String → Document → Result Program

def embedBy (nested : Nested) (options : Options) (chain : List String) (reference : String)
    (line : Nat) (indent : String) : Result Embedded :=
  match findModule files options chain (scopeId options.filename options.instanceName) reference
    line with
  | .error e => .error e
  | .ok m =>
    match nested (options.forModule m.target indent) (chain ++ [m.target.filename]) m.document with
    | .error e => .error (e.forFile m.file)
    | .ok p => .ok ⟨p, m.target⟩

def compileStep (nested : Nested) : Nested :=
  fun options chain d =>
    match Compiler.program ⟨options, scopeId options.filename options.instanceName, transforms,
      embedBy files nested options chain⟩ d with
    | .error e => .error (e.inFile options.filename)
    | .ok p => .ok p

theorem compile_eq_step (options : Options) (chain : List String) (d : Document) :
    compile files transforms options chain d =
      compileStep files transforms (compile files transforms) options chain d := by
  rw [compile]
  rfl

/-- Compilation of `n` levels of modules. What is deeper is left to `bottom`. -/
def compileWithin (bottom : Nested) : Nat → Nested
  | 0 => bottom
  | n + 1 => compileStep files transforms (compileWithin bottom n)

variable {files transforms}

theorem compileStep_congr {nested nested' : Nested} {chain : List String}
    (h : ∀ (m : Referred files chain) options d,
      nested options (chain ++ [m.target.filename]) d =
        nested' options (chain ++ [m.target.filename]) d) (options : Options) (d : Document) :
    compileStep files transforms nested options chain d =
      compileStep files transforms nested' options chain d := by
  have hembed : embedBy files nested options chain = embedBy files nested' options chain := by
    funext reference line indent
    unfold embedBy
    split
    · rfl
    · next m _ => rw [h m]
  rw [compileStep, compileStep, hembed]

/-- No level is deeper than there are files outside the chain, so `bottom` does not matter. -/
theorem compileWithin_eq (bottom : Nested) {n : Nat} {chain : List String}
    (h : files.outside chain < n) (options : Options) (d : Document) :
    compileWithin files transforms bottom n options chain d =
      compile files transforms options chain d := by
  induction n generalizing options chain d with
  | zero => omega
  | succ n ih =>
    rw [compile_eq_step, compileWithin]
    refine compileStep_congr ?_ options d
    intro m options d
    have := m.outside
    exact ih (by omega) options d

theorem Files.outside_le (chain : List String) : files.outside chain ≤ files.entries.length :=
  List.length_filter_le ..

end

/-! ## Programs inside programs -/

/-- A program inside a compiled one was compiled from what was loaded for its file, at the end of a
longer chain, which the file is in and was not in before. -/
theorem compiled_inside {files : Files} {transforms : Transforms} {options : Options}
    {chain : List String} {d : Document} {p : Program}
    (h : compile files transforms options chain d = .ok p) {q : Program}
    (hq : q ∈ programsOf p.instructions) :
    ∃ options' chain' d' f, compile files transforms options' chain' d' = .ok q ∧
      q.filename = some f ∧ inChain chain f = false ∧ inChain chain' f = true ∧
      (∀ g, inChain chain g = true → inChain chain' g = true) ∧
      ∃ id file, files.locate? f = some (id, file) ∧ parse file.source (some f) = .ok d' := by
  obtain ⟨embed, hp, hm⟩ := compile_eq_ok h
  obtain ⟨body, hb, -, hi, -⟩ := Compiler.program_eq_ok hp
  rw [hi, programsOf_coalesce] at hq
  obtain ⟨reference, line, indent, e, he, hq⟩ := Compiler.embeds_nodes hb q hq
  obtain ⟨m, hfound, -, hcompile⟩ := hm he
  obtain ⟨-, hout, file, hlocate, hparse⟩ := findModule_eq_ok hfound
  have hmore : ∀ g, inChain chain g = true → inChain (chain ++ [m.target.filename]) g = true := by
    intro g hg
    rw [inChain_append, hg, Bool.true_or]
  rw [programsFrom, List.mem_cons] at hq
  rcases hq with rfl | hq
  · obtain ⟨embed', hp', -⟩ := compile_eq_ok hcompile
    obtain ⟨-, -, hname, -⟩ := Compiler.program_eq_ok hp'
    refine ⟨_, _, _, m.target.filename, hcompile, hname, hout, ?_, hmore, _, file, hlocate, hparse⟩
    simp [inChain_append, Path.same]
  · have := m.outside
    obtain ⟨options', chain', d', f, hc, hf, hnot, hin, hlonger, hfile⟩ :=
      compiled_inside hcompile hq
    rw [inChain_append, Bool.or_eq_false_iff] at hnot
    exact ⟨options', chain', d', f, hc, hf, hnot.1, hin, fun g hg => hlonger g (hmore g hg), hfile⟩
termination_by files.outside chain

def Encloses (p q : Program) : Prop :=
  q ∈ programsOf p.instructions

/-- Along programs each inside the one before, no file is in the chain or comes twice. -/
theorem nodup_inside {files : Files} {transforms : Transforms} {options : Options}
    {chain : List String} {d : Document} {p : Program}
    (h : compile files transforms options chain d = .ok p) {path : List Program}
    (hpath : List.IsChain Encloses (p :: path)) :
    (path.map (·.filename)).Nodup ∧
      ∀ q ∈ path, ∃ f, q.filename = some f ∧ inChain chain f = false := by
  induction path generalizing options chain d p with
  | nil => exact ⟨List.nodup_nil, nofun⟩
  | cons q path ih =>
    obtain ⟨hq, hrest⟩ := List.isChain_cons_cons.1 hpath
    obtain ⟨options', chain', d', f, hc, hf, hnot, hin, hlonger, -⟩ := compiled_inside h hq
    obtain ⟨hnodup, hout⟩ := ih hc hrest
    constructor
    · rw [List.map_cons, List.nodup_cons]
      refine ⟨?_, hnodup⟩
      intro hmem
      obtain ⟨r, hr, hname⟩ := List.mem_map.1 hmem
      obtain ⟨g, hg, hgout⟩ := hout r hr
      obtain rfl : g = f := Option.some.inj (hg.symm.trans (hname.trans hf))
      rw [hin] at hgout
      cases hgout
    · intro r hr
      rcases List.mem_cons.1 hr with rfl | hr
      · exact ⟨f, hf, hnot⟩
      · obtain ⟨g, hg, hgout⟩ := hout r hr
        refine ⟨g, hg, ?_⟩
        cases hin' : inChain chain g with
        | false => rfl
        | true => rw [hlonger g hin'] at hgout; cases hgout

/-! ## References between files -/

section

variable (files : Files) (options : Options) (root : Option String) (d : Document)

/-- The document of a file: `d` for the file that compilation starts with, and what was loaded for
any other. -/
def documentOf (name : Option String) : Option Document :=
  if name = root then some d
  else name.bind fun f => (files.locate? f).bind fun x => (parse x.2.source (some f)).toOption

def targets (name : Option String) : List String :=
  ((documentOf files root d name).map Document.references |>.getD []).filterMap fun reference =>
    (Reference.resolve reference "" { options with filename := name } files).toOption.map
      Resolved.filename

def Refers (a b : Option String) : Prop :=
  ∃ f ∈ targets files options root d a, b = some f

/-- No file that can be reached from the first one refers to itself, directly or through others. -/
def Acyclic : Prop :=
  ∀ name, ReflTransGen (Refers files options root d) root name →
    ¬ TransGen (Refers files options root d) name name

def isOrdered (names : List (Option String)) : Bool :=
  names.all fun a => (targets files options root d a).all fun f =>
    names.contains (some f) && names.idxOf a < names.idxOf (some f)

variable {files options root d}

theorem acyclic_of_isOrdered {names : List (Option String)}
    (h : isOrdered files options root d names = true) (hroot : root ∈ names) :
    Acyclic files options root d := by
  have hstep : ∀ {a b}, a ∈ names → Refers files options root d a b →
      b ∈ names ∧ names.idxOf a < names.idxOf b := by
    rintro a b ha ⟨f, hf, rfl⟩
    have hf := List.all_eq_true.1 (List.all_eq_true.1 h a ha) f hf
    rw [Bool.and_eq_true, List.contains_iff_mem, decide_eq_true_eq] at hf
    exact hf
  have hlisted : ∀ {a}, ReflTransGen (Refers files options root d) root a → a ∈ names := by
    intro a hreach
    induction hreach with
    | refl => exact hroot
    | tail _ hab ih => exact (hstep ih hab).1
  have hlater : ∀ {a b}, a ∈ names → TransGen (Refers files options root d) a b →
      b ∈ names ∧ names.idxOf a < names.idxOf b := by
    intro a b ha hab
    induction hab with
    | single hab => exact hstep ha hab
    | tail _ hbc ih =>
      obtain ⟨hc, hlt⟩ := hstep ih.1 hbc
      exact ⟨hc, Nat.lt_trans ih.2 hlt⟩
  intro name hreach hcircle
  exact Nat.lt_irrefl _ (hlater (hlisted hreach) hcircle).2

end

structure Options.SamePlaces (o o' : Options) : Prop where
  basedir : o.basedir = o'.basedir
  ext : o.ext = o'.ext
  entry : o.entry = o'.entry

/-- The file of a reference depends on where modules are looked for and on the file it stands in. -/
theorem resolve_samePlaces {o o' : Options} (h : o.SamePlaces o') {reference sid : String}
    {files : Files} {m : Resolved} (hm : Reference.resolve reference sid o files = .ok m)
    (sid' : String) :
    (Reference.resolve reference sid' { o' with filename := o.filename } files).toOption.map
      Resolved.filename = some m.filename := by
  unfold Reference.resolve at hm ⊢
  split at hm
  · obtain rfl := Except.ok.inj hm
    simp only [Reference.modulePath, Reference.base, h.basedir, h.ext, h.entry, Except.toOption,
      Option.map_some]
  · cases hm

theorem exists_normalize {reference sid : String} {o : Options} {files : Files} {m : Resolved}
    (hm : Reference.resolve reference sid o files = .ok m) :
    ∃ path, m.filename = Path.normalize path := by
  unfold Reference.resolve at hm
  split at hm
  · obtain rfl := Except.ok.inj hm
    dsimp only
    unfold Reference.modulePath
    dsimp only
    split
    · exact ⟨_, rfl⟩
    · split
      · exact ⟨_, rfl⟩
      · exact ⟨_, rfl⟩
  · cases hm

/-- Where compilation stands that started with the document `d` of the file `root`: at a document
with the options `o`, at the end of a chain of files each of which leads to it. -/
structure Stands (files : Files) (options : Options) (root : Option String) (d : Document)
    (o : Options) (chain : List String) (doc : Document) : Prop where
  places : o.SamePlaces options
  document : documentOf files root d o.filename = some doc
  checked : doc.Checked
  reached : ReflTransGen (Refers files options root d) root o.filename
  leads : ∀ f ∈ chain, ReflTransGen (Refers files options root d) (some f) o.filename
  normal : ∀ f ∈ chain, ∃ path, f = Path.normalize path
  started : ∀ f, root = some f → f ∈ chain

section

variable {files : Files} {options : Options} {root : Option String} {d : Document} {o : Options}
  {chain : List String} {doc : Document} (h : Stands files options root d o chain doc)
  {reference sid : String} (hr : reference ∈ doc.references)
include h hr

theorem Stands.refers {m : Resolved} (hm : Reference.resolve reference sid o files = .ok m) :
    Refers files options root d o.filename (some m.filename) := by
  refine ⟨m.filename, ?_, rfl⟩
  rw [targets, h.document]
  exact List.mem_filterMap.2 ⟨reference, hr, resolve_samePlaces h.places hm ""⟩

theorem Stands.circle {m : Resolved} (hm : Reference.resolve reference sid o files = .ok m)
    (hc : inChain chain m.filename = true) :
    TransGen (Refers files options root d) o.filename o.filename := by
  obtain ⟨f, hf, hsame⟩ := List.any_eq_true.1 hc
  obtain ⟨a, ha⟩ := h.normal f hf
  obtain ⟨b, hb⟩ := exists_normalize hm
  -- one file has one normal path, so it is the same file that was met before
  have heq : f = m.filename := by
    rw [ha, hb] at hsame ⊢
    exact Path.eq_of_same_normalize hsame
  have hback := h.leads f hf
  rw [heq] at hback
  exact TransGen.head' (h.refers hr hm) hback

theorem Stands.module {line : Nat} {m : Referred files chain}
    (hm : findModule files o chain sid reference line = .ok m) (indent : String) :
    Stands files options root d (o.forModule m.target indent) (chain ++ [m.target.filename])
      m.document := by
  obtain ⟨hresolve, hout, file, hf, hparse⟩ := findModule_eq_ok hm
  have hstep := h.refers hr hresolve
  refine ⟨⟨h.places.basedir, h.places.ext, h.places.entry⟩, ?_, checked_of_parse hparse,
    h.reached.tail hstep, ?_, ?_, ?_⟩
  · have hroot : ¬ some m.target.filename = root := by
      intro he
      have hin : inChain chain m.target.filename = true :=
        List.any_eq_true.2 ⟨_, h.started _ he.symm, by simp [Path.same]⟩
      rw [hin] at hout
      cases hout
    change documentOf files root d (some m.target.filename) = some m.document
    rw [documentOf, if_neg hroot, Option.bind_some, hf, Option.bind_some, hparse]
    rfl
  · intro f hmem
    rcases List.mem_append.1 hmem with hmem | hmem
    · exact (h.leads f hmem).tail hstep
    · rw [List.mem_singleton.1 hmem]
      exact .refl
  · intro f hmem
    rcases List.mem_append.1 hmem with hmem | hmem
    · exact h.normal f hmem
    · rw [List.mem_singleton.1 hmem]
      exact exists_normalize hresolve
  · intro f hroot
    exact List.mem_append_left _ (h.started f hroot)

end

/-- If the references form no circle, the chain is never closed. -/
theorem compile_not_circular {files : Files} {transforms : Transforms} {options : Options}
    {root : Option String} {d : Document} (hacyclic : Acyclic files options root d) {o : Options}
    {chain : List String} {doc : Document} (h : Stands files options root d o chain doc)
    {e : Diagnostic} (he : compile files transforms o chain doc = .error e) :
    e.cause.code ≠ .circularInheritance := by
  intro hcode
  obtain ⟨ts, hts, hmade⟩ := h.checked
  obtain ⟨x, rfl, hblock | ⟨t, -, reference, hr, -, hmodule⟩⟩ := compile_eq_error hts hmade he
  · cases hblock with
    | repeated => cases hcode
    | missing => cases hcode
  · rcases hmodule with hx | ⟨m, indent, y, hm, hy, rfl⟩
    · replace hcode : x.cause.code = .circularInheritance := hcode
      rcases findModule_eq_error hx with ⟨cause, hc, rfl⟩ | ⟨m, id, file, y, -, -, -, hy, rfl⟩
      · cases hc with
        | unreadable hm =>
          rw [resolve_eq_error hm] at hcode
          cases hcode
        | circular hm hc => exact hacyclic o.filename h.reached (h.circle hr hm hc)
        | missing => cases hcode
      · obtain ⟨hlexical, -⟩ := lexical_of_parse hy
        replace hcode : y.cause.code = .circularInheritance := hcode
        rw [hcode] at hlexical
        cases hlexical
    · have := m.outside
      exact compile_not_circular hacyclic (h.module hr hm indent) hy hcode
termination_by files.outside chain

namespace Session

/-! ## Whole compilations -/

/-- Every program in a template was compiled from the document of its file. -/
theorem compiled_from {s : Session} {d : Document} {options : Options} {t : Compiled}
    (h : s.compileDocument d options = .ok t) {q : Program} (hq : q ∈ programsFrom t.program) :
    ∃ o chain d', documentOf s.files (nameOf options d) d q.filename = some d' ∧
      compile s.files s.transforms o chain d' = .ok q := by
  have hp := compileDocument_eq_ok h
  rw [programsFrom, List.mem_cons] at hq
  rcases hq with rfl | hq
  · obtain ⟨embed, hprogram, -⟩ := compile_eq_ok hp
    obtain ⟨-, -, hname, -⟩ := Compiler.program_eq_ok hprogram
    exact ⟨_, _, d, if_pos hname, hp⟩
  · obtain ⟨o, chain, d', f, hc, hf, hnot, -, -, id, file, hlocate, hparse⟩ := compiled_inside hp hq
    have hroot : ¬ some f = nameOf options d := by
      intro he
      rw [← he] at hnot
      simp [inChain, Path.same] at hnot
    refine ⟨o, chain, d', ?_, hc⟩
    rw [hf, documentOf, if_neg hroot, Option.bind_some, hlocate, Option.bind_some, hparse]
    rfl

inductive Request where
  | source (text : String)
  | file (path : String)

def answer (s : Session) (options : Options) : Request → Result Compiled
  | .source text => (s.compileSource text options).1
  | .file path => s.compileFile path options

structure Root where
  session : Session
  id : Nat
  source : String
  options : Options

def root (s : Session) (options : Options) : Request → Result Root
  | .source text =>
    let (id, s) := s.load (options.filename.getD anonymous) text
    .ok ⟨s, id, Text.normalize text, options⟩
  | .file path => match s.files.locate? path with
    | some (id, file) => .ok ⟨s, id, file.source, { options with filename := some path }⟩
    | none => .error ((Diagnostic.plain (.unreadableFile path)).inFile (some path))

namespace Root

def compileBy (r : Root) (nested : Nested) : Result Compiled :=
  let compiled := do
    let d ← parse r.source r.options.filename
    let name := nameOf r.options d
    let p ← nested { r.options with filename := name } name.toList d
    return Compiled.mk p r.options.dep
  compiled.mapError (·.forFile r.id)

def compile (r : Root) : Result Compiled :=
  r.session.compileLoaded r.id r.source r.options

/-- The references that can be reached from a file form no circle. -/
def Acyclic (r : Root) : Prop :=
  ∀ d, parse r.source r.options.filename = .ok d →
    Stencil.Acyclic r.session.files r.options (nameOf r.options d) d

def isOrdered (r : Root) (names : List (Option String)) : Bool :=
  (parse r.source r.options.filename).toOption.all fun d =>
    names.contains (nameOf r.options d) &&
      Stencil.isOrdered r.session.files r.options (nameOf r.options d) d names

theorem acyclic_of_isOrdered {r : Root} {names : List (Option String)}
    (h : r.isOrdered names = true) : r.Acyclic := by
  intro d hd
  rw [isOrdered, hd, Except.toOption, Option.all_some, Bool.and_eq_true] at h
  exact Stencil.acyclic_of_isOrdered h.2 (List.contains_iff_mem.1 h.1)

end Root

theorem answer_eq (s : Session) (options : Options) (request : Request) :
    s.answer options request = s.root options request >>= Root.compile := by
  cases request with
  | source text => rfl
  | file path =>
    unfold answer compileFile root
    cases hf : s.files.locate? path with
    | none =>
      simp only [hf]
      rfl
    | some x =>
      simp only [hf]
      rfl

namespace Root

/-- Compilation goes no deeper than there are files. -/
theorem compileBy_within (r : Root) (bottom : Nested) :
    r.compileBy (compileWithin r.session.files r.session.transforms bottom
      (r.session.files.entries.length + 1)) = r.compile := by
  have hcompile : ∀ o chain d, compileWithin r.session.files r.session.transforms bottom
      (r.session.files.entries.length + 1) o chain d =
        Stencil.compile r.session.files r.session.transforms o chain d :=
    fun o chain d => compileWithin_eq bottom (Nat.lt_succ_of_le (Files.outside_le chain)) o d
  simp only [compileBy, hcompile]
  rfl

theorem nodup_enclosed {r : Root} {t : Compiled} (h : r.compile = .ok t) {path : List Program}
    (hpath : List.IsChain Encloses (t.program :: path)) :
    ((t.program :: path).map (·.filename)).Nodup := by
  obtain ⟨d, -, hd⟩ := compileLoaded_eq_ok h
  have hp := compileDocument_eq_ok hd
  obtain ⟨hnodup, hout⟩ := nodup_inside hp hpath
  rw [List.map_cons, List.nodup_cons]
  refine ⟨?_, hnodup⟩
  intro hmem
  obtain ⟨q, hq, hname⟩ := List.mem_map.1 hmem
  obtain ⟨f, hf, hfout⟩ := hout q hq
  obtain ⟨embed, hprogram, -⟩ := compile_eq_ok hp
  obtain ⟨-, -, hroot, -⟩ := Compiler.program_eq_ok hprogram
  -- the first file is in the chain from the start
  have hin : nameOf r.options d = some f := hroot.symm.trans (hname.symm.trans hf)
  rw [hin] at hfout
  simp [inChain, Path.same] at hfout

theorem not_circular {r : Root} (hr : r.Acyclic) {e : Diagnostic} (h : r.compile = .error e) :
    e.cause.code ≠ .circularInheritance := by
  obtain ⟨x, rfl, hx⟩ := compileLoaded_eq_error h
  change x.cause.code ≠ .circularInheritance
  rcases hx with hx | ⟨d, hd, hx⟩
  · intro hcode
    obtain ⟨hlexical, -⟩ := lexical_of_parse hx
    rw [hcode] at hlexical
    cases hlexical
  · refine compile_not_circular (hr d hd) ?_ (compileDocument_eq_error hx)
    have hname : ∀ f ∈ (nameOf r.options d).toList, nameOf r.options d = some f :=
      fun f hf => Option.mem_toList.1 hf
    refine ⟨⟨rfl, rfl, rfl⟩, if_pos rfl, checked_of_parse hd, .refl, ?_, ?_, ?_⟩
    · intro f hf
      rw [← hname f hf]
    · intro f hf
      obtain ⟨path, -, hpath⟩ := Option.map_eq_some_iff.1 (hname f hf)
      exact ⟨path, hpath.symm⟩
    · intro f hf
      exact Option.mem_toList.2 hf

end Root

/-- **Compilation ends, and never in a circle.** Compilation goes through at most one level of
modules for each file: what would be asked for deeper ones does not matter for the answer. In a
compiled template, programs that lie inside one another are of different files. And if the
references that can be reached from the first file form no circle, none is reported. -/
theorem answer_modules (s : Session) (options : Options) (request : Request) :
    (∀ bottom, s.root options request >>= (fun r => r.compileBy
        (compileWithin r.session.files r.session.transforms bottom
          (r.session.files.entries.length + 1))) = s.answer options request) ∧
    (∀ t, s.answer options request = .ok t → ∀ path, List.IsChain Encloses (t.program :: path) →
      ((t.program :: path).map (·.filename)).Nodup) ∧
    ((∀ r, s.root options request = .ok r → r.Acyclic) → ∀ e, s.answer options request = .error e →
      e.cause.code ≠ .circularInheritance) := by
  rw [answer_eq]
  refine ⟨?_, ?_, ?_⟩
  · intro bottom
    congr 1
    funext r
    exact r.compileBy_within bottom
  · intro t ht path hpath
    obtain ⟨r, -, ht⟩ := bind_eq_ok.1 ht
    exact Root.nodup_enclosed ht hpath
  · intro hacyclic e he
    rcases bind_eq_error.1 he with he | ⟨r, hr, he⟩
    · -- only a file that is not there keeps compilation from starting
      cases request with
      | source text => cases he
      | file path =>
        rw [root] at he
        split at he
        · cases he
        · obtain rfl := Except.error.inj he
          exact nofun
    · exact Root.not_circular (hacyclic r hr) he

/-- A page whose two modules share a third one, and a page with a module that includes one that is
missing. -/
theorem answer_modules_shared :
    let files : Files := ⟨[⟨"/side.made", "/side.made", "include ./lib/leaf"⟩,
      ⟨"/lib/leaf.made", "/lib/leaf.made", "p #{x}"⟩, ⟨"/torn.made", "/torn.made", "include gone"⟩]⟩
    let s : Session := ⟨files, []⟩
    let options : Options := { filename := some "./page.made" }
    let shared : Request := .source "include side\ninclude lib/leaf"
    let torn : Request := .source "include torn"
    (∃ t path, s.answer options shared = .ok t ∧ List.IsChain Encloses (t.program :: path) ∧
      (t.program :: path).map (·.filename) =
        [some "/page.made", some "/side.made", some "/lib/leaf.made"] ∧
      ((t.program :: path).map (·.filename)).Nodup) ∧
    (∀ r, s.root options torn = .ok r → r.Acyclic) ∧
      ∃ e, s.answer options torn = .error e ∧ e.cause.code ≠ .circularInheritance := by
  intro files s options shared torn
  constructor
  · have hnames : ((s.answer options shared).toOption.bind fun t =>
        (programsOf t.program.instructions)[0]?.bind fun p =>
          (programsOf p.instructions)[0]?.map fun q => [t.program, p, q].map (·.filename)) =
        some [some "/page.made", some "/side.made", some "/lib/leaf.made"] := by decide +kernel
    obtain ⟨t, ht, hnames⟩ := Option.bind_eq_some_iff.1 hnames
    replace ht := ok_of_toOption ht
    obtain ⟨p, hp, hnames⟩ := Option.bind_eq_some_iff.1 hnames
    obtain ⟨q, hq, hnames⟩ := Option.map_eq_some_iff.1 hnames
    have hpath : List.IsChain Encloses [t.program, p, q] :=
      .cons_cons (List.mem_of_getElem? hp) (.cons_cons (List.mem_of_getElem? hq) (.singleton q))
    exact ⟨t, [p, q], ht, hpath, hnames, (answer_modules s options shared).2.1 t ht _ hpath⟩
  · have hroot : (s.root options torn).toOption.all (Root.isOrdered ·
        [some "/page.made", some "/torn.made", some "/gone.made"]) = true := by decide +kernel
    have hacyclic : ∀ r, s.root options torn = .ok r → r.Acyclic := by
      intro r hr
      rw [hr] at hroot
      exact Root.acyclic_of_isOrdered hroot
    have hfails : (s.answer options torn).isOk = false := by decide +kernel
    cases he : s.answer options torn with
    | ok t =>
      rw [he] at hfails
      cases hfails
    | error e =>
      exact ⟨hacyclic, e, rfl, (answer_modules s options torn).2.2 hacyclic e he⟩

end Session

end Stencil
