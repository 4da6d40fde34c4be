import Stencil.Proofs.Compile.Chain
import Stencil.Proofs.Template.Bare

/-! # Programs of relaid templates

Compilation reads the lines of a document, never its spans. So two indentations of one template,
with widths that are ordered alike, give the same program, or fail with the same code on the same
line. -/

namespace Stencil

open Template

/-! ## Blocks -/

namespace Template

mutual
theorem Node.blocks_bare : (n : Node) → n.bare.blocks = n.blocks
  | .doctype _ _ => rfl
  | .tag _ _ body => blocksOf_bare body
  | .text _ _ => rfl
  | .comment _ _ _ => rfl
  | .block mark name body => congrArg ((name, mark.line) :: ·) (blocksOf_bare body)
  | .extension _ _ _ replaces => blocksOfReplaces_bare replaces
  | .inclusion _ _ _ => rfl
  | .caseOf _ _ arms => blocksOfArms_bare arms
  | .ifElse _ branches otherwise => by
    rw [Node.bare, Node.blocks, Node.blocks, blocksOfBranches_bare, blocksOfOtherwise_bare]
  | .whileTrue _ _ body => blocksOf_bare body
  | .each _ _ _ _ body => blocksOf_bare body
theorem blocksOf_bare : (ns : List Node) → blocksOf (bareAll ns) = blocksOf ns
  | [] => rfl
  | n :: ns => by rw [bareAll, blocksOf, blocksOf, n.blocks_bare, blocksOf_bare ns]
theorem blocksOfReplaces_bare : (rs : List (Replace (List Node))) →
    blocksOfReplaces (bareReplaces rs) = blocksOfReplaces rs
  | [] => rfl
  | ⟨_, _, _, body⟩ :: rs => by
    rw [bareReplaces, blocksOfReplaces, blocksOfReplaces, blocksOf_bare body,
      blocksOfReplaces_bare rs]
theorem blocksOfArms_bare : (as : List (Arm (List Node))) →
    blocksOfArms (bareArms as) = blocksOfArms as
  | [] => rfl
  | ⟨_, _, body⟩ :: as => by
    rw [bareArms, blocksOfArms, blocksOfArms, blocksOf_bare body, blocksOfArms_bare as]
theorem blocksOfBranches_bare : (bs : List (Branch (List Node))) →
    blocksOfBranches (bareBranches bs) = blocksOfBranches bs
  | [] => rfl
  | ⟨_, _, body⟩ :: bs => by
    rw [bareBranches, blocksOfBranches, blocksOfBranches, blocksOf_bare body,
      blocksOfBranches_bare bs]
theorem blocksOfOtherwise_bare : (o : Option (List Node)) →
    blocksOfOtherwise (bareOtherwise o) = blocksOfOtherwise o
  | none => rfl
  | some body => blocksOf_bare body
end

theorem SameDocument.blocks {d e : Document} (h : SameDocument d e) : d.blocks = e.blocks := by
  have hnodes : bareAll d.nodes = bareAll e.nodes := congrArg Document.nodes h
  rw [Document.blocks, Document.blocks, ← blocksOf_bare, hnodes, blocksOf_bare]

theorem SameDocument.filename {d e : Document} (h : SameDocument d e) :
    d.filename = e.filename := by
  have hname : d.bare.filename = e.bare.filename := congrArg Document.filename h
  exact hname

end Template

theorem isEmpty_bareAll (ns : List Node) : (bareAll ns).isEmpty = ns.isEmpty := by
  cases ns <;> rfl

/-! ## Nodes -/

structure Compiler.EmbedsAlike (c d : Compiler) : Prop where
  options : c.options = d.options
  sid : c.sid = d.sid
  transforms : c.transforms = d.transforms
  embed : ∀ reference line indent,
    Alike (· = ·) (c.embed reference line indent) (d.embed reference line indent)

namespace Compiler

theorem EmbedsAlike.refl (c : Compiler) : c.EmbedsAlike c :=
  ⟨rfl, rfl, rfl, fun _ _ _ => .refl _⟩

section

variable {c d : Compiler} (h : c.EmbedsAlike d)
include h

theorem attrs_alike (tag : String) (line : Nat) (as : List Attribute) :
    c.attrs tag line as = d.attrs tag line as := by
  have hattr : ∀ a, c.attrBesideClass tag line a = d.attrBesideClass tag line a := by
    intro a
    simp only [attrBesideClass, idAttr, attr, literalAttr, h.options, h.sid, h.transforms]
  induction as with
  | nil => rfl
  | cons a as ih => rw [attrs, attrs, hattr, ih]

theorem openTag_alike (indent : String) (head : TagHead) (line : Nat) :
    c.openTag indent head line = d.openTag indent head line := by
  simp only [openTag, classes, layout, attrs_alike h, h.options, h.sid]

theorem closeTag_alike (indent : String) (head : TagHead) (hasBody : Bool) :
    c.closeTag indent head hasBody = d.closeTag indent head hasBody := by
  simp only [closeTag, layout, h.options]

theorem optionList_alike (line : Nat) (as : List Attribute) :
    c.optionList line as = d.optionList line as := by
  have hoption : ∀ a, c.option line a = d.option line a := by
    intro a
    simp only [option, optionText, h.options, h.transforms]
  induction as with
  | nil => rfl
  | cons a as ih => rw [optionList, optionList, hoption, ih]

end

mutual
theorem node_alike {c d : Compiler} (h : c.EmbedsAlike d) (indent : String) : (n : Node) →
    Alike (· = ·) (c.node indent n) (d.node indent n.bare)
  | .doctype _ value => .ok rfl
  | .tag mark head body => by
    rw [Node.bare, node, node, openTag_alike h, closeTag_alike h, isEmpty_bareAll]
    refine (Alike.refl _).bind ?_
    rintro start _ rfl
    split
    · exact .ok rfl
    · refine (Alike.refl _).bind ?_
      rintro text _ rfl
      refine (nodes_alike h (deeper indent) body).bind ?_
      rintro content _ rfl
      exact .ok rfl
  | .text mark text => .refl _
  | .comment mark text true => by
    rw [Node.bare, node, node, layout, layout, h.options]
    exact .ok rfl
  | .comment _ _ false => .ok rfl
  | .block mark name body => by
    rw [Node.bare, node, node]
    refine (nodes_alike h indent body).bind ?_
    rintro is _ rfl
    exact .ok rfl
  | .extension mark reference options replaces => by
    rw [Node.bare, node, node, optionList_alike h]
    refine (h.embed reference mark.line indent).bind ?_
    rintro e _ rfl
    refine (replacements_alike h indent e [] replaces).bind ?_
    rintro overrides _ rfl
    refine (Alike.refl _).bind ?_
    rintro entries _ rfl
    rw [dependency, dependency, h.options]
    exact .ok rfl
  | .inclusion mark reference options => by
    rw [Node.bare, node, node, optionList_alike h]
    refine (h.embed reference mark.line indent).bind ?_
    rintro e _ rfl
    refine (Alike.refl _).bind ?_
    rintro entries _ rfl
    rw [dependency, dependency, h.options]
    exact .ok rfl
  | .caseOf mark expr arms => by
    rw [Node.bare, node, node]
    refine (caseArms_alike h indent arms).bind ?_
    rintro as _ rfl
    exact .ok rfl
  | .ifElse mark branches otherwise => by
    rw [Node.bare, node, node]
    refine (guarded_alike h indent branches).bind ?_
    rintro bs _ rfl
    refine (alternative_alike h indent otherwise).bind ?_
    rintro o _ rfl
    exact .ok rfl
  | .whileTrue mark expr body => by
    rw [Node.bare, node, node]
    refine (nodes_alike h indent body).bind ?_
    rintro is _ rfl
    exact .ok rfl
  | .each mark value key expr body => by
    rw [Node.bare, node, node]
    refine (nodes_alike h indent body).bind ?_
    rintro is _ rfl
    exact .ok rfl
theorem nodes_alike {c d : Compiler} (h : c.EmbedsAlike d) (indent : String) : (ns : List Node) →
    Alike (· = ·) (c.nodes indent ns) (d.nodes indent (bareAll ns))
  | [] => .ok rfl
  | n :: ns => by
    rw [bareAll, nodes, nodes]
    refine (node_alike h indent n).bind ?_
    rintro first _ rfl
    refine (nodes_alike h indent ns).bind ?_
    rintro rest _ rfl
    exact .ok rfl
theorem caseArms_alike {c d : Compiler} (h : c.EmbedsAlike d) (indent : String) :
    (as : List (Arm (List Node))) →
    Alike (· = ·) (c.caseArms indent as) (d.caseArms indent (bareArms as))
  | [] => .ok rfl
  | ⟨expr, line, body⟩ :: as => by
    rw [bareArms, caseArms, caseArms]
    refine (nodes_alike h indent body).bind ?_
    rintro is _ rfl
    refine (caseArms_alike h indent as).bind ?_
    rintro rest _ rfl
    exact .ok rfl
theorem guarded_alike {c d : Compiler} (h : c.EmbedsAlike d) (indent : String) :
    (bs : List (Branch (List Node))) →
    Alike (· = ·) (c.guarded indent bs) (d.guarded indent (bareBranches bs))
  | [] => .ok rfl
  | ⟨expr, line, body⟩ :: bs => by
    rw [bareBranches, guarded, guarded]
    refine (nodes_alike h indent body).bind ?_
    rintro is _ rfl
    refine (guarded_alike h indent bs).bind ?_
    rintro rest _ rfl
    exact .ok rfl
theorem alternative_alike {c d : Compiler} (h : c.EmbedsAlike d) (indent : String) :
    (o : Option (List Node)) →
    Alike (· = ·) (c.alternative indent o) (d.alternative indent (bareOtherwise o))
  | none => .ok rfl
  | some body => by
    rw [bareOtherwise, alternative, alternative]
    refine (nodes_alike h indent body).bind ?_
    rintro is _ rfl
    exact .ok rfl
theorem replacements_alike {c d : Compiler} (h : c.EmbedsAlike d) (indent : String) (e : Embedded)
    (done : List (Override (List Instruction))) : (rs : List (Replace (List Node))) →
    Alike (· = ·) (c.replacements indent e done rs)
      (d.replacements indent e done (bareReplaces rs))
  | [] => .ok rfl
  | ⟨position, block, line, body⟩ :: rs => by
    rw [bareReplaces, replacements, replacements]
    split
    · refine (nodes_alike h (deeper indent) body).bind ?_
      rintro is _ rfl
      exact replacements_alike h indent e _ rs
    · exact .error rfl rfl
end

/-- Documents that differ in their spans only have the same program. -/
theorem program_alike {c d : Compiler} (h : c.EmbedsAlike d) {x y : Document}
    (hxy : SameDocument x y) :
    Alike (· = ·) (c.program x) (d.program y) := by
  have hx := nodes_alike h d.options.indent x.nodes
  have hy := nodes_alike (.refl d) d.options.indent y.nodes
  have hnodes : bareAll x.nodes = bareAll y.nodes := congrArg Document.nodes hxy
  rw [hnodes] at hx
  have hbody := hx.trans hy.symm
  unfold program
  rw [hxy.blocks, h.options, h.sid]
  split
  · exact .error rfl rfl
  · refine hbody.bind ?_
    rintro body _ ⟨_, rfl, rfl⟩
    refine (Alike.refl _).bind ?_
    rintro names _ rfl
    exact .ok rfl

end Compiler

/-! ## Files -/

structure File.Alike (f g : File) : Prop where
  path : f.path = g.path
  parse : ∀ name, Stencil.Alike SameDocument (parse f.source name) (parse g.source name)

theorem File.Alike.refl (f : File) : f.Alike f :=
  ⟨rfl, fun _ => (Stencil.Alike.refl _).mono fun _ _ h => congrArg Document.bare h⟩

def Files.Alike (fs gs : Files) : Prop :=
  List.Forall₂ File.Alike fs.entries gs.entries

section

variable {files : Files} {options : Options} {chain : List String} {sid reference : String}
  {line : Nat} {m : Resolved} (hr : Reference.resolve reference sid options files = .ok m)
include hr

theorem findModule_cycle (hc : inChain chain m.filename = true) :
    findModule files options chain sid reference line =
      .error (.onLine (.cycle (chain ++ [m.filename])) line) := by
  unfold findModule
  rw [hr]
  dsimp only
  split
  · rfl
  · next hn => rw [hc] at hn; cases hn

theorem findModule_missing (hc : inChain chain m.filename = false)
    (hf : files.locate? m.filename = none) :
    findModule files options chain sid reference line =
      .error (.onLine (.noSuchModule (String.ofList (Text.trim reference.toList)) m.filename)
        line) := by
  unfold findModule
  rw [hr]
  dsimp only
  split
  · next hn => rw [hc] at hn; cases hn
  · split
    · rfl
    · next hn => rw [hf] at hn; cases hn

theorem findModule_located (hc : inChain chain m.filename = false) {x : Nat × File}
    (hf : files.locate? m.filename = some x) :
    findModule files options chain sid reference line =
      ((parse x.2.source (some m.filename)).mapError (·.forFile x.1)).map fun d =>
        ⟨m, x.1, d, Files.outside_append hf hc⟩ := by
  unfold findModule
  rw [hr]
  dsimp only
  split
  · next hn => rw [hc] at hn; cases hn
  · split
    · next hn => rw [hf] at hn; cases hn
    · next id file hn =>
      obtain rfl := Option.some.inj (hf.symm.trans hn)
      cases parse file.source (some m.filename) <;> rfl

end

namespace Files.Alike

variable {fs gs : Files} (h : fs.Alike gs)
include h

theorem paths : fs.entries.map File.path = gs.entries.map File.path := by
  obtain ⟨as⟩ := fs
  obtain ⟨bs⟩ := gs
  change List.Forall₂ File.Alike as bs at h
  induction h with
  | nil => rfl
  | cons hf _ ih =>
    change _ :: _ = _ :: _
    rw [hf.path]
    exact congrArg _ ih

theorem «exists» (path : String) : fs.exists path = gs.exists path := by
  have hany : ∀ hs : Files, hs.exists path = (hs.entries.map File.path).any (Path.same · path) := by
    intro hs
    rw [Files.exists, List.any_map]
    rfl
  rw [hany, hany, h.paths]

theorem id? (path : String) : fs.id? path = gs.id? path := by
  have hfind : ∀ hs : Files, hs.id? path =
      (hs.entries.map File.path).findIdx? (Path.same · path) := by
    intro hs
    rw [Files.id?, List.findIdx?_map]
    rfl
  rw [hfind, hfind, h.paths]

theorem locate? (path : String) : Option.Rel (fun a b => a.1 = b.1 ∧ a.2.Alike b.2)
    (fs.locate? path) (gs.locate? path) := by
  unfold Files.locate?
  rw [h.id?]
  cases gs.id? path with
  | none => exact .none
  | some id =>
    have hget : Option.Rel File.Alike (fs.get? id) (gs.get? id) := forall₂_getElem? h id
    rw [Option.bind_some, Option.bind_some]
    generalize fs.get? id = a at hget ⊢
    generalize gs.get? id = b at hget ⊢
    cases hget with
    | none => exact .none
    | some related => exact .some ⟨rfl, related⟩

theorem resolve (reference sid : String) (options : Options) :
    Reference.resolve reference sid options fs = Reference.resolve reference sid options gs := by
  simp only [Reference.resolve, Reference.modulePath, h.exists]

theorem findModule (options : Options) (chain : List String) (sid reference : String) (line : Nat) :
    Stencil.Alike (fun m n => m.target = n.target ∧ SameDocument m.document n.document)
      (findModule fs options chain sid reference line)
      (findModule gs options chain sid reference line) := by
  cases hr : Reference.resolve reference sid options gs with
  | error e =>
    unfold Stencil.findModule
    rw [h.resolve, hr]
    exact .error rfl rfl
  | ok m =>
    have hlocated := h.locate? m.filename
    cases hc : inChain chain m.filename with
    | true =>
      rw [findModule_cycle (h.resolve .. ▸ hr) hc, findModule_cycle hr hc]
      exact .error rfl rfl
    | false =>
      generalize hf : fs.locate? m.filename = x at hlocated
      generalize hg : gs.locate? m.filename = y at hlocated
      cases hlocated with
      | none =>
        rw [findModule_missing (h.resolve .. ▸ hr) hc hf, findModule_missing hr hc hg]
        exact .error rfl rfl
      | some related =>
        rw [findModule_located (h.resolve .. ▸ hr) hc hf, findModule_located hr hc hg]
        refine ((related.2.parse _).mapError ?_ ?_).map fun d e hde => ⟨rfl, hde⟩
        · exact fun e => ⟨rfl, rfl⟩
        · exact fun e => ⟨rfl, rfl⟩

end Files.Alike

/-- Tables of files that are alike give the same programs. -/
theorem compile_alike {fs gs : Files} (h : fs.Alike gs) (transforms : Transforms)
    (options : Options) (chain : List String) {x y : Document} (hxy : SameDocument x y) :
    Alike (· = ·) (compile fs transforms options chain x)
      (compile gs transforms options chain y) := by
  have hembed : ∀ reference line indent,
      Alike (· = ·) (embedBy fs (compile fs transforms) options chain reference line indent)
        (embedBy gs (compile gs transforms) options chain reference line indent) := by
    intro reference line indent
    have hfound := h.findModule options chain (scopeId options.filename options.instanceName)
      reference line
    unfold embedBy
    generalize findModule fs options chain _ reference line = a at hfound ⊢
    generalize findModule gs options chain _ reference line = b at hfound ⊢
    cases hfound with
    | error code line => exact .error code line
    | @ok m n related =>
      obtain ⟨htarget, hdocument⟩ := related
      have := m.outside
      have hnested := compile_alike h transforms (options.forModule m.target indent)
        (chain ++ [m.target.filename]) hdocument
      dsimp only
      rw [← htarget]
      generalize compile fs transforms _ _ m.document = p at hnested ⊢
      generalize compile gs transforms _ _ n.document = q at hnested ⊢
      cases hnested with
      | error code line => exact .error code line
      | ok related => exact .ok (related ▸ rfl)
  have hcompilers : Compiler.EmbedsAlike
      ⟨options, scopeId options.filename options.instanceName, transforms,
        embedBy fs (compile fs transforms) options chain⟩
      ⟨options, scopeId options.filename options.instanceName, transforms,
        embedBy gs (compile gs transforms) options chain⟩ := ⟨rfl, rfl, rfl, hembed⟩
  have hprogram := Compiler.program_alike hcompilers hxy
  rw [compile_eq_step, compile_eq_step, compileStep, compileStep]
  generalize Compiler.program _ x = p at hprogram ⊢
  generalize Compiler.program _ y = q at hprogram ⊢
  cases hprogram with
  | error code line => exact .error code line
  | ok related => exact .ok related
termination_by fs.outside chain

/-! ## Sessions -/

theorem forall₂_refl {α : Type} {R : α → α → Prop} (h : ∀ a, R a a) (as : List α) :
    List.Forall₂ R as as :=
  List.forall₂_same.2 fun a _ => h a

theorem forall₂_modify {α : Type} {R : α → α → Prop} (h : ∀ a, R a a) {f g : α → α}
    (hfg : ∀ a, R (f a) (g a)) (as : List α) (i : Nat) :
    List.Forall₂ R (as.modify i f) (as.modify i g) := by
  induction as generalizing i with
  | nil => cases i <;> exact .nil
  | cons a as ih =>
    cases i with
    | zero => exact .cons (hfg a) (forall₂_refl h as)
    | succ i => exact .cons (h a) (ih i)

def StoredAlike (text text' : String) : Prop :=
  ∀ name, Alike SameDocument (parse (Text.normalize text) name) (parse (Text.normalize text') name)

theorem Files.load_alike (fs : Files) (path : String) {text text' : String}
    (h : StoredAlike text text') :
    (fs.load path text).1 = (fs.load path text').1 ∧
      (fs.load path text).2.Alike (fs.load path text').2 := by
  have hfile : ∀ first name, File.Alike ⟨first, name, Text.normalize text⟩
      ⟨first, name, Text.normalize text'⟩ :=
    fun first name => ⟨rfl, h⟩
  unfold Files.load Files.Alike
  split
  · refine ⟨rfl, ?_⟩
    exact forall₂_modify File.Alike.refl (fun f => hfile f.path path) fs.entries _
  · refine ⟨rfl, ?_⟩
    exact List.rel_append (forall₂_refl File.Alike.refl fs.entries) (.cons (hfile path path) .nil)

namespace Session

theorem compileDocument_alike {fs gs : Files} (h : fs.Alike gs) (transforms : Transforms)
    {x y : Document} (hxy : SameDocument x y) (options : Options) :
    Alike (· = ·) (compileDocument ⟨fs, transforms⟩ x options)
      (compileDocument ⟨gs, transforms⟩ y options) := by
  unfold compileDocument
  dsimp only
  rw [hxy.filename]
  exact (compile_alike h transforms _ _ hxy).map fun p q hpq => hpq ▸ rfl

/-- Sources that are parsed alike are compiled alike, also where they refer to themselves. -/
theorem compileSource_alike (s : Session) {source source' : String} (options : Options)
    (h : StoredAlike source source') :
    Alike (· = ·) (s.compileSource source options).1 (s.compileSource source' options).1 := by
  obtain ⟨hid, hfiles⟩ := s.files.load_alike (options.filename.getD anonymous) h
  unfold compileSource compileLoaded load
  dsimp only
  rw [hid]
  refine Alike.mapError ?_ (fun e => ⟨rfl, rfl⟩) fun e => ⟨rfl, rfl⟩
  refine (h options.filename).bind fun x y hxy => ?_
  exact compileDocument_alike hfiles s.transforms hxy options

/-- The text that the tokens of a source are read off. It is normalized where the source is stored
and where it is read, so that up to two byte order marks in front of its first line are left out. -/
def storedChars (source : String) : List Char :=
  Text.normalizeChars (Text.normalizeChars source.toList)

theorem storedAlike_of_relaid {rows : List Row} (h : Relaid rows) {source source' : String}
    (hleft : storedChars source = laid Row.left rows)
    (hright : storedChars source' = laid Row.right rows) : StoredAlike source source' := by
  have hread : ∀ text, tokenize (Text.normalize text) = tokenizeChars (storedChars text) := by
    intro text
    rw [tokenize, Text.normalize, String.toList_ofList, storedChars]
  intro name
  refine parse_alike ?_ name
  rw [hread, hread, hleft, hright]
  exact h.tokenizeChars_alike

/-- How the lines of a template are indented does not matter beyond the order of their widths. Two
sources with the same texts on their lines, each indented by tabs or by spaces only, to widths that
compare alike, have the same program, or both fail with the same code on the same line. -/
theorem compileSource_relaid (s : Session) (options : Options) {rows : List Row} (h : Relaid rows)
    (source source' : String) (hleft : storedChars source = laid Row.left rows)
    (hright : storedChars source' = laid Row.right rows) :
    Alike (· = ·) (s.compileSource source options).1 (s.compileSource source' options).1 :=
  compileSource_alike s options (storedAlike_of_relaid h hleft hright)

/-- A list in spaces and in tabs. -/
theorem compileSource_relaid_list :
    let source := "ul.menu(title='a')\n \t\n  each x in xs\n     li #\x7bx\x7d\n  p done\n"
    let source' := "ul.menu(title='a')\n\n\teach x in xs\n\t\tli #\x7bx\x7d\n\tp done\n"
    ∃ t, (compileSource ⟨⟨[]⟩, []⟩ source {}).1 = .ok t ∧
      (compileSource ⟨⟨[]⟩, []⟩ source' {}).1 = .ok t := by
  intro source source'
  let rows : List Row :=
    [⟨"ul.menu(title='a')".toList, [], []⟩, ⟨[], [' ', '\t'], []⟩,
      ⟨"each x in xs".toList, [' ', ' '], ['\t']⟩,
      ⟨"li #\x7bx\x7d".toList, [' ', ' ', ' ', ' ', ' '], ['\t', '\t']⟩,
      ⟨"p done".toList, [' ', ' '], ['\t']⟩, ⟨[], [], []⟩]
  have htexts : ∀ r ∈ rows, r.text ≠ [] → OwnText r.text := by
    have hown : ∀ r ∈ rows, r.text ≠ [] → IsLine r.text ∧ ¬ ['/', '/'] <+: r.text ∧
        r.text.head?.any Text.isIndent = false ∧ ownLine r.text = true := by
      decide +kernel
    intro r hr hne
    obtain ⟨hline, hcomment, hstart, hown⟩ := hown r hr hne
    refine ⟨hline, fun c hc => ?_, hcomment, hown⟩
    rw [hc] at hstart
    exact hstart
  have h : Relaid rows :=
    ⟨htexts, by decide +kernel, ⟨' ', '\t', by decide, by decide, by decide +kernel⟩,
      by decide +kernel, by decide +kernel⟩
  have halike := compileSource_relaid ⟨⟨[]⟩, []⟩ {} h source source' (by decide +kernel)
    (by decide +kernel)
  have hok : (compileSource ⟨⟨[]⟩, []⟩ source {}).1.isOk = true := by decide +kernel
  obtain ⟨t, ht⟩ := exists_ok hok
  rw [ht] at halike
  generalize (compileSource ⟨⟨[]⟩, []⟩ source' {}).1 = y at halike ⊢
  cases halike with
  | ok related => exact ⟨t, ht, related ▸ rfl⟩

end Session

end Stencil
