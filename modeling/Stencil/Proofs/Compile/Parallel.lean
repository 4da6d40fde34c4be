import Stencil.Proofs.Compile.Chain
import Stencil.Proofs.Compile.Literal
import Stencil.Proofs.Files
import Stencil.Proofs.Program.Sites

/-! # Two compilations side by side

The same files are compiled twice, with options that differ in how the markup is laid out or in
whether uses of modules are recorded, or with other transforms. A relation between lists of
instructions that every construct of the compiler keeps, holds between the two programs; and both
compilations fail alike. -/

namespace Stencil

open Template

/-- A change of options that has no say in which modules are found and how they are named. -/
structure Options.Aside (change : Options → Options) : Prop where
  named : ∀ o filename, { change o with filename := filename } =
    change { o with filename := filename }
  forModule : ∀ o m indent, (change o).forModule m indent = change (o.forModule m indent)
  filename : ∀ o, (change o).filename = o.filename
  instanceName : ∀ o, (change o).instanceName = o.instanceName
  indent : ∀ o, (change o).indent = o.indent
  resolve : ∀ o reference sid files,
    Reference.resolve reference sid (change o) files = Reference.resolve reference sid o files

abbrev Bodies := List Instruction → List Instruction → Prop

abbrev Entries := OptionEntry → OptionEntry → Prop

section
variable (B : Bodies)

structure Override.Related (o o' : Override (List Instruction)) : Prop where
  block : o.block = o'.block
  before : Option.Rel B o.before o'.before
  replace : Option.Rel B o.replace o'.replace
  after : Option.Rel B o.after o'.after

structure Guarded.Related (g g' : Guarded (List Instruction)) : Prop where
  expr : g.expr = g'.expr
  line : g.line = g'.line
  body : B g.body g'.body

structure CaseArm.Related (a a' : CaseArm (List Instruction)) : Prop where
  expr : a.expr = a'.expr
  body : B a.body a'.body

structure ProgramOf.Related (p q : Program) : Prop where
  filename : p.filename = q.filename
  sid : p.sid = q.sid
  instanceName : p.instanceName = q.instanceName
  blocks : p.blocks = q.blocks
  freeNames : p.freeNames = q.freeNames
  body : B p.instructions q.instructions

structure Embedded.Related (e e' : Embedded) : Prop where
  target : e.target = e'.target
  filename : e.program.filename = some e.target.filename
  instanceName : e.program.instanceName = e.target.instanceName
  program : e.program.Related B e'.program

end

section
variable {B B' : Bodies} (hB : ∀ a b, B a b → B' a b)
include hB

theorem rel_mono {o o' : Option (List Instruction)} (h : Option.Rel B o o') :
    Option.Rel B' o o' := by
  cases h with
  | none => exact .none
  | some h => exact .some (hB _ _ h)

theorem Override.Related.mono {o o' : Override (List Instruction)} (h : o.Related B o') :
    o.Related B' o' :=
  ⟨h.block, rel_mono hB h.before, rel_mono hB h.replace, rel_mono hB h.after⟩

theorem Guarded.Related.mono {g g' : Guarded (List Instruction)} (h : g.Related B g') :
    g.Related B' g' :=
  ⟨h.expr, h.line, hB _ _ h.body⟩

theorem CaseArm.Related.mono {a a' : CaseArm (List Instruction)} (h : a.Related B a') :
    a.Related B' a' :=
  ⟨h.expr, hB _ _ h.body⟩

theorem ProgramOf.Related.mono {p q : Program} (h : p.Related B q) : p.Related B' q :=
  ⟨h.filename, h.sid, h.instanceName, h.blocks, h.freeNames, hB _ _ h.body⟩

theorem Embedded.Related.mono {e e' : Embedded} (h : e.Related B e') : e.Related B' e' :=
  ⟨h.target, h.filename, h.instanceName, h.program.mono hB⟩

end

/-- A relation that everything the compiler does keeps, at the indentations of a kind, where what is
handed to modules is related as well. -/
structure Kept (change : Options → Options) (indented : String → Prop) (O : Entries) (B : Bodies) :
    Prop where
  deeper : ∀ {indent}, indented indent → indented (Compiler.deeper indent)
  entry : ∀ o, O o o
  leaves : ∀ {is}, (∀ i ∈ is, i.isLeaf = true) → B is is
  append : ∀ {a a' b b'}, B a a' → B b b' → B (a ++ b) (a' ++ b')
  coalesce : ∀ {a a'}, B a a' → B (coalesce a) (coalesce a')
  layout : ∀ {c d : Compiler} {indent}, d.options = change c.options → indented indent →
    B (c.layout indent) (d.layout indent)
  block : ∀ {a a'} name, B a a' → B [.block name a] [.block name a']
  ifElse : ∀ {bs bs' o o'}, List.Forall₂ (Guarded.Related B) bs bs' → Option.Rel B o o' →
    B [.ifElse bs o] [.ifElse bs' o']
  whileTrue : ∀ {a a'} expr line, B a a' → B [.whileTrue expr a line] [.whileTrue expr a' line]
  caseOf : ∀ {as as'} expr line, List.Forall₂ (CaseArm.Related B) as as' →
    B [.caseOf expr as line] [.caseOf expr as' line]
  each : ∀ {a a'} value key expr line, B a a' →
    B [.each value key expr a line] [.each value key expr a' line]
  extension : ∀ {c d : Compiler} {e e' : Embedded} {options options' overrides overrides'} line,
    d.options = change c.options → e.Related B e' → List.Forall₂ O options options' →
    List.Forall₂ (Override.Related B) overrides overrides' →
    B [.extension e.program options overrides (c.dependency e.target .extension) line]
      [.extension e'.program options' overrides' (d.dependency e'.target .extension) line]
  inclusion : ∀ {c d : Compiler} {e e' : Embedded} {options options'} line,
    d.options = change c.options → e.Related B e' → List.Forall₂ O options options' →
    B [.inclusion e.program options (c.dependency e.target .inclusion) line]
      [.inclusion e'.program options' (d.dependency e'.target .inclusion) line]

variable {change : Options → Options} {indented : String → Prop} {O : Entries} {B B' : Bodies}

namespace Kept

theorem nil (h : Kept change indented O B) : B [] [] :=
  h.leaves (by simp)

theorem text (h : Kept change indented O B) (s : String) : B [.text s] [.text s] :=
  h.leaves (by simp [Instruction.isLeaf])

theorem behindText (h : Kept change indented O B) {a a' : List Instruction} (s : String)
    (ha : B a a') : B (.text s :: a) (.text s :: a') :=
  h.append (h.text s) ha

theorem joined (h : Kept change indented O B) {old old' : Option (List Instruction)}
    {body body' : List Instruction} (ho : Option.Rel B old old') (hb : B body body') :
    Option.Rel B (some (Stencil.coalesce (old.getD [] ++ body)))
      (some (Stencil.coalesce (old'.getD [] ++ body'))) := by
  refine .some (h.coalesce (h.append ?_ hb))
  cases ho with
  | none => exact h.nil
  | some ho => exact ho

theorem add (h : Kept change indented O B) {o o' : Override (List Instruction)}
    {body body' : List Instruction} (ho : o.Related B o') (hb : B body body')
    (position : Position) : (o.add position body).Related B (o'.add position body') := by
  cases position with
  | before => exact ⟨ho.block, h.joined ho.before hb, ho.replace, ho.after⟩
  | replace => exact ⟨ho.block, ho.before, h.joined ho.replace hb, ho.after⟩
  | after => exact ⟨ho.block, ho.before, ho.replace, h.joined ho.after hb⟩

theorem addOverride (h : Kept change indented O B) {os os' : List (Override (List Instruction))}
    (hos : List.Forall₂ (Override.Related B) os os') {body body' : List Instruction}
    (hb : B body body') (position : Position) (block : String) :
    List.Forall₂ (Override.Related B) (addOverride position block body os)
      (addOverride position block body' os') := by
  induction hos with
  | nil => exact .cons (h.add ⟨rfl, .none, .none, .none⟩ hb position) .nil
  | @cons o o' os os' ho hos ih =>
    rw [Stencil.addOverride, Stencil.addOverride, ← ho.block]
    split
    · exact .cons (h.add ho hb position) hos
    · exact .cons ho ih

theorem and (h : Kept change indented O B) (h' : Kept change indented O B') :
    Kept change indented O fun a b => B a b ∧ B' a b where
  deeper := h.deeper
  entry := h.entry
  leaves := fun hi => ⟨h.leaves hi, h'.leaves hi⟩
  append := fun ha hb => ⟨h.append ha.1 hb.1, h'.append ha.2 hb.2⟩
  coalesce := fun ha => ⟨h.coalesce ha.1, h'.coalesce ha.2⟩
  layout := fun hd hi => ⟨h.layout hd hi, h'.layout hd hi⟩
  block := fun name ha => ⟨h.block name ha.1, h'.block name ha.2⟩
  ifElse := fun hbs ho =>
    ⟨h.ifElse (hbs.imp fun _ _ hb => hb.mono fun _ _ => And.left)
      (rel_mono (fun _ _ => And.left) ho),
      h'.ifElse (hbs.imp fun _ _ hb => hb.mono fun _ _ => And.right)
        (rel_mono (fun _ _ => And.right) ho)⟩
  whileTrue := fun expr line ha => ⟨h.whileTrue expr line ha.1, h'.whileTrue expr line ha.2⟩
  caseOf := fun expr line has =>
    ⟨h.caseOf expr line (has.imp fun _ _ ha => ha.mono fun _ _ => And.left),
      h'.caseOf expr line (has.imp fun _ _ ha => ha.mono fun _ _ => And.right)⟩
  each := fun value key expr line ha =>
    ⟨h.each value key expr line ha.1, h'.each value key expr line ha.2⟩
  extension := fun line hd he hentries hos =>
    ⟨h.extension line hd (he.mono fun _ _ => And.left) hentries
        (hos.imp fun _ _ ho => ho.mono fun _ _ => And.left),
      h'.extension line hd (he.mono fun _ _ => And.right) hentries
        (hos.imp fun _ _ ho => ho.mono fun _ _ => And.right)⟩
  inclusion := fun line hd he hentries =>
    ⟨h.inclusion line hd (he.mono fun _ _ => And.left) hentries,
      h'.inclusion line hd (he.mono fun _ _ => And.right) hentries⟩

end Kept

/-! ## Expressions -/

/-- Instructions with the same expressions, which the same loops stand around. -/
def SameSites (a b : List Instruction) : Prop :=
  ∀ bound, sitesOf bound a = sitesOf bound b

theorem sites_of_isText {is : List Instruction} (h : ∀ i ∈ is, i.isText = true)
    (bound : List String) : sitesOf bound is = [] := by
  induction is with
  | nil => rfl
  | cons i is ih =>
    rw [List.forall_mem_cons] at h
    rw [sitesOf, ih h.2]
    cases i with
    | text s => rfl
    | _ => cases h.1

theorem Compiler.texts_layout (c : Compiler) (indent : String) :
    ∀ i ∈ c.layout indent, i.isText = true := by
  unfold Compiler.layout
  split <;> simp [Instruction.isText]

section
variable (bound : List String)

theorem sitesOfOption_congr {o o' : Option (List Instruction)} (h : Option.Rel SameSites o o') :
    sitesOfOption bound o = sitesOfOption bound o' := by
  cases h with
  | none => rfl
  | some h => exact h bound

theorem sitesOfBranches_congr {bs bs' : List (Guarded (List Instruction))}
    (h : List.Forall₂ (Guarded.Related SameSites) bs bs') :
    sitesOfBranches bound bs = sitesOfBranches bound bs' := by
  induction h with
  | nil => rfl
  | cons hb _ ih => rw [sitesOfBranches, sitesOfBranches, hb.expr, hb.line, hb.body bound, ih]

theorem sitesOfArms_congr (line : Nat) {as as' : List (CaseArm (List Instruction))}
    (h : List.Forall₂ (CaseArm.Related SameSites) as as') :
    sitesOfArms bound line as = sitesOfArms bound line as' := by
  induction h with
  | nil => rfl
  | @cons a a' as as' ha _ ih =>
    obtain ⟨expr, body⟩ := a
    obtain ⟨_, body'⟩ := a'
    obtain ⟨rfl, hbody⟩ := ha
    cases expr with
    | none => rw [sitesOfArms, sitesOfArms, hbody bound, ih]
    | some expr => rw [sitesOfArms, sitesOfArms, hbody bound, ih]

theorem sitesOfOverrides_congr {os os' : List (Override (List Instruction))}
    (h : List.Forall₂ (Override.Related SameSites) os os') :
    sitesOfOverrides bound os = sitesOfOverrides bound os' := by
  induction h with
  | nil => rfl
  | cons ho _ ih =>
    rw [sitesOfOverrides, sitesOfOverrides, sitesOfOption_congr bound ho.before,
      sitesOfOption_congr bound ho.replace, sitesOfOption_congr bound ho.after, ih]

end

def OptionEntry.SameSites (o o' : OptionEntry) : Prop :=
  ∀ line bound, o.sites line bound = o'.sites line bound

theorem optionSites_congr (line : Nat) (bound : List String) {os os' : List OptionEntry}
    (h : List.Forall₂ OptionEntry.SameSites os os') :
    optionSites line bound os = optionSites line bound os' := by
  induction h with
  | nil => rfl
  | cons ho _ ih =>
    rw [optionSites, optionSites, List.flatMap_cons, List.flatMap_cons, ho line bound]
    exact congrArg _ ih

/-- Neither the layout nor recording adds an expression. -/
theorem kept_sameSites (hdeeper : ∀ {indent}, indented indent → indented (Compiler.deeper indent))
    (hentry : ∀ o, O o o) (hO : ∀ o o', O o o' → o.SameSites o') :
    Kept change indented O SameSites where
  deeper := hdeeper
  entry := hentry
  leaves := fun _ _ => rfl
  append := fun ha hb bound => by rw [sitesOf_append, sitesOf_append, ha bound, hb bound]
  coalesce := fun ha bound => by rw [sitesOf_coalesce, sitesOf_coalesce, ha bound]
  layout := fun _ _ bound => by
    rw [sites_of_isText (Compiler.texts_layout _ _), sites_of_isText (Compiler.texts_layout _ _)]
  block := fun name ha bound => by
    simp only [sitesOf, Instruction.sites, ha bound]
  ifElse := fun hbs ho bound => by
    simp only [sitesOf, Instruction.sites, sitesOfBranches_congr bound hbs,
      sitesOfOption_congr bound ho]
  whileTrue := fun expr line ha bound => by
    simp only [sitesOf, Instruction.sites, ha bound]
  caseOf := fun expr line has bound => by
    simp only [sitesOf, Instruction.sites, sitesOfArms_congr bound line has]
  each := fun value key expr line ha bound => by
    simp only [sitesOf, Instruction.sites, ha _]
  extension := fun line _ _ hentries hos bound => by
    simp only [sitesOf, Instruction.sites, sitesOfOverrides_congr bound hos,
      optionSites_congr line bound (hentries.imp hO)]
  inclusion := fun line _ _ hentries bound => by
    simp only [sitesOf, Instruction.sites, optionSites_congr line bound (hentries.imp hO)]

/-! ## Nodes -/

/-- Transforms under which the plain literals of a kind come to related things. -/
structure Transforms.Beside (change : Options → Options) (fit : Literal → Prop) (O : Entries)
    (B : Bodies) (ts ts' : Transforms) : Prop where
  attr : ∀ {name value ss} tag line o, fit ⟨name, value⟩ → segments value = .ok ss →
    isPlain ss = true → B (attrContent line ss (ts.run name value (.tag tag) o))
      (attrContent line ss (ts'.run name value (.tag tag) (change o)))
  option : ∀ {name value ss} o, fit ⟨name, value⟩ → segments value = .ok ss → isPlain ss = true →
    O ⟨name, .text (optionContent ss (ts.run name value .option o))⟩
      ⟨name, .text (optionContent ss (ts'.run name value .option (change o)))⟩

theorem Transforms.beside_of_run (hk : Kept change indented O B) {ts : Transforms}
    (h : ∀ name value target o, ts.run name value target (change o) = ts.run name value target o)
    (fit : Literal → Prop) : ts.Beside change fit O B ts where
  attr := fun tag line o _ _ _ => by
    rw [h]
    exact hk.leaves (leaves_attrContent line _ _)
  option := fun o _ _ _ => by
    rw [h]
    exact hk.entry _

structure Compiler.Beside (change : Options → Options) (indented : String → Prop)
    (fit : Literal → Prop) (O : Entries) (B : Bodies) (c d : Compiler) : Prop where
  options : d.options = change c.options
  instanceName : d.options.instanceName = c.options.instanceName
  sid : d.sid = c.sid
  transforms : c.transforms.Beside change fit O B d.transforms
  embed : ∀ {reference line indent}, indented indent →
    Parallel (Embedded.Related B) (c.embed reference line indent) (d.embed reference line indent)

variable {fit : Literal → Prop}

namespace Compiler

section
variable {c d : Compiler} (h : c.Beside change indented fit O B d)
include h

theorem classes_beside (head : TagHead) (line : Nat) :
    d.classes head line = c.classes head line := by
  simp only [classes, h.sid]

variable (hk : Kept change indented O B)
include hk

theorem literalAttr_beside (tag : String) {name value : String} (hl : fit ⟨name, value⟩)
    (line : Nat) :
    Parallel B (c.literalAttr tag name value line) (d.literalAttr tag name value line) := by
  rw [literalAttr_eq, literalAttr_eq]
  refine (Parallel.same _).bind ?_
  rintro ss _ ⟨rfl, hss⟩
  refine .ok (hk.append (hk.behindText _ ?_) (hk.text _))
  by_cases hplain : isPlain ss = true
  · rw [if_pos hplain, if_pos hplain, h.options]
    exact h.transforms.attr tag line _ hl (segmentsOnLine_eq_ok.1 hss) hplain
  · rw [if_neg hplain, if_neg hplain]
    exact hk.leaves (leaves_attrContent line ss none)

theorem attrBesideClass_beside (tag : String) (line : Nat) {a : Attribute}
    (ha : ∀ l ∈ a.literal?, l.name ≠ "class" → l.name ≠ "id" → fit l) :
    Parallel B (c.attrBesideClass tag line a) (d.attrBesideClass tag line a) := by
  obtain ⟨name, value, escaped⟩ := a
  unfold attrBesideClass
  split
  · exact .ok hk.nil
  · next text _ _ =>
    have hid : d.idAttr text line = c.idAttr text line := by
      simp only [idAttr, h.instanceName, h.sid]
    rw [hid]
    refine (Parallel.same _).mono ?_
    rintro is _ ⟨rfl, his⟩
    obtain ⟨content, hcontent, his⟩ := bind_eq_ok.1 his
    obtain rfl := Except.ok.inj his
    exact hk.leaves (leaves_between (leaves_interpolate hcontent) _ _)
  · next hclass hid =>
    unfold attr
    cases value with
    | boolean => exact .ok (hk.text _)
    | expr e => exact .ok (hk.leaves (by simp [Instruction.isLeaf]))
    | literal text =>
      refine literalAttr_beside h hk tag (ha ⟨name, text⟩ rfl ?_ ?_) line
      · rintro rfl
        exact hclass rfl
      · rintro rfl
        exact hid _ rfl rfl

theorem attrs_beside (tag : String) (line : Nat) {as : List Attribute}
    (has : ∀ l ∈ as.filterMap Attribute.literal?, l.name ≠ "class" → l.name ≠ "id" → fit l) :
    Parallel B (c.attrs tag line as) (d.attrs tag line as) := by
  induction as with
  | nil => exact .ok hk.nil
  | cons a as ih =>
    obtain ⟨ha, has⟩ := forall_literals_cons.1 has
    rw [attrs, attrs]
    refine (attrBesideClass_beside h hk tag line ha).bind fun first first' hfirst => ?_
    refine (ih has).bind fun rest rest' hrest => ?_
    exact .ok (hk.append hfirst hrest)

theorem option_beside (line : Nat) {a : Attribute} (ha : ∀ l ∈ a.literal?, fit l) :
    Parallel O (c.option line a) (d.option line a) := by
  obtain ⟨name, value, escaped⟩ := a
  unfold option
  cases value with
  | boolean => exact .ok (hk.entry _)
  | expr e => exact .ok (hk.entry _)
  | literal text =>
    dsimp only
    rw [optionText_eq, optionText_eq]
    refine Parallel.map (R := fun ps ps' => O ⟨name, .text ps⟩ ⟨name, .text ps'⟩) ?_ fun _ _ => id
    refine (Parallel.same _).bind ?_
    rintro ss _ ⟨rfl, hss⟩
    refine .ok ?_
    by_cases hplain : isPlain ss = true
    · rw [if_pos hplain, if_pos hplain, h.options]
      exact h.transforms.option _ (ha ⟨name, text⟩ rfl) (segmentsOnLine_eq_ok.1 hss) hplain
    · rw [if_neg hplain, if_neg hplain]
      exact hk.entry _

theorem optionList_beside (line : Nat) {as : List Attribute}
    (has : ∀ l ∈ as.filterMap Attribute.literal?, fit l) :
    Parallel (List.Forall₂ O) (c.optionList line as) (d.optionList line as) := by
  induction as with
  | nil => exact .ok .nil
  | cons a as ih =>
    obtain ⟨ha, has⟩ := forall_literals_cons.1 has
    rw [optionList, optionList]
    refine (option_beside h hk line ha).bind fun o o' ho => ?_
    refine (ih has).bind fun os os' hos => ?_
    exact .ok (.cons ho hos)

variable {indent : String} (hi : indented indent)
include hi

theorem openTag_beside {head : TagHead} (hhead : ∀ l ∈ head.literals, fit l) (line : Nat) :
    Parallel B (c.openTag indent head line) (d.openTag indent head line) := by
  have hliterals : ∀ l ∈ head.attrs.filterMap Attribute.literal?, l.name ≠ "class" →
      l.name ≠ "id" → fit l :=
    fun l hl hclass hid => hhead l (List.mem_filter.2 ⟨hl, by simp [hclass, hid]⟩)
  rw [openTag, openTag, classes_beside h]
  refine (attrs_beside h hk head.name line hliterals).bind fun attrs attrs' hattrs => ?_
  refine (Parallel.same _).bind ?_
  rintro classes _ ⟨rfl, hclasses⟩
  refine .ok (hk.append (hk.append (hk.append ?_ ?_) (hk.leaves (leaves_classes hclasses)))
    (hk.text _))
  · split
    · exact hk.nil
    · exact hk.layout h.options hi
  · exact hk.behindText _ hattrs

theorem closeTag_beside (head : TagHead) (hasBody : Bool) :
    B (c.closeTag indent head hasBody) (d.closeTag indent head hasBody) := by
  refine hk.append ?_ (hk.text _)
  split
  · exact hk.nil
  · exact hk.layout h.options hi

end

-- Both compilers go through the same nodes and take the same branches there: where they part is in
-- what they embed, in the layout and in transformed literals, which is left to `Kept` and
-- `Transforms.Beside`.
mutual
theorem node_beside {c d : Compiler} (h : c.Beside change indented fit O B d)
    (hk : Kept change indented O B) {indent : String} (hi : indented indent) : (n : Node) →
    (∀ l ∈ n.literals, fit l) → Parallel B (c.node indent n) (d.node indent n)
  | .doctype _ value, _ => .ok (hk.text _)
  | .tag mark head body, hl => by
    obtain ⟨hhead, hbody⟩ := List.forall_mem_append.1 hl
    rw [node, node]
    refine (openTag_beside h hk hi hhead mark.line).bind fun start start' hstart => ?_
    split
    · exact .ok hstart
    · refine (Parallel.same _).bind ?_
      rintro text _ ⟨rfl, htext⟩
      refine (nodes_beside h hk (hk.deeper hi) body hbody).bind fun content content' hcontent => ?_
      exact .ok (hk.append (hk.append (hk.append hstart (hk.leaves (leaves_tagText htext)))
        hcontent) (closeTag_beside h hk hi head _))
  | .text mark text, _ => by
    rw [node, node]
    refine (Parallel.same _).mono ?_
    rintro is _ ⟨rfl, his⟩
    exact hk.leaves (leaves_interpolate his)
  | .comment _ text true, _ => .ok (hk.append (hk.layout h.options hi) (hk.text _))
  | .comment _ _ false, _ => .ok hk.nil
  | .block _ name body, hl => by
    rw [node, node]
    refine (nodes_beside h hk hi body hl).bind fun is is' his => ?_
    exact .ok (hk.block name (hk.coalesce his))
  | .extension mark reference options replaces, hl => by
    obtain ⟨hoptions, hreplaces⟩ := List.forall_mem_append.1 hl
    rw [node, node]
    refine (h.embed hi).bind fun e e' he => ?_
    refine (replacements_beside h hk hi he .nil replaces hreplaces).bind fun os os' hos => ?_
    refine (optionList_beside h hk mark.line hoptions).bind fun entries entries' hentries => ?_
    exact .ok (hk.extension mark.line h.options he hentries hos)
  | .inclusion mark reference options, hl => by
    rw [node, node]
    refine (h.embed hi).bind fun e e' he => ?_
    refine (optionList_beside h hk mark.line hl).bind fun entries entries' hentries => ?_
    exact .ok (hk.inclusion mark.line h.options he hentries)
  | .caseOf mark expr arms, hl => by
    rw [node, node]
    refine (caseArms_beside h hk hi arms hl).bind fun as as' has => ?_
    exact .ok (hk.caseOf expr mark.line has)
  | .ifElse _ branches otherwise, hl => by
    obtain ⟨hbranches, hotherwise⟩ := List.forall_mem_append.1 hl
    rw [node, node]
    refine (guarded_beside h hk hi branches hbranches).bind fun bs bs' hbs => ?_
    refine (alternative_beside h hk hi otherwise hotherwise).bind fun o o' ho => ?_
    exact .ok (hk.ifElse hbs ho)
  | .whileTrue mark expr body, hl => by
    rw [node, node]
    refine (nodes_beside h hk hi body hl).bind fun is is' his => ?_
    exact .ok (hk.whileTrue expr mark.line (hk.coalesce his))
  | .each mark value key expr body, hl => by
    rw [node, node]
    refine (nodes_beside h hk hi body hl).bind fun is is' his => ?_
    exact .ok (hk.each value key expr mark.line (hk.coalesce his))
theorem nodes_beside {c d : Compiler} (h : c.Beside change indented fit O B d)
    (hk : Kept change indented O B) {indent : String} (hi : indented indent) : (ns : List Node) →
    (∀ l ∈ literalsOf ns, fit l) → Parallel B (c.nodes indent ns) (d.nodes indent ns)
  | [], _ => .ok hk.nil
  | n :: ns, hl => by
    obtain ⟨hn, hns⟩ := List.forall_mem_append.1 hl
    rw [nodes, nodes]
    refine (node_beside h hk hi n hn).bind fun first first' hfirst => ?_
    refine (nodes_beside h hk hi ns hns).bind fun rest rest' hrest => ?_
    exact .ok (hk.append hfirst hrest)
theorem caseArms_beside {c d : Compiler} (h : c.Beside change indented fit O B d)
    (hk : Kept change indented O B) {indent : String} (hi : indented indent) :
    (as : List (Arm (List Node))) → (∀ l ∈ literalsOfArms as, fit l) →
    Parallel (List.Forall₂ (CaseArm.Related B)) (c.caseArms indent as) (d.caseArms indent as)
  | [], _ => .ok .nil
  | ⟨expr, _, body⟩ :: as, hl => by
    obtain ⟨hbody, has⟩ := List.forall_mem_append.1 hl
    rw [caseArms, caseArms]
    refine (nodes_beside h hk hi body hbody).bind fun is is' his => ?_
    refine (caseArms_beside h hk hi as has).bind fun rest rest' hrest => ?_
    exact .ok (.cons ⟨rfl, hk.coalesce his⟩ hrest)
theorem guarded_beside {c d : Compiler} (h : c.Beside change indented fit O B d)
    (hk : Kept change indented O B) {indent : String} (hi : indented indent) :
    (bs : List (Branch (List Node))) → (∀ l ∈ literalsOfBranches bs, fit l) →
    Parallel (List.Forall₂ (Guarded.Related B)) (c.guarded indent bs) (d.guarded indent bs)
  | [], _ => .ok .nil
  | ⟨expr, line, body⟩ :: bs, hl => by
    obtain ⟨hbody, hbs⟩ := List.forall_mem_append.1 hl
    rw [guarded, guarded]
    refine (nodes_beside h hk hi body hbody).bind fun is is' his => ?_
    refine (guarded_beside h hk hi bs hbs).bind fun rest rest' hrest => ?_
    exact .ok (.cons ⟨rfl, rfl, hk.coalesce his⟩ hrest)
theorem alternative_beside {c d : Compiler} (h : c.Beside change indented fit O B d)
    (hk : Kept change indented O B) {indent : String} (hi : indented indent) :
    (o : Option (List Node)) → (∀ l ∈ literalsOfOtherwise o, fit l) →
    Parallel (Option.Rel B) (c.alternative indent o) (d.alternative indent o)
  | none, _ => .ok .none
  | some body, hl => by
    rw [alternative, alternative]
    refine (nodes_beside h hk hi body hl).bind fun is is' his => ?_
    exact .ok (.some (hk.coalesce his))
theorem replacements_beside {c d : Compiler} (h : c.Beside change indented fit O B d)
    (hk : Kept change indented O B) {indent : String} (hi : indented indent) {e e' : Embedded}
    (he : e.Related B e') {done done' : List (Override (List Instruction))}
    (hd : List.Forall₂ (Override.Related B) done done') : (rs : List (Replace (List Node))) →
    (∀ l ∈ literalsOfReplaces rs, fit l) →
    Parallel (List.Forall₂ (Override.Related B)) (c.replacements indent e done rs)
      (d.replacements indent e' done' rs)
  | [], _ => .ok hd
  | ⟨position, block, line, body⟩ :: rs, hl => by
    obtain ⟨hbody, hrs⟩ := List.forall_mem_append.1 hl
    rw [replacements, replacements, ← he.program.blocks, ← he.target]
    split
    · refine (nodes_beside h hk (hk.deeper hi) body hbody).bind fun is is' his => ?_
      have hadded := hk.addOverride hd (hk.coalesce his) position block
      exact replacements_beside h hk hi he hadded rs hrs
    · exact .error _
end

theorem program_beside {c d : Compiler} (h : c.Beside change indented fit O B d)
    (hk : Kept change indented O B) (hB : ∀ a b, B a b → SameSites a b)
    (ha : Options.Aside change) (hi : indented c.options.indent) {x : Document}
    (hl : ∀ l ∈ x.literals, fit l) :
    Parallel (ProgramOf.Related B) (c.program x) (d.program x) := by
  unfold program
  split
  · exact .error _
  · rw [h.options, ha.indent]
    refine (nodes_beside h hk hi x.nodes hl).bind fun body body' hbody => ?_
    have hcoalesced := hk.coalesce hbody
    have hfree : freeNamesOf (coalesce body') = freeNamesOf (coalesce body) := by
      rw [freeNamesOf_eq, freeNamesOf_eq, hB _ _ hcoalesced []]
    dsimp only
    rw [hfree]
    refine (Parallel.same _).bind ?_
    rintro names _ ⟨rfl, -⟩
    exact .ok ⟨(ha.filename _).symm, h.sid.symm, (ha.instanceName _).symm, rfl, rfl, hcoalesced⟩

end Compiler

/-! ## Files -/

theorem names_of_compile {files : Files} {transforms : Transforms} {options : Options}
    {chain : List String} {d : Document} {p : Program}
    (h : compile files transforms options chain d = .ok p) :
    p.filename = options.filename ∧ p.instanceName = options.instanceName ∧
      p.sid = scopeId options.filename options.instanceName := by
  obtain ⟨embed, hp, -⟩ := compile_eq_ok h
  unfold Compiler.program at hp
  split at hp
  · cases hp
  · obtain ⟨body, -, hp⟩ := bind_eq_ok.1 hp
    obtain ⟨names, -, hp⟩ := bind_eq_ok.1 hp
    obtain rfl := Except.ok.inj hp
    exact ⟨rfl, rfl, rfl⟩

theorem findModule_change (ha : Options.Aside change) (files : Files) (options : Options)
    (chain : List String) (sid reference : String) (line : Nat) :
    findModule files (change options) chain sid reference line =
      findModule files options chain sid reference line := by
  unfold findModule
  rw [ha.resolve]

theorem compile_beside {files : Files} {transforms transforms' : Transforms}
    (ha : Options.Aside change) (hk : Kept change indented O B)
    (hB : ∀ a b, B a b → SameSites a b) (ht : transforms.Beside change fit O B transforms')
    (hfiles : files.LiteralsAre fit) {options : Options} (hi : indented options.indent)
    (chain : List String) {d : Document} (hd : ∀ l ∈ d.literals, fit l) :
    Parallel (ProgramOf.Related B) (compile files transforms options chain d)
      (compile files transforms' (change options) chain d) := by
  have hembed : ∀ {reference line indent}, indented indent → Parallel (Embedded.Related B)
      (embedBy files (compile files transforms) options chain reference line indent)
      (embedBy files (compile files transforms') (change options) chain reference line indent) := by
    intro reference line indent hindent
    unfold embedBy
    rw [findModule_change ha, ha.filename, ha.instanceName]
    split
    · exact .error _
    · next m hm =>
      have := m.outside
      obtain ⟨-, -, file, hlocate, hparse⟩ := findModule_eq_ok hm
      have hliterals : ∀ l ∈ m.document.literals, fit l :=
        literals_of_parse hparse ▸ hfiles file (Files.mem_of_locate? hlocate).1
      rw [ha.forModule]
      have hnested : Parallel (fun p q => p.filename = some m.target.filename ∧
            p.instanceName = m.target.instanceName ∧ p.Related B q)
          (compile files transforms (options.forModule m.target indent)
            (chain ++ [m.target.filename]) m.document)
          (compile files transforms' (change (options.forModule m.target indent))
            (chain ++ [m.target.filename]) m.document) := by
        refine (compile_beside ha hk hB ht hfiles hindent _ hliterals).with_results.mono ?_
        rintro p q ⟨hp, -, hpq⟩
        obtain ⟨hname, hinstance, -⟩ := names_of_compile hp
        exact ⟨hname, hinstance, hpq⟩
      revert hnested
      generalize compile files transforms _ _ m.document = x
      generalize compile files transforms' _ _ m.document = y
      intro hnested
      cases hnested with
      | error e => exact .error _
      | ok related =>
        obtain ⟨hname, hinstance, hpq⟩ := related
        exact .ok ⟨rfl, hname, hinstance, hpq⟩
  have hbeside : Compiler.Beside change indented fit O B
      ⟨options, scopeId options.filename options.instanceName, transforms,
        embedBy files (compile files transforms) options chain⟩
      ⟨change options, scopeId options.filename options.instanceName, transforms',
        embedBy files (compile files transforms') (change options) chain⟩ :=
    ⟨rfl, ha.instanceName _, rfl, ht, hembed⟩
  have hprogram := Compiler.program_beside hbeside hk hB ha hi hd
  rw [compile_eq_step, compile_eq_step, compileStep, compileStep, ha.filename, ha.instanceName]
  -- The names of the file do not depend on the change, so both faults are put into the same file.
  revert hprogram
  generalize Compiler.program _ d = p
  generalize Compiler.program _ d = q
  intro hprogram
  cases hprogram with
  | error e => exact .error _
  | ok related => exact .ok related
termination_by files.outside chain

namespace Session

/-- Two compilations of a source, the literals of which are of a kind. -/
theorem compileSource_beside {files : Files} {transforms transforms' : Transforms}
    (ha : Options.Aside change) (hk : Kept change indented O B)
    (hO : ∀ o o', O o o' → o.SameSites o')
    (ht : transforms.Beside change fit O (fun a b => B a b ∧ SameSites a b) transforms')
    {options : Options} (hi : indented options.indent) (source : String)
    (hl : (files.load (options.filename.getD anonymous) source).2.LiteralsAre fit) :
    Parallel (fun t u => t.program.Related B u.program)
      ((mk files transforms).compileSource source options).1
      ((mk files transforms').compileSource source (change options)).1 := by
  unfold compileSource compileLoaded load
  dsimp only
  rw [ha.filename]
  refine Parallel.mapError ?_ _
  refine (Parallel.same _).bind ?_
  rintro d _ ⟨rfl, hd⟩
  unfold compileDocument
  dsimp only
  rw [ha.filename, ha.named]
  have hboth := hk.and (kept_sameSites hk.deeper hk.entry hO)
  refine Parallel.map (R := ProgramOf.Related B) ?_ fun p q hpq => hpq
  refine Parallel.mono (compile_beside ha hboth (fun _ _ => And.right) ht hl ?_ _ ?_) ?_
  · exact hi
  · obtain ⟨f, hf, hsource⟩ := files.get?_load (options.filename.getD anonymous) source
    rw [literals_of_parse hd, ← hsource]
    exact hl f (List.mem_of_getElem? hf)
  · exact fun p q hpq => hpq.mono fun _ _ => And.left

/-- Two compilations of a source with the same transforms, which the change of the options does not
concern. -/
theorem compileSource_changed {s : Session} (ha : Options.Aside change)
    (hk : Kept change indented O B) (hO : ∀ o o', O o o' → o.SameSites o')
    (ht : ∀ name value target o,
      s.transforms.run name value target (change o) = s.transforms.run name value target o)
    {options : Options} (hi : indented options.indent) (source : String) :
    Parallel (fun t u => t.program.Related B u.program) (s.compileSource source options).1
      (s.compileSource source (change options)).1 := by
  have hboth := hk.and (kept_sameSites hk.deeper hk.entry hO)
  have htransforms := Transforms.beside_of_run hboth ht fun _ => True
  exact compileSource_beside ha hk hO htransforms hi source fun _ _ _ _ => trivial

end Session

end Stencil
