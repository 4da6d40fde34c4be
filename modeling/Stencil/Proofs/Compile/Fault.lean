import Stencil.Proofs.Compile.Meaning
import Stencil.Proofs.Program.Free
import Stencil.Proofs.Template.Checked

/-! # What can go wrong in compilation

The compiler splits texts and parses expressions a second time. For a checked document that cannot
fail, so what is left are faults of blocks and modules; and the expressions of its instructions are
all accepted. -/

namespace Stencil

open Template

/-! ## The expressions of instructions -/

def AcceptedSites (ss : List Site) : Prop :=
  ∀ s ∈ ss, Expr.accepts s.source = true

theorem AcceptedSites.append {ss ts : List Site} (hs : AcceptedSites ss) (ht : AcceptedSites ts) :
    AcceptedSites (ss ++ ts) := by
  intro s h
  rcases List.mem_append.1 h with h | h
  · exact hs s h
  · exact ht s h

theorem AcceptedSites.cons {s : Site} {ss : List Site} (hs : Expr.accepts s.source = true)
    (hss : AcceptedSites ss) : AcceptedSites (s :: ss) :=
  List.forall_mem_cons.2 ⟨hs, hss⟩

theorem acceptedSites_nil : AcceptedSites [] :=
  fun _ h => nomatch h

def Accepted (is : List Instruction) : Prop :=
  ∀ bound, AcceptedSites (sitesOf bound is)

theorem sitesOf_append (bound : List String) (is js : List Instruction) :
    sitesOf bound (is ++ js) = sitesOf bound is ++ sitesOf bound js := by
  induction is with
  | nil => rfl
  | cons i is ih => rw [List.cons_append, sitesOf, sitesOf, ih, List.append_assoc]

theorem sitesOf_coalesce (bound : List String) (is : List Instruction) :
    sitesOf bound (coalesce is) = sitesOf bound is := by
  fun_induction coalesce is with
  | case1 => rfl
  | case2 s is t rest h ih =>
    rw [h, sitesOf, Instruction.sites] at ih
    rw [sitesOf, sitesOf, Instruction.sites, Instruction.sites, ← ih]
    rfl
  | case3 s is hs hne ih => rw [sitesOf, Instruction.sites, List.nil_append, ih]
  | case4 s is hs hne ih => rw [sitesOf, sitesOf, ih]
  | case5 i is hne ih => rw [sitesOf, sitesOf, ih]

theorem Accepted.append {is js : List Instruction} (hi : Accepted is) (hj : Accepted js) :
    Accepted (is ++ js) := by
  intro bound
  rw [sitesOf_append]
  exact (hi bound).append (hj bound)

theorem Accepted.coalesce {is : List Instruction} (h : Accepted is) : Accepted (coalesce is) := by
  intro bound
  rw [sitesOf_coalesce]
  exact h bound

theorem accepted_nil : Accepted [] :=
  fun _ => acceptedSites_nil

theorem Accepted.text (s : String) {is : List Instruction} (h : Accepted is) :
    Accepted (.text s :: is) :=
  fun bound => h bound

theorem accepted_text (s : String) : Accepted [.text s] :=
  accepted_nil.text s

/-- The names of expressions can be collected if and only if all of them can be parsed. -/
theorem foldlM_addFree_iff {ss : List Site} {names : List String} :
    (∃ names', ss.foldlM addFree names = .ok names') ↔ AcceptedSites ss := by
  induction ss generalizing names with
  | nil => exact ⟨fun _ => acceptedSites_nil, fun _ => ⟨names, rfl⟩⟩
  | cons s ss ih =>
    rw [List.foldlM_cons, AcceptedSites, List.forall_mem_cons, Expr.accepts]
    unfold addFree
    cases Expr.parse s.source with
    | error e =>
      constructor
      · rintro ⟨_, h⟩
        cases h
      · rintro ⟨h, -⟩
        cases h
    | ok e =>
      constructor
      · intro h
        exact ⟨rfl, ih.1 h⟩
      · rintro ⟨-, h⟩
        exact ih.2 h

theorem exists_freeNames {is : List Instruction} (h : Accepted is) :
    ∃ names, freeNamesOf is = .ok names := by
  rw [freeNamesOf_eq]
  exact foldlM_addFree_iff.2 (h [])

theorem accepted_of_freeNames {is : List Instruction} {names : List String}
    (h : freeNamesOf is = .ok names) : AcceptedSites (sitesOf [] is) := by
  rw [freeNamesOf_eq] at h
  exact foldlM_addFree_iff.1 ⟨names, h⟩

/-! ## Texts and attributes -/

abbrev Succeeds {α : Type} (good : α → Prop) (r : Result α) : Prop :=
  Ensures (fun _ => False) good r

theorem succeeds_segmentsOnLine {text : String} (h : Readable text) (line : Nat) :
    Succeeds (fun ss => ∀ e escape offset, Segment.interpolation e escape offset ∈ ss →
      Expr.accepts e = true) (segmentsOnLine text line) := by
  obtain ⟨ss, hss, hall⟩ := h
  rw [segmentsOnLine, hss]
  exact hall

theorem accepted_segments {ss : List Segment} (line : Nat)
    (h : ∀ e escape offset, Segment.interpolation e escape offset ∈ ss → Expr.accepts e = true) :
    Accepted (ss.map (Segment.instruction line)) := by
  induction ss with
  | nil => exact accepted_nil
  | cons s ss ih =>
    have hss := ih fun e escape offset he => h e escape offset (List.mem_cons_of_mem _ he)
    cases s with
    | literal t => exact hss.text t
    | interpolation e escape offset =>
      intro bound
      exact .cons (h e escape offset (List.mem_cons_self ..)) (hss bound)

theorem succeeds_interpolate {text : String} (h : Readable text) (line : Nat) :
    Succeeds Accepted (interpolate text line) :=
  Ensures.map (succeeds_segmentsOnLine h line) fun _ hss => accepted_segments line hss

namespace Compiler

variable {c : Compiler}

theorem succeeds_literalAttr (tag name : String) {value : String} (h : Readable value)
    (line : Nat) :
    Succeeds Accepted (c.literalAttr tag name value line) := by
  refine Ensures.bind (succeeds_segmentsOnLine h line) ?_
  intro ss hss
  refine Accepted.text _ (Accepted.append ?_ (accepted_text _))
  split
  · exact accepted_text _
  · exact accepted_segments line hss

theorem succeeds_attrBesideClass (tag : String) (line : Nat) {a : Attribute}
    (h : a.value.Checked) : Succeeds Accepted (c.attrBesideClass tag line a) := by
  obtain ⟨name, value, escaped⟩ := a
  unfold attrBesideClass
  split
  · exact accepted_nil
  · next text _ hv =>
    obtain rfl : value = .literal text := hv
    refine Ensures.bind (succeeds_interpolate h line) ?_
    intro content hc
    exact .text _ (hc.append (accepted_text _))
  · cases value with
    | boolean => exact accepted_text _
    | literal text => exact succeeds_literalAttr tag name h line
    | expr e =>
      intro bound
      exact .cons h acceptedSites_nil

theorem succeeds_attrs (tag : String) (line : Nat) {as : List Attribute} (h : CheckedAttrs as) :
    Succeeds Accepted (c.attrs tag line as) := by
  induction as with
  | nil => exact accepted_nil
  | cons a as ih =>
    obtain ⟨ha, has⟩ := List.forall_mem_cons.1 h
    refine Ensures.bind (succeeds_attrBesideClass tag line ha) ?_
    intro first hfirst
    exact Ensures.bind (ih has) fun rest hrest => hfirst.append hrest

theorem succeeds_classValue (line : Nat) {a : Attribute} (h : a.value.Checked) :
    Succeeds Accepted (classValue line a) := by
  obtain ⟨name, value, escaped⟩ := a
  cases value with
  | boolean => exact accepted_nil
  | literal text => exact succeeds_interpolate h line
  | expr e =>
    intro bound
    exact .cons h acceptedSites_nil

theorem succeeds_classValues (line : Nat) (first : Bool) {as : List Attribute}
    (h : CheckedAttrs as) : Succeeds Accepted (classValues line first as) := by
  induction as generalizing first with
  | nil => exact accepted_nil
  | cons a as ih =>
    obtain ⟨ha, has⟩ := List.forall_mem_cons.1 h
    refine Ensures.bind (succeeds_classValue line ha) ?_
    intro value hvalue
    refine Ensures.bind (ih false has) ?_
    intro rest hrest
    refine Accepted.append (Accepted.append ?_ hvalue) hrest
    cases first with
    | true => exact accepted_nil
    | false => exact accepted_text _

theorem succeeds_classes {head : TagHead} (h : head.Checked) (line : Nat) :
    Succeeds Accepted (c.classes head line) := by
  have hgiven : CheckedAttrs (head.attrs.filter fun a => a.name == "class") :=
    fun a ha => h.attrs a (List.mem_filter.1 ha).1
  unfold Compiler.classes
  dsimp only
  split
  · exact accepted_nil
  · refine Ensures.bind (succeeds_classValues line _ hgiven) ?_
    intro values hvalues
    exact .text _ (hvalues.append (accepted_text _))

theorem accepted_layout (indent : String) : Accepted (c.layout indent) := by
  unfold Compiler.layout
  split
  · exact accepted_text _
  · exact accepted_nil

theorem succeeds_openTag (indent : String) {head : TagHead} (h : head.Checked) (line : Nat) :
    Succeeds Accepted (c.openTag indent head line) := by
  refine Ensures.bind (succeeds_attrs head.name line h.attrs) ?_
  intro attrs hattrs
  refine Ensures.bind (succeeds_classes h line) ?_
  intro classes hclasses
  have hstart : Accepted (if head.inline then [] else c.layout indent) := by
    split
    · exact accepted_nil
    · exact accepted_layout indent
  exact ((hstart.append (.text _ hattrs)).append hclasses).append (accepted_text _)

theorem accepted_closeTag (indent : String) (head : TagHead) (hasBody : Bool) :
    Accepted (c.closeTag indent head hasBody) := by
  unfold Compiler.closeTag
  refine Accepted.append ?_ (accepted_text _)
  split
  · exact accepted_nil
  · exact accepted_layout indent

theorem succeeds_tagText {head : TagHead} (h : head.Checked) (line : Nat) :
    Succeeds Accepted (tagText head line) := by
  unfold tagText
  split
  · next text ht => exact succeeds_interpolate (h.text text ht) line
  · exact accepted_nil

def AcceptedOptions (os : List OptionEntry) : Prop :=
  ∀ line bound, AcceptedSites (optionSites line bound os)

theorem accepted_parts {ss : List Segment} (line : Nat) (bound : List String)
    (h : ∀ e escape offset, Segment.interpolation e escape offset ∈ ss → Expr.accepts e = true) :
    AcceptedSites ((ss.map Segment.part).flatMap (Part.sites line bound)) := by
  intro x hx
  rw [List.flatMap_map] at hx
  obtain ⟨s, hs, hx⟩ := List.mem_flatMap.1 hx
  cases s with
  | literal t => cases hx
  | interpolation e escape offset =>
    obtain rfl := List.mem_singleton.1 hx
    exact h e escape offset hs

theorem succeeds_option (line : Nat) {a : Attribute} (h : a.value.Checked) :
    Succeeds (fun o => ∀ line bound, AcceptedSites (o.sites line bound)) (c.option line a) := by
  obtain ⟨name, value, escaped⟩ := a
  cases value with
  | boolean => exact fun _ _ => acceptedSites_nil
  | expr e => exact fun _ _ => .cons h acceptedSites_nil
  | literal text =>
    have hparts : Succeeds (fun ps : List Part => ∀ line bound,
        AcceptedSites (ps.flatMap (Part.sites line bound))) (c.optionText name text line) := by
      refine Ensures.bind (succeeds_segmentsOnLine h line) ?_
      intro ss hss line bound
      split
      · exact acceptedSites_nil
      · exact accepted_parts line bound hss
    exact Ensures.map hparts fun ps hps => hps

theorem succeeds_optionList (line : Nat) {as : List Attribute} (h : CheckedAttrs as) :
    Succeeds AcceptedOptions (c.optionList line as) := by
  induction as with
  | nil => exact fun _ _ => acceptedSites_nil
  | cons a as ih =>
    obtain ⟨ha, has⟩ := List.forall_mem_cons.1 h
    refine Ensures.bind (succeeds_option line ha) ?_
    intro o ho
    refine Ensures.bind (ih has) ?_
    intro os hos line bound
    exact (ho line bound).append (hos line bound)

/-! ## Overrides -/

def AcceptedOption (o : Option (List Instruction)) : Prop :=
  ∀ bound, AcceptedSites (sitesOfOption bound o)

structure AcceptedOverride (o : Override (List Instruction)) : Prop where
  before : AcceptedOption o.before
  replace : AcceptedOption o.replace
  after : AcceptedOption o.after

theorem acceptedOption_none : AcceptedOption none :=
  fun _ => acceptedSites_nil

theorem sitesOfOverrides_accepted {os : List (Override (List Instruction))}
    (h : ∀ o ∈ os, AcceptedOverride o) (bound : List String) :
    AcceptedSites (sitesOfOverrides bound os) := by
  induction os with
  | nil => exact acceptedSites_nil
  | cons o os ih =>
    obtain ⟨ho, hos⟩ := List.forall_mem_cons.1 h
    exact (((ho.before bound).append (ho.replace bound)).append (ho.after bound)).append (ih hos)

theorem AcceptedOverride.add {o : Override (List Instruction)} (ho : AcceptedOverride o)
    (position : Position) {body : List Instruction} (hb : Accepted body) :
    AcceptedOverride (o.add position body) := by
  have hjoined : ∀ {old : Option (List Instruction)}, AcceptedOption old →
      AcceptedOption (some (coalesce (old.getD [] ++ body))) := by
    intro old hold bound
    have hbody : Accepted (old.getD []) := by
      cases old with
      | none => exact accepted_nil
      | some is => exact hold
    exact (hbody.append hb).coalesce bound
  cases position with
  | before => exact ⟨hjoined ho.before, ho.replace, ho.after⟩
  | replace => exact ⟨ho.before, hjoined ho.replace, ho.after⟩
  | after => exact ⟨ho.before, ho.replace, hjoined ho.after⟩

theorem accepted_addOverride {os : List (Override (List Instruction))}
    (h : ∀ o ∈ os, AcceptedOverride o) (position : Position) (block : String)
    {body : List Instruction} (hb : Accepted body) :
    ∀ o ∈ addOverride position block body os, AcceptedOverride o := by
  have hempty : AcceptedOverride (Override.mk block none none none) :=
    ⟨acceptedOption_none, acceptedOption_none, acceptedOption_none⟩
  exact forall_addOverride h (hempty.add position hb) fun o ho => ho.add position hb

/-! ## Nodes -/

/-- What can go wrong in the nodes of a checked document: a token gives something for a block that
the module it is for does not have, or a module that a token refers to cannot be embedded. -/
inductive Fault (c : Compiler) (ts : List Token) (references : List String) : Diagnostic → Prop
  | content {t u : Token} {position : Position} {block reference indent : String} {m : Embedded}
      (mem : t ∈ ts) (kind : t.kind = .replace position block) (user : u ∈ ts)
      (refers : u.kind.reference? = some reference)
      (embedded : c.embed reference u.line indent = .ok m)
      (absent : m.program.blocks.contains block = false) :
      Fault c ts references (.onLine (.noSuchBlock block m.target.filename
        (Text.findSimilar block m.program.blocks)) t.line)
  | module {t : Token} {reference indent : String} {e : Diagnostic} (mem : t ∈ ts)
      (listed : reference ∈ references) (refers : t.kind.reference? = some reference)
      (failed : c.embed reference t.line indent = .error e) : Fault c ts references e

abbrev Builds {α : Type} (c : Compiler) (ts : List Token) (references : List String)
    (good : α → Prop) (r : Result α) : Prop :=
  Ensures (c.Fault ts references) good r

variable {ts : List Token} {rs : List String}

theorem builds_of_succeeds {α : Type} {good : α → Prop} {r : Result α} (h : Succeeds good r) :
    c.Builds ts rs good r :=
  h.mono (fun _ he => he.elim) fun _ ha => ha

theorem builds_embed {t : Token} (ht : t ∈ ts) {reference : String} (h : reference ∈ rs)
    (hk : t.kind.reference? = some reference) (indent : String) :
    c.Builds ts rs (fun e => c.embed reference t.line indent = .ok e)
      (c.embed reference t.line indent) := by
  cases he : c.embed reference t.line indent with
  | error e => exact .module ht h hk he
  | ok e => rfl

mutual
theorem builds_node (hts : CheckedTokens ts) (indent : String) : (n : Node) → n.MadeOf ts →
    n.references ⊆ rs →
    c.Builds ts rs Accepted (c.node indent n)
  | .doctype _ _, _, _ => by
    rw [node]
    exact accepted_text _
  | .tag mark head body, ⟨_, hmade, hbody⟩, hr => by
    have hhead := checked_tagHead hts hmade
    rw [node]
    refine Ensures.bind (builds_of_succeeds (succeeds_openTag indent hhead mark.line)) ?_
    intro start hstart
    split
    · exact hstart
    · refine Ensures.bind (builds_of_succeeds (succeeds_tagText hhead mark.line)) ?_
      intro text htext
      refine Ensures.bind (builds_nodes hts (deeper indent) body hbody hr) ?_
      intro content hcontent
      exact ((hstart.append htext).append hcontent).append (accepted_closeTag indent head _)
  | .text mark text, h, _ => by
    rw [node]
    exact builds_of_succeeds (succeeds_interpolate (hts _ h) mark.line)
  | .comment _ _ true, _, _ => by
    rw [node]
    exact (accepted_layout indent).append (accepted_text _)
  | .comment _ _ false, _, _ => by
    rw [node]
    exact accepted_nil
  | .block _ name body, ⟨_, hbody⟩, hr => by
    rw [node]
    refine Ensures.bind (builds_nodes hts indent body hbody hr) ?_
    intro content hcontent bound
    exact (hcontent.coalesce bound).append acceptedSites_nil
  | .extension mark reference options replaces, ⟨ht, hreplaces⟩, hr => by
    obtain ⟨href, hrs⟩ := List.cons_subset.1 hr
    rw [node]
    refine Ensures.bind (builds_embed ht href rfl indent) ?_
    intro e he
    refine Ensures.bind
      (builds_replacements hts indent ht rfl he replaces hreplaces hrs fun _ ho => nomatch ho) ?_
    intro overrides hoverrides
    refine Ensures.bind (builds_of_succeeds (succeeds_optionList mark.line (hts _ ht))) ?_
    intro os hos bound
    exact ((hos _ bound).append (sitesOfOverrides_accepted hoverrides bound)).append
      acceptedSites_nil
  | .inclusion mark reference options, ht, hr => by
    rw [node]
    refine Ensures.bind (builds_embed ht (hr (List.mem_singleton_self _)) rfl indent) ?_
    intro e _
    refine Ensures.bind (builds_of_succeeds (succeeds_optionList mark.line (hts _ ht))) ?_
    intro os hos bound
    exact (hos _ bound).append acceptedSites_nil
  | .caseOf mark expr arms, ⟨ht, harms⟩, hr => by
    rw [node]
    refine Ensures.bind (builds_arms hts indent arms harms hr) ?_
    intro as has bound
    exact .cons (hts _ ht) ((has bound _).append acceptedSites_nil)
  | .ifElse _ branches otherwise, ⟨hbranches, hotherwise⟩, hr => by
    obtain ⟨hbs, hos⟩ := List.append_subset.1 hr
    rw [node]
    refine Ensures.bind (builds_guarded hts indent branches hbranches hbs) ?_
    intro gs hgs
    refine Ensures.bind (builds_alternative hts indent otherwise hotherwise hos) ?_
    intro o ho bound
    exact ((hgs bound).append (ho bound)).append acceptedSites_nil
  | .whileTrue mark expr body, ⟨ht, hbody⟩, hr => by
    rw [node]
    refine Ensures.bind (builds_nodes hts indent body hbody hr) ?_
    intro content hcontent bound
    exact .cons (hts _ ht) ((hcontent.coalesce bound).append acceptedSites_nil)
  | .each mark value key expr body, ⟨ht, hbody⟩, hr => by
    rw [node]
    refine Ensures.bind (builds_nodes hts indent body hbody hr) ?_
    intro content hcontent bound
    exact .cons (hts _ ht).2 ((hcontent.coalesce _).append acceptedSites_nil)
theorem builds_nodes (hts : CheckedTokens ts) (indent : String) :
    (ns : List Node) → MadeOfAll ts ns →
    referencesOf ns ⊆ rs → c.Builds ts rs Accepted (c.nodes indent ns)
  | [], _, _ => by
    rw [nodes]
    exact accepted_nil
  | n :: ns, ⟨hn, hns⟩, hr => by
    obtain ⟨hfirst, hrest⟩ := List.append_subset.1 hr
    rw [nodes]
    refine Ensures.bind (builds_node hts indent n hn hfirst) ?_
    intro first hf
    refine Ensures.bind (builds_nodes hts indent ns hns hrest) ?_
    intro rest hr
    exact hf.append hr
theorem builds_arms (hts : CheckedTokens ts) (indent : String) : (as : List (Arm (List Node))) →
    MadeOfArms ts as → referencesOfArms as ⊆ rs →
    c.Builds ts rs (fun cs => ∀ bound line, AcceptedSites (sitesOfArms bound line cs))
      (c.caseArms indent as)
  | [], _, _ => by
    rw [caseArms]
    exact fun _ _ => acceptedSites_nil
  | ⟨expr, _, body⟩ :: as, ⟨hexpr, hbody, has⟩, hr => by
    obtain ⟨hfirst, hrest⟩ := List.append_subset.1 hr
    rw [caseArms]
    refine Ensures.bind (builds_nodes hts indent body hbody hfirst) ?_
    intro content hcontent
    refine Ensures.bind (builds_arms hts indent as has hrest) ?_
    intro rest hr bound line
    have hboth := (hcontent.coalesce bound).append (hr bound line)
    cases expr with
    | none => exact hboth
    | some e =>
      obtain ⟨span, ht⟩ := hexpr e rfl
      exact .cons (hts _ ht) hboth
theorem builds_guarded (hts : CheckedTokens ts) (indent : String) :
    (bs : List (Branch (List Node))) →
    MadeOfBranches ts bs → referencesOfBranches bs ⊆ rs →
    c.Builds ts rs (fun gs => ∀ bound, AcceptedSites (sitesOfBranches bound gs))
      (c.guarded indent bs)
  | [], _, _ => by
    rw [guarded]
    exact fun _ => acceptedSites_nil
  | ⟨expr, line, body⟩ :: bs, ⟨hexpr, hbody, hbs⟩, hr => by
    obtain ⟨hfirst, hrest⟩ := List.append_subset.1 hr
    rw [guarded]
    refine Ensures.bind (builds_nodes hts indent body hbody hfirst) ?_
    intro content hcontent
    refine Ensures.bind (builds_guarded hts indent bs hbs hrest) ?_
    intro rest hr bound
    exact .cons (accepts_condition hts hexpr) ((hcontent.coalesce bound).append (hr bound))
theorem builds_alternative (hts : CheckedTokens ts) (indent : String) : (o : Option (List Node)) →
    MadeOfOtherwise ts o → referencesOfOtherwise o ⊆ rs → c.Builds ts rs AcceptedOption
      (c.alternative indent o)
  | none, _, _ => by
    rw [alternative]
    exact acceptedOption_none
  | some body, hbody, hr => by
    rw [alternative]
    refine Ensures.bind (builds_nodes hts indent body hbody hr) ?_
    intro content hcontent
    exact hcontent.coalesce
theorem builds_replacements (hts : CheckedTokens ts) (indent : String) {u : Token} (hu : u ∈ ts)
    {reference at_ : String} (hk : u.kind.reference? = some reference) {e : Embedded}
    (he : c.embed reference u.line at_ = .ok e) : (qs : List (Replace (List Node))) →
    MadeOfReplaces ts qs → referencesOfReplaces qs ⊆ rs →
    {done : List (Override (List Instruction))} → (∀ o ∈ done, AcceptedOverride o) →
    c.Builds ts rs (fun os => ∀ o ∈ os, AcceptedOverride o) (c.replacements indent e done qs)
  | [], _, _, done, hd => by
    rw [replacements]
    exact hd
  | ⟨position, block, line, body⟩ :: qs, ⟨⟨span, ht⟩, hbody, hqs⟩, hr, done, hd => by
    obtain ⟨hfirst, hrest⟩ := List.append_subset.1 hr
    rw [replacements]
    split
    · refine Ensures.bind (builds_nodes hts (deeper indent) body hbody hfirst) ?_
      intro content hcontent
      exact builds_replacements hts indent hu hk he qs hqs hrest
        (accepted_addOverride hd position block hcontent.coalesce)
    · next habsent => exact .content ht rfl hu hk he (Bool.eq_false_iff.2 habsent)
end

/-- Apart from the faults of its nodes, a checked document can only declare a block twice. -/
theorem program_eq_error (hts : CheckedTokens ts) {d : Document} (hd : MadeOfAll ts d.nodes)
    {e : Diagnostic} (h : c.program d = .error e) :
    (∃ name line, firstRepeated [] d.blocks = some (name, line) ∧
      e = .onLine (.repeatedBlock name) line) ∨ c.Fault ts d.references e := by
  unfold Compiler.program at h
  split at h
  · next name line hrepeated =>
    obtain rfl := Except.error.inj h
    exact .inl ⟨name, line, hrepeated, rfl⟩
  · have hbuilds : c.Builds ts d.references Accepted (c.nodes c.options.indent d.nodes) :=
      builds_nodes hts c.options.indent d.nodes hd (List.Subset.refl _)
    cases hn : c.nodes c.options.indent d.nodes with
    | error x =>
      rw [hn] at h hbuilds
      obtain rfl := Except.error.inj h
      exact .inr hbuilds
    | ok body =>
      rw [hn] at h hbuilds
      obtain ⟨names, hnames⟩ := exists_freeNames (Accepted.coalesce hbuilds)
      simp only [bind, Except.bind, hnames] at h
      cases h

end Compiler

/-! ## Files -/

section

variable {files : Files} {options : Options} {chain : List String} {sid reference : String}
  {line : Nat}

theorem findModule_eq_ok {m : Referred files chain}
    (h : findModule files options chain sid reference line = .ok m) :
    Reference.resolve reference sid options files = .ok m.target ∧
      inChain chain m.target.filename = false ∧
      ∃ file, files.locate? m.target.filename = some (m.file, file) ∧
        parse file.source (some m.target.filename) = .ok m.document := by
  unfold findModule at h
  split at h
  · cases h
  · next target ht =>
    split at h
    · cases h
    · next hc =>
      split at h
      · cases h
      · next id file hf =>
        split at h
        · cases h
        · next document hp =>
          obtain rfl := Except.ok.inj h
          exact ⟨ht, hc, file, hf, hp⟩

theorem resolve_eq_error {x : Diagnostic}
    (h : Reference.resolve reference sid options files = .error x) :
    x = .plain (.badReference (String.ofList (Text.trim reference.toList))) := by
  unfold Reference.resolve at h
  split at h
  · cases h
  · exact (Except.error.inj h).symm

/-- Why a reference leads to no module: it cannot be read, it leads back into the chain, or there is
no such file. -/
inductive Unusable (files : Files) (options : Options) (chain : List String)
    (sid reference : String) :
    Cause → Prop
  | unreadable {x : Diagnostic} (resolved : Reference.resolve reference sid options files =
      .error x) :
      Unusable files options chain sid reference x.cause
  | circular {m : Resolved} (resolved : Reference.resolve reference sid options files = .ok m)
      (inside : inChain chain m.filename = true) :
      Unusable files options chain sid reference (.cycle (chain ++ [m.filename]))
  | missing {m : Resolved} (resolved : Reference.resolve reference sid options files = .ok m)
      (outside : inChain chain m.filename = false) (absent : files.locate? m.filename = none) :
      Unusable files options chain sid reference
        (.noSuchModule (String.ofList (Text.trim reference.toList)) m.filename)

theorem Unusable.code {cause : Cause} (h : Unusable files options chain sid reference cause) :
    cause.code = .invalidModuleReference ∨ cause.code = .moduleNotFound ∨
      cause.code = .circularInheritance := by
  cases h with
  | unreadable resolved =>
    rw [resolve_eq_error resolved]
    exact .inl rfl
  | circular => exact .inr (.inr rfl)
  | missing => exact .inr (.inl rfl)

theorem findModule_eq_error {e : Diagnostic}
    (h : findModule files options chain sid reference line = .error e) :
    (∃ cause, Unusable files options chain sid reference cause ∧ e = .onLine cause line) ∨
      ∃ m id file x, Reference.resolve reference sid options files = .ok m ∧
        inChain chain m.filename = false ∧ files.locate? m.filename = some (id, file) ∧
        parse file.source (some m.filename) = .error x ∧ e = x.forFile id := by
  unfold findModule at h
  split at h
  · next x hx =>
    obtain rfl := Except.error.inj h
    refine .inl ⟨x.cause, .unreadable hx, ?_⟩
    rw [resolve_eq_error hx]
    rfl
  · next m hm =>
    split at h
    · next hc =>
      obtain rfl := Except.error.inj h
      exact .inl ⟨_, .circular hm hc, rfl⟩
    · next hc =>
      split at h
      · next hf =>
        obtain rfl := Except.error.inj h
        exact .inl ⟨_, .missing hm hc hf, rfl⟩
      · next id file hf =>
        split at h
        · next x hx =>
          obtain rfl := Except.error.inj h
          exact .inr ⟨m, id, file, x, hm, hc, hf, hx, rfl⟩
        · cases h

/-- What is wrong with the blocks of a document: one is declared again, or something is given for
one that the module it is for does not have. -/
inductive BlockFault (files : Files) (transforms : Transforms) (options : Options)
    (chain : List String) (ts : List Token) (d : Document) : Diagnostic → Prop
  | repeated {name : String} {line : Nat}
      (again : firstRepeated [] d.blocks = some (name, line)) :
      BlockFault files transforms options chain ts d (.onLine (.repeatedBlock name) line)
  | missing {t u : Token} {position : Position} {block reference indent : String}
      {m : Referred files chain} {p : Program} (mem : t ∈ ts)
      (kind : t.kind = .replace position block)
      (user : u ∈ ts) (refers : u.kind.reference? = some reference)
      (found : findModule files options chain (scopeId options.filename options.instanceName)
        reference u.line = .ok m)
      (compiled : compile files transforms (options.forModule m.target indent)
        (chain ++ [m.target.filename]) m.document = .ok p)
      (absent : p.blocks.contains block = false) :
      BlockFault files transforms options chain ts d (.onLine (.noSuchBlock block m.target.filename
        (Text.findSimilar block p.blocks)) t.line)

/-- Where the fault of a checked document comes from: its blocks, or a module that it refers to,
which was not found or has a fault itself. -/
theorem compile_eq_error {transforms : Transforms} {d : Document} {ts : List Token}
    (hts : CheckedTokens ts) (hd : MadeOfAll ts d.nodes) {e : Diagnostic}
    (h : compile files transforms options chain d = .error e) :
    ∃ x, e = x.inFile options.filename ∧ (BlockFault files transforms options chain ts d x ∨
      ∃ t ∈ ts, ∃ reference ∈ d.references, t.kind.reference? = some reference ∧
        (findModule files options chain (scopeId options.filename options.instanceName) reference
            t.line = .error x ∨
          ∃ m indent y, findModule files options chain
              (scopeId options.filename options.instanceName) reference t.line = .ok m ∧
            compile files transforms (options.forModule m.target indent)
              (chain ++ [m.target.filename]) m.document = .error y ∧ x = y.forFile m.file)) := by
  rw [compile] at h
  split at h
  · next x hx =>
    obtain rfl := Except.error.inj h
    refine ⟨x, rfl, ?_⟩
    rcases Compiler.program_eq_error hts hd hx with ⟨name, line, hrepeated, rfl⟩ | hfault
    · exact .inl (.repeated hrepeated)
    · cases hfault with
      | content mem kind user refers embedded absent =>
        dsimp only at embedded
        split at embedded
        · cases embedded
        · next m hm =>
          split at embedded
          · cases embedded
          · next p hp =>
            obtain rfl := Except.ok.inj embedded
            exact .inl (.missing mem kind user refers hm hp absent)
      | module mem listed refers failed =>
        refine .inr ⟨_, mem, _, listed, refers, ?_⟩
        dsimp only at failed
        split at failed
        · next y hy =>
          obtain rfl := Except.error.inj failed
          exact .inl hy
        · next m hm =>
          split at failed
          · next y hy =>
            obtain rfl := Except.error.inj failed
            exact .inr ⟨m, _, y, hm, hy, rfl⟩
          · cases failed
  · cases h

end

/-- A fault of a checked document is of its blocks and modules, or it is in another file. -/
theorem compile_fault {files : Files} {transforms : Transforms} {options : Options}
    {chain : List String} {d : Document} (hd : d.Checked) {e : Diagnostic}
    (h : compile files transforms options chain d = .error e) :
    (e.filename = options.filename ∧ compileCodes.contains e.cause.code = true) ∨
      ∃ m, e.filename = some m ∧ inChain chain m = false := by
  obtain ⟨ts, hts, hmade⟩ := hd
  obtain ⟨x, rfl, hblock | ⟨t, -, reference, -, -, hmodule⟩⟩ := compile_eq_error hts hmade h
  · cases hblock with
    | repeated => exact .inl ⟨rfl, rfl⟩
    | missing => exact .inl ⟨rfl, rfl⟩
  · rcases hmodule with hx | ⟨m, indent, y, hm, hy, rfl⟩
    · rcases findModule_eq_error hx with ⟨cause, hc, rfl⟩ | ⟨m, id, file, y, -, hc, -, hy, rfl⟩
      · refine .inl ⟨rfl, ?_⟩
        change compileCodes.contains cause.code = true
        rcases hc.code with hcode | hcode | hcode
        · rw [hcode]; rfl
        · rw [hcode]; rfl
        · rw [hcode]; rfl
      · refine .inr ⟨m.filename, ?_, hc⟩
        rw [Diagnostic.inFile, Diagnostic.forFile, (lexical_of_parse hy).2]
        rfl
    · -- the fault of a module stays in the files outside the chain
      obtain ⟨-, hc, file, -, hp⟩ := findModule_eq_ok hm
      have := m.outside
      have hfile : ∃ f, y.filename = some f ∧ inChain chain f = false := by
        rcases compile_fault (checked_of_parse hp) hy with ⟨hfile, -⟩ | ⟨f, hfile, hf⟩
        · exact ⟨_, hfile, hc⟩
        · rw [inChain_append, Bool.or_eq_false_iff] at hf
          exact ⟨f, hfile, hf.1⟩
      obtain ⟨f, hf, hcf⟩ := hfile
      refine .inr ⟨f, ?_, hcf⟩
      rw [Diagnostic.inFile, Diagnostic.forFile, hf]
      rfl
termination_by files.outside chain

namespace Session

/-- **No syntax error gets past reading.** If a template is accepted, all faults that compilation
finds in it, under the name it is compiled under, are of its blocks and modules. And in the compiled
template, all expressions of all programs in it can be parsed. -/
theorem faults_after_parse (s : Session) (source : String) (options : Options) :
    (∀ name d, parse source name = .ok d → ∀ e, s.compileDocument d options = .error e →
      e.filename = nameOf options d → e.cause.code ∈ compileCodes) ∧
    ∀ t, (s.compileSource source options).1 = .ok t → ∀ p ∈ programsFrom t.program,
      ∀ x ∈ sitesOf [] p.instructions, Expr.accepts x.source = true := by
  constructor
  · intro name d hd e he hfile
    rcases compile_fault (checked_of_parse hd) (compileDocument_eq_error he) with
      ⟨-, hcode⟩ | ⟨m, hm, hc⟩
    · exact List.contains_iff_mem.1 hcode
    · -- the file itself is in the chain
      rw [← hfile, hm] at hc
      simp [inChain, Path.same] at hc
  · intro t ht p hp
    obtain ⟨d, -, hd⟩ := compileLoaded_eq_ok ht
    exact accepted_of_freeNames (bound_compile (compileDocument_eq_ok hd) p hp)

/-- A template that includes a module that is missing, and one whose module turns a condition
around. -/
theorem faults_after_parse_part :
    let part := "unless a.b\n  i(title=\"#{a}!\") #{c[0]}"
    let s : Session := ⟨⟨[⟨"/part.made", "/part.made", part⟩]⟩, []⟩
    let options : Options := { filename := some "/page.made" }
    (∃ d e, parse "include gone" none = .ok d ∧ s.compileDocument d options = .error e ∧
      e.filename = nameOf options d ∧ e.cause.code ∈ compileCodes) ∧
    ∃ t, (s.compileSource "include part" options).1 = .ok t ∧ ∃ p ∈ programsFrom t.program,
      (sitesOf [] p.instructions).map (·.source) = ["!(a.b)", "a", "c[0]"] ∧
      ∀ x ∈ sitesOf [] p.instructions, Expr.accepts x.source = true := by
  intro part s options
  constructor
  · have hfault : (do
        let d ← parse "include gone" none
        return match s.compileDocument d options with
          | .ok _ => false
          | .error e => e.filename == nameOf options d).toOption = some true := by decide +kernel
    obtain ⟨d, hd⟩ := exists_ok (x := parse "include gone" none) (by decide +kernel)
    rw [hd] at hfault
    have hname := Option.some.inj hfault
    split at hname
    · cases hname
    · next e he =>
      have hfile := eq_of_beq hname
      exact ⟨d, e, hd, he, hfile,
        (faults_after_parse s "include gone" options).1 none d hd e he hfile⟩
  · have hsites : (s.compileSource "include part" options).1.toOption.bind (fun t =>
        (programsFrom t.program)[1]?.map fun p => (sitesOf [] p.instructions).map (·.source)) =
          some ["!(a.b)", "a", "c[0]"] := by decide +kernel
    obtain ⟨t, ht, hsites⟩ := Option.bind_eq_some_iff.1 hsites
    replace ht := ok_of_toOption ht
    obtain ⟨p, hp, hsources⟩ := Option.map_eq_some_iff.1 hsites
    have hmem := List.mem_of_getElem? hp
    exact ⟨t, ht, p, hmem, hsources, (faults_after_parse s "include part" options).2 t ht p hmem⟩

end Session

end Stencil
