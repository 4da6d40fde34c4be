import Stencil.Proofs.Compile.Markup
import Stencil.Proofs.Compile.Placed
import Stencil.Proofs.Render.Escape

/-! # Quotes in attributes

The value of an attribute stands between two quotes. What is computed is escaped, so it brings no
quote of its own; what a template has written there literally is copied as it is, and so is the name
of the instance in front of a literal id. -/

namespace Stencil

open Template

def hasQuote (s : String) : Bool :=
  s.toList.contains '"'

theorem hasQuote_append (s t : String) : hasQuote (s ++ t) = (hasQuote s || hasQuote t) := by
  simp [hasQuote]

theorem hasQuote_encode (s : String) : hasQuote (Html.encode s) = false := by
  rw [hasQuote, List.contains_eq_mem, decide_eq_false_iff_not]
  intro h
  obtain ⟨u, v, huv⟩ := List.append_of_mem h
  obtain ⟨-, -, hquote, -⟩ := Html.inert_encode huv
  exact hquote rfl

theorem hexDigit_ne_quote {n : Nat} (h : n < 16) : Text.hexDigit n ≠ '"' := by
  have hall : ∀ n < 16, Text.hexDigit n ≠ '"' := by decide
  exact hall n h

theorem quote_notMem_hexDigits (width n : Nat) : '"' ∉ Text.hexDigits width n := by
  intro h
  obtain ⟨d, hd, hquote⟩ := Text.mem_hexDigits h
  exact hexDigit_ne_quote hd hquote.symm

theorem hasQuote_scopeId (filename : Option String) (name : String) :
    hasQuote (scopeId filename name) = false := by
  rw [scopeId, hasQuote_append, Text.hexPadded]
  simp [hasQuote, quote_notMem_hexDigits]

/-! ## What is literal -/

def Segment.hasQuote : Segment → Bool
  | .literal s => Stencil.hasQuote s
  | .interpolation _ _ _ => false

def Segment.isEncoded : Segment → Bool
  | .literal _ => true
  | .interpolation _ escape _ => escape

def literalQuote (text : String) : Bool :=
  match segments text with
  | .ok ss => ss.any Segment.hasQuote
  | .error _ => false

def Attribute.isEncoded (a : Attribute) : Bool :=
  a.escaped && match a.value with
    | .literal value => match segments value with
      | .ok ss => ss.all Segment.isEncoded
      | .error _ => true
    | _ => true

def Attribute.hasQuote (instanceName : String) (a : Attribute) : Bool :=
  match a.value with
  | .literal value => (a.name == "id" && Stencil.hasQuote instanceName) || literalQuote value
  | _ => false

def Template.TagHead.classQuote (head : TagHead) : Bool :=
  head.classes.any Stencil.hasQuote ||
    (head.attrs.filter fun a => a.name == "class").any fun a => a.hasQuote ""

/-- What a tag may write for an attribute: nothing, its name, or its name with a value in quotes.
`quote` says whether that value holds a quote. -/
inductive Attribute.Written (quote : Bool) (a : Attribute) : String → Prop where
  | omitted (h : a.name = "class" ∨ ∃ e, a.value = .expr e) : Written quote a ""
  | alone : Written quote a (" " ++ a.name)
  | quoted (v : String) (h : Stencil.hasQuote v = quote) :
      Written quote a (" " ++ a.name ++ "=\"" ++ v ++ "\"")

def Attribute.AllWritten (instanceName : String) (as : List Attribute) (html : String) : Prop :=
  ∃ texts, html = String.join texts ∧
    List.Forall₂ (fun a text => a.Written (a.hasQuote instanceName) text) as texts

namespace Template.TagHead

def ClassesWritten (head : TagHead) (html : String) : Prop :=
  html = "" ∨ ∃ v, html = " class=\"" ++ v ++ "\"" ∧ hasQuote v = head.classQuote

def Opened (head : TagHead) (instanceName lead html : String) : Prop :=
  ∃ attrs classes, html = lead ++ "<" ++ head.name ++ attrs ++ classes ++ ">" ∧
    Attribute.AllWritten instanceName head.attrs attrs ∧ head.ClassesWritten classes

end Template.TagHead

/-! ## What is written -/

def Shown.Writes (P : String → Prop) (a : Shown) : Prop :=
  ∀ page, a = .ok page → P page.html

namespace Shown

variable {P Q R : String → Prop}

theorem writes_text {s : String} (h : P s) : Writes P (text s) := by
  intro page hp
  obtain rfl := Except.ok.inj hp
  exact h

theorem writes_nothing (h : P "") : Writes P nothing :=
  writes_text h

theorem Writes.andThen {a b : Shown} (ha : Writes P a) (hb : Writes Q b)
    (h : ∀ s t, P s → Q t → R (s ++ t)) : Writes R (Shown.andThen a b) := by
  intro page hp
  obtain ⟨p, hpa, hp⟩ := bind_eq_ok.1 hp
  obtain ⟨q, hqb, hp⟩ := bind_eq_ok.1 hp
  obtain rfl := Except.ok.inj hp
  exact h p.html q.html (ha p hpa) (hb q hqb)

theorem writes_bind {α : Type} {x : Except RenderError α} {f : α → Shown}
    (h : ∀ v, Writes P (f v)) : Writes P (x >>= f) := by
  intro page hp
  obtain ⟨v, -, hp⟩ := bind_eq_ok.1 hp
  exact h v page hp

theorem inOrder_around (a b : Shown) (as : List Shown) :
    inOrder (a :: as ++ [b]) = inOrder [a, inOrder as, b] := by
  simp only [List.cons_append, inOrder, inOrder_append, andThen_nothing]

theorem writes_quoted {s t : String} {a : Shown} (ha : Writes P a)
    (h : ∀ v, P v → R (s ++ (v ++ t))) : Writes R (inOrder [text s, a, text t]) := by
  refine (writes_text (P := (· = s)) rfl).andThen (Q := fun x => ∃ v, P v ∧ x = v ++ t) ?_ ?_
  · refine ha.andThen (Q := (· = t)) ?_ ?_
    · rw [inOrder_singleton]
      exact writes_text rfl
    · rintro v _ hv rfl
      exact ⟨v, hv, rfl⟩
  · rintro _ _ rfl ⟨v, hv, rfl⟩
    exact h v hv

end Shown

section

variable {v : Viewer} (hsid : hasQuote v.sid = false) (htransforms : v.transforms = [])
  (g : Setting) (line : Nat)

open Shown

theorem writes_segment {s : Segment} (h : s.isEncoded = true) :
    Writes (hasQuote · = s.hasQuote) (Viewer.segment g line s) := by
  cases s with
  | literal s => exact writes_text rfl
  | interpolation e escape offset =>
    obtain rfl : escape = true := h
    refine writes_bind fun x => ?_
    rw [if_pos rfl]
    exact writes_text (hasQuote_encode _)

theorem writes_segments {ss : List Segment} (h : ss.all Segment.isEncoded = true) :
    Writes (hasQuote · = ss.any Segment.hasQuote) (forEach (Viewer.segment g line) ss) := by
  induction ss with
  | nil => exact writes_nothing rfl
  | cons s ss ih =>
    rw [List.all_cons, Bool.and_eq_true] at h
    refine (writes_segment g line h.1).andThen (ih h.2) ?_
    intro x y hx hy
    rw [hasQuote_append, hx, hy, List.any_cons]

theorem writes_interpolated {a : Attribute} {value : String} (ha : a.isEncoded = true)
    (hv : a.value = .literal value) :
    Writes (hasQuote · = literalQuote value) (Viewer.interpolated g line value) := by
  rw [Attribute.isEncoded, hv, Bool.and_eq_true] at ha
  replace ha := ha.2
  unfold literalQuote Viewer.interpolated
  cases hs : segments value with
  | error e => exact writes_nothing rfl
  | ok ss =>
    simp only [hs] at ha
    exact writes_segments g line ha

theorem transformed_none (name value : String) (target : Target) (h : v.transforms = []) :
    v.transformed name value target = none := by
  unfold Viewer.transformed
  split
  · split
    · rw [h]
      rfl
    · rfl
  · rfl

theorem writes_htmlAttr {a : Attribute} {e : String} (hv : a.value = .expr e) (x : Value) :
    Writes (a.Written false) (text (Html.join (Html.attr a.name x true))) := by
  refine writes_text ?_
  have hvalue : ∀ s, a.Written false
      (Html.join [.markup (" " ++ a.name ++ "=\""), .data (Html.encode s), .markup "\""]) := by
    intro s
    have h := Attribute.Written.quoted (a := a) (Html.encode s) (hasQuote_encode s)
    simpa [Html.join, Html.Piece.text, String.join, String.append_assoc] using h
  unfold Html.attr
  split
  · have h : a.Written false (" " ++ a.name) := .alone
    simpa [Html.join, Html.Piece.text, String.join] using h
  · exact .omitted (.inr ⟨e, hv⟩)
  · exact .omitted (.inr ⟨e, hv⟩)
  · rw [if_pos rfl]
    exact hvalue _

include hsid in
theorem hasQuote_idStart :
    hasQuote v.idStart = hasQuote v.options.instanceName := by
  unfold Viewer.idStart
  rw [hasQuote_append, hasQuote_append, hsid]
  by_cases h : v.options.instanceName = ""
  · simp [h, hasQuote]
  · simp [h, hasQuote]

include hsid htransforms in
theorem writes_attr (tag : String) {a : Attribute} (ha : a.isEncoded = true) :
    Writes (a.Written (a.hasQuote v.options.instanceName)) (v.attr g line tag a) := by
  unfold Viewer.attr
  by_cases hclass : a.name = "class"
  · rw [if_pos hclass]
    exact writes_nothing (.omitted (.inl hclass))
  rw [if_neg hclass]
  unfold Attribute.hasQuote
  cases hv : a.value with
  | boolean => exact writes_text .alone
  | expr e =>
    have hescaped : a.escaped = true := by
      rw [Attribute.isEncoded, Bool.and_eq_true] at ha
      exact ha.1
    simp only [hescaped]
    exact writes_bind (writes_htmlAttr hv)
  | literal value =>
    have hcontent := writes_interpolated g line ha hv
    simp only [transformed_none _ _ _ htransforms]
    by_cases hid : a.name = "id"
    · rw [if_pos hid]
      refine writes_quoted hcontent ?_
      intro s hs
      have h := Attribute.Written.quoted (a := a) (v.idStart ++ s) rfl
      rw [hasQuote_append, hasQuote_idStart hsid, hs] at h
      simpa [hid, String.append_assoc] using h
    · rw [if_neg hid]
      refine writes_quoted hcontent ?_
      intro s hs
      have hname : (a.name == "id") = false := by simpa using hid
      have h := Attribute.Written.quoted (a := a) s rfl
      rw [hs] at h
      simpa [hname, String.append_assoc] using h

include hsid htransforms in
theorem writes_attrs (tag : String) {as : List Attribute} (h : ∀ a ∈ as, a.isEncoded = true) :
    Writes (Attribute.AllWritten v.options.instanceName as) (forEach (v.attr g line tag) as) := by
  induction as with
  | nil => exact writes_nothing ⟨[], rfl, .nil⟩
  | cons a as ih =>
    rw [List.forall_mem_cons] at h
    refine (writes_attr hsid htransforms g line tag h.1).andThen (ih h.2) ?_
    rintro s _ hs ⟨texts, rfl, htexts⟩
    exact ⟨s :: texts, (String.join_cons).symm, .cons hs htexts⟩

/-! ## Classes -/

theorem writes_classValue {a : Attribute} (ha : a.isEncoded = true) (hname : a.name = "class") :
    Writes (hasQuote · = a.hasQuote "") (Viewer.classValue g line a) := by
  unfold Viewer.classValue Attribute.hasQuote
  cases hv : a.value with
  | boolean => exact writes_nothing rfl
  | expr e => exact writes_bind fun x => writes_text (hasQuote_encode _)
  | literal value =>
    have hcontent := writes_interpolated g line ha hv
    simpa [hname] using hcontent

theorem writes_intersperse {items : List (Shown × Bool)}
    (h : ∀ p ∈ items, Writes (hasQuote · = p.2) p.1) :
    Writes (hasQuote · = items.any (·.2)) (inOrder ((items.map (·.1)).intersperse (text " "))) := by
  induction items with
  | nil => exact writes_nothing rfl
  | cons p items ih =>
    rw [List.forall_mem_cons] at h
    cases items with
    | nil =>
      refine h.1.andThen (writes_nothing (P := (· = "")) rfl) ?_
      rintro s _ hs rfl
      simpa [List.any_cons] using hs
    | cons q items =>
      rw [List.map_cons, List.map_cons, List.intersperse_cons_cons, ← List.map_cons]
      have hrest : Writes (hasQuote · = (q :: items).any (·.2)) (Shown.andThen (text " ")
          (inOrder (((q :: items).map (·.1)).intersperse (text " ")))) := by
        refine (writes_text (P := (· = " ")) rfl).andThen (ih h.2) ?_
        rintro _ t rfl ht
        rw [hasQuote_append, ht]
        rfl
      refine h.1.andThen hrest ?_
      intro s t hs ht
      rw [hasQuote_append, hs, ht]
      rfl

include hsid in
theorem writes_classes {head : TagHead} (h : ∀ a ∈ head.attrs, a.isEncoded = true) :
    Writes head.ClassesWritten (v.classes g line head) := by
  unfold Viewer.classes
  dsimp only
  split
  · exact writes_nothing (.inl rfl)
  · let own : List (Shown × Bool) :=
      head.classes.map fun n => (text (v.sid ++ "-" ++ n), hasQuote n)
    let given : List (Shown × Bool) := (head.attrs.filter fun a => a.name == "class").map fun a =>
      (Viewer.classValue g line a, a.hasQuote "")
    have hitems : ∀ p ∈ own ++ given, Writes (hasQuote · = p.2) p.1 := by
      intro p hp
      rcases List.mem_append.1 hp with hp | hp
      · obtain ⟨n, -, rfl⟩ := List.mem_map.1 hp
        refine writes_text ?_
        rw [hasQuote_append, hasQuote_append, hsid]
        rfl
      · obtain ⟨a, ha, rfl⟩ := List.mem_map.1 hp
        obtain ⟨hmem, hname⟩ := List.mem_filter.1 ha
        exact writes_classValue g line (h a hmem) (by simpa using hname)
    have hvalues := writes_intersperse hitems
    have hfst : (own ++ given).map (·.1) =
        head.classes.map (fun n => text (v.sid ++ "-" ++ n)) ++
          (head.attrs.filter fun a => a.name == "class").map (Viewer.classValue g line) := by
      simp [own, given, Function.comp_def]
    have hsnd : (own ++ given).any (·.2) = head.classQuote := by
      simp [own, given, TagHead.classQuote, Function.comp_def]
    rw [hfst, hsnd] at hvalues
    rw [inOrder_around]
    refine writes_quoted hvalues ?_
    intro s hs
    exact .inr ⟨s, by rw [String.append_assoc], hs⟩

include hsid htransforms in
theorem writes_openTag (indent : String) {head : TagHead}
    (h : ∀ a ∈ head.attrs, a.isEncoded = true) :
    Writes (head.Opened v.options.instanceName
        (if head.inline then "" else if v.options.pretty then indent else ""))
      (v.openTag g indent line head) := by
  let lead := if head.inline then "" else if v.options.pretty then indent else ""
  have hlead : (if head.inline then nothing else v.layout indent) = text lead := by
    simp only [lead, Viewer.layout]
    split
    · rfl
    · split <;> rfl
  have hmiddle : Writes (fun html => ∃ attrs classes, html = attrs ++ classes ∧
      Attribute.AllWritten v.options.instanceName head.attrs attrs ∧ head.ClassesWritten classes)
      (Shown.andThen (forEach (v.attr g line head.name) head.attrs) (v.classes g line head)) := by
    refine (writes_attrs hsid htransforms g line head.name h).andThen
      (writes_classes hsid g line h) ?_
    intro attrs classes ha hc
    exact ⟨attrs, classes, rfl, ha, hc⟩
  have hparts : v.openTag g indent line head = inOrder [text (lead ++ ("<" ++ head.name)),
      Shown.andThen (forEach (v.attr g line head.name) head.attrs) (v.classes g line head),
      text ">"] := by
    rw [Viewer.openTag, hlead]
    simp only [inOrder, ← text_andThen_text, Shown.andThen_assoc]
  rw [hparts]
  refine writes_quoted hmiddle ?_
  rintro _ ⟨attrs, classes, rfl, ha, hc⟩
  exact ⟨attrs, classes, by simp only [lead, String.append_assoc], ha, hc⟩

end

/-! ## Templates -/

/-- Whatever is compiled for a tag, it opens the tag on every page that it is written to. -/
theorem Compiler.opened_tag {c : Compiler} (hsid : hasQuote c.sid = false) (ht : c.transforms = [])
    {indent : String} {mark : Mark} {head : TagHead} {body : List Node} {is : List Instruction}
    (h : c.node indent (.tag mark head body) = .ok is)
    (ha : ∀ a ∈ head.attrs, a.isEncoded = true) :
    ∃ start rest lead, is = start ++ rest ∧ ∀ root limit f r,
      runAll root limit f start = .ok r → head.Opened c.options.instanceName lead r.html := by
  rw [node] at h
  obtain ⟨start, hs, h⟩ := bind_eq_ok.1 h
  have hopened : ∀ root limit f r, runAll root limit f start = .ok r →
      head.Opened c.options.instanceName
        (if head.inline then "" else if c.options.pretty then indent else "") r.html := by
    intro root limit f r hr
    have hshown := shown_openTag root limit f c (fun _ _ _ => none) hs
    rw [hr] at hshown
    exact writes_openTag (v := c.viewer limit fun _ _ _ => none) hsid ht f.toSetting mark.line
      indent ha _ hshown.symm
  split at h
  · obtain rfl := Except.ok.inj h
    exact ⟨_, [], _, (List.append_nil _).symm, hopened⟩
  · obtain ⟨text, -, h⟩ := bind_eq_ok.1 h
    obtain ⟨content, -, h⟩ := bind_eq_ok.1 h
    obtain rfl := Except.ok.inj h
    exact ⟨start, _, _, by rw [List.append_assoc, List.append_assoc], hopened⟩

theorem Compiler.program_instanceName {c : Compiler} {d : Document} {p : Program}
    (h : c.program d = .ok p) : p.instanceName = c.options.instanceName := by
  unfold Compiler.program at h
  split at h
  · cases h
  · obtain ⟨body, -, h⟩ := bind_eq_ok.1 h
    obtain ⟨names, -, h⟩ := bind_eq_ok.1 h
    obtain rfl := Except.ok.inj h
    rfl

def ProgramOf.Opens (p : Program) (head : TagHead) : Prop :=
  ∃ content start lead, p.instructions = coalesce content ∧ Within start content ∧
    ∀ root limit f r, runAll root limit f start = .ok r → head.Opened p.instanceName lead r.html

theorem opens_compile {files : Files} {options : Options} {chain : List String} {d : Document}
    {p : Program} (h : compile files [] options chain d = .ok p) {mark : Mark} {head : TagHead}
    {body : List Node} (hn : .tag mark head body ∈ keptOf d.nodes)
    (ha : ∀ a ∈ head.attrs, a.isEncoded = true) : p.Opens head := by
  obtain ⟨embed, hp, -⟩ := compile_eq_ok h
  obtain ⟨content, hb, -, hi, -⟩ := Compiler.program_eq_ok hp
  obtain ⟨indent, is, hnode, hwithin⟩ := Compiler.places_nodes hb hn
  have hsid := hasQuote_scopeId options.filename options.instanceName
  obtain ⟨start, rest, lead, rfl, hopened⟩ := Compiler.opened_tag
    (c := ⟨options, scopeId options.filename options.instanceName, [], embed⟩) hsid rfl hnode ha
  rw [← Compiler.program_instanceName hp] at hopened
  exact ⟨content, start, lead, hi, hwithin.front, hopened⟩

namespace Session

/-- **Quotes in attributes.** In a template compiled without transforms, a tag whose attributes are
all escaped is opened by a part of its program that writes, on every page, each attribute alone or
with a value in quotes. The value holds a quote only where the template has written one literally
into that attribute, or, for an id, where the name of the instance holds one. -/
theorem opens_tags {s : Session} {d : Document} {options : Options} {t : Compiled}
    (h : s.compileDocument d options = .ok t) (hs : s.transforms = []) :
    ∀ q ∈ programsFrom t.program, ∃ e,
      documentOf s.files (nameOf options d) d q.filename = some e ∧
      ∀ mark head body, .tag mark head body ∈ keptOf e.nodes →
        (∀ a ∈ head.attrs, a.isEncoded = true) → q.Opens head := by
  intro q hq
  obtain ⟨o, chain, e, he, hcompile⟩ := compiled_from h hq
  rw [hs] at hcompile
  exact ⟨e, he, fun mark head body hn ha => opens_compile hcompile hn ha⟩

/-- A link in a loop, with a computed address and a title that has a value in it. -/
theorem opens_tags_link :
    let s : Session := ⟨⟨[]⟩, []⟩
    let mark : Mark := ⟨1, ⟨0, 0⟩⟩
    let head : TagHead := ⟨"a", false, false, [⟨"href", .expr "v.url", true⟩,
      ⟨"title", .literal "see #{v.name}", true⟩, ⟨"class", .expr "v.kinds", true⟩], ["link"], none⟩
    let d : Document := ⟨[.each mark "v" none "links" [.tag mark head []]], some "/page.made"⟩
    ∃ t, s.compileDocument d {} = .ok t ∧ t.program.Opens head := by
  intro s mark head d
  have hfile : (s.compileDocument d {}).toOption.map (·.program.filename) =
      some (nameOf {} d) := by decide +kernel
  obtain ⟨t, ht, hfile⟩ := Option.map_eq_some_iff.1 hfile
  replace ht := ok_of_toOption ht
  have hself : t.program ∈ programsFrom t.program := by
    rw [programsFrom]
    exact List.mem_cons_self ..
  obtain ⟨e, he, hopens⟩ := opens_tags ht rfl t.program hself
  rw [documentOf, if_pos hfile] at he
  obtain rfl := Option.some.inj he
  have hkept : Node.tag mark head [] ∈ keptOf d.nodes := by simp [d, keptOf, Node.keptBelow]
  have hencoded : ∀ a ∈ head.attrs, a.isEncoded = true := by decide +kernel
  exact ⟨t, ht, hopens mark head [] hkept hencoded⟩

/-- A title with quotes in it is not kept together by the quotes around it. -/
theorem literal_quote_written :
    ∃ t r, (Session.compileSource ⟨⟨[]⟩, []⟩ "p(title='say \"hi\"')" {}).1 = .ok t ∧
      t.render .null 1 = .ok r ∧ r.html = "<p title=\"say \"hi\"\"></p>" ∧
      ¬ ∃ v, r.html = "<p title=\"" ++ v ++ "\"></p>" ∧ hasQuote v = false := by
  have h : ((Session.compileSource ⟨⟨[]⟩, []⟩ "p(title='say \"hi\"')" {}).1.toOption.bind fun t =>
      (t.render .null 1).toOption.map Rendered.html) = some "<p title=\"say \"hi\"\"></p>" := by
    decide +kernel
  obtain ⟨t, ht, h⟩ := Option.bind_eq_some_iff.1 h
  obtain ⟨r, hr, hhtml⟩ := Option.map_eq_some_iff.1 h
  refine ⟨t, r, ok_of_toOption ht, ok_of_toOption hr, hhtml, ?_⟩
  rintro ⟨v, hv, hquote⟩
  have hsplit : "<p title=\"" ++ "say \"hi\"" ++ "\"></p>" = "<p title=\"" ++ v ++ "\"></p>" :=
    hhtml.symm.trans hv
  obtain rfl := (String.append_right_inj _).1 ((String.append_left_inj _).1 hsplit)
  exact absurd hquote (by decide)

end Session

end Stencil
