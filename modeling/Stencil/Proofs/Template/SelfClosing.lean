import Stencil.Proofs.Template.Line
import Stencil.Proofs.Template.OwnLine
import Stencil.Proofs.Template.Place
import Stencil.Proofs.Template.Tagged

/-! # Tags that close themselves

A slash at the end of a tag's line closes the tag behind its name, behind an id and behind a list of
attributes. Behind a class nothing is left of it. -/

namespace Stencil.Template

/-! ## Lines that end in a slash -/

inductive TagPart where
  | className (name : String)
  | id (name : String)
  | list (inner : List Char)
  deriving DecidableEq, Repr

namespace TagPart

def chars : TagPart → List Char
  | .className name => '.' :: name.toList
  | .id name => '#' :: name.toList
  | .list inner => '(' :: (inner ++ [')'])

def isClass : TagPart → Bool
  | .className _ => true
  | _ => false

def WellFormed : TagPart → Prop
  | .className name => IsClassName name
  | .id name => IsClassName name
  | .list inner => WellNested inner

/-- The token of a part, before a slash closes it. -/
structure ReadAs (part : TagPart) (kind : TokenKind) : Prop where
  detail : kind.isDetail = true
  isClass : kind.className?.isSome = part.isClass
  closes : kind.closesTag = false

end TagPart

/-- From a byte of a text on there is a tag's name, parts, and a slash that ends the line. -/
structure SlashLine (text : List Char) (start : Nat) (name : String)
    (parts : List TagPart) : Prop where
  isTagName : IsTagName name
  wellFormed : ∀ p ∈ parts, p.WellFormed
  chars : ∃ back, Text.dropBytes start text = name.toList ++
    (parts.flatMap TagPart.chars ++ '/' :: back) ∧
    Stops (· != '\n') back

/-! ## Reading them -/

section

variable {indent : Nat} {c d : Cursor}

theorem stops_parts {p : Char → Bool} (h : ∀ c ∈ ['.', '#', '(', '/'], p c = false)
    (parts : List TagPart) (back : List Char) :
    Stops p (parts.flatMap TagPart.chars ++ '/' :: back) := by
  simp only [List.forall_mem_cons] at h
  obtain ⟨hpoint, hhash, hparen, hslash, -⟩ := h
  cases parts with
  | nil => exact stops_cons hslash
  | cons part parts =>
    cases part with
    | className name => exact stops_cons hpoint
    | id name => exact stops_cons hhash
    | list inner => exact stops_cons hparen

theorem readTagParts_end {acc : List Token} (hc : Stops (· != '\n') c.rest) :
    readTagParts indent acc c = .ok (acc, c) := by
  apply readTagParts_last
  unfold readTagPart
  cases hrest : c.rest with
  | nil => rfl
  | cons x cs =>
    have hx : x = '\n' := by simpa using hc x (by rw [hrest]; rfl)
    subst hx
    rfl

theorem rest_readAttrs {inner rest : List Char} {attrs : List Attribute} (hinner : WellNested inner)
    (hc : c.rest = '(' :: (inner ++ ')' :: rest)) (h : readAttrs c = .ok (attrs, d)) :
    d.rest = rest := by
  have hfinds : Finds '(' (inner ++ ')' :: rest) inner none := .closed hinner
  obtain ⟨rest', -, hclose⟩ := closing_of_finds hfinds 1
  have hread : closing 1 '(' c.rest.tail = .ok (inner, rest') := by
    rw [hc]
    exact hclose
  unfold readAttrs at h
  rw [hread] at h
  obtain ⟨_, -, h⟩ := bind_eq_ok.1 h
  cases h
  refine Cursor.rest_advance_append (u := '(' :: (inner ++ [')'])) ?_ (by simp)
  rw [hc, List.cons_append, List.append_assoc]
  rfl

theorem readTagPart_part {acc : List Token} {x : List Token × Bool} {part : TagPart}
    {rest : List Char}
    (hpart : part.WellFormed) (hc : c.rest = part.chars ++ rest) (hrest : Stops isClassChar rest)
    (h : readTagPart indent acc c = .ok (x, d)) :
    ∃ t, x = (t :: acc, true) ∧ part.ReadAs t.kind ∧ d.rest = rest := by
  cases part with
  | className name =>
    have hname : className (name.toList ++ rest) = name.toList := takeWhile_run hpart.2 hrest
    have hc' : c.rest = '.' :: (name.toList ++ rest) := hc
    rw [readTagPart_point hc' (by rw [hname]; exact hpart.1), hname] at h
    cases h
    exact ⟨_, rfl, ⟨rfl, rfl, rfl⟩, Cursor.rest_advance_append hc (Nat.add_comm _ _)⟩
  | id name =>
    have hname : className (name.toList ++ rest) = name.toList := takeWhile_run hpart.2 hrest
    have hc' : c.rest = '#' :: (name.toList ++ rest) := hc
    rw [readTagPart_hash hc', hname, if_neg (by simpa using hpart.1)] at h
    cases h
    exact ⟨_, rfl, ⟨rfl, rfl, rfl⟩, Cursor.rest_advance_append hc (Nat.add_comm _ _)⟩
  | list inner =>
    have hc' : c.rest = '(' :: (inner ++ ')' :: rest) := by
      rw [hc, TagPart.chars, List.cons_append, List.append_assoc]
      rfl
    rw [readTagPart_paren hc'] at h
    obtain ⟨⟨attrs, e⟩, hattrs, h⟩ := bind_eq_ok.1 h
    cases h
    exact ⟨_, rfl, ⟨rfl, rfl, rfl⟩, rest_readAttrs hpart hc' hattrs⟩

/-- The parts of a tag are read one by one, and the slash closes the last one. -/
theorem readTagParts_slash {parts : List TagPart} {back : List Char} {acc ts : List Token}
    (hparts : ∀ p ∈ parts, p.WellFormed) (hback : Stops (· != '\n') back)
    (hc : c.rest = parts.flatMap TagPart.chars ++ '/' :: back)
    (h : readTagParts indent acc c = .ok (ts, d)) :
    ∃ toks, List.Forall₂ (fun p (t : Token) => p.ReadAs t.kind) parts toks ∧
      ts = markSelfClosing (toks.reverse ++ acc) := by
  induction parts generalizing acc c with
  | nil =>
    have hend : (c.advance 1).rest = back := Cursor.rest_advance_append (u := ['/']) hc rfl
    rw [← hend] at hback
    rw [readTagParts_step (readTagPart_slash hc), readTagParts_end hback] at h
    cases h
    exact ⟨[], .nil, rfl⟩
  | cons part parts ih =>
    obtain ⟨hpart, hparts⟩ := List.forall_mem_cons.1 hparts
    rw [List.flatMap_cons, List.append_assoc] at hc
    rw [readTagParts_eq] at h
    obtain ⟨⟨x, e⟩, hx, h⟩ := bind_eq_ok.1 h
    obtain ⟨t, rfl, ht, he⟩ := readTagPart_part hpart hc (stops_parts (by decide) parts back) hx
    obtain ⟨toks, htoks, rfl⟩ := ih hparts he h
    exact ⟨t :: toks, .cons ht htoks, by simp⟩

/-- A slash closes the part in front of it, if that is no class. -/
theorem markSelfClosing_part {part : TagPart} {t : Token} (h : part.ReadAs t.kind)
    (ts : List Token) :
    ∃ u, markSelfClosing (t :: ts) = u :: ts ∧ u.kind.isDetail = true ∧
      u.kind.closesTag = !part.isClass := by
  obtain ⟨kind, line, span⟩ := t
  cases kind with
  | className name => exact ⟨_, rfl, rfl, by rw [← h.isClass]; rfl⟩
  | attrs attrs closing => exact ⟨_, rfl, rfl, by rw [← h.isClass]; rfl⟩
  | _ => cases h.detail

theorem readAs_all {parts : List TagPart} {toks : List Token}
    (h : List.Forall₂ (fun p (t : Token) => p.ReadAs t.kind) parts toks) :
    ∀ t ∈ toks, t.kind.isDetail = true ∧ t.kind.closesTag = false := by
  induction h with
  | nil => exact List.forall_mem_nil _
  | cons ht _ ih => exact List.forall_mem_cons.2 ⟨⟨ht.detail, ht.closes⟩, ih⟩

theorem markSelfClosing_parts {parts : List TagPart} (hne : parts ≠ []) {toks : List Token}
    (h : List.Forall₂ (fun p (t : Token) => p.ReadAs t.kind) parts toks) (tag : Token) :
    ∃ us, (markSelfClosing (toks.reverse ++ [tag])).reverse = tag :: us ∧
      (∀ u ∈ us, u.kind.isDetail = true) ∧
      us.any (·.kind.closesTag) = parts.getLast?.all (!·.isClass) := by
  obtain ⟨ps, p, rfl⟩ : ∃ ps p, parts = ps ++ [p] :=
    ⟨_, _, (List.dropLast_append_getLast hne).symm⟩
  have hreverse := List.forall₂_reverse_iff.2 h
  rw [List.reverse_concat] at hreverse
  cases hrev : toks.reverse with
  | nil =>
    rw [hrev] at hreverse
    cases hreverse
  | cons t ts =>
    rw [hrev] at hreverse
    obtain ⟨ht, hts⟩ := List.forall₂_cons.1 hreverse
    obtain ⟨u, hmark, hdetail, hcloses⟩ := markSelfClosing_part ht (ts ++ [tag])
    have hfront := readAs_all hts
    refine ⟨ts.reverse ++ [u], ?_, ?_, ?_⟩
    · rw [List.cons_append, hmark]
      simp
    · refine List.forall_mem_append.2 ⟨fun v hv => (hfront v (List.mem_reverse.1 hv)).1, ?_⟩
      exact List.forall_mem_singleton.2 hdetail
    · have hnone : ts.any (·.kind.closesTag) = false := by
        rw [List.any_eq_false]
        intro v hv
        rw [(hfront v hv).2]
        decide
      rw [List.any_append, List.any_reverse, hnone, List.any_cons, hcloses]
      simp

/-- Of a line that ends in a slash the tag is closed, or else the last part, if that is no class. -/
theorem readLine_slash {name : String} {parts : List TagPart} {back : List Char} {body : List Token}
    (hname : IsTagName name) (hparts : ∀ p ∈ parts, p.WellFormed) (hback : Stops (· != '\n') back)
    (hc : c.rest = name.toList ++ (parts.flatMap TagPart.chars ++ '/' :: back))
    (h : readLine indent c = .ok (body, d)) :
    ∃ t toks selfClosing, body = t :: toks ∧
      t.kind = .tag name selfClosing (isInlineTag name) ∧ (∀ u ∈ toks, u.kind.isDetail = true) ∧
      (selfClosing || toks.any (·.kind.closesTag)) =
        (isVoidTag name || parts.getLast?.all (!·.isClass)) := by
  have hstop := stops_parts (p := isNameChar) (by decide) parts back
  have hnone : readDirective indent c = none := readDirective_tag hname hc hstop
  obtain ⟨tag, e, hhead, hkind, he⟩ := readTagHead_name hname hc hstop
  rcases readLine_cases h with ⟨kind, hd, -⟩ | ⟨tag', e', ts, -, hhead', hts, rfl⟩
  · rw [hnone] at hd
    cases hd
  rw [hhead] at hhead'
  cases hhead'
  cases parts with
  | nil =>
    -- the slash stands behind the name
    have hend : Stops (· != '\n') e.rest := by
      rw [he]
      exact hback
    rw [readTagParts_end hend] at hts
    cases hts
    exact ⟨tag, [], _, rfl, hkind, List.forall_mem_nil _, Bool.or_false _⟩
  | cons part parts =>
    have hslash : ((List.flatMap TagPart.chars (part :: parts) ++ '/' :: back).head? == some '/') =
        false := by
      cases part <;> rfl
    rw [hslash] at hkind he
    obtain ⟨toks, htoks, rfl⟩ := readTagParts_slash hparts hback he hts
    obtain ⟨us, hus, hdetail, hcloses⟩ := markSelfClosing_parts (List.cons_ne_nil _ _) htoks tag
    refine ⟨tag, us, _, hus, hkind, hdetail, ?_⟩
    rw [hcloses, Bool.or_false]

end

/-! ## Templates -/

theorem isTag_of_isTail {k : TokenKind} (h : k.isTail = true) : k.isTag = false := by
  cases k <;> first | rfl | cases h

theorem isTag_of_layout {k : TokenKind} (h : k.isContent = false) : k.isTag = false := by
  cases k <;> first | rfl | cases h

theorem isDetail_of_layout {k : TokenKind} (h : k.isContent = false) : k.isDetail = false := by
  cases k <;> first | rfl | cases h

theorem Lined.tagged_line {text : List Char} {first : Bool} {ts : List Token}
    (h : Lined text first ts) {m : Mark × TagHead} (hm : m ∈ tagged ts) :
    ∃ indent c d t parts rest, Text.dropBytes c.pos text = c.rest ∧
      readLine indent c = .ok (t :: parts, d) ∧ t.span.start = c.pos ∧
      (∀ u, rest.head? = some u → u.kind.isContent = false) ∧ t.tag? (parts ++ rest) = some m := by
  induction h with
  | ends l =>
    rw [← List.append_nil (endTokens l _),
      tagged_append fun t ht => isTag_of_layout (laidOut_endTokens l _ t ht).kind] at hm
    cases hm
  | @line first l l' before c d lead body more hc hlead hbody hmore ih =>
    rw [tagged_append fun t ht => isTag_of_layout (laidOut_readLevels hlead t ht).kind] at hm
    obtain ⟨t, parts, rfl, hstart, hparts⟩ := readLine_front hbody
    rw [List.cons_append, tagged, List.mem_append, Option.mem_toList,
      tagged_append fun u hu => isTag_of_isTail (hparts u hu)] at hm
    rcases hm with hm | hm
    · refine ⟨_, _, d, t, parts, more, ?_, hbody, hstart, hmore.startsLayout, hm⟩
      exact (hc.toBehind.advance _).dropBytes_pos (Cursor.whole_advance hc.whole _)
    · exact ih hm

theorem span_tag? {t : Token} {ts : List Token} {m : Mark × TagHead} (h : t.tag? ts = some m) :
    t.span = m.1.span := by
  unfold Token.tag? at h
  split at h
  · cases h
    rfl
  · cases h

/-- What a tag is when all that it takes are the parts of its line. -/
theorem take_details (head : TagHead) {parts rest : List Token}
    (hparts : ∀ t ∈ parts, t.kind.isDetail = true)
    (hrest : ∀ t, rest.head? = some t → t.kind.isContent = false) :
    (head.take (parts ++ rest)).1.name = head.name ∧
      (head.take (parts ++ rest)).1.selfClosing =
        (head.selfClosing || parts.any (·.kind.closesTag)) := by
  have hrun : rest.takeWhile (·.kind.isDetail) = [] := by
    cases rest with
    | nil => rfl
    | cons t rest =>
      exact List.takeWhile_cons_of_neg (by rw [isDetail_of_layout (hrest t rfl)]; decide)
  have htake : (parts ++ rest).takeWhile (·.kind.isDetail) = parts := by
    rw [List.takeWhile_append_of_pos (by simpa using hparts), hrun, List.append_nil]
  refine ⟨rfl, ?_⟩
  simp only [TagHead.take, TagHead.gather, htake, List.any_map]
  rfl

/-- **Tags that close themselves.** Each tag in the tokens of a template is one in its document, in
the same place. Where its line ends in a slash, it closes itself if its name is that of a void tag,
or if it is not a class that the slash stands behind. -/
theorem parse_trailing_slash {source : String} {filename : Option String} {d : Document}
    (h : parse source filename = .ok d) :
    (∃ ts, tokenize source = .ok ts ∧
      d.tags.map Prod.fst = (ts.filter (·.kind.isTag)).map fun t => ⟨t.line, t.span⟩) ∧
    ∀ m ∈ d.tags, ∀ name parts,
      SlashLine (Text.normalizeChars source.toList) m.1.span.start name parts →
        m.2.name = name ∧
          m.2.selfClosing = (isVoidTag name || parts.getLast?.all (!·.isClass)) := by
  obtain ⟨ts, hts, htags⟩ := tags_of_parse h
  rw [htags]
  refine ⟨⟨ts, hts, map_mark_tagged ts⟩, ?_⟩
  intro m hm name parts hslash
  obtain ⟨indent, c, e, t, toks, rest, hdrop, hread, hstart, hrest, hmem⟩ :=
    (lined_tokenize hts).tagged_line hm
  obtain ⟨back, hchars, hback⟩ := hslash.chars
  rw [← span_tag? hmem, hstart, hdrop] at hchars
  obtain ⟨t', toks', selfClosing, heq, hkind, hdetail, hcloses⟩ :=
    readLine_slash hslash.isTagName hslash.wellFormed hback hchars hread
  cases heq
  simp only [Token.tag?, hkind, Option.some.injEq] at hmem
  subst hmem
  obtain ⟨hname, hselfClosing⟩ :=
    take_details ⟨name, selfClosing, isInlineTag name, [], [], none⟩ hdetail hrest
  exact ⟨hname, hselfClosing.trans hcloses⟩

/-- A list over two lines that a slash closes, a void tag, and a class that a slash stands
behind. -/
theorem parse_trailing_slash_page :
    let page := "ul\n  li.a#b(c,\nd)/\nbr.e/\nfoo.bar/"
    let text := Text.normalizeChars page.toList
    ∃ d, parse page none = .ok d ∧
      (∃ m ∈ d.tags, SlashLine text m.1.span.start "li"
          [.className "a", .id "b", .list ['c', ',', '\n', 'd']] ∧
        m.2.name = "li" ∧ m.2.selfClosing = true) ∧
      d.tags.map (fun m => (m.1.span.start, m.2.name, m.2.selfClosing)) =
        [(0, "ul", false), (5, "li", true), (19, "br", true), (25, "foo", false)] := by
  intro page text
  have htags : (parse page none).toOption.map
      (fun d => d.tags.map fun m => (m.1.span.start, m.2.name, m.2.selfClosing)) =
        some [(0, "ul", false), (5, "li", true), (19, "br", true), (25, "foo", false)] := by
    decide +kernel
  obtain ⟨d, hd, htags⟩ := Option.map_eq_some_iff.1 htags
  replace hd := ok_of_toOption hd
  have hmem : (5, "li", true) ∈ d.tags.map fun m =>
    (m.1.span.start, m.2.name, m.2.selfClosing) := by
    rw [htags]
    decide
  obtain ⟨m, hm, heq⟩ := List.mem_map.1 hmem
  have hstart : m.1.span.start = 5 := congrArg Prod.fst heq
  have hnested : WellNested ['c', ',', '\n', 'd'] :=
    .char (by decide) (.char (by decide) (.char (by decide) (.char (by decide) .nil)))
  have hslash : SlashLine text m.1.span.start "li"
      [.className "a", .id "b", .list ['c', ',', '\n', 'd']] := by
    rw [hstart]
    refine ⟨⟨by decide, ⟨'l', rfl, by decide⟩, ⟨'i', rfl, by decide⟩, ?_⟩, ?_, ?_⟩
    · simp [directives]
    · simp only [List.forall_mem_cons]
      exact ⟨⟨by decide, by decide⟩, ⟨by decide, by decide⟩, hnested, List.forall_mem_nil _⟩
    · exact ⟨"\nbr.e/\nfoo.bar/".toList, by decide +kernel, stops_cons (by decide)⟩
  obtain ⟨hname, hselfClosing⟩ := (parse_trailing_slash hd).2 m hm _ _ hslash
  exact ⟨d, hd, ⟨m, hm, hslash, hname, hselfClosing⟩, htags⟩

/-- Behind a class a slash does not close a tag. -/
theorem slash_behind_class_lost :
    let source := "foo.bar/"
    SlashLine (Text.normalizeChars source.toList) 0 "foo" [.className "bar"] ∧
      ∃ d, parse source none = .ok d ∧
        d.tags = [(⟨1, ⟨0, 3⟩⟩, ⟨"foo", false, false, [], ["bar"], none⟩)] := by
  intro source
  have htags : (parse source none).toOption.map Document.tags =
      some [(⟨1, ⟨0, 3⟩⟩, ⟨"foo", false, false, [], ["bar"], none⟩)] := by
    decide +kernel
  obtain ⟨d, hd, htags⟩ := Option.map_eq_some_iff.1 htags
  refine ⟨⟨⟨by decide, ⟨'f', rfl, by decide⟩, ⟨'o', rfl, by decide⟩, ?_⟩, ?_, ?_⟩, d,
    ok_of_toOption hd, htags⟩
  · simp [directives]
  · exact List.forall_mem_singleton.2 ⟨by decide, by decide⟩
  · exact ⟨[], by decide +kernel, stops_nil⟩

end Stencil.Template
