import Stencil.Proofs.Files
import Stencil.Proofs.Template.Line
import Stencil.Proofs.Template.Parse

/-! # Printing and parsing

The source that is printed for a well-formed document is parsed to that document, up to lines and
spans: its lines give the tokens of its outline, and these give its nodes. -/

namespace Stencil.Template

/-! ## The lines of a document -/

mutual
def Outline.WellFormed : Outline → Prop
  | ⟨line, below⟩ =>
    line.WellFormed ∧ (line.isComment = true → below = []) ∧ WellFormedOutlines below
def WellFormedOutlines : List Outline → Prop
  | [] => True
  | o :: os => o.WellFormed ∧ WellFormedOutlines os
end

theorem wellFormedOutlines_append {os us : List Outline} (ho : WellFormedOutlines os)
    (hu : WellFormedOutlines us) : WellFormedOutlines (os ++ us) := by
  induction os with
  | nil => exact hu
  | cons o os ih => exact ⟨ho.1, ih ho.2⟩

theorem wellFormedOutlines_single {line : Line} {below : List Outline} (hl : line.WellFormed)
    (hc : line.isComment = true → below = []) (hb : WellFormedOutlines below) :
    WellFormedOutlines [⟨line, below⟩] :=
  ⟨⟨hl, hc, hb⟩, trivial⟩

mutual
theorem Node.outlines_wellFormed : (n : Node) → n.WellFormed → WellFormedOutlines n.outlines
  | .doctype _ _, h => wellFormedOutlines_single h nofun trivial
  | .tag _ _ body, h => wellFormedOutlines_single h.1 nofun (outlinesOf_wellFormed body h.2)
  | .text _ _, h => wellFormedOutlines_single h nofun trivial
  | .comment _ _ _, h => wellFormedOutlines_single h (fun _ => rfl) trivial
  | .block _ _ body, h => wellFormedOutlines_single h.1 nofun (outlinesOf_wellFormed body h.2)
  | .extension _ _ _ replaces, h =>
    wellFormedOutlines_single h.1 nofun (outlinesOfReplaces_wellFormed replaces h.2)
  | .inclusion _ _ _, h => wellFormedOutlines_single h nofun trivial
  | .caseOf _ _ arms, h =>
    wellFormedOutlines_single h.1 nofun (outlinesOfArms_wellFormed arms h.2.2.2)
  | .ifElse _ branches otherwise, h =>
    wellFormedOutlines_append (outlinesOfBranches_wellFormed true branches h.2.1)
      (outlinesOfOtherwise_wellFormed otherwise h.2.2)
  | .whileTrue _ _ body, h => wellFormedOutlines_single h.1 nofun (outlinesOf_wellFormed body h.2)
  | .each _ _ _ _ body, h => wellFormedOutlines_single h.1 nofun (outlinesOf_wellFormed body h.2)
theorem outlinesOf_wellFormed : (ns : List Node) → WellFormedAll ns →
    WellFormedOutlines (outlinesOf ns)
  | [], _ => trivial
  | n :: ns, h =>
    wellFormedOutlines_append (n.outlines_wellFormed h.1) (outlinesOf_wellFormed ns h.2)
theorem outlinesOfReplaces_wellFormed : (rs : List (Replace (List Node))) → WellFormedReplaces rs →
    WellFormedOutlines (outlinesOfReplaces rs)
  | [], _ => trivial
  | ⟨_, _, _, body⟩ :: rs, h =>
    ⟨⟨h.1, nofun, outlinesOf_wellFormed body h.2.1⟩, outlinesOfReplaces_wellFormed rs h.2.2⟩
theorem outlinesOfArms_wellFormed : (as : List (Arm (List Node))) → WellFormedArms as →
    WellFormedOutlines (outlinesOfArms as)
  | [], _ => trivial
  | ⟨some _, _, body⟩ :: as, h =>
    ⟨⟨h.1, nofun, outlinesOf_wellFormed body h.2.1⟩, outlinesOfArms_wellFormed as h.2.2⟩
  | ⟨none, _, body⟩ :: as, h =>
    ⟨⟨trivial, nofun, outlinesOf_wellFormed body h.1⟩, outlinesOfArms_wellFormed as h.2⟩
theorem outlinesOfBranches_wellFormed (first : Bool) : (bs : List (Branch (List Node))) →
    WellFormedBranches bs → WellFormedOutlines (outlinesOfBranches first bs)
  | [], _ => trivial
  | ⟨expr, _, body⟩ :: bs, h => by
    refine ⟨⟨?_, ?_, outlinesOf_wellFormed body h.2.1⟩,
      outlinesOfBranches_wellFormed false bs h.2.2⟩
    · cases first <;> exact h.1
    · cases first <;> exact nofun
theorem outlinesOfOtherwise_wellFormed : (o : Option (List Node)) → WellFormedOtherwise o →
    WellFormedOutlines (outlinesOfOtherwise o)
  | none, _ => trivial
  | some body, h => wellFormedOutlines_single trivial nofun (outlinesOf_wellFormed body h)
end

mutual
theorem Outline.leveled_wellFormed : (o : Outline) → o.WellFormed → (level : Nat) →
    ∀ l ∈ o.leveled level, l.2.WellFormed
  | ⟨line, below⟩, h, level => by
    rw [Outline.leveled]
    exact List.forall_mem_cons.2 ⟨h.1, leveledAll_wellFormed below h.2.2 (level + 1)⟩
theorem leveledAll_wellFormed : (os : List Outline) → WellFormedOutlines os → (level : Nat) →
    ∀ l ∈ leveledAll level os, l.2.WellFormed
  | [], _, _ => by
    rw [leveledAll]
    exact List.forall_mem_nil _
  | o :: os, h, level => by
    intro l hl
    rw [leveledAll, List.mem_append] at hl
    rcases hl with hl | hl
    · exact o.leveled_wellFormed h.1 level l hl
    · exact leveledAll_wellFormed os h.2 level l hl
end

theorem Stepwise.rebase {old new level : Nat} {ls : List (Nat × Line)} (h : Stepwise old ls)
    (ha : AtMost level ls) (hl : level ≤ new + 1) : Stepwise new ls := by
  cases ls with
  | nil => exact trivial
  | cons l ls => exact ⟨Nat.le_trans (ha l rfl) hl, h.2⟩

mutual
theorem stepwise_leveled {old level : Nat} {more : List (Nat × Line)} : (o : Outline) →
    o.WellFormed → level ≤ old + 1 → AtMost level more → Stepwise level more →
    Stepwise old (o.leveled level ++ more)
  | ⟨line, below⟩, h, hl, ha, hs => by
    rw [Outline.leveled, List.cons_append]
    refine ⟨hl, fun hc => ?_, ?_⟩
    · rw [h.2.1 hc, leveledAll]
      exact ha
    · have ha' : AtMost (level + 1) more := fun l hl => Nat.le_succ_of_le (ha l hl)
      exact stepwise_leveledAll below h.2.2 (Nat.le_refl _) ha' hs
theorem stepwise_leveledAll {old last level : Nat} {more : List (Nat × Line)} :
    (os : List Outline) → WellFormedOutlines os → level ≤ old + 1 → AtMost level more →
    Stepwise last more → Stepwise old (leveledAll level os ++ more)
  | [], _, hl, ha, hs => by
    rw [leveledAll]
    exact hs.rebase ha hl
  | o :: os, h, hl, ha, hs => by
    rw [leveledAll, List.append_assoc]
    exact stepwise_leveled o h.1 hl (atMost_leveledAll ha)
      (stepwise_leveledAll os h.2 (Nat.le_succ _) ha hs)
end

/-! ## The text of a document -/

theorem isLine_flatMap {α : Type} {f : α → List Char} {l : List α} (h : ∀ a ∈ l, IsLine (f a)) :
    IsLine (l.flatMap f) := by
  intro c hc
  obtain ⟨a, ha, hc⟩ := List.mem_flatMap.1 hc
  exact h a ha c hc

theorem isLine_attr {a : Attribute} (h : WellFormedAttribute a) : IsLine (attrChars a) := by
  obtain ⟨name, value, escaped⟩ := a
  obtain ⟨⟨-, hplain⟩, hvalue⟩ := h
  have hname : IsLine name.toList := by
    refine isLine_of_not_blank fun c hc => ?_
    have hc := hplain c hc
    simp only [isPlainChar, Bool.not_eq_true', Bool.or_eq_false_iff] at hc
    simp [hc]
  have hsign : IsLine (if escaped then ['='] else ['!', '=']) := by
    cases escaped <;> decide
  cases value with
  | boolean => exact hname
  | literal text =>
    have hquoted := (isExpr_quoted text).oneLine
    rw [OneLine, String.toList_ofList] at hquoted
    exact isLine_append (isLine_append hname hsign) hquoted
  | expr e => exact isLine_append (isLine_append hname hsign) hvalue.1.oneLine

theorem isLine_attrs {as : List Attribute} (h : ∀ a ∈ as, WellFormedAttribute a) :
    IsLine (attrsChars as) := by
  induction as with
  | nil => exact isLine_nil
  | cons a as ih =>
    obtain ⟨ha, has⟩ := List.forall_mem_cons.1 h
    rw [attrsChars_cons]
    refine isLine_append (isLine_attr ha) ?_
    cases as with
    | nil => exact isLine_nil
    | cons b as => exact isLine_append (by decide) (ih has)

theorem isLine_parenthesized {as : List Attribute} (h : ∀ a ∈ as, WellFormedAttribute a) :
    IsLine (parenthesized as) :=
  isLine_append (isLine_cons (.inl (by decide)) (isLine_attrs h)) (by decide)

theorem isLine_names {p : Char → Bool} (hp : ∀ c, p c = true → isNameChar c = true)
    {cs : List Char} (h : ∀ c ∈ cs, p c = true) : IsLine cs :=
  isLine_of_not_blank fun c hc => not_blank_of_isNameChar (hp c (h c hc))

theorem isLine_tag {head : TagHead} (h : head.WellFormed) : IsLine (tagChars head) := by
  refine isLine_append (isLine_names (fun _ => id) h.name.1) (isLine_append ?_
    (isLine_append ?_ (isLine_append ?_ ?_)))
  · cases head.selfClosing <;> decide
  · refine isLine_flatMap fun n hn => isLine_cons (.inl (by decide)) ?_
    exact isLine_names (fun _ => isNameChar_of_isClassChar) (h.classes n hn).2
  · split
    · exact isLine_nil
    · exact isLine_parenthesized h.attrs
  · cases ht : head.text with
    | none => exact isLine_nil
    | some t => exact isLine_cons (.inr rfl) (h.text t ht).1

theorem isLine_directive {word text : String} (hw : IsLine word.toList) (ht : OneLine text) :
    IsLine (directiveChars word text) :=
  isLine_append hw (isLine_cons (.inr rfl) ht)

theorem isLine_reference {reference : String} {options : List Attribute} (hr : OneLine reference)
    (ho : ∀ a ∈ options, WellFormedAttribute a) : IsLine (referenceChars reference options) := by
  refine isLine_append ?_ (isLine_cons (.inr rfl) hr)
  split
  · exact isLine_nil
  · exact isLine_parenthesized ho

theorem isLine_blockName {name : String} (h : isBlockName name.toList = true) : OneLine name :=
  isLine_of_not_blank (not_blank_of_isBlockName h)

theorem isLine_variable {name : String} (h : IsVariable name) : IsLine name.toList :=
  isLine_of_not_blank (not_blank_of_isVariable h).2

theorem Line.WellFormed.isLine {l : Line} (h : l.WellFormed) : IsLine l.chars := by
  cases l with
  | tag head => exact isLine_tag h
  | doctype value => exact isLine_directive (by decide) h.2
  | text t => exact isLine_cons (.inl (by decide)) (isLine_cons (.inr rfl) h.1)
  | comment t buffered => exact isLine_comment h.1 buffered
  | block name => exact isLine_directive (by decide) (isLine_blockName h)
  | extension reference options => exact isLine_append (by decide) (isLine_reference h.2.1 h.2.2)
  | inclusion reference options => exact isLine_append (by decide) (isLine_reference h.2.1 h.2.2)
  | replace position name =>
    cases position <;> exact isLine_directive (by decide) (isLine_blockName h)
  | caseOf e => exact isLine_directive (by decide) h.oneLine
  | when e => exact isLine_directive (by decide) h.oneLine
  | default => exact (by decide : IsLine "default".toList)
  | each value key e =>
    obtain ⟨hv, hk, he⟩ := h
    cases key with
    | none =>
      refine isLine_directive (by decide) ?_
      rw [OneLine, String.toList_append, String.toList_append]
      exact isLine_append (isLine_append (isLine_variable hv) (by decide)) he.oneLine
    | some k =>
      refine isLine_directive (by decide) ?_
      simp only [OneLine, String.toList_append]
      exact isLine_append (isLine_append (isLine_append (isLine_append (isLine_variable hv)
        (by decide)) (isLine_variable (hk k rfl))) (by decide)) he.oneLine
  | whileTrue e => exact isLine_directive (by decide) h.oneLine
  | ifTrue e => exact isLine_directive (by decide) h.oneLine
  | elseIf e => exact isLine_directive (by decide) h.oneLine
  | otherwise => exact (by decide : IsLine "else".toList)

theorem not_mem_linesChars {ls : List (Nat × Line)} (h : ∀ l ∈ ls, l.2.WellFormed) :
    '\r' ∉ linesChars ls := by
  induction ls with
  | nil => exact List.not_mem_nil
  | cons l ls ih =>
    obtain ⟨level, line⟩ := l
    obtain ⟨hl, hls⟩ := List.forall_mem_cons.1 h
    rw [linesChars]
    intro hr
    rcases List.mem_append.1 hr with hr | hr
    · exact absurd (List.eq_of_mem_replicate hr) (by decide)
    rcases List.mem_append.1 hr with hr | hr
    · exact (hl.isLine _ hr).2 rfl
    rcases List.mem_cons.1 hr with hr | hr
    · exact absurd hr (by decide)
    · exact ih hls hr

theorem dropByteOrderMark_eq {c : Char} {cs : List Char} (h : c.toNat < 128) :
    Text.dropByteOrderMark (c :: cs) = c :: cs := by
  have hne : c ≠ Text.byteOrderMark := by
    rintro rfl
    exact absurd h (by decide)
  rw [Text.dropByteOrderMark, if_neg (by simpa using hne)]

theorem normalizeChars_linesChars {ls : List (Nat × Line)} (h : ∀ l ∈ ls, l.2.WellFormed) :
    Text.normalizeChars (linesChars ls) = linesChars ls := by
  have hdrop : Text.dropByteOrderMark (linesChars ls) = linesChars ls := by
    cases ls with
    | nil => rfl
    | cons l ls =>
      obtain ⟨level, line⟩ := l
      obtain ⟨x, xs, hx, hstart⟩ := (h _ (List.mem_cons_self ..)).reads.starts
      rw [linesChars, hx]
      cases level with
      | zero => exact dropByteOrderMark_eq (toNat_of_startsLine hstart).2
      | succ n =>
        rw [Nat.mul_succ, List.replicate_succ]
        exact dropByteOrderMark_eq (by decide)
  rw [Text.normalizeChars, hdrop, Text.lineFeeds_eq (not_mem_linesChars h)]

/-! ## The round trip -/

/-- The printed lines give the tokens of the outline. -/
theorem tokenize_print {d : Document} (h : d.WellFormed) :
    ∃ ts, tokenize d.print = .ok ts ∧
      kindsOf ts = kindsAll 0 false (outlinesOf d.nodes) ++ [TokenKind.eos] := by
  have hos : WellFormedOutlines (outlinesOf d.nodes) := outlinesOf_wellFormed d.nodes h
  have hwell := leveledAll_wellFormed (outlinesOf d.nodes) hos 0
  have hs : Stepwise 0 (leveledAll 0 (outlinesOf d.nodes)) := by
    have hnil : Stepwise 0 [] := trivial
    rw [← List.append_nil (leveledAll 0 _)]
    exact stepwise_leveledAll _ hos (Nat.zero_le _) atMost_nil hnil
  obtain ⟨ts, hts, hkinds⟩ := readLines_leveled (c := Cursor.ofText _)
    (fun l hl => (hwell l hl).reads) true hs (.inl rfl) rfl
  refine ⟨ts, ?_, ?_⟩
  · rw [tokenize, Document.print, String.toList_ofList, normalizeChars_linesChars hwell]
    exact hts
  · have hall := leveledKinds_all 0 false atMost_nil (outlinesOf d.nodes)
    rw [List.append_nil] at hall
    exact hkinds.trans hall

theorem parseAll_newline {fin : Token} {ts : List Token} {ks : List TokenKind}
    {wanted : List Node → Prop} (newline : Bool)
    (ht : kindsOf ts = (if newline then [.newline] else []) ++ ks)
    (h : ∀ r, kindsOf r = ks → ∃ ms, parseAll fin r = .ok ms ∧ wanted ms) :
    ∃ ms, parseAll fin ts = .ok ms ∧ wanted ms := by
  cases newline with
  | false => exact h ts ht
  | true =>
    obtain ⟨⟨kind, line, span⟩, r, rfl, rfl, hr⟩ := kindsOf_eq_cons ht
    rw [parseAll]
    exact h r hr

theorem parseAll_node {fin : Token} {ts : List Token} {k : TokenKind} {ks : List TokenKind}
    (hstart : k.startsNode = true) (ht : kindsOf ts = k :: ks) {p : Parsed Node ts.length}
    (hp : parseNode fin ts = .ok p) :
    parseAll fin ts = (parseAll fin p.rest).map (p.value :: ·) := by
  obtain ⟨t, r, rfl, rfl, hr⟩ := kindsOf_eq_cons ht
  rw [parseAll]
  split
  · next hk => rw [hk] at hstart; cases hstart
  · next hk => rw [hk] at hstart; cases hstart
  · rw [hp]

theorem parseAll_outlines (fin : Token) {ns : List Node} (h : WellFormedAll ns) (newline : Bool)
    {ts : List Token} (ht : kindsOf ts = kindsAll 0 newline (outlinesOf ns) ++ [TokenKind.eos]) :
    ∃ ms, parseAll fin ts = .ok ms ∧ unmarkedAll ms = unmarkedAll ns := by
  induction ns generalizing newline ts with
  | nil =>
    obtain ⟨⟨kind, line, span⟩, r, rfl, rfl, -⟩ := kindsOf_eq_cons ht
    rw [parseAll]
    exact ⟨[], rfl, rfl⟩
  | cons n ns ih =>
    obtain ⟨hn, hns⟩ := h
    obtain ⟨k, ks, hk, hstart, -⟩ := hn.kinds_start 0
    rw [outlinesOf, kindsAll_append, kindsAll_newline 0 newline hn.outlines_ne_nil,
      endsFlat_newline newline hn.outlines_ne_nil, List.append_assoc, List.append_assoc] at ht
    refine parseAll_newline newline ht fun r hr => ?_
    obtain ⟨p, hp, hfirst, hrest⟩ :=
      parseNode_outlines fin n hn hr (mayFollow_nodes hns 0 _ rfl [])
    obtain ⟨ms, hms, hmore⟩ := ih hns _ hrest
    rw [hk] at hr
    refine ⟨p.value :: ms, ?_, ?_⟩
    · rw [parseAll_node hstart hr hp, hms]
      rfl
    · rw [unmarkedAll, unmarkedAll, hfirst, hmore]

/-- Printed and parsed again, a well-formed document is the same up to lines and spans. -/
theorem parse_print (d : Document) (h : d.WellFormed) :
    (parse d.print d.filename).map Document.unmarked = .ok d.unmarked := by
  obtain ⟨ts, hts, hkinds⟩ := tokenize_print h
  obtain ⟨ms, hms, heq⟩ := parseAll_outlines (endToken ts) h false hkinds
  rw [parse, hts]
  dsimp only
  rw [parseTokens, hms]
  simp only [Except.map, Document.unmarked, heq]

/-- A list with a loop and a condition in it. -/
theorem parse_print_menu :
    let list : TagHead := ⟨"ul", false, false,
      [⟨"id", .literal "a\"b", true⟩, ⟨"title", .expr "[x, y]", false⟩], ["menu"], none⟩
    let item : TagHead := ⟨"li", false, false, [], [], some "#\x7bitem\x7d"⟩
    let d : Document := ⟨[.tag noMark list [.each noMark "item" (some "i") "items"
      [.ifElse noMark [⟨"i > 0", 0, [.tag noMark item []]⟩]
        (some [.comment noMark " first" false])]]], some "/menu.made"⟩
    d.print = "ul.menu(id=\"a\\\"b\", title!=[x, y])\n  each item, i in items\n    if i > 0\n" ++
        "      li #\x7bitem\x7d\n    else\n      //- first\n" ∧
      (parse d.print (some "/menu.made")).map Document.unmarked = .ok d.unmarked := by
  intro list item d
  have hexpr : ∀ e ∈ ["[x, y]", "items", "i > 0"], IsExpr e := by
    intro e he
    simp only [List.mem_cons, List.not_mem_nil, or_false] at he
    rcases he with rfl | rfl | rfl <;>
      exact ⟨⟨by decide, by decide +kernel⟩, (by decide : IsLine _), by decide +kernel⟩
  have hid : WellFormedAttribute ⟨"id", .literal "a\"b", true⟩ := by
    refine ⟨⟨by decide, by decide⟩, [.literal "a\"b"], by decide +kernel, ?_⟩
    rintro e escape offset (_ | ⟨_, ⟨⟩⟩)
  have htitle : WellFormedAttribute ⟨"title", .expr "[x, y]", false⟩ :=
    ⟨⟨by decide, by decide⟩, hexpr _ (by decide), fun h => absurd h.1 (by decide)⟩
  have hlist : list.WellFormed := by
    refine ⟨⟨by decide, ⟨'u', by decide, rfl⟩, ⟨'l', by decide, rfl⟩, by decide⟩, by decide, rfl,
      ?_, ?_, nofun⟩
    · exact List.forall_mem_singleton.2 ⟨by decide, by decide⟩
    · exact List.forall_mem_cons.2 ⟨hid, List.forall_mem_singleton.2 htitle⟩
  have hitem : item.WellFormed := by
    refine ⟨⟨by decide, ⟨'l', by decide, rfl⟩, ⟨'i', by decide, rfl⟩, by decide⟩, by decide, rfl,
      nofun, nofun, ?_⟩
    rintro t ⟨⟩
    refine ⟨(by decide : IsLine _), by decide +kernel,
      [.interpolation "item" true 2], by decide +kernel, ?_⟩
    rintro e escape offset (_ | ⟨_, ⟨⟩⟩)
    decide +kernel
  refine ⟨by decide +kernel, parse_print d ?_⟩
  have hvalue : IsVariable "item" := ⟨'i', ['t', 'e', 'm'], by decide, by decide, by decide⟩
  have hkey : IsVariable "i" := ⟨'i', [], by decide, by decide, by decide⟩
  refine ⟨⟨hlist, ⟨⟨hvalue, ?_, hexpr _ (by decide)⟩, ?_, trivial⟩, trivial⟩, trivial⟩
  · rintro k ⟨⟩
    exact hkey
  · refine ⟨nofun, ⟨hexpr _ (by decide), ⟨⟨hitem, trivial⟩, trivial⟩, trivial⟩, ?_, trivial⟩
    exact ⟨(by decide : IsLine _), nofun⟩

end Stencil.Template
