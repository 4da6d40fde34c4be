import Stencil.Proofs.Template.Directive

/-! # Lines

Every well-formed line is read as it was meant: its first word leads to the right directive, and
none leads away from a tag. -/

namespace Stencil.Template

/-! ## Tags -/

/-- The text of parts of a tag and the tokens that are read from it, up to the end of the line. -/
def ReadsParts (cs : List Char) (ks : List TokenKind) : Prop :=
  ∀ (indent : Nat) (acc : List Token) (c : Cursor) (rest : List Char), c.rest = cs ++ '\n' :: rest →
    ∃ ts d, readTagParts indent acc c = .ok (ts, d) ∧
      ts.map (·.kind) = ks.reverse ++ acc.map (·.kind) ∧ d.rest = '\n' :: rest

theorem readTagParts_last {indent : Nat} {acc ts : List Token} {c d : Cursor}
    (h : readTagPart indent acc c = .ok ((ts, false), d)) :
    readTagParts indent acc c = .ok (ts, d) := by
  rw [readTagParts]
  split
  · next h' => rw [h] at h'; cases h'
  · next h' =>
    rw [h] at h'
    cases h'
    rfl
  · next h' => rw [h] at h'; cases h'

theorem readTagParts_step {indent : Nat} {acc ts : List Token} {c d : Cursor}
    (h : readTagPart indent acc c = .ok ((ts, true), d)) :
    readTagParts indent acc c = readTagParts indent ts d := by
  rw [readTagParts]
  split
  · next h' => rw [h] at h'; cases h'
  · next h' => rw [h] at h'; cases h'
  · next h' =>
    rw [h] at h'
    cases h'
    rfl

theorem readsParts_nil : ReadsParts [] [] := by
  intro indent acc c rest hc
  refine ⟨acc, c, readTagParts_last ?_, rfl, hc⟩
  unfold readTagPart
  rw [hc]
  rfl

theorem readTagPart_space {indent : Nat} {acc : List Token} {c : Cursor} {cs : List Char}
    (hc : c.rest = ' ' :: cs) : readTagPart indent acc c =
      if Text.allBlank (cs.takeWhile (· != '\n')) then .ok ((acc, false), c.skipLine)
      else do
        checkText (cs.takeWhile (· != '\n')) (c.pos + 1) c.line
        return ((.upTo (.text (String.ofList (cs.takeWhile (· != '\n')))) c.line c.pos c.skipLine ::
          acc, false), c.skipLine) := by
  unfold readTagPart
  rw [hc]
  rfl

theorem readsParts_text {text : String} (ho : OneLine text) (hb : Text.allBlank text.toList = false)
    (hr : Readable text) : ReadsParts (' ' :: text.toList) [.text text] := by
  intro indent acc c rest hc
  have hline : IsLine (' ' :: text.toList) := isLine_cons (.inr rfl) ho
  have hpart : readTagPart indent acc c =
      .ok ((.upTo (.text text) c.line c.pos c.skipLine :: acc, false), c.skipLine) := by
    have htext : (text.toList ++ '\n' :: rest).takeWhile (· != '\n') = text.toList :=
      takeWhile_line (IsLine.not_mem ho)
    have hc' : c.rest = ' ' :: (text.toList ++ '\n' :: rest) := hc
    rw [readTagPart_space hc', htext, if_neg (by rw [hb]; decide), checkText_ok hr,
      String.ofList_toList]
    rfl
  exact ⟨_, _, readTagParts_last hpart, rfl, rest_skipLine_eq hline hc⟩

theorem readsParts_attrs {as : List Attribute} (h : ∀ a ∈ as, WellFormedAttribute a)
    {cs : List Char} {ks : List TokenKind} (hcs : ReadsParts cs ks) :
    ReadsParts (parenthesized as ++ cs) (.attrs as false :: ks) := by
  intro indent acc c rest hc
  rw [List.append_assoc] at hc
  obtain ⟨d, hread, hd⟩ := readAttrs_line h hc
  have hpart : readTagPart indent acc c =
      .ok ((.upTo (.attrs as false) c.line c.pos d :: acc, true), d) := by
    unfold readTagPart
    rw [hc]
    dsimp only [parenthesized, List.cons_append]
    rw [hread]
    rfl
  obtain ⟨ts, e, hparts, hkinds, he⟩ := hcs indent (.upTo (.attrs as false) c.line c.pos d :: acc)
    d rest hd
  refine ⟨ts, e, (readTagParts_step hpart).trans hparts, ?_, he⟩
  rw [hkinds, List.reverse_cons, List.append_assoc]
  rfl

theorem readTagPart_point {indent : Nat} {acc : List Token} {c : Cursor} {cs : List Char}
    (hc : c.rest = '.' :: cs) (h : className cs ≠ []) : readTagPart indent acc c =
      .ok ((.upTo (.className (String.ofList (className cs))) c.line c.pos
        (c.advance (1 + (className cs).length)) :: acc, true),
          c.advance (1 + (className cs).length)) := by
  unfold readTagPart
  rw [hc]
  exact if_pos (by simpa using h)

theorem readsParts_class {name : String} (h : IsClassName name) {cs : List Char}
    {ks : List TokenKind} (hcs : ReadsParts cs ks)
    (hstop : ∀ rest, Stops isClassChar (cs ++ '\n' :: rest)) :
    ReadsParts ('.' :: name.toList ++ cs) (.className name :: ks) := by
  intro indent acc c rest hc
  rw [List.append_assoc] at hc
  have hname : className (name.toList ++ (cs ++ '\n' :: rest)) = name.toList :=
    takeWhile_run h.2 (hstop rest)
  have hd : (c.advance (1 + name.toList.length)).rest = cs ++ '\n' :: rest :=
    Cursor.rest_advance_append (u := '.' :: name.toList) hc (by rw [List.length_cons]; omega)
  have hpart : readTagPart indent acc c =
      .ok ((.upTo (.className name) c.line c.pos (c.advance (1 + name.toList.length)) :: acc, true),
        c.advance (1 + name.toList.length)) := by
    have hc' : c.rest = '.' :: (name.toList ++ (cs ++ '\n' :: rest)) := hc
    rw [readTagPart_point hc' (by rw [hname]; exact h.1), hname, String.ofList_toList]
  obtain ⟨ts, e, hparts, hkinds, he⟩ := hcs indent _ _ rest hd
  refine ⟨ts, e, (readTagParts_step hpart).trans hparts, ?_, he⟩
  rw [hkinds, List.reverse_cons, List.append_assoc]
  rfl

theorem stops_tail {p : Char → Bool} (h : ∀ c ∈ ['.', '(', ' ', '\n'], p c = false)
    (classes : List String) (attrs : List Attribute) (text : Option String) (rest : List Char) :
    Stops p (tailChars classes attrs text ++ '\n' :: rest) := by
  simp only [List.forall_mem_cons] at h
  obtain ⟨hpoint, hparen, hspace, hline, -⟩ := h
  cases classes with
  | cons n ns => exact stops_cons hpoint
  | nil =>
    cases attrs with
    | cons a as => exact stops_cons hparen
    | nil =>
      cases text with
      | some text => exact stops_cons hspace
      | none => exact stops_cons hline

theorem readsParts_tail {classes : List String} {attrs : List Attribute} {text : Option String}
    (hclasses : ∀ n ∈ classes, IsClassName n) (hattrs : ∀ a ∈ attrs, WellFormedAttribute a)
    (htext : ∀ t, text = some t → OneLine t ∧ Text.allBlank t.toList = false ∧ Readable t) :
    ReadsParts (tailChars classes attrs text) (classes.map .className ++
      ((if attrs.isEmpty then [] else [.attrs attrs false]) ++ text.toList.map .text)) := by
  induction classes with
  | cons n ns ih =>
    obtain ⟨hn, hns⟩ := List.forall_mem_cons.1 hclasses
    have hmore := readsParts_class hn (ih hns) fun rest =>
      stops_tail (by decide) ns attrs text rest
    rw [tailChars, List.flatMap_cons, List.append_assoc]
    exact hmore
  | nil =>
    have hlast : ReadsParts (textChars text) (text.toList.map .text) := by
      cases text with
      | some t =>
        obtain ⟨ho, hb, hr⟩ := htext t rfl
        exact readsParts_text ho hb hr
      | none => exact readsParts_nil
    cases attrs with
    | nil => exact hlast
    | cons a as => exact readsParts_attrs hattrs hlast

theorem tagName_line {name : String} (h : IsTagName name) {rest : List Char}
    (hrest : Stops isNameChar rest) : tagName (name.toList ++ rest) = name.toList := by
  obtain ⟨hall, ⟨c, hfirst, hc⟩, ⟨d, hlast, hd⟩, -⟩ := h
  have htake : (name.toList ++ rest).takeWhile isNameChar = name.toList := takeWhile_run hall hrest
  have hdrop : Text.dropTail (fun x => !isWordChar x) name.toList = name.toList := by
    refine Text.dropTail_eq_self fun x hx => ?_
    obtain rfl : d = x := Option.some.inj (hlast.symm.trans hx)
    rw [hd]
    rfl
  cases hn : name.toList with
  | nil => rw [hn] at hfirst; cases hfirst
  | cons x xs =>
    obtain rfl : x = c := by
      rw [hn] at hfirst
      exact Option.some.inj hfirst
    rw [hn] at htake hdrop
    rw [List.cons_append] at htake ⊢
    rw [tagName, if_pos hc, htake, hdrop]

/-- The name of a tag leads to no directive. -/
theorem readDirective_tag {name : String} (h : IsTagName name) {indent : Nat} {c : Cursor}
    {rest : List Char} (hc : c.rest = name.toList ++ rest) (hrest : Stops isNameChar rest) :
    readDirective indent c = none := by
  obtain ⟨hall, ⟨x, hfirst, hx⟩, -, hnot⟩ := h
  obtain ⟨xs, hxs⟩ := List.head?_eq_some_iff.1 hfirst
  have hnone := find?_directives_none name.toList hc hall hrest
    fun d hd hn => hnot d hd (String.toList_inj.1 hn)
  have hword : ∀ y, isWordChar y = false → x ≠ y := by
    rintro y hy rfl
    rw [hx] at hy
    cases hy
  unfold readDirective
  rw [hnone]
  dsimp only
  rw [hc, hxs, List.cons_append]
  split
  · next heq => exact absurd (List.cons.inj heq).1 (hword '/' (by decide))
  · next heq => exact absurd (List.cons.inj heq).1 (hword '|' (by decide))
  · rfl

theorem stops_slash (head : TagHead) (rest : List Char) :
    Stops isNameChar ((if head.selfClosing then ['/'] else []) ++
      (tailChars head.classes head.attrs head.text ++ '\n' :: rest)) := by
  cases head.selfClosing with
  | true => exact stops_cons (by decide)
  | false => exact stops_tail (by decide) _ _ _ rest

theorem readTagHead_name {name : String} (h : IsTagName name) {c : Cursor} {rest : List Char}
    (hc : c.rest = name.toList ++ rest) (hrest : Stops isNameChar rest) :
    ∃ t d, readTagHead c = some (t, d) ∧
      t.kind = .tag name (isVoidTag name || rest.head? == some '/') (isInlineTag name) ∧
      d.rest = if rest.head? == some '/' then rest.tail else rest := by
  have hname : tagName c.rest = name.toList := by
    rw [hc]
    exact tagName_line h hrest
  have hd := Cursor.rest_advance_append hc rfl
  obtain ⟨-, ⟨x, hx, -⟩, -⟩ := h
  obtain ⟨xs, hn⟩ := List.head?_eq_some_iff.1 hx
  unfold readTagHead
  rw [hname, hn]
  dsimp only
  rw [← hn, hd, String.ofList_toList]
  refine ⟨_, _, rfl, rfl, ?_⟩
  split
  · rw [Cursor.rest_advance, hd, List.drop_one]
  · exact hd

theorem readTagHead_line {head : TagHead} (h : head.WellFormed) {c : Cursor} {rest : List Char}
    (hc : c.rest = tagChars head ++ '\n' :: rest) :
    ∃ t d, readTagHead c = some (t, d) ∧
      t.kind = .tag head.name head.selfClosing head.inline ∧
      d.rest = tailChars head.classes head.attrs head.text ++ '\n' :: rest := by
  obtain ⟨name, selfClosing, inline, attrs, classes, text⟩ := head
  rw [tagChars, List.append_assoc, List.append_assoc] at hc
  have htail := stops_tail (p := (· == '/')) (by decide) classes attrs text rest
  obtain ⟨t, d, hread, hkind, hd⟩ := readTagHead_name h.name hc
    (stops_slash ⟨name, selfClosing, inline, attrs, classes, text⟩ rest)
  have hslash : (((if selfClosing then ['/'] else []) ++
      (tailChars classes attrs text ++ '\n' :: rest)).head? == some '/') = selfClosing := by
    cases selfClosing with
    | true => rfl
    | false =>
      cases hfirst : (tailChars classes attrs text ++ '\n' :: rest).head? with
      | none => simp [hfirst]
      | some x =>
        have hx := htail x hfirst
        simpa [hfirst] using hx
  have hvoid : (isVoidTag name || selfClosing) = selfClosing := by
    have himp := h.selfClosing
    dsimp only at himp
    cases hv : isVoidTag name with
    | false => rfl
    | true => rw [himp hv]; rfl
  have hinline : inline = isInlineTag name := h.inline
  dsimp only at hkind hd
  rw [hslash] at hkind hd
  rw [hvoid, ← hinline] at hkind
  refine ⟨t, d, hread, hkind, hd.trans ?_⟩
  cases selfClosing with
  | true => rfl
  | false => rfl

theorem reads_tag {head : TagHead} (h : head.WellFormed) : (Line.tag head).Reads := by
  obtain ⟨-, ⟨x, hfirst, hx⟩, -, -⟩ := h.name
  obtain ⟨xs, hxs⟩ := List.head?_eq_some_iff.1 hfirst
  have hstart : tagChars head = x :: (xs ++ ((if head.selfClosing then ['/'] else []) ++
      tailChars head.classes head.attrs head.text)) := by
    rw [tagChars, hxs]
    rfl
  refine ⟨⟨x, _, hstart, by simp [startsLine, hx]⟩, fun indent c rest hc _ => ?_⟩
  replace hc : c.rest = tagChars head ++ '\n' :: rest := hc
  obtain ⟨t, d, hread, hkind, hd⟩ := readTagHead_line h hc
  obtain ⟨ts, e, hparts, hkinds, he⟩ :=
    readsParts_tail h.classes h.attrs h.text indent [t] d rest hd
  have hdirective : readDirective indent c = none := by
    rw [tagChars, List.append_assoc, List.append_assoc] at hc
    exact readDirective_tag h.name hc (stops_slash head rest)
  refine ⟨ts.reverse, e, ?_, ?_, he⟩
  · rw [readLine, hdirective]
    dsimp only
    rw [hread]
    dsimp only
    rw [hparts]
    rfl
  · rw [List.map_reverse, hkinds, List.map_singleton, hkind]
    simp [Line.kinds]

theorem Line.WellFormed.reads {l : Line} (h : l.WellFormed) : l.Reads := by
  cases l with
  | tag head => exact reads_tag h
  | doctype value => exact reads_doctype h.1 h.2
  | text t => exact reads_text h.1 h.2
  | comment t buffered => exact reads_comment h.1 h.2
  | block name => exact reads_block h
  | extension reference options =>
    exact reads_module h.1 h.2.1 h.2.2 rfl rfl (by simp [directives])
  | inclusion reference options =>
    exact reads_module h.1 h.2.1 h.2.2 rfl rfl (by simp [directives])
  | replace position name => exact reads_replace position h
  | caseOf e => exact reads_expr h rfl rfl (by simp [directives])
  | when e => exact reads_expr h rfl rfl (by simp [directives])
  | default => exact reads_default
  | each value key e => exact reads_each h.1 h.2.1 h.2.2
  | whileTrue e => exact reads_expr h rfl rfl (by simp [directives])
  | ifTrue e => exact reads_expr h rfl rfl (by simp [directives])
  | elseIf e => exact reads_elseIf h
  | otherwise => exact reads_otherwise

end Stencil.Template
