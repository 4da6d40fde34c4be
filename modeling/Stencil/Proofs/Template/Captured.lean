import Stencil.Proofs.Template.Below
import Stencil.Proofs.Template.OwnLine
import Stencil.Proofs.Template.SelfClosing

/-! # Lines that are captured

A tag whose line ends in a point has the deeper lines below as its text, and a comment has them
behind its own line. What comes next is read from the end of the last of these lines. -/

namespace Stencil

/-! ## Places -/

namespace Cursor

variable {text before : List Char} {c d : Cursor}

/-- The cursor stands behind `before` and reads all that is left of the text. -/
structure IsAt (text before : List Char) (c : Cursor) : Prop extends c.Behind text before where
  whole : before ++ c.rest = text

theorem StartsLine.isAt (h : c.StartsLine text before) : c.IsAt text before :=
  ⟨h.toBehind, h.whole⟩

theorem IsAt.advance (h : c.IsAt text before) (n : Nat) :
    (c.advance n).IsAt text (before ++ c.rest.take n) :=
  ⟨h.toBehind.advance n, whole_advance h.whole n⟩

theorem IsAt.reaches (h : c.IsAt text before) (hr : c.Reaches d) : ∃ b, d.IsAt text b := by
  obtain ⟨n, rfl⟩ := hr
  exact ⟨_, h.advance n⟩

theorem IsAt.front (h : c.IsAt text before) {u v : List Char} (hc : c.rest = u ++ v) :
    (c.advance u.length).IsAt text (before ++ u) := by
  have hadvance := h.advance u.length
  rwa [hc, List.take_left] at hadvance

/-- Where the cursor is says what is behind it and what it reads. -/
theorem IsAt.eq_of_pos (h : c.IsAt text before) {u v : List Char} (huv : u ++ v = text)
    (hpos : c.pos = Text.width u) : before = u ∧ c.rest = v := by
  have hbefore := takeBytes_width before c.rest
  rw [h.whole, ← h.pos, hpos, ← huv, takeBytes_width] at hbefore
  subst hbefore
  exact ⟨rfl, List.append_cancel_left (h.whole.trans huv.symm)⟩

theorem StartsLine.indentWidth_lineAround (h : c.StartsLine text before) :
    indentWidth (lineAround text c.skipIndent.pos) = indentWidth c.rest := by
  have hstop : Stops Text.isIndent c.skipIndent.lineText := by
    intro x hx
    rw [lineText, c.rest_skipIndent] at hx
    apply stops_dropWhile Text.isIndent c.rest x
    rw [List.head?_takeWhile] at hx
    exact (Option.filter_eq_some_iff.1 hx).1
  rw [h.lineAround_skipIndent, indentWidth,
    takeWhile_run (fun x hx => List.mem_takeWhile_imp hx) hstop,
    indentWidth]

end Cursor

namespace Template

/-! ## Behind a line -/

/-- How reading goes on behind a line, with the levels that are open there: with what ends the
template, or with the line below. -/
inductive Resumes (l : Levels) (e : Cursor) : List Token → Prop where
  | ends : e.rest = [] → Resumes l e (endTokens l e)
  | line {cs : List Char} {more : List Token} : e.rest = '\n' :: cs →
    readLines l false (e.advance 1) = .ok more → Resumes l e more

theorem Resumes.startsLayout {l : Levels} {text before : List Char} {e : Cursor} {more : List Token}
    (h : Resumes l e more) (he : e.IsAt text before) :
    ∀ t, more.head? = some t → t.kind.isContent = false := by
  cases h with
  | ends _ =>
    intro t ht
    exact (laidOut_endTokens l e t (List.mem_of_head? ht)).kind
  | line hc hr => exact (lined_readLines (startsLine_break he.toBehind he.whole hc) hr).startsLayout

theorem top_readLevels {l l' : Levels} {first : Bool} {c : Cursor} {lead : List Token}
    (h : readLevels l first c = .ok (lead, l')) : l'.top = indentWidth c.rest := by
  unfold readLevels at h
  obtain ⟨char, -, h⟩ := bind_eq_ok.1 h
  dsimp only at h
  split at h
  · cases h
    rfl
  · split at h
    · split at h
      · cases h
      · next heq =>
        cases h
        simpa [Levels.top] using heq
    · next hle hge =>
      cases h
      change l.top = _
      omega

theorem split_at_token {front back us vs : List Token} {t : Token}
    (h : front ++ t :: back = us ++ vs) :
    (∃ w, us = front ++ t :: w ∧ back = w ++ vs) ∨ ∃ w, front = us ++ w ∧ vs = w ++ t :: back := by
  rcases List.append_eq_append_iff.1 h with ⟨w, rfl, hw⟩ | ⟨w, rfl, hw⟩
  · cases w with
    | nil => exact .inr ⟨[], by simp, by simpa using hw.symm⟩
    | cons u w =>
      obtain ⟨rfl, rfl⟩ := List.cons.inj hw
      exact .inl ⟨w, rfl, rfl⟩
  · exact .inr ⟨w, rfl, hw⟩

/-- A token `t` is read from the line at the cursor `d`, which ends at `e`, with `post` behind it
there, and `more` behind the line. -/
structure OnLine (text : List Char) (t : Token) (back : List Token) (d e : Cursor)
    (post more : List Token) : Prop where
  starts : ∃ before, d.StartsLine text before
  read : ∃ pre, readLine (indentWidth d.rest) d.skipIndent = .ok (pre ++ t :: post, e)
  resumes : ∃ l, l.top = indentWidth d.rest ∧ Resumes l e more
  back : back = post ++ more

theorem onLine_of_split {text before : List Char} {l l' : Levels} {first : Bool} {d e : Cursor}
    {lead body more front back : List Token} {t : Token} (hd : d.StartsLine text before)
    (hlead : readLevels l first d = .ok (lead, l'))
    (hbody : readLine (indentWidth d.rest) d.skipIndent = .ok (body, e)) (hmore : Resumes l' e more)
    (h : front ++ t :: back = lead ++ (body ++ more)) (ht : t.kind.isContent = true) :
    (∃ post, OnLine text t back d e post more) ∨ ∃ w, more = w ++ t :: back := by
  rcases split_at_token h with ⟨w, hw, -⟩ | ⟨w, -, hw⟩
  · have hmem : t ∈ lead := by
      rw [hw]
      simp
    rw [(laidOut_readLevels hlead t hmem).kind] at ht
    cases ht
  · rcases split_at_token hw.symm with ⟨post, rfl, hback⟩ | ⟨v, -, hv⟩
    · exact .inl ⟨post, ⟨before, hd⟩, ⟨w, hbody⟩, ⟨l', top_readLevels hlead, hmore⟩, hback⟩
    · exact .inr ⟨v, hv⟩

/-- A token that is not for the structure is read from a line. -/
theorem onLine_of_readLines {text before : List Char} {l : Levels} {first : Bool} {c : Cursor}
    {ts front back : List Token} {t : Token} (hc : c.StartsLine text before)
    (hr : readLines l first c = .ok ts) (hts : ts = front ++ t :: back)
    (ht : t.kind.isContent = true) : ∃ d e post more, OnLine text t back d e post more := by
  have hends : ∀ (l : Levels) (e : Cursor), t ∉ endTokens l e := by
    intro l e hmem
    rw [(laidOut_endTokens l e t hmem).kind] at ht
    cases ht
  -- along the lines: the token is on the line that is read, or behind it
  fun_induction readLines l first c generalizing before ts front with
  | case1 l first c d =>
    cases hr
    exact absurd (by simp [hts]) (hends l d)
  | case2 => cases hr
  | case3 => cases hr
  | case4 l first c d hd lead l' hl body e hb =>
    rename_i he
    cases hr
    obtain ⟨b, hd⟩ := (startsLine_skipBlankLines hc).2 (by simpa using hd)
    rw [List.append_assoc] at hts
    rcases onLine_of_split hd hl hb (.ends he) hts.symm ht with ⟨post, h⟩ | ⟨w, hw⟩
    · exact ⟨d, e, post, _, h⟩
    · exact absurd (by simp [hw]) (hends l' e)
  | case5 l first c d hd lead l' hl body e hb =>
    rename_i he _ ih
    obtain ⟨more, hmore, rfl⟩ := map_eq_ok.1 hr
    obtain ⟨b, hd⟩ := (startsLine_skipBlankLines hc).2 (by simpa using hd)
    rw [List.append_assoc] at hts
    rcases onLine_of_split hd hl hb (.line he hmore) hts.symm ht with ⟨post, h⟩ | ⟨w, hw⟩
    · exact ⟨d, e, post, more, h⟩
    · obtain ⟨n, rfl⟩ := readLine_reaches hb
      have hbreak := startsLine_break ((hd.toBehind.advance _).advance n)
        (Cursor.whole_advance (Cursor.whole_advance hd.whole _) n) he
      exact ih hbreak hmore hw
  | case6 => cases hr

section

variable {text : List Char} {t : Token} {back post more : List Token} {d e : Cursor}

/-- A token that does not stand behind a tag is the first one of its line. -/
theorem OnLine.first (h : OnLine text t back d e post more) (ht : t.kind.isTail = false) :
    readLine (indentWidth d.rest) d.skipIndent = .ok (t :: post, e) := by
  obtain ⟨pre, hread⟩ := h.read
  obtain ⟨u, parts, hbody, -, htail⟩ := readLine_front hread
  cases pre with
  | nil => exact hread
  | cons v pre =>
    obtain ⟨-, hparts⟩ := List.cons.inj hbody
    have hmem : t ∈ parts := by
      rw [← hparts]
      simp
    rw [htail t hmem] at ht
    cases ht

theorem OnLine.isAt (h : OnLine text t back d e post more) :
    (∃ before, d.skipIndent.IsAt text before) ∧ ∃ before, e.IsAt text before := by
  obtain ⟨before, hd⟩ := h.starts
  obtain ⟨pre, hread⟩ := h.read
  have hskip := hd.isAt.advance (d.rest.takeWhile Text.isIndent).length
  exact ⟨⟨_, hskip⟩, hskip.reaches (readLine_reaches hread)⟩

theorem OnLine.startsLayout (h : OnLine text t back d e post more) :
    ∀ u, more.head? = some u → u.kind.isContent = false := by
  obtain ⟨l, -, hresumes⟩ := h.resumes
  obtain ⟨before, he⟩ := h.isAt.2
  exact hresumes.startsLayout he

end

/-! ## Directives -/

def TokenKind.isDirective : TokenKind → Bool
  | .tag _ _ _ => false
  | .className _ => false
  | .attrs _ _ => false
  | .text _ => false
  | .comment _ _ => false
  | k => k.isContent

theorem isTag_of_isDirective {k : TokenKind} (h : k.isDirective = true) : k.isTag = false := by
  cases k <;> first | rfl | cases h

section

variable {indent : Nat} {c d : Cursor} {k : TokenKind}

theorem isDirective_readMap {α : Type} {r : Result (α × Cursor)} {f : α → TokenKind}
    (hf : ∀ a, (f a).isDirective = true) (h : readMap f r = .ok (k, d)) : k.isDirective = true := by
  unfold readMap at h
  split at h
  · cases h
  · cases h
    exact hf _

theorem isDirective_readReplace {p : Position} (h : readReplace p c = .ok (k, d)) :
    k.isDirective = true :=
  isDirective_readMap (fun _ => rfl) h

theorem isDirective_readReplaceLine (h : readReplaceLine c = .ok (k, d)) :
    k.isDirective = true := by
  simp only [readReplaceLine] at h
  split at h
  · exact isDirective_readReplace h
  · exact isDirective_readReplace h

theorem isDirective_readBlockLine (h : readBlockLine c = .ok (k, d)) : k.isDirective = true := by
  simp only [readBlockLine] at h
  split at h
  · exact isDirective_readReplace h
  · exact isDirective_readMap (fun _ => rfl) h

theorem isDirective_readElse (h : readElse c = .ok (k, d)) : k.isDirective = true := by
  simp only [readElse] at h
  split at h
  · exact isDirective_readMap (fun _ => rfl) h
  · exact isDirective_readMap (fun _ => rfl) h

theorem isDirective_readEach {word : String} (h : readEach word c = .ok (k, d)) :
    k.isDirective = true := by
  simp only [readEach] at h
  split at h
  · cases h
  · obtain ⟨_, -, h⟩ := bind_eq_ok.1 h
    cases h
    rfl

theorem directives_isDirective : ∀ x ∈ directives, x.2 c = .ok (k, d) → k.isDirective = true := by
  have doctype : readDoctype c = .ok (k, d) → k.isDirective = true := by
    intro h
    cases h
    rfl
  simp only [directives, List.mem_cons, List.not_mem_nil, or_false, forall_eq_or_imp, forall_eq]
  exact ⟨doctype, isDirective_readMap fun _ => rfl, isDirective_readMap fun _ => rfl,
    isDirective_readMap fun _ => rfl, isDirective_readMap fun _ => rfl,
    isDirective_readMap fun _ => rfl,
    isDirective_readMap fun _ => rfl, isDirective_readReplaceLine, isDirective_readReplace,
    isDirective_readReplace, isDirective_readBlockLine, isDirective_readMap fun _ => rfl,
    isDirective_readMap fun _ => rfl, isDirective_readMap fun _ => rfl, isDirective_readElse,
    isDirective_readMap fun _ => rfl, isDirective_readEach, isDirective_readEach⟩

theorem readDirective_kinds (h : readDirective indent c = some (.ok (k, d))) :
    k.isDirective = true ∨ (∃ s, k = .text s) ∨
      (∃ cs, c.rest = '/' :: '/' :: cs) ∧ readComment indent c = (k, d) := by
  unfold readDirective at h
  split at h
  · next x hx =>
    exact .inl (directives_isDirective x (List.mem_of_find?_eq_some hx) (Option.some.inj h))
  · split at h
    · next cs hc => exact .inr (.inr ⟨⟨cs, hc⟩, Except.ok.inj (Option.some.inj h)⟩)
    · refine .inr (.inl ?_)
      replace h := Option.some.inj h
      simp only [readTextLine] at h
      obtain ⟨_, -, h⟩ := bind_eq_ok.1 h
      cases h
      exact ⟨_, rfl⟩
    · cases h

end

/-! ## The line of a tag -/

section

variable {indent : Nat} {c d : Cursor} {acc ts : List Token}

theorem spans_markSelfClosing (acc : List Token) :
    (markSelfClosing acc).map (·.span) = acc.map (·.span) := by
  cases acc with
  | nil => rfl
  | cons t acc =>
    rw [markSelfClosing]
    split <;> rfl

theorem length_markSelfClosing (acc : List Token) : (markSelfClosing acc).length = acc.length := by
  simpa using congrArg List.length (spans_markSelfClosing acc)

theorem PartRead.spans {more : Bool} (h : PartRead acc d ts more) :
    acc.map (·.span) <:+ ts.map (·.span) := by
  cases h with
  | nothing => exact List.suffix_refl _
  | text _ => exact List.suffix_cons _ _
  | part _ _ => exact List.suffix_cons _ _
  | slash => rw [spans_markSelfClosing]

theorem spans_readTagParts (h : readTagParts indent acc c = .ok (ts, d)) :
    acc.map (·.span) <:+ ts.map (·.span) := by
  fun_induction readTagParts indent acc c with
  | case1 => cases h
  | case2 acc c us e hp =>
    cases h
    exact (partRead_readTagPart hp).spans
  | case3 acc c us e hp _ ih => exact (partRead_readTagPart hp).spans.trans (ih h)

/-- Among the tokens of a tag, directly behind the one that `front` stands in front of, the rest of
the line was left to read. -/
theorem behind_tagPart {front back : List Token} {t : Token}
    (h : readTagParts indent acc c = .ok (ts, d)) (hts : ts = back ++ t :: front)
    (ht : t.kind.isTagPart = true) (hlen : acc.length ≤ front.length + 1)
    (hstop : acc.length = front.length + 1 → ∀ u, acc.head? = some u → u.span.stop = c.pos) :
    ∃ us e, c.Reaches e ∧ e.pos = t.span.stop ∧ us.length = front.length + 1 ∧
      readTagParts indent us e = .ok (ts, d) := by
  -- the tokens that were read grow up to `t` and its front; a slash reads on with as many
  induction hn : c.rest.length using Nat.strong_induction_on generalizing acc c with
  | _ n ih =>
  by_cases heq : acc.length = front.length + 1
  · obtain ⟨u, us, rfl⟩ := List.exists_cons_of_length_eq_add_one heq
    have hsuffix : (t :: front).map (·.span) <:+ ts.map (·.span) := by
      rw [hts, List.map_append]
      exact List.suffix_append _ _
    have hsame : (u :: us).map (·.span) = (t :: front).map (·.span) := by
      have hle : ((u :: us).map (·.span)).length = ((t :: front).map (·.span)).length := by
        simpa using heq
      exact (List.suffix_of_suffix_length_le (spans_readTagParts h) hsuffix hle.le).eq_of_length hle
    have hspan : u.span = t.span := (List.cons.inj hsame).1
    refine ⟨u :: us, c, .refl c, ?_, heq, h⟩
    rw [← hstop heq u rfl, hspan]
  · have hlength : ts.length = back.length + (front.length + 1) := by simp [hts]
    rw [readTagParts_eq] at h
    obtain ⟨⟨⟨us, more⟩, e⟩, hpart, h⟩ := bind_eq_ok.1 h
    cases partRead_readTagPart hpart with
    | nothing =>
      change Except.ok (acc, e) = Except.ok (ts, d) at h
      cases h
      omega
    | @text u s hu =>
      change Except.ok (u :: acc, e) = Except.ok (ts, d) at h
      cases h
      -- the text would be the token
      obtain rfl : back = [] := by
        rw [List.length_cons] at hlength
        apply List.eq_nil_of_length_eq_zero
        omega
      obtain ⟨rfl, -⟩ := List.cons.inj hts
      rw [hu] at ht
      cases ht
    | @part u _ hu =>
      have hlen' : (u :: acc).length ≤ front.length + 1 := by
        rw [List.length_cons]
        omega
      obtain ⟨vs, f, hf, hrest⟩ := ih _ (hn ▸ readTagPart_rest hpart) h hlen' (by simp [hu]) rfl
      exact ⟨vs, f, (readTagPart_reaches hpart).trans hf, hrest⟩
    | slash =>
      have hlen' := length_markSelfClosing acc
      obtain ⟨vs, f, hf, hrest⟩ := ih _ (hn ▸ readTagPart_rest hpart) h (hlen'.trans_le hlen)
        (fun h => absurd (hlen'.symm.trans h) heq) rfl
      exact ⟨vs, f, (readTagPart_reaches hpart).trans hf, hrest⟩

theorem readTagParts_slashes {slashes v : List Char} (hs : ∀ x ∈ slashes, x = '/')
    (hc : c.rest = slashes ++ v) (acc : List Token) :
    ∃ us, us.length = acc.length ∧
      readTagParts indent acc c = readTagParts indent us (c.advance slashes.length) := by
  induction slashes generalizing acc c with
  | nil => exact ⟨acc, rfl, by rw [List.length_nil, c.advance_zero]⟩
  | cons x slashes ih =>
    obtain ⟨rfl, hslashes⟩ := List.forall_mem_cons.1 hs
    have hnext : (c.advance 1).rest = slashes ++ v := Cursor.rest_advance_append (u := ['/']) hc rfl
    obtain ⟨us, hus, hread⟩ := ih hslashes hnext (markSelfClosing acc)
    refine ⟨us, hus.trans (length_markSelfClosing acc), ?_⟩
    rw [readTagParts_step (readTagPart_slash hc), hread, Cursor.advance_advance, List.length_cons,
      Nat.add_comm]

theorem className_of_opensTextBlock {cs : List Char} (h : opensTextBlock cs = true) :
    className cs = [] := by
  cases cs with
  | nil => rfl
  | cons x cs =>
    apply List.takeWhile_cons_of_neg
    intro hx
    have hne : x ≠ '\n' := by
      rintro rfl
      cases hx
    have hblank : Text.isBlank x = true := by
      apply blank_of_opensTextBlock h
      simp [hne]
    rw [not_blank_of_isNameChar (isNameChar_of_isClassChar hx)] at hblank
    cases hblank

theorem readTagParts_textBlock {blanks behind : List Char} (hc : c.rest = '.' :: blanks ++ behind)
    (hblanks : '\n' ∉ blanks) (hbehind : Stops (· != '\n') behind)
    (hopens : opensTextBlock (blanks ++ behind) = true)
    (h : readTagParts indent acc c = .ok (ts, d)) :
    readTextBlock indent acc (c.advance ('.' :: blanks).length) = .ok (ts, d) := by
  have hline : c.skipLine = c.advance ('.' :: blanks).length := by
    have hrun : ∀ x ∈ '.' :: blanks, (x != '\n') = true := by
      intro x hx
      rw [bne_iff_ne]
      rintro rfl
      simp [hblanks] at hx
    rw [Cursor.skipLine, Cursor.skipWhile, hc, takeWhile_run hrun hbehind]
  have hpoint : c.rest = '.' :: (blanks ++ behind) := hc
  rw [readTagParts_eq, readTagPart_pointAlone hpoint (className_of_opensTextBlock hopens),
    if_pos hopens,
    hline] at h
  obtain ⟨x, hx, h⟩ := bind_eq_ok.1 h
  obtain ⟨y, hy, hx⟩ := bind_eq_ok.1 hx
  cases hx
  cases h
  exact hy

theorem intercalate_lines (l : List Char) (ls : List (List Char)) :
    ['\n'].intercalate (l :: ls) = l ++ ls.flatMap ('\n' :: ·) := by
  induction ls generalizing l with
  | nil => simp
  | cons l' ls ih =>
    rw [List.intercalate_cons_cons, ih, List.flatMap_cons]
    simp

/-- The token of the lines `kept` behind `before`, if there are any: their text, without the
indentation of the first that is not blank. -/
def textBlock (before : List Char) (kept : List (List Char)) : List Token :=
  if kept = [] then []
  else [{ kind := .text (String.ofList (['\n'].intercalate (unindent kept)))
          line := 2 + Cursor.newlines before
          span := ⟨Text.width before, Text.width (before ++ kept.flatMap ('\n' :: ·))⟩ }]

theorem readTextBlock_kept {text before : List Char} (hc : c.IsAt text before)
    (hend : Stops (· != '\n') c.rest) (h : readTextBlock indent acc c = .ok (ts, d)) :
    ∃ kept, KeptBelow indent c.rest kept ∧ d.IsAt text (before ++ kept.flatMap ('\n' :: ·)) ∧
      ts = textBlock before kept ++ acc := by
  obtain ⟨kept, hkept, hblock⟩ := blockLines_kept hend indent
  have hd := hc.advance (linesLength kept)
  rw [hkept.take_linesLength] at hd
  refine ⟨kept, hkept, ?_⟩
  unfold readTextBlock at h
  rw [hblock] at h
  cases kept with
  | nil =>
    cases h
    rw [linesLength, c.advance_zero] at hd
    exact ⟨hd, rfl⟩
  | cons l ls =>
    obtain ⟨_, -, h⟩ := bind_eq_ok.1 h
    cases h
    refine ⟨hd, ?_⟩
    have hline : c.line + 1 = 2 + Cursor.newlines before := by
      rw [hc.line]
      omega
    rw [textBlock, if_neg (List.cons_ne_nil _ _), unindent_eq, List.map_cons, intercalate_lines,
      Token.upTo, hline, hc.pos, hd.pos]
    rfl

/-- The lines `kept` are taken of the text behind `before`, which ends a line indented by `base`;
behind the last of them reading goes on with `more`. -/
structure Captures (text before : List Char) (base : Nat) (kept : List (List Char))
    (more : List Token) : Prop where
  below : ∃ behind, before ++ behind = text ∧ KeptBelow base behind kept
  resumes : ∃ l e, e.IsAt text (before ++ kept.flatMap ('\n' :: ·)) ∧ l.top = base ∧
  Resumes l e more

/-- The line of a tag that ends in a point: `parts` stand behind the tag, and `back` behind its
line. The text up to the end of the line is `before`. -/
structure OpensBlock (text : List Char) (ts : List Token) (tag : Token) (parts back : List Token)
    (before behind : List Char) : Prop where
  isTag : tag.kind.isTag = true
  areParts : ∀ p ∈ parts, p.kind.isTagPart = true
  tokens : ∃ front, ts = front ++ tag :: (parts ++ back)
  whole : before ++ behind = text
  point : ∃ head slashes blanks, before = head ++ (slashes ++ '.' :: blanks) ∧
    Text.width head = (parts.getLastD tag).span.stop ∧ (∀ c ∈ slashes, c = '/') ∧ '\n' ∉ blanks ∧
    opensTextBlock (blanks ++ behind) = true
  ends : Stops (· != '\n') behind

theorem isTail_of_isTag {k : TokenKind} (h : k.isTag = true) : k.isTail = false := by
  cases k <;> first | rfl | cases h

theorem isTagPart_of_isTag {k : TokenKind} (h : k.isTag = true) : k.isTagPart = true := by
  cases k <;> first | rfl | cases h

theorem isContent_of_isTagPart {k : TokenKind} (h : k.isTagPart = true) : k.isContent = true := by
  cases k <;> first | rfl | cases h

theorem readTagParts_of_readLine {t : Token} {post : List Token}
    (h : readLine indent c = .ok (t :: post, d)) (ht : t.kind.isTag = true) :
    ∃ u e, c.Reaches e ∧ u.span.stop = e.pos ∧
      readTagParts indent [u] e = .ok ((t :: post).reverse, d) := by
  rcases readLine_cases h with ⟨k, hd, heq⟩ | ⟨u, e, ts, -, hhead, hts, heq⟩
  · rw [(List.cons.inj heq).1, kind_directiveToken] at ht
    rcases readDirective_kinds hd with hk | ⟨s, rfl⟩ | ⟨-, hcomment⟩
    · rw [isTag_of_isDirective hk] at ht
      cases ht
    · cases ht
    · cases hcomment
      cases ht
  · refine ⟨u, e, readTagHead_reaches hhead, ?_, ?_⟩
    · rw [(readTagHead_spans hhead).2]
    · rw [heq, List.reverse_reverse]
      exact hts

theorem OnLine.split {text : List Char} {t : Token} {parts back post more : List Token}
    {d e : Cursor} (h : OnLine text t (parts ++ back) d e post more)
    (hparts : ∀ p ∈ parts, p.kind.isTagPart = true) :
    ∃ w, post = parts ++ w ∧ back = w ++ more := by
  rcases List.append_eq_append_iff.1 h.back with ⟨w, hpost, hback⟩ | ⟨w, rfl, hmore⟩
  · exact ⟨w, hpost, hback⟩
  · cases w with
    | nil => exact ⟨[], by simp, hmore.symm⟩
    | cons p w =>
      have hlayout := h.startsLayout p (by simp [hmore])
      rw [isContent_of_isTagPart (hparts p (by simp))] at hlayout
      cases hlayout

theorem exists_last (tag : Token) (parts : List Token) :
    ∃ us, tag :: parts = us ++ [parts.getLastD tag] := by
  rcases List.eq_nil_or_concat' parts with rfl | ⟨us, p, rfl⟩
  · exact ⟨[], rfl⟩
  · exact ⟨tag :: us, by simp⟩

theorem OpensBlock.readTextBlock {text front : List Char} {ts parts back own : List Token}
    {tag : Token}
    {before behind : List Char} (h : OpensBlock text ts tag parts back before behind)
    (hc : c.IsAt text front) (hread : readLine indent c = .ok (tag :: (parts ++ own), d)) :
    ∃ us e, us.length = (tag :: parts).length ∧ e.IsAt text before ∧ e.rest = behind ∧
      readTextBlock indent us e = .ok (own.reverse ++ (tag :: parts).reverse, d) := by
  obtain ⟨fs, hlast⟩ := exists_last tag parts
  have htokens : (tag :: (parts ++ own)).reverse = own.reverse ++ (tag :: parts).reverse := by simp
  have hlength : (tag :: parts).length = fs.reverse.length + 1 := by
    rw [hlast]
    simp
  have hpart : (parts.getLastD tag).kind.isTagPart = true := by
    have hmem : parts.getLastD tag ∈ tag :: parts := by
      rw [hlast]
      simp
    rcases List.mem_cons.1 hmem with heq | hmem
    · rw [heq]
      exact isTagPart_of_isTag h.isTag
    · exact h.areParts _ hmem
  -- to the last part of the tag
  obtain ⟨u, c₁, hc₁, hstop, hparts⟩ := readTagParts_of_readLine hread h.isTag
  rw [htokens] at hparts
  have hsplit : own.reverse ++ (tag :: parts).reverse =
      own.reverse ++ parts.getLastD tag :: fs.reverse := by
    rw [hlast]
    simp
  obtain ⟨us, c₂, hc₂, hpos, hus, hrest⟩ :=
    behind_tagPart hparts hsplit hpart (by simp) (by simpa using fun _ => hstop)
  obtain ⟨b, hat⟩ := hc.reaches (hc₁.trans hc₂)
  -- over the slashes and the point
  obtain ⟨head, slashes, blanks, rfl, hwidth, hslashes, hblanks, hopens⟩ := h.point
  have hwhole : head ++ (slashes ++ ('.' :: blanks ++ behind)) = text := by
    rw [← h.whole]
    simp
  obtain ⟨rfl, hc₂⟩ := hat.eq_of_pos hwhole (hpos.trans hwidth.symm)
  obtain ⟨vs, hvs, heq⟩ := readTagParts_slashes hslashes hc₂ us
  have hc₃ := Cursor.rest_advance_append hc₂ rfl
  rw [heq] at hrest
  refine ⟨vs, _, by rw [hvs, hus, hlength], ?_, Cursor.rest_advance_append hc₃ rfl,
    readTagParts_textBlock hc₃ hblanks h.ends hopens hrest⟩
  rw [← List.append_assoc]
  exact (hat.front hc₂).front hc₃

theorem reverse_textBlock (before : List Char) (kept : List (List Char)) :
    (textBlock before kept).reverse = textBlock before kept := by
  unfold textBlock
  split <;> rfl

theorem OpensBlock.captures {source : String} {ts parts back : List Token} {tag : Token}
    {before behind : List Char} (hts : tokenize source = .ok ts)
    (h : OpensBlock (Text.normalizeChars source.toList) ts tag parts back before behind) :
    ∃ kept more, back = textBlock before kept ++ more ∧
      Captures (Text.normalizeChars source.toList) before
        (indentWidth (lineAround (Text.normalizeChars source.toList) tag.span.start)) kept
          more := by
  obtain ⟨front, htokens⟩ := h.tokens
  have hcontent := isContent_of_isTagPart (isTagPart_of_isTag h.isTag)
  obtain ⟨d, e, post, more, hline⟩ := onLine_of_readLines (startsLine_ofText _) hts htokens hcontent
  have hread := hline.first (isTail_of_isTag h.isTag)
  obtain ⟨own, rfl, rfl⟩ := hline.split h.areParts
  obtain ⟨b, hskip⟩ := hline.isAt.1
  obtain ⟨us, f, hlength, hf, hrest, hblock⟩ := h.readTextBlock hskip hread
  obtain ⟨kept, hkept, he, heq⟩ := readTextBlock_kept hf (hrest ▸ h.ends) hblock
  have hown : own.reverse = textBlock before kept :=
    (List.append_inj' heq (by rw [hlength, List.length_reverse])).1
  have hbase : indentWidth (lineAround (Text.normalizeChars source.toList) tag.span.start) =
      indentWidth d.rest := by
    obtain ⟨t, parts', hbody, hstart, -⟩ := readLine_front hread
    obtain ⟨before', hd⟩ := hline.starts
    rw [(List.cons.inj hbody).1, hstart, hd.indentWidth_lineAround]
  obtain ⟨l, htop, hresumes⟩ := hline.resumes
  refine ⟨kept, more, ?_, ?_⟩
  · rw [← reverse_textBlock, ← hown, List.reverse_reverse]
  · rw [hbase]
    exact ⟨⟨behind, h.whole, hrest ▸ hkept⟩, l, e, he, htop, hresumes⟩

end

/-! ## Comments -/

def commentMark : Bool → List Char
  | true => ['/', '/']
  | false => ['/', '/', '-']

structure CommentLine (line : List Char) (buffered : Bool) (first : List Char) : Prop where
  line : line = commentMark buffered ++ first
  mark : buffered = true → first.head? ≠ some '-'

section

variable {indent : Nat} {c d : Cursor}

theorem commentLine_drop {line cs : List Char} (h : line = '/' :: '/' :: cs) :
    CommentLine line (!Text.startsWith line ['/', '/', '-'])
      (line.drop (if !Text.startsWith line ['/', '/', '-'] then 2 else 3)) := by
  subst h
  cases cs with
  | nil => exact ⟨rfl, by simp [Text.startsWith]⟩
  | cons x cs =>
    by_cases hx : x = '-'
    · subst hx
      exact ⟨by simp [Text.startsWith, commentMark], by simp [Text.startsWith]⟩
    · have hmark : (x == '-') = false := by simpa using hx
      exact ⟨by simp [Text.startsWith, commentMark, hmark], by simp [Text.startsWith, hx]⟩

theorem readComment_kept {text before cs : List Char} {k : TokenKind} (hc : c.IsAt text before)
    (hcs : c.rest = '/' :: '/' :: cs) (h : readComment indent c = (k, d)) :
    ∃ buffered first kept, CommentLine c.lineText buffered first ∧
      k = .comment (String.ofList (first ++ (unindent kept).flatMap ('\n' :: ·))) buffered ∧
      KeptBelow indent c.skipLine.rest kept ∧
      d.IsAt text (before ++ c.lineText ++ kept.flatMap ('\n' :: ·)) := by
  have hend : Stops (· != '\n') c.skipLine.rest := by
    rw [c.rest_skipLine]
    exact stops_dropWhile _ _
  have hline : c.lineText = '/' :: '/' :: cs.takeWhile (· != '\n') := by
    rw [Cursor.lineText, hcs]
    rfl
  have hskip : c.skipLine.IsAt text (before ++ c.lineText) := by
    have hadvance := hc.advance (c.rest.takeWhile (· != '\n')).length
    rwa [take_length_takeWhile] at hadvance
  obtain ⟨kept, hkept, hblock⟩ := blockLines_kept hend indent
  have hd := hskip.advance (linesLength kept)
  rw [hkept.take_linesLength] at hd
  simp only [readComment, hblock] at h
  cases h
  exact ⟨_, _, kept, commentLine_drop hline, rfl, hkept, hd⟩

theorem readComment_of_readLine {t : Token} {post : List Token} {s : String} {buffered : Bool}
    (h : readLine indent c = .ok (t :: post, d)) (ht : t.kind = .comment s buffered) :
    post = [] ∧ t.span.start = c.pos ∧ (∃ cs, c.rest = '/' :: '/' :: cs) ∧
      readComment indent c = (.comment s buffered, d) := by
  obtain ⟨u, parts, hbody, hstart, -⟩ := readLine_front h
  obtain ⟨rfl, -⟩ := List.cons.inj hbody
  rcases readLine_cases h with ⟨k, hd, heq⟩ | ⟨u, e, ts, -, hhead, hts, heq⟩
  · obtain ⟨rfl, rfl⟩ := List.cons.inj heq
    rw [kind_directiveToken] at ht
    subst ht
    rcases readDirective_kinds hd with hk | ⟨s, hk⟩ | ⟨hcs, hcomment⟩
    · cases hk
    · cases hk
    · exact ⟨rfl, hstart, hcs, hcomment⟩
  · obtain ⟨tag, parts, htokens, rfl⟩ := tagTokens_readLine hhead hts
    obtain ⟨name, selfClosing, inline, hk⟩ := htokens.name
    rw [List.reverse_concat] at heq
    rw [(List.cons.inj heq).1, hk] at ht
    cases ht

end

theorem captures_of_comment {source : String} {ts front back : List Token} {t : Token} {s : String}
    {buffered : Bool} (hts : tokenize source = .ok ts) (htokens : ts = front ++ t :: back)
    (ht : t.kind = .comment s buffered) :
    ∃ before line first kept, t.span.start = Text.width before ∧ CommentLine line buffered first ∧
      '\n' ∉ line ∧ s = String.ofList (first ++ (unindent kept).flatMap ('\n' :: ·)) ∧
      Captures (Text.normalizeChars source.toList) (before ++ line)
        (indentWidth (lineAround (Text.normalizeChars source.toList) t.span.start)) kept back := by
  have hcontent : t.kind.isContent = true := by
    rw [ht]
    rfl
  have htail : t.kind.isTail = false := by
    rw [ht]
    rfl
  obtain ⟨d, e, post, more, hline⟩ := onLine_of_readLines (startsLine_ofText _) hts htokens hcontent
  obtain ⟨rfl, hstart, ⟨cs, hcs⟩, hcomment⟩ := readComment_of_readLine (hline.first htail) ht
  obtain ⟨before, hskip⟩ := hline.isAt.1
  obtain ⟨buffered', first, kept, hfirst, hk, hkept, he⟩ := readComment_kept hskip hcs hcomment
  cases hk
  obtain ⟨l, htop, hresumes⟩ := hline.resumes
  obtain ⟨before', hd⟩ := hline.starts
  obtain rfl := hline.back
  refine ⟨before, d.skipIndent.lineText, first, kept, hstart.trans hskip.pos, hfirst, ?_, rfl, ?_⟩
  · intro hmem
    simpa using List.mem_takeWhile_imp hmem
  · rw [hstart, hd.indentWidth_lineAround]
    refine ⟨⟨d.skipIndent.skipLine.rest, ?_, hkept⟩, l, e, he, htop, hresumes⟩
    have hwhole := Cursor.whole_advance hskip.whole (d.skipIndent.rest.takeWhile (· != '\n')).length
    rwa [take_length_takeWhile] at hwhole

/-- **Lines that are captured.** A tag whose line ends in a point has the lines below as its text,
and no text if there are none; a comment has them behind its own line. They go up to the first line
that is neither blank nor indented deeper, without the blank ones in front of that; and reading goes
on at the end of the last one of them. -/
theorem tokenize_captures {source : String} {ts : List Token} (h : tokenize source = .ok ts) :
    let text := Text.normalizeChars source.toList
    (∀ tag parts back before behind, OpensBlock text ts tag parts back before behind →
      ∃ kept more, back = textBlock before kept ++ more ∧
        Captures text before (indentWidth (lineAround text tag.span.start)) kept more) ∧
    ∀ front t back s buffered, ts = front ++ t :: back → t.kind = .comment s buffered →
      ∃ before line first kept, t.span.start = Text.width before ∧ CommentLine line buffered first ∧
        '\n' ∉ line ∧ s = String.ofList (first ++ (unindent kept).flatMap ('\n' :: ·)) ∧
        Captures text (before ++ line) (indentWidth (lineAround text t.span.start)) kept back :=
  ⟨fun _ _ _ _ _ hopens => hopens.captures h, fun _ _ _ _ _ hts ht => captures_of_comment h hts ht⟩

/-- A block of text with blank lines in all places and a line that is indented less than the first,
and a comment with a line below. -/
theorem tokenize_captures_page :
    let page := "ul\n p.x/. \n\n    a\n      b\n\n   c\n\n q\n// n\n  m\n"
    let text := Text.normalizeChars page.toList
    ∃ ts, tokenize page = .ok ts ∧
      (∃ tag parts back before behind, OpensBlock text ts tag parts back before behind ∧
        ∃ kept more, back = textBlock before kept ++ more ∧
          Captures text before (indentWidth (lineAround text tag.span.start)) kept more) ∧
      (∃ front t back s buffered, ts = front ++ t :: back ∧ t.kind = .comment s buffered ∧
        ∃ before line first kept, t.span.start = Text.width before ∧
        CommentLine line buffered first ∧
          '\n' ∉ line ∧ s = String.ofList (first ++ (unindent kept).flatMap ('\n' :: ·)) ∧
          Captures text (before ++ line) (indentWidth (lineAround text t.span.start)) kept back) ∧
      ts.map (·.kind) = [.tag "ul" false false, .indent 1, .tag "p" false false, .className "x",
        .text "\na\n  b\n\nc", .newline, .tag "q" false false, .outdent, .comment " n\nm" true,
          .eos] := by
  intro page text
  let tag : Token := ⟨.tag "p" false false, 2, ⟨4, 5⟩⟩
  let part : Token := ⟨.className "x", 2, ⟨5, 7⟩⟩
  let comment : Token := ⟨.comment " n\nm" true, 10, ⟨36, 44⟩⟩
  let front : List Token := [⟨.tag "ul" false false, 1, ⟨0, 2⟩⟩, ⟨.indent 1, 2, ⟨3, 4⟩⟩]
  let between : List Token := [⟨.text "\na\n  b\n\nc", 3, ⟨10, 31⟩⟩, ⟨.newline, 9, ⟨33, 34⟩⟩,
    ⟨.tag "q" false false, 9, ⟨34, 35⟩⟩, ⟨.outdent, 10, ⟨36, 36⟩⟩]
  let rest : List Token := [⟨.eos, 12, ⟨45, 45⟩⟩]
  have htokens : (tokenize page).toOption =
      some (front ++ tag :: ([part] ++ (between ++ comment :: rest))) := by
    decide +kernel
  have hts := ok_of_toOption htokens
  have hcaptures := tokenize_captures hts
  have hopens : OpensBlock text _ tag [part] (between ++ comment :: rest) "ul\n p.x/. ".toList
      "\n\n    a\n      b\n\n   c\n\n q\n// n\n  m\n".toList :=
    ⟨rfl, List.forall_mem_singleton.2 rfl, ⟨front, rfl⟩, by decide +kernel,
      ⟨"ul\n p.x".toList, ['/'], [' '], by decide +kernel, by decide +kernel, by decide, by decide,
        by decide +kernel⟩, stops_cons (by decide)⟩
  exact ⟨_, hts, ⟨tag, [part], _, _, _, hopens, hcaptures.1 _ _ _ _ _ hopens⟩,
    ⟨front ++ tag :: ([part] ++ between), comment, rest, " n\nm", true, by simp, rfl,
      hcaptures.2 (front ++ tag :: ([part] ++ between)) comment rest _ _ (by simp) rfl⟩, rfl⟩

end Template

end Stencil
