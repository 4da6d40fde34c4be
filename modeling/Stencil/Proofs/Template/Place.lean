import Stencil.Proofs.Result
import Stencil.Proofs.Template.Nesting
import Stencil.Proofs.Template.Stream
import Stencil.Proofs.Template.Tiled
import Stencil.Proofs.Text.Run
import Stencil.Template.Lexer

/-! # Places in a text

A cursor that reads a text, or a part of it, knows its place: the bytes and the line breaks that it
has counted are those of the text behind it. A template is read line by line, and `Lined` keeps for
each line the place at which it starts. -/

namespace Stencil

def lineAt (text : List Char) (n : Nat) : Nat :=
  1 + Cursor.newlines (Text.takeBytes n text)

def lineAround (text : List Char) (n : Nat) : List Char :=
  ((Text.takeBytes n text).reverse.takeWhile (· != '\n')).reverse ++
    (Text.dropBytes n text).takeWhile (· != '\n')

theorem takeBytes_width (before after : List Char) :
    Text.takeBytes (Text.width before) (before ++ after) = before := by
  induction before with
  | nil => simp [Text.width, Text.takeBytes]
  | cons c before ih =>
    have hpos := c.utf8Size_pos
    rw [Text.width, List.cons_append]
    cases hn : c.utf8Size + Text.width before with
    | zero => omega
    | succ n => rw [Text.takeBytes, ← hn, Nat.add_sub_cancel_left, ih]; simp

theorem slice_width (before inner after : List Char) :
    Text.slice (Text.width before) (Text.width (before ++ inner)) (before ++ (inner ++ after)) =
      inner := by
  rw [Text.slice, dropBytes_width, Text.width_append, Nat.add_sub_cancel_left, takeBytes_width]

def StandsAt (text inner : List Char) (n : Nat) : Prop :=
  ∃ before after, text = before ++ (inner ++ after) ∧ n = Text.width before

namespace StandsAt

variable {text a u b : List Char} {n : Nat}

theorem slice (h : StandsAt text u n) : Text.slice n (n + Text.width u) text = u := by
  obtain ⟨before, after, rfl, rfl⟩ := h
  rw [← Text.width_append, slice_width]

theorem part (h : StandsAt text (a ++ (u ++ b)) n) : StandsAt text u (n + Text.width a) := by
  obtain ⟨before, after, rfl, rfl⟩ := h
  exact ⟨before ++ a, b ++ after, by simp only [List.append_assoc], by rw [Text.width_append]⟩

theorem left (h : StandsAt text (u ++ b) n) : StandsAt text u n :=
  StandsAt.part (a := []) h

end StandsAt

/-- Behind `before` in a text the cursor has counted the bytes and the lines of that, and what it
reads comes next. -/
structure Cursor.Behind (text before : List Char) (c : Cursor) : Prop where
  ahead : before ++ c.rest <+: text
  pos : c.pos = Text.width before
  line : c.line = 1 + newlines before

def Cursor.Reads (text : List Char) (c : Cursor) : Prop :=
  ∃ before, c.Behind text before

namespace Cursor

theorem newlines_append (u v : List Char) : newlines (u ++ v) = newlines u + newlines v :=
  List.count_append

variable {text before : List Char} {c d : Cursor}

theorem Behind.ofText (text : List Char) : (Cursor.ofText text).Behind text [] :=
  ⟨List.prefix_refl text, rfl, rfl⟩

theorem Behind.advance (h : c.Behind text before) (n : Nat) :
    (c.advance n).Behind text (before ++ c.rest.take n) where
  ahead := by
    rw [rest_advance, List.append_assoc, List.take_append_drop]
    exact h.ahead
  pos := by
    rw [Text.width_append, ← h.pos]
    rfl
  line := by
    rw [newlines_append, ← Nat.add_assoc, ← h.line]
    rfl

theorem whole_advance (h : before ++ c.rest = text) (n : Nat) :
    before ++ c.rest.take n ++ (c.advance n).rest = text := by
  rw [rest_advance, List.append_assoc, List.take_append_drop]
  exact h

theorem Behind.lineAt_pos (h : c.Behind text before) : lineAt text c.pos = c.line := by
  obtain ⟨after, rfl⟩ := h.ahead
  rw [lineAt, h.pos, List.append_assoc, takeBytes_width, h.line]

theorem Reads.lineAt_pos (h : c.Reads text) : lineAt text c.pos = c.line := by
  obtain ⟨before, h⟩ := h
  exact h.lineAt_pos

theorem Reads.advance (h : c.Reads text) (n : Nat) : (c.advance n).Reads text := by
  obtain ⟨before, h⟩ := h
  exact ⟨_, h.advance n⟩

theorem Reads.reaches (h : c.Reads text) (hr : c.Reaches d) : d.Reads text := by
  obtain ⟨n, rfl⟩ := hr
  exact h.advance n

theorem Reads.standsAt (h : c.Reads text) : StandsAt text c.rest c.pos := by
  obtain ⟨before, h⟩ := h
  obtain ⟨after, hafter⟩ := h.ahead
  exact ⟨before, after, by rw [← hafter, List.append_assoc], h.pos⟩

theorem Reads.head? (h : c.Reads text) {x : Char} {cs : List Char} (hc : c.rest = x :: cs) :
    (Text.dropBytes c.pos text).head? = some x := by
  obtain ⟨before, h⟩ := h
  obtain ⟨after, rfl⟩ := h.ahead
  rw [h.pos, List.append_assoc, dropBytes_width, hc]
  rfl

theorem Reads.slice (h : c.Reads text) (n : Nat) :
    Text.slice c.pos (c.advance n).pos text = c.rest.take n := by
  obtain ⟨before, h⟩ := h
  obtain ⟨after, htext⟩ := (h.advance n).ahead
  rw [h.pos, (h.advance n).pos, ← htext, List.append_assoc, List.append_assoc, slice_width]

/-- A cursor that is given only a part of what another one reads. -/
theorem Reads.part (h : c.Reads text) {inner rest : List Char} {n : Nat}
    (hc : (c.advance n).rest = inner ++ rest) :
    (Cursor.mk (c.advance n).pos (c.advance n).line inner).Reads text := by
  obtain ⟨before, h⟩ := h
  have hn := h.advance n
  refine ⟨_, ?_, hn.pos, hn.line⟩
  refine List.IsPrefix.trans ?_ hn.ahead
  rw [hc, ← List.append_assoc]
  exact List.prefix_append _ rest

end Cursor

theorem Cursor.Behind.dropBytes_pos {text before : List Char} {c : Cursor}
    (h : c.Behind text before)
    (hw : before ++ c.rest = text) : Text.dropBytes c.pos text = c.rest := by
  rw [h.pos, ← hw, dropBytes_width]

/-- The cursor stands where a line of a text starts, and reads all that is left of the text. -/
structure Cursor.StartsLine (text before : List Char) (c : Cursor) : Prop
    extends c.Behind text before where
  whole : before ++ c.rest = text
  start : before = [] ∨ before.getLast? = some '\n'

theorem Cursor.StartsLine.lineAround_skipIndent {text before : List Char} {c : Cursor}
    (h : c.StartsLine text before) :
    lineAround text c.skipIndent.pos =
      c.rest.takeWhile Text.isIndent ++ c.skipIndent.lineText := by
  have hbehind := h.toBehind.advance (c.rest.takeWhile Text.isIndent).length
  rw [Template.take_length_takeWhile] at hbehind
  have hwhole : before ++ c.rest.takeWhile Text.isIndent ++ c.skipIndent.rest = text := by
    have hwhole := whole_advance h.whole (c.rest.takeWhile Text.isIndent).length
    rwa [Template.take_length_takeWhile] at hwhole
  have hrun : ∀ x ∈ (c.rest.takeWhile Text.isIndent).reverse, (x != '\n') = true := by
    intro x hx
    have hindent : Text.isIndent x = true := List.mem_takeWhile_imp (List.mem_reverse.1 hx)
    rw [bne_iff_ne]
    rintro rfl
    cases hindent
  have hstop : Stops (· != '\n') before.reverse := by
    intro x hx
    rw [List.head?_reverse] at hx
    rcases h.start with hnil | hlast
    · rw [hnil] at hx
      cases hx
    · rw [hlast] at hx
      obtain rfl := Option.some.inj hx
      rfl
  rw [lineAround, ← hwhole, skipIndent, skipWhile, hbehind.pos, takeBytes_width, dropBytes_width,
    List.reverse_append, takeWhile_run hrun hstop, List.reverse_reverse]
  rfl

namespace Template

/-! ## Tokens of a line -/

section

variable {indent : Nat} {c d : Cursor}

/-- A line is a directive, a comment or a line of text, or else it is a tag. -/
theorem readLine_cases {body : List Token} (h : readLine indent c = .ok (body, d)) :
    (∃ kind, readDirective indent c = some (.ok (kind, d)) ∧ body = [directiveToken c kind d]) ∨
      ∃ tag e ts, readDirective indent c = none ∧ readTagHead c = some (tag, e) ∧
        readTagParts indent [tag] e = .ok (ts, d) ∧ body = ts.reverse := by
  unfold readLine at h
  split at h
  · cases h
  · next kind e hd =>
    cases h
    exact .inl ⟨kind, hd, rfl⟩
  · next hd =>
    split at h
    · next tag e hhead =>
      unfold readMap at h
      split at h
      · cases h
      · next ts f hts =>
        cases h
        exact .inr ⟨tag, e, ts, hd, hhead, hts, rfl⟩
    · cases h

def TokenKind.isTail : TokenKind → Bool
  | .className _ => true
  | .attrs _ _ => true
  | .text _ => true
  | _ => false

/-- The tokens of a tag, last first: that of its name, and those of what stands behind it. -/
structure TagTokens (start : Nat) (tag : Token) (parts : List Token) : Prop where
  name : ∃ name selfClosing inline, tag.kind = .tag name selfClosing inline
  start : tag.span.start = start
  parts : ∀ t ∈ parts, t.kind.isTail = true

/-- What a part of a tag's line does to the tokens in front of it, and to the cursor if more may
follow. -/
inductive PartRead (acc : List Token) (d : Cursor) : List Token → Bool → Prop where
  | nothing : PartRead acc d acc false
  | text {t : Token} {s : String} : t.kind = .text s → PartRead acc d (t :: acc) false
  | part {t : Token} : t.kind.isTail = true → t.span.stop = d.pos → PartRead acc d (t :: acc) true
  | slash : PartRead acc d (markSelfClosing acc) true

theorem partRead_readTextBlock {acc ts : List Token}
    (h : readTextBlock indent acc c = .ok (ts, d)) :
    PartRead acc d ts false := by
  unfold readTextBlock at h
  split at h
  · cases h
    exact .nothing
  · obtain ⟨_, -, h⟩ := bind_eq_ok.1 h
    cases h
    exact .text rfl

theorem partRead_readTagPart {acc ts : List Token} {more : Bool}
    (h : readTagPart indent acc c = .ok ((ts, more), d)) : PartRead acc d ts more := by
  unfold readTagPart at h
  split at h
  · cases h
    exact .nothing
  · cases h
    exact .nothing
  · dsimp only at h
    split at h
    · cases h
      exact .part rfl rfl
    · split at h
      · obtain ⟨⟨us, e⟩, hb, h⟩ := bind_eq_ok.1 h
        cases h
        exact partRead_readTextBlock hb
      · cases h
  · dsimp only at h
    split at h
    · cases h
    · cases h
      exact .part rfl rfl
  · obtain ⟨_, -, h⟩ := bind_eq_ok.1 h
    cases h
    exact .part rfl rfl
  · cases h
    exact .slash
  · dsimp only at h
    split at h
    · split at h
      · cases h
        exact .nothing
      · obtain ⟨_, -, h⟩ := bind_eq_ok.1 h
        cases h
        exact .text rfl
    · cases h

theorem TagTokens.markSelfClosing {start : Nat} {tag : Token} {parts : List Token}
    (h : TagTokens start tag parts) : ∃ tag' parts', TagTokens start tag' parts' ∧
      Template.markSelfClosing (parts ++ [tag]) = parts' ++ [tag'] := by
  obtain ⟨name, selfClosing, inline, hk⟩ := h.name
  cases parts with
  | nil =>
    refine ⟨{ tag with kind := .tag name true inline }, [],
      ⟨⟨name, true, inline, rfl⟩, h.start, nofun⟩, ?_⟩
    simp only [List.nil_append, Template.markSelfClosing, hk]
  | cons t parts =>
    obtain ⟨ht, hparts⟩ := List.forall_mem_cons.1 h.parts
    simp only [List.cons_append, Template.markSelfClosing]
    split
    · next hkind =>
      rw [hkind] at ht
      cases ht
    · exact ⟨tag, _ :: parts, ⟨h.name, h.start, List.forall_mem_cons.2 ⟨rfl, hparts⟩⟩, rfl⟩
    · exact ⟨tag, t :: parts, h, rfl⟩

theorem TagTokens.readTagPart {start : Nat} {tag : Token} {parts ts : List Token} {more : Bool}
    (h : TagTokens start tag parts)
    (hr : Template.readTagPart indent (parts ++ [tag]) c = .ok ((ts, more), d)) :
    ∃ tag' parts', TagTokens start tag' parts' ∧ ts = parts' ++ [tag'] := by
  have hcons : ∀ {t : Token}, t.kind.isTail = true → TagTokens start tag (t :: parts) := fun ht =>
    ⟨h.name, h.start, List.forall_mem_cons.2 ⟨ht, h.parts⟩⟩
  cases partRead_readTagPart hr with
  | nothing => exact ⟨tag, parts, h, rfl⟩
  | text ht => exact ⟨tag, _ :: parts, hcons (by rw [ht]; rfl), rfl⟩
  | part ht _ => exact ⟨tag, _ :: parts, hcons ht, rfl⟩
  | slash => exact h.markSelfClosing

theorem TagTokens.readTagParts {start : Nat} {tag : Token} {parts ts : List Token}
    (h : TagTokens start tag parts)
    (hr : Template.readTagParts indent (parts ++ [tag]) c = .ok (ts, d)) :
    ∃ tag' parts', TagTokens start tag' parts' ∧ ts = parts' ++ [tag'] := by
  generalize hacc : parts ++ [tag] = acc at hr
  fun_induction Template.readTagParts indent acc c generalizing tag parts with
  | case1 => cases hr
  | case2 acc c us e hp =>
    cases hr
    subst hacc
    exact h.readTagPart hp
  | case3 acc c us e hp _ ih =>
    subst hacc
    obtain ⟨tag', parts', h', rfl⟩ := h.readTagPart hp
    exact ih h' rfl hr

theorem tagTokens_readTagHead {tag : Token} (h : readTagHead c = some (tag, d)) :
    TagTokens c.pos tag [] := by
  unfold readTagHead at h
  split at h
  · split at h
    · split at h
      · cases h
        exact ⟨⟨_, _, _, rfl⟩, rfl, nofun⟩
      · cases h
    · cases h
  · cases h
    exact ⟨⟨_, _, _, rfl⟩, rfl, nofun⟩

theorem tagTokens_readLine {tag : Token} {ts : List Token} {e : Cursor}
    (hhead : readTagHead c = some (tag, e)) (h : readTagParts indent [tag] e = .ok (ts, d)) :
    ∃ tag' parts, TagTokens c.pos tag' parts ∧ ts = parts ++ [tag'] :=
  (tagTokens_readTagHead hhead).readTagParts h

/-- The first token of a line starts at the cursor, and it alone may be a tag. -/
theorem readLine_front {body : List Token} (h : readLine indent c = .ok (body, d)) :
    ∃ t parts, body = t :: parts ∧ t.span.start = c.pos ∧ ∀ u ∈ parts, u.kind.isTail = true := by
  rcases readLine_cases h with ⟨kind, -, rfl⟩ | ⟨tag, e, ts, -, hhead, hts, rfl⟩
  · refine ⟨_, [], rfl, ?_, List.forall_mem_nil _⟩
    rw [span_directiveToken]
  · obtain ⟨tag', parts, htokens, rfl⟩ := tagTokens_readLine hhead hts
    refine ⟨tag', parts.reverse, List.reverse_concat, htokens.start, ?_⟩
    exact fun u hu => htokens.parts u (List.mem_reverse.1 hu)

end

/-! ## Tokens between lines -/

structure Token.LaidOut (t : Token) (c : Cursor) : Prop where
  kind : t.kind.isContent = false
  line : t.line = c.line
  start : t.span.start = c.pos

section

variable {l l' : Levels} {c : Cursor}

theorem laidOut_readLevels {first : Bool} {lead : List Token}
    (h : readLevels l first c = .ok (lead, l')) : ∀ t ∈ lead, t.LaidOut c := by
  unfold readLevels at h
  obtain ⟨char, -, h⟩ := bind_eq_ok.1 h
  dsimp only at h
  split at h
  · cases h
    exact List.forall_mem_singleton.2 ⟨rfl, rfl, rfl⟩
  · split at h
    · split at h
      · cases h
      · cases h
        intro t ht
        obtain ⟨w, -, rfl⟩ := List.mem_map.1 ht
        exact ⟨rfl, rfl, rfl⟩
    · cases h
      cases first with
      | true => exact List.forall_mem_nil _
      | false => exact List.forall_mem_singleton.2 ⟨rfl, rfl, rfl⟩

/-- Something always divides a line from the one before. -/
theorem ne_nil_readLevels {lead : List Token} (h : readLevels l false c = .ok (lead, l')) :
    lead ≠ [] := by
  unfold readLevels at h
  obtain ⟨char, -, h⟩ := bind_eq_ok.1 h
  dsimp only at h
  split at h
  · cases h
    exact List.cons_ne_nil _ _
  · split at h
    · next hless =>
      split at h
      · cases h
      · cases h
        cases hs : l.stack with
        | nil =>
          rw [Levels.top, hs] at hless
          cases hless
        | cons w stack =>
          rw [Levels.top, hs] at hless
          rw [List.takeWhile_cons_of_pos (by simpa using hless)]
          exact List.cons_ne_nil _ _
    · cases h
      exact List.cons_ne_nil _ _

theorem laidOut_endTokens (l : Levels) (c : Cursor) : ∀ t ∈ endTokens l c, t.LaidOut c := by
  intro t ht
  simp only [endTokens, List.mem_append, List.mem_map, List.mem_singleton] at ht
  rcases ht with ⟨_, -, rfl⟩ | rfl
  · exact ⟨rfl, rfl, rfl⟩
  · exact ⟨rfl, rfl, rfl⟩

end

/-! ## Lines of a template -/

/-- The tokens of a text as they are read from its lines: those that lead to the level of a line,
those of the line, and those of the lines below. -/
inductive Lined (text : List Char) : Bool → List Token → Prop where
  | ends {first : Bool} (l : Levels) {c : Cursor} : c.Reads text → Lined text first (endTokens l c)
  | line {first : Bool} {l l' : Levels} {before : List Char} {c d : Cursor}
      {lead body more : List Token} :
    c.StartsLine text before → readLevels l first c = .ok (lead, l') →
    readLine (indentWidth c.rest) c.skipIndent = .ok (body, d) → Lined text false more →
    Lined text first (lead ++ (body ++ more))

variable {text before : List Char} {c : Cursor}

theorem startsLine_ofText (text : List Char) : (Cursor.ofText text).StartsLine text [] :=
  ⟨.ofText text, rfl, .inl rfl⟩

theorem startsLine_break {cs : List Char} (h : c.Behind text before) (hw : before ++ c.rest = text)
    (hc : c.rest = '\n' :: cs) : (c.advance 1).StartsLine text (before ++ ['\n']) := by
  have hone : c.rest.take 1 = ['\n'] := by rw [hc]; rfl
  refine ⟨hone ▸ h.advance 1, ?_, .inr (by simp)⟩
  rw [Cursor.rest_advance, ← hw, hc, List.append_assoc]
  rfl

theorem startsLine_skipBlankLines (h : c.StartsLine text before) :
    (skipBlankLines c).Reads text ∧
      ((skipBlankLines c).rest ≠ [] → ∃ b, (skipBlankLines c).StartsLine text b) := by
  fun_induction skipBlankLines c generalizing before with
  | case1 c cs hc _ ih =>
    exact ih (startsLine_break (h.toBehind.advance _) (Cursor.whole_advance h.whole _) hc)
  | case2 c hc => exact ⟨⟨_, h.toBehind.advance _⟩, fun hne => absurd hc hne⟩
  | case3 c => exact ⟨⟨before, h.toBehind⟩, fun _ => ⟨before, h⟩⟩

theorem lined_readLines {l : Levels} {first : Bool} {ts : List Token} (h : c.StartsLine text before)
    (hr : readLines l first c = .ok ts) : Lined text first ts := by
  fun_induction readLines l first c generalizing before ts with
  | case1 l first c d =>
    cases hr
    exact .ends l (startsLine_skipBlankLines h).1
  | case2 => cases hr
  | case3 => cases hr
  | case4 l first c d hd lead l' hl body e hb =>
    cases hr
    obtain ⟨b, hd⟩ := (startsLine_skipBlankLines h).2 (by simpa using hd)
    have he : e.Reads text :=
      Cursor.Reads.reaches ⟨_, hd.toBehind.advance _⟩ (readLine_reaches hb)
    rw [List.append_assoc]
    exact .line hd hl hb (.ends l' he)
  | case5 l first c d hd lead l' hl body e hb =>
    rename_i he _ ih
    obtain ⟨more, hmore, rfl⟩ := map_eq_ok.1 hr
    obtain ⟨b, hd⟩ := (startsLine_skipBlankLines h).2 (by simpa using hd)
    obtain ⟨n, rfl⟩ := readLine_reaches hb
    have hbreak := startsLine_break ((hd.toBehind.advance _).advance n)
      (Cursor.whole_advance (Cursor.whole_advance hd.whole _) n) he
    rw [List.append_assoc]
    exact .line hd hl hb (ih hbreak hmore)
  | case6 => cases hr

theorem lined_tokenize {source : String} {ts : List Token} (h : tokenize source = .ok ts) :
    Lined (Text.normalizeChars source.toList) true ts :=
  lined_readLines (startsLine_ofText _) h

theorem Lined.startsLayout {ts : List Token} (h : Lined text false ts) :
    ∀ t, ts.head? = some t → t.kind.isContent = false := by
  cases h with
  | ends l =>
    intro t ht
    exact (laidOut_endTokens l _ t (List.mem_of_head? ht)).kind
  | line hc hlead hbody _ =>
    obtain ⟨u, us, rfl⟩ := List.exists_cons_of_ne_nil (ne_nil_readLevels hlead)
    intro t ht
    obtain rfl := Option.some.inj ht
    exact (laidOut_readLevels hlead _ (List.mem_cons_self ..)).kind

end Template

end Stencil
