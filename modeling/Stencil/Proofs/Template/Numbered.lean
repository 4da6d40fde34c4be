import Stencil.Proofs.Template.Made
import Stencil.Proofs.Template.OwnDirective
import Stencil.Proofs.Template.Place
import Stencil.Proofs.Template.Vetted

/-! # Lines of tokens

A token is on the line of its first byte, also where the text of tokens goes over several lines.
Only a reference to a module with options on several lines is counted on the last of them. -/

namespace Stencil

/-! ## Staying on a line -/

def Cursor.Stays (c d : Cursor) : Prop :=
  ∃ n, d = c.advance n ∧ '\n' ∉ c.rest.take n

namespace Cursor.Stays

variable {c d e : Cursor}

theorem trans (h : c.Stays d) (h' : d.Stays e) : c.Stays e := by
  obtain ⟨m, rfl, hm⟩ := h
  obtain ⟨n, rfl, hn⟩ := h'
  refine ⟨m + n, c.advance_advance m n, ?_⟩
  rw [List.take_add, List.mem_append, not_or]
  exact ⟨hm, hn⟩

theorem line (h : c.Stays d) : d.line = c.line := by
  obtain ⟨n, rfl, hn⟩ := h
  simp only [Cursor.advance, newlines, List.count_eq_zero.2 hn, Nat.add_zero]

theorem skipWhile (c : Cursor) {p : Char → Bool} (hp : p '\n' = false) :
    c.Stays (c.skipWhile p) := by
  refine ⟨_, rfl, ?_⟩
  rw [Template.take_length_takeWhile]
  intro hmem
  rw [List.mem_takeWhile_imp hmem] at hp
  cases hp

theorem skipIndent (c : Cursor) : c.Stays c.skipIndent :=
  skipWhile c rfl

theorem skipLine (c : Cursor) : c.Stays c.skipLine :=
  skipWhile c rfl

theorem front {w v : List Char} (hc : c.rest = w ++ v) (hw : '\n' ∉ w) {n : Nat}
    (hn : w.length = n) :
    c.Stays (c.advance n) := by
  refine ⟨n, rfl, ?_⟩
  rwa [hc, ← hn, List.take_left]

end Cursor.Stays

namespace Template

variable {c d : Cursor}

/-! ## Directives -/

theorem rest_of_startsWord {word : String} (h : startsWord c word = true) :
    ∃ v, c.rest = word.toList ++ v :=
  eq_append_of_startsWord (u := c.rest) h

theorem stays_word {word : String} (h : startsWord c word = true)
    (hw : ∀ x ∈ word.toList, isNameChar x = true) {n : Nat} (hn : word.toList.length = n) :
    c.Stays (c.advance n) := by
  obtain ⟨v, hv⟩ := rest_of_startsWord h
  refine .front hv ?_ hn
  intro hmem
  exact absurd (hw _ hmem) (by decide)

theorem stays_readExprLine {word e : String} (hw : c.Stays (c.advance word.length))
    (h : readExprLine word c = .ok (e, d)) : c.Stays d := by
  simp only [readExprLine] at h
  split at h
  · cases h
  · obtain ⟨_, -, h⟩ := bind_eq_ok.1 h
    obtain ⟨-, rfl⟩ := Prod.mk.inj (Except.ok.inj h)
    exact (hw.trans (.skipIndent _)).trans (.skipLine _)

theorem stays_readBare {u : Unit} (h : readBare c = .ok (u, d)) : c.Stays d := by
  simp only [readBare] at h
  split at h
  · cases h
    exact (Cursor.Stays.skipIndent c).trans (.skipLine _)
  · cases h

theorem stays_readBlockName {name : String} (h : readBlockName c = .ok (name, d)) : c.Stays d := by
  simp only [readBlockName] at h
  split at h
  · cases h
    exact (Cursor.Stays.skipIndent c).trans (.skipLine _)
  · cases h

theorem firstWord_front {cs : List Char} {x : Char} {v : List Char} (hcs : cs = x :: v)
    (hx : Text.isBlank x = false) : Text.firstWord cs = cs.takeWhile fun y => !Text.isBlank y := by
  have hstart : Text.trimStart cs = cs := by
    rw [hcs]
    exact Stops.dropWhile (stops_cons hx)
  rw [Text.firstWord, hstart]

theorem stays_readPosition {p : Position} (h : readPosition c = some (p, d)) : c.Stays d := by
  simp only [readPosition] at h
  split at h
  · next hp =>
    obtain ⟨x, v, hc, hx⟩ := position_starts (u := c.rest) hp
    split at h
    · cases h
    · cases h
      rw [firstWord_front hc hx]
      exact .skipWhile c (p := fun y => !Text.isBlank y) (by decide)
  · cases h

theorem stays_readEach {word : String} {k : TokenKind} (hw : c.Stays (c.advance word.length))
    (h : readEach word c = .ok (k, d)) : c.Stays d := by
  simp only [readEach] at h
  split at h
  · cases h
  · obtain ⟨_, -, h⟩ := bind_eq_ok.1 h
    cases h
    exact (hw.trans (.skipIndent _)).trans (.skipLine _)

theorem stays_readTextLine {cs : List Char} {k : TokenKind} (hc : c.rest = '|' :: cs)
    (h : readTextLine c = .ok (k, d)) : c.Stays d := by
  simp only [readTextLine] at h
  obtain ⟨_, -, h⟩ := bind_eq_ok.1 h
  cases h
  refine Cursor.Stays.trans ?_ (.skipLine _)
  split
  · next hs =>
    cases cs with
    | nil => rw [hc] at hs; cases hs
    | cons x cs =>
      have hx : x = ' ' := by simpa [hc, Text.startsWith] using hs
      exact .front (w := ['|', ' ']) (by rw [hc, hx]; rfl) (by decide) rfl
  · exact .front (w := ['|']) hc (by decide) rfl

theorem stays_readMap {α β : Type} {r : Result (α × Cursor)} {f : α → β} {b : β}
    (hr : ∀ a e, r = .ok (a, e) → c.Stays e) (h : readMap f r = .ok (b, d)) : c.Stays d := by
  unfold readMap at h
  split at h
  · cases h
  · next a e =>
    cases h
    exact hr a d rfl

theorem stays_readReplace {p : Position} {k : TokenKind} (h : readReplace p c = .ok (k, d)) :
    c.Stays d :=
  stays_readMap (fun _ _ => stays_readBlockName) h

theorem stays_readReplaceLine {k : TokenKind} (hw : c.Stays (c.advance 7))
    (h : readReplaceLine c = .ok (k, d)) : c.Stays d := by
  have he := hw.trans (.skipIndent _)
  simp only [readReplaceLine] at h
  split at h
  · next hp => exact he.trans ((stays_readPosition hp).trans (stays_readReplace h))
  · exact he.trans (stays_readReplace h)

theorem stays_readBlockLine {k : TokenKind} (hw : c.Stays (c.advance 5))
    (h : readBlockLine c = .ok (k, d)) : c.Stays d := by
  have he := hw.trans (.skipIndent _)
  simp only [readBlockLine] at h
  split at h
  · next hp => exact he.trans ((stays_readPosition hp).trans (stays_readReplace h))
  · exact he.trans (stays_readMap (fun _ _ => stays_readBlockName) h)

theorem stays_readElse {k : TokenKind} (hw : c.Stays (c.advance 4))
    (h : readElse c = .ok (k, d)) : c.Stays d := by
  have he := hw.trans (.skipIndent _)
  simp only [readElse] at h
  split at h
  · next hif =>
    have hword := stays_word hif (by decide) rfl
    exact he.trans (stays_readMap (fun _ _ => stays_readExprLine hword) h)
  · exact he.trans (stays_readMap (fun _ _ => stays_readBare) h)

/-- Only the options of a module can lead to another line. -/
theorem stays_directives {k : TokenKind} (hk : k.reference? = none) :
    ∀ x ∈ directives, startsWord c x.1 = true → x.2 c = .ok (k, d) → c.Stays d := by
  have hword : ∀ x ∈ directives, startsWord c x.1 = true →
      ∀ n, x.1.toList.length = n → c.Stays (c.advance n) :=
    fun x hx hs n hn => stays_word hs (directives_names x hx) hn
  have doctype : readDoctype c = .ok (k, d) → c.Stays d := fun h => by
    cases h
    exact .skipLine c
  have expr : ∀ {word : String} {kind : String → TokenKind}, c.Stays (c.advance word.length) →
      readWithExpr word kind c = .ok (k, d) → c.Stays d :=
    fun hw h => stays_readMap (fun _ _ => stays_readExprLine hw) h
  have reference : ∀ {word : String} {kind : String → List Attribute → TokenKind},
      (∀ r o, (kind r o).reference? = some r) → readModule word kind c = .ok (k, d) →
      c.Stays d := by
    intro word kind hkind h
    unfold readModule readMap at h
    split at h
    · cases h
    · cases h
      rw [hkind] at hk
      cases hk
  simp only [directives, List.mem_cons, List.not_mem_nil, or_false, forall_eq_or_imp,
    forall_eq] at hword ⊢
  obtain ⟨-, hcase, hwhen, hdefault, -, -, -, hreplace, happend, hprepend, hblock, hif, hunless,
    helseIf, helse, hwhile, heach, hfor⟩ := hword
  refine ⟨fun _ => doctype, fun hs => expr (hcase hs _ rfl), fun hs => expr (hwhen hs _ rfl),
    fun hs h => (hdefault hs 7 rfl).trans (stays_readMap (fun _ _ => stays_readBare) h),
    fun _ => reference fun _ _ => rfl, fun _ => reference fun _ _ => rfl, fun _ =>
      reference fun _ _ => rfl,
    fun hs => stays_readReplaceLine (hreplace hs 7 rfl),
    fun hs h => (happend hs 6 rfl).trans (stays_readReplace h),
    fun hs h => (hprepend hs 7 rfl).trans (stays_readReplace h),
    fun hs => stays_readBlockLine (hblock hs 5 rfl), fun hs => expr (hif hs _ rfl),
    fun hs => expr (hunless hs _ rfl), fun hs => expr (helseIf hs _ rfl),
    fun hs => stays_readElse (helse hs 4 rfl), fun hs => expr (hwhile hs _ rfl),
    fun hs => stays_readEach (heach hs _ rfl), fun hs => stays_readEach (hfor hs _ rfl)⟩

theorem readDirective_starts {indent : Nat} {r : Result (TokenKind × Cursor)}
    (h : readDirective indent c = some r) : ∃ x cs, c.rest = x :: cs ∧ x ≠ '\n' := by
  unfold readDirective at h
  split at h
  · next x hx =>
    have hs : startsWord c x.1 = true := by simpa using List.find?_some hx
    obtain ⟨v, hv⟩ := rest_of_startsWord hs
    obtain ⟨y, ys, hy, hstart⟩ := directives_start x (List.mem_of_find?_eq_some hx)
    rw [hy] at hv
    refine ⟨y, ys ++ v, hv, ?_⟩
    rintro rfl
    revert hstart
    decide
  · split at h
    · next hc => exact ⟨_, _, hc, by decide⟩
    · next hc => exact ⟨_, _, hc, by decide⟩
    · cases h

theorem line_directiveToken {indent : Nat} {k : TokenKind}
    (h : readDirective indent c = some (.ok (k, d))) (hk : k.reference? = none) :
    (directiveToken c k d).line = c.line := by
  unfold readDirective at h
  split at h
  · next x hx =>
    have hs : startsWord c x.1 = true := by simpa using List.find?_some hx
    have hstays := stays_directives hk x (List.mem_of_find?_eq_some hx) hs (Option.some.inj h)
    unfold directiveToken
    split
    · rfl
    · exact hstays.line
  · split at h
    · have hkind : (readComment indent c).1 = k :=
        congrArg Prod.fst (Except.ok.inj (Option.some.inj h))
      rw [← hkind]
      rfl
    · next hc =>
      have hstays := stays_readTextLine hc (Option.some.inj h)
      unfold directiveToken
      split
      · rfl
      · exact hstays.line
    · cases h

/-! ## Tokens -/

/-- Where a token begins: at its first byte, but a block of text, the place of which has the line
break in front of its first line, behind that. -/
def Token.firstByte (text : List Char) (t : Token) : Nat :=
  match t.kind with
  | .text _ =>
    if (Text.dropBytes t.span.start text).head? = some '\n' then t.span.start + 1 else t.span.start
  | _ => t.span.start

def Token.linesBelow (text : List Char) (t : Token) : Nat :=
  match t.kind.reference? with
  | some _ => Cursor.newlines (Text.slice t.span.start t.span.stop text)
  | none => 0

def Token.Numbered (text : List Char) (t : Token) : Prop :=
  t.line = lineAt text (t.firstByte text) + t.linesBelow text

variable {text : List Char}

theorem numbered_here {t : Token} (h : c.Reads text) (hline : t.line = c.line)
    (hstart : t.span.start = c.pos) (hreference : t.kind.reference? = none)
    (htext : (∀ s, t.kind ≠ .text s) ∨ ∃ x cs, c.rest = x :: cs ∧ x ≠ '\n') : t.Numbered text := by
  have hfirst : t.firstByte text = c.pos := by
    unfold Token.firstByte
    split
    · next s hk =>
      rcases htext with htext | ⟨x, cs, hc, hx⟩
      · exact absurd hk (htext s)
      · rw [hstart, h.head? hc, if_neg (by simpa using hx)]
    · exact hstart
  rw [Token.Numbered, hfirst, Token.linesBelow, hreference, h.lineAt_pos, hline]
  rfl

theorem numbered_directiveToken {indent : Nat} {k : TokenKind} (h : c.Reads text)
    (hr : readDirective indent c = some (.ok (k, d))) : (directiveToken c k d).Numbered text := by
  have hspan := span_directiveToken c d k
  have hkind := kind_directiveToken c k d
  cases hk : k.reference? with
  | none =>
    refine numbered_here h (line_directiveToken hr hk) (by rw [hspan]) ?_ (.inr ?_)
    · rw [hkind, hk]
    · exact readDirective_starts hr
  | some r =>
    obtain ⟨n, rfl⟩ := readDirective_reaches hr
    have hfirst : (directiveToken c k (c.advance n)).firstByte text = c.pos := by
      rw [Token.firstByte, hkind, hspan]
      cases k <;> first | rfl | cases hk
    have hline : (directiveToken c k (c.advance n)).line = (c.advance n).line := by
      cases k <;> first | rfl | cases hk
    rw [Token.Numbered, hfirst, Token.linesBelow, hkind, hk, hspan, h.slice, h.lineAt_pos, hline]
    rfl

theorem numbered_markSelfClosing {ts : List Token} (h : ∀ t ∈ ts, t.Numbered text) :
    ∀ t ∈ markSelfClosing ts, t.Numbered text := by
  cases ts with
  | nil => exact h
  | cons t ts =>
    obtain ⟨ht, hts⟩ := List.forall_mem_cons.1 h
    simp only [markSelfClosing]
    split
    · next hk =>
      refine List.forall_mem_cons.2 ⟨?_, hts⟩
      simpa only [Token.Numbered, Token.firstByte, Token.linesBelow, hk,
        TokenKind.reference?] using ht
    · next hk =>
      refine List.forall_mem_cons.2 ⟨?_, hts⟩
      simpa only [Token.Numbered, Token.firstByte, Token.linesBelow, hk,
        TokenKind.reference?] using ht
    · exact h

/-- Behind the end of a line that a block of text follows there is a line break. -/
theorem rest_of_blockLines {base : Nat} {l : List Char} {ls : List (List Char)} {stop : Cursor}
    (hend : Stops (· != '\n') c.rest) (h : c.blockLines base = (l :: ls, stop)) :
    ∃ cs, c.rest = '\n' :: cs := by
  cases hc : c.rest with
  | nil =>
    have hnone := break_of_blockLines h
    rw [hc] at hnone
    cases hnone
  | cons x cs =>
    have hx : x = '\n' := by simpa using hend x (by rw [hc]; rfl)
    exact ⟨cs, by rw [hx]⟩

theorem numbered_readTextBlock {indent : Nat} {acc ts : List Token} (h : c.Reads text)
    (hacc : ∀ t ∈ acc, t.Numbered text) (hend : Stops (· != '\n') c.rest)
    (hr : readTextBlock indent acc c = .ok (ts, d)) : ∀ t ∈ ts, t.Numbered text := by
  unfold readTextBlock at hr
  split at hr
  · cases hr
    exact hacc
  · next l ls stop hl =>
    obtain ⟨_, -, hr⟩ := bind_eq_ok.1 hr
    cases hr
    obtain ⟨cs, hc⟩ := rest_of_blockLines hend hl
    refine List.forall_mem_cons.2 ⟨?_, hacc⟩
    have hnext : lineAt text (c.pos + 1) = c.line + 1 := by
      have hadvance := (h.advance 1).lineAt_pos
      rw [Cursor.advance, hc] at hadvance
      exact hadvance
    simp only [Token.Numbered, Token.firstByte, Token.upTo, h.head? hc, if_pos, hnext]
    rfl

theorem numbered_readTagPart {indent : Nat} {acc ts : List Token} {more : Bool} (h : c.Reads text)
    (hacc : ∀ t ∈ acc, t.Numbered text) (hr : readTagPart indent acc c = .ok ((ts, more), d)) :
    ∀ t ∈ ts, t.Numbered text := by
  have hpart : ∀ {kind : TokenKind} {e : Cursor}, kind.reference? = none →
      ((∀ s, kind ≠ .text s) ∨ ∃ x cs, c.rest = x :: cs ∧ x ≠ '\n') →
      ∀ t ∈ .upTo kind c.line c.pos e :: acc, t.Numbered text :=
    fun hkind htext => List.forall_mem_cons.2 ⟨numbered_here h rfl rfl hkind htext, hacc⟩
  unfold readTagPart at hr
  split at hr
  · cases hr
    exact hacc
  · cases hr
    exact hacc
  · dsimp only at hr
    split at hr
    · cases hr
      exact hpart rfl (.inl nofun)
    · split at hr
      · obtain ⟨⟨us, e⟩, hb, hr⟩ := bind_eq_ok.1 hr
        cases hr
        have hend : Stops (· != '\n') c.skipLine.rest := by
          rw [c.rest_skipLine]
          exact stops_dropWhile _ _
        exact numbered_readTextBlock (h.advance _) hacc hend hb
      · cases hr
  · dsimp only at hr
    split at hr
    · cases hr
    · cases hr
      exact hpart rfl (.inl nofun)
  · obtain ⟨x, -, hr⟩ := bind_eq_ok.1 hr
    cases hr
    exact hpart rfl (.inl nofun)
  · cases hr
    exact numbered_markSelfClosing hacc
  · rename_i x cs hbreak _ _ _ _ hc
    dsimp only at hr
    split at hr
    · split at hr
      · cases hr
        exact hacc
      · obtain ⟨_, -, hr⟩ := bind_eq_ok.1 hr
        cases hr
        exact hpart rfl (.inr ⟨x, cs, hc, hbreak⟩)
    · cases hr

theorem numbered_readTagParts {indent : Nat} {acc ts : List Token} (h : c.Reads text)
    (hacc : ∀ t ∈ acc, t.Numbered text) (hr : readTagParts indent acc c = .ok (ts, d)) :
    ∀ t ∈ ts, t.Numbered text := by
  fun_induction readTagParts indent acc c with
  | case1 => cases hr
  | case2 acc c us e hp =>
    cases hr
    exact numbered_readTagPart h hacc hp
  | case3 acc c us e hp _ ih =>
    exact ih (h.reaches (readTagPart_reaches hp)) (numbered_readTagPart h hacc hp) hr

theorem numbered_readTagHead {t : Token} (h : c.Reads text) (hr : readTagHead c = some (t, d)) :
    t.Numbered text := by
  unfold readTagHead at hr
  split at hr
  · split at hr
    · split at hr
      · cases hr
        exact numbered_here h rfl rfl rfl (.inl nofun)
      · cases hr
    · cases hr
  · cases hr
    exact numbered_here h rfl rfl rfl (.inl nofun)

theorem numbered_readLine {indent : Nat} {ts : List Token} (h : c.Reads text)
    (hr : readLine indent c = .ok (ts, d)) : ∀ t ∈ ts, t.Numbered text := by
  unfold readLine at hr
  split at hr
  · cases hr
  · next kind e hd =>
    cases hr
    exact List.forall_mem_singleton.2 (numbered_directiveToken h hd)
  · split at hr
    · next t e hhead =>
      unfold readMap at hr
      split at hr
      · cases hr
      · next us f hus =>
        cases hr
        have htag := List.forall_mem_singleton.2 (numbered_readTagHead h hhead)
        have hall := numbered_readTagParts (h.reaches (readTagHead_reaches hhead)) htag hus
        exact fun t ht => hall t (List.mem_reverse.1 ht)
    · cases hr

theorem Token.LaidOut.numbered {t : Token} (ht : t.LaidOut c) (h : c.Reads text) :
    t.Numbered text := by
  have hkind := ht.kind
  refine numbered_here h ht.line ht.start ?_ (.inl ?_)
  · cases hk : t.kind <;> rw [hk] at hkind <;> first | rfl | cases hkind
  · intro s hs
    rw [hs] at hkind
    cases hkind

theorem Lined.numbered {first : Bool} {ts : List Token} (h : Lined text first ts) :
    ∀ t ∈ ts, t.Numbered text := by
  induction h with
  | ends l hc => exact fun t ht => (laidOut_endTokens l _ t ht).numbered hc
  | line hc hlead hbody _ ih =>
    have hreads : Cursor.Reads text _ := ⟨_, hc.toBehind⟩
    refine List.forall_mem_append.2
      ⟨fun t ht => (laidOut_readLevels hlead t ht).numbered hreads, ?_⟩
    exact List.forall_mem_append.2 ⟨numbered_readLine (hreads.advance _) hbody, ih⟩

/-- **Lines and places agree.** The line of a token is the one that it begins on; only that of a
reference to a module is further down, by the line breaks in the token. -/
theorem tokenize_numbers (source : String) {ts : List Token} (h : tokenize source = .ok ts) :
    let text := Text.normalizeChars source.toList
    ∀ t ∈ ts, t.line = lineAt text (t.firstByte text) + t.linesBelow text :=
  (lined_tokenize h).numbered

/-- Attributes, a block of text, options and a comment that go over several lines, and empty
lines. -/
theorem tokenize_numbers_page :
    let page := "a(b,\r\nc).\n\n  x\n y\n\ninclude(d,\n\ne) f\n// g\n  h\ni"
    let text := Text.normalizeChars page.toList
    ∃ ts, tokenize page = .ok ts ∧
      (∀ t ∈ ts, t.line = lineAt text (t.firstByte text) + t.linesBelow text) ∧
      ts.map (fun t => (t.kind.name, t.line, t.linesBelow text)) =
        [("tag", 1, 0), ("attrs", 1, 0), ("text", 3, 0), ("newline", 7, 0), ("include", 9, 2),
          ("newline", 10, 0), ("comment", 10, 0), ("newline", 12, 0), ("tag", 12, 0),
          ("eos", 12, 0)] := by
  intro page text
  have hlines : (tokenize page).toOption.map
      (fun ts => ts.map fun t => (t.kind.name, t.line, t.linesBelow text)) =
        some [("tag", 1, 0), ("attrs", 1, 0), ("text", 3, 0), ("newline", 7, 0), ("include", 9, 2),
          ("newline", 10, 0), ("comment", 10, 0), ("newline", 12, 0), ("tag", 12, 0),
          ("eos", 12, 0)] := by
    decide +kernel
  obtain ⟨ts, hts, hlines⟩ := Option.map_eq_some_iff.1 hlines
  replace hts := ok_of_toOption hts
  exact ⟨ts, hts, tokenize_numbers page hts, hlines⟩

/-- With options on two lines an inclusion is counted on the second. -/
theorem options_counted_below :
    let source := "include(a=1,\nb=2) x"
    let text := Text.normalizeChars source.toList
    ∃ ts t, tokenize source = .ok ts ∧ t ∈ ts ∧ t.span.start = 0 ∧ t.line = 2 ∧
      lineAt text (t.firstByte text) = 1 := by
  intro source text
  have hhead : (tokenize source).toOption.bind List.head? = some
      ⟨.inclusion "x" [⟨"a", .expr "1", true⟩, ⟨"b", .expr "2", true⟩], 2, ⟨0, 19⟩⟩ := by
    decide +kernel
  obtain ⟨ts, hts, hhead⟩ := Option.bind_eq_some_iff.1 hhead
  exact ⟨ts, _, ok_of_toOption hts, List.mem_of_head? hhead, rfl, rfl, by decide +kernel⟩

end Template

end Stencil
