import Stencil.Proofs.Template.Numbered

/-! # Directives about blocks

A directive about a block is read word by word: a keyword, perhaps a word for a position, and the
name. Together they are all that its line says, blanks apart, unless something that is in no name
directly follows the word for the position: that is passed over up to the next blank. -/

namespace Stencil

/-! ## Texts without their blanks -/

namespace Text

theorem filter_allBlank {cs : List Char} (h : ∀ x ∈ cs, isBlank x = true) :
    cs.filter (fun x => !isBlank x) = [] := by
  rw [List.filter_eq_nil_iff]
  intro x hx
  rw [h x hx]
  decide

theorem filter_noBlank {cs : List Char} (h : ∀ x ∈ cs, isBlank x = false) :
    cs.filter (fun x => !isBlank x) = cs := by
  rw [List.filter_eq_self]
  intro x hx
  rw [h x hx]
  rfl

theorem filter_trim (cs : List Char) :
    (trim cs).filter (fun x => !isBlank x) = cs.filter fun x => !isBlank x := by
  obtain ⟨tail, hsplit, htail⟩ := dropTail_split isBlank (trimStart cs)
  have hstart : cs = cs.takeWhile isBlank ++ trimStart cs := List.takeWhile_append_dropWhile.symm
  conv_rhs => rw [hstart, hsplit]
  rw [List.filter_append, List.filter_append, filter_allBlank htail,
    filter_allBlank fun x hx => List.mem_takeWhile_imp hx]
  simp [trim, trimEnd]

end Text

/-! ## What is left of a line -/

namespace Cursor

variable {c : Cursor}

theorem lineText_advance {n : Nat} (h : '\n' ∉ c.rest.take n) :
    c.lineText = c.rest.take n ++ (c.advance n).lineText := by
  have hrun : ∀ x ∈ c.rest.take n, (x != '\n') = true := by
    intro x hx
    rw [bne_iff_ne]
    rintro rfl
    exact h hx
  have hsplit : c.rest = c.rest.take n ++ c.rest.drop n := (List.take_append_drop n c.rest).symm
  conv_lhs => rw [lineText, hsplit, List.takeWhile_append_of_pos hrun]
  rfl

theorem lineText_front {w v : List Char} (hc : c.rest = w ++ v) (hw : '\n' ∉ w) {n : Nat}
    (hn : w.length = n) : c.lineText = w ++ (c.advance n).lineText := by
  have htake : c.rest.take n = w := by rw [hc, ← hn, List.take_left]
  rw [lineText_advance (by rwa [htake]), htake]

theorem lineText_skipIndent (c : Cursor) :
    c.lineText = c.rest.takeWhile Text.isIndent ++ c.skipIndent.lineText := by
  refine lineText_front List.takeWhile_append_dropWhile.symm ?_ rfl
  intro hmem
  cases (List.mem_takeWhile_imp hmem : Text.isIndent '\n' = true)

theorem filter_skipIndent (c : Cursor) :
    c.skipIndent.lineText.filter (fun x => !Text.isBlank x) =
      c.lineText.filter fun x => !Text.isBlank x := by
  have hblank : ∀ x ∈ c.rest.takeWhile Text.isIndent, Text.isBlank x = true :=
    fun x hx => Text.isBlank_of_isIndent (List.mem_takeWhile_imp hx)
  rw [c.lineText_skipIndent, List.filter_append, Text.filter_allBlank hblank]
  rfl

end Cursor

namespace Template

/-! ## Words -/

def TokenKind.block? : TokenKind → Option String
  | .block name => some name
  | .replace _ name => some name
  | _ => none

/-- What is said of a block: there is content for it at a position, or, without one, it is
declared. -/
def TokenKind.ofBlock (position : Option Position) (name : String) : TokenKind :=
  match position with
  | some p => .replace p name
  | none => .block name

/-- The words that start a directive about a block, and the positions that they stand for. -/
def blockKeywords : List (String × Option Position) :=
  [("block", none), ("replace", some .replace), ("append", some .after), ("prepend", some .before)]

def positionWords : List (String × Position) :=
  [("before", .before), ("prepend", .before), ("after", .after), ("append", .after),
    ("replace", .replace)]

/-- A directive about the block `name`: blanks apart, its line is the keyword, the word for a
position if there is one, what strays behind that, and the name. -/
structure BlockLine (line : List Char) (kind : TokenKind) (keyword : String × Option Position)
    (word : Option (String × Position)) (stray : List Char) (name : String) : Prop where
  keyword_mem : keyword ∈ blockKeywords
  word_mem : ∀ w ∈ word, w ∈ positionWords
  kind_eq : kind = .ofBlock ((word.map Prod.snd).or keyword.2) name
  chars : line.filter (fun x => !Text.isBlank x) =
    keyword.1.toList ++ ((word.map Prod.fst).getD "").toList ++ stray ++ name.toList
  strays : stray ≠ [] → ∃ w ∈ word, w.1.toList ++ stray <:+: line ∧ Stops isNameChar stray ∧
    ∀ x ∈ stray, Text.isBlank x = false

theorem blockKeywords_noBlank :
    ∀ k ∈ blockKeywords, ∀ x ∈ k.1.toList, Text.isBlank x = false := by
  decide

variable {c d : Cursor}

theorem chars_readBlockName {name : String} (h : readBlockName c = .ok (name, d)) :
    c.lineText.filter (fun x => !Text.isBlank x) = name.toList := by
  simp only [readBlockName] at h
  split at h
  · next hname =>
    cases h
    have hlist : isBlockName (String.ofList (Text.trim c.skipIndent.lineText)).toList = true := by
      rwa [String.toList_ofList]
    have hblank := not_blank_of_isBlockName hlist
    rw [String.toList_ofList] at hblank ⊢
    rw [← c.filter_skipIndent, ← Text.filter_trim, Text.filter_noBlank hblank]
  · cases h

theorem firstWord_of_startsWord {word : String} (h : startsWord c word = true)
    (hword : ∀ x ∈ word.toList, isNameChar x = true) (hne : word.toList ≠ []) :
    ∃ stray rest, Text.firstWord c.rest = word.toList ++ stray ∧
      c.rest = word.toList ++ stray ++ rest ∧ Stops isNameChar stray ∧
      ∀ x ∈ stray, Text.isBlank x = false := by
  obtain ⟨v, hv⟩ := rest_of_startsWord h
  have hblank : ∀ x ∈ word.toList, (!Text.isBlank x) = true := by
    intro x hx
    rw [not_blank_of_isNameChar (hword x hx)]
    rfl
  have hfirst : Text.firstWord c.rest = word.toList ++ v.takeWhile fun x => !Text.isBlank x := by
    obtain ⟨x, xs, hx⟩ := List.exists_cons_of_ne_nil hne
    have hfront : c.rest = x :: (xs ++ v) := by rw [hv, hx]; rfl
    have hx : Text.isBlank x = false :=
      not_blank_of_isNameChar (hword x (by rw [hx]; exact List.mem_cons_self ..))
    rw [firstWord_front hfront hx, hv, List.takeWhile_append_of_pos hblank]
  refine ⟨v.takeWhile fun x => !Text.isBlank x, v.dropWhile fun x => !Text.isBlank x, hfirst,
    ?_, ?_,
    fun x hx => by simpa using List.mem_takeWhile_imp hx⟩
  · rw [List.append_assoc, List.takeWhile_append_dropWhile, hv]
  · intro x hx
    cases v with
    | nil => cases hx
    | cons y ys =>
      rw [List.takeWhile_cons] at hx
      split at hx
      · obtain rfl := Option.some.inj hx
        rw [startsWord, hv, dropStart?_append] at h
        simpa using h
      · cases hx

theorem positionWords_names : ∀ w ∈ positionWords, ∀ x ∈ w.1.toList, isNameChar x = true := by
  decide

theorem positionWords_ne_nil : ∀ w ∈ positionWords, w.1.toList ≠ [] := by
  decide

theorem position_word {p : Position}
    (hp : (if startsWord c "before" || startsWord c "prepend" then some Position.before
      else if startsWord c "after" || startsWord c "append" then some .after
      else if startsWord c "replace" then some .replace
      else none) = some p) : ∃ w ∈ positionWords, w.2 = p ∧ startsWord c w.1 = true := by
  split at hp
  · next hs =>
    cases hp
    rcases Bool.or_eq_true_iff.1 hs with hs | hs
    · exact ⟨("before", .before), by decide, rfl, hs⟩
    · exact ⟨("prepend", .before), by decide, rfl, hs⟩
  · split at hp
    · next hs =>
      cases hp
      rcases Bool.or_eq_true_iff.1 hs with hs | hs
      · exact ⟨("after", .after), by decide, rfl, hs⟩
      · exact ⟨("append", .after), by decide, rfl, hs⟩
    · split at hp
      · next hs =>
        cases hp
        exact ⟨("replace", .replace), by decide, rfl, hs⟩
      · cases hp

theorem chars_readPosition {p : Position} (h : readPosition c = some (p, d)) :
    ∃ w ∈ positionWords, w.2 = p ∧ ∃ stray, c.lineText = w.1.toList ++ stray ++ d.lineText ∧
      Stops isNameChar stray ∧ ∀ x ∈ stray, Text.isBlank x = false := by
  simp only [readPosition] at h
  split at h
  · next hp =>
    obtain ⟨w, hw, rfl, hs⟩ := position_word hp
    have hne := positionWords_ne_nil w hw
    have hname := positionWords_names w hw
    obtain ⟨stray, rest, hfirst, hrest, hstop, hblank⟩ := firstWord_of_startsWord hs hname hne
    split at h
    · cases h
    · cases h
      refine ⟨w, hw, rfl, stray, ?_, hstop, hblank⟩
      rw [hfirst]
      refine Cursor.lineText_front hrest ?_ rfl
      rw [List.mem_append, not_or]
      refine ⟨fun hmem => ?_, fun hmem => ?_⟩
      · cases hname _ hmem
      · cases hblank _ hmem
  · cases h

/-! ## Directives -/

section

variable {keyword : String × Option Position} (hkey : keyword ∈ blockKeywords) {n : Nat}
  (hline : c.lineText = keyword.1.toList ++ (c.advance n).lineText)
include hkey hline

theorem blockLine_plain {name : String} {e : Cursor}
    (he : e.lineText.filter (fun x => !Text.isBlank x) =
      (c.advance n).lineText.filter fun x => !Text.isBlank x)
    (h : readBlockName e = .ok (name, d)) :
    BlockLine c.lineText (.ofBlock keyword.2 name) keyword none [] name where
  keyword_mem := hkey
  word_mem := nofun
  kind_eq := rfl
  chars := by
    rw [hline, List.filter_append, Text.filter_noBlank (blockKeywords_noBlank keyword hkey), ← he,
      chars_readBlockName h]
    simp
  strays h := absurd rfl h

theorem blockLine_positioned {name : String} {p : Position} {f : Cursor}
    (hp : readPosition (c.advance n).skipIndent = some (p, f))
    (h : readBlockName f = .ok (name, d)) :
    ∃ word stray, BlockLine c.lineText (.replace p name) keyword word stray name := by
  obtain ⟨w, hw, rfl, stray, hrest, hstop, hblank⟩ := chars_readPosition hp
  refine ⟨some w, stray, hkey, ?_, rfl, ?_, fun _ => ⟨w, rfl, ?_, hstop, hblank⟩⟩
  · rintro _ ⟨⟩
    exact hw
  · have hwblank : ∀ x ∈ w.1.toList, Text.isBlank x = false :=
      fun x hx => not_blank_of_isNameChar (positionWords_names w hw x hx)
    rw [hline, List.filter_append, Text.filter_noBlank (blockKeywords_noBlank keyword hkey),
      ← Cursor.filter_skipIndent, hrest, List.filter_append, List.filter_append,
      Text.filter_noBlank hwblank, Text.filter_noBlank hblank, chars_readBlockName h]
    simp
  · rw [hline, Cursor.lineText_skipIndent, hrest]
    exact ⟨keyword.1.toList ++ (c.advance n).rest.takeWhile Text.isIndent, f.lineText,
      by simp only [List.append_assoc]⟩

end

theorem readMap_eq_ok {α β : Type} {r : Result (α × Cursor)} {f : α → β} {b : β}
    (h : readMap f r = .ok (b, d)) : ∃ a, f a = b ∧ r = .ok (a, d) := by
  unfold readMap at h
  split at h
  · cases h
  · cases h
    exact ⟨_, rfl, rfl⟩

theorem block?_readMap {α : Type} {r : Result (α × Cursor)} {f : α → TokenKind} {k : TokenKind}
    (hf : ∀ a, (f a).block? = none) (h : readMap f r = .ok (k, d)) : k.block? = none := by
  obtain ⟨a, rfl, -⟩ := readMap_eq_ok h
  exact hf a

theorem block?_readEach {word : String} {k : TokenKind} (h : readEach word c = .ok (k, d)) :
    k.block? = none := by
  simp only [readEach] at h
  split at h
  · cases h
  · obtain ⟨_, -, h⟩ := bind_eq_ok.1 h
    cases h
    rfl

theorem block?_readElse {k : TokenKind} (h : readElse c = .ok (k, d)) : k.block? = none := by
  simp only [readElse] at h
  split at h
  · exact block?_readMap (fun _ => rfl) h
  · exact block?_readMap (fun _ => rfl) h

theorem blockLine_optional {keyword : String × Option Position} (hkey : keyword ∈ blockKeywords)
    {n : Nat}
    (hline : c.lineText = keyword.1.toList ++ (c.advance n).lineText) {plain : String → TokenKind}
    (hplain : ∀ name, plain name = .ofBlock keyword.2 name) {k : TokenKind} {name : String}
    (hk : k.block? = some name)
    (h : (match readPosition (c.advance n).skipIndent with
      | some (p, f) => readReplace p f
      | none => readMap plain (readBlockName (c.advance n).skipIndent)) = .ok (k, d)) :
    ∃ word stray, BlockLine c.lineText k keyword word stray name := by
  split at h
  · next hp =>
    obtain ⟨name', rfl, hname⟩ := readMap_eq_ok h
    obtain rfl := Option.some.inj hk
    exact blockLine_positioned hkey hline hp hname
  · obtain ⟨name', rfl, hname⟩ := readMap_eq_ok h
    rw [hplain] at hk ⊢
    have heq : name' = name := by
      revert hk
      cases keyword.2 <;> exact Option.some.inj
    subst heq
    exact ⟨none, [], blockLine_plain hkey hline (Cursor.filter_skipIndent _) hname⟩

/-- What a directive says of a block is all that is on its line. -/
theorem blockLine_directives {k : TokenKind} {name : String} (hk : k.block? = some name) :
    ∀ x ∈ directives, startsWord c x.1 = true → x.2 c = .ok (k, d) →
      ∃ keyword word stray, BlockLine c.lineText k keyword word stray name := by
  have hline : ∀ x ∈ directives, startsWord c x.1 = true → ∀ n, x.1.toList.length = n →
      c.lineText = x.1.toList ++ (c.advance n).lineText := by
    intro x hx hs n hn
    obtain ⟨v, hv⟩ := rest_of_startsWord hs
    refine Cursor.lineText_front hv ?_ hn
    intro hmem
    cases directives_names x hx _ hmem
  have other : k.block? = none →
      ∃ keyword word stray, BlockLine c.lineText k keyword word stray name := by
    intro hnone
    rw [hk] at hnone
    cases hnone
  have mapped : ∀ {α : Type} {r : Result (α × Cursor)} {f : α → TokenKind},
      (∀ a, (f a).block? = none) → readMap f r = .ok (k, d) →
      ∃ keyword word stray, BlockLine c.lineText k keyword word stray name :=
    fun hf h => other (block?_readMap hf h)
  have content : ∀ {keyword : String} {p : Position} {n : Nat}, (keyword, some p) ∈ blockKeywords →
      c.lineText = keyword.toList ++ (c.advance n).lineText → readReplace p (c.advance n) =
        .ok (k, d) →
      ∃ keyword word stray, BlockLine c.lineText k keyword word stray name := by
    intro keyword p n hkey hline h
    obtain ⟨name', rfl, hname⟩ := readMap_eq_ok h
    obtain rfl := Option.some.inj hk
    exact ⟨(keyword, some p), none, [], blockLine_plain hkey hline rfl hname⟩
  simp only [directives, List.mem_cons, List.not_mem_nil, or_false, forall_eq_or_imp,
    forall_eq] at hline ⊢
  obtain ⟨-, -, -, -, -, -, -, hreplace, happend, hprepend, hblock, -⟩ := hline
  have hkeys : ("replace", some .replace) ∈ blockKeywords ∧ ("block", none) ∈ blockKeywords := by
    decide
  refine ⟨fun _ h => ?_, fun _ => mapped fun _ => rfl, fun _ => mapped fun _ => rfl,
    fun _ => mapped fun _ => rfl, fun _ => mapped fun _ => rfl, fun _ => mapped fun _ => rfl,
    fun _ => mapped fun _ => rfl,
    fun hs h => ⟨_, blockLine_optional hkeys.1 (hreplace hs 7 rfl) (fun _ => rfl) hk h⟩,
    fun hs => content (by decide) (happend hs 6 rfl),
    fun hs => content (by decide) (hprepend hs 7 rfl),
    fun hs h => ⟨_, blockLine_optional hkeys.2 (hblock hs 5 rfl) (fun _ => rfl) hk h⟩,
    fun _ => mapped fun _ => rfl, fun _ => mapped fun _ => rfl, fun _ => mapped fun _ => rfl,
    fun _ h => other (block?_readElse h), fun _ => mapped fun _ => rfl,
    fun _ h => other (block?_readEach h), fun _ h => other (block?_readEach h)⟩
  cases h
  cases hk

theorem blockLine_readDirective {indent : Nat} {k : TokenKind} {name : String}
    (hk : k.block? = some name) (h : readDirective indent c = some (.ok (k, d))) :
    ∃ keyword word stray, BlockLine c.lineText k keyword word stray name := by
  unfold readDirective at h
  split at h
  · next x hx =>
    have hs : startsWord c x.1 = true := by simpa using List.find?_some hx
    exact blockLine_directives hk x (List.mem_of_find?_eq_some hx) hs (Option.some.inj h)
  · split at h
    · have hkind : (readComment indent c).1 = k :=
        congrArg Prod.fst (Except.ok.inj (Option.some.inj h))
      rw [← hkind] at hk
      cases hk
    · simp only [readTextLine] at h
      obtain ⟨_, -, h⟩ := bind_eq_ok.1 (Option.some.inj h)
      cases h
      cases hk
    · cases h

/-! ## Templates -/

theorem BlockLine.indent {line : List Char} {kind : TokenKind} {keyword : String × Option Position}
    {word : Option (String × Position)} {stray : List Char} {name : String}
    (h : BlockLine line kind keyword word stray name) {pre : List Char}
    (hpre : ∀ x ∈ pre, Text.isBlank x = true) :
    BlockLine (pre ++ line) kind keyword word stray name where
  keyword_mem := h.keyword_mem
  word_mem := h.word_mem
  kind_eq := h.kind_eq
  chars := by rw [List.filter_append, Text.filter_allBlank hpre, List.nil_append, h.chars]
  strays hne := by
    obtain ⟨w, hw, hinfix, hstray⟩ := h.strays hne
    exact ⟨w, hw, hinfix.trans (List.suffix_append pre line).isInfix, hstray⟩

theorem block?_of_isTail {k : TokenKind} (h : k.isTail = true) : k.block? = none := by
  cases k <;> first | rfl | cases h

theorem block?_of_layout {k : TokenKind} (h : k.isContent = false) : k.block? = none := by
  cases k <;> first | rfl | cases h

/-- Only the directive of a line is about a block, and it is behind the indentation. -/
theorem blockLine_readLine {text before : List Char} {t : Token} {body : List Token} {name : String}
    (hc : c.StartsLine text before) {indent : Nat}
    (h : readLine indent c.skipIndent = .ok (body, d)) (ht : t ∈ body)
    (hname : t.kind.block? = some name) :
    ∃ keyword word stray,
      BlockLine (lineAround text t.span.start) t.kind keyword word stray name := by
  rcases readLine_cases h with ⟨kind, hd, rfl⟩ | ⟨tag, e, ts, -, hhead, hts, rfl⟩
  · obtain rfl := List.mem_singleton.1 ht
    rw [kind_directiveToken] at hname ⊢
    have hstart : (directiveToken c.skipIndent kind d).span.start = c.skipIndent.pos := by
      cases kind <;> rfl
    obtain ⟨keyword, word, stray, hline⟩ := blockLine_readDirective hname hd
    rw [hstart, hc.lineAround_skipIndent]
    exact ⟨keyword, word, stray,
      hline.indent fun x hx => Text.isBlank_of_isIndent (List.mem_takeWhile_imp hx)⟩
  · obtain ⟨tag', parts, htokens, rfl⟩ := tagTokens_readLine hhead hts
    have hnone : t.kind.block? = none := by
      rcases List.mem_append.1 (List.mem_reverse.1 ht) with ht | ht
      · exact block?_of_isTail (htokens.parts t ht)
      · obtain rfl := List.mem_singleton.1 ht
        obtain ⟨_, _, _, hk⟩ := htokens.name
        rw [hk]
        rfl
    rw [hname] at hnone
    cases hnone

theorem Lined.blockLine {text : List Char} {first : Bool} {ts : List Token}
    (h : Lined text first ts) :
    ∀ t ∈ ts, ∀ name, t.kind.block? = some name → ∃ keyword word stray,
      BlockLine (lineAround text t.span.start) t.kind keyword word stray name := by
  have layout : ∀ {c : Cursor} {t : Token} {name : String}, t.LaidOut c →
    t.kind.block? ≠ some name := by
    intro c t name ht hname
    rw [block?_of_layout ht.kind] at hname
    cases hname
  induction h with
  | ends l => exact fun t ht name hname => absurd hname (layout (laidOut_endTokens l _ t ht))
  | line hc hlead hbody _ ih =>
    refine List.forall_mem_append.2 ⟨?_, List.forall_mem_append.2 ⟨?_, ih⟩⟩
    · exact fun t ht name hname => absurd hname (layout (laidOut_readLevels hlead t ht))
    · exact fun t ht name hname => blockLine_readLine hc hbody ht hname

/-- **Directives about blocks.** Blanks apart, the line of a token about a block is made of a
keyword, at most one word for a position, what directly follows that word and is in no name, and the
name of the block. The position is the one that the word says, or the keyword where there is
none. -/
theorem tokenize_block_lines (source : String) {ts : List Token} (h : tokenize source = .ok ts) :
    ∀ t ∈ ts, ∀ name, t.kind.block? = some name → ∃ keyword word stray,
      BlockLine (lineAround (Text.normalizeChars source.toList) t.span.start) t.kind keyword
        word stray
        name :=
  (lined_tokenize h).blockLine

/-- Each keyword, with words for a position and without, where a word may also be the name. -/
theorem tokenize_block_lines_page :
    let page :=
      "block after\n\tappend head \n\tprepend  a.b\nreplace before foot\nblock append c\nreplace d"
    let text := Text.normalizeChars page.toList
    ∃ ts, tokenize page = .ok ts ∧
      (∀ t ∈ ts, ∀ name, t.kind.block? = some name → ∃ keyword word stray,
        BlockLine (lineAround text t.span.start) t.kind keyword word stray name) ∧
      (ts.map (·.kind)).filter (·.block?.isSome) =
        [.block "after", .replace .after "head", .replace .before "a.b", .replace .before "foot",
          .replace .after "c", .replace .replace "d"] := by
  intro page text
  have hkinds : (tokenize page).toOption.map
      (fun ts => (ts.map (·.kind)).filter (·.block?.isSome)) =
        some [.block "after", .replace .after "head", .replace .before "a.b",
          .replace .before "foot", .replace .after "c", .replace .replace "d"] := by
    decide +kernel
  obtain ⟨ts, hts, hkinds⟩ := Option.map_eq_some_iff.1 hkinds
  replace hts := ok_of_toOption hts
  exact ⟨ts, hts, tokenize_block_lines page hts, hkinds⟩

/-- What follows a word for a position up to the next blank is lost. -/
theorem text_behind_position_lost :
    let source := "replace before.x title"
    let line := lineAround (Text.normalizeChars source.toList) 0
    (∃ ts, tokenize source = .ok ts ∧ ⟨.replace .before "title", 1, ⟨0, 22⟩⟩ ∈ ts) ∧
      ∀ keyword ∈ blockKeywords, ∀ word ∈ none :: positionWords.map some,
        line.filter (fun x => !Text.isBlank x) ≠
          keyword.1.toList ++ ((word.map Prod.fst).getD "").toList ++ "title".toList := by
  intro source line
  have hhead : (tokenize source).toOption.bind List.head? =
      some ⟨.replace .before "title", 1, ⟨0, 22⟩⟩ := by
    decide +kernel
  obtain ⟨ts, hts, hhead⟩ := Option.bind_eq_some_iff.1 hhead
  exact ⟨⟨ts, ok_of_toOption hts, List.mem_of_head? hhead⟩, by decide +kernel⟩

end Template

end Stencil
