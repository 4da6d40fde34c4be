import Stencil.Proofs.Template.Chars

/-! # The tokens of an outline

Printed lines are read back one by one, each led from the level of the line before to its own. What
comes out are the tokens of the outline: every line's own, with `indent` and `outdent` around what
is below it. -/

namespace Stencil.Template

def Outline.isFlat : Outline → Bool
  | ⟨_, below⟩ => below.isEmpty

mutual
def Outline.kinds (level : Nat) : Outline → List TokenKind
  | ⟨line, below⟩ => line.kinds ++
    if below.isEmpty then []
    else .indent (2 * (level + 1)) :: (kindsAll (level + 1) false below ++ [.outdent])
/-- The tokens of outlines side by side. Only after a flat one there is a token between them. -/
def kindsAll (level : Nat) (newline : Bool) : List Outline → List TokenKind
  | [] => []
  | o :: os =>
    (if newline then [.newline] else []) ++ (o.kinds level ++ kindsAll level o.isFlat os)
end

def lead (newline : Bool) (old new : Nat) : List TokenKind :=
  if old < new then [.indent (2 * new)]
  else if new < old then List.replicate (old - new) .outdent
  else if newline then [.newline] else []

def leveledKinds (newline : Bool) (old : Nat) : List (Nat × Line) → List TokenKind
  | [] => List.replicate old .outdent ++ [.eos]
  | (level, line) :: ls => lead newline old level ++ (line.kinds ++ leveledKinds true level ls)

def AtMost (level : Nat) (ls : List (Nat × Line)) : Prop :=
  ∀ l, ls.head? = some l → l.1 ≤ level

theorem atMost_nil {level : Nat} : AtMost level [] := by
  intro l h
  cases h

theorem leveledKinds_outdent {level : Nat} {more : List (Nat × Line)} (h : AtMost level more)
    (newline : Bool) :
    leveledKinds newline (level + 1) more = .outdent :: leveledKinds false level more := by
  cases more with
  | nil => rfl
  | cons l more =>
    obtain ⟨new, line⟩ := l
    have hn : new ≤ level := h _ rfl
    have h₁ : ¬ level + 1 < new := by omega
    have h₂ : new < level + 1 := by omega
    have h₃ : ¬ level < new := by omega
    have hs : level + 1 - new = (level - new) + 1 := by omega
    rw [leveledKinds, leveledKinds, lead, lead, if_neg h₁, if_pos h₂, if_neg h₃, hs]
    by_cases he : new < level
    · rw [if_pos he]
      rfl
    · have hz : level - new = 0 := by omega
      rw [if_neg he, hz]
      rfl

theorem leveledKinds_indent (newline : Bool) (level : Nat) (line : Line)
    (ls : List (Nat × Line)) :
    leveledKinds newline level ((level + 1, line) :: ls) =
      .indent (2 * (level + 1)) :: leveledKinds false (level + 1) ((level + 1, line) :: ls) := by
  simp [leveledKinds, lead]

theorem leveledKinds_same (newline : Bool) (level : Nat) (line : Line) (ls : List (Nat × Line)) :
    leveledKinds newline level ((level, line) :: ls) =
      (if newline then [.newline] else []) ++ (line.kinds ++ leveledKinds true level ls) := by
  simp [leveledKinds, lead]

def endsFlat (newline : Bool) : List Outline → Bool
  | [] => newline
  | o :: os => endsFlat o.isFlat os

theorem kindsAll_append (level : Nat) (newline : Bool) (os us : List Outline) :
    kindsAll level newline (os ++ us) =
      kindsAll level newline os ++ kindsAll level (endsFlat newline os) us := by
  induction os generalizing newline with
  | nil => rfl
  | cons o os ih =>
    rw [List.cons_append, kindsAll, kindsAll, endsFlat, ih, List.append_assoc, List.append_assoc]

theorem atMost_leveledAll {level : Nat} {os : List Outline} {more : List (Nat × Line)}
    (h : AtMost level more) : AtMost level (leveledAll level os ++ more) := by
  cases os with
  | nil =>
    rw [leveledAll]
    exact h
  | cons o os =>
    obtain ⟨line, below⟩ := o
    intro l hl
    simp only [leveledAll, Outline.leveled, List.cons_append, List.head?_cons,
      Option.some.injEq] at hl
    exact Nat.le_of_eq (congrArg Prod.fst hl).symm

mutual
theorem leveledKinds_outline (level : Nat) (newline : Bool) {more : List (Nat × Line)}
    (h : AtMost level more) : (o : Outline) →
    leveledKinds newline level (o.leveled level ++ more) =
      (if newline then [.newline] else []) ++
        (o.kinds level ++ leveledKinds o.isFlat level more)
  | ⟨line, []⟩ => by
    rw [Outline.leveled, leveledAll, List.cons_append, List.nil_append, leveledKinds_same,
      Outline.kinds]
    simp [Outline.isFlat]
  | ⟨line, o :: os⟩ => by
    have hmore : AtMost (level + 1) more := fun l hl => Nat.le_succ_of_le (h l hl)
    have hbelow := leveledKinds_all (level + 1) false hmore (o :: os)
    have hindent : ∀ ls, leveledKinds true level (leveledAll (level + 1) (o :: os) ++ ls) =
        .indent (2 * (level + 1)) ::
          leveledKinds false (level + 1) (leveledAll (level + 1) (o :: os) ++ ls) := by
      intro ls
      obtain ⟨l, b⟩ := o
      rw [leveledAll, Outline.leveled]
      exact leveledKinds_indent true level l _
    rw [Outline.leveled, List.cons_append, leveledKinds_same, hindent, hbelow,
      leveledKinds_outdent h, Outline.kinds]
    simp [Outline.isFlat]
/-- Read off line by line or along the outline, the tokens are the same. -/
theorem leveledKinds_all (level : Nat) (newline : Bool) {more : List (Nat × Line)}
    (h : AtMost level more) : (os : List Outline) →
    leveledKinds newline level (leveledAll level os ++ more) =
      kindsAll level newline os ++ leveledKinds (endsFlat newline os) level more
  | [] => by
    rw [leveledAll, kindsAll, endsFlat]
    rfl
  | o :: os => by
    have hrest := leveledKinds_all level o.isFlat h os
    rw [leveledAll, List.append_assoc,
      leveledKinds_outline level newline (atMost_leveledAll h) o, hrest, kindsAll, endsFlat]
    cases newline <;> simp
end

/-! ## Reading lines -/

def Line.isComment : Line → Bool
  | .comment _ _ => true
  | _ => false

def NotDeeper (width : Nat) (cs : List Char) : Prop :=
  cs = [] ∨ ∃ w x rest, cs = List.replicate w ' ' ++ x :: rest ∧ w ≤ width ∧ Text.isBlank x = false

/-- A line whose text gives its tokens, up to the end of the line. Only a comment looks at what
comes after that. -/
structure Line.Reads (l : Line) : Prop where
  starts : ∃ x xs, l.chars = x :: xs ∧ startsLine x = true
  reads : ∀ (indent : Nat) (c : Cursor) (rest : List Char), c.rest = l.chars ++ '\n' :: rest →
    (l.isComment = true → NotDeeper indent rest) →
    ∃ ts d, readLine indent c = .ok (ts, d) ∧ ts.map (·.kind) = l.kinds ∧ d.rest = '\n' :: rest

/-- Lines that go down one level at a time, with nothing below a comment. -/
def Stepwise (old : Nat) : List (Nat × Line) → Prop
  | [] => True
  | (level, line) :: ls =>
    level ≤ old + 1 ∧ (line.isComment = true → AtMost level ls) ∧ Stepwise level ls

def levelsOf : Nat → List Nat
  | 0 => []
  | n + 1 => 2 * (n + 1) :: levelsOf n

theorem headD_levelsOf (n : Nat) : (levelsOf n).headD 0 = 2 * n := by
  cases n <;> rfl

theorem takeWhile_levelsOf {m n : Nat} (h : m ≤ n) :
    ((levelsOf n).takeWhile (2 * m < ·)).length = n - m ∧
      (levelsOf n).dropWhile (2 * m < ·) = levelsOf m := by
  induction n with
  | zero =>
    obtain rfl : m = 0 := by omega
    exact ⟨rfl, rfl⟩
  | succ n ih =>
    by_cases hm : m = n + 1
    · subst hm
      have hlt : ¬ 2 * (n + 1) < 2 * (n + 1) := by omega
      simp [levelsOf]
    · have hlt : 2 * m < 2 * (n + 1) := by omega
      obtain ⟨h₁, h₂⟩ := ih (by omega)
      refine ⟨?_, ?_⟩
      · rw [levelsOf, List.takeWhile_cons_of_pos (by simpa using hlt), List.length_cons, h₁]
        omega
      · rw [levelsOf, List.dropWhile_cons_of_pos (by simpa using hlt), h₂]

theorem indentation {w : Nat} {x : Char} {rest : List Char} (hx : Text.isBlank x = false) :
    (List.replicate w ' ' ++ x :: rest).takeWhile Text.isIndent = List.replicate w ' ' ∧
      (List.replicate w ' ' ++ x :: rest).dropWhile Text.isIndent = x :: rest := by
  have hrun : ∀ c ∈ List.replicate w ' ', Text.isIndent c = true := by
    intro c hc
    rw [List.eq_of_mem_replicate hc]
    decide
  have hstop : Stops Text.isIndent (x :: rest) := stops_cons (not_indent_of_not_blank hx)
  exact ⟨takeWhile_run hrun hstop, dropWhile_run hrun hstop⟩

theorem skipBlankLines_text {c : Cursor} {x : Char} {rest : List Char}
    (hrest : c.skipIndent.rest = x :: rest) (hx : x ≠ '\n') : skipBlankLines c = c := by
  rw [skipBlankLines]
  split
  · next h =>
    rw [hrest, List.cons.injEq] at h
    exact absurd h.1 hx
  · next h =>
    rw [hrest] at h
    cases h
  · rfl

theorem skipBlankLines_end {c : Cursor} (hrest : c.skipIndent.rest = []) :
    skipBlankLines c = c.skipIndent := by
  rw [skipBlankLines]
  split
  · next h => rw [hrest] at h; cases h
  · rfl
  · next h => exact absurd hrest (h ·)

theorem skipBlankLines_line {c : Cursor} {w : Nat} {x : Char} {rest : List Char}
    (hc : c.rest = List.replicate w ' ' ++ x :: rest) (hx : Text.isBlank x = false) :
    skipBlankLines c = c := by
  have hrest : c.skipIndent.rest = x :: rest := by
    rw [c.rest_skipIndent, hc]
    exact (indentation hx).2
  exact skipBlankLines_text hrest (ne_newline_of_not_blank hx).1

theorem readLevels_line {old level : Nat} {char : Option Char} {c : Cursor} {x : Char}
    {rest : List Char} (first : Bool) (hchar : char = none ∨ char = some ' ')
    (hc : c.rest = List.replicate (2 * level) ' ' ++ x :: rest) (hx : Text.isBlank x = false)
    (hl : level ≤ old + 1) :
    ∃ ts char', readLevels ⟨levelsOf old, char⟩ first c = .ok (ts, ⟨levelsOf level, char'⟩) ∧
      (char' = none ∨ char' = some ' ') ∧ ts.map (·.kind) = lead (!first) old level := by
  have hblank : c.rest.takeWhile Text.isIndent = List.replicate (2 * level) ' ' := by
    rw [hc]
    exact (indentation hx).1
  have hwidth : indentWidth c.rest = 2 * level := by
    rw [indentWidth, hblank, List.length_replicate]
  have hcheck : ∃ char', checkIndent char c = .ok char' ∧ (char' = none ∨ char' = some ' ') := by
    unfold checkIndent
    rw [hblank]
    cases hw : 2 * level with
    | zero => exact ⟨char, rfl, hchar⟩
    | succ n =>
      refine ⟨some ' ', ?_, .inr rfl⟩
      rcases hchar with rfl | rfl
      · simp [List.replicate_succ]
      · simp [List.replicate_succ]
  obtain ⟨char', hok, hchar'⟩ := hcheck
  unfold readLevels
  simp only [hok, hwidth, Levels.top, headD_levelsOf, bind, Except.bind, pure, Except.pure]
  by_cases hlt : old < level
  · obtain rfl : level = old + 1 := by omega
    have h₁ : 2 * old < 2 * (old + 1) := by omega
    rw [if_pos h₁]
    refine ⟨_, char', rfl, hchar', ?_⟩
    simp [lead]
  · have h₁ : ¬ 2 * old < 2 * level := by omega
    rw [if_neg h₁]
    by_cases hgt : level < old
    · have h₂ : 2 * level < 2 * old := by omega
      obtain ⟨hclosed, hopen⟩ := takeWhile_levelsOf (Nat.le_of_lt hgt)
      rw [if_pos h₂, hopen, headD_levelsOf]
      simp only [bne_self_eq_false, Bool.false_eq_true, if_false]
      refine ⟨_, char', rfl, hchar', ?_⟩
      rw [lead, if_neg hlt, if_pos hgt, ← hclosed, List.map_map]
      exact List.map_const' ..
    · obtain rfl : old = level := by omega
      rw [if_neg (Nat.lt_irrefl _)]
      refine ⟨_, char', rfl, hchar', ?_⟩
      rw [lead, if_neg hlt, if_neg hgt]
      cases first <;> rfl

theorem map_kind_endTokens (old : Nat) (char : Option Char) (c : Cursor) :
    (endTokens ⟨levelsOf old, char⟩ c).map (·.kind) =
      List.replicate old TokenKind.outdent ++ [TokenKind.eos] := by
  have hlen : (levelsOf old).length = old := by
    induction old with
    | zero => rfl
    | succ n ih => rw [levelsOf, List.length_cons, ih]
  unfold endTokens
  rw [List.map_append, List.map_map]
  refine congrArg (· ++ [TokenKind.eos]) ?_
  calc (levelsOf old).map _ = List.replicate (levelsOf old).length TokenKind.outdent :=
        List.map_const' ..
    _ = List.replicate old TokenKind.outdent := by rw [hlen]

theorem notDeeper_linesChars {level : Nat} {ls : List (Nat × Line)} (h : AtMost level ls)
    (hr : ∀ l ∈ ls, l.2.Reads) : NotDeeper (2 * level) (linesChars ls) := by
  cases ls with
  | nil => exact .inl rfl
  | cons l ls =>
    obtain ⟨new, line⟩ := l
    obtain ⟨x, xs, hl, hx⟩ := (hr _ (List.mem_cons_self ..)).starts
    replace hx := not_blank_of_startsLine hx
    have hn : new ≤ level := h _ rfl
    refine .inr ⟨2 * new, x, xs ++ '\n' :: linesChars ls, ?_, by omega, hx⟩
    rw [linesChars, hl]
    rfl

theorem readLines_end {l : Levels} {first : Bool} {c : Cursor} (h : (skipBlankLines c).rest = []) :
    readLines l first c = .ok (endTokens l (skipBlankLines c)) := by
  rw [readLines]
  exact if_pos (by rw [h]; rfl)

theorem readLines_step {l l' : Levels} {first : Bool} {c e : Cursor} {lead body : List Token}
    {rest : List Char} (hne : (skipBlankLines c).rest ≠ [])
    (hl : readLevels l first (skipBlankLines c) = .ok (lead, l'))
    (hb : readLine (indentWidth (skipBlankLines c).rest) (skipBlankLines c).skipIndent =
      .ok (body, e)) (he : e.rest = '\n' :: rest) :
    readLines l first c =
      (readLines l' false (e.advance 1)).map fun more => lead ++ body ++ more := by
  rw [readLines]
  dsimp only
  rw [if_neg (by simpa using hne), hl]
  dsimp only
  split
  · next h => rw [hb] at h; cases h
  · next h =>
    rw [hb] at h
    obtain ⟨rfl, rfl⟩ := Prod.mk.inj (Except.ok.inj h)
    split
    · next h => rw [he] at h; cases h
    · rfl
    · next h => exact (h _ he).elim

/-- Lines that are read one by one are read together. -/
theorem readLines_leveled {ls : List (Nat × Line)} (hr : ∀ l ∈ ls, l.2.Reads) (first : Bool)
    {old : Nat} {char : Option Char} {c : Cursor} (hs : Stepwise old ls)
    (hchar : char = none ∨ char = some ' ') (hc : c.rest = linesChars ls) :
    ∃ ts, readLines ⟨levelsOf old, char⟩ first c = .ok ts ∧
      ts.map (·.kind) = leveledKinds (!first) old ls := by
  induction ls generalizing old first char c with
  | nil =>
    rw [linesChars] at hc
    have hrest : c.skipIndent.rest = [] := by
      rw [c.rest_skipIndent, hc]
      rfl
    have hskip := skipBlankLines_end hrest
    refine ⟨endTokens ⟨levelsOf old, char⟩ c.skipIndent, ?_, map_kind_endTokens ..⟩
    rw [readLines_end (by rw [hskip, hrest]), hskip]
  | cons l ls ih =>
    obtain ⟨level, line⟩ := l
    obtain ⟨hl, hcomment, hs⟩ := hs
    have hline := hr _ (List.mem_cons_self ..)
    have hls : ∀ l ∈ ls, l.2.Reads := fun l h => hr l (List.mem_cons_of_mem _ h)
    obtain ⟨x, xs, hx, hb⟩ := hline.starts
    replace hb := not_blank_of_startsLine hb
    rw [linesChars] at hc
    have hc' : c.rest = List.replicate (2 * level) ' ' ++ x :: (xs ++ '\n' :: linesChars ls) := by
      rw [hc, hx]
      rfl
    have hskip : skipBlankLines c = c := skipBlankLines_line hc' hb
    obtain ⟨lead, char', hlevels, hchar', hkinds⟩ := readLevels_line first hchar hc' hb hl
    have hwidth : indentWidth c.rest = 2 * level := by
      rw [indentWidth, hc', (indentation hb).1, List.length_replicate]
    have hrest : c.skipIndent.rest = line.chars ++ '\n' :: linesChars ls := by
      rw [c.rest_skipIndent, hc', (indentation hb).2, hx]
      rfl
    obtain ⟨ts, d, hread, hts, hd⟩ := hline.reads (2 * level) c.skipIndent (linesChars ls) hrest
      fun h => notDeeper_linesChars (hcomment h) hls
    have hnext : (d.advance 1).rest = linesChars ls := by
      rw [d.rest_advance, hd]
      rfl
    obtain ⟨more, hmore, hmores⟩ := ih hls false hs hchar' hnext
    refine ⟨lead ++ ts ++ more, ?_, ?_⟩
    · have hne : (skipBlankLines c).rest ≠ [] := by
        rw [hskip, hc']
        simp
      rw [readLines_step hne (by rw [hskip]; exact hlevels)
        (by rw [hskip, hwidth]; exact hread) hd, hmore]
      rfl
    · rw [List.map_append, List.map_append, hkinds, hts, hmores, leveledKinds, List.append_assoc]
      rfl

end Stencil.Template
