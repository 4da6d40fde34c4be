import Stencil.Proofs.Template.OwnLine
import Stencil.Proofs.Template.Outline

/-! # Lines in two indentations

A template with its lines indented in two ways, whose widths are ordered alike. The levels that the
lines open and close are the same, so the tokens are, up to their places. -/

namespace Stencil.Template

/-- A line of a template in two indentations: its text, and what stands in front of it in each. A
blank line has no text. -/
structure Row where
  text : List Char
  left : List Char
  right : List Char
  deriving DecidableEq, Repr

def laidBelow (side : Row → List Char) (rows : List Row) : List Char :=
  rows.flatMap fun r => '\n' :: (side r ++ r.text)

def laid (side : Row → List Char) : List Row → List Char
  | [] => []
  | r :: rows => side r ++ (r.text ++ laidBelow side rows)

/-- The text of a line that is not blank: it is not indented further, is no comment, and keeps to
itself. -/
structure OwnText (text : List Char) : Prop where
  isLine : IsLine text
  start : Stops Text.isIndent text
  noComment : ¬ ['/', '/'] <+: text
  own : ownLine text = true

/-- A row of a template that is indented by `x` and by `y`, to widths among the pairs `W`. -/
structure Row.Fits (W : List (Nat × Nat)) (x y : Char) (r : Row) : Prop where
  left : ∀ c ∈ r.left, Text.isIndent c = true
  right : ∀ c ∈ r.right, Text.isIndent c = true
  text : r.text ≠ [] → OwnText r.text
  units : r.text ≠ [] → (∀ c ∈ r.left, c = x) ∧ ∀ c ∈ r.right, c = y
  widths : r.text ≠ [] → (r.left.length, r.right.length) ∈ W

/-! ## What stands below a line -/

theorem laidBelow_cons (side : Row → List Char) (r : Row) (rows : List Row) :
    laidBelow side (r :: rows) = '\n' :: (side r ++ (r.text ++ laidBelow side rows)) := by
  simp [laidBelow]

theorem stops_laidBelow (side : Row → List Char) (rows : List Row) :
    Stops (· != '\n') (laidBelow side rows) := by
  cases rows with
  | nil => exact stops_nil
  | cons r rows => exact stops_cons (by decide)

theorem isEmpty_laidBelow (side : Row → List Char) (rows : List Row) :
    (laidBelow side rows).isEmpty = rows.isEmpty := by
  cases rows <;> rfl

theorem allBlank_laidBelow {side : Row → List Char} {rows : List Row}
    (h : ∀ r ∈ rows, ∀ c ∈ side r, Text.isIndent c = true) :
    Text.allBlank (laidBelow side rows) = rows.all fun r => Text.allBlank r.text := by
  induction rows with
  | nil => rfl
  | cons r rows ih =>
    obtain ⟨hr, hrows⟩ := List.forall_mem_cons.1 h
    have hside : (side r).all Text.isBlank = true :=
      List.all_eq_true.2 fun c hc => Text.isBlank_of_isIndent (hr c hc)
    have hnext := ih hrows
    simp only [Text.allBlank] at hnext
    have hbreak : Text.isBlank '\n' = true := by decide
    simp only [laidBelow, List.flatMap_cons, Text.allBlank, List.cons_append, List.all_cons,
      List.all_append, hbreak, hside, Bool.true_and]
    rw [← hnext]
    rfl

section

variable {W : List (Nat × Nat)} {x y : Char}

theorem below_laidBelow {rows : List Row} (h : ∀ r ∈ rows, r.Fits W x y) :
    Below (laidBelow Row.left rows) (laidBelow Row.right rows) := by
  refine ⟨stops_laidBelow _ _, stops_laidBelow _ _, ?_, ?_⟩
  · rw [isEmpty_laidBelow, isEmpty_laidBelow]
  · rw [allBlank_laidBelow fun r hr => (h r hr).left,
      allBlank_laidBelow fun r hr => (h r hr).right]

/-! ## Levels -/

structure LevelsAlike (W : List (Nat × Nat)) (x y : Char) (l l' : Levels) : Prop where
  stack : ∃ ps : List (Nat × Nat), (∀ p ∈ ps, p ∈ W) ∧ l.stack = ps.map Prod.fst ∧
    l'.stack = ps.map Prod.snd
  left : l.char = none ∨ l.char = some x
  right : l'.char = none ∨ l'.char = some y

def OrderedAlike (W : List (Nat × Nat)) : Prop :=
  (0, 0) ∈ W ∧ ∀ p ∈ W, ∀ q ∈ W, (p.1 < q.1 ↔ p.2 < q.2)

theorem OrderedAlike.eq_iff (h : OrderedAlike W) {p q : Nat × Nat} (hp : p ∈ W) (hq : q ∈ W) :
    p.1 = q.1 ↔ p.2 = q.2 := by
  have hlt := h.2 p hp q hq
  have hgt := h.2 q hq p hp
  omega

theorem headD_map {α β : Type} (f : α → β) (a : α) (as : List α) :
    (as.map f).headD (f a) = f (as.headD a) := by
  cases as <;> rfl

theorem headD_mem {α : Type} {a : α} {as W : List α} (ha : a ∈ W) (has : ∀ b ∈ as, b ∈ W) :
    as.headD a ∈ W := by
  cases as with
  | nil => exact ha
  | cons b as => exact has b (List.mem_cons_self ..)

/-- A line closes the same levels on both sides. -/
theorem OrderedAlike.split (h : OrderedAlike W) {w : Nat × Nat} (hw : w ∈ W)
    {ps : List (Nat × Nat)} (hps : ∀ p ∈ ps, p ∈ W) :
    ∃ closed left, ps = closed ++ left ∧
      (ps.map Prod.fst).takeWhile (w.1 < ·) = closed.map Prod.fst ∧
      (ps.map Prod.fst).dropWhile (w.1 < ·) = left.map Prod.fst ∧
      (ps.map Prod.snd).takeWhile (w.2 < ·) = closed.map Prod.snd ∧
      (ps.map Prod.snd).dropWhile (w.2 < ·) = left.map Prod.snd := by
  induction ps with
  | nil => exact ⟨[], [], rfl, rfl, rfl, rfl, rfl⟩
  | cons p ps ih =>
    obtain ⟨hp, hps⟩ := List.forall_mem_cons.1 hps
    have hiff := h.2 w hw p hp
    by_cases hlt : w.1 < p.1
    · obtain ⟨closed, left, hsplit, h₁, h₂, h₃, h₄⟩ := ih hps
      have hlt' := hiff.1 hlt
      refine ⟨p :: closed, left, congrArg (p :: ·) hsplit, ?_⟩
      simp [hlt, hlt', h₁, h₂, h₃, h₄]
    · have hlt' := mt hiff.2 hlt
      refine ⟨[], p :: ps, rfl, ?_⟩
      simp [hlt, hlt']

theorem checkIndent_unit {char : Option Char} {c : Cursor} (hchar : char = none ∨ char = some x)
    (h : ∀ b ∈ c.rest.takeWhile Text.isIndent, b = x) :
    ∃ char', checkIndent char c = .ok char' ∧ (char' = none ∨ char' = some x) := by
  unfold checkIndent
  dsimp only
  split
  · exact ⟨char, rfl, hchar⟩
  · next b bs hblank =>
    rw [hblank] at h
    obtain ⟨rfl, hbs⟩ := List.forall_mem_cons.1 h
    have hsame : bs.any (· != b) = false := by simpa using hbs
    have hold : char.any (· != b) = false := by
      rcases hchar with rfl | rfl <;> simp
    rw [hsame, hold]
    exact ⟨some b, rfl, .inr rfl⟩

theorem indentation_row {s text t : List Char} (hs : ∀ c ∈ s, Text.isIndent c = true)
    (ht : Stops Text.isIndent text) (hne : text ≠ []) :
    (s ++ (text ++ t)).takeWhile Text.isIndent = s ∧
      (s ++ (text ++ t)).dropWhile Text.isIndent = text ++ t := by
  have hstop : Stops Text.isIndent (text ++ t) := by
    cases text with
    | nil => exact absurd rfl hne
    | cons c text => exact stops_cons (ht c rfl)
  exact ⟨takeWhile_run hs hstop, dropWhile_run hs hstop⟩

/-- The tokens that lead to a line are the same, and so are the levels it leaves open. -/
theorem readLevels_alike (hW : OrderedAlike W) {r : Row} (hr : r.Fits W x y) (hne : r.text ≠ [])
    {l l' : Levels} (hl : LevelsAlike W x y l l') (first : Bool) {c d : Cursor} {t t' : List Char}
    (hline : c.line = d.line) (hc : c.rest = r.left ++ (r.text ++ t))
    (hd : d.rest = r.right ++ (r.text ++ t')) :
    Alike (fun a b => SameTokens a.1 b.1 ∧ LevelsAlike W x y a.2 b.2)
      (readLevels l first c) (readLevels l' first d) := by
  have hstart := (hr.text hne).start
  have hleft := (indentation_row (t := t) hr.left hstart hne).1
  have hright := (indentation_row (t := t') hr.right hstart hne).1
  rw [← hc] at hleft
  rw [← hd] at hright
  obtain ⟨char, hcheck, hchar⟩ := checkIndent_unit hl.left (by rw [hleft]; exact (hr.units hne).1)
  obtain ⟨char', hcheck', hchar'⟩ :=
    checkIndent_unit hl.right (by rw [hright]; exact (hr.units hne).2)
  obtain ⟨ps, hps, hs, hs'⟩ := hl.stack
  have hw := hr.widths hne
  have htop := headD_mem hW.1 hps
  have h₁ : l.top = (ps.headD (0, 0)).1 := by
    rw [Levels.top, hs]
    exact headD_map Prod.fst (0, 0) ps
  have h₂ : l'.top = (ps.headD (0, 0)).2 := by
    rw [Levels.top, hs']
    exact headD_map Prod.snd (0, 0) ps
  have hup := hW.2 _ htop _ hw
  have hdown := hW.2 _ hw _ htop
  unfold readLevels
  rw [hcheck, hcheck', indentWidth, indentWidth, hleft, hright, h₁, h₂]
  dsimp only [bind, Except.bind]
  by_cases hdeeper : (ps.headD (0, 0)).1 < r.left.length
  · rw [if_pos hdeeper, if_pos (hup.1 hdeeper)]
    refine .ok ⟨?_, ⟨_ :: ps, List.forall_mem_cons.2 ⟨hw, hps⟩, ?_, ?_⟩, hchar, hchar'⟩
    · exact SameTokens.cons (by rw [Token.bare, Token.bare, hline]; rfl) rfl
    · rw [hs]; rfl
    · rw [hs']; rfl
  · rw [if_neg hdeeper, if_neg (mt hup.2 hdeeper)]
    by_cases hless : r.left.length < (ps.headD (0, 0)).1
    · rw [if_pos hless, if_pos (hdown.1 hless)]
      obtain ⟨closed, left, hsplit, hclosed, hopen, hclosed', hopen'⟩ := hW.split hw hps
      have hkept : ∀ p ∈ left, p ∈ W := fun p hp => hps p (hsplit ▸ List.mem_append_right _ hp)
      have hlast := hW.eq_iff (headD_mem hW.1 hkept) hw
      have h₃ : (left.map Prod.fst).headD 0 = (left.headD (0, 0)).1 :=
        headD_map Prod.fst (0, 0) left
      have h₄ : (left.map Prod.snd).headD 0 = (left.headD (0, 0)).2 :=
        headD_map Prod.snd (0, 0) left
      rw [hs, hs', hclosed, hclosed', hopen, hopen', h₃, h₄]
      by_cases heven : (left.headD (0, 0)).1 = r.left.length
      · rw [if_neg (by simpa using heven), if_neg (by simpa using hlast.1 heven)]
        refine .ok ⟨?_, ⟨left, hkept, rfl, rfl⟩, hchar, hchar'⟩
        rw [SameTokens, List.map_map, List.map_map, List.map_map, List.map_map, hline]
        rfl
      · rw [if_pos (by simpa using heven), if_pos (by simpa using mt hlast.2 heven)]
        exact .error rfl (congrArg some hline)
    · rw [if_neg hless, if_neg (mt hdown.2 hless)]
      refine .ok ⟨?_, ⟨ps, hps, hs, hs'⟩, hchar, hchar'⟩
      cases first with
      | true => rfl
      | false => exact SameTokens.cons (by rw [Token.bare, Token.bare, hline]) rfl

/-! ## Reading rows -/

def readOn (l : Levels) (ts : List Token) (e : Cursor) : Result (List Token) :=
  match e.rest with
  | [] => .ok (ts ++ endTokens l e)
  | '\n' :: _ => (readLines l false (e.advance 1)).map fun more => ts ++ more
  | _ => .error (strayText e)

def readFrom (l : Levels) (first : Bool) (d : Cursor) : Result (List Token) :=
  if d.rest.isEmpty then .ok (endTokens l d)
  else readLevels l first d >>= fun (lead, l') =>
    readLine (indentWidth d.rest) d.skipIndent >>= fun (body, e) => readOn l' (lead ++ body) e

theorem readLines_eq (l : Levels) (first : Bool) (c : Cursor) :
    readLines l first c = readFrom l first (skipBlankLines c) := by
  rw [readLines, readFrom]
  dsimp only
  split
  · rfl
  · cases readLevels l first (skipBlankLines c) with
    | error e => rfl
    | ok p =>
      dsimp only [bind, Except.bind]
      split
      · next he => rw [he]
      · next he =>
        simp only [he, readOn]
        split
        · next hr => simp only [hr]
        · next hr => simp only [hr]
        · next hnil hline =>
          split
          · next hr => exact (hnil hr).elim
          · next hr => exact (hline _ hr).elim
          · rfl

theorem line_skipIndent (c : Cursor) : c.skipIndent.line = c.line := by
  have hnone : Cursor.newlines (c.rest.takeWhile Text.isIndent) = 0 := by
    refine List.count_eq_zero.2 fun hm => ?_
    exact absurd (List.mem_takeWhile_imp hm) (by decide)
  have htake : c.rest.take (c.rest.takeWhile Text.isIndent).length =
      c.rest.takeWhile Text.isIndent :=
    (List.prefix_iff_eq_take.1 (List.takeWhile_prefix _)).symm
  unfold Cursor.skipIndent Cursor.skipWhile Cursor.advance
  dsimp only
  rw [htake, hnone, Nat.add_zero]

theorem advance_break {c : Cursor} {t : List Char} (h : c.rest = '\n' :: t) :
    (c.advance 1).line = c.line + 1 ∧ (c.advance 1).rest = t := by
  unfold Cursor.advance
  rw [h]
  exact ⟨rfl, rfl⟩

theorem sameTokens_endTokens {l l' : Levels} (hl : LevelsAlike W x y l l') {c d : Cursor}
    (hline : c.line = d.line) : SameTokens (endTokens l c) (endTokens l' d) := by
  obtain ⟨ps, -, hs, hs'⟩ := hl.stack
  unfold endTokens
  refine SameTokens.append ?_ (SameTokens.cons (by rw [Token.bare, Token.bare, hline]) rfl)
  rw [SameTokens, hs, hs', List.map_map, List.map_map, List.map_map, List.map_map, hline]
  rfl

theorem skipBlankLines_row {c : Cursor} {s text t : List Char} (hc : c.rest = s ++ (text ++ t))
    (hs : ∀ b ∈ s, Text.isIndent b = true) (ht : OwnText text) (hne : text ≠ []) :
    skipBlankLines c = c := by
  have hrest : c.skipIndent.rest = text ++ t := by
    rw [c.rest_skipIndent, hc]
    exact (indentation_row hs ht.start hne).2
  cases htext : text with
  | nil => exact absurd htext hne
  | cons b more =>
    rw [htext, List.cons_append] at hrest
    exact skipBlankLines_text hrest (ht.isLine b (htext ▸ List.mem_cons_self ..)).1

theorem skipBlankLines_blank {c : Cursor} {s : List Char} {t : List Char}
    (hc : c.rest = s ++ '\n' :: t) (hs : ∀ b ∈ s, Text.isIndent b = true) :
    skipBlankLines c = skipBlankLines (c.skipIndent.advance 1) := by
  have hrest : c.skipIndent.rest = '\n' :: t := by
    rw [c.rest_skipIndent, hc]
    exact dropWhile_run hs (stops_cons (by decide))
  conv_lhs => rw [skipBlankLines]
  split
  · rfl
  · next h => rw [hrest] at h; cases h
  · next h _ => exact (h _ hrest).elim

/-- One row that is not blank, if what is below it is read alike. -/
theorem readRow_alike (hW : OrderedAlike W) {rows : List Row} {r : Row} (hr : r.Fits W x y)
    (hrows : ∀ q ∈ rows, q.Fits W x y) (hne : r.text ≠ []) {l l' : Levels}
    (hl : LevelsAlike W x y l l') (first : Bool) {c d : Cursor} (hline : c.line = d.line)
    (hc : c.rest = r.left ++ (r.text ++ laidBelow Row.left rows))
    (hd : d.rest = r.right ++ (r.text ++ laidBelow Row.right rows))
    (hon : ∀ {m m' ts us e f}, LevelsAlike W x y m m' → SameTokens ts us →
      Along [] (laidBelow Row.left rows) (laidBelow Row.right rows) e f →
      Alike SameTokens (readOn m ts e) (readOn m' us f)) :
    Alike SameTokens (readLines l first c) (readLines l' first d) := by
  have htext := hr.text hne
  rw [readLines_eq, readLines_eq, skipBlankLines_row hc hr.left htext hne,
    skipBlankLines_row hd hr.right htext hne, readFrom, readFrom, if_neg (by rw [hc]; simp [hne]),
    if_neg (by rw [hd]; simp [hne])]
  refine (readLevels_alike hW hr hne hl first hline hc hd).bind ?_
  rintro ⟨lead, m⟩ ⟨lead', m'⟩ ⟨hlead, hm⟩
  have halong : Along r.text (laidBelow Row.left rows) (laidBelow Row.right rows) c.skipIndent
      d.skipIndent := by
    refine ⟨?_, fun h => (htext.isLine _ h).1 rfl, ?_, ?_⟩
    · rw [line_skipIndent, line_skipIndent, hline]
    · rw [Cursor.rest_skipIndent, hc]
      exact (indentation_row hr.left htext.start hne).2
    · rw [Cursor.rest_skipIndent, hd]
      exact (indentation_row hr.right htext.start hne).2
  refine (readLine_alike (below_laidBelow hrows) halong hne htext.own htext.noComment _ _).bind ?_
  rintro ⟨body, e⟩ ⟨body', f⟩ ⟨hbody, hnext⟩
  exact hon hm (hlead.append hbody) hnext

theorem readLines_alike (hW : OrderedAlike W) {rows : List Row} {r : Row} (hr : r.Fits W x y)
    (hrows : ∀ q ∈ rows, q.Fits W x y) {l l' : Levels} (hl : LevelsAlike W x y l l')
    (first : Bool) {c d : Cursor} (hline : c.line = d.line)
    (hc : c.rest = r.left ++ (r.text ++ laidBelow Row.left rows))
    (hd : d.rest = r.right ++ (r.text ++ laidBelow Row.right rows)) :
    Alike SameTokens (readLines l first c) (readLines l' first d) := by
  induction rows generalizing r l l' first c d with
  | nil =>
    by_cases hne : r.text = []
    · have hleft : c.skipIndent.rest = [] := by
        rw [c.rest_skipIndent, hc, hne, List.dropWhile_eq_nil_iff]
        simpa [laidBelow] using hr.left
      have hright : d.skipIndent.rest = [] := by
        rw [d.rest_skipIndent, hd, hne, List.dropWhile_eq_nil_iff]
        simpa [laidBelow] using hr.right
      have hskip := skipBlankLines_end hleft
      have hskip' := skipBlankLines_end hright
      rw [readLines_end (by rw [hskip, hleft]), readLines_end (by rw [hskip', hright]), hskip,
        hskip']
      refine .ok (sameTokens_endTokens hl ?_)
      rw [line_skipIndent, line_skipIndent, hline]
    · refine readRow_alike hW hr hrows hne hl first hline hc hd ?_
      intro m m' ts us e f hm hts hend
      rw [readOn, readOn, hend.left, hend.right]
      exact .ok (hts.append (sameTokens_endTokens hm hend.line))
  | cons q rows ih =>
    obtain ⟨hq, hrows'⟩ := List.forall_mem_cons.1 hrows
    rw [laidBelow_cons] at hc hd
    by_cases hne : r.text = []
    · rw [hne, List.nil_append] at hc hd
      have hleft : c.skipIndent.rest = '\n' :: (q.left ++ (q.text ++ laidBelow Row.left rows)) := by
        rw [c.rest_skipIndent, hc]
        exact dropWhile_run hr.left (stops_cons (by decide))
      have hright : d.skipIndent.rest =
          '\n' :: (q.right ++ (q.text ++ laidBelow Row.right rows)) := by
        rw [d.rest_skipIndent, hd]
        exact dropWhile_run hr.right (stops_cons (by decide))
      obtain ⟨hl₁, hc₁⟩ := advance_break hleft
      obtain ⟨hl₂, hd₁⟩ := advance_break hright
      rw [readLines_eq, readLines_eq, skipBlankLines_blank hc hr.left,
        skipBlankLines_blank hd hr.right, ← readLines_eq, ← readLines_eq]
      refine ih hq hrows' hl first ?_ hc₁ hd₁
      rw [hl₁, hl₂, line_skipIndent, line_skipIndent, hline]
    · rw [← laidBelow_cons] at hc hd
      refine readRow_alike hW hr hrows hne hl first hline hc hd ?_
      intro m m' ts us e f hm hts hend
      have he := hend.left
      have hf := hend.right
      rw [List.nil_append, laidBelow_cons] at he hf
      obtain ⟨hl₁, hc₁⟩ := advance_break he
      obtain ⟨hl₂, hd₁⟩ := advance_break hf
      rw [readOn, readOn, he, hf]
      refine (ih hq hrows' hm false (by rw [hl₁, hl₂, hend.line]) hc₁ hd₁).map ?_
      intro more more' hmore
      exact hts.append hmore

end

/-! ## Two indentations of a template -/

/-- Rows that are indented in two ways. On each side, what is in front of the texts is all of one
character; the widths of any two lines compare alike on both sides, and the same lines are not
indented at all. A blank line may hold tabs and spaces in any order. -/
structure Relaid (rows : List Row) : Prop where
  texts : ∀ r ∈ rows, r.text ≠ [] → OwnText r.text
  blanks : ∀ r ∈ rows, r.text = [] →
    (∀ c ∈ r.left, Text.isIndent c = true) ∧ ∀ c ∈ r.right, Text.isIndent c = true
  units : ∃ x y, Text.isIndent x = true ∧ Text.isIndent y = true ∧
    ∀ r ∈ rows, r.text ≠ [] → (∀ c ∈ r.left, c = x) ∧ ∀ c ∈ r.right, c = y
  order : ∀ r ∈ rows, ∀ q ∈ rows, r.text ≠ [] → q.text ≠ [] →
    (r.left.length < q.left.length ↔ r.right.length < q.right.length)
  flush : ∀ r ∈ rows, r.text ≠ [] → (r.left = [] ↔ r.right = [])

def widthsOf (rows : List Row) : List (Nat × Nat) :=
  (0, 0) :: (rows.filter fun r => !r.text.isEmpty).map fun r => (r.left.length, r.right.length)

theorem Relaid.orderedAlike {rows : List Row} (h : Relaid rows) : OrderedAlike (widthsOf rows) := by
  refine ⟨List.mem_cons_self .., ?_⟩
  have hmem : ∀ p ∈ widthsOf rows, p = (0, 0) ∨
      ∃ r ∈ rows, r.text ≠ [] ∧ p = (r.left.length, r.right.length) := by
    intro p hp
    rcases List.mem_cons.1 hp with rfl | hp
    · exact .inl rfl
    · obtain ⟨r, hr, rfl⟩ := List.mem_map.1 hp
      obtain ⟨hr, hne⟩ := List.mem_filter.1 hr
      exact .inr ⟨r, hr, by simpa using hne, rfl⟩
  have hflush : ∀ r ∈ rows, r.text ≠ [] → (0 < r.left.length ↔ 0 < r.right.length) := by
    intro r hr hne
    rw [List.length_pos_iff, List.length_pos_iff, ne_eq, ne_eq, h.flush r hr hne]
  intro p hp q hq
  rcases hmem p hp with rfl | ⟨r, hr, hne, rfl⟩
  · rcases hmem q hq with rfl | ⟨s, hs, hne', rfl⟩
    · exact Iff.rfl
    · exact hflush s hs hne'
  · rcases hmem q hq with rfl | ⟨s, hs, hne', rfl⟩
    · simp
    · exact h.order r hr s hs hne hne'

theorem Relaid.fits {rows : List Row} (h : Relaid rows) :
    ∃ x y, ∀ r ∈ rows, r.Fits (widthsOf rows) x y := by
  obtain ⟨x, y, hx, hy, hunits⟩ := h.units
  refine ⟨x, y, fun r hr => ?_⟩
  have hsides : (∀ c ∈ r.left, Text.isIndent c = true) ∧ ∀ c ∈ r.right, Text.isIndent c = true := by
    by_cases hne : r.text = []
    · exact h.blanks r hr hne
    · obtain ⟨hleft, hright⟩ := hunits r hr hne
      exact ⟨fun c hc => hleft c hc ▸ hx, fun c hc => hright c hc ▸ hy⟩
  refine ⟨hsides.1, hsides.2, h.texts r hr, hunits r hr, fun hne => ?_⟩
  refine List.mem_cons_of_mem _ (List.mem_map.2 ⟨r, List.mem_filter.2 ⟨hr, ?_⟩, rfl⟩)
  simpa using hne

/-- The two texts have the same tokens, up to their places. -/
theorem Relaid.tokenizeChars_alike {rows : List Row} (h : Relaid rows) :
    Alike SameTokens (tokenizeChars (laid Row.left rows))
      (tokenizeChars (laid Row.right rows)) := by
  obtain ⟨x, y, hfits⟩ := h.fits
  cases rows with
  | nil => exact (Alike.refl _).mono fun ts us he => congrArg (List.map Token.bare) he
  | cons r rows =>
    obtain ⟨hr, hrows⟩ := List.forall_mem_cons.1 hfits
    exact readLines_alike h.orderedAlike hr hrows ⟨⟨[], List.forall_mem_nil _, rfl, rfl⟩, .inl rfl,
      .inl rfl⟩ true rfl rfl rfl

end Stencil.Template
