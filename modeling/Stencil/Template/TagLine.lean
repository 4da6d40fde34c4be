import Stencil.Template.Directive
import Stencil.Template.Tags

/-! # Tag lines

A tag is a name followed by classes, ids and attribute lists in any order, and by its text: the rest
of the line, or the deeper lines below if the line ends in a point. -/

namespace Stencil.Template

def markSelfClosing : List Token → List Token
  | t :: ts => match t.kind with
    | .tag name _ inline => { t with kind := .tag name true inline } :: ts
    | .attrs attrs _ => { t with kind := .attrs attrs true } :: ts
    | _ => t :: ts
  | [] => []

/-- The text in the lines below a tag that ends in a point; `acc` holds the tag's tokens, last
first. -/
def readTextBlock (indent : Nat) (acc : List Token) (c : Cursor) : Result (List Token × Cursor) :=
  match c.blockLines indent with
  | ([], _) => .ok (acc, c)
  | (l :: ls, stop) => do
    let text := l ++ ls.flatMap ('\n' :: ·)
    checkText text (c.pos + 1) (c.line + 1)
    return (.upTo (.text (String.ofList text)) (c.line + 1) c.pos stop :: acc, stop)

/-- Whether the point at the front of a text opens a block of text: nothing but spaces is left on
the line, or nothing but blanks in the template. -/
def opensTextBlock (afterPoint : List Char) : Bool :=
  (afterPoint.dropWhile (· == ' ')).head? == some '\n' || Text.allBlank afterPoint

/-- One part of a tag's line, at most up to its end: the tokens read so far, last first, the cursor
behind the part, and whether more may follow. -/
def readTagPart (indent : Nat) (acc : List Token) (c : Cursor) :
    Result ((List Token × Bool) × Cursor) :=
  match c.rest with
  | [] => .ok ((acc, false), c)
  | '\n' :: _ => .ok ((acc, false), c)
  | '.' :: cs =>
    let name := className cs
    if !name.isEmpty then
      let d := c.advance (1 + name.length)
      .ok ((.upTo (.className (String.ofList name)) c.line c.pos d :: acc, true), d)
    else if opensTextBlock cs then do
      let (ts, d) ← readTextBlock indent acc c.skipLine
      return ((ts, false), d)
    else .error (strayText c)
  | '#' :: cs =>
    let name := className cs
    if name.isEmpty then .error (strayText c)
    else
      let d := c.advance (1 + name.length)
      let id := Attribute.mk "id" (.literal (String.ofList name)) true
      .ok ((.upTo (.attrs [id] false) c.line c.pos d :: acc, true), d)
  | '(' :: _ => do
    let (attrs, d) ← readAttrs c
    return ((.upTo (.attrs attrs false) c.line c.pos d :: acc, true), d)
  | '/' :: _ => .ok ((markSelfClosing acc, true), c.advance 1)
  | x :: cs =>
    if Text.isIndent x then
      let text := cs.takeWhile (· != '\n')
      let d := c.skipLine
      if Text.allBlank text then .ok ((acc, false), d)
      else do
        checkText text (c.pos + 1) c.line
        return ((.upTo (.text (String.ofList text)) c.line c.pos d :: acc, false), d)
    else .error (strayText c)

theorem readTagPart_rest {indent : Nat} {acc ts : List Token} {c d : Cursor}
    (h : readTagPart indent acc c = .ok ((ts, true), d)) : d.rest.length < c.rest.length := by
  unfold readTagPart at h
  split at h
  · simp at h
  · simp at h
  · next cs hr =>
    dsimp only at h
    split at h
    · simp only [Except.ok.injEq, Prod.mk.injEq] at h
      rw [← h.2, Cursor.length_advance, hr, List.length_cons]; omega
    · split at h
      · simp only [bind, Except.bind, pure, Except.pure] at h
        split at h <;> simp at h
      · simp at h
  · next cs hr =>
    dsimp only at h
    split at h
    · simp at h
    · simp only [Except.ok.injEq, Prod.mk.injEq] at h
      rw [← h.2, Cursor.length_advance, hr, List.length_cons]; omega
  · next cs hr =>
    simp only [bind, Except.bind, pure, Except.pure] at h
    split at h
    · simp at h
    · next x hx =>
      simp only [Except.ok.injEq, Prod.mk.injEq] at h
      rw [← h.2]
      exact readAttrs_rest (by simp [hr]) hx
  · next cs hr =>
    simp only [Except.ok.injEq, Prod.mk.injEq] at h
    rw [← h.2, Cursor.length_advance, hr, List.length_cons]; omega
  · dsimp only at h
    split at h
    · split at h
      · simp at h
      · simp only [bind, Except.bind, pure, Except.pure] at h
        split at h <;> simp at h
    · simp at h

def readTagParts (indent : Nat) (acc : List Token) (c : Cursor) : Result (List Token × Cursor) :=
  match h : readTagPart indent acc c with
  | .error e => .error e
  | .ok ((ts, false), d) => .ok (ts, d)
  | .ok ((ts, true), d) =>
    have := readTagPart_rest h
    readTagParts indent ts d
termination_by c.rest.length

/-- The name of the tag at the cursor, which is `div` where only a class or an id is given. -/
def readTagHead (c : Cursor) : Option (Token × Cursor) :=
  match tagName c.rest with
  | [] => match c.rest with
    | x :: cs =>
      if (x == '.' || x == '#') && !(className cs).isEmpty then
        some (.upTo (.tag "div" false false) c.line c.pos c, c)
      else none
    | [] => none
  | name =>
    let s := String.ofList name
    let d := c.advance name.length
    let slash := d.rest.head? == some '/'
    let e := if slash then d.advance 1 else d
    some (.upTo (.tag s (isVoidTag s || slash) (isInlineTag s)) c.line c.pos e, e)

/-! ## Reading moves forward -/

theorem readTextBlock_reaches {indent : Nat} {acc ts : List Token} {c d : Cursor}
    (h : readTextBlock indent acc c = .ok (ts, d)) : c.Reaches d := by
  have hb := blockLines_reaches c indent
  unfold readTextBlock at h
  split at h
  · simp only [Except.ok.injEq, Prod.mk.injEq] at h
    exact h.2 ▸ .refl _
  · next l ls stop hl =>
    rw [hl] at hb
    simp only [bind, Except.bind, pure, Except.pure] at h
    split at h
    · simp at h
    · simp only [Except.ok.injEq, Prod.mk.injEq] at h
      exact h.2 ▸ hb

theorem readTagPart_reaches {indent : Nat} {acc : List Token} {x : List Token × Bool}
    {c d : Cursor} (h : readTagPart indent acc c = .ok (x, d)) : c.Reaches d := by
  unfold readTagPart at h
  split at h
  · simp only [Except.ok.injEq, Prod.mk.injEq] at h
    exact h.2 ▸ .refl _
  · simp only [Except.ok.injEq, Prod.mk.injEq] at h
    exact h.2 ▸ .refl _
  · dsimp only at h
    split at h
    · simp only [Except.ok.injEq, Prod.mk.injEq] at h
      exact h.2 ▸ .advance _ _
    · split at h
      · simp only [bind, Except.bind, pure, Except.pure] at h
        split at h
        · simp at h
        · next y hy =>
          simp only [Except.ok.injEq, Prod.mk.injEq] at h
          exact h.2 ▸ (Cursor.Reaches.skipLine _).trans (readTextBlock_reaches hy)
      · simp at h
  · dsimp only at h
    split at h
    · simp at h
    · simp only [Except.ok.injEq, Prod.mk.injEq] at h
      exact h.2 ▸ .advance _ _
  · simp only [bind, Except.bind, pure, Except.pure] at h
    split at h
    · simp at h
    · next y hy =>
      simp only [Except.ok.injEq, Prod.mk.injEq] at h
      exact h.2 ▸ readAttrs_reaches hy
  · simp only [Except.ok.injEq, Prod.mk.injEq] at h
    exact h.2 ▸ .advance _ _
  · dsimp only at h
    split at h
    · split at h
      · simp only [Except.ok.injEq, Prod.mk.injEq] at h
        exact h.2 ▸ .skipLine _
      · simp only [bind, Except.bind, pure, Except.pure] at h
        split at h
        · simp at h
        · simp only [Except.ok.injEq, Prod.mk.injEq] at h
          exact h.2 ▸ .skipLine _
    · simp at h

theorem readTagParts_reaches {indent : Nat} {acc ts : List Token} {c d : Cursor}
    (h : readTagParts indent acc c = .ok (ts, d)) : c.Reaches d := by
  fun_induction readTagParts indent acc c with
  | case1 => simp at h
  | case2 acc c ts' e hp =>
    simp only [Except.ok.injEq, Prod.mk.injEq] at h
    exact h.2 ▸ readTagPart_reaches hp
  | case3 acc c ts' e hp _ ih => exact (readTagPart_reaches hp).trans (ih h)

theorem readTagHead_reaches {t : Token} {c d : Cursor} (h : readTagHead c = some (t, d)) :
    c.Reaches d := by
  unfold readTagHead at h
  split at h
  · split at h
    · split at h
      · simp only [Option.some.injEq, Prod.mk.injEq] at h
        exact h.2 ▸ .refl _
      · simp at h
    · simp at h
  · simp only [Option.some.injEq, Prod.mk.injEq] at h
    rw [← h.2]
    split
    · exact (Cursor.Reaches.advance _ _).trans (.advance _ _)
    · exact .advance _ _

end Stencil.Template
