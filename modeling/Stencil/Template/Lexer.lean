import Stencil.Template.TagLine
import Stencil.Text.LineEnding

/-! # Reading template tokens

Each line is led from the open levels to its own indentation, and then read as a directive or as a
tag. -/

namespace Stencil.Template

/-- The token of a directive. A comment counts from its first line, any other directive on its
last. -/
def directiveToken (c : Cursor) (kind : TokenKind) (d : Cursor) : Token :=
  match kind with
  | .comment _ _ => .upTo kind c.line c.pos d
  | _ => .upTo kind d.line c.pos d

def readLine (indent : Nat) (c : Cursor) : Result (List Token × Cursor) :=
  match readDirective indent c with
  | some (.error e) => .error e
  | some (.ok (kind, d)) => .ok ([directiveToken c kind d], d)
  | none => match readTagHead c with
    | some (t, d) => readMap List.reverse (readTagParts indent [t] d)
    | none => .error (strayText c)

theorem readLine_reaches {indent : Nat} {ts : List Token} {c d : Cursor}
    (h : readLine indent c = .ok (ts, d)) : c.Reaches d := by
  unfold readLine at h
  split at h
  · simp at h
  · next kind e he =>
    simp only [Except.ok.injEq, Prod.mk.injEq] at h
    exact h.2 ▸ readDirective_reaches he
  · split at h
    · next t e he =>
      exact (readTagHead_reaches he).trans (reaches_map (fun _ _ => readTagParts_reaches) h)
    · simp at h

/-- What the lines so far have established: the levels that are open, innermost first, and the
character that indents. -/
structure Levels where
  stack : List Nat
  char : Option Char
  deriving DecidableEq, Repr

def Levels.top (l : Levels) : Nat :=
  l.stack.headD 0

theorem length_past_blank {c : Cursor} {b : Char} {r : List Char}
    (h : c.skipIndent.rest = b :: r) : (c.skipIndent.advance 1).rest.length < c.rest.length := by
  have h₁ : c.skipIndent.rest.length ≤ c.rest.length := c.length_skipWhile_le Text.isIndent
  rw [Cursor.length_advance, h, List.length_cons]
  rw [h, List.length_cons] at h₁
  omega

def skipBlankLines (c : Cursor) : Cursor :=
  match h : c.skipIndent.rest with
  | '\n' :: _ =>
    have := length_past_blank h
    skipBlankLines (c.skipIndent.advance 1)
  | [] => c.skipIndent
  | _ => c
termination_by c.rest.length

/-- The indentation of a line uses one character only, the same as the lines before. -/
def checkIndent (char : Option Char) (c : Cursor) : Result (Option Char) :=
  let blank := c.rest.takeWhile Text.isIndent
  let fault := Diagnostic.atSpan .mixedIndentation ⟨c.pos, c.pos + blank.length⟩ c.line
  match blank with
  | [] => .ok char
  | b :: bs =>
    if bs.any (· != b) || char.any (· != b) then .error fault else .ok (some b)

def readLevels (l : Levels) (first : Bool) (c : Cursor) :
    Result (List Token × Levels) := do
  let char ← checkIndent l.char c
  let width := indentWidth c.rest
  let span := Span.mk c.pos (c.pos + width)
  if l.top < width then return ([⟨.indent width, c.line, span⟩], ⟨width :: l.stack, char⟩)
  else if width < l.top then
    let closed := l.stack.takeWhile (width < ·)
    let open_ := l.stack.dropWhile (width < ·)
    if open_.headD 0 != width then
      throw (.atSpan (.unevenIndentation width (open_.headD 0)) span c.line)
    return (closed.map fun _ => ⟨.outdent, c.line, span⟩, ⟨open_, char⟩)
  else return (if first then [] else [⟨.newline, c.line, span⟩], ⟨l.stack, char⟩)

def endTokens (l : Levels) (c : Cursor) : List Token :=
  let span := Span.mk c.pos c.pos
  (l.stack.map fun _ => ⟨.outdent, c.line, span⟩) ++ [⟨.eos, c.line, span⟩]

theorem skipBlankLines_reaches (c : Cursor) : c.Reaches (skipBlankLines c) := by
  fun_induction skipBlankLines c with
  | case1 c _ _ _ ih =>
    exact ((Cursor.Reaches.skipIndent c).trans (.advance _ 1)).trans ih
  | case2 c => exact .skipIndent c
  | case3 c => exact .refl c

def readLines (l : Levels) (first : Bool) (c : Cursor) : Result (List Token) :=
  let d := skipBlankLines c
  if d.rest.isEmpty then .ok (endTokens l d)
  else
    match readLevels l first d with
    | .error e => .error e
    | .ok (lead, l') =>
      match h : readLine (indentWidth d.rest) d.skipIndent with
      | .error e => .error e
      | .ok (body, e) =>
        match he : e.rest with
        | [] => .ok (lead ++ body ++ endTokens l' e)
        | '\n' :: _ =>
          have : (e.advance 1).rest.length < c.rest.length := by
            have h₁ := ((skipBlankLines_reaches c).trans
              ((Cursor.Reaches.skipIndent _).trans (readLine_reaches h))).length_le
            rw [Cursor.length_advance]
            rw [he, List.length_cons] at *
            omega
          (readLines l' false (e.advance 1)).map fun more => lead ++ body ++ more
        | _ => .error (strayText e)
termination_by c.rest.length

def tokenizeChars (cs : List Char) : Result (List Token) :=
  readLines ⟨[], none⟩ true (.ofText cs)

/-- The tokens of a template; spans index its normalized text. -/
def tokenize (source : String) : Result (List Token) :=
  tokenizeChars (Text.normalizeChars source.toList)

end Stencil.Template
