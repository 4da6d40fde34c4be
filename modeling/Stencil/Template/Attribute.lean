import Stencil.Diagnostic
import Stencil.Expr.Parser
import Stencil.Template.Segment
import Stencil.Text.Cursor

/-! # Attribute lists

The names and values between the parentheses after a tag or a module reference, and the check that
every expression in a template can be parsed. -/

namespace Stencil

inductive AttrValue where
  /-- A name alone. -/
  | boolean
  /-- A quoted text, which may hold interpolations. -/
  | literal (text : String)
  | expr (source : String)
  deriving DecidableEq, Repr

structure Attribute where
  name : String
  value : AttrValue
  escaped : Bool
  deriving DecidableEq, Repr

def ScanError.diagnostic (e : ScanError) (base line : Nat) (text : List Char) : Diagnostic :=
  let cause := match e.fault with
    | .unclosed c => Cause.unclosedBracket c
    | .unclosedString => .unclosedString
    | .wrongBracket _ _ => .wrongBracket (String.ofList text)
  .atSpan cause ⟨base + e.offset, base + e.offset⟩ line

def badExpression (source : List Char) (base line : Nat) (reason : String) : Diagnostic :=
  .atSpan (.badExpression (String.ofList (Text.trim source)) reason)
    ⟨base, base + Text.width source⟩ line

def checkExpr (source : List Char) (base line : Nat) : Result Unit :=
  match Expr.parse (String.ofList source) with
  | .ok _ => .ok ()
  | .error e => .error (badExpression source base line e.message)

def checkSegments (base line : Nat) : List Segment → Result Unit
  | [] => .ok ()
  | .literal _ :: ss => checkSegments base line ss
  | .interpolation e _ offset :: ss => do
    checkExpr e.toList (base + offset) line
    checkSegments base line ss

def checkText (text : List Char) (base line : Nat) : Result Unit :=
  match segmentsFrom 0 [] text with
  | .error e => .error (e.diagnostic base line text)
  | .ok ss => checkSegments base line ss

def segmentsOnLine (text : String) (line : Nat) : Result (List Segment) :=
  match segments text with
  | .error e => .error (e.diagnostic 0 line text.toList)
  | .ok ss => .ok ss

namespace Attribute

def unicodeChar? (a b c d : Char) : Option Char :=
  match Text.readHex? [a, b, c, d] with
  | some n => if 0xD800 ≤ n && n < 0xE000 then none else some (Char.ofNat n)
  | none => none

/-- Undo the escapes of a quoted value. A backslash stays in front of an interpolation marker, where
it still has work to do, and before a `u` that no four digits follow. -/
def decode : List Char → List Char
  | '\\' :: 'u' :: a :: b :: c :: d :: cs => match unicodeChar? a b c d with
    | some ch => ch :: decode cs
    | none => '\\' :: 'u' :: decode (a :: b :: c :: d :: cs)
  | '\\' :: 'u' :: cs => '\\' :: 'u' :: decode cs
  | '\\' :: c :: cs =>
    if isMarker c then '\\' :: c :: decode cs
    else if c == 'n' then '\n' :: decode cs
    else if c == 't' then '\t' :: decode cs
    else if c == 'r' then '\r' :: decode cs
    else c :: decode cs
  | c :: cs => c :: decode cs
  | [] => []

/-- Characters that, past blanks, carry an expression on. -/
def continues (c : Char) : Bool :=
  "+-*/%=!<>&|?:.[(".toList.contains c

/-- Split a text into a value and the rest. A value ends at a comma or a line end outside brackets
and strings, or at a blank there once it is an expression that the next character cannot carry on.
`acc` holds the value so far, last character first. -/
def splitValue (s : ScanState) (acc : List Char) : List Char → List Char × List Char
  | [] => (acc.reverse, [])
  | c :: cs =>
    let outside := !s.isString && !s.isNesting
    let complete :=
      let value := Text.trim acc.reverse
      !value.isEmpty && Expr.accepts (String.ofList value) &&
        !((Text.trimStart cs).head?.any continues)
    if outside && (c == ',' || c == '\n') then (acc.reverse, c :: cs)
    else if outside && Text.isIndent c && complete then (acc.reverse, c :: cs)
    else splitValue (s.step c) (c :: acc) cs

def endsName (c : Char) : Bool :=
  c == '=' || c == '!' || c == ',' || Text.isBlank c

def readQuotedName (q : Char) (cs : List Char) (c : Cursor) :
    Result (List Char × Cursor) :=
  if cs.contains q then
    .ok (cs.takeWhile (· != q), c.advance ((cs.takeWhile (· != q)).length + 2))
  else .error (.atSpan .unclosedString ⟨c.pos, c.finish⟩ c.line)

def readBareName (name : List Char) (c : Cursor) : Result (List Char × Cursor) :=
  if name.isEmpty then
    .error (.atSpan (.missingAttributeName (c.rest.headD ' ')) ⟨c.pos, c.pos + 1⟩ c.line)
  else .ok (name, c.advance name.length)

def readName (c : Cursor) : Result (List Char × Cursor) :=
  match c.rest with
  | [] => readBareName [] c
  | q :: cs =>
    if q == '"' || q == '\'' then readQuotedName q cs c
    else readBareName ((q :: cs).takeWhile fun x => !endsName x) c

def isQuoted (raw : List Char) : Bool :=
  match raw with
  | q :: cs => (q == '"' || q == '\'') && cs.getLast? == some q
  | [] => false

def unquoted (raw : List Char) : List Char :=
  raw.tail.dropLast

def classify (raw : List Char) (pos line : Nat) : Result AttrValue :=
  match Expr.parse (String.ofList raw) with
  | .error e => .error (badExpression raw pos line e.message)
  | .ok (.lit _ (.str _)) =>
    if isQuoted raw then do
      let text := decode (unquoted raw)
      checkText text (pos + 1) line
      return .literal (String.ofList text)
    else .ok (.expr (String.ofList raw))
  | .ok _ => .ok (.expr (String.ofList raw))

/-- The sign between a name and its value: whether the value is escaped. -/
def readAssign (c : Cursor) : Result (Option Bool × Cursor) :=
  match c.rest with
  | '!' :: '=' :: _ => .ok (some false, c.advance 2)
  | '=' :: _ => .ok (some true, c.advance 1)
  | '!' :: cs =>
    .error (.atSpan (.missingEquals (cs.headD ' ')) ⟨c.pos + 1, c.pos + 2⟩ c.line)
  | _ => .ok (none, c)

def readValue (name : List Char) (c : Cursor) : Result (AttrValue × Cursor) := do
  let value := (splitValue .start [] c.rest).1
  let raw := Text.trim value
  if raw.isEmpty then
    throw (.atSpan (.badExpression (String.ofList name) "missing attribute value")
      ⟨c.pos, c.pos⟩ c.line)
  let v ← classify raw c.pos c.line
  return (v, c.advance value.length)

theorem readBareName_rest {c d : Cursor} {name word : List Char} (hl : 0 < c.rest.length)
    (h : readBareName word c = .ok (name, d)) : d.rest.length < c.rest.length := by
  unfold readBareName at h
  split at h
  · simp at h
  · next hne =>
    simp only [Except.ok.injEq, Prod.mk.injEq] at h
    rw [← h.2, Cursor.length_advance]
    have := List.length_pos_iff.2 fun e => hne (List.isEmpty_iff.2 e)
    omega

theorem readName_rest {c d : Cursor} {name : List Char} (h : readName c = .ok (name, d)) :
    d.rest.length < c.rest.length := by
  unfold readName at h
  split at h
  · simp [readBareName] at h
  · next q cs hr =>
    have hl : 0 < c.rest.length := by simp [hr]
    split at h
    · unfold readQuotedName at h
      split at h
      · simp only [Except.ok.injEq, Prod.mk.injEq] at h
        rw [← h.2, Cursor.length_advance]; omega
      · simp at h
    · exact readBareName_rest hl h

theorem readAssign_rest {c d : Cursor} {b : Option Bool} (h : readAssign c = .ok (b, d)) :
    d.rest.length ≤ c.rest.length := by
  unfold readAssign at h
  split at h <;> simp only [Except.ok.injEq, Prod.mk.injEq, reduceCtorEq] at h
  all_goals
    first
      | exact h.2 ▸ Cursor.length_advance_le _ _
      | exact h.2 ▸ Nat.le_refl _

theorem readValue_rest {name : List Char} {c d : Cursor} {v : AttrValue}
    (h : readValue name c = .ok (v, d)) : d.rest.length ≤ c.rest.length := by
  simp only [readValue] at h
  split at h
  · simp [throw, throwThe, MonadExceptOf.throw, bind, Except.bind] at h
  · cases hc : classify (Text.trim (splitValue .start [] c.rest).1) c.pos c.line with
    | error e => simp [hc, bind, Except.bind] at h
    | ok w =>
      simp only [hc, bind, Except.bind, pure, Except.pure, Except.ok.injEq, Prod.mk.injEq] at h
      rw [← h.2]
      exact Cursor.length_advance_le _ _

def readOne (c : Cursor) : Result (Attribute × Cursor) := do
  let (name, c₁) ← readName c
  match ← readAssign (c₁.skipWhile Text.isBlank) with
  | (none, c₂) => return (⟨String.ofList name, .boolean, true⟩, c₂)
  | (some escaped, c₂) =>
    let (v, c₃) ← readValue name c₂.skipIndent
    return (⟨String.ofList name, v, escaped⟩, c₃)

theorem readOne_rest {c d : Cursor} {a : Attribute} (h : readOne c = .ok (a, d)) :
    d.rest.length < c.rest.length := by
  simp only [readOne, bind, Except.bind] at h
  split at h
  · simp at h
  · next x hn =>
    have h₁ := readName_rest hn
    have h₂ := Cursor.length_skipWhile_le x.2 Text.isBlank
    split at h
    · simp at h
    · next y ha =>
      have h₃ := readAssign_rest ha
      split at h
      · next c₂ =>
        simp only [pure, Except.pure, Except.ok.injEq, Prod.mk.injEq] at h
        rw [← h.2]; dsimp only at h₃; omega
      · next e c₂ =>
        split at h
        · simp at h
        · next z hv =>
          simp only [pure, Except.pure, Except.ok.injEq, Prod.mk.injEq] at h
          have h₄ := readValue_rest hv
          have h₅ := Cursor.length_skipWhile_le c₂ Text.isIndent
          simp only [Cursor.skipIndent] at h₄
          rw [← h.2]; dsimp only at h₃; omega

def isSeparator (c : Char) : Bool :=
  Text.isBlank c || c == ','

def readList (c : Cursor) : Result (List Attribute) :=
  if (c.skipWhile isSeparator).rest.isEmpty then .ok []
  else
    match h : readOne (c.skipWhile isSeparator) with
    | .error e => .error e
    | .ok (a, d) =>
      have : d.rest.length < c.rest.length :=
        Nat.lt_of_lt_of_le (readOne_rest h) (c.length_skipWhile_le isSeparator)
      (readList d).map (a :: ·)
termination_by c.rest.length

end Attribute

end Stencil
