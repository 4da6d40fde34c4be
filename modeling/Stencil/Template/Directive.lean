import Stencil.Template.Lines
import Stencil.Template.Token

/-! # Directive lines

A line that starts with a directive's word, a comment marker or a bar is one token. Every expression
is checked as it is read, so no token holds a text that could not be parsed. -/

namespace Stencil.Template

def isWordChar (c : Char) : Bool :=
  c.isAlphanum || c == '_'

/-- Characters of tag names; a directive's word followed by one of them is a tag. -/
def isNameChar (c : Char) : Bool :=
  isWordChar c || c == '-' || c == ':'

def isClassChar (c : Char) : Bool :=
  isWordChar c || c == '-'

def isBlockName (name : List Char) : Bool :=
  !name.isEmpty && name.all fun c => isWordChar c || c == '-' || c == '$' || c == '.'

/-- The tag name a text starts with: it begins and ends with a word character. -/
def tagName : List Char → List Char
  | c :: cs =>
    if isWordChar c then Text.dropTail (fun x => !isWordChar x) ((c :: cs).takeWhile isNameChar)
    else []
  | [] => []

def className (cs : List Char) : List Char :=
  cs.takeWhile isClassChar

def splitName? : List Char → Option (List Char × List Char)
  | c :: cs =>
    if c.isAlpha || c == '_' || c == '$' then
      let p := fun x => isWordChar x || x == '$'
      some ((c :: cs).takeWhile p, (c :: cs).dropWhile p)
    else none
  | [] => none

def startsWord (c : Cursor) (word : String) : Bool :=
  match Text.dropStart? c.rest word.toList with
  | some (x :: _) => !isNameChar x
  | some [] => true
  | none => false

def Token.upTo (kind : TokenKind) (line start : Nat) (c : Cursor) : Token :=
  ⟨kind, line, ⟨start, c.pos⟩⟩

def strayText (c : Cursor) : Diagnostic :=
  .atSpan (.strayText (String.ofList (Text.trim c.lineText)))
    ⟨c.pos, c.pos + Text.width c.lineText⟩ c.line

def faultUpTo (cause : Cause) (start : Nat) (c : Cursor) : Diagnostic :=
  .atSpan cause ⟨start, max c.pos start⟩ c.line

def readMap {α β : Type} (f : α → β) : Result (α × Cursor) → Result (β × Cursor)
  | .error e => .error e
  | .ok (a, c) => .ok (f a, c)

def readAttrs (c : Cursor) : Result (List Attribute × Cursor) :=
  match closing 1 '(' c.rest.tail with
  | .error e => .error (e.diagnostic c.pos c.line c.lineText)
  | .ok (inner, _) => do
    let attrs ← Attribute.readList ⟨c.pos + 1, c.line, inner⟩
    return (attrs, c.advance (inner.length + 2))

def readExprLine (word : String) (c : Cursor) : Result (String × Cursor) := do
  let e := (c.advance word.length).skipIndent
  let expr := Text.trimEnd e.lineText
  let stop := e.skipLine
  if expr.isEmpty then throw (faultUpTo (.badExpression word "missing expression") c.pos stop)
  checkExpr expr e.pos e.line
  return (String.ofList expr, stop)

def readBare (c : Cursor) : Result (Unit × Cursor) :=
  let e := c.skipIndent
  if Text.allBlank e.lineText then .ok ((), e.skipLine) else .error (strayText e)

/-- A word that says where content goes, if a block name follows it. -/
def readPosition (c : Cursor) : Option (Position × Cursor) :=
  let position :=
    if startsWord c "before" || startsWord c "prepend" then some Position.before
    else if startsWord c "after" || startsWord c "append" then some .after
    else if startsWord c "replace" then some .replace
    else none
  let word := Text.firstWord c.rest
  match position with
  | some p =>
    if Text.allBlank (c.lineText.drop word.length) then none else some (p, c.advance word.length)
  | none => none

def readBlockName (c : Cursor) : Result (String × Cursor) :=
  let e := c.skipIndent
  let name := Text.trim e.lineText
  if isBlockName name then .ok (String.ofList name, e.skipLine)
  else .error (faultUpTo (.badBlockName (String.ofList name)) e.pos e.skipLine)

def readOptions (c : Cursor) : Result (List Attribute × Cursor) :=
  if c.rest.head? == some '(' then do
    let (attrs, d) ← readAttrs c
    return (attrs, d.skipIndent)
  else .ok ([], c)

def readReference (word : String) (c : Cursor) : Result ((String × List Attribute) × Cursor) := do
  let (options, d) ← readOptions (c.advance word.length).skipIndent
  let reference := Text.trim d.lineText
  if reference.isEmpty then throw (faultUpTo (.missingReference word) c.pos d.skipLine)
  return ((String.ofList reference, options), d.skipLine)

/-- The loop variables and the list of a loop: `value[, key] in expression`. -/
def splitEach? (text : List Char) : Option (List Char × Option (List Char) × List Char) := do
  let (value, r₁) ← splitName? text
  let r₁ := Text.trimStart r₁
  let (key, r₂) ← match r₁ with
    | ',' :: r => (splitName? (Text.trimStart r)).map fun (k, r) => (some k, Text.trimStart r)
    | r => some (none, r)
  match r₂ with
  | 'i' :: 'n' :: c :: r =>
    if Text.isIndent c && !Text.allBlank r then some (value, key, c :: r) else none
  | _ => none

def readEach (word : String) (c : Cursor) : Result (TokenKind × Cursor) :=
  let e := (c.advance word.length).skipIndent
  let text := e.lineText
  let stop := e.skipLine
  match splitEach? text with
  | none =>
    .error (faultUpTo (.badExpression (String.ofList (Text.trim text))
      ("expected " ++ backquoted (word ++ " value[, key] in expression"))) c.pos stop)
  | some (value, key, list) => do
    let expr := Text.trim list
    checkExpr expr (stop.pos - Text.width list) e.line
    return (.each (String.ofList value) (key.map String.ofList) (String.ofList expr), stop)

def readComment (indent : Nat) (c : Cursor) : TokenKind × Cursor :=
  let text := c.lineText
  let buffered := !Text.startsWith text ['/', '/', '-']
  let (nested, stop) := c.skipLine.blockLines indent
  let first := text.drop (if buffered then 2 else 3)
  (.comment (String.ofList (first ++ nested.flatMap ('\n' :: ·))) buffered, stop)

/-- A line of text, after its bar and one space. -/
def readTextLine (c : Cursor) : Result (TokenKind × Cursor) := do
  let e := c.advance (if Text.startsWith c.rest ['|', ' '] then 2 else 1)
  checkText e.lineText e.pos e.line
  return (.text (String.ofList e.lineText), e.skipLine)

def readReplace (position : Position) (c : Cursor) : Result (TokenKind × Cursor) :=
  readMap (.replace position) (readBlockName c)

def readWithExpr (word : String) (kind : String → TokenKind) (c : Cursor) :
    Result (TokenKind × Cursor) :=
  readMap kind (readExprLine word c)

def readModule (word : String) (kind : String → List Attribute → TokenKind) (c : Cursor) :
    Result (TokenKind × Cursor) :=
  readMap (fun r => kind r.1 r.2) (readReference word c)

def readDoctype (c : Cursor) : Result (TokenKind × Cursor) :=
  let value := Text.trim (c.lineText.drop 7)
  .ok (.doctype (if value.isEmpty then "html" else String.ofList value), c.skipLine)

def readDefault (c : Cursor) : Result (TokenKind × Cursor) :=
  readMap (fun _ => .default) (readBare (c.advance 7))

def readReplaceLine (c : Cursor) : Result (TokenKind × Cursor) :=
  let e := (c.advance 7).skipIndent
  match readPosition e with
  | some (p, f) => readReplace p f
  | none => readReplace .replace e

/-- `block` declares a block, or with a word for the position gives content for one. -/
def readBlockLine (c : Cursor) : Result (TokenKind × Cursor) :=
  let e := (c.advance 5).skipIndent
  match readPosition e with
  | some (p, f) => readReplace p f
  | none => readMap .block (readBlockName e)

def readElse (c : Cursor) : Result (TokenKind × Cursor) :=
  let e := (c.advance 4).skipIndent
  if startsWord e "if" then readWithExpr "if" .elseIf e
  else readMap (fun _ => .otherwise) (readBare e)

def directives : List (String × (Cursor → Result (TokenKind × Cursor))) :=
  [("doctype", readDoctype),
    ("case", readWithExpr "case" .caseOf),
    ("when", readWithExpr "when" .when),
    ("default", readDefault),
    ("extends", readModule "extends" .extension),
    ("extend", readModule "extend" .extension),
    ("include", readModule "include" .inclusion),
    ("replace", readReplaceLine),
    ("append", fun c => readReplace .after (c.advance 6)),
    ("prepend", fun c => readReplace .before (c.advance 7)),
    ("block", readBlockLine),
    ("if", readWithExpr "if" .ifTrue),
    ("unless", readWithExpr "unless" .unlessTrue),
    ("elseif", readWithExpr "elseif" .elseIf),
    ("else", readElse),
    ("while", readWithExpr "while" .whileTrue),
    ("each", readEach "each"),
    ("for", readEach "for")]

def readDirective (indent : Nat) (c : Cursor) : Option (Result (TokenKind × Cursor)) :=
  match directives.find? fun d => startsWord c d.1 with
  | some d => some (d.2 c)
  | none => match c.rest with
    | '/' :: '/' :: _ => some (.ok (readComment indent c))
    | '|' :: _ => some (readTextLine c)
    | _ => none

/-! ## Reading moves forward -/

theorem readAttrs_reaches {c d : Cursor} {attrs : List Attribute}
    (h : readAttrs c = .ok (attrs, d)) : c.Reaches d := by
  unfold readAttrs at h
  split at h
  · simp at h
  · simp only [bind, Except.bind, pure, Except.pure] at h
    split at h
    · simp at h
    · simp only [Except.ok.injEq, Prod.mk.injEq] at h
      exact h.2 ▸ .advance _ _

theorem readAttrs_rest {c d : Cursor} {attrs : List Attribute} (hne : 0 < c.rest.length)
    (h : readAttrs c = .ok (attrs, d)) : d.rest.length < c.rest.length := by
  unfold readAttrs at h
  split at h
  · simp at h
  · simp only [bind, Except.bind, pure, Except.pure] at h
    split at h
    · simp at h
    · simp only [Except.ok.injEq, Prod.mk.injEq] at h
      rw [← h.2, Cursor.length_advance]
      omega

theorem readExprLine_reaches {word e : String} {c d : Cursor}
    (h : readExprLine word c = .ok (e, d)) : c.Reaches d := by
  simp only [readExprLine, bind, Except.bind, pure, Except.pure, throw, throwThe,
    MonadExceptOf.throw] at h
  split at h
  · simp at h
  · split at h
    · simp at h
    · simp only [Except.ok.injEq, Prod.mk.injEq] at h
      exact h.2 ▸ ((Cursor.Reaches.advance _ _).trans (.skipIndent _)).trans (.skipLine _)

theorem readBare_reaches {u : Unit} {c d : Cursor} (h : readBare c = .ok (u, d)) :
    c.Reaches d := by
  simp only [readBare] at h
  split at h
  · simp only [Except.ok.injEq, Prod.mk.injEq] at h
    exact h.2 ▸ (Cursor.Reaches.skipIndent _).trans (.skipLine _)
  · simp at h

theorem readPosition_reaches {p : Position} {c d : Cursor} (h : readPosition c = some (p, d)) :
    c.Reaches d := by
  simp only [readPosition] at h
  split at h
  · split at h
    · simp at h
    · simp only [Option.some.injEq, Prod.mk.injEq] at h
      exact h.2 ▸ .advance _ _
  · simp at h

theorem readBlockName_reaches {name : String} {c d : Cursor}
    (h : readBlockName c = .ok (name, d)) : c.Reaches d := by
  simp only [readBlockName] at h
  split at h
  · simp only [Except.ok.injEq, Prod.mk.injEq] at h
    exact h.2 ▸ (Cursor.Reaches.skipIndent _).trans (.skipLine _)
  · simp at h

theorem readOptions_reaches {c d : Cursor} {options : List Attribute}
    (h : readOptions c = .ok (options, d)) : c.Reaches d := by
  simp only [readOptions, bind, Except.bind, pure, Except.pure] at h
  split at h
  · split at h
    · simp at h
    · next x hx =>
      simp only [Except.ok.injEq, Prod.mk.injEq] at h
      exact h.2 ▸ (readAttrs_reaches hx).trans (.skipIndent _)
  · simp only [Except.ok.injEq, Prod.mk.injEq] at h
    exact h.2 ▸ .refl _

theorem readReference_reaches {word : String} {x : String × List Attribute} {c d : Cursor}
    (h : readReference word c = .ok (x, d)) : c.Reaches d := by
  simp only [readReference, bind, Except.bind, pure, Except.pure, throw, throwThe,
    MonadExceptOf.throw] at h
  split at h
  · simp at h
  · next y hy =>
    split at h
    · simp at h
    · simp only [Except.ok.injEq, Prod.mk.injEq] at h
      exact h.2 ▸ (((Cursor.Reaches.advance _ _).trans (.skipIndent _)).trans
        (readOptions_reaches hy)).trans (.skipLine _)

theorem readEach_reaches {word : String} {k : TokenKind} {c d : Cursor}
    (h : readEach word c = .ok (k, d)) : c.Reaches d := by
  simp only [readEach, bind, Except.bind, pure, Except.pure] at h
  split at h
  · simp at h
  · split at h
    · simp at h
    · simp only [Except.ok.injEq, Prod.mk.injEq] at h
      exact h.2 ▸ ((Cursor.Reaches.advance _ _).trans (.skipIndent _)).trans (.skipLine _)

theorem blockLines_reaches (c : Cursor) (base : Nat) : c.Reaches (c.blockLines base).2 :=
  ⟨_, rfl⟩

theorem readComment_reaches (indent : Nat) (c : Cursor) : c.Reaches (readComment indent c).2 :=
  (Cursor.Reaches.skipLine _).trans (blockLines_reaches _ _)

theorem readTextLine_reaches {k : TokenKind} {c d : Cursor} (h : readTextLine c = .ok (k, d)) :
    c.Reaches d := by
  simp only [readTextLine, bind, Except.bind, pure, Except.pure] at h
  split at h
  · simp at h
  · simp only [Except.ok.injEq, Prod.mk.injEq] at h
    exact h.2 ▸ (Cursor.Reaches.advance _ _).trans (.skipLine _)

theorem reaches_map {α β : Type} {r : Result (α × Cursor)} {f : α → β} {c d : Cursor} {b : β}
    (hr : ∀ a e, r = .ok (a, e) → c.Reaches e) (h : readMap f r = .ok (b, d)) : c.Reaches d := by
  unfold readMap at h
  split at h
  · simp at h
  · next a e =>
    simp only [Except.ok.injEq, Prod.mk.injEq] at h
    exact h.2 ▸ hr a e rfl

theorem readWithExpr_reaches {word : String} {kind : String → TokenKind} {k : TokenKind}
    {c d : Cursor} (h : readWithExpr word kind c = .ok (k, d)) : c.Reaches d :=
  reaches_map (fun _ _ => readExprLine_reaches) h

theorem readModule_reaches {word : String} {kind : String → List Attribute → TokenKind}
    {k : TokenKind} {c d : Cursor} (h : readModule word kind c = .ok (k, d)) : c.Reaches d :=
  reaches_map (fun _ _ => readReference_reaches) h

theorem readReplace_reaches {p : Position} {k : TokenKind} {c d : Cursor}
    (h : readReplace p c = .ok (k, d)) : c.Reaches d :=
  reaches_map (fun _ _ => readBlockName_reaches) h

theorem reaches_words (c : Cursor) (n : Nat) : c.Reaches (c.advance n).skipIndent :=
  (Cursor.Reaches.advance c n).trans (.skipIndent _)

theorem readReplaceLine_reaches {k : TokenKind} {c d : Cursor}
    (h : readReplaceLine c = .ok (k, d)) : c.Reaches d := by
  simp only [readReplaceLine] at h
  split at h
  · next hp => exact (reaches_words c 7).trans ((readPosition_reaches hp).trans
      (readReplace_reaches h))
  · exact (reaches_words c 7).trans (readReplace_reaches h)

theorem readBlockLine_reaches {k : TokenKind} {c d : Cursor}
    (h : readBlockLine c = .ok (k, d)) : c.Reaches d := by
  simp only [readBlockLine] at h
  split at h
  · next hp => exact (reaches_words c 5).trans ((readPosition_reaches hp).trans
      (readReplace_reaches h))
  · exact (reaches_words c 5).trans (reaches_map (fun _ _ => readBlockName_reaches) h)

theorem readElse_reaches {k : TokenKind} {c d : Cursor} (h : readElse c = .ok (k, d)) :
    c.Reaches d := by
  simp only [readElse] at h
  split at h
  · exact (reaches_words c 4).trans (readWithExpr_reaches h)
  · exact (reaches_words c 4).trans (reaches_map (fun _ _ => readBare_reaches) h)

theorem directives_reach {c d : Cursor} {k : TokenKind} :
    ∀ x ∈ directives, x.2 c = .ok (k, d) → c.Reaches d := by
  have doctype : readDoctype c = .ok (k, d) → c.Reaches d := fun h => by
    simp only [readDoctype, Except.ok.injEq, Prod.mk.injEq] at h
    exact h.2 ▸ .skipLine _
  have default : readDefault c = .ok (k, d) → c.Reaches d := fun h =>
    (Cursor.Reaches.advance _ _).trans (reaches_map (fun _ _ => readBare_reaches) h)
  simp only [directives, List.mem_cons, List.not_mem_nil, or_false, forall_eq_or_imp, forall_eq]
  exact ⟨doctype, readWithExpr_reaches, readWithExpr_reaches, default, readModule_reaches,
    readModule_reaches, readModule_reaches, readReplaceLine_reaches,
    fun h => (Cursor.Reaches.advance _ _).trans (readReplace_reaches h),
    fun h => (Cursor.Reaches.advance _ _).trans (readReplace_reaches h),
    readBlockLine_reaches, readWithExpr_reaches, readWithExpr_reaches, readWithExpr_reaches,
    readElse_reaches, readWithExpr_reaches, readEach_reaches, readEach_reaches⟩

theorem readDirective_reaches {indent : Nat} {c d : Cursor} {k : TokenKind}
    (h : readDirective indent c = some (.ok (k, d))) : c.Reaches d := by
  unfold readDirective at h
  split at h
  · next x hx =>
    exact directives_reach x (List.mem_of_find?_eq_some hx) (Option.some.inj h)
  · split at h
    · have hd : (readComment indent c).2 = d :=
        congrArg Prod.snd (Except.ok.inj (Option.some.inj h))
      exact hd ▸ readComment_reaches indent c
    · exact readTextLine_reaches (Option.some.inj h)
    · simp at h

end Stencil.Template
