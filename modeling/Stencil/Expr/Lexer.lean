import Stencil.Expr.Token
import Stencil.Number.Read
import Stencil.Text.Blank
import Stencil.Text.Hex
import Stencil.Text.Identifier
import Stencil.Text.Offset

/-! # Reading the tokens of an expression

`tokenize` turns a text into its tokens and what they end with: the end of the text, or the fault
that stopped the reading. A parser that finds its own fault among the tokens never sees that one. -/

namespace Stencil.Expr

/-- A token without its start: what it is, where it ends and what follows. -/
structure Lexeme where
  kind : Kind
  stop : Nat
  rest : List Char

/-- The character of a `\u` escape: its digits may have a plus sign in front. -/
def readUnit? (cs : List Char) : Option Char :=
  let ds := match cs with
    | '+' :: r => r
    | r => r
  match Text.readHex? ds with
  | some n => if 0xD800 ≤ n && n < 0xE000 then none else some (Char.ofNat n)
  | none => none

def escaped (c : Char) : Char :=
  if c == 'n' then '\n'
  else if c == 't' then '\t'
  else if c == 'r' then '\r'
  else if c == '0' then Char.ofNat 0
  else c

/-- The rest of a quoted text that began at byte `start` with `quote`; `acc` holds its characters so
far, last first. A backslash before a line end continues the text on the next line. -/
def readText (quote : Char) (start pos : Nat) (acc : List Char) :
    List Char → Except SyntaxError Lexeme
  | [] => .error (.unclosedText ⟨start, pos⟩)
  | '\\' :: 'u' :: a :: b :: c :: d :: cs =>
    let stop := pos + 2 + Text.width [a, b, c, d]
    match readUnit? [a, b, c, d] with
    | some ch => readText quote start stop (ch :: acc) cs
    | none => .error (.badUnicodeEscape ⟨start, stop⟩)
  | '\\' :: 'u' :: cs =>
    let span := Span.mk start (pos + 2 + Text.width cs)
    if (readUnit? cs).isSome then .error (.unclosedText span) else .error (.badUnicodeEscape span)
  | '\\' :: '\n' :: cs => readText quote start (pos + 2) acc cs
  | '\\' :: c :: cs => readText quote start (pos + 1 + c.utf8Size) (escaped c :: acc) cs
  | '\\' :: [] => .error (.unclosedText ⟨start, pos + 1⟩)
  | c :: cs =>
    if c == quote then .ok ⟨.text (String.ofList acc.reverse), pos + 1, cs⟩
    else if c == '\n' then .error (.unclosedText ⟨start, pos + 1⟩)
    else readText quote start (pos + c.utf8Size) (c :: acc) cs

def splitFraction : List Char → List Char × List Char
  | '.' :: cs => ('.' :: cs.takeWhile isDigit, cs.dropWhile isDigit)
  | cs => ([], cs)

def splitSign : List Char → List Char × List Char
  | c :: cs => if c == '+' || c == '-' then ([c], cs) else ([], c :: cs)
  | [] => ([], [])

def splitExponent : List Char → List Char × List Char
  | c :: cs =>
    if c == 'e' || c == 'E' then
      let (sign, ds) := splitSign cs
      (c :: sign ++ ds.takeWhile isDigit, ds.dropWhile isDigit)
    else ([], c :: cs)
  | [] => ([], [])

def splitNumber (cs : List Char) : List Char × List Char :=
  let (point, r₁) := splitFraction (cs.dropWhile isDigit)
  let (exp, r₂) := splitExponent r₁
  (cs.takeWhile isDigit ++ point ++ exp, r₂)

def readNumber (pos : Nat) (cs : List Char) : Except SyntaxError Lexeme :=
  let (num, rest) := splitNumber cs
  let stop := pos + num.length
  match readFloat? num with
  | some x => .ok ⟨.number x, stop, rest⟩
  | none => .error (.badNumber ⟨pos, stop⟩)

def readName (pos : Nat) (cs : List Char) : Lexeme :=
  let word := cs.takeWhile Text.isIdChar
  let s := String.ofList word
  let kind := match Keyword.ofName? s with
    | some k => Kind.keyword k
    | none => .name s
  ⟨kind, pos + Text.width word, cs.dropWhile Text.isIdChar⟩

/-- The longest sign at the front of a text; a lone `=`, `&` or `|` is no sign. -/
def readSign (pos : Nat) : List Char → Except SyntaxError Lexeme
  | '=' :: '=' :: '=' :: cs => .ok ⟨.sign .eq3, pos + 3, cs⟩
  | '=' :: '=' :: cs => .ok ⟨.sign .eq2, pos + 2, cs⟩
  | '=' :: _ => .error (.assignment ⟨pos, pos + 1⟩)
  | '!' :: '=' :: '=' :: cs => .ok ⟨.sign .ne2, pos + 3, cs⟩
  | '!' :: '=' :: cs => .ok ⟨.sign .ne1, pos + 2, cs⟩
  | '!' :: cs => .ok ⟨.sign .bang, pos + 1, cs⟩
  | '?' :: '.' :: cs => .ok ⟨.sign .questionDot, pos + 2, cs⟩
  | '?' :: '?' :: cs => .ok ⟨.sign .nullish, pos + 2, cs⟩
  | '?' :: cs => .ok ⟨.sign .question, pos + 1, cs⟩
  | '<' :: '=' :: cs => .ok ⟨.sign .le, pos + 2, cs⟩
  | '<' :: cs => .ok ⟨.sign .lt, pos + 1, cs⟩
  | '>' :: '=' :: cs => .ok ⟨.sign .ge, pos + 2, cs⟩
  | '>' :: cs => .ok ⟨.sign .gt, pos + 1, cs⟩
  | '&' :: '&' :: cs => .ok ⟨.sign .and, pos + 2, cs⟩
  | '&' :: _ => .error (.unsupportedOperator '&' ⟨pos, pos + 1⟩)
  | '|' :: '|' :: cs => .ok ⟨.sign .or, pos + 2, cs⟩
  | '|' :: _ => .error (.unsupportedOperator '|' ⟨pos, pos + 1⟩)
  | '+' :: cs => .ok ⟨.sign .plus, pos + 1, cs⟩
  | '-' :: cs => .ok ⟨.sign .minus, pos + 1, cs⟩
  | '*' :: cs => .ok ⟨.sign .times, pos + 1, cs⟩
  | '/' :: cs => .ok ⟨.sign .slash, pos + 1, cs⟩
  | '%' :: cs => .ok ⟨.sign .percent, pos + 1, cs⟩
  | '(' :: cs => .ok ⟨.sign .lparen, pos + 1, cs⟩
  | ')' :: cs => .ok ⟨.sign .rparen, pos + 1, cs⟩
  | '[' :: cs => .ok ⟨.sign .lbracket, pos + 1, cs⟩
  | ']' :: cs => .ok ⟨.sign .rbracket, pos + 1, cs⟩
  | '\x7b' :: cs => .ok ⟨.sign .lbrace, pos + 1, cs⟩
  | '\x7d' :: cs => .ok ⟨.sign .rbrace, pos + 1, cs⟩
  | ':' :: cs => .ok ⟨.sign .colon, pos + 1, cs⟩
  | '.' :: cs => .ok ⟨.sign .dot, pos + 1, cs⟩
  | ',' :: cs => .ok ⟨.sign .comma, pos + 1, cs⟩
  | c :: _ => .error (.strayChar c ⟨pos, pos + c.utf8Size⟩)
  | [] => .ok ⟨.eof, pos, []⟩

def readToken (pos : Nat) : List Char → Except SyntaxError Lexeme
  | [] => .ok ⟨.eof, pos, []⟩
  | c :: cs =>
    if isDigit c then readNumber pos (c :: cs)
    else if Text.isIdStart c then .ok (readName pos (c :: cs))
    else if c == '"' || c == '\'' then readText c pos (pos + 1) [] cs
    else readSign pos (c :: cs)

theorem length_dropWhile_le {α} (p : α → Bool) (l : List α) : (l.dropWhile p).length ≤ l.length :=
  (List.dropWhile_suffix p).length_le

theorem length_drop_digits (cs : List Char) : (cs.dropWhile isDigit).length ≤ cs.length :=
  length_dropWhile_le isDigit cs

theorem splitFraction_rest (cs : List Char) : (splitFraction cs).2.length ≤ cs.length := by
  unfold splitFraction
  split
  · next r => have := length_drop_digits r; simp only [List.length_cons]; omega
  · exact Nat.le_refl _

theorem splitSign_rest (cs : List Char) : (splitSign cs).2.length ≤ cs.length := by
  unfold splitSign
  split
  · split <;> simp
  · exact Nat.le_refl _

theorem splitExponent_rest (cs : List Char) : (splitExponent cs).2.length ≤ cs.length := by
  unfold splitExponent
  split
  · next c r =>
    split
    · have h₁ := length_drop_digits (splitSign r).2
      have h₂ := splitSign_rest r
      simp only [List.length_cons]; omega
    · exact Nat.le_refl _
  · exact Nat.le_refl _

theorem splitNumber_rest (cs : List Char) :
    (splitNumber cs).2.length ≤ (cs.dropWhile isDigit).length :=
  Nat.le_trans (splitExponent_rest _) (splitFraction_rest _)

theorem readNumber_rest {pos : Nat} {cs : List Char} {l : Lexeme}
    (h : readNumber pos cs = .ok l) : l.rest.length ≤ (cs.dropWhile isDigit).length := by
  simp only [readNumber] at h
  split at h
  · simp only [Except.ok.injEq] at h; subst h; exact splitNumber_rest cs
  · simp at h

theorem readText_rest {quote : Char} {start pos : Nat} {acc cs : List Char} {l : Lexeme}
    (h : readText quote start pos acc cs = .ok l) : l.rest.length < cs.length := by
  fun_induction readText quote start pos acc cs with
  | case2 pos acc a b c d cs stop ch _ ih => have := ih h; simp only [List.length_cons]; omega
  | case6 pos acc cs ih => have := ih h; simp only [List.length_cons]; omega
  | case7 pos acc c cs _ _ _ ih => have := ih h; simp only [List.length_cons]; omega
  | case9 => simp only [Except.ok.injEq] at h; subst h; simp
  | case11 pos acc c cs _ _ _ _ _ _ _ ih => have := ih h; simp only [List.length_cons]; omega
  | _ => simp at h

theorem readSign_rest {pos : Nat} {c : Char} {cs : List Char} {l : Lexeme}
    (h : readSign pos (c :: cs) = .ok l) : l.rest.length ≤ cs.length := by
  unfold readSign at h
  split at h <;> simp_all <;> (subst h; simp) <;> omega

theorem readToken_rest {pos : Nat} {c : Char} {cs : List Char} {l : Lexeme}
    (h : readToken pos (c :: cs) = .ok l) : l.rest.length ≤ cs.length := by
  simp only [readToken] at h
  split at h
  · next hd =>
    have h₁ := readNumber_rest h
    have h₂ := length_drop_digits cs
    simp only [List.dropWhile, hd] at h₁
    omega
  · split at h
    · next hs =>
      simp only [Except.ok.injEq] at h
      subst h
      have h₁ : Text.isIdChar c = true := by simp [Text.isIdChar, hs]
      have h₂ := length_dropWhile_le Text.isIdChar cs
      simpa [readName, List.dropWhile, h₁] using h₂
    · split at h
      · exact Nat.le_of_lt (readText_rest h)
      · exact readSign_rest h

/-- What a list of tokens ends with: the end of the text, or what could not be read. -/
inductive End where
  | eof (pos : Nat)
  | bad (error : SyntaxError)

structure Tokens where
  list : List Token
  finish : End

def tokensFrom (pos : Nat) (cs : List Char) : Tokens :=
  let start := pos + Text.width (cs.takeWhile Text.isBlank)
  match h : cs.dropWhile Text.isBlank with
  | [] => ⟨[], .eof start⟩
  | c :: r =>
    match h' : readToken start (c :: r) with
    | .error e => ⟨[], .bad e⟩
    | .ok l =>
      have : l.rest.length < cs.length := by
        have h₁ := readToken_rest h'
        have h₂ := length_dropWhile_le Text.isBlank cs
        rw [h, List.length_cons] at h₂
        omega
      let more := tokensFrom l.stop l.rest
      ⟨⟨l.kind, ⟨start, l.stop⟩⟩ :: more.list, more.finish⟩
termination_by cs.length

def tokenize (s : String) : Tokens :=
  tokensFrom 0 s.toList

end Stencil.Expr
