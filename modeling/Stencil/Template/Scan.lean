import Stencil.Text.Offset

/-! # Brackets and quotes

Finding the bracket that closes an open one, past nested brackets and quoted strings. `ScanState`
follows a text one character at a time and is forgiving; `closing` also insists that brackets match
in kind. -/

namespace Stencil

inductive ScanFault where
  /-- The text ended while this bracket was open. -/
  | unclosed (bracket : Char)
  /-- The text ended inside a string. -/
  | unclosedString
  | wrongBracket (opened closed : Char)
  deriving DecidableEq, Repr

structure ScanError where
  fault : ScanFault
  offset : Nat
  deriving DecidableEq, Repr

def isQuote (c : Char) : Bool :=
  c == '"' || c == '\'' || c.toNat == 0x60

def isOpening (c : Char) : Bool :=
  c == '(' || c == '[' || c == '\x7b'

def isClosing (c : Char) : Bool :=
  c == ')' || c == ']' || c == '\x7d'

def closerOf (c : Char) : Char :=
  if c == '(' then ')' else if c == '[' then ']' else '\x7d'

/-- The brackets that are open, innermost first, and the quote of the string the text is in. -/
structure ScanState where
  stack : List Char
  quote : Option Char
  escaped : Bool
  deriving DecidableEq, Repr

namespace ScanState

def start : ScanState :=
  ⟨[], none, false⟩

def isString (s : ScanState) : Bool :=
  s.quote.isSome

def isNesting (s : ScanState) : Bool :=
  !s.stack.isEmpty

def stepString (s : ScanState) (q c : Char) : ScanState :=
  if s.escaped then { s with escaped := false }
  else if c == '\\' then { s with escaped := true }
  else if c == q then { s with quote := none }
  else s

def step (s : ScanState) (c : Char) : ScanState :=
  match s.quote with
  | some q => s.stepString q c
  | none =>
    if isQuote c then { s with quote := some c }
    else if isOpening c then { s with stack := c :: s.stack }
    else if isClosing c then { s with stack := s.stack.tail }
    else s

end ScanState

/-- Scan on from byte `pos`; the result is the text before the closing bracket and the text after
it. -/
def closingFrom (pos : Nat) (s : ScanState) : List Char → Except ScanError (List Char × List Char)
  | [] => .error ⟨if s.isString then .unclosedString else .unclosed (s.stack.headD '\x7b'), pos⟩
  | c :: cs =>
    let more := fun t => (closingFrom (pos + c.utf8Size) t cs).map fun (i, r) => (c :: i, r)
    if !s.isString && isClosing c then
      match s.stack with
      | [] => .ok ([], cs)
      | b :: bs =>
        if closerOf b != c then .error ⟨.wrongBracket b c, pos⟩
        else if bs.isEmpty then .ok ([], cs)
        else more (s.step c)
    else more (s.step c)

/-- Split the text that follows an open bracket, from byte `pos` on, at the bracket that closes
it. -/
def closing (pos : Nat) (bracket : Char) (cs : List Char) :
    Except ScanError (List Char × List Char) :=
  closingFrom pos ⟨[bracket], none, false⟩ cs

theorem closingFrom_rest {pos : Nat} {s : ScanState} {cs inner rest : List Char}
    (h : closingFrom pos s cs = .ok (inner, rest)) : rest.length < cs.length := by
  induction cs generalizing pos s inner with
  | nil => simp [closingFrom] at h
  | cons c cs ih =>
    have more : ∀ t, ((closingFrom (pos + c.utf8Size) t cs).map fun (i, r) => (c :: i, r)) =
        .ok (inner, rest) → rest.length < (c :: cs).length := by
      intro t ht
      cases hc : closingFrom (pos + c.utf8Size) t cs with
      | error e => simp [hc, Except.map] at ht
      | ok x =>
        obtain ⟨i, r⟩ := x
        simp only [hc, Except.map, Except.ok.injEq, Prod.mk.injEq] at ht
        obtain ⟨_, rfl⟩ := ht
        exact Nat.lt_succ_of_lt (ih hc)
    simp only [closingFrom] at h
    split at h
    · split at h
      · simp only [Except.ok.injEq, Prod.mk.injEq] at h; simp [h.2]
      · split at h
        · simp at h
        · split at h
          · simp only [Except.ok.injEq, Prod.mk.injEq] at h; simp [h.2]
          · exact more _ h
    · exact more _ h

end Stencil
