import Stencil.Template.Scan

/-! # Interpolated text

A text is split into literal runs and the expressions between its markers: one marker for output
that is escaped, one for output that is not. A backslash in front makes a marker literal. -/

namespace Stencil

inductive Segment where
  | literal (text : String)
  /-- An expression, whether its output is escaped, and its byte offset in the text. -/
  | interpolation (expr : String) (escape : Bool) (offset : Nat)
  deriving DecidableEq, Repr

def isMarker (c : Char) : Bool :=
  c == '#' || c == '!'

def consLiteral (acc : List Char) (segments : List Segment) : List Segment :=
  if acc.isEmpty then segments else .literal (String.ofList acc.reverse) :: segments

/-- A marker and its brace at the front of a text, and whether a backslash makes them literal. -/
def marker? : List Char → Option (Bool × Char × List Char)
  | '\\' :: m :: '\x7b' :: cs => if isMarker m then some (true, m, cs) else none
  | m :: '\x7b' :: cs => if isMarker m then some (false, m, cs) else none
  | _ => none

theorem marker?_rest {cs rest : List Char} {lit : Bool} {m : Char}
    (h : marker? cs = some (lit, m, rest)) :
    rest.length + (if lit then 3 else 2) = cs.length := by
  unfold marker? at h
  split at h
  · split at h
    · obtain ⟨rfl, rfl, rfl⟩ : true = lit ∧ _ = m ∧ _ = rest := by simpa using h
      rfl
    · cases h
  · split at h
    · obtain ⟨rfl, rfl, rfl⟩ : false = lit ∧ _ = m ∧ _ = rest := by simpa using h
      rfl
    · cases h
  · cases h

def segmentsFrom (pos : Nat) (acc cs : List Char) : Except ScanError (List Segment) :=
  match hm : marker? cs with
  | some (true, m, r) =>
    have : r.length < cs.length := by have := marker?_rest hm; simp at this; omega
    segmentsFrom (pos + 3) ('\x7b' :: m :: acc) r
  | some (false, m, r) =>
    match hc : closing (pos + 2) '\x7b' r with
    | .error e => .error e
    | .ok (inner, rest) =>
      have : rest.length < cs.length := by
        have := marker?_rest hm; have := closingFrom_rest hc; simp at *; omega
      do
        let more ← segmentsFrom (pos + 2 + Text.width inner + 1) [] rest
        return consLiteral acc
          (.interpolation (String.ofList inner) (m == '#') (pos + 2) :: more)
  | none => match cs with
    | [] => .ok (consLiteral acc [])
    | c :: r => segmentsFrom (pos + c.utf8Size) (c :: acc) r
termination_by cs.length

def segments (text : String) : Except ScanError (List Segment) :=
  segmentsFrom 0 [] text.toList

def Segment.isLiteral : Segment → Bool
  | .literal _ => true
  | .interpolation _ _ _ => false

def isPlain (segments : List Segment) : Bool :=
  segments.all Segment.isLiteral

end Stencil
