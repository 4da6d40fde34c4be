import Stencil.Text.Cursor

/-! # Lines below a line

The lines indented deeper than the one they follow: the text of a tag that ends in a point, and what
is nested under a comment. They are found in one pass. -/

namespace Stencil

def indentWidth (line : List Char) : Nat :=
  (line.takeWhile Text.isIndent).length

/-- The lines of a text after its first one, given the current line's characters, last first, or
none while in the first line. -/
def linesAfter (acc : Option (List Char)) : List Char → List (List Char)
  | [] => match acc with
    | some l => [l.reverse]
    | none => []
  | c :: cs =>
    if c == '\n' then
      match acc with
      | some l => l.reverse :: linesAfter (some []) cs
      | none => linesAfter (some []) cs
    else linesAfter (acc.map (c :: ·)) cs

def linesLength : List (List Char) → Nat
  | [] => 0
  | l :: ls => l.length + 1 + linesLength ls

/-- The deeper lines in one pass, without the indentation `cut` that the first one of them fixes,
and how far they go. The blank lines that were last passed are `waiting`. -/
def scanBelow (base : Nat) (cut : Option Nat) (waiting : List (List Char)) :
    List (List Char) → List (List Char) × Nat
  | [] => ([], 0)
  | l :: ls =>
    if Text.allBlank l then scanBelow base cut (waiting ++ [l]) ls
    else if indentWidth l ≤ base then ([], 0)
    else
      let w := cut.getD (indentWidth l)
      let (texts, n) := scanBelow base (some w) [] ls
      (waiting.map (fun _ => []) ++ l.drop (min w (indentWidth l)) :: texts,
        linesLength (waiting ++ [l]) + n)

/-- The deeper lines below the cursor, which stands at the end of a line, and the cursor at the end
of the last of them. -/
def Cursor.blockLines (c : Cursor) (base : Nat) : List (List Char) × Cursor :=
  let p := scanBelow base none [] (linesAfter none c.rest)
  (p.1, c.advance p.2)

end Stencil
