/-! # Similar names

The edit distance between two names, and the candidate close enough to one to be suggested for
it. -/

namespace Stencil.Text

/-- One row of the distance table: `diag` and `left` are the neighbours of the next cell, the last
argument is the rest of the row above. -/
def distanceRow (a : Char) : (diag left : Nat) → List Char → List Nat → List Nat
  | diag, left, b :: bs, up :: ups =>
    let here := min (min (up + 1) (left + 1)) (diag + if a == b then 0 else 1)
    here :: distanceRow a up here bs ups
  | _, _, _, _ => []

def distanceRows (t : List Char) : List Char → List Nat → List Nat
  | [], row => row
  | a :: s, row =>
    let top := row.headD 0
    distanceRows t s ((top + 1) :: distanceRow a top (top + 1) t row.tail)

def editDistance (s t : List Char) : Nat :=
  (distanceRows t s (List.range (t.length + 1))).getLastD 0

/-- The nearest candidate, the first of several equally near. -/
def nearest (target : String) : List String → Option (Nat × String)
  | [] => none
  | c :: cs =>
    let d := editDistance target.toList c.toList
    match nearest target cs with
    | some (e, best) => if e < d then some (e, best) else some (d, c)
    | none => some (d, c)

/-- The nearest candidate, if fewer than three edits away. -/
def findSimilar (target : String) (candidates : List String) : Option String :=
  match nearest target candidates with
  | some (d, c) => if d < 3 then some c else none
  | none => none

end Stencil.Text
