import Stencil.Template.Lines

/-! # The lines that a pass finds

The lines below a line are those up to the first that is neither blank nor deeper, without the blank
ones in front of that and without the indentation of the first. In the one pass that finds them
blank lines wait until a deeper one follows. -/

namespace Stencil

def dropTrailingBlank (lines : List (List Char)) : List (List Char) :=
  (lines.reverse.dropWhile Text.allBlank).reverse

/-- The lines that follow, as long as they are blank or indented deeper than `base`, without the
blank ones at the end. -/
def deeperLines (base : Nat) (lines : List (List Char)) : List (List Char) :=
  dropTrailingBlank (lines.takeWhile fun l => Text.allBlank l || base < indentWidth l)

def firstIndent (lines : List (List Char)) : Nat :=
  match lines.find? fun l => !Text.allBlank l with
  | some l => indentWidth l
  | none => 0

/-- The lines without the indentation of the first; blank lines are left empty. -/
def unindent (lines : List (List Char)) : List (List Char) :=
  let w := firstIndent lines
  lines.map fun l => if Text.allBlank l then [] else l.drop (min w (indentWidth l))

/-! ## Deeper lines -/

theorem length_lines (ls : List (List Char)) :
    (ls.flatMap ('\n' :: ·)).length = linesLength ls := by
  induction ls with
  | nil => rfl
  | cons l ls ih =>
    rw [List.flatMap_cons, List.length_append, List.length_cons, ih]
    rfl

theorem linesLength_append (us ls : List (List Char)) :
    linesLength (us ++ ls) = linesLength us + linesLength ls := by
  rw [← length_lines, ← length_lines, ← length_lines, List.flatMap_append, List.length_append]

theorem dropTrailingBlank_blanks {blanks : List (List Char)}
    (h : ∀ l ∈ blanks, Text.allBlank l = true) (ls : List (List Char)) :
    dropTrailingBlank (ls ++ blanks) = dropTrailingBlank ls := by
  have hrun : ∀ l ∈ blanks.reverse, Text.allBlank l = true := fun l hl =>
    h l (List.mem_reverse.1 hl)
  rw [dropTrailingBlank, List.reverse_append, List.dropWhile_append_of_pos hrun, dropTrailingBlank]

theorem dropTrailingBlank_line {l : List Char} (hl : Text.allBlank l = false)
    (us ls : List (List Char)) :
    dropTrailingBlank (us ++ l :: ls) = us ++ l :: dropTrailingBlank ls := by
  have hstop : (l :: us.reverse).dropWhile Text.allBlank = l :: us.reverse :=
    List.dropWhile_cons_of_neg (by simp [hl])
  rw [dropTrailingBlank, List.reverse_append, List.reverse_cons, List.append_assoc,
    List.singleton_append, List.dropWhile_append, hstop]
  split
  · next hnil => simp [dropTrailingBlank, List.isEmpty_iff.1 hnil]
  · simp [dropTrailingBlank]

variable {base : Nat}

def staysBelow (base : Nat) (l : List Char) : Bool :=
  Text.allBlank l || base < indentWidth l

theorem deeperLines_eq (ls : List (List Char)) :
    deeperLines base ls = dropTrailingBlank (ls.takeWhile (staysBelow base)) :=
  rfl

theorem deeperLines_line {us : List (List Char)} {l : List Char}
    (hus : ∀ u ∈ us, Text.allBlank u = true ∨ base < indentWidth u) (hl : Text.allBlank l = false)
    (hdeep : base < indentWidth l) (ls : List (List Char)) :
    deeperLines base (us ++ l :: ls) = us ++ l :: deeperLines base ls := by
  have hrun : ∀ u ∈ us, staysBelow base u = true := by simpa [staysBelow] using hus
  rw [deeperLines_eq, List.takeWhile_append_of_pos hrun,
    List.takeWhile_cons_of_pos (by simp [staysBelow, hdeep]), dropTrailingBlank_line hl,
      deeperLines_eq]

theorem deeperLines_stop {blanks more : List (List Char)}
    (hblanks : ∀ l ∈ blanks, Text.allBlank l = true)
    (hmore : ∀ l, more.head? = some l → Text.allBlank l = false ∧ indentWidth l ≤ base) :
    deeperLines base (blanks ++ more) = [] := by
  have hrun : ∀ l ∈ blanks, staysBelow base l = true := by
    intro l hl
    simp [staysBelow, hblanks l hl]
  have hstop : more.takeWhile (staysBelow base) = [] := by
    cases more with
    | nil => rfl
    | cons l more => simp [staysBelow, hmore l rfl]
  have hnone := dropTrailingBlank_blanks hblanks []
  rw [List.nil_append] at hnone
  rw [deeperLines_eq, List.takeWhile_append_of_pos hrun, hstop, List.append_nil, hnone]
  rfl

/-! ## One pass -/

def cutLine (w : Nat) (l : List Char) : List Char :=
  if Text.allBlank l then [] else l.drop (min w (indentWidth l))

theorem unindent_eq (ls : List (List Char)) : unindent ls = ls.map (cutLine (firstIndent ls)) :=
  rfl

theorem firstIndent_line {us : List (List Char)} {l : List Char}
    (hus : ∀ u ∈ us, Text.allBlank u = true) (hl : Text.allBlank l = false)
    (ls : List (List Char)) :
    firstIndent (us ++ l :: ls) = indentWidth l := by
  have hnone : us.find? (fun u => !Text.allBlank u) = none := by
    rw [List.find?_eq_none]
    intro u hu
    simp [hus u hu]
  rw [firstIndent, List.find?_append, hnone, Option.none_or, List.find?_cons_of_pos (by simp [hl])]

theorem scanBelow_waiting {waiting : List (List Char)} (h : ∀ l ∈ waiting, Text.allBlank l = true)
    (cut : Option Nat) (ls : List (List Char)) :
    scanBelow base cut waiting ls =
      ((deeperLines base (waiting ++ ls)).map
          (cutLine (cut.getD (firstIndent (deeperLines base (waiting ++ ls))))),
        linesLength (deeperLines base (waiting ++ ls))) := by
  induction ls generalizing cut waiting with
  | nil =>
    rw [deeperLines_stop h (by simp)]
    rfl
  | cons l ls ih =>
    rw [scanBelow]
    by_cases hl : Text.allBlank l = true
    · -- one more line waits
      have hmore : ∀ x ∈ waiting ++ [l], Text.allBlank x = true := by
        simpa [or_imp, forall_and, hl] using h
      rw [if_pos hl, ih hmore, List.append_assoc]
      rfl
    · rw [if_neg hl]
      rw [Bool.not_eq_true] at hl
      by_cases hdeep : indentWidth l ≤ base
      · rw [if_pos hdeep, deeperLines_stop h (by simp [hl, hdeep])]
        rfl
      · have hkept := deeperLines_line (fun u hu => .inl (h u hu)) hl (Nat.lt_of_not_le hdeep) ls
        have hcut : cut.getD (indentWidth l) =
            cut.getD (firstIndent (waiting ++ l :: deeperLines base ls)) := by
          rw [firstIndent_line h hl]
        have hblank :
          waiting.map (fun _ => []) = waiting.map (cutLine (cut.getD (indentWidth l))) := by
          apply List.map_congr_left
          intro u hu
          simp [cutLine, h u hu]
        have hrest := ih (List.forall_mem_nil _) (some (cut.getD (indentWidth l)))
        rw [List.nil_append, Option.getD_some] at hrest
        simp only [if_neg hdeep, hrest, hkept, ← hcut, hblank]
        simp [cutLine, hl, linesLength_append, linesLength, Nat.add_assoc]

theorem blockLines_eq (c : Cursor) (base : Nat) :
    c.blockLines base = (unindent (deeperLines base (linesAfter none c.rest)),
      c.advance (linesLength (deeperLines base (linesAfter none c.rest)))) := by
  rw [Cursor.blockLines, scanBelow_waiting (List.forall_mem_nil _)]
  rfl

end Stencil
