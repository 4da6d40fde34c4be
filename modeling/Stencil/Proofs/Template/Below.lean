import Stencil.Proofs.Template.Underlined

/-! # Lines below a line

The lines that a block of text or a comment takes from the text behind its line. -/

namespace Stencil

/-! ## Lines of a text -/

theorem linesAfter_none {behind : List Char} (h : Stops (· != '\n') behind) :
    (linesAfter none behind).flatMap ('\n' :: ·) = behind := by
  cases behind with
  | nil => rfl
  | cons x cs =>
    obtain rfl : x = '\n' := by simpa using h x rfl
    exact flatMap_linesAfter [] cs

theorem not_mem_linesAfter {acc cs : List Char} (hacc : '\n' ∉ acc) :
    ∀ l ∈ linesAfter (some acc) cs, '\n' ∉ l := by
  induction cs generalizing acc with
  | nil => simpa [linesAfter] using hacc
  | cons c cs ih =>
    rw [linesAfter]
    by_cases hc : (c == '\n') = true
    · rw [if_pos hc]
      exact List.forall_mem_cons.2 ⟨by simpa using hacc, ih List.not_mem_nil⟩
    · rw [if_neg hc]
      apply ih
      simp only [beq_iff_eq] at hc
      simp [hacc, Ne.symm hc]

theorem not_mem_linesAfter_none (cs : List Char) : ∀ l ∈ linesAfter none cs, '\n' ∉ l := by
  induction cs with
  | nil => simp [linesAfter]
  | cons c cs ih =>
    rw [linesAfter]
    by_cases hc : (c == '\n') = true
    · rw [if_pos hc]
      exact not_mem_linesAfter List.not_mem_nil
    · rw [if_neg hc]
      exact ih

theorem linesAfter_line {acc l : List Char} (hl : '\n' ∉ l) (ls : List (List Char)) :
    linesAfter (some acc) (l ++ ls.flatMap ('\n' :: ·)) =
      (acc.reverse ++ l) :: linesAfter none (ls.flatMap ('\n' :: ·)) := by
  induction l generalizing acc with
  | nil =>
    cases ls with
    | nil => simp [linesAfter]
    | cons l' ls => simp [linesAfter]
  | cons c l ih =>
    simp only [List.mem_cons, not_or] at hl
    have hc : (c == '\n') = false := by simpa using Ne.symm hl.1
    rw [List.cons_append, linesAfter, hc, if_neg (by decide), Option.map_some, ih hl.2]
    simp

/-- The lines that a text is written with are those that are read from it. -/
theorem linesAfter_flatMap {ls : List (List Char)} (h : ∀ l ∈ ls, '\n' ∉ l) :
    linesAfter none (ls.flatMap ('\n' :: ·)) = ls := by
  induction ls with
  | nil => rfl
  | cons l ls ih =>
    obtain ⟨hl, hls⟩ := List.forall_mem_cons.1 h
    rw [List.flatMap_cons, List.cons_append, linesAfter, if_pos (by decide)]
    change linesAfter (some []) (l ++ ls.flatMap ('\n' :: ·)) = _
    rw [linesAfter_line hl, ih hls]
    simp

/-! ## Deeper lines -/

theorem dropTrailingBlank_split (ls : List (List Char)) :
    ∃ blanks, ls = dropTrailingBlank ls ++ blanks ∧ ∀ l ∈ blanks, Text.allBlank l = true := by
  refine ⟨(ls.reverse.takeWhile Text.allBlank).reverse, ?_, ?_⟩
  · rw [dropTrailingBlank, ← List.reverse_append, List.takeWhile_append_dropWhile,
      List.reverse_reverse]
  · intro l hl
    exact List.mem_takeWhile_imp (List.mem_reverse.1 hl)

theorem getLast?_dropTrailingBlank {ls : List (List Char)} {l : List Char}
    (h : (dropTrailingBlank ls).getLast? = some l) : Text.allBlank l = false := by
  have hnot := List.head?_dropWhile_not Text.allBlank ls.reverse
  rw [dropTrailingBlank, List.getLast?_reverse] at h
  rw [h] at hnot
  exact hnot

variable {base : Nat}

/-- The lines that are kept of the text behind a line indented by `base`: up to the first that is
neither blank nor deeper, and without the blank ones in front of that. -/
structure KeptBelow (base : Nat) (behind : List Char) (kept : List (List Char)) : Prop where
  lines : ∃ blanks more, behind = (kept ++ (blanks ++ more)).flatMap ('\n' :: ·) ∧
    (∀ l ∈ kept ++ (blanks ++ more), '\n' ∉ l) ∧ (∀ l ∈ blanks, Text.allBlank l = true) ∧
    ∀ l, more.head? = some l → Text.allBlank l = false ∧ indentWidth l ≤ base
  deeper : ∀ l ∈ kept, Text.allBlank l = true ∨ base < indentWidth l
  last : ∀ l, kept.getLast? = some l → Text.allBlank l = false

theorem keptBelow_deeperLines {behind : List Char} (h : Stops (· != '\n') behind) :
    KeptBelow base behind (deeperLines base (linesAfter none behind)) := by
  have hsplit := List.takeWhile_append_dropWhile (l := linesAfter none behind)
    (p := staysBelow base)
  obtain ⟨blanks, hrun, hblanks⟩ :=
    dropTrailingBlank_split ((linesAfter none behind).takeWhile (staysBelow base))
  rw [← deeperLines_eq] at hrun
  rw [hrun, List.append_assoc] at hsplit
  refine ⟨⟨blanks, (linesAfter none behind).dropWhile (staysBelow base), ?_, ?_, hblanks, ?_⟩,
    ?_, ?_⟩
  · rw [hsplit, linesAfter_none h]
  · rw [hsplit]
    exact not_mem_linesAfter_none behind
  · intro l hl
    have hnot := List.head?_dropWhile_not (staysBelow base) (linesAfter none behind)
    rw [hl] at hnot
    simpa [staysBelow] using hnot
  · intro l hl
    have hmem : l ∈ (linesAfter none behind).takeWhile (staysBelow base) := by
      rw [hrun]
      exact List.mem_append_left _ hl
    simpa [staysBelow] using List.mem_takeWhile_imp hmem
  · intro l hl
    exact getLast?_dropTrailingBlank hl

/-- The lines that are kept are the deeper ones, and no others are. -/
theorem keptBelow_iff {behind : List Char} (h : Stops (· != '\n') behind)
    {kept : List (List Char)} :
    KeptBelow base behind kept ↔ kept = deeperLines base (linesAfter none behind) := by
  constructor
  · intro hkept
    obtain ⟨blanks, more, rfl, hlines, hblanks, hmore⟩ := hkept.lines
    rw [linesAfter_flatMap hlines]
    rcases List.eq_nil_or_concat' kept with rfl | ⟨us, l, rfl⟩
    · exact (deeperLines_stop hblanks hmore).symm
    · have hl := hkept.last l (by simp)
      have hdeep : base < indentWidth l := by
        rcases hkept.deeper l (by simp) with hblank | hdeep
        · rw [hl] at hblank
          cases hblank
        · exact hdeep
      have hus : ∀ u ∈ us, Text.allBlank u = true ∨ base < indentWidth u := by
        intro u hu
        exact hkept.deeper u (by simp [hu])
      rw [List.append_assoc, List.singleton_append, deeperLines_line hus hl hdeep,
        deeperLines_stop hblanks hmore]
  · rintro rfl
    exact keptBelow_deeperLines h

/-! ## The cursor behind the lines -/

theorem KeptBelow.take_linesLength {behind : List Char} {kept : List (List Char)}
    (h : KeptBelow base behind kept) :
    behind.take (linesLength kept) = kept.flatMap ('\n' :: ·) := by
  obtain ⟨blanks, more, rfl, -⟩ := h.lines
  rw [List.flatMap_append, ← length_lines, List.take_left]

theorem blockLines_kept {c : Cursor} (h : Stops (· != '\n') c.rest) (base : Nat) :
    ∃ kept, KeptBelow base c.rest kept ∧
      c.blockLines base = (unindent kept, c.advance (linesLength kept)) :=
  ⟨_, (keptBelow_iff h).2 rfl, blockLines_eq c base⟩

end Stencil
