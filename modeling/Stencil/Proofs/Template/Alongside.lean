import Stencil.Proofs.Alike
import Stencil.Proofs.Template.Line

/-! # Lines read side by side

A line is read the same wherever it stands: what its tokens are, and whether and how it fails, does
not depend on where in the source it starts, on how far it is indented, or on the lines that follow,
as long as it opens nothing that goes on below it. -/

namespace Stencil

/-! ## Attribute lists -/

structure Cursor.Moved (c d : Cursor) : Prop where
  line : c.line = d.line
  rest : c.rest = d.rest

theorem Cursor.Moved.advance {c d : Cursor} (h : c.Moved d) (n : Nat) :
    (c.advance n).Moved (d.advance n) := by
  refine ⟨?_, ?_⟩
  · simp only [Cursor.advance, h.line, h.rest]
  · simp only [Cursor.advance, h.rest]

theorem Cursor.Moved.skipWhile {c d : Cursor} (h : c.Moved d) (p : Char → Bool) :
    (c.skipWhile p).Moved (d.skipWhile p) := by
  unfold Cursor.skipWhile
  rw [h.rest]
  exact h.advance _

abbrev MovedAlike {α : Type} : Result (α × Cursor) → Result (α × Cursor) → Prop :=
  Alike fun a b => a.1 = b.1 ∧ a.2.Moved b.2

theorem checkExpr_alike (source : List Char) (base base' line : Nat) :
    Alike (· = ·) (checkExpr source base line) (checkExpr source base' line) := by
  unfold checkExpr
  split
  · exact .ok rfl
  · exact .error rfl rfl

theorem checkSegments_alike (base base' line : Nat) (ss : List Segment) :
    Alike (· = ·) (checkSegments base line ss) (checkSegments base' line ss) := by
  induction ss with
  | nil => exact .ok rfl
  | cons s ss ih =>
    cases s with
    | literal s => exact ih
    | interpolation e escape offset => exact (checkExpr_alike _ _ _ _).bind fun _ _ _ => ih

theorem checkText_alike (text : List Char) (base base' line : Nat) :
    Alike (· = ·) (checkText text base line) (checkText text base' line) := by
  unfold checkText
  split
  · exact .error rfl rfl
  · exact checkSegments_alike _ _ _ _

namespace Attribute

theorem classify_alike (raw : List Char) (pos pos' line : Nat) :
    Alike (· = ·) (classify raw pos line) (classify raw pos' line) := by
  unfold classify
  split
  · exact .error rfl rfl
  · split
    · exact (checkText_alike _ _ _ _).bind fun _ _ _ => .ok rfl
    · exact .ok rfl
  · exact .ok rfl

variable {c d : Cursor} (h : c.Moved d)
include h

theorem readBareName_alike (name : List Char) :
    MovedAlike (readBareName name c) (readBareName name d) := by
  unfold readBareName
  split
  · exact .error rfl (congrArg some h.line)
  · exact .ok ⟨rfl, h.advance _⟩

theorem readName_alike : MovedAlike (readName c) (readName d) := by
  unfold readName
  rw [← h.rest]
  split
  · exact readBareName_alike h []
  · split
    · unfold readQuotedName
      split
      · exact .ok ⟨rfl, h.advance _⟩
      · exact .error rfl (congrArg some h.line)
    · exact readBareName_alike h _

theorem readAssign_alike : MovedAlike (readAssign c) (readAssign d) := by
  unfold readAssign
  rw [← h.rest]
  split
  · exact .ok ⟨rfl, h.advance _⟩
  · exact .ok ⟨rfl, h.advance _⟩
  · exact .error rfl (congrArg some h.line)
  · exact .ok ⟨rfl, h⟩

theorem readValue_alike (name : List Char) : MovedAlike (readValue name c) (readValue name d) := by
  unfold readValue
  rw [← h.rest, ← h.line]
  dsimp only
  split
  · exact .error rfl rfl
  · refine (classify_alike _ _ _ _).bind fun v w hv => ?_
    exact .ok ⟨hv, h.advance _⟩

theorem readOne_alike : MovedAlike (readOne c) (readOne d) := by
  unfold readOne
  refine (readName_alike h).bind ?_
  rintro ⟨name, c₁⟩ ⟨_, d₁⟩ ⟨rfl, h₁⟩
  refine (readAssign_alike (h₁.skipWhile _)).bind ?_
  rintro ⟨sign, c₂⟩ ⟨_, d₂⟩ ⟨rfl, h₂⟩
  cases sign with
  | none => exact .ok ⟨rfl, h₂⟩
  | some escaped =>
    refine (readValue_alike (h₂.skipWhile _) name).bind ?_
    rintro ⟨v, c₃⟩ ⟨_, d₃⟩ ⟨rfl, h₃⟩
    exact .ok ⟨rfl, h₃⟩

omit h

theorem readList_eq (c : Cursor) : readList c =
    if (c.skipWhile isSeparator).rest.isEmpty then .ok []
    else readOne (c.skipWhile isSeparator) >>= fun x => (readList x.2).map (x.1 :: ·) := by
  conv_lhs => rw [readList]
  split
  · rfl
  · split
    · next he => rw [he]; rfl
    · next he => simp only [he]; rfl

theorem readList_alike {c d : Cursor} (h : c.Moved d) :
    Alike (· = ·) (readList c) (readList d) := by
  have hskip := h.skipWhile isSeparator
  rw [readList_eq c, readList_eq d, hskip.rest]
  split
  · exact .ok rfl
  · refine (readOne_alike hskip).with_results.bind ?_
    rintro ⟨a, c'⟩ ⟨_, d'⟩ ⟨hc', -, rfl, h'⟩
    have : c'.rest.length < c.rest.length :=
      Nat.lt_of_lt_of_le (readOne_rest hc') (c.length_skipWhile_le isSeparator)
    exact (readList_alike h').map fun as _ has => has ▸ rfl
termination_by c.rest.length

end Attribute

namespace Template

/-! ## The text left on a line -/

/-- What two sources have below a line: both nothing or both more lines, both blank or both not. -/
structure Below (t t' : List Char) : Prop where
  left : Stops (· != '\n') t
  right : Stops (· != '\n') t'
  isEmpty : t.isEmpty = t'.isEmpty
  blank : Text.allBlank t = Text.allBlank t'

structure Along (u t t' : List Char) (c d : Cursor) : Prop where
  line : c.line = d.line
  single : '\n' ∉ u
  left : c.rest = u ++ t
  right : d.rest = u ++ t'

theorem stops_of_newline {p : Char → Bool} {t : List Char} (h : Stops (· != '\n') t)
    (hp : p '\n' = false) : Stops p t := by
  intro c hc
  obtain rfl : c = '\n' := by simpa using h c hc
  exact hp

theorem head?_line {u t : List Char} {x : Char} (ht : Stops (· != '\n') t) (hx : x ≠ '\n') :
    ((u ++ t).head? == some x) = (u.head? == some x) := by
  cases u with
  | cons c u => rfl
  | nil =>
    cases t with
    | nil => rfl
    | cons c t =>
      obtain rfl : c = '\n' := by simpa using ht c rfl
      simpa using hx.symm

/-- A word that holds no line break is found on the line or not at all. -/
theorem dropStart?_line {u t word : List Char} (ht : Stops (· != '\n') t) (hw : '\n' ∉ word) :
    Text.dropStart? (u ++ t) word = (Text.dropStart? u word).map (· ++ t) := by
  induction word generalizing u with
  | nil => cases u <;> cases t <;> rfl
  | cons x word ih =>
    obtain ⟨hx, hw⟩ := not_or.1 (mt List.mem_cons.2 hw)
    cases u with
    | nil =>
      cases t with
      | nil => rfl
      | cons c t =>
        obtain rfl : c = '\n' := by simpa using ht c rfl
        simp [Text.dropStart?, hx]
    | cons c u =>
      rw [List.cons_append, Text.dropStart?, Text.dropStart?]
      split
      · exact ih hw
      · rfl

theorem startsWord_line {u t : List Char} {c : Cursor} {word : String} (ht : Stops (· != '\n') t)
    (hc : c.rest = u ++ t) (hw : '\n' ∉ word.toList) :
    startsWord c word = startsWord (.ofText u) word := by
  unfold startsWord
  rw [hc, dropStart?_line ht hw, Cursor.ofText]
  cases Text.dropStart? u word.toList with
  | none => rfl
  | some v =>
    cases v with
    | cons x v => rfl
    | nil =>
      cases t with
      | nil => rfl
      | cons x t =>
        obtain rfl : x = '\n' := by simpa using ht x rfl
        rfl

theorem eq_append_of_startsWord {u : List Char} {word : String}
    (h : startsWord (.ofText u) word = true) : ∃ v, u = word.toList ++ v := by
  unfold startsWord at h
  split at h
  · next hd => exact ⟨_, eq_append_of_dropStart? hd⟩
  · next hd => exact ⟨_, eq_append_of_dropStart? hd⟩
  · cases h

namespace Along

variable {u t t' : List Char} {c d : Cursor} (h : Along u t t' c d)
include h

theorem advance {n : Nat} (hn : n ≤ u.length) :
    Along (u.drop n) t t' (c.advance n) (d.advance n) := by
  refine ⟨?_, fun hm => h.single (List.mem_of_mem_drop hm), ?_, ?_⟩
  · simp only [Cursor.advance, h.line, h.left, h.right, List.take_append_of_le_length hn]
  · rw [Cursor.rest_advance, h.left, List.drop_append_of_le_length hn]
  · rw [Cursor.rest_advance, h.right, List.drop_append_of_le_length hn]

theorem word {w v : List Char} {n : Nat} (hu : u = w ++ v) (hn : w.length = n) :
    Along v t t' (c.advance n) (d.advance n) := by
  subst hu
  have hadvance := h.advance (n := n) (by rw [List.length_append]; omega)
  rwa [← hn, List.drop_left, hn] at hadvance

variable (hb : Below t t')
include hb

theorem skipWhile {p : Char → Bool} (hp : p '\n' = false) :
    Along (u.dropWhile p) t t' (c.skipWhile p) (d.skipWhile p) := by
  have hl := takeWhile_append_stops (stops_of_newline hb.left hp) u
  have hr := takeWhile_append_stops (stops_of_newline hb.right hp) u
  unfold Cursor.skipWhile
  rw [h.left, h.right, hl.1, hr.1]
  exact h.word List.takeWhile_append_dropWhile.symm rfl

theorem skipIndent : Along (u.dropWhile Text.isIndent) t t' c.skipIndent d.skipIndent :=
  h.skipWhile hb (by decide)

theorem lineText : c.lineText = u ∧ d.lineText = u := by
  have hrun : ∀ x ∈ u, (x != '\n') = true := by
    intro x hx
    have hne : x ≠ '\n' := fun e => h.single (e ▸ hx)
    simpa using hne
  rw [Cursor.lineText, Cursor.lineText, h.left, h.right]
  exact ⟨takeWhile_run hrun hb.left, takeWhile_run hrun hb.right⟩

theorem skipLine : Along [] t t' c.skipLine d.skipLine := by
  have hskip := h.skipWhile hb (p := (· != '\n')) (by decide)
  have hnil : u.dropWhile (· != '\n') = [] := by
    rw [List.dropWhile_eq_nil_iff]
    intro x hx
    have hne : x ≠ '\n' := fun e => h.single (e ▸ hx)
    simpa using hne
  rwa [hnil] at hskip

theorem startsWord (word : String) (hw : '\n' ∉ word.toList) :
    startsWord c word = startsWord (.ofText u) word ∧
      Template.startsWord d word = Template.startsWord (.ofText u) word :=
  ⟨startsWord_line hb.left h.left hw, startsWord_line hb.right h.right hw⟩

end Along

/-! ## Lists that end on their line -/

end Template

def ScanFault.isOpen : ScanFault → Bool
  | .unclosed _ => true
  | .unclosedString => true
  | .wrongBracket _ _ => false

/-- A scan that ends within a text does not look at what comes behind it. -/
theorem closingFrom_append {pos : Nat} {s : ScanState} {cs : List Char}
    (h : ∀ e, closingFrom pos s cs = .error e → e.fault.isOpen = false) (t : List Char) :
    closingFrom pos s (cs ++ t) = (closingFrom pos s cs).map fun p => (p.1, p.2 ++ t) := by
  induction cs generalizing pos s with
  | nil =>
    have hopen := h _ rfl
    dsimp only at hopen
    split at hopen <;> cases hopen
  | cons c cs ih =>
    have hmore : ∀ s', (∀ e, ((closingFrom (pos + c.utf8Size) s' cs).map fun p =>
        (c :: p.1, p.2)) = .error e → e.fault.isOpen = false) →
        ((closingFrom (pos + c.utf8Size) s' (cs ++ t)).map fun p => (c :: p.1, p.2)) =
          ((closingFrom (pos + c.utf8Size) s' cs).map fun p => (c :: p.1, p.2)).map
            fun p => (p.1, p.2 ++ t) := by
      intro s' hs'
      rw [ih fun e he => hs' e (map_eq_error.2 he)]
      cases closingFrom (pos + c.utf8Size) s' cs <;> rfl
    rw [List.cons_append, closingFrom, closingFrom]
    rw [closingFrom] at h
    dsimp only at h ⊢
    split
    · next hc =>
      rw [if_pos hc] at h
      split
      · rfl
      · next hstack =>
        simp only [hstack] at h
        split
        · rfl
        · next hb =>
          rw [if_neg hb] at h
          split
          · rfl
          · next hbs =>
            rw [if_neg hbs] at h
            exact hmore _ h
    · next hc =>
      rw [if_neg hc] at h
      exact hmore _ h

namespace Template

/-- Whether a list ends within the text behind its opening parenthesis: it is closed there, or
broken off by a bracket that does not match. -/
def endsList (cs : List Char) : Bool :=
  match closing 1 '(' cs with
  | .ok _ => true
  | .error e => !e.fault.isOpen

theorem closing_append {cs : List Char} (h : endsList cs = true) (t : List Char) :
    closing 1 '(' (cs ++ t) = (closing 1 '(' cs).map fun p => (p.1, p.2 ++ t) := by
  refine closingFrom_append (fun e he => ?_) t
  unfold endsList closing at h
  rw [he] at h
  simpa using h

section

variable {u t t' : List Char} {c d : Cursor} (hb : Below t t') (h : Along u t t' c d)
include hb h

theorem readAttrs_alike {v : List Char} (hu : u = '(' :: v) (hv : endsList v = true) :
    Alike (fun a b => a.1 = b.1 ∧
      ∃ inner rest, closing 1 '(' v = .ok (inner, rest) ∧ Along rest t t' a.2 b.2)
      (readAttrs c) (readAttrs d) := by
  have hl : closing 1 '(' c.rest.tail = (closing 1 '(' v).map fun p => (p.1, p.2 ++ t) := by
    rw [h.left, hu]
    exact closing_append hv t
  have hr : closing 1 '(' d.rest.tail = (closing 1 '(' v).map fun p => (p.1, p.2 ++ t') := by
    rw [h.right, hu]
    exact closing_append hv t'
  unfold readAttrs
  rw [hl, hr]
  cases hc : closing 1 '(' v with
  | error e =>
    refine .error ?_ (congrArg some h.line)
    rw [(h.lineText hb).1, (h.lineText hb).2]
    rfl
  | ok p =>
    obtain ⟨inner, rest⟩ := p
    have hmoved : Cursor.Moved ⟨c.pos + 1, c.line, inner⟩ ⟨d.pos + 1, d.line, inner⟩ :=
      ⟨h.line, rfl⟩
    refine (Attribute.readList_alike hmoved).bind fun as _ has => ?_
    obtain ⟨b, hsplit⟩ := closingFrom_split hc
    refine .ok ⟨has, inner, rest, rfl, h.word (w := '(' :: inner ++ [b]) ?_ ?_⟩
    · rw [hu, hsplit]
      simp
    · simp

end

end Template

end Stencil
