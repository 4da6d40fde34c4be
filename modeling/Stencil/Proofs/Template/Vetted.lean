import Stencil.Proofs.Expr.Negated
import Stencil.Proofs.Template.Balance

/-! # What the lexer lets through

A template is vetted while it is read: wherever its tokens hold a text the interpolations of that
are closed, wherever they hold an expression it can be parsed, and loops have variables. Or a fault
is found in the text, and that is one of the reader's own: it names no file, and it is not about
blocks or modules. Tokens and faults are on lines of the text. -/

namespace Stencil

def compileCodes : List ErrorCode :=
  [.duplicateBlock, .missingBlock, .moduleNotFound, .invalidModuleReference, .circularInheritance]

structure HasLine (lines line : Nat) : Prop where
  first : 1 ≤ line
  last : line ≤ lines

/-- A fault of a text that is not yet known to be of any file. -/
structure Diagnostic.IsLexical (lines : Nat) (e : Diagnostic) : Prop where
  code : compileCodes.contains e.cause.code = false
  filename : e.filename = none
  unbound : ∀ l ∈ e.labels, l.file = none
  line : ∃ n, e.line = some n ∧ HasLine lines n

abbrev Vets {α : Type} (lines : Nat) (good : α → Prop) (r : Result α) : Prop :=
  Ensures (Diagnostic.IsLexical lines) good r

/-! ## Lines -/

structure Cursor.Within (lines : Nat) (c : Cursor) : Prop where
  first : 1 ≤ c.line
  last : c.line + newlines c.rest ≤ lines

namespace Cursor.Within

variable {lines : Nat} {c d : Cursor}

theorem ofText (cs : List Char) : (Cursor.ofText cs).Within (1 + newlines cs) :=
  ⟨Nat.le_refl 1, Nat.le_refl _⟩

theorem hasLine (h : c.Within lines) : HasLine lines c.line :=
  ⟨h.first, (Nat.le_add_right ..).trans h.last⟩

theorem advance (h : c.Within lines) (n : Nat) : (c.advance n).Within lines := by
  have hsplit : newlines c.rest = newlines (c.rest.take n) + newlines (c.rest.drop n) := by
    simp only [newlines]
    rw [← List.count_append, List.take_append_drop]
  have hlast := h.last
  refine ⟨h.first.trans (Nat.le_add_right ..), ?_⟩
  simp only [Cursor.advance]
  omega

theorem reaches (h : c.Within lines) (hr : c.Reaches d) : d.Within lines := by
  obtain ⟨n, rfl⟩ := hr
  exact h.advance n

theorem skipWhile (h : c.Within lines) (p : Char → Bool) : (c.skipWhile p).Within lines :=
  h.advance _

theorem skipIndent (h : c.Within lines) : c.skipIndent.Within lines :=
  h.advance _

theorem skipLine (h : c.Within lines) : c.skipLine.Within lines :=
  h.advance _

theorem next (h : c.Within lines) (hc : '\n' ∈ c.rest) : HasLine lines (c.line + 1) := by
  have hpos : 0 < newlines c.rest := List.count_pos_iff.2 hc
  have hlast := h.last
  exact ⟨Nat.le_add_left .., by omega⟩

end Cursor.Within

theorem isLexical_atSpan {lines line : Nat} (h : HasLine lines line) {cause : Cause}
    (hcode : compileCodes.contains cause.code = false) (span : Span) :
    (Diagnostic.atSpan cause span line).IsLexical lines :=
  ⟨hcode, rfl, List.forall_mem_singleton.2 rfl, line, rfl, h⟩

theorem ScanError.isLexical {lines line : Nat} (h : HasLine lines line) (e : ScanError) (base : Nat)
    (text : List Char) : (e.diagnostic base line text).IsLexical lines := by
  obtain ⟨fault, offset⟩ := e
  cases fault with
  | unclosed c => exact isLexical_atSpan h rfl _
  | unclosedString => exact isLexical_atSpan h rfl _
  | wrongBracket b c => exact isLexical_atSpan h rfl _

open Template

/-! ## Texts and expressions -/

section

variable {lines line : Nat} (h : HasLine lines line)
include h

theorem vets_checkExpr (source : List Char) (base : Nat) :
    Vets lines (fun _ => Expr.accepts (String.ofList source) = true)
      (checkExpr source base line) := by
  unfold checkExpr
  cases hp : Expr.parse (String.ofList source) with
  | error e => exact isLexical_atSpan h rfl _
  | ok e =>
    change Expr.accepts _ = true
    rw [Expr.accepts, hp]
    rfl

theorem vets_checkSegments (base : Nat) (ss : List Segment) :
    Vets lines
      (fun _ => ∀ e escape offset, .interpolation e escape offset ∈ ss → Expr.accepts e = true)
      (checkSegments base line ss) := by
  induction ss with
  | nil => exact fun _ _ _ h => nomatch h
  | cons s ss ih =>
    cases s with
    | literal t =>
      refine Ensures.imp ih ?_
      intro _ h e escape offset he
      exact h e escape offset (by simpa using he)
    | interpolation e escape offset =>
      refine Ensures.bind (vets_checkExpr h e.toList _) ?_
      intro _ hexpr
      refine Ensures.imp ih ?_
      intro _ h x b n hx
      rw [String.ofList_toList] at hexpr
      rcases List.mem_cons.1 hx with hx | hx
      · injection hx with he
        rw [he]
        exact hexpr
      · exact h x b n hx

theorem vets_checkText (text : List Char) (base : Nat) :
    Vets lines (fun _ => Readable (String.ofList text)) (checkText text base line) := by
  unfold checkText
  cases hs : segmentsFrom 0 [] text with
  | error e => exact e.isLexical h base text
  | ok ss =>
    refine Ensures.imp (vets_checkSegments h base ss) ?_
    intro _ hss
    refine ⟨ss, ?_, hss⟩
    rw [segments, String.toList_ofList, hs]

end

/-- A text without markers holds nothing to interpolate. -/
theorem segmentsFrom_plain {cs : List Char} (h : ∀ c ∈ cs, isMarker c = false) (pos : Nat)
    (acc : List Char) : ∃ ss, segmentsFrom pos acc cs = .ok ss ∧ isPlain ss = true := by
  induction cs generalizing pos acc with
  | nil =>
    rw [segmentsFrom]
    simp only [marker?]
    refine ⟨_, rfl, ?_⟩
    unfold consLiteral
    split <;> rfl
  | cons c cs ih =>
    have hm : marker? (c :: cs) = none := by
      unfold marker?
      split
      · next m r heq =>
        obtain ⟨-, rfl⟩ := List.cons.inj heq
        rw [h m (by simp)]
        rfl
      · next m r heq =>
        obtain ⟨rfl, -⟩ := List.cons.inj heq
        rw [h c (by simp)]
        rfl
      · rfl
    rw [segmentsFrom]
    split
    · next h' => rw [hm] at h'; cases h'
    · next h' => rw [hm] at h'; cases h'
    · exact ih (fun x hx => h x (List.mem_cons_of_mem _ hx)) _ _

theorem readable_plain {cs : List Char} (h : ∀ c ∈ cs, isMarker c = false) :
    Readable (String.ofList cs) := by
  obtain ⟨ss, hss, hplain⟩ := segmentsFrom_plain h 0 []
  refine ⟨ss, ?_, ?_⟩
  · rw [segments, String.toList_ofList, hss]
  · intro e escape offset hmem
    have := List.all_eq_true.1 hplain _ hmem
    cases this

/-! ## Attributes -/

/-- What the compiler reads again of a value. -/
def AttrValue.Checked : AttrValue → Prop
  | .boolean => True
  | .literal text => Readable text
  | .expr e => Expr.accepts e = true

def CheckedAttrs (as : List Attribute) : Prop :=
  ∀ a ∈ as, a.value.Checked

namespace Attribute

variable {lines : Nat} {c : Cursor}

theorem vets_classify {line : Nat} (h : HasLine lines line) (raw : List Char) (pos : Nat) :
    Vets lines AttrValue.Checked (classify raw pos line) := by
  have hexpr : ∀ e, Expr.parse (String.ofList raw) = .ok e →
      AttrValue.Checked (.expr (String.ofList raw)) := by
    intro e he
    change Expr.accepts _ = true
    rw [Expr.accepts, he]
    rfl
  unfold classify
  split
  · exact isLexical_atSpan h rfl _
  · next he =>
    split
    · exact Ensures.bind (vets_checkText h _ _) fun _ h => h
    · exact hexpr _ he
  · next he => exact hexpr _ he

theorem vets_readName (hc : c.Within lines) :
    Vets lines (fun x => x.2.Within lines) (readName c) := by
  have hbare : ∀ name, Vets lines (fun x => x.2.Within lines) (readBareName name c) := by
    intro name
    unfold readBareName
    split
    · exact isLexical_atSpan hc.hasLine rfl _
    · exact hc.advance _
  unfold readName
  split
  · exact hbare []
  · split
    · unfold readQuotedName
      split
      · exact hc.advance _
      · exact isLexical_atSpan hc.hasLine rfl _
    · exact hbare _

theorem vets_readAssign (hc : c.Within lines) :
    Vets lines (fun x => x.2.Within lines) (readAssign c) := by
  unfold readAssign
  split
  · exact hc.advance 2
  · exact hc.advance 1
  · exact isLexical_atSpan hc.hasLine rfl _
  · exact hc

theorem vets_readValue (hc : c.Within lines) (name : List Char) :
    Vets lines (fun x => x.1.Checked ∧ x.2.Within lines) (readValue name c) := by
  simp only [readValue]
  split
  · exact isLexical_atSpan hc.hasLine rfl _
  · exact Ensures.bind (vets_classify hc.hasLine _ _) fun v hv => ⟨hv, hc.advance _⟩

theorem vets_readOne (hc : c.Within lines) :
    Vets lines (fun x => x.1.value.Checked ∧ x.2.Within lines) (readOne c) := by
  unfold readOne
  refine Ensures.bind (vets_readName hc) ?_
  rintro ⟨name, c₁⟩ hc₁
  refine Ensures.bind (vets_readAssign (hc₁.skipWhile Text.isBlank)) ?_
  rintro ⟨sign, c₂⟩ hc₂
  cases sign with
  | none => exact ⟨trivial, hc₂⟩
  | some escaped =>
    refine Ensures.bind (vets_readValue hc₂.skipIndent name) ?_
    intro x hx
    exact hx

theorem vets_readList (hc : c.Within lines) : Vets lines CheckedAttrs (readList c) := by
  fun_induction readList c with
  | case1 c h => exact fun _ ha => nomatch ha
  | case2 c h e he =>
    have := vets_readOne (hc.skipWhile isSeparator)
    rw [he] at this
    exact this
  | case3 c h a d ha hlen ih =>
    have hone := vets_readOne (hc.skipWhile isSeparator)
    rw [ha] at hone
    refine Ensures.map (ih hone.2) ?_
    intro as has
    exact List.forall_mem_cons.2 ⟨hone.1, has⟩

end Attribute

namespace Template

/-! ## Directives -/

def TokenKind.Checked : TokenKind → Prop
  | .attrs as _ => CheckedAttrs as
  | .text t => Readable t
  | .extension _ options => CheckedAttrs options
  | .inclusion _ options => CheckedAttrs options
  | .caseOf e => Expr.accepts e = true
  | .when e => Expr.accepts e = true
  | .each value key e => (∀ n ∈ value :: key.toList, IsVariable n) ∧ Expr.accepts e = true
  | .whileTrue e => Expr.accepts e = true
  | .ifTrue e => Expr.accepts e = true
  | .unlessTrue e => Expr.accepts e = true
  | .elseIf e => Expr.accepts e = true
  | _ => True

variable {lines : Nat} {c : Cursor}

theorem vets_readMap {α β : Type} {good : α × Cursor → Prop} {fine : β → Prop} {f : α → β}
    {r : Result (α × Cursor)} (hr : Vets lines good r) (hf : ∀ x, good x → fine (f x.1)) :
    Vets lines (fun x => fine x.1) (readMap f r) := by
  cases r with
  | error e => exact hr
  | ok x => exact hf x hr

/-- What is between parentheses has no more lines than what follows the first of them. -/
theorem within_list (hc : c.Within lines) {inner rest : List Char}
    (h : closing 1 '(' c.rest.tail = .ok (inner, rest)) :
    (Cursor.mk (c.pos + 1) c.line inner).Within lines := by
  obtain ⟨b, hsplit⟩ := closingFrom_split h
  have hsub : inner.Sublist c.rest := by
    refine List.Sublist.trans ?_ (List.tail_sublist c.rest)
    rw [hsplit]
    exact List.sublist_append_left inner (b :: rest)
  have hcount : Cursor.newlines inner ≤ Cursor.newlines c.rest := hsub.count_le '\n'
  have hlast := hc.last
  exact ⟨hc.first, by dsimp only; omega⟩

theorem vets_readAttrs (hc : c.Within lines) :
    Vets lines (fun x => CheckedAttrs x.1 ∧ x.2.Within lines) (readAttrs c) := by
  unfold readAttrs
  split
  · exact ScanError.isLexical hc.hasLine _ _ _
  · next hlist =>
    exact Ensures.bind (Attribute.vets_readList (within_list hc hlist)) fun as has =>
      ⟨has, hc.advance _⟩

theorem isLexical_strayText (hc : c.Within lines) : (strayText c).IsLexical lines :=
  isLexical_atSpan hc.hasLine rfl _

theorem isLexical_faultUpTo (hc : c.Within lines) {cause : Cause}
    (hcode : compileCodes.contains cause.code = false) (start : Nat) :
    (faultUpTo cause start c).IsLexical lines :=
  isLexical_atSpan hc.hasLine hcode _

theorem vets_readExprLine (hc : c.Within lines) (word : String) :
    Vets lines (fun x => Expr.accepts x.1 = true) (readExprLine word c) := by
  have he := (hc.advance word.length).skipIndent
  simp only [readExprLine]
  split
  · exact isLexical_faultUpTo he.skipLine rfl _
  · exact Ensures.bind (vets_checkExpr he.hasLine _ _) fun _ h => h

theorem vets_readBare (hc : c.Within lines) : Vets lines (fun _ => True) (readBare c) := by
  simp only [readBare]
  split
  · trivial
  · exact isLexical_strayText hc.skipIndent

theorem vets_readBlockName (hc : c.Within lines) :
    Vets lines (fun _ => True) (readBlockName c) := by
  simp only [readBlockName]
  split
  · trivial
  · exact isLexical_faultUpTo hc.skipIndent.skipLine rfl _

theorem vets_readOptions (hc : c.Within lines) :
    Vets lines (fun x => CheckedAttrs x.1 ∧ x.2.Within lines) (readOptions c) := by
  unfold readOptions
  split
  · exact Ensures.bind (vets_readAttrs hc) fun x hx => ⟨hx.1, hx.2.skipIndent⟩
  · exact ⟨fun _ ha => (nomatch ha), hc⟩

theorem vets_readReference (hc : c.Within lines) (word : String) :
    Vets lines (fun x => CheckedAttrs x.1.2) (readReference word c) := by
  unfold readReference
  refine Ensures.bind (vets_readOptions (hc.advance word.length).skipIndent) ?_
  rintro ⟨options, d⟩ ⟨hoptions, hd⟩
  dsimp only
  split
  · exact isLexical_faultUpTo hd.skipLine rfl _
  · exact hoptions

theorem vets_readWithExpr (hc : c.Within lines) {word : String} {kind : String → TokenKind}
    (hk : ∀ e, (kind e).Checked = (Expr.accepts e = true)) :
    Vets lines (fun x => x.1.Checked) (readWithExpr word kind c) := by
  refine vets_readMap (vets_readExprLine hc word) ?_
  intro x hx
  rw [hk]
  exact hx

theorem vets_readModule (hc : c.Within lines) {word : String}
    {kind : String → List Attribute → TokenKind}
    (hk : ∀ reference options, (kind reference options).Checked = CheckedAttrs options) :
    Vets lines (fun x => x.1.Checked) (readModule word kind c) := by
  refine vets_readMap (vets_readReference hc word) ?_
  intro x hx
  rw [hk]
  exact hx

theorem vets_readReplace (hc : c.Within lines) (position : Position) :
    Vets lines (fun x => x.1.Checked) (readReplace position c) :=
  vets_readMap (vets_readBlockName hc) fun _ _ => trivial

theorem isVariable_of_splitName? {cs w rest : List Char} (h : splitName? cs = some (w, rest)) :
    IsVariable (String.ofList w) := by
  cases cs with
  | nil => cases h
  | cons c cs =>
    rw [splitName?] at h
    split at h
    · next hc =>
      obtain ⟨rfl, -⟩ := Prod.mk.inj (Option.some.inj h)
      refine ⟨c, cs.takeWhile fun x => isWordChar x || x == '$', ?_, hc, fun x hx => ?_⟩
      · rw [String.toList_ofList]
        exact List.takeWhile_cons_of_pos (goesOn_of_starts hc)
      · exact List.mem_takeWhile_imp (p := fun x => isWordChar x || x == '$') hx
    · cases h

theorem isVariable_of_splitEach? {text value list : List Char} {key : Option (List Char)}
    (h : splitEach? text = some (value, key, list)) :
    ∀ n ∈ String.ofList value :: (key.map String.ofList).toList, IsVariable n := by
  unfold splitEach? at h
  obtain ⟨⟨v, r₁⟩, hv, h⟩ := Option.bind_eq_some_iff.1 h
  have hvalue := isVariable_of_splitName? hv
  dsimp only at h
  split at h
  · obtain ⟨⟨k, r₂⟩, hk, h⟩ := Option.bind_eq_some_iff.1 h
    obtain ⟨⟨w, r⟩, hw, hk⟩ := Option.map_eq_some_iff.1 hk
    obtain ⟨rfl, -⟩ := Prod.mk.inj hk
    have hkey := isVariable_of_splitName? hw
    dsimp only at h
    split at h
    · split at h
      · simp only [Option.some.injEq, Prod.mk.injEq] at h
        obtain ⟨rfl, rfl, -⟩ := h
        exact List.forall_mem_cons.2 ⟨hvalue, List.forall_mem_singleton.2 hkey⟩
      · cases h
    · cases h
  · rw [Option.bind_eq_bind, Option.bind_some] at h
    dsimp only at h
    split at h
    · split at h
      · simp only [Option.some.injEq, Prod.mk.injEq] at h
        obtain ⟨rfl, rfl, -⟩ := h
        exact List.forall_mem_singleton.2 hvalue
      · cases h
    · cases h

theorem vets_readEach (hc : c.Within lines) (word : String) :
    Vets lines (fun x => x.1.Checked) (readEach word c) := by
  have hd := (hc.advance word.length).skipIndent
  simp only [readEach]
  split
  · exact isLexical_faultUpTo hd.skipLine rfl _
  · next he =>
    exact Ensures.bind (vets_checkExpr hd.hasLine _ _) fun _ h => ⟨isVariable_of_splitEach? he, h⟩

theorem vets_readTextLine (hc : c.Within lines) :
    Vets lines (fun x => x.1.Checked) (readTextLine c) := by
  unfold readTextLine
  exact Ensures.bind (vets_checkText (hc.advance _).hasLine _ _) fun _ h => h

theorem vets_readReplaceLine (hc : c.Within lines) :
    Vets lines (fun x => x.1.Checked) (readReplaceLine c) := by
  have he := (hc.advance 7).skipIndent
  simp only [readReplaceLine]
  split
  · next hp => exact vets_readReplace (he.reaches (readPosition_reaches hp)) _
  · exact vets_readReplace he _

theorem vets_readBlockLine (hc : c.Within lines) :
    Vets lines (fun x => x.1.Checked) (readBlockLine c) := by
  have he := (hc.advance 5).skipIndent
  simp only [readBlockLine]
  split
  · next hp => exact vets_readReplace (he.reaches (readPosition_reaches hp)) _
  · exact vets_readMap (vets_readBlockName he) fun _ _ => trivial

theorem vets_readElse (hc : c.Within lines) : Vets lines (fun x => x.1.Checked) (readElse c) := by
  have he := (hc.advance 4).skipIndent
  simp only [readElse]
  split
  · exact vets_readWithExpr he fun _ => rfl
  · exact vets_readMap (vets_readBare he) fun _ _ => trivial

theorem vets_readDoctype (c : Cursor) : Vets lines (fun x => x.1.Checked) (readDoctype c) :=
  trivial

section

-- The readers that are named here are not to be run.
attribute [local irreducible] Ensures

theorem directives_vet (hc : c.Within lines) :
    ∀ d ∈ directives, Vets lines (fun x => x.1.Checked) (d.2 c) := by
  simp only [directives, List.mem_cons, List.not_mem_nil, or_false, forall_eq_or_imp, forall_eq]
  have hdefault : Vets lines (fun x => x.1.Checked) (readDefault c) :=
    vets_readMap (vets_readBare (hc.advance 7)) fun _ _ => trivial
  exact ⟨vets_readDoctype c, vets_readWithExpr hc fun _ => rfl, vets_readWithExpr hc fun _ => rfl,
    hdefault, vets_readModule hc fun _ _ => rfl, vets_readModule hc fun _ _ => rfl,
    vets_readModule hc fun _ _ => rfl, vets_readReplaceLine hc, vets_readReplace (hc.advance 6) _,
    vets_readReplace (hc.advance 7) _, vets_readBlockLine hc, vets_readWithExpr hc fun _ => rfl,
    vets_readWithExpr hc fun _ => rfl, vets_readWithExpr hc fun _ => rfl, vets_readElse hc,
    vets_readWithExpr hc fun _ => rfl, vets_readEach hc "each", vets_readEach hc "for"⟩

end

theorem vets_readDirective (hc : c.Within lines) {indent : Nat} {r : Result (TokenKind × Cursor)}
    (h : readDirective indent c = some r) : Vets lines (fun x => x.1.Checked) r := by
  unfold readDirective at h
  split at h
  · next d hd =>
    obtain rfl := Option.some.inj h
    exact directives_vet hc d (List.mem_of_find?_eq_some hd)
  · split at h
    · obtain rfl := Option.some.inj h
      trivial
    · obtain rfl := Option.some.inj h
      exact vets_readTextLine hc
    · cases h

/-! ## Tag lines -/

structure Token.Vetted (lines : Nat) (t : Token) : Prop where
  checked : t.kind.Checked
  line : HasLine lines t.line

def VettedTokens (lines : Nat) (ts : List Token) : Prop :=
  ∀ t ∈ ts, t.Vetted lines

theorem VettedTokens.cons {t : Token} {ts : List Token} (ht : t.Vetted lines)
    (hts : VettedTokens lines ts) : VettedTokens lines (t :: ts) :=
  List.forall_mem_cons.2 ⟨ht, hts⟩

theorem VettedTokens.append {ts us : List Token} (hts : VettedTokens lines ts)
    (hus : VettedTokens lines us) : VettedTokens lines (ts ++ us) := by
  intro t ht
  rcases List.mem_append.1 ht with ht | ht
  · exact hts t ht
  · exact hus t ht

theorem vettedTokens_markSelfClosing {ts : List Token} (h : VettedTokens lines ts) :
    VettedTokens lines (markSelfClosing ts) := by
  unfold markSelfClosing
  split
  · next t ts =>
    obtain ⟨ht, hts⟩ := List.forall_mem_cons.1 h
    split
    · exact .cons ⟨trivial, ht.line⟩ hts
    · next attrs closing hk =>
      have hattrs := ht.checked
      rw [hk] at hattrs
      exact .cons ⟨hattrs, ht.line⟩ hts
    · exact h
  · exact h

theorem readable_className (cs : List Char) : Readable (String.ofList (className cs)) := by
  apply readable_plain
  intro c hc
  have hclass : isClassChar c = true := List.mem_takeWhile_imp hc
  cases hm : isMarker c with
  | false => rfl
  | true =>
    -- neither marker is a character of class names
    rw [isMarker, Bool.or_eq_true, beq_iff_eq, beq_iff_eq] at hm
    rcases hm with rfl | rfl
    · revert hclass; decide
    · revert hclass; decide

theorem linesAfter_eq_nil {cs : List Char} (h : '\n' ∉ cs) : linesAfter none cs = [] := by
  induction cs with
  | nil => rfl
  | cons x cs ih =>
    rw [List.mem_cons, not_or] at h
    rw [linesAfter, if_neg (by simpa using Ne.symm h.1)]
    exact ih h.2

theorem break_of_blockLines {base : Nat} {l : List Char} {ls : List (List Char)} {stop : Cursor}
    (h : c.blockLines base = (l :: ls, stop)) : '\n' ∈ c.rest := by
  by_contra hc
  have hnone : c.blockLines base = ([], c.advance 0) := by
    rw [Cursor.blockLines, linesAfter_eq_nil hc]
    rfl
  rw [hnone] at h
  cases h

theorem vets_readTextBlock (indent : Nat) {acc : List Token} (hacc : VettedTokens lines acc)
    (hc : c.Within lines) :
    Vets lines (fun x => VettedTokens lines x.1) (readTextBlock indent acc c) := by
  unfold readTextBlock
  split
  · exact hacc
  · next hl =>
    have hline := hc.next (break_of_blockLines hl)
    exact Ensures.bind (vets_checkText hline _ _) fun _ h => .cons ⟨h, hline⟩ hacc

theorem vets_readTagPart (indent : Nat) {acc : List Token} (hacc : VettedTokens lines acc)
    (hc : c.Within lines) :
    Vets lines (fun x => VettedTokens lines x.1.1) (readTagPart indent acc c) := by
  unfold readTagPart
  split
  · exact hacc
  · exact hacc
  · dsimp only
    split
    · exact .cons ⟨trivial, hc.hasLine⟩ hacc
    · split
      · exact Ensures.bind (vets_readTextBlock indent hacc hc.skipLine) fun x hx => hx
      · exact isLexical_strayText hc
  · dsimp only
    split
    · exact isLexical_strayText hc
    · refine VettedTokens.cons ⟨?_, hc.hasLine⟩ hacc
      intro a ha
      obtain rfl := List.mem_singleton.1 ha
      exact readable_className _
  · exact Ensures.bind (vets_readAttrs hc) fun x hx => .cons ⟨hx.1, hc.hasLine⟩ hacc
  · exact vettedTokens_markSelfClosing hacc
  · dsimp only
    split
    · split
      · exact hacc
      · exact Ensures.bind (vets_checkText hc.hasLine _ _) fun _ h => .cons ⟨h, hc.hasLine⟩ hacc
    · exact isLexical_strayText hc

theorem vets_readTagParts (indent : Nat) {acc : List Token} (hacc : VettedTokens lines acc)
    (hc : c.Within lines) :
    Vets lines (fun x => VettedTokens lines x.1) (readTagParts indent acc c) := by
  have hpart := vets_readTagPart indent hacc hc
  fun_induction readTagParts indent acc c with
  | case1 acc c e he =>
    rw [he] at hpart
    exact hpart
  | case2 acc c ts d hd =>
    rw [hd] at hpart
    exact hpart
  | case3 acc c ts d hd hlen ih =>
    have hnext := hc.reaches (readTagPart_reaches hd)
    rw [hd] at hpart
    exact ih hpart hnext (vets_readTagPart indent hpart hnext)

theorem vetted_readTagHead (hc : c.Within lines) {d : Cursor} {t : Token}
    (h : readTagHead c = some (t, d)) : t.Vetted lines := by
  unfold readTagHead at h
  split at h
  · split at h
    · split at h
      · cases h
        exact ⟨trivial, hc.hasLine⟩
      · cases h
    · cases h
  · cases h
    exact ⟨trivial, hc.hasLine⟩

/-! ## Lines -/

theorem vets_readLine (indent : Nat) (hc : c.Within lines) :
    Vets lines (fun x => VettedTokens lines x.1) (readLine indent c) := by
  unfold readLine
  split
  · next e he => exact vets_readDirective hc he
  · next kind d hd =>
    have hkind : kind.Checked := vets_readDirective hc hd
    have hline := hc.reaches (readDirective_reaches hd)
    refine VettedTokens.cons ?_ fun _ ht => nomatch ht
    unfold directiveToken
    split
    · exact ⟨hkind, hc.hasLine⟩
    · exact ⟨hkind, hline.hasLine⟩
  · split
    · next t d ht =>
      have hhead : VettedTokens lines [t] := .cons (vetted_readTagHead hc ht) fun _ ht => nomatch ht
      have hparts := vets_readTagParts indent hhead (hc.reaches (readTagHead_reaches ht))
      refine vets_readMap hparts ?_
      intro x hx u hu
      exact hx u (List.mem_reverse.1 hu)
    · exact isLexical_strayText hc

theorem vets_readLevels (l : Levels) (first : Bool) (hc : c.Within lines) :
    Vets lines (fun x => VettedTokens lines x.1) (readLevels l first c) := by
  have hindent : Vets lines (fun _ => True) (checkIndent l.char c) := by
    unfold checkIndent
    dsimp only
    split
    · trivial
    · split
      · exact isLexical_atSpan hc.hasLine rfl _
      · trivial
  refine Ensures.bind hindent ?_
  intro char _
  dsimp only
  split
  · exact .cons ⟨trivial, hc.hasLine⟩ (List.forall_mem_nil _)
  · split
    · split
      · exact isLexical_atSpan hc.hasLine rfl _
      · intro t ht
        obtain ⟨_, -, rfl⟩ := List.mem_map.1 ht
        exact ⟨trivial, hc.hasLine⟩
    · intro t ht
      cases first with
      | true => cases ht
      | false =>
        obtain rfl := List.mem_singleton.1 ht
        exact ⟨trivial, hc.hasLine⟩

theorem vetted_endTokens (l : Levels) (hc : c.Within lines) :
    VettedTokens lines (endTokens l c) := by
  intro t ht
  rcases List.mem_append.1 ht with ht | ht
  · obtain ⟨_, -, rfl⟩ := List.mem_map.1 ht
    exact ⟨trivial, hc.hasLine⟩
  · obtain rfl := List.mem_singleton.1 ht
    exact ⟨trivial, hc.hasLine⟩

theorem vetted_leadAndBody (hc : c.Within lines) {l l' : Levels} {first : Bool} {d : Cursor}
    {indent : Nat} {lead body : List Token} (hlead : readLevels l first c = .ok (lead, l'))
    (hbody : readLine indent c.skipIndent = .ok (body, d)) : VettedTokens lines (lead ++ body) := by
  have hlevels := vets_readLevels l first hc
  rw [hlead] at hlevels
  have hline := vets_readLine indent hc.skipIndent
  rw [hbody] at hline
  exact VettedTokens.append hlevels hline

theorem vets_readLines (l : Levels) (first : Bool) (hc : c.Within lines) :
    Vets lines (VettedTokens lines) (readLines l first c) := by
  have hskip : ∀ {c : Cursor}, c.Within lines → (skipBlankLines c).Within lines :=
    fun hc => hc.reaches (skipBlankLines_reaches _)
  fun_induction readLines l first c with
  | case1 l first c d h => exact vetted_endTokens l (hskip hc)
  | case2 l first c d h e he =>
    have hlevels := vets_readLevels l first (hskip hc)
    rw [he] at hlevels
    exact hlevels
  | case3 l first c d h lead l' hl e he =>
    have hline := vets_readLine (indentWidth d.rest) (hskip hc).skipIndent
    rw [he] at hline
    exact hline
  | case4 l first c d h lead l' hl body e he hr =>
    have hd := (hskip hc).skipIndent.reaches (readLine_reaches he)
    exact (vetted_leadAndBody (hskip hc) hl he).append (vetted_endTokens l' hd)
  | case5 l first c d h lead l' hl body e he r hr hlen ih =>
    have hd := (hskip hc).skipIndent.reaches (readLine_reaches he)
    exact Ensures.map (ih (hd.advance 1)) fun more hmore =>
      (vetted_leadAndBody (hskip hc) hl he).append hmore
  | case6 l first c d h lead l' hl body e he =>
    exact isLexical_strayText ((hskip hc).skipIndent.reaches (readLine_reaches he))

/-- Reading gives checked tokens, or a fault of the text, and both are on lines of it. -/
theorem vets_tokenize (source : String) :
    let lines := 1 + Cursor.newlines (Text.normalizeChars source.toList)
    Vets lines (VettedTokens lines) (tokenize source) :=
  vets_readLines _ _ (.ofText _)

end Template

end Stencil
