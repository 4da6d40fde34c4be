import Mathlib.Data.List.DropRight
import Stencil.Proofs.Template.Decoded
import Stencil.Proofs.Template.Interpolated
import Stencil.Proofs.Template.Numbered

/-! # Underlined expressions

Where a template has an expression that cannot be read, the fault is underlined: its label covers
the expression in the text. Only where an expression is read from another text than that of the
template, or from behind blanks, the label is elsewhere, and `Displaced` says where. -/

namespace Stencil

/-! ## Texts without their indentation -/

theorem flatMap_linesAfter (acc cs : List Char) :
    (linesAfter (some acc) cs).flatMap ('\n' :: ·) = '\n' :: (acc.reverse ++ cs) := by
  induction cs generalizing acc with
  | nil => simp [linesAfter]
  | cons c cs ih =>
    rw [linesAfter]
    split
    · next hc =>
      rw [List.flatMap_cons, ih, eq_of_beq hc]
      simp
    · rw [Option.map_some, ih]
      simp

theorem isPrefix_dropTrailingBlank (lines : List (List Char)) : dropTrailingBlank lines <+: lines :=
  List.rdropWhile_prefix Text.allBlank lines

theorem isPrefix_deeperLines (base : Nat) (lines : List (List Char)) :
    deeperLines base lines <+: lines :=
  (isPrefix_dropTrailingBlank _).trans <| List.takeWhile_prefix _

theorem firstIndent_deeperLines {base : Nat} {lines : List (List Char)}
    (h : deeperLines base lines ≠ []) : base < firstIndent (deeperLines base lines) := by
  have hlast := List.rdropWhile_last_not Text.allBlank _ h
  have hdeep : ∀ l ∈ deeperLines base lines, Text.allBlank l = false → base < indentWidth l := by
    intro l hl hblank
    have hrun := List.mem_takeWhile_imp ((isPrefix_dropTrailingBlank _).subset hl)
    simpa [hblank] using hrun
  unfold firstIndent
  split
  · next l hl => exact hdeep l (List.mem_of_find?_eq_some hl) (by simpa using List.find?_some hl)
  · next hnone =>
    have hall := List.find?_eq_none.1 hnone _ (List.getLast_mem h)
    simp only [Bool.not_eq_true', Bool.not_eq_false] at hall
    exact absurd hall hlast

/-! ## Faults of expressions -/

/-- Where a label starts that does not cover the expression `expr` of a text. -/
inductive Displaced (text : List Char) : List Char → Nat → Prop where
  /-- The list of a loop: the label starts at the blanks behind `in`. -/
  | list {blanks expr : List Char} {n : Nat} : StandsAt text ('i' :: 'n' :: (blanks ++ expr)) n →
    blanks ≠ [] → (∀ x ∈ blanks, Text.isBlank x = true) → Displaced text expr (n + 2)
  /-- The value of an attribute: the label starts at the blanks in front, of which the first does
  not indent. -/
  | value {blanks expr : List Char} {n : Nat} : StandsAt text (blanks ++ expr) n →
    blanks ≠ [] → (∀ x ∈ blanks, Text.isBlank x = true) → Stops Text.isIndent blanks →
    Displaced text expr n
  /-- A quoted value: the label is counted in the text without its escapes, from where the value's
  own label would start. -/
  | literal {blanks front inner : List Char} {quote : Char} {n : Nat} :
    StandsAt text (blanks ++ quote :: (front ++ inner)) n → (∀ x ∈ blanks, Text.isBlank x = true) →
    (blanks ≠ [] ∨ Attribute.decode front ≠ front ∨ Attribute.decode inner ≠ inner) →
    Displaced text (Attribute.decode inner) (n + 1 + Text.width (Attribute.decode front))
  /-- A block of text: the label is counted in the lines without their indentation. -/
  | block {lines : List (List Char)} {front expr back : List Char} {n : Nat} :
    StandsAt text (lines.flatMap ('\n' :: ·)) n → 0 < firstIndent lines →
    (unindent lines).flatMap ('\n' :: ·) = '\n' :: (front ++ (expr ++ back)) →
    Displaced text expr (n + 1 + Text.width front)

/-- The label of a fault of `expr` that starts at `start` covers that, or it is displaced. -/
def Located (text expr : List Char) (start : Nat) : Prop :=
  Text.slice start (start + Text.width expr) text = expr ∨ Displaced text expr start

/-- A directive without its expression, a loop without its variables or its list, or an attribute
without its value. -/
def Diagnostic.LacksExpr (e : Diagnostic) : Prop :=
  ∃ name reason span line, e = .atSpan (.badExpression name reason) span line ∧
    (reason = "missing expression" ∨ reason = "missing attribute value" ∨
      ∃ word, reason = "expected " ++ backquoted (word ++ " value[, key] in expression"))

/-- A fault of syntax is a lack of an expression, or it is of one that cannot be read and is
located. -/
def Diagnostic.Underlined (text : List Char) (e : Diagnostic) : Prop :=
  e.cause.code = .syntaxError → e.LacksExpr ∨ ∃ expr start line reason,
    Expr.parse (String.ofList expr) = .error reason ∧
      e = badExpression expr start line reason.message ∧ Located text expr start

abbrev Underlines {α : Type} (text : List Char) (good : α → Prop) (r : Result α) : Prop :=
  Ensures (Diagnostic.Underlined text) good r

section

variable {text : List Char}

theorem underlined_other {cause : Cause} (h : (cause.code == .syntaxError) = false) (span : Span)
    (line : Nat) : (Diagnostic.atSpan cause span line).Underlined text :=
  fun hcode => absurd hcode (beq_eq_false_iff_ne.1 h)

theorem underlined_scanError (e : ScanError) (base line : Nat) (cs : List Char) :
    (e.diagnostic base line cs).Underlined text := by
  obtain ⟨fault, offset⟩ := e
  cases fault with
  | unclosed c => exact underlined_other rfl _ _
  | unclosedString => exact underlined_other rfl _ _
  | wrongBracket b c => exact underlined_other rfl _ _

theorem underlined_lacking {name reason : String} (span : Span) (line : Nat)
    (h : reason = "missing expression" ∨ reason = "missing attribute value" ∨
      ∃ word, reason = "expected " ++ backquoted (word ++ " value[, key] in expression")) :
    (Diagnostic.atSpan (.badExpression name reason) span line).Underlined text :=
  fun _ => .inl ⟨name, reason, span, line, rfl, h⟩

theorem underlined_badExpr {expr : List Char} {start : Nat} (line : Nat) {reason : Expr.SyntaxError}
    (hparse : Expr.parse (String.ofList expr) = .error reason) (h : Located text expr start) :
    (badExpression expr start line reason.message).Underlined text :=
  fun _ => .inr ⟨expr, start, line, reason, hparse, rfl, h⟩

/-! ## Texts and expressions -/

theorem underlines_checkExpr {expr : List Char} {start : Nat} (h : Located text expr start)
    (line : Nat) :
    Underlines text (fun _ => True) (checkExpr expr start line) := by
  unfold checkExpr
  split
  · trivial
  · next hparse => exact underlined_badExpr line hparse h

theorem underlines_checkSegments {base : Nat} {ss : List Segment}
    (h : ∀ e escape offset, .interpolation e escape offset ∈ ss →
      Located text e.toList (base + offset))
    (line : Nat) : Underlines text (fun _ => True) (checkSegments base line ss) := by
  induction ss with
  | nil => trivial
  | cons s ss ih =>
    have hss := ih fun e escape offset hmem => h e escape offset (List.mem_cons_of_mem _ hmem)
    cases s with
    | literal t => exact hss
    | interpolation e escape offset =>
      have hexpr := h e escape offset (List.mem_cons_self ..)
      exact Ensures.bind (underlines_checkExpr hexpr line) fun _ _ => hss

/-- In whatever text an expression is found, it is located if each part of that text would be. -/
theorem underlines_checkText {cs : List Char} {base : Nat}
    (h : ∀ front expr back, cs = front ++ (expr ++ back) → Located text expr
      (base + Text.width front))
    (line : Nat) : Underlines text (fun _ => True) (checkText cs base line) := by
  unfold checkText
  split
  · exact underlined_scanError _ _ _ _
  · next ss hss =>
    refine underlines_checkSegments ?_ line
    intro e escape offset hmem
    have hfrom : segmentsFrom (Text.width []) [] cs = .ok ss := hss
    obtain ⟨front, back, hcs, rfl, -⟩ := stands_segmentsFrom hfrom _ hmem
    exact h front e.toList _ hcs

theorem StandsAt.located {expr : List Char} {n : Nat} (h : StandsAt text expr n) :
    Located text expr n :=
  .inl h.slice

theorem underlines_checkText_here {cs : List Char} {base : Nat} (h : StandsAt text cs base)
    (line : Nat) :
    Underlines text (fun _ => True) (checkText cs base line) := by
  refine underlines_checkText ?_ line
  rintro front expr back rfl
  exact h.part.located

end

/-! ## Attributes -/

theorem Text.trim_split (cs : List Char) :
    ∃ tail, cs = cs.takeWhile Text.isBlank ++ (Text.trim cs ++ tail) := by
  obtain ⟨tail, hsplit, -⟩ := Text.dropTail_split Text.isBlank (Text.trimStart cs)
  refine ⟨tail, ?_⟩
  conv_lhs => rw [← List.takeWhile_append_dropWhile (p := Text.isBlank) (l := cs)]
  exact congrArg (cs.takeWhile Text.isBlank ++ ·) hsplit

theorem Cursor.Reads.standsAt_lineText {text : List Char} {c : Cursor} (h : c.Reads text) :
    StandsAt text c.lineText c.pos := by
  have hstands := h.standsAt
  rw [← List.takeWhile_append_dropWhile (p := (· != '\n')) (l := c.rest)] at hstands
  exact hstands.left

namespace Attribute

variable {text : List Char} {c : Cursor}

theorem splitValue_append (s : ScanState) (acc cs : List Char) :
    (splitValue s acc cs).1 ++ (splitValue s acc cs).2 = acc.reverse ++ cs := by
  fun_induction splitValue s acc cs with
  | case1 => rfl
  | case2 => rfl
  | case3 => rfl
  | case4 s acc c cs _ _ _ _ ih => rw [ih]; simp

theorem quoted_split {raw : List Char} (h : isQuoted raw = true) :
    ∃ q, raw = q :: (unquoted raw ++ [q]) ∧ q.utf8Size = 1 := by
  cases raw with
  | nil => cases h
  | cons q cs =>
    rw [isQuoted, Bool.and_eq_true, Bool.or_eq_true, beq_iff_eq, beq_iff_eq] at h
    obtain ⟨hq, hlast⟩ := h
    obtain ⟨inner, rfl⟩ := List.getLast?_eq_some_iff.1 (eq_of_beq hlast)
    refine ⟨q, ?_, ?_⟩
    · simp [unquoted]
    · rcases hq with rfl | rfl
      · rfl
      · rfl

theorem located_literal {blanks raw front expr back : List Char} {n : Nat}
    (h : StandsAt text (blanks ++ raw) n) (hblanks : ∀ x ∈ blanks, Text.isBlank x = true)
    (hq : isQuoted raw = true) (hdecode : decode (unquoted raw) = front ++ (expr ++ back)) :
    Located text expr (n + 1 + Text.width front) := by
  obtain ⟨q, hraw, hwidth⟩ := quoted_split hq
  obtain ⟨u, v, huv, rfl, hv⟩ := decode_split _ _ _ hdecode
  obtain ⟨inner, w, rfl, rfl, rfl⟩ := decode_split _ _ _ hv
  have hstands : StandsAt text (blanks ++ q :: (u ++ inner)) n := by
    rw [hraw, huv] at h
    refine StandsAt.left (b := w ++ [q]) ?_
    simpa only [List.cons_append, List.append_assoc] using h
  by_cases hsame : blanks = [] ∧ decode u = u ∧ decode inner = inner
  · obtain ⟨rfl, hu, hinner⟩ := hsame
    rw [hu, hinner]
    have hpart : StandsAt text ((q :: u) ++ (inner ++ [])) n := by
      simpa only [List.nil_append, List.cons_append, List.append_nil] using hstands
    have hlocated := hpart.part.located
    rwa [Text.width, hwidth, ← Nat.add_assoc] at hlocated
  · refine .inr (.literal hstands hblanks ?_)
    rwa [not_and_or, not_and_or] at hsame

theorem underlines_classify {blanks raw : List Char} {n : Nat} (h : StandsAt text (blanks ++ raw) n)
    (hblanks : ∀ x ∈ blanks, Text.isBlank x = true) (hstop : Stops Text.isIndent blanks)
    (line : Nat) :
    Underlines text (fun _ => True) (classify raw n line) := by
  unfold classify
  split
  · next hparse =>
    refine underlined_badExpr line hparse ?_
    by_cases hnone : blanks = []
    · subst hnone
      exact h.located
    · exact .inr (.value h hnone hblanks hstop)
  · split
    · next hq =>
      refine Ensures.bind (underlines_checkText ?_ line) fun _ _ => trivial
      intro front expr back hdecode
      exact located_literal h hblanks hq hdecode
    · trivial
  · trivial

theorem underlines_readName (hc : c.Reads text) :
    Underlines text (fun x => x.2.Reads text) (readName c) := by
  have hbare : ∀ name, Underlines text (fun x => x.2.Reads text) (readBareName name c) := by
    intro name
    unfold readBareName
    split
    · exact underlined_other rfl _ _
    · exact hc.advance _
  unfold readName
  split
  · exact hbare []
  · split
    · unfold readQuotedName
      split
      · exact hc.advance _
      · exact underlined_other rfl _ _
    · exact hbare _

theorem underlines_readAssign (hc : c.Reads text) :
    Underlines text (fun x => x.2.Reads text) (readAssign c) := by
  unfold readAssign
  split
  · exact hc.advance 2
  · exact hc.advance 1
  · exact underlined_other rfl _ _
  · exact hc

theorem underlines_readValue (hc : c.Reads text) (hstop : Stops Text.isIndent c.rest)
    (name : List Char) : Underlines text (fun x => x.2.Reads text) (readValue name c) := by
  obtain ⟨tail, hvalue⟩ := Text.trim_split (splitValue .start [] c.rest).1
  have hrest := splitValue_append .start [] c.rest
  rw [hvalue, List.reverse_nil, List.nil_append, List.append_assoc] at hrest
  have hstands : StandsAt text ((splitValue .start [] c.rest).1.takeWhile Text.isBlank ++
      Text.trim (splitValue .start [] c.rest).1) c.pos := by
    refine StandsAt.left (b := tail ++ (splitValue .start [] c.rest).2) ?_
    rw [List.append_assoc, ← List.append_assoc _ tail, hrest]
    exact hc.standsAt
  have hfirst : Stops Text.isIndent ((splitValue .start [] c.rest).1.takeWhile Text.isBlank) := by
    intro x hx
    refine hstop x ?_
    rw [← hrest, List.head?_append, hx]
    rfl
  simp only [readValue]
  split
  · exact underlined_lacking _ _ (.inr (.inl rfl))
  · have hclassify := underlines_classify hstands (fun x hx => List.mem_takeWhile_imp hx)
      hfirst c.line
    exact Ensures.bind hclassify fun _ _ => hc.advance _

theorem underlines_readOne (hc : c.Reads text) :
    Underlines text (fun x => x.2.Reads text) (readOne c) := by
  unfold readOne
  refine Ensures.bind (underlines_readName hc) ?_
  rintro ⟨name, c₁⟩ hc₁
  refine Ensures.bind (underlines_readAssign (hc₁.advance _)) ?_
  rintro ⟨sign, c₂⟩ hc₂
  cases sign with
  | none => exact hc₂
  | some escaped =>
    have hstop : Stops Text.isIndent c₂.skipIndent.rest := by
      rw [c₂.rest_skipIndent]
      exact stops_dropWhile _ _
    exact Ensures.bind (underlines_readValue (hc₂.advance _) hstop name) fun x hx => hx

theorem underlines_readList (hc : c.Reads text) :
    Underlines text (fun _ => True) (readList c) := by
  fun_induction readList c with
  | case1 => trivial
  | case2 c h e he =>
    have hone := underlines_readOne (hc.advance (c.rest.takeWhile isSeparator).length)
    rw [Cursor.skipWhile] at he
    rw [he] at hone
    exact hone
  | case3 c h a d ha hlen ih =>
    have hone := underlines_readOne (hc.advance (c.rest.takeWhile isSeparator).length)
    rw [Cursor.skipWhile] at ha
    rw [ha] at hone
    exact Ensures.map (ih hone) fun _ _ => trivial

end Attribute

namespace Template

variable {text : List Char} {c : Cursor}

/-! ## Directives -/

theorem underlines_readMap {α β : Type} {good : α × Cursor → Prop} {f : α → β}
    {r : Result (α × Cursor)} (hr : Underlines text good r) :
    Underlines text (fun _ => True) (readMap f r) := by
  cases r with
  | error e => exact hr
  | ok x => trivial

theorem underlines_readAttrs (hc : c.Reads text) {cs : List Char} (hcs : c.rest = '(' :: cs) :
    Underlines text (fun x => x.2.Reads text) (readAttrs c) := by
  have hone : (c.advance 1).pos = c.pos + 1 ∧ (c.advance 1).line = c.line := by
    rw [Cursor.advance, hcs]
    exact ⟨rfl, rfl⟩
  unfold readAttrs
  split
  · exact underlined_scanError _ _ _ _
  · next inner rest hlist =>
    have hsplit : (c.advance 1).rest = inner ++ ')' :: rest := by
      rw [Cursor.rest_advance, List.drop_one]
      exact closing_split hlist
    have hinner : Cursor.Reads text ⟨c.pos + 1, c.line, inner⟩ := by
      rw [← hone.1, ← hone.2]
      exact hc.part hsplit
    exact Ensures.bind (Attribute.underlines_readList hinner) fun _ _ => hc.advance _

theorem underlined_strayText (c : Cursor) : (strayText c).Underlined text :=
  underlined_other rfl _ _

theorem underlined_faultUpTo {cause : Cause} (h : (cause.code == .syntaxError) = false)
    (start : Nat)
    (c : Cursor) : (faultUpTo cause start c).Underlined text :=
  underlined_other h _ _

theorem underlines_readExprLine (hc : c.Reads text) (word : String) :
    Underlines text (fun _ => True) (readExprLine word c) := by
  have he := (hc.advance word.length).reaches (.skipIndent _)
  simp only [readExprLine]
  split
  · exact underlined_lacking _ _ (.inl rfl)
  · obtain ⟨tail, hline, -⟩ := Text.dropTail_split Text.isBlank
      (c.advance word.length).skipIndent.lineText
    have hstands := he.standsAt_lineText
    rw [hline] at hstands
    exact Ensures.bind (underlines_checkExpr hstands.left.located _) fun _ _ => trivial

theorem underlines_readBare (c : Cursor) : Underlines text (fun _ => True) (readBare c) := by
  simp only [readBare]
  split
  · trivial
  · exact underlined_strayText _

theorem underlines_readBlockName (c : Cursor) :
    Underlines text (fun _ => True) (readBlockName c) := by
  simp only [readBlockName]
  split
  · trivial
  · exact underlined_faultUpTo rfl _ _

theorem underlines_readOptions (hc : c.Reads text) :
    Underlines text (fun x => x.2.Reads text) (readOptions c) := by
  unfold readOptions
  split
  · next hparen =>
    obtain ⟨cs, hcs⟩ := List.head?_eq_some_iff.1 (eq_of_beq hparen)
    exact Ensures.bind (underlines_readAttrs hc hcs) fun x hx => hx.reaches (.skipIndent _)
  · exact hc

theorem underlines_readReference (hc : c.Reads text) (word : String) :
    Underlines text (fun _ => True) (readReference word c) := by
  unfold readReference
  refine Ensures.bind (underlines_readOptions ((hc.advance word.length).reaches (.skipIndent _))) ?_
  rintro ⟨options, d⟩ hd
  dsimp only
  split
  · exact underlined_faultUpTo rfl _ _
  · trivial

theorem suffix_splitName? {cs name rest : List Char} (h : splitName? cs = some (name, rest)) :
    rest <:+ cs := by
  cases cs with
  | nil => cases h
  | cons c cs =>
    rw [splitName?] at h
    split at h
    · cases h
      exact List.dropWhile_suffix _
    · cases h

theorem splitEach?_list {cs value list : List Char} {key : Option (List Char)}
    (h : splitEach? cs = some (value, key, list)) :
    ∃ front x r, cs = front ++ 'i' :: 'n' :: list ∧ list = x :: r ∧ Text.isIndent x = true := by
  have hlist : ∀ {rest v r : List Char} {k : Option (List Char)} {x : Char}, rest <:+ cs →
      rest = 'i' :: 'n' :: x :: r →
      (if Text.isIndent x && !Text.allBlank r then some (v, k, x :: r) else none) =
        some (value, key, list) →
      ∃ front x r, cs = front ++ 'i' :: 'n' :: list ∧ list = x :: r ∧ Text.isIndent x = true := by
    rintro _ v r k x ⟨front, rfl⟩ rfl h
    split at h
    · next hx =>
      simp only [Option.some.injEq, Prod.mk.injEq] at h
      obtain ⟨-, -, rfl⟩ := h
      exact ⟨front, x, r, rfl, rfl, (Bool.and_eq_true_iff.1 hx).1⟩
    · cases h
  unfold splitEach? at h
  obtain ⟨⟨v, r₁⟩, hv, h⟩ := Option.bind_eq_some_iff.1 h
  have hr₁ : Text.trimStart r₁ <:+ cs := (List.dropWhile_suffix _).trans (suffix_splitName? hv)
  dsimp only at h
  split at h
  · next r hr =>
    obtain ⟨⟨k, r₂⟩, hk, h⟩ := Option.bind_eq_some_iff.1 h
    obtain ⟨⟨w, r₃⟩, hw, hk⟩ := Option.map_eq_some_iff.1 hk
    cases hk
    rw [hr] at hr₁
    have hr₃ : Text.trimStart r₃ <:+ cs :=
      (List.dropWhile_suffix _).trans ((suffix_splitName? hw).trans
        ((List.dropWhile_suffix _).trans ((List.suffix_cons ',' r).trans hr₁)))
    dsimp only at h
    split at h
    · next hrest => exact hlist hr₃ hrest h
    · cases h
  · rw [Option.bind_eq_bind, Option.bind_some] at h
    dsimp only at h
    split at h
    · next hrest => exact hlist hr₁ hrest h
    · cases h

theorem underlines_readReplace (position : Position) (c : Cursor) :
    Underlines text (fun _ => True) (readReplace position c) :=
  underlines_readMap (underlines_readBlockName c)

theorem pos_skipLine (c : Cursor) : c.skipLine.pos = c.pos + Text.width c.lineText := by
  rw [Cursor.skipLine, Cursor.skipWhile, Cursor.advance, take_length_takeWhile]
  rfl

theorem located_list {front list : List Char} {n : Nat}
    (h : StandsAt text (front ++ 'i' :: 'n' :: list) n)
    (hblank : ∃ x r, list = x :: r ∧ Text.isBlank x = true) :
    Located text (Text.trim list)
      (n + Text.width (front ++ 'i' :: 'n' :: list) - Text.width list) := by
  obtain ⟨tail, hlist⟩ := Text.trim_split list
  have hstart : n + Text.width (front ++ 'i' :: 'n' :: list) - Text.width list =
      n + Text.width front + 2 := by
    have hi : 'i'.utf8Size = 1 := rfl
    have hn : 'n'.utf8Size = 1 := rfl
    simp only [Text.width_append, Text.width, hi, hn]
    omega
  have hstands : StandsAt text ('i' :: 'n' :: (list.takeWhile Text.isBlank ++ Text.trim list))
      (n + Text.width front) := by
    refine StandsAt.part (b := tail) ?_
    rw [List.cons_append, List.cons_append, List.append_assoc, ← hlist]
    exact h
  have hne : list.takeWhile Text.isBlank ≠ [] := by
    obtain ⟨x, r, rfl, hx⟩ := hblank
    rw [List.takeWhile_cons_of_pos hx]
    exact List.cons_ne_nil _ _
  rw [hstart]
  exact .inr (.list hstands hne fun x hx => List.mem_takeWhile_imp hx)

theorem underlines_readEach (hc : c.Reads text) (word : String) :
    Underlines text (fun _ => True) (readEach word c) := by
  have he := (hc.advance word.length).reaches (.skipIndent _)
  simp only [readEach]
  split
  · exact underlined_lacking _ _ (.inr (.inr ⟨word, rfl⟩))
  · next value key list hsplit =>
    obtain ⟨front, x, r, hline, hlist, hx⟩ := splitEach?_list hsplit
    have hstands := he.standsAt_lineText
    refine Ensures.bind (underlines_checkExpr ?_ _) fun _ _ => trivial
    rw [pos_skipLine, hline]
    rw [hline] at hstands
    exact located_list hstands ⟨x, r, hlist, Text.isBlank_of_isIndent hx⟩

theorem underlines_readTextLine (hc : c.Reads text) :
    Underlines text (fun _ => True) (readTextLine c) := by
  unfold readTextLine
  have hstands :=
    (hc.advance (if Text.startsWith c.rest ['|', ' '] then 2 else 1)).standsAt_lineText
  exact Ensures.bind (underlines_checkText_here hstands _) fun _ _ => trivial

theorem underlines_readReplaceLine (c : Cursor) :
    Underlines text (fun _ => True) (readReplaceLine c) := by
  simp only [readReplaceLine]
  split
  · exact underlines_readReplace _ _
  · exact underlines_readReplace _ _

theorem underlines_readBlockLine (c : Cursor) :
    Underlines text (fun _ => True) (readBlockLine c) := by
  simp only [readBlockLine]
  split
  · exact underlines_readReplace _ _
  · exact underlines_readMap (underlines_readBlockName _)

theorem underlines_readElse (hc : c.Reads text) :
    Underlines text (fun _ => True) (readElse c) := by
  have he := (hc.advance 4).reaches (.skipIndent _)
  simp only [readElse]
  split
  · exact underlines_readMap (underlines_readExprLine he "if")
  · exact underlines_readMap (underlines_readBare _)

theorem underlines_readDoctype (c : Cursor) : Underlines text (fun _ => True) (readDoctype c) :=
  trivial

section

-- The readers that are named here are not to be run.
attribute [local irreducible] Ensures

theorem underlines_directives (hc : c.Reads text) :
    ∀ d ∈ directives, Underlines text (fun _ => True) (d.2 c) := by
  have expr : ∀ word kind, Underlines text (fun _ => True) (readWithExpr word kind c) :=
    fun word kind => underlines_readMap (underlines_readExprLine hc word)
  have reference : ∀ word kind, Underlines text (fun _ => True) (readModule word kind c) :=
    fun word kind => underlines_readMap (underlines_readReference hc word)
  simp only [directives, List.mem_cons, List.not_mem_nil, or_false, forall_eq_or_imp, forall_eq]
  exact ⟨underlines_readDoctype c, expr _ _, expr _ _, underlines_readMap (underlines_readBare _),
    reference _ _, reference _ _, reference _ _, underlines_readReplaceLine c,
    underlines_readReplace _ _, underlines_readReplace _ _, underlines_readBlockLine c, expr _ _,
    expr _ _, expr _ _, underlines_readElse hc, expr _ _, underlines_readEach hc "each",
    underlines_readEach hc "for"⟩

end

theorem underlines_readDirective (hc : c.Reads text) {indent : Nat}
    {r : Result (TokenKind × Cursor)}
    (h : readDirective indent c = some r) : Underlines text (fun _ => True) r := by
  unfold readDirective at h
  split at h
  · next d hd =>
    obtain rfl := Option.some.inj h
    exact underlines_directives hc d (List.mem_of_find?_eq_some hd)
  · split at h
    · obtain rfl := Option.some.inj h
      trivial
    · obtain rfl := Option.some.inj h
      exact underlines_readTextLine hc
    · cases h

/-! ## Tags -/

theorem underlines_readTextBlock (hc : c.Reads text) (hend : Stops (· != '\n') c.rest)
    (indent : Nat)
    (acc : List Token) : Underlines text (fun _ => True) (readTextBlock indent acc c) := by
  unfold readTextBlock
  split
  · trivial
  · next l ls stop hl =>
    obtain ⟨cs, hcs⟩ := rest_of_blockLines hend hl
    rw [blockLines_eq] at hl
    have hlines : unindent (deeperLines indent (linesAfter none c.rest)) = l :: ls :=
      congrArg Prod.fst hl
    have hstands :
        StandsAt text ((deeperLines indent (linesAfter none c.rest)).flatMap ('\n' :: ·))
          c.pos := by
      obtain ⟨more, hmore⟩ := isPrefix_deeperLines indent (linesAfter none c.rest)
      refine StandsAt.left (b := more.flatMap ('\n' :: ·)) ?_
      rw [← List.flatMap_append, hmore, hcs]
      change StandsAt text ((linesAfter (some []) cs).flatMap ('\n' :: ·)) c.pos
      rw [flatMap_linesAfter, List.reverse_nil, List.nil_append, ← hcs]
      exact hc.standsAt
    have hdeep : 0 < firstIndent (deeperLines indent (linesAfter none c.rest)) := by
      refine Nat.lt_of_le_of_lt (Nat.zero_le indent) (firstIndent_deeperLines ?_)
      intro hnone
      rw [hnone] at hlines
      cases hlines
    refine Ensures.bind (underlines_checkText ?_ _) fun _ _ => trivial
    intro front expr back htext
    have hjoined : (unindent (deeperLines indent (linesAfter none c.rest))).flatMap ('\n' :: ·) =
        '\n' :: (front ++ (expr ++ back)) := by
      rw [hlines, List.flatMap_cons, List.cons_append, htext]
    exact .inr (.block hstands hdeep hjoined)

theorem underlines_readTagPart (hc : c.Reads text) (indent : Nat) (acc : List Token) :
    Underlines text (fun _ => True) (readTagPart indent acc c) := by
  unfold readTagPart
  split
  · trivial
  · trivial
  · dsimp only
    split
    · trivial
    · split
      · have hend : Stops (· != '\n') c.skipLine.rest := by
          rw [c.rest_skipLine]
          exact stops_dropWhile _ _
        exact Ensures.bind (underlines_readTextBlock (hc.advance _) hend indent acc) fun _ _ =>
          trivial
      · exact underlined_strayText c
  · dsimp only
    split
    · exact underlined_strayText c
    · trivial
  · next hrest => exact Ensures.bind (underlines_readAttrs hc hrest) fun _ _ => trivial
  · trivial
  · next x cs _ _ _ _ _ hrest =>
    dsimp only
    split
    · next hindent =>
      have hstands := hc.standsAt
      rw [hrest, ← List.takeWhile_append_dropWhile (p := (· != '\n')) (l := cs)] at hstands
      have hpart := hstands.part (a := [x])
      rw [width_of_isIndent (List.forall_mem_singleton.2 hindent)] at hpart
      split
      · trivial
      · exact Ensures.bind (underlines_checkText_here hpart _) fun _ _ => trivial
    · exact underlined_strayText c

theorem underlines_readTagParts (hc : c.Reads text) (indent : Nat) (acc : List Token) :
    Underlines text (fun _ => True) (readTagParts indent acc c) := by
  have hpart := underlines_readTagPart hc indent acc
  fun_induction readTagParts indent acc c with
  | case1 acc c e he =>
    rw [he] at hpart
    exact hpart
  | case2 => trivial
  | case3 acc c ts d hd hlen ih =>
    have hnext := hc.reaches (readTagPart_reaches hd)
    exact ih hnext (underlines_readTagPart hnext indent ts)

/-! ## Lines -/

theorem underlines_readLine (hc : c.Reads text) (indent : Nat) :
    Underlines text (fun _ => True) (readLine indent c) := by
  unfold readLine
  split
  · next e he => exact underlines_readDirective hc he
  · trivial
  · split
    · next t d ht =>
      exact underlines_readMap (underlines_readTagParts (hc.reaches (readTagHead_reaches ht))
        indent [t])
    · exact underlined_strayText c

theorem underlines_readLevels (l : Levels) (first : Bool) (c : Cursor) :
    Underlines text (fun _ => True) (readLevels l first c) := by
  have hindent : Underlines text (fun _ => True) (checkIndent l.char c) := by
    unfold checkIndent
    dsimp only
    split
    · trivial
    · split
      · exact underlined_other rfl _ _
      · trivial
  refine Ensures.bind hindent ?_
  intro char _
  dsimp only
  split
  · trivial
  · split
    · split
      · exact underlined_other rfl _ _
      · trivial
    · trivial

theorem underlines_readLines (hc : c.Reads text) (l : Levels) (first : Bool) :
    Underlines text (fun _ => True) (readLines l first c) := by
  have hskip : ∀ {c : Cursor}, c.Reads text → (skipBlankLines c).Reads text :=
    fun hc => hc.reaches (skipBlankLines_reaches _)
  fun_induction readLines l first c with
  | case1 => trivial
  | case2 l first c d h e he =>
    have hlevels : Underlines text (fun _ => True) (readLevels l first d) :=
      underlines_readLevels l first d
    rw [he] at hlevels
    exact hlevels
  | case3 l first c d h lead l' hl e he =>
    have hline := underlines_readLine ((hskip hc).reaches (.skipIndent _)) (indentWidth d.rest)
    rw [he] at hline
    exact hline
  | case4 => trivial
  | case5 l first c d h lead l' hl body e he r hr hlen ih =>
    have hd := ((hskip hc).reaches (.skipIndent _)).reaches (readLine_reaches he)
    exact Ensures.map (ih (hd.advance 1)) fun _ _ => trivial
  | case6 => exact underlined_strayText _

/-- **Expressions are underlined.** A fault of syntax in a template is a lack of an expression, or
else of one that cannot be read. That is what the only label covers, unless it is the list of a
loop, a value behind blanks that do not indent, or in a quoted value with escapes or a block of
text. -/
theorem tokenize_underlines (source : String) {d : Diagnostic} (h : tokenize source = .error d)
    (hcode : d.cause.code = .syntaxError) :
    let text := Text.normalizeChars source.toList
    d.LacksExpr ∨ ∃ expr start line reason, Expr.parse (String.ofList expr) = .error reason ∧
      d = badExpression expr start line reason.message ∧
      (Text.slice start (start + Text.width expr) text = expr ∨ Displaced text expr start) := by
  have hreads : (Cursor.ofText (Text.normalizeChars source.toList)).Reads _ := ⟨[], .ofText _⟩
  have hunderlined := underlines_readLines hreads ⟨[], none⟩ true
  unfold tokenize tokenizeChars at h
  rw [h] at hunderlined
  exact hunderlined hcode

/-- An interpolation in the text of a tag, behind a value with one that can be read. -/
theorem tokenize_underlines_page :
    let page := "ul\r\n  li(a='b\\n#\x7bc\x7d') x #\x7by +\x7d z"
    let text := Text.normalizeChars page.toList
    ∃ d, tokenize page = .error d ∧ d.cause.code = .syntaxError ∧
      (d.LacksExpr ∨ ∃ expr start line reason, Expr.parse (String.ofList expr) = .error reason ∧
        d = badExpression expr start line reason.message ∧
        (Text.slice start (start + Text.width expr) text = expr ∨ Displaced text expr start)) ∧
      d.labels.map (·.span) = [⟨25, 28⟩] ∧ Text.slice 25 28 text = "y +".toList := by
  intro page text
  have hreport : (match tokenize page with
      | .ok _ => none
      | .error d => some (d.cause.code, d.labels.map (·.span))) =
          some (.syntaxError, [⟨25, 28⟩]) := by
    decide +kernel
  split at hreport
  · cases hreport
  · next d hd =>
    obtain ⟨hcode, hspan⟩ := Prod.mk.inj (Option.some.inj hreport)
    exact ⟨d, hd, hcode, tokenize_underlines page hd hcode, hspan, by decide +kernel⟩

/-- The label of a loop's list covers the blank in front of it, and not its last character. -/
theorem list_underlined_early :
    let source := "each x in a +"
    let expr := "a +".toList
    ∃ reason, Expr.parse (String.ofList expr) = .error reason ∧
      tokenize source = .error (badExpression expr 9 1 reason.message) ∧
      Text.slice 9 (9 + Text.width expr) (Text.normalizeChars source.toList) = " a ".toList := by
  intro source expr
  have hreport : (match tokenize source, Expr.parse (String.ofList expr) with
      | .error d, .error reason => some (decide (d = badExpression expr 9 1 reason.message))
      | .error _, .ok _ => none
      | .ok _, _ => none) = some true := by
    decide +kernel
  split at hreport
  · next d reason hd hparse =>
    have heq := of_decide_eq_true (Option.some.inj hreport)
    rw [heq] at hd
    exact ⟨reason, hparse, hd, by decide +kernel⟩
  · cases hreport
  · cases hreport

end Template

end Stencil
