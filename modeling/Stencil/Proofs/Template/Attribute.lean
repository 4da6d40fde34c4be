import Stencil.Proofs.Template.Balance
import Stencil.Proofs.Template.Chars

/-! # Attribute lists

Printed attributes are read back: a name goes up to its sign, a value up to the comma behind it, and
a quoted value is a single string whose escapes are undone. -/

namespace Stencil.Template

/-! ## Quoted values -/

theorem escapedChar_cases (c : Char) :
    (escapedChar c = [c] ∧ c ≠ '\\' ∧ c ≠ '"' ∧ c ≠ '\n' ∧ c ≠ '\r') ∨
      ∃ d ∈ ['\\', '"', 'n', 'r', 't'], escapedChar c = ['\\', d] ∧ Expr.escaped d = c := by
  unfold escapedChar
  by_cases h₁ : c = '\\'
  · subst h₁
    exact .inr ⟨'\\', by decide, rfl, rfl⟩
  · by_cases h₂ : c = '"'
    · subst h₂
      exact .inr ⟨'"', by decide, rfl, rfl⟩
    · by_cases h₃ : c = '\n'
      · subst h₃
        exact .inr ⟨'n', by decide, rfl, rfl⟩
      · by_cases h₄ : c = '\r'
        · subst h₄
          exact .inr ⟨'r', by decide, rfl, rfl⟩
        · by_cases h₅ : c = '\t'
          · subst h₅
            exact .inr ⟨'t', by decide, rfl, rfl⟩
          · exact .inl ⟨by simp [h₁, h₂, h₃, h₄, h₅], h₁, h₂, h₃, h₄⟩

theorem decode_plain {c : Char} (h : c ≠ '\\') (cs : List Char) :
    Attribute.decode (c :: cs) = c :: Attribute.decode cs := by
  rw [Attribute.decode]
  all_goals simp [h]

theorem decode_escape {d : Char} (h : d ∈ ['\\', '"', 'n', 'r', 't']) (cs : List Char) :
    Attribute.decode ('\\' :: d :: cs) = Expr.escaped d :: Attribute.decode cs := by
  simp only [List.mem_cons, List.not_mem_nil, or_false] at h
  rcases h with rfl | rfl | rfl | rfl | rfl <;>
    rw [Attribute.decode] <;> simp [isMarker, Expr.escaped]

theorem decode_escaped (text : List Char) :
    Attribute.decode (text.flatMap escapedChar) = text := by
  induction text with
  | nil => rfl
  | cons c text ih =>
    rw [List.flatMap_cons]
    rcases escapedChar_cases c with ⟨hc, hne, -⟩ | ⟨d, hd, hc, he⟩
    · rw [hc, List.singleton_append, decode_plain hne, ih]
    · rw [hc, List.cons_append, List.singleton_append, decode_escape hd, he, ih]

theorem readText_plain {c : Char} (h₁ : c ≠ '\\') (h₂ : c ≠ '"') (h₃ : c ≠ '\n') (start pos : Nat)
    (acc cs : List Char) : Expr.readText '"' start pos acc (c :: cs) =
      Expr.readText '"' start (pos + c.utf8Size) (c :: acc) cs := by
  rw [Expr.readText, if_neg (by simpa using h₂), if_neg (by simpa using h₃)]
  all_goals simp [h₁]

theorem readText_escape {d : Char} (h : d ∈ ['\\', '"', 'n', 'r', 't']) (start pos : Nat)
    (acc cs : List Char) : Expr.readText '"' start pos acc ('\\' :: d :: cs) =
      Expr.readText '"' start (pos + 1 + d.utf8Size) (Expr.escaped d :: acc) cs := by
  simp only [List.mem_cons, List.not_mem_nil, or_false] at h
  rcases h with rfl | rfl | rfl | rfl | rfl <;> rw [Expr.readText] <;> simp

/-- An escaped text is read back as it was, up to the quote behind it. -/
theorem readText_escaped (text : List Char) (start pos : Nat) (acc rest : List Char) :
    ∃ stop, Expr.readText '"' start pos acc (text.flatMap escapedChar ++ '"' :: rest) =
      .ok ⟨.text (String.ofList (acc.reverse ++ text)), stop, rest⟩ := by
  induction text generalizing pos acc with
  | nil =>
    refine ⟨pos + 1, ?_⟩
    rw [List.flatMap_nil, List.nil_append, List.append_nil, Expr.readText,
      if_pos (beq_self_eq_true _)]
    all_goals simp
  | cons c text ih =>
    have hacc : acc.reverse ++ c :: text = (c :: acc).reverse ++ text := by simp
    rw [List.flatMap_cons, List.append_assoc, hacc]
    rcases escapedChar_cases c with ⟨hc, h₁, h₂, h₃, -⟩ | ⟨d, hd, hc, he⟩
    · rw [hc, List.singleton_append, readText_plain h₁ h₂ h₃]
      exact ih ..
    · rw [hc, List.cons_append, List.singleton_append, readText_escape hd, he]
      exact ih ..

theorem parse_text {e s : String} {span : Span} {pos : Nat}
    (h : Expr.tokenize e = ⟨[⟨.text s, span⟩], .eof pos⟩) :
    Expr.parse e = .ok (.lit span (.str s)) := by
  have hoperand : Expr.parseOperand (.eof pos) [⟨.text s, span⟩] =
      .ok ⟨.lit span (.str s), span, [], Nat.lt_succ_self _⟩ := by
    rw [Expr.parseOperand]
    rfl
  have hclimb : Expr.climb (.eof pos) 0 (.lit span (.str s)) span [] =
      .ok ⟨.lit span (.str s), span, [], Nat.lt_succ_self _⟩ := by
    rw [Expr.climb]
    rfl
  have hexpr : Expr.parseExpr (.eof pos) 0 [⟨.text s, span⟩] =
      .ok ⟨.lit span (.str s), span, [], Nat.zero_lt_succ _⟩ := by
    rw [Expr.parseExpr, hoperand]
    simp only [bind, Except.bind, hclimb]
    rfl
  unfold Expr.parse
  rw [h]
  dsimp only
  rw [hexpr]
  rfl

theorem readToken_quoted (text : String) :
    ∃ stop, Expr.readToken 0 (quotedChars text) = .ok ⟨.text text, stop, []⟩ := by
  obtain ⟨stop, hread⟩ := readText_escaped text.toList 0 1 [] []
  refine ⟨stop, ?_⟩
  rw [quotedChars, List.cons_append, Expr.readToken, if_neg (by decide),
    if_neg (by decide +kernel), if_pos (by decide)]
  rw [List.reverse_nil, List.nil_append, String.ofList_toList] at hread
  exact hread

theorem tokenize_quoted (text : String) :
    ∃ span pos, Expr.tokenize (String.ofList (quotedChars text)) =
      ⟨[⟨.text text, span⟩], .eof pos⟩ := by
  obtain ⟨stop, hread⟩ := readToken_quoted text
  have hstops : Stops Text.isBlank (quotedChars text) := stops_cons (by decide)
  have hstart : Expr.startOf 0 (quotedChars text) = 0 := by
    rw [Expr.startOf, hstops.takeWhile]
    rfl
  rw [← hstart] at hread
  rw [Expr.tokenize, String.toList_ofList, Expr.tokensFrom_token hstops.dropWhile hread,
    Expr.tokensFrom_blank rfl]
  exact ⟨_, _, rfl⟩

theorem parse_quoted (text : String) :
    ∃ span, Expr.parse (String.ofList (quotedChars text)) = .ok (.lit span (.str text)) := by
  obtain ⟨span, pos, h⟩ := tokenize_quoted text
  exact ⟨span, parse_text h⟩

theorem isExpr_quoted (text : String) : IsExpr (String.ofList (quotedChars text)) := by
  obtain ⟨span, hparse⟩ := parse_quoted text
  refine ⟨⟨?_, ?_⟩, ?_, ?_⟩
  · rw [String.toList_ofList]
    exact List.cons_ne_nil _ _
  · rw [String.toList_ofList, Text.trim_eq_self_iff]
    refine ⟨stops_cons (by decide), fun c hc => ?_⟩
    rw [quotedChars, List.getLast?_append] at hc
    obtain rfl : '"' = c := by simpa using hc
    decide
  · intro c hc
    rw [String.toList_ofList, quotedChars, List.cons_append, List.mem_cons, List.mem_append,
      List.mem_singleton, List.mem_flatMap] at hc
    rcases hc with rfl | ⟨d, -, hc⟩ | rfl
    · decide
    · rcases escapedChar_cases d with ⟨hd, -, -, h₁, h₂⟩ | ⟨x, hx, hd, -⟩
      · rw [hd, List.mem_singleton] at hc
        subst hc
        exact ⟨h₁, h₂⟩
      · rw [hd] at hc
        rcases List.mem_cons.1 hc with rfl | hc
        · decide
        · have hall : ∀ x ∈ ['\\', '"', 'n', 'r', 't'], x ≠ '\n' ∧ x ≠ '\r' := by decide
          rw [List.mem_singleton.1 hc]
          exact hall x hx
    · decide
  · rw [Expr.accepts, hparse]
    rfl

/-! ## Kinds of values -/

theorem checkSegments_ok {base line : Nat} {ss : List Segment}
    (h : ∀ e escape offset, .interpolation e escape offset ∈ ss → Expr.accepts e = true) :
    checkSegments base line ss = .ok () := by
  induction ss with
  | nil => rfl
  | cons s ss ih =>
    have hss := ih fun e escape offset hmem => h e escape offset (List.mem_cons_of_mem _ hmem)
    cases s with
    | literal t => exact hss
    | interpolation e escape offset =>
      obtain ⟨x, hx⟩ := exists_ok (h e escape offset (List.mem_cons_self ..))
      simp only [checkSegments, checkExpr, String.ofList_toList, hx]
      exact hss

theorem checkText_ok {text : String} (h : Readable text) (base line : Nat) :
    checkText text.toList base line = .ok () := by
  obtain ⟨ss, hs, hall⟩ := h
  rw [segments] at hs
  rw [checkText, hs]
  exact checkSegments_ok hall

theorem checkExpr_ok {e : String} (h : Expr.accepts e = true) (base line : Nat) :
    checkExpr e.toList base line = .ok () := by
  obtain ⟨x, hx⟩ := exists_ok h
  rw [checkExpr, String.ofList_toList, hx]

theorem classify_literal {text : String} (h : Readable text) (pos line : Nat) :
    Attribute.classify (quotedChars text) pos line = .ok (.literal text) := by
  obtain ⟨span, hparse⟩ := parse_quoted text
  have hquoted : Attribute.isQuoted (quotedChars text) = true := by
    simp [quotedChars, Attribute.isQuoted]
  have hdecode : Attribute.decode (Attribute.unquoted (quotedChars text)) = text.toList := by
    rw [Attribute.unquoted, quotedChars, List.cons_append, List.tail_cons, List.dropLast_concat,
      decode_escaped]
  rw [Attribute.classify, hparse]
  dsimp only
  rw [if_pos hquoted, hdecode, checkText_ok h, String.ofList_toList]
  rfl

theorem classify_expr {e : String} (h : Expr.accepts e = true) (hs : ¬ IsString e)
    (pos line : Nat) :
    Attribute.classify e.toList pos line = .ok (.expr e) := by
  obtain ⟨x, hx⟩ := exists_ok h
  rw [Attribute.classify, String.ofList_toList, hx]
  split
  · cases ‹_›
  · next span s heq =>
    rw [if_neg]
    intro hq
    obtain rfl := Except.ok.inj heq
    exact hs ⟨hq, span, s, hx⟩
  · rfl

/-! ## One attribute -/

def Ends (tail : List Char) : Prop :=
  tail = [] ∨ ∃ r, tail = ',' :: r

theorem Ends.stops {tail : List Char} (h : Ends tail) {p : Char → Bool} (hp : p ',' = false) :
    Stops p tail := by
  rcases h with rfl | ⟨r, rfl⟩
  · exact stops_nil
  · exact stops_cons hp

def isBareChar (c : Char) : Bool :=
  !(Text.isBlank c || c == '=' || c == '!' || c == ',' || c == '"' || c == '\'')

structure Printable (a : Attribute) : Prop where
  named : a.name.toList ≠ []
  name : ∀ c ∈ a.name.toList, isBareChar c = true
  value : match a.value with
    | .boolean => a.escaped = true
    | .literal text => Readable text
    | .expr e => Attribute.IsValue e ∧ ¬ IsString e

theorem isBareChar_of_isPlainChar {c : Char} (h : isPlainChar c = true) : isBareChar c = true := by
  simp only [isPlainChar, isQuote, Bool.not_eq_true', Bool.or_eq_false_iff] at h
  simp [isBareChar, h]

theorem WellFormedAttribute.printable {a : Attribute} (h : WellFormedAttribute a) :
    Printable a := by
  obtain ⟨name, value, escaped⟩ := a
  refine ⟨h.name.1, fun c hc => isBareChar_of_isPlainChar (h.name.2 c hc), ?_⟩
  cases value with
  | boolean => exact h.value
  | literal text => exact h.value
  | expr e => exact ⟨Attribute.isValue_of_isExpr h.value.1, h.value.2⟩

theorem not_endsName_of_isBareChar {c : Char} (h : isBareChar c = true) :
    Attribute.endsName c = false := by
  simp only [isBareChar, Bool.not_eq_true', Bool.or_eq_false_iff] at h
  simp [Attribute.endsName, h]

theorem readName_bare {name : String} (hne : name.toList ≠ [])
    (hbare : ∀ c ∈ name.toList, isBareChar c = true) {c : Cursor} {rest : List Char}
    (hc : c.rest = name.toList ++ rest) (hrest : Stops (fun x => !Attribute.endsName x) rest) :
    ∃ d, Attribute.readName c = .ok (name.toList, d) ∧ d.rest = rest := by
  cases hn : name.toList with
  | nil => exact absurd hn hne
  | cons x xs =>
    rw [hn] at hc hbare
    have hx := hbare x (List.mem_cons_self ..)
    have htake : c.rest.takeWhile (fun x => !Attribute.endsName x) = x :: xs := by
      rw [hc]
      refine takeWhile_run (fun y hy => ?_) hrest
      rw [not_endsName_of_isBareChar (hbare y hy)]
      rfl
    have hquote : ¬ (x == '"' || x == '\'') = true := by
      intro hq
      rw [Bool.or_eq_true, beq_iff_eq, beq_iff_eq] at hq
      rcases hq with rfl | rfl <;> cases hx
    refine ⟨c.advance (x :: xs).length, ?_, Cursor.rest_advance_append hc rfl⟩
    unfold Attribute.readName
    split
    · next h => rw [hc] at h; cases h
    · next q cs h =>
      obtain rfl : x = q := by
        rw [hc, List.cons_append, List.cons.injEq] at h
        exact h.1
      rw [if_neg hquote, ← h, htake]
      rfl

theorem skipWhile_stops {c : Cursor} {p : Char → Bool} (h : Stops p c.rest) :
    c.skipWhile p = c := by
  rw [Cursor.skipWhile, h.takeWhile]
  exact c.advance_zero

theorem Trimmed.stops_indent {s : String} (h : Trimmed s) (tail : List Char) :
    Stops Text.isIndent (s.toList ++ tail) := by
  obtain ⟨hne, htrim⟩ := h
  obtain ⟨hfirst, -⟩ := Text.trim_eq_self_iff.1 htrim
  cases hs : s.toList with
  | nil => exact absurd hs hne
  | cons c cs => exact stops_cons (not_indent_of_not_blank (hfirst c (by rw [hs]; rfl)))

theorem readValue_expr {e : String} (h : Attribute.IsValue e) (name : List Char) {c : Cursor}
    {v : AttrValue}
    {tail : List Char} (htail : Ends tail) (hc : c.rest = e.toList ++ tail)
    (hv : Attribute.classify e.toList c.pos c.line = .ok v) :
    ∃ d, Attribute.readValue name c = .ok (v, d) ∧ d.rest = tail := by
  refine ⟨c.advance e.toList.length, ?_, Cursor.rest_advance_append hc rfl⟩
  have hne : ¬ e.toList.isEmpty = true := fun h' => h.trimmed.1 (List.isEmpty_iff.1 h')
  unfold Attribute.readValue
  rw [hc, splitValue_expr h htail]
  dsimp only
  rw [h.trimmed.2, if_neg hne, hv]
  rfl

theorem readOne_value {name e : String} (hne : name.toList ≠ [])
    (hname : ∀ c ∈ name.toList, isBareChar c = true) (h : Attribute.IsValue e) {v : AttrValue}
    {escaped : Bool} (hv : ∀ pos line, Attribute.classify e.toList pos line = .ok v) {c : Cursor}
    {tail : List Char} (htail : Ends tail)
    (hc : c.rest = name.toList ++ ((if escaped then ['='] else ['!', '=']) ++ e.toList ++ tail)) :
    ∃ d, Attribute.readOne c = .ok (⟨name, v, escaped⟩, d) ∧ d.rest = tail := by
  have hstops : Stops (fun x => !Attribute.endsName x)
      ((if escaped then ['='] else ['!', '=']) ++ e.toList ++ tail) := by
    cases escaped <;> exact stops_cons (by decide)
  obtain ⟨c₁, hread, hc₁⟩ := readName_bare hne hname hc hstops
  have hskip : c₁.skipWhile Text.isBlank = c₁ := by
    refine skipWhile_stops ?_
    rw [hc₁]
    cases escaped <;> exact stops_cons (by decide)
  have hassign : ∃ c₂, Attribute.readAssign c₁ = .ok (some escaped, c₂) ∧
      c₂.rest = e.toList ++ tail := by
    cases escaped with
    | true =>
      refine ⟨c₁.advance 1, ?_, Cursor.rest_advance_append (u := ['=']) hc₁ rfl⟩
      unfold Attribute.readAssign
      rw [hc₁]
      rfl
    | false =>
      refine ⟨c₁.advance 2, ?_, Cursor.rest_advance_append (u := ['!', '=']) hc₁ rfl⟩
      unfold Attribute.readAssign
      rw [hc₁]
      rfl
  obtain ⟨c₂, hassign, hc₂⟩ := hassign
  have hindent : c₂.skipIndent = c₂ := by
    refine skipWhile_stops ?_
    rw [hc₂]
    exact h.trimmed.stops_indent tail
  obtain ⟨c₃, hvalue, hc₃⟩ := readValue_expr h name.toList htail hc₂ (hv _ _)
  refine ⟨c₃, ?_, hc₃⟩
  simp only [Attribute.readOne, hread, hskip, hassign, hindent, hvalue, bind, Except.bind,
    String.ofList_toList]
  rfl

theorem readOne_boolean {name : String} (hne : name.toList ≠ [])
    (hname : ∀ c ∈ name.toList, isBareChar c = true) {c : Cursor} {tail : List Char}
    (htail : Ends tail) (hc : c.rest = name.toList ++ tail) :
    ∃ d, Attribute.readOne c = .ok (⟨name, .boolean, true⟩, d) ∧ d.rest = tail := by
  obtain ⟨c₁, hread, hc₁⟩ := readName_bare hne hname hc (htail.stops (by decide))
  have hskip : c₁.skipWhile Text.isBlank = c₁ := by
    refine skipWhile_stops ?_
    rw [hc₁]
    exact htail.stops (by decide)
  have hassign : Attribute.readAssign c₁ = .ok (none, c₁) := by
    unfold Attribute.readAssign
    rw [hc₁]
    rcases htail with rfl | ⟨r, rfl⟩ <;> rfl
  refine ⟨c₁, ?_, hc₁⟩
  simp only [Attribute.readOne, hread, hskip, hassign, bind, Except.bind, String.ofList_toList]
  rfl

theorem readOne_attr {a : Attribute} (h : Printable a) {c : Cursor} {tail : List Char}
    (htail : Ends tail) (hc : c.rest = attrChars a ++ tail) :
    ∃ d, Attribute.readOne c = .ok (a, d) ∧ d.rest = tail := by
  obtain ⟨name, value, escaped⟩ := a
  obtain ⟨hne, hname, hvalue⟩ := h
  cases value with
  | boolean =>
    obtain rfl : escaped = true := hvalue
    exact readOne_boolean hne hname htail hc
  | literal text =>
    have hexpr := Attribute.isValue_of_isExpr (isExpr_quoted text)
    refine readOne_value hne hname hexpr (fun pos line => ?_) htail ?_
    · rw [String.toList_ofList]
      exact classify_literal hvalue pos line
    · rw [hc, String.toList_ofList]
      simp [attrChars, valueChars]
  | expr e =>
    refine readOne_value hne hname hvalue.1 (classify_expr hvalue.1.accepted hvalue.2) htail ?_
    rw [hc]
    simp [attrChars, valueChars]

/-! ## Lists -/

theorem readList_nil {c : Cursor} (h : (c.skipWhile Attribute.isSeparator).rest = []) :
    Attribute.readList c = .ok [] := by
  rw [Attribute.readList, if_pos (by rw [h]; rfl)]

theorem readList_cons {c d : Cursor} {a : Attribute}
    (hne : (c.skipWhile Attribute.isSeparator).rest ≠ [])
    (h : Attribute.readOne (c.skipWhile Attribute.isSeparator) = .ok (a, d)) :
    Attribute.readList c = (Attribute.readList d).map (a :: ·) := by
  rw [Attribute.readList, if_neg (by simpa using hne)]
  split
  · next h' => rw [h] at h'; cases h'
  · next h' =>
    rw [h] at h'
    obtain ⟨rfl, rfl⟩ := Prod.mk.inj (Except.ok.inj h')
    rfl

def betweenChars : List Attribute → List Char
  | [] => []
  | as => [',', ' '] ++ attrsChars as

theorem attrsChars_cons (a : Attribute) (as : List Attribute) :
    attrsChars (a :: as) = attrChars a ++ betweenChars as := by
  cases as with
  | nil => simp [attrsChars, betweenChars]
  | cons b as => simp [attrsChars, betweenChars]

theorem ends_betweenChars (as : List Attribute) : Ends (betweenChars as) := by
  cases as with
  | nil => exact .inl rfl
  | cons b as => exact .inr ⟨_, rfl⟩

theorem attrChars_starts {a : Attribute} (h : Printable a) :
    ∃ x xs, attrChars a = x :: xs ∧ Attribute.isSeparator x = false := by
  obtain ⟨hne, hbare, -⟩ := h
  obtain ⟨name, value, escaped⟩ := a
  cases hn : name.toList with
  | nil => exact absurd hn hne
  | cons x xs =>
    have hx : isBareChar x = true := hbare x (by rw [hn]; exact List.mem_cons_self ..)
    simp only [isBareChar, Bool.not_eq_true', Bool.or_eq_false_iff] at hx
    have hsep : Attribute.isSeparator x = false := by simp [Attribute.isSeparator, hx]
    cases value with
    | _ => exact ⟨x, _, by simp only [attrChars, hn]; rfl, hsep⟩

theorem readList_attrs {as : List Attribute} (h : ∀ a ∈ as, Printable a)
    (seps : List Char) {c : Cursor} (hseps : ∀ x ∈ seps, Attribute.isSeparator x = true)
    (hc : c.rest = seps ++ attrsChars as) : Attribute.readList c = .ok as := by
  induction as generalizing c seps with
  | nil =>
    refine readList_nil ?_
    rw [c.rest_skipWhile, hc]
    exact dropWhile_run hseps stops_nil
  | cons a as ih =>
    obtain ⟨ha, has⟩ := List.forall_mem_cons.1 h
    obtain ⟨x, xs, hx, hsep⟩ := attrChars_starts ha
    rw [attrsChars_cons] at hc
    have hskip : (c.skipWhile Attribute.isSeparator).rest = attrChars a ++ betweenChars as := by
      rw [c.rest_skipWhile, hc]
      refine dropWhile_run hseps ?_
      rw [hx]
      exact stops_cons hsep
    obtain ⟨d, hread, hd⟩ := readOne_attr ha (ends_betweenChars as) hskip
    have hmore : Attribute.readList d = .ok as := by
      cases as with
      | nil => exact ih has [] (List.forall_mem_nil _) hd
      | cons b as => exact ih has [',', ' '] (by decide) hd
    have hne : (c.skipWhile Attribute.isSeparator).rest ≠ [] := by
      rw [hskip, hx]
      exact List.cons_ne_nil _ _
    rw [readList_cons hne hread, hmore]
    rfl

/-- **Attribute lists are read back.** Whatever the values are, literals with quotes, backslashes
and line ends among them, expressions with blanks, commas in brackets and strings, or none at all:
the attributes that are read from a printed list are those that were printed. -/
theorem readList_printed {as : List Attribute} (h : ∀ a ∈ as, Printable a) (pos line : Nat) :
    Attribute.readList ⟨pos, line, attrsChars as⟩ = .ok as :=
  readList_attrs h [] (List.forall_mem_nil _) rfl

/-- A value over two lines with blanks, commas and a string in it, between a name alone and a
literal with all that has to be escaped. -/
theorem readList_printed_call :
    let call : Attribute := ⟨"data-x", .expr "f(a,\n [1, 2]) + 'b, c' ? d : e", true⟩
    let title : Attribute := ⟨"title", .literal "\"#\x7bx\x7d\"\\\n\t", false⟩
    let as : List Attribute := [⟨"checked", .boolean, true⟩, call, title]
    attrsChars as = ("checked, data-x=f(a,\n [1, 2]) + 'b, c' ? d : e, " ++
        "title!=\"\\\"#\x7bx\x7d\\\"\\\\\\n\\t\"").toList ∧
      Attribute.readList ⟨7, 3, attrsChars as⟩ = .ok as := by
  intro call title as
  have hchecked : Printable ⟨"checked", .boolean, true⟩ := ⟨by decide, by decide, rfl⟩
  have hcall : Printable call :=
    ⟨by decide, by decide, ⟨⟨by decide, by decide +kernel⟩, by decide +kernel, by decide +kernel⟩,
      fun h => absurd h.1 (by decide +kernel)⟩
  have htitle : Printable title := by
    refine ⟨by decide, by decide, [.literal "\"", .interpolation "x" true 3, .literal "\"\\\n\t"],
      by decide +kernel, ?_⟩
    intro e escape offset he
    simp only [List.mem_cons, List.not_mem_nil, or_false, reduceCtorEq, false_or,
      Segment.interpolation.injEq] at he
    rw [he.1]
    decide +kernel
  refine ⟨by decide +kernel, readList_printed (List.forall_mem_cons.2 ⟨hchecked, ?_⟩) 7 3⟩
  exact List.forall_mem_cons.2 ⟨hcall, List.forall_mem_singleton.2 htitle⟩

theorem balanced_attr {a : Attribute} (h : WellFormedAttribute a) : Balanced (attrChars a) := by
  obtain ⟨name, value, escaped⟩ := a
  obtain ⟨hname, hvalue⟩ := h
  have hplain : Balanced name.toList :=
    balanced_calm fun c hc => isCalm_of_isPlainChar (hname.2 c hc)
  have hsign : Balanced (if escaped then ['='] else ['!', '=']) := by
    cases escaped <;> exact balanced_calm (by decide)
  cases value with
  | boolean => exact hplain
  | literal text =>
    have hquoted : Balanced (quotedChars text) := by
      simpa using balanced_of_accepts (isExpr_quoted text).accepted
    exact balanced_append (balanced_append hplain hsign) hquoted
  | expr e =>
    exact balanced_append (balanced_append hplain hsign) (balanced_of_accepts hvalue.1.accepted)

/-- The parenthesis behind a list is the one that closes it. -/
theorem closing_attrs {as : List Attribute} (h : ∀ a ∈ as, WellFormedAttribute a) (pos : Nat)
    (rest : List Char) :
    closing pos '(' (attrsChars as ++ ')' :: rest) = .ok (attrsChars as, rest) := by
  rw [closing]
  induction as generalizing pos with
  | nil => rfl
  | cons a as ih =>
    obtain ⟨ha, has⟩ := List.forall_mem_cons.1 h
    have hbetween : ∀ pos, closingFrom pos ⟨['('], none, false⟩ (betweenChars as ++ ')' :: rest) =
        .ok (betweenChars as, rest) := by
      intro pos
      cases as with
      | nil => rfl
      | cons b as =>
        have hmore := ih has
        simp [betweenChars, closingFrom, ScanState.isString, isClosing, ScanState.step, isQuote,
          isOpening, hmore, Except.map]
    have hpass := closingFrom_pass (balanced_attr ha) '(' pos (betweenChars as ++ ')' :: rest)
    rw [attrsChars_cons, List.append_assoc]
    refine hpass.trans ?_
    change Except.map _ (closingFrom _ ⟨['('], none, false⟩ _) = _
    rw [hbetween]
    rfl

end Stencil.Template
