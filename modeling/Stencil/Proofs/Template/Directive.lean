import Stencil.Proofs.Template.Attribute
import Stencil.Proofs.Template.Lines
import Stencil.Proofs.Template.Outline

/-! # Directive lines

A line that starts with the word of a directive is read by it, up to its end. What a directive is
about stands behind its word: an expression, a name, a reference or a loop. -/

namespace Stencil.Template

/-! ## Texts on one line -/

def IsLine (cs : List Char) : Prop :=
  ∀ c ∈ cs, c ≠ '\n' ∧ c ≠ '\r'

instance (cs : List Char) : Decidable (IsLine cs) :=
  decidableForallMem cs

theorem isLine_nil : IsLine [] :=
  List.forall_mem_nil _

theorem isLine_append {u v : List Char} (hu : IsLine u) (hv : IsLine v) : IsLine (u ++ v) := by
  intro c hc
  rcases List.mem_append.1 hc with hc | hc
  · exact hu c hc
  · exact hv c hc

theorem isLine_cons {c : Char} {cs : List Char} (hc : Text.isBlank c = false ∨ c = ' ')
    (h : IsLine cs) : IsLine (c :: cs) := by
  refine List.forall_mem_cons.2 ⟨?_, h⟩
  rcases hc with hc | rfl
  · exact ne_newline_of_not_blank hc
  · decide

theorem isLine_of_not_blank {cs : List Char} (h : ∀ c ∈ cs, Text.isBlank c = false) : IsLine cs :=
  fun c hc => ne_newline_of_not_blank (h c hc)

theorem IsLine.not_mem {cs : List Char} (h : IsLine cs) : '\n' ∉ cs :=
  fun hc => (h _ hc).1 rfl

theorem lineText_eq {c : Cursor} {line rest : List Char} (h : IsLine line)
    (hc : c.rest = line ++ '\n' :: rest) : c.lineText = line := by
  rw [Cursor.lineText, hc]
  exact takeWhile_line h.not_mem

theorem rest_skipLine_eq {c : Cursor} {line rest : List Char} (h : IsLine line)
    (hc : c.rest = line ++ '\n' :: rest) : c.skipLine.rest = '\n' :: rest := by
  rw [c.rest_skipLine, hc]
  exact dropWhile_line h.not_mem

theorem dropWhile_space {rest : List Char} (h : Stops Text.isIndent rest) :
    (' ' :: rest).dropWhile Text.isIndent = rest := by
  rw [List.dropWhile_cons_of_pos (by decide), h.dropWhile]

theorem trim_space {s : String} (h : Trimmed s) : Text.trim (' ' :: s.toList) = s.toList := by
  rw [Text.trim, Text.trimStart, List.dropWhile_cons_of_pos (by decide)]
  exact h.2

theorem rest_behindWord {c : Cursor} {word s : String} {rest : List Char} {n : Nat}
    (hn : word.length = n) (hs : Trimmed s)
    (hc : c.rest = word.toList ++ (' ' :: s.toList ++ rest)) :
    (c.advance n).skipIndent.rest = s.toList ++ rest := by
  rw [Cursor.rest_skipIndent, Cursor.rest_advance_append hc (String.length_toList.trans hn)]
  exact dropWhile_space (hs.stops_indent rest)

/-! ## Directives -/

theorem directives_start : ∀ d ∈ directives, ∃ x xs, d.1.toList = x :: xs ∧
    startsLine x = true := by
  simp only [directives, List.mem_cons, List.not_mem_nil, or_false, forall_eq_or_imp, forall_eq]
  refine ⟨?_, ?_, ?_, ?_, ?_, ?_, ?_, ?_, ?_, ?_, ?_, ?_, ?_, ?_, ?_, ?_, ?_, ?_⟩
  all_goals exact ⟨_, _, rfl, by decide⟩

theorem kind_directiveToken (c : Cursor) (kind : TokenKind) (d : Cursor) :
    (directiveToken c kind d).kind = kind := by
  cases kind <;> rfl

theorem reads_directive {l : Line} {kind : TokenKind} (word : String) (tail : List Char)
    {f : Cursor → Result (TokenKind × Cursor)} (hl : l.chars = word.toList ++ tail)
    (hk : l.kinds = [kind]) (hd : directives.find? (fun d => d.1 == word) = some (word, f))
    (hstop : ∀ rest, Stops isNameChar (tail ++ '\n' :: rest))
    (hf : ∀ (c : Cursor) rest, c.rest = word.toList ++ (tail ++ '\n' :: rest) →
      ∃ d, f c = .ok (kind, d) ∧ d.rest = '\n' :: rest) : l.Reads := by
  constructor
  · obtain ⟨x, xs, hx, hs⟩ := directives_start _ (List.mem_of_find?_eq_some hd)
    exact ⟨x, xs ++ tail, by rw [hl, hx]; rfl, hs⟩
  · intro indent c rest hc _
    rw [hl, List.append_assoc] at hc
    obtain ⟨d, hread, hrest⟩ := hf c rest hc
    refine ⟨[directiveToken c kind d], d, ?_, ?_, hrest⟩
    · rw [readLine, readDirective, find?_directives_some hc (hstop rest) hd]
      dsimp only
      rw [hread]
    · rw [hk, List.map_singleton, kind_directiveToken]

theorem reads_word {l : Line} {kind : TokenKind} (word text : String)
    {f : Cursor → Result (TokenKind × Cursor)} (hl : l.chars = directiveChars word text)
    (hk : l.kinds = [kind]) (hd : directives.find? (fun d => d.1 == word) = some (word, f))
    (hf : ∀ (c : Cursor) rest, c.rest = word.toList ++ (' ' :: text.toList ++ '\n' :: rest) →
      ∃ d, f c = .ok (kind, d) ∧ d.rest = '\n' :: rest) : l.Reads :=
  reads_directive word (' ' :: text.toList) hl hk hd (fun _ => stops_cons (by decide)) hf

theorem readExprLine_line {word e : String} (h : IsExpr e) {c : Cursor} {rest : List Char}
    (hc : c.rest = word.toList ++ (' ' :: e.toList ++ '\n' :: rest)) :
    ∃ d, readExprLine word c = .ok (e, d) ∧ d.rest = '\n' :: rest := by
  have he := rest_behindWord rfl h.trimmed hc
  have htrim : Text.trimEnd e.toList = e.toList := by
    have hstart : Text.trimStart e.toList = e.toList :=
      (Text.trim_eq_self_iff.1 h.trimmed.2).1.dropWhile
    have htrim := h.trimmed.2
    rwa [Text.trim, hstart] at htrim
  refine ⟨(c.advance word.length).skipIndent.skipLine, ?_, rest_skipLine_eq h.oneLine he⟩
  rw [readExprLine]
  dsimp only
  rw [lineText_eq h.oneLine he, htrim, if_neg (by simpa using h.trimmed.1), checkExpr_ok h.accepted,
    String.ofList_toList]
  rfl

theorem readMap_ok {α β : Type} {f : α → β} {r : Result (α × Cursor)} {a : α} {rest : List Char}
    (h : ∃ d, r = .ok (a, d) ∧ d.rest = rest) : ∃ d, readMap f r = .ok (f a, d) ∧
    d.rest = rest := by
  obtain ⟨d, rfl, hd⟩ := h
  exact ⟨d, rfl, hd⟩

theorem reads_expr {l : Line} {word e : String} {kind : String → TokenKind} (h : IsExpr e)
    (hl : l.chars = directiveChars word e) (hk : l.kinds = [kind e])
    (hd : directives.find? (fun d => d.1 == word) = some (word, readWithExpr word kind)) :
    l.Reads :=
  reads_word word e hl hk hd fun _ _ hc => readMap_ok (readExprLine_line h hc)

theorem readBare_line {c : Cursor} {rest : List Char} (hc : c.rest = '\n' :: rest) :
    ∃ d, readBare c = .ok ((), d) ∧ d.rest = '\n' :: rest := by
  have hskip : c.skipIndent = c := by
    refine skipWhile_stops ?_
    rw [hc]
    exact stops_cons (by decide)
  refine ⟨c.skipLine, ?_, rest_skipLine_eq isLine_nil hc⟩
  rw [readBare, hskip, lineText_eq isLine_nil hc]
  rfl

theorem reads_default : Line.default.Reads := by
  refine reads_directive (f := readDefault) "default" [] (List.append_nil _).symm rfl
    (by simp [directives]) (fun _ => stops_cons (by decide)) fun c rest hc => ?_
  exact readMap_ok (readBare_line (Cursor.rest_advance_append hc rfl))

theorem reads_otherwise : Line.otherwise.Reads := by
  refine reads_directive (f := readElse) "else" [] (List.append_nil _).symm rfl
    (by simp [directives]) (fun _ => stops_cons (by decide)) fun c rest hc => ?_
  have hrest : (c.advance 4).rest = '\n' :: rest := Cursor.rest_advance_append hc rfl
  have hskip : (c.advance 4).skipIndent = c.advance 4 := by
    refine skipWhile_stops ?_
    rw [hrest]
    exact stops_cons (by decide)
  have hif : ¬ startsWord (c.advance 4) "if" = true := by
    rw [startsWord_iff [] hrest (List.forall_mem_nil _) (stops_cons (by decide))
      (by decide)]
    decide
  rw [readElse, hskip, if_neg hif]
  exact readMap_ok (readBare_line hrest)

theorem reads_elseIf {e : String} (h : IsExpr e) : (Line.elseIf e).Reads := by
  have hwords : "else if".toList = "else".toList ++ [' ', 'i', 'f'] := by decide
  have hword : "if".toList = ['i', 'f'] := by decide
  refine reads_directive (f := readElse) "else" ([' ', 'i', 'f'] ++ ' ' :: e.toList)
    ((congrArg (· ++ ' ' :: e.toList) hwords).trans (List.append_assoc ..)) rfl
    (by simp [directives]) (fun _ => stops_cons (by decide)) fun c rest hc => ?_
  have hrest : (c.advance 4).skipIndent.rest = "if".toList ++
    (' ' :: e.toList ++ '\n' :: rest) := by
    rw [Cursor.rest_skipIndent, Cursor.rest_advance_append hc (by decide : _ = 4), hword]
    exact dropWhile_space (stops_cons (by decide))
  have hif : startsWord (c.advance 4).skipIndent "if" = true := by
    rw [startsWord_iff _ hrest (by decide) (stops_cons (by decide)) (by decide)]
  rw [readElse, if_pos hif]
  exact readMap_ok (readExprLine_line h hrest)

theorem reads_doctype {value : String} (ht : Trimmed value) (ho : OneLine value) :
    (Line.doctype value).Reads := by
  refine reads_word (f := readDoctype) "doctype" value rfl rfl (by simp [directives])
    fun c rest hc => ?_
  have hline : IsLine ("doctype".toList ++ ' ' :: value.toList) :=
    isLine_append (isLine_of_not_blank (by decide)) (isLine_cons (.inr rfl) ho)
  rw [← List.append_assoc] at hc
  refine ⟨c.skipLine, ?_, rest_skipLine_eq hline hc⟩
  have hdrop : c.lineText.drop 7 = ' ' :: value.toList := by
    rw [lineText_eq hline hc]
    rfl
  rw [readDoctype, hdrop, trim_space ht, if_neg (by simpa using ht.1), String.ofList_toList]

/-! ## Blocks -/

theorem not_blank_of_isBlockName {name : String} (h : isBlockName name.toList = true) :
    ∀ c ∈ name.toList, Text.isBlank c = false := by
  rw [isBlockName, Bool.and_eq_true, List.all_eq_true] at h
  intro c hc
  have hname := h.2 c hc
  simp only [Bool.or_eq_true, beq_iff_eq] at hname
  rcases hname with ((hw | rfl) | rfl) | rfl
  · exact not_blank_of_isNameChar (isNameChar_of_isWordChar hw)
  · decide
  · decide
  · decide

theorem trimmed_of_not_blank {s : String} (hne : s.toList ≠ [])
    (h : ∀ c ∈ s.toList, Text.isBlank c = false) : Trimmed s := by
  refine ⟨hne, Text.trim_eq_self_iff.2 ⟨?_, ?_⟩⟩
  · intro c hc
    exact h c (List.mem_of_mem_head? hc)
  · intro c hc
    exact h c (List.mem_of_getLast? hc)

theorem allBlank_of_trimmed {s : String} (h : Trimmed s) : Text.allBlank s.toList = false := by
  obtain ⟨hne, htrim⟩ := h
  cases hs : s.toList with
  | nil => exact absurd hs hne
  | cons c cs =>
    have hc : Text.isBlank c = false :=
      (Text.trim_eq_self_iff.1 htrim).1 c (by rw [hs]; rfl)
    simp [Text.allBlank, hc]

theorem trimmed_of_isBlockName {name : String} (h : isBlockName name.toList = true) :
    Trimmed name := by
  refine trimmed_of_not_blank ?_ (not_blank_of_isBlockName h)
  intro hn
  rw [hn] at h
  cases h

theorem readBlockName_line {name : String} (h : isBlockName name.toList = true) {c : Cursor}
    {rest : List Char} (hc : c.skipIndent.rest = name.toList ++ '\n' :: rest) :
    ∃ d, readBlockName c = .ok (name, d) ∧ d.rest = '\n' :: rest := by
  have hline : IsLine name.toList := isLine_of_not_blank (not_blank_of_isBlockName h)
  refine ⟨c.skipIndent.skipLine, ?_, rest_skipLine_eq hline hc⟩
  rw [readBlockName, lineText_eq hline hc, (trimmed_of_isBlockName h).2, if_pos h,
    String.ofList_toList]

/-- A single word is no position, even if it is the word for one. -/
theorem readPosition_line {name : String} (h : isBlockName name.toList = true) {c : Cursor}
    {rest : List Char} (hc : c.rest = name.toList ++ '\n' :: rest) : readPosition c = none := by
  have hblank := not_blank_of_isBlockName h
  have hword : Text.firstWord c.rest = name.toList := by
    obtain ⟨hne, htrim⟩ := trimmed_of_isBlockName h
    have hstops : Stops Text.isBlank (name.toList ++ '\n' :: rest) := by
      cases hn : name.toList with
      | nil => exact absurd hn hne
      | cons x xs => exact stops_cons (hblank x (by rw [hn]; exact List.mem_cons_self ..))
    rw [Text.firstWord, Text.trimStart, hc, hstops.dropWhile]
    refine takeWhile_run (fun x hx => ?_) (stops_cons (by decide))
    rw [hblank x hx]
    rfl
  have hall : Text.allBlank (c.lineText.drop name.toList.length) = true := by
    rw [lineText_eq (isLine_of_not_blank hblank) hc, List.drop_length]
    rfl
  unfold readPosition
  rw [hword]
  dsimp only
  split
  · rw [if_pos hall]
  · rfl

theorem skipIndent_trimmed {s : String} (h : Trimmed s) {c : Cursor} {rest : List Char}
    (hc : c.rest = s.toList ++ rest) : c.skipIndent = c := by
  refine skipWhile_stops ?_
  rw [hc]
  exact h.stops_indent rest

theorem reads_block {name : String} (h : isBlockName name.toList = true) :
    (Line.block name).Reads := by
  refine reads_word (f := readBlockLine) "block" name rfl rfl (by simp [directives])
    fun c rest hc => ?_
  have ht := trimmed_of_isBlockName h
  have hrest : (c.advance 5).skipIndent.rest = name.toList ++ '\n' :: rest :=
    rest_behindWord (by decide) ht hc
  rw [readBlockLine, readPosition_line h hrest]
  refine readMap_ok (readBlockName_line h ?_)
  rw [skipIndent_trimmed ht hrest, hrest]

theorem reads_replace {name : String} (position : Position) (h : isBlockName name.toList = true) :
    (Line.replace position name).Reads := by
  have ht := trimmed_of_isBlockName h
  cases position with
  | before =>
    refine reads_word (f := fun c => readReplace .before (c.advance 7)) Position.before.word name
      rfl rfl
      (by simp [directives, Position.word]) fun c rest hc => ?_
    have hrest : (c.advance 7).skipIndent.rest = name.toList ++ '\n' :: rest :=
      rest_behindWord (by decide) ht hc
    exact readMap_ok (readBlockName_line h hrest)
  | replace =>
    refine reads_word (f := readReplaceLine) Position.replace.word name rfl rfl
      (by simp [directives, Position.word]) fun c rest hc => ?_
    have hrest : (c.advance 7).skipIndent.rest = name.toList ++ '\n' :: rest :=
      rest_behindWord (by decide) ht hc
    rw [readReplaceLine, readPosition_line h hrest]
    refine readMap_ok (readBlockName_line h ?_)
    rw [skipIndent_trimmed ht hrest, hrest]
  | after =>
    refine reads_word (f := fun c => readReplace .after (c.advance 6)) Position.after.word name
      rfl rfl
      (by simp [directives, Position.word]) fun c rest hc => ?_
    have hrest : (c.advance 6).skipIndent.rest = name.toList ++ '\n' :: rest :=
      rest_behindWord (by decide) ht hc
    exact readMap_ok (readBlockName_line h hrest)

/-! ## References -/

theorem readAttrs_line {as : List Attribute} (h : ∀ a ∈ as, WellFormedAttribute a) {c : Cursor}
    {rest : List Char} (hc : c.rest = parenthesized as ++ rest) :
    ∃ d, readAttrs c = .ok (as, d) ∧ d.rest = rest := by
  have htail : c.rest.tail = attrsChars as ++ ')' :: rest := by
    rw [hc, parenthesized]
    simp
  have hlist := readList_attrs (fun a ha => (h a ha).printable) []
    (c := ⟨c.pos + 1, c.line, attrsChars as⟩) (List.forall_mem_nil _) rfl
  refine ⟨c.advance ((attrsChars as).length + 2), ?_, Cursor.rest_advance_append hc ?_⟩
  · rw [readAttrs, htail, closing_attrs h]
    dsimp only
    rw [hlist]
    rfl
  · simp [parenthesized]

theorem readOptions_line {reference : String} {options : List Attribute} (ht : Trimmed reference)
    (h : ∀ a ∈ options, WellFormedAttribute a) {c : Cursor} {rest : List Char}
    (hc : c.rest = referenceChars reference options ++ '\n' :: rest) :
    ∃ d, readOptions c.skipIndent = .ok (options, d) ∧
      d.rest = reference.toList ++ '\n' :: rest := by
  by_cases hnone : (options.isEmpty && reference.toList.head? != some '(') = true
  · rw [referenceChars, if_pos hnone, List.nil_append] at hc
    rw [Bool.and_eq_true, bne_iff_ne] at hnone
    obtain ⟨hempty, hhead⟩ := hnone
    obtain rfl := List.isEmpty_iff.1 hempty
    have hrest : c.skipIndent.rest = reference.toList ++ '\n' :: rest := by
      rw [Cursor.rest_skipIndent, hc]
      exact dropWhile_space (ht.stops_indent _)
    have hfirst : ¬ (c.skipIndent.rest.head? == some '(') = true := by
      rw [hrest, beq_iff_eq]
      cases hr : reference.toList with
      | nil => exact absurd hr ht.1
      | cons x xs =>
        rw [hr] at hhead
        exact hhead
    refine ⟨c.skipIndent, ?_, hrest⟩
    rw [readOptions, if_neg hfirst]
  · rw [referenceChars, if_neg hnone, List.append_assoc] at hc
    have hskip : c.skipIndent = c := by
      refine skipWhile_stops ?_
      rw [hc]
      exact stops_cons (by decide)
    obtain ⟨d, hread, hd⟩ := readAttrs_line h hc
    refine ⟨d.skipIndent, ?_, ?_⟩
    · rw [hskip, readOptions, if_pos (by rw [hc]; rfl), hread]
      rfl
    · rw [Cursor.rest_skipIndent, hd]
      exact dropWhile_space (ht.stops_indent _)

theorem readReference_line {word reference : String} {options : List Attribute}
    (ht : Trimmed reference) (ho : OneLine reference)
    (h : ∀ a ∈ options, WellFormedAttribute a) {c : Cursor} {rest : List Char}
    (hc : c.rest = word.toList ++ (referenceChars reference options ++ '\n' :: rest)) :
    ∃ d, readReference word c = .ok ((reference, options), d) ∧ d.rest = '\n' :: rest := by
  have hword := Cursor.rest_advance_append hc String.length_toList
  obtain ⟨d, hoptions, hd⟩ := readOptions_line ht h hword
  refine ⟨d.skipLine, ?_, rest_skipLine_eq ho hd⟩
  rw [readReference, hoptions]
  simp only [bind, Except.bind]
  rw [lineText_eq ho hd, ht.2, if_neg (by simpa using ht.1), String.ofList_toList]
  rfl

theorem reads_module {l : Line} {word reference : String} {options : List Attribute}
    {kind : String → List Attribute → TokenKind} (ht : Trimmed reference) (ho : OneLine reference)
    (h : ∀ a ∈ options, WellFormedAttribute a)
    (hl : l.chars = word.toList ++ referenceChars reference options)
    (hk : l.kinds = [kind reference options])
    (hd : directives.find? (fun d => d.1 == word) = some (word, readModule word kind)) :
    l.Reads := by
  refine reads_directive word _ hl hk hd (fun rest => ?_) fun c rest hc => ?_
  · rw [referenceChars]
    split
    · exact stops_cons (by decide)
    · exact stops_cons (by decide)
  · exact readMap_ok (readReference_line ht ho h hc)

/-! ## Loops -/

theorem splitName?_variable {name : String} (h : IsVariable name) {rest : List Char}
    (hrest : Stops (fun x => isWordChar x || x == '$') rest) :
    splitName? (name.toList ++ rest) = some (name.toList, rest) := by
  obtain ⟨c, cs, hn, hc, hcs⟩ := h
  have hall : ∀ x ∈ c :: cs, (isWordChar x || x == '$') = true :=
    List.forall_mem_cons.2 ⟨goesOn_of_starts hc, hcs⟩
  rw [hn, List.cons_append, splitName?, if_pos hc]
  dsimp only
  rw [← List.cons_append, takeWhile_run hall hrest, dropWhile_run hall hrest]

theorem not_blank_of_isVariable {name : String} (h : IsVariable name) :
    name.toList ≠ [] ∧ ∀ c ∈ name.toList, Text.isBlank c = false := by
  have hdollar : Text.isBlank '$' = false := by decide
  have hword : ∀ {c}, isWordChar c = true → Text.isBlank c = false :=
    fun h => not_blank_of_isNameChar (isNameChar_of_isWordChar h)
  obtain ⟨c, cs, hn, hc, hcs⟩ := h
  rw [hn]
  refine ⟨List.cons_ne_nil _ _, List.forall_mem_cons.2 ⟨?_, fun x hx => ?_⟩⟩
  · simp only [Bool.or_eq_true, beq_iff_eq] at hc
    rcases hc with (hc | rfl) | rfl
    · exact hword (by simp [isWordChar, Char.isAlphanum, hc])
    · decide
    · exact hdollar
  · have hx' := hcs x hx
    rw [Bool.or_eq_true, beq_iff_eq] at hx'
    rcases hx' with hx' | rfl
    · exact hword hx'
    · exact hdollar

theorem trimStart_space {cs : List Char} (h : Stops Text.isBlank cs) :
    Text.trimStart (' ' :: cs) = cs := by
  rw [Text.trimStart, List.dropWhile_cons_of_pos (by decide), h.dropWhile]

theorem splitEach?_value {value e : String} (hv : IsVariable value) (he : IsExpr e) :
    splitEach? (value.toList ++ ' ' :: 'i' :: 'n' :: ' ' :: e.toList) =
      some (value.toList, none, ' ' :: e.toList) := by
  have hlist : Text.allBlank e.toList = false := allBlank_of_trimmed he.trimmed
  have hspace : Text.trimStart (' ' :: 'i' :: 'n' :: ' ' :: e.toList) =
      'i' :: 'n' :: ' ' :: e.toList := trimStart_space (stops_cons (by decide))
  rw [splitEach?, splitName?_variable hv (stops_cons (by decide))]
  simp [hspace, hlist, Text.isIndent]

theorem splitEach?_pair {value key e : String} (hv : IsVariable value) (hk : IsVariable key)
    (he : IsExpr e) :
    splitEach? (value.toList ++
      ',' :: ' ' :: (key.toList ++ ' ' :: 'i' :: 'n' :: ' ' :: e.toList)) =
      some (value.toList, some key.toList, ' ' :: e.toList) := by
  have hlist : Text.allBlank e.toList = false := allBlank_of_trimmed he.trimmed
  have hspace : Text.trimStart (' ' :: 'i' :: 'n' :: ' ' :: e.toList) =
      'i' :: 'n' :: ' ' :: e.toList := trimStart_space (stops_cons (by decide))
  have hkey : ∀ cs, Text.trimStart (' ' :: (key.toList ++ cs)) = key.toList ++ cs := by
    intro cs
    obtain ⟨hne, hblank⟩ := not_blank_of_isVariable hk
    refine trimStart_space ?_
    cases hn : key.toList with
    | nil => exact absurd hn hne
    | cons c r => exact stops_cons (hblank c (by rw [hn]; exact List.mem_cons_self ..))
  have hcomma : ∀ cs, Text.trimStart (',' :: cs) = ',' :: cs := fun cs =>
    (stops_cons (p := Text.isBlank) (by decide)).dropWhile
  have hname : splitName? (key.toList ++ ' ' :: 'i' :: 'n' :: ' ' :: e.toList) =
      some (key.toList, ' ' :: 'i' :: 'n' :: ' ' :: e.toList) :=
    splitName?_variable hk (stops_cons (by decide))
  rw [splitEach?, splitName?_variable hv (stops_cons (by decide))]
  simp [hcomma, hkey, hname, hspace, hlist, Text.isIndent]

theorem readEach_line {text : String} {value : List Char} {key : Option (List Char)} {e : String}
    (ht : Trimmed text) (ho : OneLine text) (he : IsExpr e)
    (hs : splitEach? text.toList = some (value, key, ' ' :: e.toList)) {c : Cursor}
    {rest : List Char} (hc : c.rest = "each".toList ++ (' ' :: text.toList ++ '\n' :: rest)) :
    ∃ d, readEach "each" c =
        .ok (.each (String.ofList value) (key.map String.ofList) e, d) ∧ d.rest = '\n' :: rest := by
  have hrest : (c.advance "each".length).skipIndent.rest = text.toList ++ '\n' :: rest :=
    rest_behindWord rfl ht hc
  refine ⟨_, ?_, rest_skipLine_eq ho hrest⟩
  rw [readEach, lineText_eq ho hrest, hs]
  dsimp only
  rw [trim_space he.trimmed, checkExpr_ok he.accepted, String.ofList_toList]
  rfl

theorem trimmed_loop {value e text : String} {between : List Char} (hv : IsVariable value)
    (he : IsExpr e) (hb : IsLine between) (ht : text.toList = value.toList ++
      (between ++ e.toList)) :
    Trimmed text ∧ OneLine text := by
  obtain ⟨hne, hblank⟩ := not_blank_of_isVariable hv
  obtain ⟨-, hlast⟩ := Text.trim_eq_self_iff.1 he.trimmed.2
  refine ⟨⟨?_, Text.trim_eq_self_iff.2 ⟨?_, ?_⟩⟩, ?_⟩
  · rw [ht]
    simp [hne]
  · rw [ht]
    cases hn : value.toList with
    | nil => exact absurd hn hne
    | cons c cs => exact stops_cons (hblank c (by rw [hn]; exact List.mem_cons_self ..))
  · intro c hc
    have hx := List.getLast?_eq_some_getLast he.trimmed.1
    rw [ht, ← List.append_assoc, List.getLast?_append, hx, Option.some_or, ← hx] at hc
    exact hlast c hc
  · have hline : IsLine text.toList := by
      rw [ht]
      exact isLine_append (isLine_of_not_blank hblank) (isLine_append hb he.oneLine)
    exact hline

theorem reads_each {value e : String} {key : Option String} (hv : IsVariable value)
    (hk : ∀ k, key = some k → IsVariable k) (he : IsExpr e) : (Line.each value key e).Reads := by
  have hin : " in ".toList = [' ', 'i', 'n', ' '] := by decide
  have hcomma : ", ".toList = [',', ' '] := by decide
  cases key with
  | none =>
    have htext : (value ++ " in " ++ e).toList =
        value.toList ++ ([' ', 'i', 'n', ' '] ++ e.toList) := by
      rw [String.toList_append, String.toList_append, hin, List.append_assoc]
    obtain ⟨ht, ho⟩ := trimmed_loop hv he (by decide) htext
    have hs := splitEach?_value hv he
    refine reads_word (f := readEach "each") "each" (value ++ " in " ++ e) rfl rfl
      (by simp [directives]) fun c rest hc => ?_
    have hread := readEach_line ht ho he (htext ▸ hs) hc
    rwa [String.ofList_toList] at hread
  | some k =>
    have hk := hk k rfl
    have htext : (value ++ ", " ++ k ++ " in " ++ e).toList =
        value.toList ++ (([',', ' '] ++ (k.toList ++ [' ', 'i', 'n', ' '])) ++ e.toList) := by
      simp only [String.toList_append, hin, hcomma, List.append_assoc]
    have hbetween : IsLine ([',', ' '] ++ (k.toList ++ [' ', 'i', 'n', ' '])) :=
      isLine_append (by decide)
        (isLine_append (isLine_of_not_blank (not_blank_of_isVariable hk).2) (by decide))
    obtain ⟨ht, ho⟩ := trimmed_loop hv he hbetween htext
    have hs : splitEach? (value ++ ", " ++ k ++ " in " ++ e).toList =
        some (value.toList, some k.toList, ' ' :: e.toList) := by
      rw [htext, ← splitEach?_pair hv hk he]
      simp
    refine reads_word (f := readEach "each") "each" (value ++ ", " ++ k ++ " in " ++ e) rfl rfl
      (by simp [directives]) fun c rest hc => ?_
    have hread := readEach_line ht ho he hs hc
    rwa [String.ofList_toList, Option.map_some, String.ofList_toList] at hread

/-! ## Text and comments -/

theorem find?_directives_sign {c : Cursor} {x : Char} {rest : List Char} (hc : c.rest = x :: rest)
    (hx : isNameChar x = false) : directives.find? (fun d => startsWord c d.1) = none := by
  refine find?_directives_none [] hc (List.forall_mem_nil _) (stops_cons hx) fun d hd hn => ?_
  obtain ⟨y, ys, hy, -⟩ := directives_start d hd
  rw [hy] at hn
  cases hn

theorem reads_text {t : String} (ho : OneLine t) (hr : Readable t) : (Line.text t).Reads := by
  refine ⟨⟨'|', ' ' :: t.toList, rfl, by decide⟩, fun indent c rest hc _ => ?_⟩
  replace hc : c.rest = '|' :: ' ' :: (t.toList ++ '\n' :: rest) := hc
  have hrest : (c.advance 2).rest = t.toList ++ '\n' :: rest :=
    Cursor.rest_advance_append (u := ['|', ' ']) hc rfl
  have hread : readTextLine c = .ok (.text t, (c.advance 2).skipLine) := by
    have hbar : Text.startsWith c.rest ['|', ' '] = true := by
      rw [hc]
      simp [Text.startsWith]
    rw [readTextLine, if_pos hbar, lineText_eq ho hrest, checkText_ok hr, String.ofList_toList]
    rfl
  refine ⟨[directiveToken c (.text t) (c.advance 2).skipLine], _, ?_, rfl,
    rest_skipLine_eq ho hrest⟩
  rw [readLine, readDirective, find?_directives_sign hc (by decide), hc]
  dsimp only
  rw [hread]
  rfl

theorem linesAfter_first (acc cs : List Char) :
    ∃ ls, linesAfter (some acc) cs = (acc.reverse ++ cs.takeWhile (· != '\n')) :: ls := by
  induction cs generalizing acc with
  | nil => exact ⟨[], by simp [linesAfter]⟩
  | cons c cs ih =>
    by_cases hc : c = '\n'
    · subst hc
      exact ⟨_, by simp [linesAfter]; rfl⟩
    · obtain ⟨ls, hls⟩ := ih (c :: acc)
      refine ⟨ls, ?_⟩
      simp [linesAfter, hc, hls]

/-- Nothing that is not deeper than a comment is part of it. -/
theorem blockLines_notDeeper {c : Cursor} {indent : Nat} {rest : List Char}
    (hc : c.rest = '\n' :: rest) (h : NotDeeper indent rest) : c.blockLines indent = ([], c) := by
  have hlines : deeperLines indent (linesAfter none c.rest) = [] := by
    rw [hc]
    change deeperLines indent (linesAfter (some []) rest) = []
    rcases h with rfl | ⟨w, x, more, rfl, hw, hx⟩
    · rfl
    · obtain ⟨ls, hls⟩ := linesAfter_first [] (List.replicate w ' ' ++ x :: more)
      have hspaces : ∀ c ∈ List.replicate w ' ', (c != '\n') = true := by
        intro c hc
        rw [List.eq_of_mem_replicate hc]
        decide
      have hn : (x != '\n') = true := bne_iff_ne.2 (ne_newline_of_not_blank hx).1
      have hfirst : (List.replicate w ' ' ++ x :: more).takeWhile (· != '\n') =
          List.replicate w ' ' ++ x :: more.takeWhile (· != '\n') := by
        rw [List.takeWhile_append_of_pos hspaces, List.takeWhile_cons_of_pos (p := (· != '\n')) hn]
      have hblank :
          Text.allBlank (List.replicate w ' ' ++ x :: more.takeWhile (· != '\n')) = false := by
        simp [Text.allBlank, hx]
      have hwidth : indentWidth (List.replicate w ' ' ++ x :: more.takeWhile (· != '\n')) = w := by
        rw [indentWidth, (indentation hx).1, List.length_replicate]
      rw [hls, List.reverse_nil, List.nil_append, hfirst, deeperLines, List.takeWhile_cons_of_neg]
      · rfl
      · simp [hblank, hwidth, hw]
  rw [blockLines_eq, hlines]
  exact congrArg (Prod.mk []) c.advance_zero

theorem isLine_comment {t : String} (ho : OneLine t) (buffered : Bool) :
    IsLine (Line.comment t buffered).chars := by
  cases buffered with
  | true => exact isLine_cons (.inl (by decide)) (isLine_cons (.inl (by decide)) ho)
  | false =>
    exact isLine_cons (.inl (by decide)) (isLine_cons (.inl (by decide))
      (isLine_cons (.inl (by decide)) ho))

theorem reads_comment {t : String} {buffered : Bool} (ho : OneLine t)
    (hb : buffered = true → t.toList.head? ≠ some '-') : (Line.comment t buffered).Reads := by
  have hstart : ∃ cs, (Line.comment t buffered).chars = '/' :: '/' :: cs := by
    cases buffered <;> exact ⟨_, rfl⟩
  obtain ⟨cs, hcs⟩ := hstart
  refine ⟨⟨'/', '/' :: cs, hcs, by decide⟩, fun indent c rest hc hdeep => ?_⟩
  have hline := isLine_comment ho buffered
  have hrest : c.skipLine.rest = '\n' :: rest := rest_skipLine_eq hline hc
  have hmark : Text.startsWith (Line.comment t buffered).chars ['/', '/', '-'] = !buffered := by
    cases buffered with
    | true =>
      change Text.startsWith ('/' :: '/' :: t.toList) ['/', '/', '-'] = false
      cases hn : t.toList with
      | nil => rfl
      | cons x xs =>
        have hx : x ≠ '-' := by
          rintro rfl
          exact hb rfl (by rw [hn]; rfl)
        simp [Text.startsWith, hx]
    | false =>
      change Text.startsWith ('/' :: '/' :: '-' :: t.toList) ['/', '/', '-'] = true
      simp [Text.startsWith]
  have hdrop : (Line.comment t buffered).chars.drop (if buffered then 2 else 3) = t.toList := by
    cases buffered <;> rfl
  have hread : readComment indent c = (.comment t buffered, c.skipLine) := by
    rw [readComment, lineText_eq hline hc, blockLines_notDeeper hrest (hdeep rfl)]
    dsimp only
    rw [hmark, Bool.not_not, hdrop, List.flatMap_nil, List.append_nil, String.ofList_toList]
  refine ⟨[directiveToken c (.comment t buffered) c.skipLine], c.skipLine, ?_, rfl, hrest⟩
  rw [hcs, List.cons_append, List.cons_append] at hc
  rw [readLine, readDirective, find?_directives_sign hc (by decide), hc]
  dsimp only
  rw [hread]
  rfl

end Stencil.Template
