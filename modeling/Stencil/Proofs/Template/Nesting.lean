import Stencil.Proofs.Expr.Lexeme
import Stencil.Template.Scan

/-! # Nesting

The text that may stand between a bracket and the one that closes it is described by a grammar:
ordinary characters, closed strings, and brackets of one kind around such text. What the scan for
the closing bracket finds in a text is read off that grammar, and so is the state in which the
forgiving scan has come to the same place. -/

namespace Stencil

def isOrdinary (c : Char) : Bool :=
  !(isQuote c || isOpening c || isClosing c)

/-- Text in which strings are closed and brackets match. -/
inductive WellNested : List Char → Prop where
  | nil : WellNested []
  | char {c : Char} {cs : List Char} : isOrdinary c = true → WellNested cs → WellNested (c :: cs)
  | string {q : Char} {w cs : List Char} : isQuote q = true → Expr.Quoted q w → WellNested cs →
    WellNested (q :: (w ++ cs))
  | pair {b : Char} {inner cs : List Char} : isOpening b = true → WellNested inner → WellNested cs →
    WellNested (b :: (inner ++ closerOf b :: cs))

/-- Text behind `bracket` that leaves brackets open, innermost first: what stands between two of
them is nested. -/
inductive LeavesOpen (bracket : Char) : List Char → List Char → Prop where
  | here {u : List Char} : WellNested u → LeavesOpen bracket [bracket] u
  | deeper {b : Char} {stack u v : List Char} : LeavesOpen bracket stack u → isOpening b = true →
    WellNested v → LeavesOpen bracket (b :: stack) (u ++ b :: v)

inductive Unfinished (quote : Char) : List Char → Prop where
  | nil : Unfinished quote []
  | backslash : Unfinished quote ['\\']
  | escape (c : Char) {cs : List Char} : Unfinished quote cs → Unfinished quote ('\\' :: c :: cs)
  | char {c : Char} {cs : List Char} : c ≠ quote → c ≠ '\\' → Unfinished quote cs →
    Unfinished quote (c :: cs)

/-- What there is to find in a text behind `bracket`: the text that is passed, and the fault in
front of which that ends, if it is not the closing bracket. -/
inductive Finds (bracket : Char) : List Char → List Char → Option ScanFault → Prop where
  | closed {inner rest : List Char} : WellNested inner →
    Finds bracket (inner ++ closerOf bracket :: rest) inner none
  | wrong {inner rest stack : List Char} {o c : Char} : LeavesOpen bracket (o :: stack) inner →
    isClosing c = true → c ≠ closerOf o →
    Finds bracket (inner ++ c :: rest) inner (some (.wrongBracket o c))
  | inString {inner w stack : List Char} {q : Char} : LeavesOpen bracket stack inner →
    isQuote q = true → Unfinished q w →
    Finds bracket (inner ++ q :: w) (inner ++ q :: w) (some .unclosedString)
  | unclosed {stack cs : List Char} {o : Char} : LeavesOpen bracket (o :: stack) cs →
    Finds bracket cs cs (some (.unclosed o))

/-! ## Characters -/

theorem not_opening_of_isClosing {c : Char} (h : isClosing c = true) : isOpening c = false := by
  simp only [isClosing, Bool.or_eq_true, beq_iff_eq] at h
  rcases h with (rfl | rfl) | rfl <;> decide

theorem not_quote_of_isOpening {c : Char} (h : isOpening c = true) : isQuote c = false := by
  simp only [isOpening, Bool.or_eq_true, beq_iff_eq] at h
  rcases h with (rfl | rfl) | rfl <;> decide

theorem not_closing_of_isOpening {c : Char} (h : isOpening c = true) : isClosing c = false := by
  simp only [isOpening, Bool.or_eq_true, beq_iff_eq] at h
  rcases h with (rfl | rfl) | rfl <;> decide

theorem not_quote_of_isClosing {c : Char} (h : isClosing c = true) : isQuote c = false := by
  simp only [isClosing, Bool.or_eq_true, beq_iff_eq] at h
  rcases h with (rfl | rfl) | rfl <;> decide

theorem not_closing_of_isQuote {c : Char} (h : isQuote c = true) : isClosing c = false := by
  cases hc : isClosing c with
  | false => rfl
  | true =>
    rw [not_quote_of_isClosing hc] at h
    cases h

theorem isClosing_closerOf (b : Char) : isClosing (closerOf b) = true := by
  unfold closerOf
  split
  · rfl
  · split <;> rfl

theorem ne_backslash_of_isQuote {q : Char} (h : isQuote q = true) : q ≠ '\\' := by
  intro hq
  subst hq
  cases h

/-! ## One step of the scans -/

namespace ScanState

variable {c : Char} (stack : List Char)

theorem step_ordinary (h : isOrdinary c = true) :
    step ⟨stack, none, false⟩ c = ⟨stack, none, false⟩ := by
  simp only [isOrdinary, Bool.not_eq_true', Bool.or_eq_false_iff] at h
  simp [step, h]

theorem step_quote (h : isQuote c = true) :
    step ⟨stack, none, false⟩ c = ⟨stack, some c, false⟩ := by
  simp [step, h]

theorem step_opening (h : isOpening c = true) :
    step ⟨stack, none, false⟩ c = ⟨c :: stack, none, false⟩ := by
  simp [step, h, not_quote_of_isOpening h]

theorem step_closing (h : isClosing c = true) :
    step ⟨stack, none, false⟩ c = ⟨stack.tail, none, false⟩ := by
  simp [step, h, not_quote_of_isClosing h, not_opening_of_isClosing h]

structure Passes (s : ScanState) (u : List Char) (t : ScanState) : Prop where
  state : u.foldl step s = t
  closing : ∀ pos rest, closingFrom pos s (u ++ rest) =
    (closingFrom (pos + Text.width u) t rest).map fun p => (u ++ p.1, p.2)

theorem Passes.nil (s : ScanState) : Passes s [] s where
  state := rfl
  closing pos rest := by
    rw [Text.width, Nat.add_zero, List.nil_append]
    cases closingFrom pos s rest <;> rfl

theorem Passes.append {s t r : ScanState} {u v : List Char} (hu : Passes s u t)
    (hv : Passes t v r) : Passes s (u ++ v) r where
  state := by rw [List.foldl_append, hu.state, hv.state]
  closing pos rest := by
    rw [List.append_assoc, hu.closing, hv.closing, Text.width_append, ← Nat.add_assoc]
    cases closingFrom (pos + Text.width u + Text.width v) r rest with
    | error e => rfl
    | ok p => simp [Except.map]

theorem passes_char {s : ScanState} (h : s.isString = true ∨ isClosing c = false) :
    Passes s [c] (s.step c) where
  state := rfl
  closing pos rest := by
    have hmore : (!s.isString && isClosing c) = false := by
      rcases h with h | h <;> simp [h]
    simp only [List.singleton_append, closingFrom, hmore, Text.width, Nat.add_zero]
    rfl

theorem passes_close (b o : Char) :
    Passes ⟨b :: o :: stack, none, false⟩ [closerOf b] ⟨o :: stack, none, false⟩ where
  state := step_closing _ (isClosing_closerOf b)
  closing pos rest := by
    simp only [List.singleton_append, closingFrom, isString, isClosing_closerOf,
      step_closing _ (isClosing_closerOf b), Text.width, Nat.add_zero]
    simp

/-! ## Longer text -/

theorem passes_escape (q c : Char) :
    Passes ⟨stack, some q, false⟩ ['\\', c] ⟨stack, some q, false⟩ :=
  Passes.append (u := ['\\']) (t := ⟨stack, some q, true⟩) (passes_char (.inl rfl))
    (passes_char (.inl rfl))

theorem passes_plain {q : Char} (h₁ : c ≠ q) (h₂ : c ≠ '\\') :
    Passes ⟨stack, some q, false⟩ [c] ⟨stack, some q, false⟩ := by
  have hstep : step ⟨stack, some q, false⟩ c = ⟨stack, some q, false⟩ := by
    simp [step, stepString, h₁, h₂]
  have hc := passes_char (s := ⟨stack, some q, false⟩) (c := c) (.inl rfl)
  rwa [hstep] at hc

theorem passes_quoted {q : Char} (hq : isQuote q = true) {w : List Char} (h : Expr.Quoted q w) :
    Passes ⟨stack, some q, false⟩ w ⟨stack, none, false⟩ := by
  induction h with
  | close =>
    have hstep : step ⟨stack, some q, false⟩ q = ⟨stack, none, false⟩ := by
      simp [step, stepString, ne_backslash_of_isQuote hq]
    rw [← hstep]
    exact passes_char (.inl rfl)
  | escape c _ ih => exact (passes_escape stack q c).append ih
  | char h₁ h₂ _ ih => exact (passes_plain stack h₁ h₂).append ih

theorem passes_unfinished {q : Char} {w : List Char} (h : Unfinished q w) :
    ∃ escaped, Passes ⟨stack, some q, false⟩ w ⟨stack, some q, escaped⟩ := by
  induction h with
  | nil => exact ⟨false, Passes.nil _⟩
  | backslash => exact ⟨true, passes_char (.inl rfl)⟩
  | escape c _ ih =>
    obtain ⟨escaped, ih⟩ := ih
    exact ⟨escaped, (passes_escape stack q c).append ih⟩
  | char h₁ h₂ _ ih =>
    obtain ⟨escaped, ih⟩ := ih
    exact ⟨escaped, (passes_plain stack h₁ h₂).append ih⟩

theorem passes_open {b : Char} (h : isOpening b = true) :
    Passes ⟨stack, none, false⟩ [b] ⟨b :: stack, none, false⟩ := by
  rw [← step_opening stack h]
  exact passes_char (.inr (not_closing_of_isOpening h))

theorem passes_quote {q : Char} (h : isQuote q = true) :
    Passes ⟨stack, none, false⟩ [q] ⟨stack, some q, false⟩ := by
  rw [← step_quote stack h]
  exact passes_char (.inr (not_closing_of_isQuote h))

/-- Inside a bracket nested text leaves the scans as they were. -/
theorem passes_nested {u : List Char} (h : WellNested u) (o : Char) :
    Passes ⟨o :: stack, none, false⟩ u ⟨o :: stack, none, false⟩ := by
  induction h generalizing o stack with
  | nil => exact Passes.nil _
  | @char c _ hc _ ih =>
    have hclose : isClosing c = false := by
      simp only [isOrdinary, Bool.not_eq_true', Bool.or_eq_false_iff] at hc
      exact hc.2
    have hstep := passes_char (s := ⟨o :: stack, none, false⟩) (c := c) (.inr hclose)
    rw [step_ordinary _ hc] at hstep
    exact hstep.append (ih stack o)
  | string hq hw _ ih =>
    exact (passes_quote _ hq).append ((passes_quoted _ hq hw).append (ih stack o))
  | @pair b _ _ hb _ _ hinner ih =>
    have hclose := (passes_close stack b o).append (ih stack o)
    exact (passes_open _ hb).append ((hinner (o :: stack) b).append hclose)

theorem passes_leavesOpen {bracket : Char} {opened u : List Char}
    (h : LeavesOpen bracket opened u) :
    Passes ⟨[bracket], none, false⟩ u ⟨opened, none, false⟩ := by
  induction h with
  | here hu => exact passes_nested _ hu _
  | deeper _ hb hv ih => exact ih.append ((passes_open _ hb).append (passes_nested _ hv _))

theorem passes_inString {bracket q : Char} {opened u w : List Char}
    (h : LeavesOpen bracket opened u) (hq : isQuote q = true) (hw : Unfinished q w) :
    ∃ escaped, Passes ⟨[bracket], none, false⟩ (u ++ q :: w) ⟨opened, some q, escaped⟩ := by
  obtain ⟨escaped, hstring⟩ := passes_unfinished opened hw
  exact ⟨escaped, (passes_leavesOpen h).append ((passes_quote opened hq).append hstring)⟩

end ScanState

/-! ## What is found -/

theorem WellNested.append {u v : List Char} (hu : WellNested u) (hv : WellNested v) :
    WellNested (u ++ v) := by
  induction hu with
  | nil => exact hv
  | char hc _ ih => exact .char hc ih
  | string hq hw _ ih =>
    rw [List.cons_append, List.append_assoc]
    exact .string hq hw ih
  | pair hb hinner _ _ ih =>
    rw [List.cons_append, List.append_assoc, List.cons_append]
    exact .pair hb hinner ih

section

variable {bracket : Char} {stack u v cs passed : List Char}

theorem LeavesOpen.behind (hv : WellNested v) (h : LeavesOpen bracket stack u) :
    LeavesOpen bracket stack (v ++ u) := by
  induction h with
  | here hu => exact .here (hv.append hu)
  | deeper _ hb hw ih =>
    rw [← List.append_assoc]
    exact .deeper ih hb hw

theorem LeavesOpen.inside {b : Char} (hb : isOpening b = true) (h : LeavesOpen b stack u) :
    LeavesOpen bracket (stack ++ [bracket]) (b :: u) := by
  induction h with
  | here hu => exact .deeper (.here .nil) hb hu
  | deeper _ hc hw ih => exact .deeper ih hc hw

theorem LeavesOpen.ne_nil (h : LeavesOpen bracket stack u) : ∃ o below, stack = o :: below := by
  cases h with
  | here _ => exact ⟨_, _, rfl⟩
  | deeper _ _ _ => exact ⟨_, _, rfl⟩

theorem Finds.behind {f : Option ScanFault} (hv : WellNested v) (h : Finds bracket cs passed f) :
    Finds bracket (v ++ cs) (v ++ passed) f := by
  cases h with
  | closed hinner =>
    rw [← List.append_assoc]
    exact .closed (hv.append hinner)
  | wrong hopen hc hne =>
    rw [← List.append_assoc]
    exact .wrong (hopen.behind hv) hc hne
  | inString hopen hq hw =>
    rw [← List.append_assoc]
    exact .inString (hopen.behind hv) hq hw
  | unclosed hopen => exact .unclosed (hopen.behind hv)

theorem Finds.inside {b : Char} {f : ScanFault} (hb : isOpening b = true)
    (h : Finds b cs passed (some f)) : Finds bracket (b :: cs) (b :: passed) (some f) := by
  cases h with
  | wrong hopen hc hne => exact .wrong (hopen.inside hb) hc hne
  | inString hopen hq hw => exact .inString (hopen.inside hb) hq hw
  | unclosed hopen => exact .unclosed (hopen.inside hb)

end

theorem quoted_or_unfinished (q : Char) (cs : List Char) :
    (∃ w rest, cs = w ++ rest ∧ Expr.Quoted q w) ∨ Unfinished q cs := by
  match cs with
  | [] => exact .inr .nil
  | c :: cs =>
    by_cases hback : c = '\\'
    · subst hback
      cases cs with
      | nil => exact .inr .backslash
      | cons c cs =>
        rcases quoted_or_unfinished q cs with ⟨w, rest, rfl, hw⟩ | hw
        · exact .inl ⟨_, rest, rfl, .escape c hw⟩
        · exact .inr (.escape c hw)
    · by_cases hc : c = q
      · subst hc
        exact .inl ⟨[c], cs, rfl, .close⟩
      · rcases quoted_or_unfinished q cs with ⟨w, rest, rfl, hw⟩ | hw
        · exact .inl ⟨_, rest, rfl, .char hc hback hw⟩
        · exact .inr (.char hc hback hw)
termination_by cs.length

/-- There is something to find in every text. -/
theorem exists_finds (bracket : Char) (cs : List Char) : ∃ passed f, Finds bracket cs passed f := by
  have hstart : LeavesOpen bracket [bracket] [] := .here .nil
  match cs with
  | [] => exact ⟨_, _, .unclosed hstart⟩
  | c :: cs =>
    by_cases hclose : isClosing c = true
    · by_cases hc : c = closerOf bracket
      · have hfind : Finds bracket ([] ++ closerOf bracket :: cs) [] none := .closed .nil
        rw [hc]
        exact ⟨_, _, hfind⟩
      · have hfind : Finds bracket ([] ++ c :: cs) [] (some (.wrongBracket bracket c)) :=
          .wrong hstart hclose hc
        exact ⟨_, _, hfind⟩
    · by_cases hquote : isQuote c = true
      · rcases quoted_or_unfinished c cs with ⟨w, rest, rfl, hw⟩ | hw
        · obtain ⟨passed, f, h⟩ := exists_finds bracket rest
          have hfind := h.behind (.string hquote hw .nil)
          rw [List.append_nil] at hfind
          exact ⟨_, f, hfind⟩
        · have hfind : Finds bracket ([] ++ c :: cs) ([] ++ c :: cs) (some .unclosedString) :=
            .inString hstart hquote hw
          exact ⟨_, _, hfind⟩
      · by_cases hopen : isOpening c = true
        · obtain ⟨passed, f, h⟩ := exists_finds c cs
          cases f with
          | some f => exact ⟨_, _, h.inside hopen⟩
          | none =>
            cases h with
            | @closed _ rest hinner =>
              obtain ⟨more, f, h⟩ := exists_finds bracket rest
              have hfind := h.behind (.pair hopen hinner .nil)
              rw [List.cons_append, List.append_assoc, List.singleton_append] at hfind
              exact ⟨_, f, hfind⟩
        · have hc : isOrdinary c = true := by
            simp [isOrdinary, hclose, hquote, hopen]
          obtain ⟨passed, f, h⟩ := exists_finds bracket cs
          exact ⟨_, f, h.behind (.char hc .nil)⟩
termination_by cs.length

/-! ## The closing bracket -/

section

variable {bracket : Char} {cs passed : List Char}

theorem closing_of_finds (h : Finds bracket cs passed none) (pos : Nat) :
    ∃ rest, cs = passed ++ closerOf bracket :: rest ∧ closing pos bracket cs =
      .ok (passed, rest) := by
  cases h with
  | @closed _ rest hinner =>
    have hpass := ScanState.passes_nested [] hinner bracket
    refine ⟨rest, rfl, ?_⟩
    rw [closing, hpass.closing]
    simp [closingFrom, ScanState.isString, isClosing_closerOf, Except.map]

theorem closing_of_finds_fault {f : ScanFault} (h : Finds bracket cs passed (some f)) (pos : Nat) :
    closing pos bracket cs = .error ⟨f, pos + Text.width passed⟩ := by
  cases h with
  | wrong hopen hc hne =>
    have hpass := ScanState.passes_leavesOpen hopen
    rw [closing, hpass.closing]
    simp [closingFrom, ScanState.isString, hc, Ne.symm hne, Except.map]
  | inString hopen hq hw =>
    obtain ⟨escaped, hpass⟩ := ScanState.passes_inString hopen hq hw
    have hall := hpass.closing pos []
    rw [List.append_nil] at hall
    rw [closing, hall]
    simp [closingFrom, ScanState.isString, Except.map]
  | unclosed hopen =>
    have hall := (ScanState.passes_leavesOpen hopen).closing pos []
    rw [List.append_nil] at hall
    rw [closing, hall]
    simp [closingFrom, ScanState.isString, Except.map]

theorem closing_split {pos : Nat} {inner rest : List Char}
    (h : closing pos bracket cs = .ok (inner, rest)) : cs = inner ++ closerOf bracket :: rest := by
  obtain ⟨passed, f, hf⟩ := exists_finds bracket cs
  cases f with
  | none =>
    obtain ⟨tail, hcs, hok⟩ := closing_of_finds hf pos
    rw [hok] at h
    obtain ⟨rfl, rfl⟩ := Prod.mk.inj (Except.ok.inj h)
    exact hcs
  | some f =>
    rw [closing_of_finds_fault hf] at h
    cases h

end

def closingOffset (text : List Char) (start : Nat) (bracket : Char) : Except ScanError Nat :=
  (closing start bracket (Text.dropBytes start text)).map fun p => start + Text.width p.1

theorem dropBytes_width (before after : List Char) :
    Text.dropBytes (Text.width before) (before ++ after) = after := by
  induction before with
  | nil => simp [Text.width, Text.dropBytes]
  | cons c before ih =>
    have hpos := c.utf8Size_pos
    rw [Text.width, List.cons_append]
    cases hn : c.utf8Size + Text.width before with
    | zero => omega
    | succ n =>
      rw [Text.dropBytes, ← hn, Nat.add_sub_cancel_left, ih]
      simp

theorem closingOffset_of_finds {bracket : Char} {after passed : List Char}
    (h : Finds bracket after passed none) (before : List Char) :
    closingOffset (before ++ after) (Text.width before) bracket =
      .ok (Text.width (before ++ passed)) := by
  obtain ⟨rest, -, hclosing⟩ := closing_of_finds h (Text.width before)
  rw [closingOffset, dropBytes_width, hclosing, Text.width_append]
  rfl

theorem closingOffset_of_finds_fault {bracket : Char} {after passed : List Char} {f : ScanFault}
    (h : Finds bracket after passed (some f)) (before : List Char) :
    closingOffset (before ++ after) (Text.width before) bracket =
      .error ⟨f, Text.width (before ++ passed)⟩ := by
  rw [closingOffset, dropBytes_width, closing_of_finds_fault h, Text.width_append]
  rfl

section

variable (bracket : Char) (before after : List Char)

theorem closingOffset_eq_ok_iff (stop : Nat) :
    closingOffset (before ++ after) (Text.width before) bracket = .ok stop ↔
      ∃ passed, Finds bracket after passed none ∧ stop = Text.width (before ++ passed) := by
  constructor
  · intro h
    obtain ⟨passed, f, hf⟩ := exists_finds bracket after
    cases f with
    | none =>
      rw [closingOffset_of_finds hf] at h
      exact ⟨passed, hf, (Except.ok.inj h).symm⟩
    | some f =>
      rw [closingOffset_of_finds_fault hf] at h
      cases h
  · intro h
    obtain ⟨passed, hf, rfl⟩ := h
    exact closingOffset_of_finds hf before

theorem closingOffset_eq_error_iff (f : ScanFault) (offset : Nat) :
    closingOffset (before ++ after) (Text.width before) bracket = .error ⟨f, offset⟩ ↔
      ∃ passed, Finds bracket after passed (some f) ∧
        offset = Text.width (before ++ passed) := by
  constructor
  · intro h
    obtain ⟨passed, g, hf⟩ := exists_finds bracket after
    cases g with
    | none =>
      rw [closingOffset_of_finds hf] at h
      cases h
    | some g =>
      rw [closingOffset_of_finds_fault hf] at h
      obtain ⟨rfl, rfl⟩ := ScanError.mk.inj (Except.error.inj h)
      exact ⟨passed, hf, rfl⟩
  · intro h
    obtain ⟨passed, hf, rfl⟩ := h
    exact closingOffset_of_finds_fault hf before

/-- **The scan accepts exactly balanced text.** Whatever stands in front of it, a bracket is closed
at the byte where a bracket of its kind comes behind nested text, and at no other. If there is none,
the fault is the first closing bracket that does not match the innermost open one, or the end of the
text: inside a string, or with the brackets that are open there. -/
theorem closingOffset_classified :
    (∀ stop, closingOffset (before ++ after) (Text.width before) bracket = .ok stop ↔
      ∃ inner rest, after = inner ++ closerOf bracket :: rest ∧
        stop = Text.width (before ++ inner) ∧ WellNested inner) ∧
    (∀ o c offset, closingOffset (before ++ after) (Text.width before) bracket =
        .error ⟨.wrongBracket o c, offset⟩ ↔
      ∃ inner rest stack, after = inner ++ c :: rest ∧ offset = Text.width (before ++ inner) ∧
        LeavesOpen bracket (o :: stack) inner ∧ isClosing c = true ∧ c ≠ closerOf o) ∧
    (∀ offset, closingOffset (before ++ after) (Text.width before) bracket =
        .error ⟨.unclosedString, offset⟩ ↔
      offset = Text.width (before ++ after) ∧ ∃ inner stack q w, after = inner ++ q :: w ∧
        LeavesOpen bracket stack inner ∧ isQuote q = true ∧ Unfinished q w) ∧
    (∀ o offset, closingOffset (before ++ after) (Text.width before) bracket =
        .error ⟨.unclosed o, offset⟩ ↔
      offset = Text.width (before ++ after) ∧ ∃ stack, LeavesOpen bracket (o :: stack) after) := by
  refine ⟨fun stop => ?_, fun o c offset => ?_, fun offset => ?_, fun o offset => ?_⟩
  · rw [closingOffset_eq_ok_iff]
    constructor
    · intro h
      obtain ⟨inner, hf, hstop⟩ := h
      cases hf with
      | closed hinner => exact ⟨inner, _, rfl, hstop, hinner⟩
    · intro h
      obtain ⟨inner, rest, rfl, hstop, hinner⟩ := h
      exact ⟨inner, .closed hinner, hstop⟩
  · rw [closingOffset_eq_error_iff]
    constructor
    · intro h
      obtain ⟨inner, hf, hoffset⟩ := h
      cases hf with
      | wrong hopen hc hne => exact ⟨inner, _, _, rfl, hoffset, hopen, hc, hne⟩
    · intro h
      obtain ⟨inner, rest, stack, rfl, hoffset, hopen, hc, hne⟩ := h
      exact ⟨inner, .wrong hopen hc hne, hoffset⟩
  · rw [closingOffset_eq_error_iff]
    constructor
    · intro h
      obtain ⟨passed, hf, hoffset⟩ := h
      cases hf with
      | inString hopen hq hw => exact ⟨hoffset, _, _, _, _, rfl, hopen, hq, hw⟩
    · intro h
      obtain ⟨hoffset, inner, stack, q, w, rfl, hopen, hq, hw⟩ := h
      exact ⟨_, .inString hopen hq hw, hoffset⟩
  · rw [closingOffset_eq_error_iff]
    constructor
    · intro h
      obtain ⟨passed, hf, hoffset⟩ := h
      cases hf with
      | unclosed hopen => exact ⟨hoffset, _, hopen⟩
    · intro h
      obtain ⟨hoffset, stack, hopen⟩ := h
      exact ⟨_, .unclosed hopen, hoffset⟩

end

example : closingOffset "(a=[1)".toList 1 '(' = .error ⟨.wrongBracket '[' ')', 5⟩ := by
  decide +kernel

/-! ## The forgiving scan -/

/-- Before its bracket is closed a text leaves brackets open, and perhaps a string. -/
theorem leavesOpen_of_prefix {inner u : List Char} (h : WellNested inner) (hu : u <+: inner)
    (bracket : Char) : (∃ stack, LeavesOpen bracket stack u) ∨
      ∃ v stack q w, u = v ++ q :: w ∧ LeavesOpen bracket stack v ∧ isQuote q = true ∧
        Unfinished q w := by
  obtain ⟨more, rfl⟩ := hu
  have hclosed : Finds bracket ((u ++ more) ++ [closerOf bracket]) (u ++ more) none := .closed h
  obtain ⟨after, -, hwhole⟩ := closing_of_finds hclosed 0
  obtain ⟨passed, f, hf⟩ := exists_finds bracket u
  cases hf with
  | @closed _ rest hpassed =>
    -- the bracket would be closed before it is
    exfalso
    have hfind : Finds bracket
      (passed ++ closerOf bracket :: (rest ++ (more ++ [closerOf bracket])))
        passed none := .closed hpassed
    obtain ⟨tail, -, hearly⟩ := closing_of_finds hfind 0
    have hsame : (passed ++ closerOf bracket :: rest ++ more) ++ [closerOf bracket] =
        passed ++ closerOf bracket :: (rest ++ (more ++ [closerOf bracket])) := by simp
    rw [hsame, hearly] at hwhole
    have hlength := congrArg List.length (Prod.mk.inj (Except.ok.inj hwhole)).1
    simp at hlength
  | @wrong _ rest _ o c hopen hc hne =>
    exfalso
    have hfind : Finds bracket (passed ++ c :: (rest ++ (more ++ [closerOf bracket]))) passed
        (some (.wrongBracket o c)) := .wrong hopen hc hne
    have hearly := closing_of_finds_fault hfind 0
    have hsame : (passed ++ c :: rest ++ more) ++ [closerOf bracket] =
        passed ++ c :: (rest ++ (more ++ [closerOf bracket])) := by simp
    rw [hsame, hearly] at hwhole
    cases hwhole
  | inString hopen hq hw => exact .inr ⟨_, _, _, _, rfl, hopen, hq, hw⟩
  | unclosed hopen => exact .inl ⟨_, hopen⟩

def followed (bracket : Char) (u : List Char) : ScanState :=
  (bracket :: u).foldl ScanState.step .start

section

variable {bracket : Char} (hb : isOpening bracket = true) {stack u : List Char}
include hb

theorem followed_of_passes {s : ScanState} (h : ScanState.Passes ⟨[bracket], none, false⟩ u s) :
    followed bracket u = s := by
  rw [followed, List.foldl_cons, ScanState.start, ScanState.step_opening [] hb]
  exact h.state

theorem followed_of_leavesOpen (h : LeavesOpen bracket stack u) :
    followed bracket u = ⟨stack, none, false⟩ :=
  followed_of_passes hb (ScanState.passes_leavesOpen h)

theorem followed_of_inString {q : Char} {w : List Char} (h : LeavesOpen bracket stack u)
    (hq : isQuote q = true) (hw : Unfinished q w) :
    ∃ escaped, followed bracket (u ++ q :: w) = ⟨stack, some q, escaped⟩ := by
  obtain ⟨escaped, hpass⟩ := ScanState.passes_inString h hq hw
  exact ⟨escaped, followed_of_passes hb hpass⟩

theorem followed_closed (h : WellNested u) :
    followed bracket (u ++ [closerOf bracket]) = .start := by
  have hopen := followed_of_leavesOpen hb (.here h)
  rw [followed] at hopen
  rw [followed, ← List.cons_append, List.foldl_append, hopen]
  exact ScanState.step_closing [bracket] (isClosing_closerOf bracket)

theorem isNesting_followed {inner : List Char} (h : WellNested inner) (hu : u <+: inner) :
    (followed bracket u).isNesting = true := by
  rcases leavesOpen_of_prefix h hu bracket with hu | hu
  · obtain ⟨stack, hopen⟩ := hu
    obtain ⟨o, below, rfl⟩ := hopen.ne_nil
    rw [followed_of_leavesOpen hb hopen]
    rfl
  · obtain ⟨v, stack, q, w, rfl, hopen, hq, hw⟩ := hu
    obtain ⟨escaped, hstate⟩ := followed_of_inString hb hopen hq hw
    obtain ⟨o, below, rfl⟩ := hopen.ne_nil
    rw [hstate]
    rfl

/-- **The two scans agree.** Where the strict scan finds the closing bracket, the forgiving one that
starts at the open bracket is inside of brackets up to there, and outside of brackets and strings
right behind it. Where the strict scan comes to the end of the text, the other ends in a string as
well, or in brackets only. -/
theorem closingOffset_followed (before after : List Char) :
    (∀ stop, closingOffset (before ++ after) (Text.width before) bracket = .ok stop →
      ∃ inner c rest, after = inner ++ c :: rest ∧ stop = Text.width (before ++ inner) ∧
        (∀ u, u <+: inner → (followed bracket u).isNesting = true) ∧
        (followed bracket (inner ++ [c])).isNesting = false ∧
        (followed bracket (inner ++ [c])).isString = false) ∧
    (∀ offset, closingOffset (before ++ after) (Text.width before) bracket =
        .error ⟨.unclosedString, offset⟩ →
      (followed bracket after).isString = true) ∧
    (∀ o offset, closingOffset (before ++ after) (Text.width before) bracket =
        .error ⟨.unclosed o, offset⟩ →
      (followed bracket after).isNesting = true ∧ (followed bracket after).isString = false) := by
  refine ⟨fun stop h => ?_, fun offset h => ?_, fun o offset h => ?_⟩
  · obtain ⟨inner, hf, hstop⟩ := (closingOffset_eq_ok_iff ..).1 h
    cases hf with
    | @closed _ rest hinner =>
      refine ⟨inner, closerOf bracket, rest, rfl, hstop, fun u hu => ?_, ?_⟩
      · exact isNesting_followed hb hinner hu
      · rw [followed_closed hb hinner]
        exact ⟨rfl, rfl⟩
  · obtain ⟨passed, hf, -⟩ := (closingOffset_eq_error_iff ..).1 h
    cases hf with
    | inString hopen hq hw =>
      obtain ⟨escaped, hstate⟩ := followed_of_inString hb hopen hq hw
      rw [hstate]
      rfl
  · obtain ⟨passed, hf, -⟩ := (closingOffset_eq_error_iff ..).1 h
    cases hf with
    | unclosed hopen =>
      rw [followed_of_leavesOpen hb hopen]
      exact ⟨rfl, rfl⟩

end

/-- A call with a parenthesis in a string, and a comma and brackets around it. -/
theorem closingOffset_followed_call :
    let before := "f(".toList
    let after := "'é)', [b]), c".toList
    isOpening '(' = true ∧ closingOffset (before ++ after) (Text.width before) '(' = .ok 12 ∧
      ∃ inner c rest, after = inner ++ c :: rest ∧ 12 = Text.width (before ++ inner) ∧
        (∀ u, u <+: inner → (followed '(' u).isNesting = true) ∧
        (followed '(' (inner ++ [c])).isNesting = false ∧
        (followed '(' (inner ++ [c])).isString = false := by
  intro before after
  have hscan : closingOffset (before ++ after) (Text.width before) '(' = .ok 12 := by
    decide +kernel
  exact ⟨rfl, hscan, (closingOffset_followed rfl before after).1 12 hscan⟩

end Stencil
