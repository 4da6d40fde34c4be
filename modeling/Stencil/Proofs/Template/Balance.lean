import Stencil.Proofs.Expr.Lexeme
import Stencil.Proofs.Expr.Shape
import Stencil.Proofs.Template.Print

/-! # Balanced text

A scan goes through an expression and comes out as it was: brackets match, strings are closed, and
no comma stands outside of both. So neither the closing bracket of a list nor the comma behind a
value can be mistaken. -/

namespace Stencil

theorem closingFrom_split {pos : Nat} {s : ScanState} {cs inner rest : List Char}
    (h : closingFrom pos s cs = .ok (inner, rest)) : ∃ b, cs = inner ++ b :: rest := by
  induction cs generalizing pos s inner with
  | nil => cases h
  | cons c cs ih =>
    have hmore : ∀ t, ((closingFrom (pos + c.utf8Size) t cs).map fun p => (c :: p.1, p.2)) =
        .ok (inner, rest) → ∃ b, c :: cs = inner ++ b :: rest := by
      intro t ht
      obtain ⟨⟨i, r⟩, hi, he⟩ := map_eq_ok.1 ht
      obtain ⟨rfl, rfl⟩ := Prod.mk.inj he
      obtain ⟨b, rfl⟩ := ih hi
      exact ⟨b, rfl⟩
    have hdone : (.ok ([], cs) : Except ScanError _) = .ok (inner, rest) →
        ∃ b, c :: cs = inner ++ b :: rest := by
      intro he
      obtain ⟨rfl, rfl⟩ := Prod.mk.inj (Except.ok.inj he)
      exact ⟨c, rfl⟩
    rw [closingFrom] at h
    dsimp only at h
    split at h
    · split at h
      · exact hdone h
      · split at h
        · cases h
        · split at h
          · exact hdone h
          · exact hmore _ h
    · exact hmore _ h

namespace ScanState

/-- Whether a character can stand in an expression: brackets match, and commas are inside some. -/
def allows (s : ScanState) (c : Char) : Bool :=
  s.isString ||
    if isClosing c then s.stack.head?.any fun b => closerOf b == c else c != ',' || s.isNesting

def pass (s : ScanState) : List Char → Option ScanState
  | [] => some s
  | c :: cs => if s.allows c then (s.step c).pass cs else none

theorem pass_append (s : ScanState) (u v : List Char) :
    s.pass (u ++ v) = (s.pass u).bind fun t => t.pass v := by
  induction u generalizing s with
  | nil => rfl
  | cons c u ih =>
    rw [List.cons_append, pass, pass]
    by_cases hc : s.allows c = true
    · rw [if_pos hc, if_pos hc]
      exact ih _
    · rw [if_neg hc, if_neg hc]
      rfl

theorem pass_cons {s t : ScanState} {c : Char} {cs : List Char}
    (h : s.pass (c :: cs) = some t) : s.allows c = true ∧ (s.step c).pass cs = some t := by
  rw [pass] at h
  by_cases hc : s.allows c = true
  · rw [if_pos hc] at h
    exact ⟨hc, h⟩
  · rw [if_neg hc] at h
    cases h

def under (s : ScanState) (below : List Char) : ScanState :=
  { s with stack := s.stack ++ below }

theorem stepString_under (s : ScanState) (q c : Char) (below : List Char) :
    (s.under below).stepString q c = (s.stepString q c).under below := by
  obtain ⟨stack, quote, escaped⟩ := s
  simp only [stepString, under]
  cases escaped with
  | true => rfl
  | false =>
    by_cases hb : c = '\\'
    · simp [hb]
    · by_cases hq : c = q
      · subst hq
        simp [hb]
      · simp [hb, hq]

theorem step_under {s : ScanState} {c : Char} (h : s.allows c = true) (below : List Char) :
    (s.under below).step c = (s.step c).under below := by
  obtain ⟨stack, quote, escaped⟩ := s
  cases quote with
  | some q => exact stepString_under _ q c below
  | none =>
    simp only [under, step]
    by_cases hq : isQuote c = true
    · rw [if_pos hq, if_pos hq]
    · rw [if_neg hq, if_neg hq]
      by_cases ho : isOpening c = true
      · rw [if_pos ho, if_pos ho]
        rfl
      · rw [if_neg ho, if_neg ho]
        by_cases hc : isClosing c = true
        · rw [if_pos hc, if_pos hc]
          cases stack with
          | nil => simp [allows, isString, hc] at h
          | cons b stack => rfl
        · rw [if_neg hc, if_neg hc]

theorem stack_of_allows {s : ScanState} {c : Char} (h : s.allows c = true)
    (hs : s.isString = false) (hc : isClosing c = true) :
    ∃ b stack, s.stack = b :: stack ∧ closerOf b = c := by
  obtain ⟨stack, quote, escaped⟩ := s
  cases stack with
  | nil => simp [allows, hs, hc] at h
  | cons b stack =>
    refine ⟨b, stack, rfl, ?_⟩
    simpa [allows, hs, hc] using h

end ScanState

/-! ## Closing brackets -/

/-- The bracket that closes a list is not found in what can stand in an expression. -/
theorem closingFrom_pass {s t : ScanState} {w : List Char} (h : s.pass w = some t) (b : Char)
    (pos : Nat) (rest : List Char) :
    closingFrom pos (s.under [b]) (w ++ rest) =
      (closingFrom (pos + Text.width w) (t.under [b]) rest).map fun p => (w ++ p.1, p.2) := by
  induction w generalizing s pos with
  | nil =>
    obtain rfl := Option.some.inj h
    rw [List.nil_append, Text.width, Nat.add_zero]
    cases closingFrom pos (s.under [b]) rest <;> rfl
  | cons c w ih =>
    obtain ⟨hc, hw⟩ := ScanState.pass_cons h
    have hmore : (closingFrom (pos + c.utf8Size) ((s.under [b]).step c) (w ++ rest)).map
        (fun p => (c :: p.1, p.2)) =
        (closingFrom (pos + Text.width (c :: w)) (t.under [b]) rest).map
          fun p => (c :: w ++ p.1, p.2) := by
      rw [ScanState.step_under hc, ih hw, Text.width, ← Nat.add_assoc]
      cases closingFrom (pos + c.utf8Size + Text.width w) (t.under [b]) rest <;> rfl
    rw [List.cons_append, closingFrom, ← hmore]
    by_cases hclose : (!s.isString && isClosing c) = true
    · rw [Bool.and_eq_true, Bool.not_eq_true'] at hclose
      obtain ⟨x, stack, hstack, hx⟩ := ScanState.stack_of_allows hc hclose.1 hclose.2
      have hs : (s.under [b]).stack = x :: (stack ++ [b]) := by
        rw [ScanState.under, hstack]
        rfl
      have hstring : (s.under [b]).isString = false := hclose.1
      simp [hs, hstring, hclose.2, hx]
    · exact if_neg hclose

/-! ## The scan of an expression -/

def isCalm (c : Char) : Bool :=
  !(isQuote c || isOpening c || isClosing c || c == ',')

theorem pass_calm {w : List Char} (h : ∀ c ∈ w, isCalm c = true) (stack : List Char) :
    ScanState.pass ⟨stack, none, false⟩ w = some ⟨stack, none, false⟩ := by
  induction w with
  | nil => rfl
  | cons c w ih =>
    obtain ⟨hc, hw⟩ := List.forall_mem_cons.1 h
    simp only [isCalm, Bool.not_eq_true', Bool.or_eq_false_iff, beq_eq_false_iff_ne] at hc
    obtain ⟨⟨⟨hquote, hopen⟩, hclose⟩, hcomma⟩ := hc
    rw [ScanState.pass]
    simp only [ScanState.allows, ScanState.step, hquote, hopen, hclose]
    simpa [hcomma] using ih hw

theorem isCalm_of_isPlainChar {c : Char} (h : Template.isPlainChar c = true) : isCalm c = true := by
  simp only [Template.isPlainChar, Bool.not_eq_true', Bool.or_eq_false_iff] at h
  simp [isCalm, h]

def signCodes : List Nat :=
  [0x22, 0x27, 0x60, 0x28, 0x5B, 0x7B, 0x29, 0x5D, 0x7D, 0x2C]

theorem toNat_of_not_isCalm {c : Char} (h : isCalm c = false) : c.toNat ∈ signCodes := by
  simp only [isCalm, isQuote, isOpening, isClosing, Bool.not_eq_false', Bool.or_eq_true,
    beq_iff_eq] at h
  rcases h with ((((rfl | rfl) | h) | ((rfl | rfl) | rfl)) | ((rfl | rfl) | rfl)) | rfl
  case inl.inl.inl.inr =>
    rw [h]
    decide
  all_goals decide

theorem isCalm_of_isWordy {c : Char} (h : Expr.isWordy c = true) : isCalm c = true := by
  have hall : ∀ n ∈ signCodes, Expr.isIdCode n = false ∧ n ≠ 0x2E ∧ n ≠ 0x2B ∧ n ≠ 0x2D := by
    decide +kernel
  by_contra hc
  obtain ⟨hid, hdot, hplus, hminus⟩ := hall _ (toNat_of_not_isCalm (Bool.eq_false_iff.2 hc))
  rw [← Expr.isIdChar_eq] at hid
  simp only [Expr.isWordy, Bool.or_eq_true, beq_iff_eq] at h
  rcases h with ((h | rfl) | rfl) | rfl
  · rw [h] at hid
    cases hid
  · exact hdot rfl
  · exact hplus rfl
  · exact hminus rfl

theorem isCalm_of_isBlank {c : Char} (h : Text.isBlank c = true) : isCalm c = true := by
  by_contra hc
  have hcode := toNat_of_not_isCalm (Bool.eq_false_iff.2 hc)
  simp only [signCodes, List.mem_cons, List.not_mem_nil, or_false] at hcode
  simp only [Text.isBlank, Bool.or_eq_true, Bool.and_eq_true, beq_iff_eq, decide_eq_true_eq] at h
  omega

theorem pass_quoted {q : Char} {w : List Char} (hq : q = '"' ∨ q = '\'') (h : Expr.Quoted q w)
    (stack : List Char) :
    ScanState.pass ⟨stack, some q, false⟩ w = some ⟨stack, none, false⟩ := by
  have hback : q ≠ '\\' := by
    rcases hq with rfl | rfl <;> decide
  induction h with
  | close => simp [ScanState.pass, ScanState.allows, ScanState.isString, ScanState.step,
      ScanState.stepString, hback]
  | escape c _ ih =>
    simp [ScanState.pass, ScanState.allows, ScanState.isString, ScanState.step,
      ScanState.stepString, ih]
  | char h₁ h₂ _ ih =>
    simp [ScanState.pass, ScanState.allows, ScanState.isString, ScanState.step,
      ScanState.stepString, h₁, h₂, ih]

namespace Expr

theorem Shape.leave_eq_some {b : Char} {stack : List Char} {t : Shape}
    (h : leave b stack = some t) : stack = b :: t.stack := by
  cases stack with
  | nil => cases h
  | cons c stack =>
    rw [leave] at h
    split at h
    · next hc =>
      obtain rfl := Option.some.inj h
      rw [eq_of_beq hc]
    · cases h

/-- Only signs open and close brackets. -/
theorem Shape.stack_step {s t : Shape} {k : Kind} (h : s.step k = some t) (hk : ∀ x, k ≠ .sign x) :
    t.stack = s.stack := by
  obtain ⟨stack, phase⟩ := s
  cases k with
  | sign x => exact absurd rfl (hk x)
  | keyword w =>
    cases phase <;> cases w <;>
      first
        | obtain rfl := Option.some.inj h
          rfl
        | cases h
  | _ =>
    cases phase <;>
      first
        | obtain rfl := Option.some.inj h
          rfl
        | cases h

theorem pass_sign {s t : Shape} {x : Sign} (h : s.step (.sign x) = some t) :
    ScanState.pass ⟨s.stack, none, false⟩ x.text.toList = some ⟨t.stack, none, false⟩ := by
  obtain ⟨stack, phase⟩ := s
  -- every sign in every phase: it opens, closes or leaves the brackets alone, or does not stand
  -- there
  cases x <;> cases phase <;>
    first
      | cases h; done
      | cases h
        exact pass_calm (by decide) stack
      | cases h
        rfl
      | obtain rfl := Shape.leave_eq_some h
        rfl
      | cases stack with
        | nil => cases h
        | cons c stack =>
          cases h
          rfl

theorem pass_token {s t : Shape} {w : List Char} {k : Kind} (h : s.step k = some t)
    (hw : Spells w k) :
    ScanState.pass ⟨s.stack, none, false⟩ w = some ⟨t.stack, none, false⟩ := by
  cases hw with
  | number hw =>
    rw [Shape.stack_step h nofun]
    exact pass_calm (fun c hc => isCalm_of_isWordy (hw c hc)) _
  | name hw =>
    rw [Shape.stack_step h nofun]
    exact pass_calm (fun c hc => isCalm_of_isWordy (hw c hc)) _
  | keyword hw =>
    rw [Shape.stack_step h nofun]
    exact pass_calm (fun c hc => isCalm_of_isWordy (hw c hc)) _
  | text hq hw =>
    rw [Shape.stack_step h nofun, ← pass_quoted hq hw s.stack]
    rcases hq with rfl | rfl <;> rfl
  | sign x => exact pass_sign h

/-- The brackets that are open are those of the shape, all along. -/
theorem pass_tokensFrom {s t : Shape} (pos : Nat) (cs : List Char)
    (h : s.run ((tokensFrom pos cs).list.map (·.kind)) = some t) {stop : Nat}
    (hf : (tokensFrom pos cs).finish = .eof stop) :
    ScanState.pass ⟨s.stack, none, false⟩ cs = some ⟨t.stack, none, false⟩ := by
  have hblank := ScanState.pass_append ⟨s.stack, none, false⟩ (cs.takeWhile Text.isBlank)
    (cs.dropWhile Text.isBlank)
  rw [List.takeWhile_append_dropWhile,
    pass_calm fun c hc => isCalm_of_isBlank (List.mem_takeWhile_imp hc), Option.bind_some] at hblank
  rw [hblank]
  cases hd : cs.dropWhile Text.isBlank with
  | nil =>
    rw [tokensFrom_blank hd] at h
    obtain rfl := Option.some.inj h
    rfl
  | cons c r =>
    cases hl : readToken (startOf pos cs) (c :: r) with
    | error e =>
      rw [tokensFrom_error hd hl] at hf
      cases hf
    | ok l =>
      rw [tokensFrom_token hd hl] at h hf
      rw [List.map_cons, Shape.run] at h
      obtain ⟨u, hu, h⟩ := Option.bind_eq_some_iff.1 h
      obtain ⟨w, hw, hs⟩ := readToken_spells hl
      have hlen : l.rest.length < cs.length := by
        have h₁ := readToken_rest hl
        have h₂ := length_dropWhile_le Text.isBlank cs
        rw [hd, List.length_cons] at h₂
        omega
      rw [hw, ScanState.pass_append, pass_token hu hs]
      exact pass_tokensFrom l.stop l.rest h hf
termination_by cs.length

end Expr

def Balanced (cs : List Char) : Prop :=
  ScanState.start.pass cs = some .start

theorem balanced_calm {w : List Char} (h : ∀ c ∈ w, isCalm c = true) : Balanced w :=
  pass_calm h []

theorem balanced_append {u v : List Char} (hu : Balanced u) (hv : Balanced v) :
    Balanced (u ++ v) := by
  rw [Balanced, ScanState.pass_append, hu, Option.bind_some, hv]

theorem balanced_of_accepts {e : String} (h : Expr.accepts e = true) : Balanced e.toList := by
  obtain ⟨x, hx⟩ := exists_ok h
  obtain ⟨hrun, stop, hstop⟩ := Expr.run_of_parse hx
  exact Expr.pass_tokensFrom 0 e.toList hrun hstop

/-! ## The end of a value -/

theorem continues_of_step {k : Expr.Kind} {t : Expr.Shape}
    (h : Expr.Shape.step ⟨[], .after⟩ k = some t) {w : List Char} (hw : Expr.Spells w k) :
    w.head?.any Attribute.continues = true := by
  cases hw with
  | sign x => cases x <;> first | cases h; done | rfl
  | _ => cases h

/-- An expression that goes on behind a blank goes on with a sign. -/
theorem continues_of_accepts {p blanks rest : List Char} {x : Char}
    (hp : Expr.accepts (String.ofList p) = true) (hne : blanks ≠ [])
    (hb : ∀ c ∈ blanks, Text.isBlank c = true) (hx : Text.isBlank x = false)
    (he : Expr.accepts (String.ofList (p ++ (blanks ++ x :: rest))) = true) :
    Attribute.continues x = true := by
  obtain ⟨e₁, h₁⟩ := exists_ok hp
  obtain ⟨e₂, h₂⟩ := exists_ok he
  obtain ⟨hrun₁, stop₁, hstop₁⟩ := Expr.run_of_parse h₁
  obtain ⟨hrun₂, stop₂, hstop₂⟩ := Expr.run_of_parse h₂
  rw [Expr.tokenize, String.toList_ofList] at hrun₁ hstop₁ hrun₂ hstop₂
  have happart : Expr.Apart (blanks ++ x :: rest) := by
    cases blanks with
    | nil => exact absurd rfl hne
    | cons b bs =>
      intro c hc
      obtain rfl : b = c := by simpa using hc
      have hblank := hb b (List.mem_cons_self ..)
      simp [Expr.endsToken, hblank]
  obtain ⟨next, hlist, hfin⟩ := Expr.tokensFrom_append happart 0 p hstop₁
  rw [hlist, List.map_append, Expr.Shape.run_append, hrun₁, Option.bind_some,
    Expr.tokensFrom_skip hb] at hrun₂
  rw [hfin, Expr.tokensFrom_skip hb] at hstop₂
  have hd : (x :: rest).dropWhile Text.isBlank = x :: rest :=
    (stops_cons (p := Text.isBlank) hx).dropWhile
  cases hl : Expr.readToken (Expr.startOf (next + Text.width blanks) (x :: rest)) (x :: rest) with
  | error e =>
    rw [Expr.tokensFrom_error hd hl] at hstop₂
    cases hstop₂
  | ok l =>
    rw [Expr.tokensFrom_token hd hl] at hrun₂
    obtain ⟨u, hu, -⟩ := Option.bind_eq_some_iff.1 hrun₂
    obtain ⟨w, hw, hs⟩ := Expr.readToken_spells hl
    have hcont := continues_of_step hu hs
    cases w with
    | nil => cases hcont
    | cons c w =>
      rw [List.cons_append, List.cons.injEq] at hw
      rw [hw.1]
      exact hcont

theorem continues_behind {e u v : List Char} {c : Char}
    (hacc : Expr.accepts (String.ofList e) = true)
    (htrim : Text.trim e = e) (he : e = u ++ c :: v) (hc : Text.isIndent c = true)
    (hu : Expr.accepts (String.ofList (Text.trim u)) = true) (hne : Text.trim u ≠ [])
    (tail : List Char) : (Text.trimStart (v ++ tail)).head?.any Attribute.continues = true := by
  obtain ⟨hfirst, hlast⟩ := Text.trim_eq_self_iff.1 htrim
  have hblank : Text.isBlank c = true := by
    simp only [Text.isIndent, Bool.or_eq_true, beq_iff_eq] at hc
    rcases hc with rfl | rfl <;> decide
  have hstart : Text.trimStart u = u := by
    cases u with
    | nil => rfl
    | cons d u =>
      have hd : Text.isBlank d = false := hfirst d (by rw [he]; rfl)
      exact (stops_cons (p := Text.isBlank) hd).dropWhile
  have htrimu : Text.trim u = Text.dropTail Text.isBlank u := by
    rw [Text.trim, hstart, Text.trimEnd]
  obtain ⟨blanks, hsplit, hblanks⟩ := Text.dropTail_split Text.isBlank u
  rw [← htrimu] at hsplit
  cases hv : Text.trimStart v with
  | nil =>
    exfalso
    have hall : ∀ x ∈ v, Text.isBlank x = true := List.dropWhile_eq_nil_iff.1 hv
    have hlast' : ∀ x ∈ (c :: v).getLast?, Text.isBlank x = false := by
      intro x hx
      refine hlast x ?_
      rw [he, List.getLast?_append, hx]
      rfl
    have hmem := List.getLast_mem (List.cons_ne_nil c v)
    have hfalse := hlast' _ (List.getLast?_eq_some_getLast (List.cons_ne_nil c v))
    rcases List.mem_cons.1 hmem with h | h
    · rw [h, hblank] at hfalse
      cases hfalse
    · rw [hall _ h] at hfalse
      cases hfalse
  | cons x r =>
    have hx : Text.isBlank x = false := stops_dropWhile Text.isBlank v x (by
      rw [Text.trimStart] at hv
      rw [hv]
      rfl)
    have hvs : v = v.takeWhile Text.isBlank ++ x :: r := by
      rw [← hv]
      exact List.takeWhile_append_dropWhile.symm
    have hblanks' : ∀ d ∈ blanks ++ c :: v.takeWhile Text.isBlank, Text.isBlank d = true := by
      intro d hd
      rcases List.mem_append.1 hd with hd | hd
      · exact hblanks d hd
      · rcases List.mem_cons.1 hd with rfl | hd
        · exact hblank
        · exact List.mem_takeWhile_imp hd
    have hwhole : e = Text.trim u ++ ((blanks ++ c :: v.takeWhile Text.isBlank) ++ x :: r) := by
      calc e = (Text.trim u ++ blanks) ++ c :: (v.takeWhile Text.isBlank ++ x :: r) := by
            rw [← hsplit, ← hvs, he]
        _ = _ := by simp
    rw [hwhole] at hacc
    have hcont := continues_of_accepts hu (by simp) hblanks' hx hacc
    have htail : Text.trimStart (v ++ tail) = x :: (r ++ tail) := by
      rw [Text.trimStart, hvs, List.append_assoc]
      exact dropWhile_run (fun _ hd => List.mem_takeWhile_imp hd) (stops_cons hx)
    rw [htail]
    exact hcont

def ScanState.holdsLines (s : ScanState) : List Char → Bool
  | [] => true
  | c :: cs => (c != '\n' || s.isString || s.isNesting) && (s.step c).holdsLines cs

theorem ScanState.holdsLines_of_not_mem {cs : List Char} (h : '\n' ∉ cs) (s : ScanState) :
    s.holdsLines cs = true := by
  induction cs generalizing s with
  | nil => rfl
  | cons c cs ih =>
    obtain ⟨hc, hcs⟩ := not_or.1 (mt List.mem_cons.2 h)
    rw [holdsLines, ih hcs, bne_iff_ne.2 (Ne.symm hc)]
    rfl

/-- What can be the value of an attribute: an expression that goes on to another line only where it
cannot end. -/
structure Attribute.IsValue (e : String) : Prop where
  trimmed : Template.Trimmed e
  accepted : Expr.accepts e = true
  lines : ScanState.start.holdsLines e.toList = true

theorem Attribute.isValue_of_isExpr {e : String} (h : Template.IsExpr e) : Attribute.IsValue e where
  trimmed := h.trimmed
  accepted := h.accepted
  lines := ScanState.holdsLines_of_not_mem (fun hmem => (h.oneLine _ hmem).1 rfl) _

theorem splitValue_pass {e : String} (h : Attribute.IsValue e) {u v tail : List Char}
    {s : ScanState}
    (he : e.toList = u ++ v) (hs : ScanState.start.pass u = some s) (hl : s.holdsLines v = true)
    (htail : tail = [] ∨ ∃ r, tail = ',' :: r) :
    Attribute.splitValue s u.reverse (v ++ tail) = (e.toList, tail) := by
  have hacc : Expr.accepts (String.ofList e.toList) = true := by
    rw [String.ofList_toList]
    exact h.accepted
  have hbal : Balanced e.toList := balanced_of_accepts h.accepted
  rw [Balanced, he, ScanState.pass_append, hs, Option.bind_some] at hbal
  induction v generalizing u s with
  | nil =>
    obtain rfl := Option.some.inj hbal
    rw [List.append_nil] at he
    rw [he]
    rcases htail with rfl | ⟨r, rfl⟩
    · rw [List.append_nil, Attribute.splitValue, List.reverse_reverse]
    · simp [Attribute.splitValue, ScanState.start, ScanState.isString, ScanState.isNesting]
  | cons c v ih =>
    obtain ⟨hc, hv⟩ := ScanState.pass_cons hbal
    rw [ScanState.holdsLines, Bool.and_eq_true] at hl
    obtain ⟨hline, hl⟩ := hl
    have hnext : Attribute.splitValue (s.step c) (c :: u.reverse) (v ++ tail) =
      (e.toList, tail) := by
      have := ih (u := u ++ [c]) (s := s.step c) (by simp [he]) ?_ hl hv
      · rwa [List.reverse_append] at this
      · rw [ScanState.pass_append, hs, Option.bind_some, ScanState.pass, if_pos hc]
        rfl
    rw [List.cons_append, Attribute.splitValue]
    dsimp only
    rw [if_neg, if_neg, hnext]
    · intro hend
      simp only [Bool.and_eq_true, Bool.not_eq_true'] at hend
      obtain ⟨⟨-, hi⟩, ⟨hne, hu⟩, hcont⟩ := hend
      rw [List.reverse_reverse] at hne hu
      have hne' : Text.trim u ≠ [] := by
        intro hu
        rw [hu] at hne
        cases hne
      rw [continues_behind hacc h.trimmed.2 he hi hu hne' tail] at hcont
      cases hcont
    · intro hend
      simp only [Bool.and_eq_true, Bool.or_eq_true, beq_iff_eq, Bool.not_eq_true'] at hend
      obtain ⟨⟨hstring, hnest⟩, rfl | rfl⟩ := hend
      · simp [ScanState.allows, hstring, hnest, isClosing] at hc
      · rw [hstring, hnest] at hline
        cases hline

theorem splitValue_expr {e : String} (h : Attribute.IsValue e) {tail : List Char}
    (htail : tail = [] ∨ ∃ r, tail = ',' :: r) :
    Attribute.splitValue .start [] (e.toList ++ tail) = (e.toList, tail) :=
  splitValue_pass (u := []) h rfl rfl h.lines htail

end Stencil
