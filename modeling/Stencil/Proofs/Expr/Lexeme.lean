import Stencil.Expr.Lexer
import Stencil.Proofs.Result
import Stencil.Proofs.Text.Run

/-! # The text of tokens

What the lexer takes for a token, that it takes the same if more text follows behind a blank or a
sign that ends one, and that it takes the same wherever the text starts. -/

namespace Stencil.Expr

def isWordy (c : Char) : Bool :=
  Text.isIdChar c || c == '.' || c == '+' || c == '-'

inductive Quoted (quote : Char) : List Char → Prop where
  | close : Quoted quote [quote]
  | escape (c : Char) {cs : List Char} : Quoted quote cs → Quoted quote ('\\' :: c :: cs)
  | char {c : Char} {cs : List Char} : c ≠ quote → c ≠ '\\' → Quoted quote cs →
    Quoted quote (c :: cs)

inductive Spells : List Char → Kind → Prop where
  | number {w : List Char} {x : Float} : (∀ c ∈ w, isWordy c = true) → Spells w (.number x)
  | name {w : List Char} {s : String} : (∀ c ∈ w, isWordy c = true) → Spells w (.name s)
  | keyword {w : List Char} {k : Keyword} : (∀ c ∈ w, isWordy c = true) → Spells w (.keyword k)
  | text {quote : Char} {w : List Char} {s : String} : quote = '"' ∨ quote = '\'' →
    Quoted quote w → Spells (quote :: w) (.text s)
  | sign (s : Sign) : Spells s.text.toList (.sign s)

/-! ## Characters -/

def isIdCode (n : Nat) : Bool :=
  n == 0x24 || n == 0x5F || Text.idStartRanges.hasCode n || Text.idExtraRanges.hasCode n

theorem isIdChar_eq (c : Char) : Text.isIdChar c = isIdCode c.toNat := by
  have hcode : ∀ d : Char, (c == d) = (c.toNat == d.toNat) := by
    intro d
    by_cases hd : c = d
    · simp [hd]
    · have hn : c.toNat ≠ d.toNat := fun h => hd (Char.toNat_inj.1 h)
      simp [hd, hn]
  simp only [Text.isIdChar, Text.isIdStart, Text.Ranges.has, isIdCode, hcode]
  rfl

theorem isIdChar_of_isDigit {c : Char} (h : isDigit c = true) : Text.isIdChar c = true := by
  have hall : ∀ n ∈ List.range' 0x30 10, isIdCode n = true := by decide +kernel
  rw [isIdChar_eq]
  refine hall _ ?_
  rw [isDigit, Bool.and_eq_true, decide_eq_true_eq, decide_eq_true_eq] at h
  have hlo : 0x30 ≤ c.toNat := h.1
  have hhi : c.toNat ≤ 0x39 := h.2
  rw [List.mem_range'_1]
  omega

def avoids (a b : Nat) : Text.Ranges → Bool
  | [] => true
  | (lo, hi) :: rs => if b < lo then true else hi < a && avoids a b rs

theorem hasCode_of_avoids {a b n : Nat} {rs : Text.Ranges} (h : avoids a b rs = true)
    (ha : a ≤ n) (hb : n ≤ b) : rs.hasCode n = false := by
  induction rs with
  | nil => rfl
  | cons r rs ih =>
    obtain ⟨lo, hi⟩ := r
    rw [avoids] at h
    rw [Text.Ranges.hasCode]
    by_cases hlo : n < lo
    · rw [if_pos hlo]
    · rw [if_neg (by omega), Bool.and_eq_true, decide_eq_true_eq] at h
      rw [if_neg hlo, if_neg (by omega)]
      exact ih h.2

def blankRanges : Text.Ranges :=
  [(0x20, 0x20), (0x9, 0xD), (0x85, 0x85), (0xA0, 0xA0), (0x1680, 0x1680), (0x2000, 0x200A),
    (0x2028, 0x2028), (0x2029, 0x2029), (0x202F, 0x202F), (0x205F, 0x205F), (0x3000, 0x3000)]

theorem isBlank_eq (c : Char) : Text.isBlank c =
    blankRanges.any fun r => decide (r.1 ≤ c.toNat) && decide (c.toNat ≤ r.2) := by
  have hpoint : ∀ a : Nat, (c.toNat == a) = (decide (a ≤ c.toNat) && decide (c.toNat ≤ a)) := by
    intro a
    rw [Bool.eq_iff_iff, Bool.and_eq_true, beq_iff_eq, decide_eq_true_eq, decide_eq_true_eq]
    omega
  simp only [Text.isBlank, hpoint, blankRanges, List.any_cons, List.any_nil, Bool.or_assoc,
    Bool.or_false]

/-- Blanks lie in the gaps between the characters of names. -/
theorem isIdChar_of_isBlank {c : Char} (h : Text.isBlank c = true) : Text.isIdChar c = false := by
  have hgap : ∀ r ∈ blankRanges, (r.2 < 0x24 ∨ 0x5F < r.1) ∧
      avoids r.1 r.2 Text.idStartRanges = true ∧ avoids r.1 r.2 Text.idExtraRanges = true := by
    decide +kernel
  rw [isBlank_eq, List.any_eq_true] at h
  obtain ⟨r, hr, h⟩ := h
  rw [Bool.and_eq_true, decide_eq_true_eq, decide_eq_true_eq] at h
  obtain ⟨hsign, hstart, hextra⟩ := hgap r hr
  rw [isIdChar_eq, isIdCode, hasCode_of_avoids hstart h.1 h.2, hasCode_of_avoids hextra h.1 h.2,
    Bool.or_false, Bool.or_false, Bool.or_eq_false_iff, beq_eq_false_iff_ne, beq_eq_false_iff_ne]
  omega

theorem isWordy_of_isIdChar {c : Char} (h : Text.isIdChar c = true) : isWordy c = true := by
  simp [isWordy, h]

theorem isWordy_of_isDigit {c : Char} (h : isDigit c = true) : isWordy c = true :=
  isWordy_of_isIdChar (isIdChar_of_isDigit h)

/-- Characters that no token takes as its next one, the open ones of quoted texts apart. -/
def endsToken (c : Char) : Bool :=
  Text.isBlank c || [')', ']', '\x7d', ':', ','].contains c

theorem isIdChar_of_endsToken {c : Char} (h : endsToken c = true) : Text.isIdChar c = false := by
  have hall : ∀ c ∈ [')', ']', '\x7d', ':', ','], Text.isIdChar c = false := by decide
  rw [endsToken, Bool.or_eq_true, List.contains_iff_mem] at h
  rcases h with h | h
  · exact isIdChar_of_isBlank h
  · exact hall c h

def Apart (v : List Char) : Prop :=
  ∀ c, v.head? = some c → endsToken c = true

theorem Apart.stops_id {v : List Char} (h : Apart v) : Stops Text.isIdChar v :=
  fun c hc => isIdChar_of_endsToken (h c hc)

theorem Apart.stops_digits {v : List Char} (h : Apart v) : Stops isDigit v := by
  intro c hc
  have hid := isIdChar_of_endsToken (h c hc)
  cases hd : isDigit c with
  | false => rfl
  | true => rw [isIdChar_of_isDigit hd] at hid; cases hid

theorem Apart.ne_cons {v : List Char} (h : Apart v) {x : Char} (hx : endsToken x = false)
    (r : List Char) : v ≠ x :: r := by
  rintro rfl
  rw [h x rfl] at hx
  cases hx

theorem Apart.head_ne {c : Char} {v : List Char} (h : Apart (c :: v)) {x : Char}
    (hx : endsToken x = false) : c ≠ x := by
  rintro rfl
  exact h.ne_cons hx v rfl

/-! ## What a token takes -/

theorem hexValue?_of_readHexFrom {acc n : Nat} {cs : List Char}
    (h : Text.readHexFrom acc cs = some n) {c : Char} (hc : c ∈ cs) :
    (Text.hexValue? c).isSome = true := by
  induction cs generalizing acc with
  | nil => cases hc
  | cons d cs ih =>
    rw [Text.readHexFrom] at h
    split at h
    · next v hv =>
      rcases List.mem_cons.1 hc with rfl | hc
      · rw [hv]
        rfl
      · exact ih h hc
    · cases h

/-- No digit of an escape can be taken for a quote or a backslash. -/
theorem plain_of_readUnit? {cs : List Char} {u : Char} (h : readUnit? cs = some u) {c : Char}
    (hc : c ∈ cs) : c ≠ '"' ∧ c ≠ '\'' ∧ c ≠ '\\' := by
  have hdigits : ∀ {ds : List Char} {n : Nat}, Text.readHex? ds = some n → ∀ c ∈ ds,
      (Text.hexValue? c).isSome = true := by
    intro ds n hn c hc
    cases ds with
    | nil => cases hc
    | cons d ds => exact hexValue?_of_readHexFrom hn hc
  have hhex : c = '+' ∨ (Text.hexValue? c).isSome = true := by
    unfold readUnit? at h
    split at h
    · next ds =>
      cases hn : Text.readHex? ds with
      | none => simp only [hn] at h; cases h
      | some n =>
        rcases List.mem_cons.1 hc with rfl | hc
        · exact .inl rfl
        · exact .inr (hdigits hn c hc)
    · cases hn : Text.readHex? cs with
      | none => simp only [hn] at h; cases h
      | some n => exact .inr (hdigits hn c hc)
  refine ⟨?_, ?_, ?_⟩
  all_goals
    rintro rfl
    rcases hhex with he | he
    · cases he
    · cases he

theorem ne_backslash {c : Char} {cs : List Char} (hcons : ∀ d r, c = '\\' → cs = d :: r → False)
    (hnil : c = '\\' → cs = [] → False) : c ≠ '\\' := by
  intro hc
  cases cs with
  | nil => exact hnil hc rfl
  | cons d cs => exact hcons d cs hc rfl

theorem readText_spells {quote : Char} {start pos : Nat} {acc cs : List Char} {l : Lexeme}
    (h : readText quote start pos acc cs = .ok l) (hq : quote = '"' ∨ quote = '\'') :
    ∃ w s, cs = w ++ l.rest ∧ Quoted quote w ∧ l.kind = .text s := by
  fun_induction readText quote start pos acc cs with
  | case2 pos acc a b c d cs stop ch hu ih =>
    obtain ⟨w, s, hw, hs, hk⟩ := ih h
    have hplain : ∀ x ∈ [a, b, c, d], x ≠ quote ∧ x ≠ '\\' := by
      intro x hx
      obtain ⟨h₁, h₂, h₃⟩ := plain_of_readUnit? hu hx
      rcases hq with rfl | rfl
      · exact ⟨h₁, h₃⟩
      · exact ⟨h₂, h₃⟩
    simp only [List.forall_mem_cons] at hplain
    obtain ⟨⟨ha, ha'⟩, ⟨hb, hb'⟩, ⟨hc, hc'⟩, ⟨hd, hd'⟩, -⟩ := hplain
    exact ⟨_, s, congrArg ('\\' :: 'u' :: a :: b :: c :: d :: ·) hw,
      .escape _ (.char ha ha' (.char hb hb' (.char hc hc' (.char hd hd' hs)))), hk⟩
  | case6 pos acc cs ih =>
    obtain ⟨w, s, hw, hs, hk⟩ := ih h
    exact ⟨_, s, congrArg (_ :: _ :: ·) hw, .escape _ hs, hk⟩
  | case7 pos acc c cs _ _ _ ih =>
    obtain ⟨w, s, hw, hs, hk⟩ := ih h
    exact ⟨_, s, congrArg (_ :: _ :: ·) hw, .escape _ hs, hk⟩
  | case9 pos acc c cs h₁ h₂ h₃ h₄ h₅ hc =>
    obtain rfl := Except.ok.inj h
    obtain rfl := eq_of_beq hc
    exact ⟨[c], _, rfl, .close, rfl⟩
  | case11 pos acc c cs h₁ h₂ h₃ h₄ h₅ h₆ h₇ ih =>
    obtain ⟨w, s, hw, hs, hk⟩ := ih h
    refine ⟨_, s, congrArg (_ :: ·) hw, .char ?_ ?_ hs, hk⟩
    · rintro rfl
      exact h₆ (beq_self_eq_true c)
    · exact ne_backslash h₄ h₅
  | _ => simp at h

def signs : List Sign :=
  [.plus, .minus, .times, .slash, .percent, .bang, .eq2, .eq3, .ne1, .ne2, .lt, .le, .gt, .ge, .and,
    .or, .nullish, .question, .questionDot, .colon, .dot, .comma, .lparen, .rparen, .lbracket,
    .rbracket, .lbrace, .rbrace]

theorem mem_signs (g : Sign) : g ∈ signs := by
  cases g <;> decide

def Sign.taken : Sign → List Char
  | .bang => ['=']
  | .eq2 => ['=']
  | .ne1 => ['=']
  | .lt => ['=']
  | .gt => ['=']
  | .question => ['.', '?']
  | _ => []

theorem head?_ne {d : Char} {cs : List Char} (h : ∀ r, cs = d :: r → False) : cs.head? ≠ some d :=
  fun hd => (List.head?_eq_some_iff.1 hd).elim h

/-- What is read as a sign: its text, behind which nothing stands that would make it longer. -/
theorem readSign_longest {pos : Nat} {c : Char} {cs : List Char} {l : Lexeme}
    (h : readSign pos (c :: cs) = .ok l) : ∃ g : Sign, c :: cs = g.text.toList ++ l.rest ∧
      (∀ d ∈ g.taken, l.rest.head? ≠ some d) ∧
      l = ⟨.sign g, pos + Text.width g.text.toList, l.rest⟩ := by
  unfold readSign at h
  split at h
  all_goals
    first
      | contradiction
      | obtain rfl := Except.ok.inj h
        refine ⟨_, ‹_›, ?_, rfl⟩
        simp only [Sign.taken, List.forall_mem_cons, List.not_mem_nil, false_implies, implies_true,
          and_true]
  all_goals
    first
      | exact head?_ne ‹_›
      | exact ⟨head?_ne ‹_›, head?_ne ‹_›⟩

theorem readSign_text (pos : Nat) (g : Sign) {r : List Char}
    (h : ∀ d ∈ g.taken, r.head? ≠ some d) :
    readSign pos (g.text.toList ++ r) =
      .ok ⟨.sign g, pos + Text.width g.text.toList, r⟩ := by
  have hne {d : Char} (hd : d ∈ g.taken) {v : List Char} (hv : r = d :: v) : False :=
    h d hd (hv ▸ rfl)
  cases g with
  | bang =>
    change readSign pos ('!' :: r) = _
    rw [readSign]
    · rfl
    · exact fun _ => hne (List.mem_cons_self ..)
    · exact fun _ => hne (List.mem_cons_self ..)
  | eq2 =>
    change readSign pos ('=' :: '=' :: r) = _
    rw [readSign]
    · rfl
    · exact fun _ => hne (List.mem_cons_self ..)
  | ne1 =>
    change readSign pos ('!' :: '=' :: r) = _
    rw [readSign]
    · rfl
    · exact fun _ => hne (List.mem_cons_self ..)
  | lt =>
    change readSign pos ('<' :: r) = _
    rw [readSign]
    · rfl
    · exact fun _ => hne (List.mem_cons_self ..)
  | gt =>
    change readSign pos ('>' :: r) = _
    rw [readSign]
    · rfl
    · exact fun _ => hne (List.mem_cons_self ..)
  | question =>
    change readSign pos ('?' :: r) = _
    rw [readSign]
    · rfl
    · exact fun _ => hne (List.mem_cons_self ..)
    · exact fun _ => hne (List.mem_cons_of_mem _ (List.mem_cons_self ..))
  | _ => rfl

theorem head_of_sign (g : Sign) : ∃ c cs, g.text.toList = c :: cs ∧ Text.isBlank c = false ∧
    isDigit c = false ∧ Text.isIdStart c = false ∧ (c == '"' || c == '\'') = false := by
  have hall : ∀ g ∈ signs, g.text.toList ≠ [] ∧ ∀ c ∈ g.text.toList, Text.isBlank c = false ∧
      isDigit c = false ∧ Text.isIdStart c = false ∧ (c == '"' || c == '\'') = false := by
    decide +kernel
  obtain ⟨hne, hg⟩ := hall g (mem_signs g)
  obtain ⟨c, cs, hcs⟩ := List.exists_cons_of_ne_nil hne
  exact ⟨c, cs, hcs, hg c (hcs ▸ List.mem_cons_self ..)⟩

theorem readToken_sign (pos : Nat) (g : Sign) {r : List Char}
    (h : ∀ d ∈ g.taken, r.head? ≠ some d) :
    readToken pos (g.text.toList ++ r) =
      .ok ⟨.sign g, pos + Text.width g.text.toList, r⟩ := by
  have hread := readSign_text pos g h
  obtain ⟨c, cs, hcs, -, hdigit, hid, hquote⟩ := head_of_sign g
  rw [hcs, List.cons_append] at hread ⊢
  rw [readToken, hdigit, hid, hquote]
  exact hread

theorem readSign_spells {pos : Nat} {c : Char} {cs : List Char} {l : Lexeme}
    (h : readSign pos (c :: cs) = .ok l) :
    ∃ s : Sign, l.kind = .sign s ∧ c :: cs = s.text.toList ++ l.rest := by
  obtain ⟨g, hg, -, hl⟩ := readSign_longest h
  exact ⟨g, by rw [hl], hg⟩

def IsPart (cs : List Char) (p : List Char × List Char) : Prop :=
  cs = p.1 ++ p.2 ∧ ∀ c ∈ p.1, isWordy c = true

theorem isPart_none (cs : List Char) : IsPart cs ([], cs) :=
  ⟨rfl, List.forall_mem_nil _⟩

theorem isPart_digits (cs : List Char) : IsPart cs (cs.takeWhile isDigit, cs.dropWhile isDigit) :=
  ⟨List.takeWhile_append_dropWhile.symm, fun _ h => isWordy_of_isDigit (List.mem_takeWhile_imp h)⟩

theorem IsPart.cons {c : Char} {cs : List Char} {p : List Char × List Char} (hc : isWordy c = true)
    (h : IsPart cs p) : IsPart (c :: cs) (c :: p.1, p.2) :=
  ⟨congrArg (c :: ·) h.1, List.forall_mem_cons.2 ⟨hc, h.2⟩⟩

theorem IsPart.append {cs : List Char} {p q : List Char × List Char} (hp : IsPart cs p)
    (hq : IsPart p.2 q) : IsPart cs (p.1 ++ q.1, q.2) := by
  refine ⟨?_, fun c hc => ?_⟩
  · rw [List.append_assoc, ← hq.1, ← hp.1]
  · rcases List.mem_append.1 hc with hc | hc
    · exact hp.2 c hc
    · exact hq.2 c hc

theorem splitFraction_isPart (cs : List Char) : IsPart cs (splitFraction cs) := by
  unfold splitFraction
  split
  · exact .cons (by decide) (isPart_digits _)
  · exact isPart_none _

theorem splitSign_isPart (cs : List Char) : IsPart cs (splitSign cs) := by
  unfold splitSign
  split
  · next c r =>
    split
    · next hc =>
      have hw : isWordy c = true := by
        rw [Bool.or_eq_true, beq_iff_eq, beq_iff_eq] at hc
        rcases hc with rfl | rfl <;> decide
      exact .cons hw (isPart_none _)
    · exact isPart_none _
  · exact isPart_none _

theorem splitExponent_isPart (cs : List Char) : IsPart cs (splitExponent cs) := by
  unfold splitExponent
  split
  · next c r =>
    split
    · next hc =>
      have hw : isWordy c = true := by
        rw [Bool.or_eq_true, beq_iff_eq, beq_iff_eq] at hc
        rcases hc with rfl | rfl <;> decide
      exact .cons hw ((splitSign_isPart r).append (isPart_digits _))
    · exact isPart_none _
  · exact isPart_none _

theorem splitNumber_isPart (cs : List Char) : IsPart cs (splitNumber cs) :=
  ((isPart_digits cs).append (splitFraction_isPart _)).append (splitExponent_isPart _)

theorem readToken_spells {pos : Nat} {c : Char} {cs : List Char} {l : Lexeme}
    (h : readToken pos (c :: cs) = .ok l) : ∃ w, c :: cs = w ++ l.rest ∧ Spells w l.kind := by
  rw [readToken] at h
  split at h
  · obtain ⟨hw, hs⟩ := splitNumber_isPart (c :: cs)
    simp only [readNumber] at h
    split at h
    · obtain rfl := Except.ok.inj h
      exact ⟨_, hw, .number hs⟩
    · cases h
  · split at h
    · obtain rfl := Except.ok.inj h
      have hs : ∀ x ∈ (c :: cs).takeWhile Text.isIdChar, isWordy x = true :=
        fun x hx => isWordy_of_isIdChar (List.mem_takeWhile_imp hx)
      refine ⟨_, List.takeWhile_append_dropWhile.symm, ?_⟩
      simp only [readName]
      split
      · exact .keyword hs
      · exact .name hs
    · split at h
      · next hq =>
        rw [Bool.or_eq_true, beq_iff_eq, beq_iff_eq] at hq
        obtain ⟨w, s, hw, hs, hk⟩ := readText_spells h hq
        exact ⟨c :: w, congrArg (c :: ·) hw, by rw [hk]; exact .text hq hs⟩
      · obtain ⟨s, hk, hs⟩ := readSign_spells h
        exact ⟨_, hs, by rw [hk]; exact .sign s⟩

/-! ## What follows a token -/

theorem readText_append {quote : Char} {start pos : Nat} {acc cs : List Char} {l : Lexeme}
    (h : readText quote start pos acc cs = .ok l) (v : List Char) :
    readText quote start pos acc (cs ++ v) = .ok { l with rest := l.rest ++ v } := by
  fun_induction readText quote start pos acc cs with
  | case2 pos acc a b c d cs stop ch hu ih =>
    simp only [List.cons_append, readText, hu]
    exact ih h
  | case6 pos acc cs ih =>
    rw [List.cons_append, List.cons_append, readText]
    exact ih h
  | case7 pos acc c cs h₁ h₂ h₃ ih =>
    rw [List.cons_append, List.cons_append, readText]
    · exact ih h
    · exact fun _ _ _ _ _ hu _ => h₂ hu
    · exact h₂
    · exact h₃
  | case9 pos acc c cs h₁ h₂ h₃ h₄ h₅ hc =>
    have hc' : c ≠ '\\' := ne_backslash h₄ h₅
    obtain rfl := Except.ok.inj h
    rw [List.cons_append, readText, if_pos hc]
    all_goals simp [hc']
  | case11 pos acc c cs h₁ h₂ h₃ h₄ h₅ h₆ h₇ ih =>
    have hc' : c ≠ '\\' := ne_backslash h₄ h₅
    rw [List.cons_append, readText, if_neg h₆, if_neg h₇]
    · exact ih h
    all_goals simp [hc']
  | _ => simp at h

theorem splitFraction_append {v : List Char} (hv : Apart v) (cs : List Char) :
    splitFraction (cs ++ v) = ((splitFraction cs).1, (splitFraction cs).2 ++ v) := by
  unfold splitFraction
  split
  · next r hr =>
    cases cs with
    | nil => exact absurd hr (hv.ne_cons (by decide) r)
    | cons c cs =>
      rw [List.cons_append] at hr
      obtain ⟨rfl, rfl⟩ := List.cons.inj hr
      obtain ⟨ht, hd⟩ := takeWhile_append_stops hv.stops_digits cs
      simp only [ht, hd]
  · next hne =>
    split
    · next r => exact absurd rfl (hne (r ++ v))
    · rfl

theorem splitSign_append {v : List Char} (hv : Apart v) (cs : List Char) :
    splitSign (cs ++ v) = ((splitSign cs).1, (splitSign cs).2 ++ v) := by
  cases cs with
  | nil =>
    cases v with
    | nil => rfl
    | cons c v =>
      have hp : c ≠ '+' := hv.head_ne (by decide)
      have hm : c ≠ '-' := hv.head_ne (by decide)
      simp [splitSign, hp, hm]
  | cons c cs =>
    simp only [List.cons_append, splitSign]
    split <;> rfl

theorem splitExponent_append {v : List Char} (hv : Apart v) (cs : List Char) :
    splitExponent (cs ++ v) = ((splitExponent cs).1, (splitExponent cs).2 ++ v) := by
  cases cs with
  | nil =>
    cases v with
    | nil => rfl
    | cons c v =>
      have he : c ≠ 'e' := hv.head_ne (by decide)
      have hE : c ≠ 'E' := hv.head_ne (by decide)
      simp [splitExponent, he, hE]
  | cons c cs =>
    obtain ⟨ht, hd⟩ := takeWhile_append_stops hv.stops_digits (splitSign cs).2
    simp only [List.cons_append, splitExponent, splitSign_append hv, ht, hd]
    split <;> rfl

theorem splitNumber_append {v : List Char} (hv : Apart v) (cs : List Char) :
    splitNumber (cs ++ v) = ((splitNumber cs).1, (splitNumber cs).2 ++ v) := by
  obtain ⟨ht, hd⟩ := takeWhile_append_stops hv.stops_digits cs
  simp only [splitNumber, ht, hd, splitFraction_append hv, splitExponent_append hv]

theorem readSign_append {pos : Nat} {c : Char} {cs v : List Char} {l : Lexeme}
    (h : readSign pos (c :: cs) = .ok l) (hv : Apart v) :
    readSign pos (c :: cs ++ v) = .ok { l with rest := l.rest ++ v } := by
  obtain ⟨g, hg, htaken, hl⟩ := readSign_longest h
  have hends : ∀ g ∈ signs, ∀ d ∈ g.taken, endsToken d = false := by decide
  rw [hg, List.append_assoc, readSign_text, hl]
  intro d hd
  cases hrest : l.rest with
  | nil =>
    intro hhead
    have hend := hv d hhead
    rw [hends g (mem_signs g) d hd] at hend
    cases hend
  | cons x r =>
    have hx := htaken d hd
    rw [hrest] at hx
    exact hx

/-- A token stays the same if a text that it cannot take comes behind it. -/
theorem readToken_append {pos : Nat} {c : Char} {cs v : List Char} {l : Lexeme}
    (h : readToken pos (c :: cs) = .ok l) (hv : Apart v) :
    readToken pos (c :: cs ++ v) = .ok { l with rest := l.rest ++ v } := by
  rw [readToken] at h
  rw [List.cons_append, readToken]
  split at h
  · next hd =>
    rw [if_pos hd]
    have hs := splitNumber_append hv (c :: cs)
    rw [List.cons_append] at hs
    simp only [readNumber, hs] at h ⊢
    split at h
    · obtain rfl := Except.ok.inj h
      rfl
    · cases h
  · next hd =>
    rw [if_neg hd]
    split at h
    · next hi =>
      obtain rfl := Except.ok.inj h
      obtain ⟨ht, hdrop⟩ := takeWhile_append_stops hv.stops_id (c :: cs)
      rw [List.cons_append] at ht hdrop
      rw [if_pos hi]
      simp only [readName, ht, hdrop]
    · next hi =>
      rw [if_neg hi]
      split at h
      · next hq =>
        rw [if_pos hq]
        exact readText_append h v
      · next hq =>
        rw [if_neg hq]
        exact readSign_append h hv

/-! ## Tokens one by one -/

def startOf (pos : Nat) (cs : List Char) : Nat :=
  pos + Text.width (cs.takeWhile Text.isBlank)

theorem tokensFrom_blank {pos : Nat} {cs : List Char} (h : cs.dropWhile Text.isBlank = []) :
    tokensFrom pos cs = ⟨[], .eof (startOf pos cs)⟩ := by
  rw [tokensFrom]
  split
  · rfl
  · next h' => rw [h] at h'; cases h'

theorem tokensFrom_error {pos : Nat} {cs r : List Char} {c : Char} {e : SyntaxError}
    (h : cs.dropWhile Text.isBlank = c :: r) (he : readToken (startOf pos cs) (c :: r) = .error e) :
    tokensFrom pos cs = ⟨[], .bad e⟩ := by
  rw [tokensFrom]
  split
  · next h' => rw [h] at h'; cases h'
  · next h' =>
    rw [h] at h'
    obtain ⟨rfl, rfl⟩ := List.cons.inj h'
    split
    · next h' =>
      obtain rfl := Except.error.inj (he.symm.trans h')
      rfl
    · next h' => cases he.symm.trans h'

theorem tokensFrom_token {pos : Nat} {cs r : List Char} {c : Char} {l : Lexeme}
    (h : cs.dropWhile Text.isBlank = c :: r) (hl : readToken (startOf pos cs) (c :: r) = .ok l) :
    tokensFrom pos cs = ⟨⟨l.kind, ⟨startOf pos cs, l.stop⟩⟩ :: (tokensFrom l.stop l.rest).list,
      (tokensFrom l.stop l.rest).finish⟩ := by
  rw [tokensFrom]
  split
  · next h' => rw [h] at h'; cases h'
  · next h' =>
    rw [h] at h'
    obtain ⟨rfl, rfl⟩ := List.cons.inj h'
    split
    · next h' => cases hl.symm.trans h'
    · next h' =>
      obtain rfl := Except.ok.inj (hl.symm.trans h')
      rfl

theorem tokensFrom_skip {pos : Nat} {u v : List Char} (h : ∀ c ∈ u, Text.isBlank c = true) :
    tokensFrom pos (u ++ v) = tokensFrom (pos + Text.width u) v := by
  have hstart : startOf pos (u ++ v) = startOf (pos + Text.width u) v := by
    rw [startOf, startOf, List.takeWhile_append_of_pos h, Text.width_append]
    omega
  have hdrop : (u ++ v).dropWhile Text.isBlank = v.dropWhile Text.isBlank :=
    List.dropWhile_append_of_pos h
  cases hv : v.dropWhile Text.isBlank with
  | nil => rw [tokensFrom_blank hv, tokensFrom_blank (hdrop.trans hv), hstart]
  | cons c r =>
    cases hl : readToken (startOf (pos + Text.width u) v) (c :: r) with
    | error e => rw [tokensFrom_error hv hl, tokensFrom_error (hdrop.trans hv) (by rw [hstart, hl])]
    | ok l =>
      rw [tokensFrom_token hv hl, tokensFrom_token (hdrop.trans hv) (by rw [hstart, hl]), hstart]

/-- The tokens of two texts, the second of which no token of the first takes up. -/
theorem tokensFrom_append {v : List Char} (hv : Apart v) (pos : Nat) (u : List Char) {stop : Nat}
    (h : (tokensFrom pos u).finish = .eof stop) :
    ∃ next, (tokensFrom pos (u ++ v)).list = (tokensFrom pos u).list ++ (tokensFrom next v).list ∧
      (tokensFrom pos (u ++ v)).finish = (tokensFrom next v).finish := by
  cases hu : u.dropWhile Text.isBlank with
  | nil =>
    have hblank : ∀ c ∈ u, Text.isBlank c = true := List.dropWhile_eq_nil_iff.1 hu
    rw [tokensFrom_skip hblank, tokensFrom_blank hu]
    exact ⟨_, rfl, rfl⟩
  | cons c r =>
    cases hl : readToken (startOf pos u) (c :: r) with
    | error e =>
      rw [tokensFrom_error hu hl] at h
      cases h
    | ok l =>
      rw [tokensFrom_token hu hl] at h ⊢
      have hlen : l.rest.length < u.length := by
        have h₁ := readToken_rest hl
        have h₂ := length_dropWhile_le Text.isBlank u
        rw [hu, List.length_cons] at h₂
        omega
      have hsplit : u ++ v = u.takeWhile Text.isBlank ++ (c :: (r ++ v)) := by
        calc u ++ v = (u.takeWhile Text.isBlank ++ u.dropWhile Text.isBlank) ++ v := by
              rw [List.takeWhile_append_dropWhile]
          _ = u.takeWhile Text.isBlank ++ (c :: (r ++ v)) := by
              rw [hu, List.append_assoc, List.cons_append]
      have hstop : Stops Text.isBlank (c :: (r ++ v)) :=
        stops_cons (stops_dropWhile Text.isBlank u c (by rw [hu]; rfl))
      have hrun : ∀ x ∈ u.takeWhile Text.isBlank, Text.isBlank x = true :=
        fun _ hx => List.mem_takeWhile_imp hx
      have hstart : startOf pos (u ++ v) = startOf pos u := by
        rw [startOf, startOf, hsplit, takeWhile_run hrun hstop]
      have htoken := readToken_append hl hv
      rw [← hstart, List.cons_append] at htoken
      rw [tokensFrom_token (by rw [hsplit, dropWhile_run hrun hstop]) htoken]
      obtain ⟨next, hlist, hfin⟩ := tokensFrom_append hv l.stop l.rest h
      refine ⟨next, ?_, hfin⟩
      rw [hstart, List.cons_append, hlist]
termination_by u.length

/-! ## Where the text starts -/

def Lexeme.Moved (l : Lexeme) (r : Except SyntaxError Lexeme) : Prop :=
  ∃ stop, r = .ok { l with stop := stop }

theorem readText_move {quote : Char} {start pos : Nat} {acc cs : List Char} {l : Lexeme}
    (h : readText quote start pos acc cs = .ok l) (start' pos' : Nat) :
    l.Moved (readText quote start' pos' acc cs) := by
  fun_induction readText quote start pos acc cs generalizing pos' with
  | case2 pos acc a b c d cs stop ch hu ih =>
    simp only [readText, hu]
    exact ih h _
  | case6 pos acc cs ih =>
    rw [readText]
    exact ih h _
  | case7 pos acc c cs h₁ h₂ h₃ ih =>
    rw [readText]
    · exact ih h _
    · exact fun _ _ _ _ _ hu _ => h₂ hu
    · exact h₂
    · exact h₃
  | case9 pos acc c cs h₁ h₂ h₃ h₄ h₅ hc =>
    have hc' : c ≠ '\\' := ne_backslash h₄ h₅
    obtain rfl := Except.ok.inj h
    refine ⟨pos' + 1, ?_⟩
    rw [readText, if_pos hc]
    all_goals simp [hc']
  | case11 pos acc c cs h₁ h₂ h₃ h₄ h₅ h₆ h₇ ih =>
    have hc' : c ≠ '\\' := ne_backslash h₄ h₅
    rw [readText, if_neg h₆, if_neg h₇]
    · exact ih h _
    all_goals simp [hc']
  | _ => simp at h

theorem readSign_move {pos : Nat} {c : Char} {cs : List Char} {l : Lexeme}
    (h : readSign pos (c :: cs) = .ok l) (pos' : Nat) : l.Moved (readSign pos' (c :: cs)) := by
  obtain ⟨g, hg, htaken, hl⟩ := readSign_longest h
  rw [hg, readSign_text pos' g htaken, hl]
  exact ⟨_, rfl⟩

theorem readToken_move {pos : Nat} {cs : List Char} {l : Lexeme} (h : readToken pos cs = .ok l)
    (pos' : Nat) : l.Moved (readToken pos' cs) := by
  unfold readToken at h ⊢
  split at h
  · obtain rfl := Except.ok.inj h
    exact ⟨pos', rfl⟩
  · next c cs =>
    split at h
    · next hd =>
      rw [if_pos hd]
      simp only [readNumber] at h ⊢
      split at h
      · obtain rfl := Except.ok.inj h
        exact ⟨_, rfl⟩
      · cases h
    · next hd =>
      rw [if_neg hd]
      split at h
      · next hi =>
        obtain rfl := Except.ok.inj h
        rw [if_pos hi]
        exact ⟨_, rfl⟩
      · next hi =>
        rw [if_neg hi]
        split at h
        · next hq =>
          rw [if_pos hq]
          exact readText_move h _ _
        · next hq =>
          rw [if_neg hq]
          exact readSign_move h _

/-- The tokens of a text are the same wherever it starts. -/
theorem tokensFrom_move {pos : Nat} {cs : List Char} {stop : Nat}
    (h : (tokensFrom pos cs).finish = .eof stop) (pos' : Nat) :
    (tokensFrom pos' cs).list.map (·.kind) = (tokensFrom pos cs).list.map (·.kind) ∧
      ∃ stop', (tokensFrom pos' cs).finish = .eof stop' := by
  cases hcs : cs.dropWhile Text.isBlank with
  | nil =>
    rw [tokensFrom_blank hcs, tokensFrom_blank hcs]
    exact ⟨rfl, _, rfl⟩
  | cons c r =>
    cases hl : readToken (startOf pos cs) (c :: r) with
    | error e =>
      rw [tokensFrom_error hcs hl] at h
      cases h
    | ok l =>
      obtain ⟨next, hm⟩ := readToken_move hl (startOf pos' cs)
      have hlen : l.rest.length < cs.length := by
        have h₁ := readToken_rest hl
        have h₂ := length_dropWhile_le Text.isBlank cs
        rw [hcs, List.length_cons] at h₂
        omega
      rw [tokensFrom_token hcs hl] at h ⊢
      rw [tokensFrom_token hcs hm]
      obtain ⟨hkinds, hfin⟩ := tokensFrom_move h next
      exact ⟨congrArg (l.kind :: ·) hkinds, hfin⟩
termination_by cs.length

end Stencil.Expr
