import Stencil.Proofs.Expr.Legible
import Stencil.Proofs.Expr.Shape
import Stencil.Proofs.Expr.Spanned

/-! # Operators as the client reads them

The client has expressions as they are written, and its language knows more operators than they are
made of. It takes the longest one at each place. What that makes of an accepted expression differs
from its tokens only where two plus signs or two minus signs touch. -/

namespace Stencil

namespace Client

/-- The punctuators of the client's language, and what else starts with one of them: comments, and
fractions without an integer part. -/
def punctuators : List String :=
  ["\x7b", "\x7d", "(", ")", "[", "]", ".", "...", ";", ",", "<", ">", "<=", ">=", "==", "!=",
   "===", "!==", "+", "-", "*", "/", "%", "**", "++", "--", "<<", ">>", ">>>", "&", "|", "^", "!",
   "~", "&&", "||", "??", "?", "?.", ":", "=", "+=", "-=", "*=", "/=", "%=", "**=", "<<=", ">>=",
   ">>>=", "&=", "|=", "^=", "&&=", "||=", "??=", "=>", "//", "/*", "<!--", ".0", ".1", ".2", ".3",
   ".4", ".5", ".6", ".7", ".8", ".9"]

/-- Whether a text starts with `p`. An optional chain does not count in front of a digit, where the
question mark is one of a conditional. -/
def fits (p : String) (v : List Char) : Bool :=
  p.toList.isPrefixOf v && !(p == "?." && (v.drop 2).head?.any isDigit)

def ReadsLongest (v : List Char) (p : String) : Prop :=
  p ∈ punctuators ∧ fits p v = true ∧ ∀ q ∈ punctuators, fits q v = true → q.length ≤ p.length

instance {v : List Char} {p : String} : Decidable (ReadsLongest v p) :=
  inferInstanceAs (Decidable (_ ∧ _ ∧ _))

def extensions (p : String) : List (List Char) :=
  (punctuators.filter fun q => p.toList.isPrefixOf q.toList).map fun q => q.toList.drop p.length

theorem exists_append_of_fits {p : String} {v : List Char} (h : fits p v = true) :
    ∃ r, v = p.toList ++ r := by
  rw [fits, Bool.and_eq_true, List.isPrefixOf_iff_prefix] at h
  obtain ⟨⟨r, hr⟩, -⟩ := h
  exact ⟨r, hr.symm⟩

/-- A punctuator is the longest one if what follows it is none of what could make it longer. -/
theorem readsLongest_of_extensions {p : String} {r : List Char} (hp : p ∈ punctuators)
    (hfits : fits p (p.toList ++ r) = true) (h : ∀ e ∈ extensions p, e <+: r → e = []) :
    ReadsLongest (p.toList ++ r) p := by
  refine ⟨hp, hfits, fun q hq hqfits => ?_⟩
  obtain ⟨r', hr'⟩ := exists_append_of_fits hqfits
  rcases List.append_eq_append_iff.1 hr' with ⟨e, he, her⟩ | ⟨e, he, -⟩
  · have hmem : e ∈ extensions p := by
      refine List.mem_map.2 ⟨q, List.mem_filter.2 ⟨hq, ?_⟩, ?_⟩
      · rw [List.isPrefixOf_iff_prefix, he]
        exact List.prefix_append ..
      · rw [he, ← String.length_toList, List.drop_left]
    obtain rfl := h e hmem ⟨r', her.symm⟩
    rw [← String.length_toList, he, List.append_nil, String.length_toList]
  · rw [← String.length_toList, ← String.length_toList, he, List.length_append]
    exact Nat.le_add_right ..

theorem ReadsLongest.unique {v : List Char} {p q : String} (hp : ReadsLongest v p)
    (hq : ReadsLongest v q) : p = q := by
  obtain ⟨hpmem, hpfits, hpmax⟩ := hp
  obtain ⟨hqmem, hqfits, hqmax⟩ := hq
  obtain ⟨r, hr⟩ := exists_append_of_fits hpfits
  obtain ⟨r', hr'⟩ := exists_append_of_fits hqfits
  have hlength : p.toList.length = q.toList.length := by
    rw [String.length_toList, String.length_toList]
    exact Nat.le_antisymm (hqmax p hpmem hpfits) (hpmax q hqmem hqfits)
  exact String.toList_inj.1 (List.append_inj (hr.symm.trans hr') hlength).1

end Client

namespace Expr

def Doubled (t u : Token) : Prop :=
  t.span.stop = u.span.start ∧ (t.kind.isSign .plus = true ∧ u.kind.isSign .plus = true ∨
    t.kind.isSign .minus = true ∧ u.kind.isSign .minus = true)

instance {t u : Token} : Decidable (Doubled t u) :=
  inferInstanceAs (Decidable (_ ∧ (_ ∨ _)))

def DoublesAt (t : Token) (us : List Token) : Prop :=
  ∃ u us', us = u :: us' ∧ Doubled t u

/-- No two plus signs and no two minus signs of an expression touch. -/
def Separate (s : String) : Prop :=
  (tokenize s).list.IsChain fun t u => ¬ Doubled t u

instance {s : String} : Decidable (Separate s) :=
  inferInstanceAs (Decidable (List.IsChain _ _))

/-- The client reads each sign of an expression as the same operator. -/
def ReadAlike (s : String) : Prop :=
  ∀ t ∈ (tokenize s).list, ∀ g, t.kind = .sign g → Client.ReadsLongest (textAt s t) g.text

/-! ## What is read -/

theorem readSign_of_readToken {pos : Nat} {c : Char} {cs : List Char} {l : Lexeme} {g : Sign}
    (h : readToken pos (c :: cs) = .ok l) (hk : l.kind = .sign g) :
    readSign pos (c :: cs) = .ok l := by
  rw [readToken] at h
  split at h
  · simp only [readNumber] at h
    split at h
    · obtain rfl := Except.ok.inj h
      cases hk
    · cases h
  · split at h
    · obtain rfl := Except.ok.inj h
      simp only [readName] at hk
      split at hk <;> cases hk
    · split at h
      · next hq =>
        rw [Bool.or_eq_true, beq_iff_eq, beq_iff_eq] at hq
        obtain ⟨w, s, -, -, hs⟩ := readText_spells h hq
        rw [hs] at hk
        cases hk
      · exact h

theorem ReadsFirst.sign {v : List Char} {t : Token} {us : List Token} {g : Sign}
    (h : ReadsFirst v t us) (hk : t.kind = .sign g) :
    ∃ r, v = g.text.toList ++ r ∧ us = (tokensFrom t.span.stop r).list ∧
      ∀ d ∈ g.taken, r.head? ≠ some d := by
  obtain ⟨c, cs, l, rfl, -, hl, ht, hus⟩ := h
  have hkind : l.kind = .sign g := by rw [← hk, ht]
  obtain ⟨g', htext, htaken, hlexeme⟩ := readSign_longest (readSign_of_readToken hl hkind)
  obtain rfl : g' = g := Kind.sign.inj (by rw [← hkind, hlexeme])
  exact ⟨l.rest, htext, by rw [hus, ht], htaken⟩

/-! ## What may follow -/

theorem phase_of_binary {a b : Shape} {g : Sign} (hg : g.binaryOp?.isSome = true)
    (h : a.step (.sign g) = some b) : b.phase = .operand := by
  obtain ⟨stack, phase⟩ := a
  cases g <;> cases hg <;> cases phase <;> cases h <;> rfl

theorem phase_of_member {a b : Shape} {g : Sign} (hg : g = .dot ∨ g = .questionDot)
    (h : a.step (.sign g) = some b) : b.phase = .member := by
  obtain ⟨stack, phase⟩ := a
  rcases hg with rfl | rfl <;> cases phase <;> cases h <;> rfl

def operandSigns : List Sign :=
  [.plus, .minus, .bang, .lparen, .rparen, .lbracket, .rbracket, .lbrace]

theorem mem_operandSigns {a b : Shape} {g : Sign} (ha : a.phase = .operand)
    (h : a.step (.sign g) = some b) : g ∈ operandSigns := by
  obtain ⟨stack, phase⟩ := a
  obtain rfl : phase = .operand := ha
  cases g <;> first | cases h; done | decide

theorem word_of_step_member {a b : Shape} {k : Kind} (ha : a.phase = .member)
    (h : a.step k = some b) : (∃ n, k = .name n) ∨ ∃ w, k = .keyword w := by
  obtain ⟨stack, phase⟩ := a
  obtain rfl : phase = .member := ha
  cases k with
  | name n => exact .inl ⟨n, rfl⟩
  | keyword w => exact .inr ⟨w, rfl⟩
  | _ => cases h

/-- How a sign goes on to a longer punctuator: with a character that the sign would have taken; with
one that no operand starts with, the sign itself and the opening of a comment apart; or it is the
point of a member. -/
theorem extension_cases : ∀ g ∈ signs, ∀ e ∈ Client.extensions g.text, e = [] ∨
    e.head? ∈ g.taken.map some ∨
    (g.binaryOp?.isSome = true ∧ e.head?.any isDigit = false ∧
      ∀ k ∈ operandSigns, k.text.toList.head? = e.head? →
        (g = .plus ∨ g = .minus) ∧ k = g ∨ g = .lt ∧ e = ['!', '-', '-']) ∨
    g = .dot := by
  -- one evaluation for all signs, so that the punctuators are taken apart once
  decide +kernel

theorem text_mem_punctuators : ∀ g ∈ signs, g.text ∈ Client.punctuators := by
  decide +kernel

/-- An accepted expression goes on behind each of its tokens as the shape there lets it. -/
theorem step_of_split {s : String} (h : accepts s = true) {ts us : List Token} {t : Token}
    (hs : (tokenize s).list = ts ++ t :: us) :
    ∃ a b : Shape, a.step t.kind = some b ∧ b.run (us.map (·.kind)) = some ⟨[], .after⟩ := by
  obtain ⟨e, he⟩ := exists_ok h
  obtain ⟨hrun, -⟩ := run_of_parse he
  rw [hs, List.map_append, List.map_cons, Shape.run_append] at hrun
  obtain ⟨a, -, hrun⟩ := Option.bind_eq_some_iff.1 hrun
  obtain ⟨b, hstep, hrun⟩ := Option.bind_eq_some_iff.1 hrun
  exact ⟨a, b, hstep, hrun⟩

theorem exists_next {b : Shape} {us : List Token} (hb : b.phase ≠ .after)
    (h : b.run (us.map (·.kind)) = some ⟨[], .after⟩) :
    ∃ u us' b', us = u :: us' ∧ b.step u.kind = some b' := by
  cases us with
  | nil =>
    obtain rfl := Option.some.inj h
    exact absurd rfl hb
  | cons u us =>
    obtain ⟨b', hstep, -⟩ := Option.bind_eq_some_iff.1 h
    exact ⟨u, us, b', rfl, hstep⟩

theorem extension_chars {p : String} {e : List Char} (he : e ∈ Client.extensions p) :
    ∀ c ∈ e, Text.isBlank c = false ∧ (isDigit c = false →
      Text.isIdStart c = false ∧ (c == '"' || c == '\'') = false) := by
  have hall : ∀ q ∈ Client.punctuators, ∀ c ∈ q.toList, Text.isBlank c = false ∧
      (isDigit c = false → Text.isIdStart c = false ∧ (c == '"' || c == '\'') = false) := by
    decide +kernel
  obtain ⟨q, hq, rfl⟩ := List.mem_map.1 he
  exact fun c hc => hall q (List.mem_of_mem_filter hq) c (List.mem_of_mem_drop hc)

theorem kind_of_first {pos : Nat} {c : Char} {r : List Char} {l : Lexeme}
    (h : readToken pos (c :: r) = .ok l)
    (hc : isDigit c = false → Text.isIdStart c = false ∧ (c == '"' || c == '\'') = false) :
    (isDigit c = true ∧ ∃ x, l.kind = .number x) ∨
      ∃ g : Sign, l.kind = .sign g ∧ g.text.toList.head? = some c := by
  rw [readToken] at h
  split at h
  · next hd =>
    simp only [readNumber] at h
    split at h
    · obtain rfl := Except.ok.inj h
      exact .inl ⟨hd, _, rfl⟩
    · cases h
  · next hd =>
    obtain ⟨hid, hquote⟩ := hc (Bool.not_eq_true _ ▸ hd)
    rw [hid, if_neg Bool.false_ne_true, if_neg (Bool.not_eq_true _ ▸ hquote)] at h
    obtain ⟨g, hk, htext⟩ := readSign_spells h
    refine .inr ⟨g, hk, ?_⟩
    have hhead : (c :: r).head? = g.text.toList.head? := by
      rw [htext]
      cases g <;> rfl
    exact hhead.symm

section

variable {a b : Shape} {t : Token} {us : List Token} {g : Sign} {r : List Char}

theorem not_plain_behind_member (hb : b.phase = .member)
    (hrun : b.run (us.map (·.kind)) = some ⟨[], .after⟩) {pos : Nat} {c : Char}
    (hus : us = (tokensFrom pos (c :: r)).list) (hblank : Text.isBlank c = false)
    (hc : isDigit c = false → Text.isIdStart c = false ∧ (c == '"' || c == '\'') = false) :
    False := by
  obtain ⟨u, us', b', rfl, hnext⟩ := exists_next (hb ▸ nofun) hrun
  obtain ⟨l, hl, rfl, -⟩ := read_of_tokensFrom_cons hblank hus.symm
  have hword := word_of_step_member hb hnext
  rcases kind_of_first hl hc with ⟨-, x, hk⟩ | ⟨k, hk, -⟩
  all_goals
    rw [hk] at hword
    rcases hword with ⟨n, hn⟩ | ⟨w, hw⟩ <;> contradiction

/-- Behind a sign of an accepted expression there is nothing that makes it longer, apart from the
same additive sign and the opening of a comment. -/
theorem extension_of_prefix (hstep : a.step (.sign g) = some b)
    (hrun : b.run (us.map (·.kind)) = some ⟨[], .after⟩) (hk : t.kind = .sign g)
    (hus : us = (tokensFrom t.span.stop r).list) (htaken : ∀ d ∈ g.taken, r.head? ≠ some d)
    {e : List Char} (he : e ∈ Client.extensions g.text) (hpre : e <+: r) :
    e = [] ∨ DoublesAt t us ∨ g = .lt ∧ e = ['!', '-', '-'] := by
  cases e with
  | nil => exact .inl rfl
  | cons d e =>
    right
    obtain ⟨r', rfl⟩ := hpre
    obtain ⟨hblank, hplain⟩ := extension_chars he d (List.mem_cons_self ..)
    rcases extension_cases g (mem_signs g) _ he with hnil | htake | ⟨hbinary, hdigit, htable⟩ | rfl
    · cases hnil
    · obtain ⟨d', hd', hsome⟩ := List.mem_map.1 htake
      exact absurd hsome.symm (htaken d' hd')
    · have hphase := phase_of_binary hbinary hstep
      obtain ⟨u, us', b', rfl, hnext⟩ := exists_next (hphase ▸ nofun) hrun
      obtain ⟨l, hl, rfl, -⟩ := read_of_tokensFrom_cons hblank hus.symm
      rcases kind_of_first hl hplain with ⟨hd, -⟩ | ⟨k, hkind, hhead⟩
      · exact absurd hd (by simpa using hdigit)
      · have hmem : k ∈ operandSigns := mem_operandSigns hphase (hkind ▸ hnext)
        rcases htable k hmem hhead with ⟨hg, rfl⟩ | hcomment
        · refine .inl ⟨_, us', rfl, rfl, ?_⟩
          rw [hk, hkind]
          rcases hg with rfl | rfl
          · exact .inl ⟨rfl, rfl⟩
          · exact .inr ⟨rfl, rfl⟩
        · exact .inr hcomment
    · exact (not_plain_behind_member (phase_of_member (.inl rfl) hstep) hrun hus hblank hplain).elim

/-- An optional chain has a name behind it, so no digit. -/
theorem fits_text (hstep : a.step (.sign g) = some b)
    (hrun : b.run (us.map (·.kind)) = some ⟨[], .after⟩)
    (hus : us = (tokensFrom t.span.stop r).list) :
    Client.fits g.text (g.text.toList ++ r) = true := by
  have hprefix : g.text.toList.isPrefixOf (g.text.toList ++ r) = true :=
    List.isPrefixOf_iff_prefix.2 (List.prefix_append ..)
  rw [Client.fits, hprefix, Bool.true_and, Bool.not_eq_true', Bool.and_eq_false_iff]
  by_cases hg : g = .questionDot
  · subst hg
    refine .inr ?_
    cases r with
    | nil => rfl
    | cons d r =>
      change isDigit d = false
      by_contra hd
      rw [Bool.not_eq_false] at hd
      have hblank : Text.isBlank d = false := by
        by_contra hb
        have hid := isIdChar_of_isBlank (Bool.not_eq_false _ ▸ hb)
        rw [isIdChar_of_isDigit hd] at hid
        cases hid
      refine not_plain_behind_member (phase_of_member (.inr rfl) hstep) hrun hus hblank ?_
      exact fun h => absurd hd (h ▸ Bool.false_ne_true)
  · refine .inl ?_
    cases g <;> first | decide | exact absurd rfl hg

theorem prefix_of_doubled {u : Token} {us' : List Token} (hk : t.kind = .sign g)
    (hus : u :: us' = (tokensFrom t.span.stop r).list) (h : Doubled t u) :
    (g = .plus ∨ g = .minus) ∧ ∃ r', r = g.text.toList ++ r' := by
  obtain ⟨hstop, hkinds⟩ := h
  rw [hk, Kind.isSign_iff, Kind.isSign_iff, Kind.isSign_iff, Kind.isSign_iff, Kind.sign.injEq,
    Kind.sign.injEq] at hkinds
  have hg : g = .plus ∨ g = .minus := hkinds.imp (·.1) (·.1)
  have hu : u.kind = .sign g := by
    rcases hkinds with ⟨rfl, hu⟩ | ⟨rfl, hu⟩ <;> exact hu
  obtain ⟨w, c, r₁, l, rfl, -, -, hl, rfl, -⟩ := tokensFrom_eq_cons hus.symm
  refine ⟨hg, ?_⟩
  obtain rfl : w = [] := by
    cases w with
    | nil => rfl
    | cons x w =>
      have hpos := x.utf8Size_pos
      simp only [Text.width] at hstop
      omega
  obtain ⟨g', htext, -, hlexeme⟩ := readSign_longest (readSign_of_readToken hl hu)
  obtain rfl : g' = g := Kind.sign.inj (by rw [← hu, hlexeme])
  exact ⟨l.rest, htext⟩

theorem readsLongest_doubled (hg : g = .plus ∨ g = .minus) :
    Client.ReadsLongest (g.text.toList ++ (g.text.toList ++ r)) (g.text ++ g.text) := by
  rw [← List.append_assoc, ← String.toList_append]
  rcases hg with rfl | rfl
  all_goals
    exact Client.readsLongest_of_extensions (by decide) rfl fun e he _ => List.mem_singleton.1 he

/-- The opening of a comment is a sign less and the negation of a doubled minus. -/
theorem doubled_of_comment {pos : Nat} (hus : us = (tokensFrom pos ('!' :: '-' :: '-' :: r)).list) :
    ∃ x u us', us = x :: u :: us' ∧ DoublesAt u us' := by
  have hbang : readToken pos ('!' :: '-' :: '-' :: r) =
      .ok ⟨.sign .bang, pos + 1, '-' :: '-' :: r⟩ :=
    readToken_sign pos .bang (by simp [Sign.taken])
  have hminus (pos : Nat) (r : List Char) :
      readToken pos ('-' :: r) = .ok ⟨.sign .minus, pos + 1, r⟩ :=
    readToken_sign pos .minus (by simp [Sign.taken])
  rw [tokensFrom_cons (by decide) hbang, tokensFrom_cons (by decide) (hminus _ _),
    tokensFrom_cons (by decide) (hminus _ _)] at hus
  exact ⟨_, _, _, hus, _, _, rfl, rfl, .inr ⟨rfl, rfl⟩⟩

end

/-! ## Expressions as a whole -/

theorem separate_iff {s : String} : Separate s ↔
    ∀ ts t us, (tokenize s).list = ts ++ t :: us → ¬ DoublesAt t us := by
  rw [Separate, List.isChain_iff_forall_rel_of_append_cons_cons]
  constructor
  · rintro h ts t us hs ⟨u, us', rfl, hdoubled⟩
    exact h hs hdoubled
  · intro h t u ts us hs hdoubled
    exact h ts t (u :: us) hs ⟨u, us, rfl, hdoubled⟩

section

variable {s : String} {ts us : List Token} {t : Token} {g : Sign}

theorem reads_of_doubles (hs : (tokenize s).list = ts ++ t :: us) (hk : t.kind = .sign g)
    (h : DoublesAt t us) : Client.ReadsLongest (textAt s t) (g.text ++ g.text) := by
  obtain ⟨r, hv, hus, -⟩ := (readsFirst_textAt hs).sign hk
  obtain ⟨u, us', rfl, hdoubled⟩ := h
  obtain ⟨hg, r', rfl⟩ := prefix_of_doubled hk hus hdoubled
  rw [hv]
  exact readsLongest_doubled hg

/-- Each other sign of an accepted expression is read as it is, or opens a comment that takes up a
doubled sign. -/
theorem reads_of_not_doubles (h : accepts s = true) (hs : (tokenize s).list = ts ++ t :: us)
    (hk : t.kind = .sign g) (hnot : ¬ DoublesAt t us) :
    Client.ReadsLongest (textAt s t) g.text ∨ Client.ReadsLongest (textAt s t) "<!--" ∧
      ∃ x u us', us = x :: u :: us' ∧ DoublesAt u us' := by
  obtain ⟨r, hv, hus, htaken⟩ := (readsFirst_textAt hs).sign hk
  obtain ⟨a, b, hstep, hrun⟩ := step_of_split h hs
  rw [hk] at hstep
  have hextension {e : List Char} (he : e ∈ Client.extensions g.text) (hpre : e <+: r) :
      e = [] ∨ g = .lt ∧ e = ['!', '-', '-'] := by
    rcases extension_of_prefix hstep hrun hk hus htaken he hpre with hnil | hdoubles | hcomment
    · exact .inl hnil
    · exact absurd hdoubles hnot
    · exact .inr hcomment
  rw [hv]
  by_cases hcomment : g = .lt ∧ ['!', '-', '-'] <+: r
  · obtain ⟨rfl, r', rfl⟩ := hcomment
    refine .inr ⟨?_, doubled_of_comment hus⟩
    exact Client.readsLongest_of_extensions (p := "<!--") (r := r') (by decide) rfl
      fun e he _ => List.mem_singleton.1 he
  · refine .inl (Client.readsLongest_of_extensions ?_ (fits_text hstep hrun hus) ?_)
    · exact text_mem_punctuators g (mem_signs g)
    · intro e he hpre
      rcases hextension he hpre with hnil | ⟨hg, rfl⟩
      · exact hnil
      · exact absurd ⟨hg, hpre⟩ hcomment

end

theorem readAlike_iff {s : String} (h : accepts s = true) : ReadAlike s ↔ Separate s := by
  rw [separate_iff]
  constructor
  · rintro halike ts t us hs hdoubles
    obtain ⟨g, hk, hne⟩ : ∃ g : Sign, t.kind = .sign g ∧ g.text ≠ g.text ++ g.text := by
      obtain ⟨u, -, -, -, ⟨hk, -⟩ | ⟨hk, -⟩⟩ := hdoubles
      · exact ⟨.plus, Kind.isSign_iff.1 hk, by decide⟩
      · exact ⟨.minus, Kind.isSign_iff.1 hk, by decide⟩
    have hmem : t ∈ (tokenize s).list := by
      rw [hs]
      exact List.mem_append_right _ (List.mem_cons_self ..)
    exact hne ((halike t hmem g hk).unique (reads_of_doubles hs hk hdoubles))
  · intro hseparate t ht g hk
    obtain ⟨ts, us, hs⟩ := List.append_of_mem ht
    rcases reads_of_not_doubles h hs hk (hseparate ts t us hs) with hreads | ⟨-, x, u, us', rfl, hu⟩
    · exact hreads
    · refine absurd hu (hseparate (ts ++ [t, x]) u us' ?_)
      rw [hs, List.append_assoc]
      rfl

/-- **The client reads the operators of an accepted expression as they are, but for doubled signs.**
All of them are read alike exactly if no two plus signs and no two minus signs touch. Where two
touch, the client reads one operator, and everywhere else the sign of the token, unless a comment
begins there which takes up a doubled sign. -/
theorem client_operators {s : String} (h : accepts s = true) :
    (ReadAlike s ↔ Separate s) ∧
      ∀ (ts us : List Token) (t : Token) (g : Sign),
        (tokenize s).list = ts ++ t :: us → t.kind = .sign g →
          (DoublesAt t us → Client.ReadsLongest (textAt s t) (g.text ++ g.text)) ∧
          (¬ DoublesAt t us → Client.ReadsLongest (textAt s t) g.text ∨
            Client.ReadsLongest (textAt s t) "<!--" ∧
              ∃ x u us', us = x :: u :: us' ∧ DoublesAt u us') :=
  ⟨readAlike_iff h, fun _ _ _ _ hs hk =>
    ⟨reads_of_doubles hs hk, reads_of_not_doubles h hs hk⟩⟩

/-- Signs behind each other that do not touch, and a question mark in front of a digit. -/
theorem client_operators_apart :
    accepts "a - -b ? +1 : c < !d" = true ∧ Separate "a - -b ? +1 : c < !d" ∧
      ReadAlike "a - -b ? +1 : c < !d" := by
  have haccepts : accepts "a - -b ? +1 : c < !d" = true := by decide +kernel
  have hseparate : Separate "a - -b ? +1 : c < !d" := by decide +kernel
  exact ⟨haccepts, hseparate, (client_operators haccepts).1.2 hseparate⟩

/-- Two minus signs that touch are accepted, and read as one operator by the client. -/
theorem client_operators_touching :
    accepts "a--b" = true ∧ ¬ Separate "a--b" ∧ ¬ ReadAlike "a--b" ∧
      ∃ t ∈ (tokenize "a--b").list, t.span.start = 1 ∧
        Client.ReadsLongest (textAt "a--b" t) "--" := by
  have haccepts : accepts "a--b" = true := by decide +kernel
  have htouch : ¬ Separate "a--b" := by decide +kernel
  refine ⟨haccepts, htouch, fun h => htouch ((readAlike_iff haccepts).1 h), ?_⟩
  decide +kernel

end Expr

end Stencil
