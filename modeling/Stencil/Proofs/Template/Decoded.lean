import Stencil.Proofs.Expr.Denoted
import Stencil.Proofs.Template.Attribute

/-! # Quoted values

A quoted value of an attribute is read twice: as an expression, to see that it is one, and by
undoing its escapes. Both give the same text unless it holds one of the escapes that they read
differently. -/

namespace Stencil.Attribute

/-- The characters that a backslash protects in a quoted text, each with what follows it. -/
def escapesIn : List Char → List (Char × List Char)
  | '\\' :: c :: cs => (c, cs) :: escapesIn cs
  | _ :: cs => escapesIn cs
  | [] => []

/-- Whether a backslash in front of `c` means the same in an attribute as in an expression. In an
expression a marker is only itself, a zero is the character of that number, a line end is nothing,
and digits may have a sign in front. -/
def readsAlike (c : Char) (cs : List Char) : Bool :=
  !(isMarker c || c == '0' || c == '\n' || (c == 'u' && cs.head? == some '+'))

/-! ## Escapes -/

theorem escapesIn_plain {c : Char} (h : c ≠ '\\') (cs : List Char) :
    escapesIn (c :: cs) = escapesIn cs := by
  rw [escapesIn]
  intro d r hc
  exact absurd hc h

theorem escapesIn_run {u : List Char} (h : ∀ c ∈ u, c ≠ '\\') (cs : List Char) :
    escapesIn (u ++ cs) = escapesIn cs := by
  induction u with
  | nil => rfl
  | cons c u ih =>
    obtain ⟨hc, hu⟩ := List.forall_mem_cons.1 h
    rw [List.cons_append, escapesIn_plain hc, ih hu]

theorem decode_run {u : List Char} (h : ∀ c ∈ u, c ≠ '\\') (cs : List Char) :
    decode (u ++ cs) = u ++ decode cs := by
  induction u with
  | nil => rfl
  | cons c u ih =>
    obtain ⟨hc, hu⟩ := List.forall_mem_cons.1 h
    rw [List.cons_append, Template.decode_plain hc, ih hu, List.cons_append]

theorem decode_letter {c : Char} (h : c ≠ 'u') (cs : List Char) :
    decode ('\\' :: c :: cs) =
      if isMarker c then '\\' :: c :: decode cs
      else if c == 'n' then '\n' :: decode cs
      else if c == 't' then '\t' :: decode cs
      else if c == 'r' then '\r' :: decode cs
      else c :: decode cs := by
  rw [decode]
  all_goals simp [h]

theorem unicodeChar?_eq {a : Char} (h : a ≠ '+') (b c d : Char) :
    unicodeChar? a b c d = Expr.readUnit? [a, b, c, d] := by
  unfold Expr.readUnit?
  split
  · next heq => exact absurd (List.cons.inj heq).1 h
  · rfl

theorem decode_unit {a b c d u : Char} (h : unicodeChar? a b c d = some u) (cs : List Char) :
    decode ('\\' :: 'u' :: a :: b :: c :: d :: cs) = u :: decode cs := by
  rw [decode, h]

/-- A sign is no digit, so the backslash stays. -/
theorem decode_signed {b c d : Char} (h : ∀ x ∈ ['+', b, c, d], x ≠ '\\') (cs : List Char) :
    decode ('\\' :: 'u' :: '+' :: b :: c :: d :: cs) =
      '\\' :: 'u' :: '+' :: b :: c :: d :: decode cs := by
  have hnone : unicodeChar? '+' b c d = none := rfl
  rw [decode, hnone]
  exact congrArg ('\\' :: 'u' :: ·) (decode_run h cs)

/-! ## Cutting -/

theorem decode_kept {cs : List Char}
    (h : ∀ a b c d r, cs = a :: b :: c :: d :: r → unicodeChar? a b c d = none) :
    decode ('\\' :: 'u' :: cs) = '\\' :: 'u' :: decode cs := by
  have short : (∀ a b c d r, cs ≠ a :: b :: c :: d :: r) →
      decode ('\\' :: 'u' :: cs) = '\\' :: 'u' :: decode cs := by
    intro hs
    rw [decode]
    exact hs
  obtain _ | ⟨a, _ | ⟨b, _ | ⟨c, _ | ⟨d, r⟩⟩⟩⟩ := cs
  · rfl
  · exact short (by simp)
  · exact short (by simp)
  · exact short (by simp)
  · rw [decode, h a b c d r rfl]

/-- Wherever a text without its escapes is cut in two, so is the text with them. -/
def Splits (cs : List Char) : Prop :=
  ∀ a b, decode cs = a ++ b → ∃ r s, cs = r ++ s ∧ decode r = a ∧ decode s = b

theorem splits_one {u cs : List Char} {x : Char} (hu : ∀ r, decode (u ++ r) = x :: decode r)
    (h : Splits cs) : Splits (u ++ cs) := by
  intro a b hab
  rw [hu] at hab
  cases a with
  | nil =>
    refine ⟨[], u ++ cs, rfl, rfl, ?_⟩
    rw [hu]
    exact hab
  | cons y a =>
    obtain ⟨rfl, htail⟩ := List.cons.inj hab
    obtain ⟨r, s, rfl, rfl, rfl⟩ := h a b htail
    exact ⟨u ++ r, s, (List.append_assoc u r s).symm, hu r, rfl⟩

theorem splits_single {c : Char} (hc : decode [c] = [c]) : Splits [c] := by
  intro a b hab
  rw [hc] at hab
  cases a with
  | nil => exact ⟨[], [c], rfl, rfl, hc.trans hab⟩
  | cons y a =>
    obtain ⟨rfl, htail⟩ := List.cons.inj hab
    obtain ⟨rfl, rfl⟩ := List.append_eq_nil_iff.1 htail.symm
    exact ⟨[c], [], rfl, hc, rfl⟩

/-- An escape that stays is two characters, which may be cut apart. -/
theorem splits_pair {y : Char} {cs : List Char} (hy : y ≠ '\\')
    (hr : ∀ r, r <+: cs → decode ('\\' :: y :: r) = '\\' :: y :: decode r) (h : Splits cs) :
    Splits ('\\' :: y :: cs) := by
  intro a b hab
  rw [hr cs (List.prefix_refl cs)] at hab
  match a with
  | [] =>
    refine ⟨[], '\\' :: y :: cs, rfl, rfl, ?_⟩
    rw [hr cs (List.prefix_refl cs)]
    exact hab
  | [z] =>
    obtain ⟨rfl, htail⟩ := List.cons.inj hab
    refine ⟨['\\'], y :: cs, rfl, rfl, ?_⟩
    rw [Template.decode_plain hy]
    exact htail
  | z :: w :: a =>
    obtain ⟨rfl, hrest⟩ := List.cons.inj hab
    obtain ⟨rfl, htail⟩ := List.cons.inj hrest
    obtain ⟨r, s, rfl, rfl, rfl⟩ := h a b htail
    exact ⟨'\\' :: y :: r, s, rfl, hr r (List.prefix_append r s), rfl⟩

theorem splits_kept {cs : List Char}
    (hk : ∀ a b c d r, cs = a :: b :: c :: d :: r → unicodeChar? a b c d = none) (h : Splits cs) :
    Splits ('\\' :: 'u' :: cs) := by
  refine splits_pair (by decide) ?_ h
  rintro r ⟨s, rfl⟩
  refine decode_kept ?_
  rintro a b c d r' rfl
  exact hk a b c d (r' ++ s) rfl

theorem decode_split (cs : List Char) : Splits cs := by
  have letter : ∀ {c x : Char} {cs : List Char}, c ≠ 'u' → isMarker c = false →
      (if c == 'n' then '\n' else if c == 't' then '\t' else if c == 'r' then '\r' else c) = x →
      Splits cs → Splits ('\\' :: c :: cs) := by
    intro c x cs hu hm hx h
    refine splits_one (u := ['\\', c]) (x := x) ?_ h
    intro r
    subst hx
    rw [List.cons_append, List.cons_append, List.nil_append, decode_letter hu,
      if_neg (by rw [hm]; decide)]
    split_ifs <;> rfl
  fun_induction decode cs with
  | case1 a b c d cs u hu ih =>
    exact splits_one (u := ['\\', 'u', a, b, c, d]) (decode_unit hu) ih
  | case2 a b c d cs hnone ih =>
    refine splits_kept ?_ ih
    rintro _ _ _ _ _ ⟨⟩
    exact hnone
  | case3 cs hshort ih =>
    refine splits_kept ?_ ih
    intro a b c d r hcs
    exact absurd hcs (hshort a b c d r)
  | case4 c cs _ hu hm ih =>
    refine splits_pair ?_ ?_ ih
    · rintro rfl
      cases hm
    · intro r _
      rw [decode_letter hu, if_pos hm]
  | case5 c cs _ hu hm hn ih => exact letter hu (by simpa using hm) rfl ih
  | case6 c cs _ hu hm hn ht ih => exact letter hu (by simpa using hm) rfl ih
  | case7 c cs _ hu hm hn ht hr ih => exact letter hu (by simpa using hm) rfl ih
  | case8 c cs _ hu hm hn ht hr ih => exact letter hu (by simpa using hm) rfl ih
  | case9 c cs h₁ h₂ h₃ ih =>
    by_cases hc : c = '\\'
    · subst hc
      cases cs with
      | nil => exact splits_single rfl
      | cons x cs => exact absurd rfl (h₃ x cs rfl)
    · exact splits_one (u := [c]) (fun r => Template.decode_plain hc r) ih
  | case10 =>
    intro a b hab
    obtain ⟨rfl, rfl⟩ := List.append_eq_nil_iff.1 hab.symm
    exact ⟨[], [], rfl, rfl, rfl⟩

/-! ## Both readings -/

/-- Undoing the escapes of `w` gives `v` exactly if all are read alike, and never less. -/
structure Decodes (w v : List Char) : Prop where
  iff : decode w = v ↔ ∀ e ∈ escapesIn w, readsAlike e.1 e.2 = true
  length_le : v.length ≤ (decode w).length

section

variable {w cs v r : List Char} {c x : Char}

theorem Decodes.alike (h : Decodes cs v) (hw : decode w = c :: decode cs)
    (he : escapesIn w = (x, r) :: escapesIn cs) (hx : readsAlike x r = true) :
    Decodes w (c :: v) where
  iff := by
    rw [hw, he, List.forall_mem_cons, ← h.iff, List.cons.injEq]
    simp [hx]
  length_le := by
    rw [hw]
    exact Nat.succ_le_succ h.length_le

theorem decodes_apart (hne : decode w ≠ v) (hle : v.length ≤ (decode w).length)
    (he : escapesIn w = (x, r) :: escapesIn cs) (hx : readsAlike x r = false) : Decodes w v where
  iff := by
    refine iff_of_false hne fun hall => ?_
    have hread := hall (x, r) (by rw [he]; exact List.mem_cons_self ..)
    rw [hx] at hread
    cases hread
  length_le := hle

theorem decodes_longer (hlt : v.length < (decode w).length)
    (he : escapesIn w = (x, r) :: escapesIn cs) (hx : readsAlike x r = false) : Decodes w v := by
  refine decodes_apart (fun h => ?_) (Nat.le_of_lt hlt) he hx
  rw [h] at hlt
  exact Nat.lt_irrefl _ hlt

theorem decodes_unit {a b d u : Char} (hu : Expr.readUnit? [a, b, c, d] = some u)
    (h : Decodes cs v) : Decodes ('\\' :: 'u' :: a :: b :: c :: d :: cs) (u :: v) := by
  have hplain : ∀ x ∈ [a, b, c, d], x ≠ '\\' := fun x hx => (Expr.plain_of_readUnit? hu hx).2.2
  have he : escapesIn ('\\' :: 'u' :: a :: b :: c :: d :: cs) =
      ('u', a :: b :: c :: d :: cs) :: escapesIn cs :=
    congrArg (('u', a :: b :: c :: d :: cs) :: ·) (escapesIn_run hplain cs)
  by_cases ha : a = '+'
  · subst ha
    have hdecode := decode_signed hplain cs
    refine decodes_longer ?_ he rfl
    have hle := h.length_le
    simp only [hdecode, List.length_cons]
    omega
  · have hread : readsAlike 'u' (a :: b :: c :: d :: cs) = true := by
      simp [readsAlike, isMarker, ha]
    exact h.alike (decode_unit (by rw [unicodeChar?_eq ha, hu]) cs) he hread

theorem decodes_lineEnd (h : Decodes cs v) : Decodes ('\\' :: '\n' :: cs) v := by
  have hdecode : decode ('\\' :: '\n' :: cs) = '\n' :: decode cs := decode_letter (by decide) cs
  refine decodes_longer ?_ rfl rfl
  rw [hdecode]
  exact Nat.lt_succ_of_le h.length_le

theorem decodes_letter (hu : c ≠ 'u') (hline : c ≠ '\n') (h : Decodes cs v) :
    Decodes ('\\' :: c :: cs) (Expr.escaped c :: v) := by
  have hdecode := decode_letter hu cs
  have hle := h.length_le
  by_cases hmark : isMarker c = true
  · rw [if_pos hmark] at hdecode
    have hread : readsAlike c cs = false := by simp [readsAlike, hmark]
    refine decodes_longer ?_ rfl hread
    simp only [hdecode, List.length_cons]
    omega
  · rw [if_neg hmark] at hdecode
    by_cases hzero : c = '0'
    · subst hzero
      have hne : decode ('\\' :: '0' :: cs) ≠ Expr.escaped '0' :: v := by
        rw [hdecode]
        intro heq
        exact absurd (List.cons.inj heq).1 (by decide)
      refine decodes_apart hne ?_ rfl rfl
      rw [hdecode]
      exact Nat.succ_le_succ hle
    · have hread : readsAlike c cs = true := by simp [readsAlike, hmark, hzero, hline, hu]
      refine h.alike ?_ rfl hread
      rw [hdecode]
      unfold Expr.escaped
      split
      · rfl
      · split
        · rfl
        · split
          · rfl
          · rw [if_neg (by simpa using hzero)]

theorem decodes_of_denotes (h : Expr.Denotes w v) : Decodes w v := by
  induction h with
  | nil => exact ⟨⟨fun _ => List.forall_mem_nil _, fun _ => rfl⟩, Nat.le_refl 0⟩
  | @char c cs v hc _ ih =>
    obtain ⟨hiff, hle⟩ := ih
    rw [← escapesIn_plain hc] at hiff
    refine ⟨?_, ?_⟩
    · rw [Template.decode_plain hc, ← hiff, List.cons.injEq]
      simp
    · rw [Template.decode_plain hc]
      exact Nat.succ_le_succ hle
  | unit hu _ ih => exact decodes_unit hu ih
  | lineEnd _ ih => exact decodes_lineEnd ih
  | escape hu hline _ ih => exact decodes_letter hu hline ih

end

/-- **Quoted values.** Where a text in quotes is a literal of the expression language, undoing its
escapes as those of an attribute value gives the value of the literal exactly if each of its escapes
is one that both read alike. -/
theorem decode_unquoted_iff {raw : List Char} {span : Span} {v : String} (hq : isQuoted raw = true)
    (h : Expr.parse (String.ofList raw) = .ok (.lit span (.str v))) :
    decode (unquoted raw) = v.toList ↔
      ∀ e ∈ escapesIn (unquoted raw), readsAlike e.1 e.2 = true := by
  cases raw with
  | nil => cases hq
  | cons q cs =>
    rw [isQuoted, Bool.and_eq_true, Bool.or_eq_true, beq_iff_eq, beq_iff_eq, beq_iff_eq] at hq
    obtain ⟨hq, hlast⟩ := hq
    have hcs : cs = cs.dropLast ++ [q] := (List.dropLast_append_getLast? q hlast).symm
    rw [hcs] at h
    exact (decodes_of_denotes (Expr.denotes_of_parse hq h)).iff

def literalText? (s : String) : Option String :=
  match Expr.parse s with
  | .ok (.lit _ (.str v)) => some v
  | _ => none

theorem parse_of_literalText? {s v : String} (h : literalText? s = some v) :
    ∃ span, Expr.parse s = .ok (.lit span (.str v)) := by
  unfold literalText? at h
  split at h
  · next span t hparse =>
    obtain rfl := Option.some.inj h
    exact ⟨span, hparse⟩
  · cases h

/-- A letter that is none of the short escapes, a quote, a backslash, a line end and a code
point. -/
theorem decode_unquoted_iff_mixed :
    let raw := "\"\\x\\\"\\\\0\\n\\u00e9+\"".toList
    isQuoted raw = true ∧
      (∃ span, Expr.parse (String.ofList raw) = .ok (.lit span (.str "x\"\\0\né+"))) ∧
      decode (unquoted raw) = "x\"\\0\né+".toList := by
  intro raw
  have hq : isQuoted raw = true := by decide +kernel
  have hparse := parse_of_literalText? (show literalText? (String.ofList raw) = some "x\"\\0\né+" by
    decide +kernel)
  obtain ⟨span, h⟩ := hparse
  exact ⟨hq, ⟨span, h⟩, (decode_unquoted_iff hq h).2 (by decide +kernel)⟩

/-- A zero, a line end and a sign are read in two ways, though no marker is near. -/
theorem escapes_read_apart :
    let table := [("a\\0b", "a\x00b", "a0b"), ("a\\\nb", "ab", "a\nb"), ("\\u+041", "A", "\\u+041")]
    ∀ t ∈ table,
      let raw := '"' :: (t.1.toList ++ ['"'])
      isQuoted raw = true ∧
        (∃ span, Expr.parse (String.ofList raw) = .ok (.lit span (.str t.2.1))) ∧
        (∀ e ∈ escapesIn (unquoted raw), isMarker e.1 = false) ∧
        decode (unquoted raw) = t.2.2.toList ∧ decode (unquoted raw) ≠ t.2.1.toList := by
  intro table t ht raw
  have hparse : ∀ t ∈ table,
      literalText? (String.ofList ('"' :: (t.1.toList ++ ['"']))) = some t.2.1 := by
    decide +kernel
  have hread : ∀ t ∈ table,
      let raw := '"' :: (t.1.toList ++ ['"'])
      isQuoted raw = true ∧ (∀ e ∈ escapesIn (unquoted raw), isMarker e.1 = false) ∧
        decode (unquoted raw) = t.2.2.toList ∧ decode (unquoted raw) ≠ t.2.1.toList := by
    decide +kernel
  obtain ⟨hq, hmark, hdecode⟩ := hread t ht
  exact ⟨hq, parse_of_literalText? (hparse t ht), hmark, hdecode⟩

end Stencil.Attribute
