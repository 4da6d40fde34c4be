import Stencil.Proofs.Template.OwnDirective

/-! # Lines of their own

Which lines keep to themselves, and that such a line is read alike in two sources that have it on a
line of the same number. -/

namespace Stencil.Template

/-! ## Tokens without their places -/

def TokenKind.bare : TokenKind → TokenKind
  | .indent _ => .indent 0
  | k => k

/-- A token without its span, and an indentation without its width. -/
def Token.bare (t : Token) : Token :=
  ⟨t.kind.bare, t.line, ⟨0, 0⟩⟩

def SameTokens (ts us : List Token) : Prop :=
  ts.map Token.bare = us.map Token.bare

theorem SameTokens.cons {t u : Token} {ts us : List Token} (ht : t.bare = u.bare)
    (hts : SameTokens ts us) : SameTokens (t :: ts) (u :: us) := by
  rw [SameTokens, List.map_cons, List.map_cons, ht, hts]

theorem SameTokens.append {ts us ts' us' : List Token} (h : SameTokens ts us)
    (h' : SameTokens ts' us') : SameTokens (ts ++ ts') (us ++ us') := by
  rw [SameTokens, List.map_append, List.map_append, h, h']

theorem SameTokens.reverse {ts us : List Token} (h : SameTokens ts us) :
    SameTokens ts.reverse us.reverse := by
  rw [SameTokens, List.map_reverse, List.map_reverse, h]

theorem Token.bare_upTo (kind : TokenKind) {line line' : Nat} (h : line = line')
    (start start' : Nat) (c c' : Cursor) :
    (Token.upTo kind line start c).bare = (Token.upTo kind line' start' c').bare := by
  subst h
  rfl

theorem map_bare_markSelfClosing (ts : List Token) :
    (markSelfClosing ts).map Token.bare = markSelfClosing (ts.map Token.bare) := by
  cases ts with
  | nil => rfl
  | cons t ts =>
    obtain ⟨kind, line, span⟩ := t
    cases kind <;> rfl

theorem SameTokens.markSelfClosing {ts us : List Token} (h : SameTokens ts us) :
    SameTokens (markSelfClosing ts) (markSelfClosing us) := by
  rw [SameTokens, map_bare_markSelfClosing, map_bare_markSelfClosing, h]

/-! ## Tags -/

theorem allBlank_linesAfter {cs : List Char} (h : Text.allBlank cs = true)
    (acc : Option (List Char)) (ha : ∀ l, acc = some l → Text.allBlank l = true) :
    ∀ l ∈ linesAfter acc cs, Text.allBlank l = true := by
  induction cs generalizing acc with
  | nil =>
    cases acc with
    | none => exact List.forall_mem_nil _
    | some l =>
      refine List.forall_mem_singleton.2 ?_
      rw [Text.allBlank, List.all_reverse]
      exact ha l rfl
  | cons c cs ih =>
    rw [Text.allBlank, List.all_cons, Bool.and_eq_true] at h
    unfold linesAfter
    split
    · have hmore := ih h.2 (some []) (by rintro l ⟨⟩; rfl)
      cases acc with
      | none => exact hmore
      | some l =>
        refine List.forall_mem_cons.2 ⟨?_, hmore⟩
        rw [Text.allBlank, List.all_reverse]
        exact ha l rfl
    · refine ih h.2 _ ?_
      rintro l hl
      obtain ⟨k, hk, rfl⟩ := Option.map_eq_some_iff.1 hl
      rw [Text.allBlank, List.all_cons, h.1]
      exact ha k hk

/-- Blank lines are no text. -/
theorem readTextBlock_blank {indent : Nat} {acc : List Token} {c : Cursor}
    (h : Text.allBlank c.rest = true) : readTextBlock indent acc c = .ok (acc, c) := by
  have hlines : deeperLines indent (linesAfter none c.rest) = [] := by
    have hblank : ∀ l ∈ ((linesAfter none c.rest).takeWhile fun l =>
        Text.allBlank l || indent < indentWidth l).reverse, Text.allBlank l = true := by
      intro l hl
      refine allBlank_linesAfter h none ?_ l (List.takeWhile_subset _ (List.mem_reverse.1 hl))
      rintro k ⟨⟩
    rw [deeperLines, dropTrailingBlank, List.dropWhile_eq_nil_iff.2 hblank]
    rfl
  rw [readTextBlock, blockLines_eq, hlines]
  rfl

/-- Whether the parts of a tag, read off the text behind its name, end with the line: each list
does, and the line does not end in the point that opens a block of text. -/
def endsParts : List Char → Bool
  | '.' :: cs =>
    if (className cs).isEmpty then !cs.all (· == ' ') else endsParts (cs.drop (className cs).length)
  | '#' :: cs => (className cs).isEmpty || endsParts (cs.drop (className cs).length)
  | '(' :: cs => match h : closing 1 '(' cs with
    | .ok p =>
      have := closingFrom_rest h
      endsParts p.2
    | .error e => !e.fault.isOpen
  | '/' :: cs => endsParts cs
  | _ => true
termination_by cs => cs.length

/-- Parts that are read alike: both the last of their lines, or both with the same text behind them,
which is shorter than `u`. -/
def PartAlike (u t t' : List Char) (a b : (List Token × Bool) × Cursor) : Prop :=
  SameTokens a.1.1 b.1.1 ∧ a.1.2 = b.1.2 ∧
    if a.1.2 then ∃ v, v.length < u.length ∧ endsParts v = true ∧ Along v t t' a.2 b.2
    else Along [] t t' a.2 b.2

theorem className_line {v s : List Char} (hs : Stops (· != '\n') s) :
    className (v ++ s) = className v :=
  (takeWhile_append_stops (stops_of_newline hs (by decide)) v).1

theorem opensTextBlock_line {v s : List Char} (hv : '\n' ∉ v) (hne : (!v.all (· == ' ')) = true) :
    opensTextBlock (v ++ s) = (Text.allBlank v && Text.allBlank s) := by
  -- Something other than a space stands behind the point, so only blanks up to the end open a
  -- block.
  have hfirst : ∃ x w, v.dropWhile (· == ' ') = x :: w ∧ x ≠ '\n' := by
    cases hd : v.dropWhile (· == ' ') with
    | nil =>
      rw [List.dropWhile_eq_nil_iff] at hd
      rw [List.all_eq_true.2 hd] at hne
      cases hne
    | cons x w =>
      refine ⟨x, w, rfl, ?_⟩
      rintro rfl
      exact hv (List.dropWhile_subset _ (hd ▸ List.mem_cons_self ..))
  obtain ⟨x, w, hd, hx⟩ := hfirst
  have hdrop : (v ++ s).dropWhile (· == ' ') = x :: (w ++ s) := by
    rw [List.dropWhile_append, hd]
    rfl
  rw [opensTextBlock, hdrop]
  simp [Text.allBlank, hx]

section

variable {indent : Nat} {acc : List Token} {c : Cursor} {cs : List Char}

theorem readTagPart_pointAlone (hc : c.rest = '.' :: cs) (h : className cs = []) :
    readTagPart indent acc c =
      if opensTextBlock cs then
        readTextBlock indent acc c.skipLine >>= fun x => .ok ((x.1, false), x.2)
      else .error (strayText c) := by
  unfold readTagPart
  rw [hc]
  exact if_neg (by simp [h])

theorem readTagPart_hash (hc : c.rest = '#' :: cs) :
    readTagPart indent acc c =
      if (className cs).isEmpty then .error (strayText c)
      else .ok ((.upTo (.attrs [⟨"id", .literal (String.ofList (className cs)), true⟩] false) c.line
        c.pos (c.advance (1 + (className cs).length)) :: acc, true),
          c.advance (1 + (className cs).length)) := by
  unfold readTagPart
  rw [hc]
  rfl

theorem readTagPart_paren (hc : c.rest = '(' :: cs) :
    readTagPart indent acc c =
      readAttrs c >>= fun x => .ok ((.upTo (.attrs x.1 false) c.line c.pos x.2 :: acc, true),
        x.2) := by
  unfold readTagPart
  rw [hc]
  rfl

theorem readTagPart_slash (hc : c.rest = '/' :: cs) :
    readTagPart indent acc c = .ok ((markSelfClosing acc, true), c.advance 1) := by
  unfold readTagPart
  rw [hc]
  rfl

theorem readTagPart_other {x : Char} (hc : c.rest = x :: cs) (hx : x ∉ ['.', '#', '(', '/'])
    (hline : x ≠ '\n') :
    readTagPart indent acc c =
      if Text.isIndent x then
        if Text.allBlank (cs.takeWhile (· != '\n')) then .ok ((acc, false), c.skipLine)
        else checkText (cs.takeWhile (· != '\n')) (c.pos + 1) c.line >>= fun _ =>
          .ok ((.upTo (.text (String.ofList (cs.takeWhile (· != '\n')))) c.line c.pos c.skipLine ::
            acc, false), c.skipLine)
      else .error (strayText c) := by
  simp only [List.mem_cons, List.not_mem_nil, or_false, not_or] at hx
  unfold readTagPart
  rw [hc]
  split
  · next he => cases he
  · next he => exact absurd (List.cons.inj he).1 hline
  · next he => exact absurd (List.cons.inj he).1 hx.1
  · next he => exact absurd (List.cons.inj he).1 hx.2.1
  · next he => exact absurd (List.cons.inj he).1 hx.2.2.1
  · next he => exact absurd (List.cons.inj he).1 hx.2.2.2
  · next he =>
    obtain ⟨rfl, rfl⟩ := List.cons.inj he
    rfl

theorem endsParts_list : endsParts ('(' :: cs) = true ↔
    endsList cs = true ∧ ∀ p, closing 1 '(' cs = .ok p → endsParts p.2 = true := by
  rw [endsParts, endsList]
  split
  · next p hp => simp [hp]
  · next e he => simp [he]

end

section

variable {u t t' : List Char} {c d : Cursor} (hb : Below t t') (h : Along u t t' c d)
  (indent indent' : Nat) {acc acc' : List Token}
  (hacc : SameTokens acc acc')
include hb h hacc

theorem readTagPart_end_alike (hu : u = []) :
    Alike (PartAlike u t t') (readTagPart indent acc c) (readTagPart indent' acc' d) := by
  subst hu
  have hend : ∀ (e : Cursor) s n ts, e.rest = s → Stops (· != '\n') s →
      readTagPart n ts e = .ok ((ts, false), e) := by
    intro e s n ts he hs
    unfold readTagPart
    rw [he]
    cases s with
    | nil => rfl
    | cons x s =>
      obtain rfl : x = '\n' := by simpa using hs x rfl
      rfl
  rw [hend c t indent acc h.left hb.left, hend d t' indent' acc' h.right hb.right]
  exact .ok ⟨hacc, rfl, h⟩

omit hb in
theorem name_alike {x : Char} {v : List Char} (hu : u = x :: v)
    (hv : endsParts (v.drop (className v).length) = true) (kind : TokenKind) :
    Alike (PartAlike u t t')
      (.ok ((Token.upTo kind c.line c.pos (c.advance (1 + (className v).length)) :: acc, true),
        c.advance (1 + (className v).length)))
      (.ok ((Token.upTo kind d.line d.pos (d.advance (1 + (className v).length)) :: acc', true),
        d.advance (1 + (className v).length))) := by
  subst hu
  have hlength : (className v).length ≤ v.length := (List.takeWhile_prefix _).length_le
  have hnext := h.advance (n := 1 + (className v).length) (by rw [List.length_cons]; omega)
  rw [Nat.add_comm, List.drop_succ_cons] at hnext
  rw [Nat.add_comm]
  refine .ok ⟨?_, rfl, ?_⟩
  · exact hacc.cons (Token.bare_upTo kind h.line ..)
  · refine ⟨_, ?_, hv, hnext⟩
    rw [List.length_drop, List.length_cons]
    omega

theorem readTagPart_class_alike {v : List Char} (hu : u = '.' :: v) (hv : endsParts u = true) :
    Alike (PartAlike u t t') (readTagPart indent acc c) (readTagPart indent' acc' d) := by
  have hc : c.rest = '.' :: (v ++ t) := by rw [h.left, hu]; rfl
  have hd : d.rest = '.' :: (v ++ t') := by rw [h.right, hu]; rfl
  have hl : className (v ++ t) = className v := className_line hb.left
  have hr : className (v ++ t') = className v := className_line hb.right
  have hline : '\n' ∉ v := fun hm => h.single (hu ▸ List.mem_cons_of_mem _ hm)
  rw [hu, endsParts] at hv
  by_cases hname : (className v).isEmpty = true
  · rw [if_pos hname] at hv
    rw [readTagPart_pointAlone hc (by rw [hl]; simpa using hname),
      readTagPart_pointAlone hd (by rw [hr]; simpa using hname), opensTextBlock_line hline hv,
      opensTextBlock_line hline hv, ← hb.blank]
    split
    · next hblank =>
      rw [Bool.and_eq_true] at hblank
      have hstop := h.skipLine hb
      have hleft : c.skipLine.rest = t := hstop.left
      have hright : d.skipLine.rest = t' := hstop.right
      rw [readTextBlock_blank (by rw [hleft]; exact hblank.2),
        readTextBlock_blank (by rw [hright, ← hb.blank]; exact hblank.2)]
      exact .ok ⟨hacc, rfl, hstop⟩
    · exact strayText_alike h.line
  · rw [if_neg hname] at hv
    have hne : className v ≠ [] := by simpa using hname
    rw [readTagPart_point hc (by rwa [hl]), readTagPart_point hd (by rwa [hr]), hl, hr]
    exact name_alike h hacc hu hv _

theorem readTagPart_id_alike {v : List Char} (hu : u = '#' :: v) (hv : endsParts u = true) :
    Alike (PartAlike u t t') (readTagPart indent acc c) (readTagPart indent' acc' d) := by
  have hc : c.rest = '#' :: (v ++ t) := by rw [h.left, hu]; rfl
  have hd : d.rest = '#' :: (v ++ t') := by rw [h.right, hu]; rfl
  rw [readTagPart_hash hc, readTagPart_hash hd, className_line hb.left, className_line hb.right]
  rw [hu, endsParts] at hv
  split
  · exact strayText_alike h.line
  · next hname =>
    rw [Bool.eq_false_iff.2 hname, Bool.false_or] at hv
    exact name_alike h hacc hu hv _

theorem readTagPart_list_alike {v : List Char} (hu : u = '(' :: v) (hv : endsParts u = true) :
    Alike (PartAlike u t t') (readTagPart indent acc c) (readTagPart indent' acc' d) := by
  have hc : c.rest = '(' :: (v ++ t) := by rw [h.left, hu]; rfl
  have hd : d.rest = '(' :: (v ++ t') := by rw [h.right, hu]; rfl
  rw [readTagPart_paren hc, readTagPart_paren hd]
  rw [hu, endsParts_list] at hv
  obtain ⟨hends, hrest⟩ := hv
  refine (readAttrs_alike hb h hu hends).bind ?_
  rintro ⟨as, c'⟩ ⟨_, d'⟩ ⟨rfl, inner, rest, hclose, h'⟩
  refine .ok ⟨?_, rfl, rest, ?_, hrest _ hclose, h'⟩
  · exact hacc.cons (Token.bare_upTo _ h.line ..)
  · have := closingFrom_rest hclose
    rw [hu, List.length_cons]
    omega

omit hb in
theorem readTagPart_slash_alike {v : List Char} (hu : u = '/' :: v) (hv : endsParts u = true) :
    Alike (PartAlike u t t') (readTagPart indent acc c) (readTagPart indent' acc' d) := by
  have hc : c.rest = '/' :: (v ++ t) := by rw [h.left, hu]; rfl
  have hd : d.rest = '/' :: (v ++ t') := by rw [h.right, hu]; rfl
  rw [readTagPart_slash hc, readTagPart_slash hd]
  rw [hu, endsParts] at hv
  refine .ok ⟨?_, rfl, v, ?_, hv, h.word (w := ['/']) hu rfl⟩
  · exact hacc.markSelfClosing
  · rw [hu, List.length_cons]
    omega

theorem readTagPart_text_alike {x : Char} {v : List Char} (hu : u = x :: v)
    (hx : x ∉ ['.', '#', '(', '/']) :
    Alike (PartAlike u t t') (readTagPart indent acc c) (readTagPart indent' acc' d) := by
  have hc : c.rest = x :: (v ++ t) := by rw [h.left, hu]; rfl
  have hd : d.rest = x :: (v ++ t') := by rw [h.right, hu]; rfl
  have hline : x ≠ '\n' := fun he => h.single (by rw [hu, he]; exact List.mem_cons_self ..)
  have hafter := h.word (w := [x]) (n := 1) hu rfl
  obtain ⟨hl, hr⟩ := hafter.lineText hb
  rw [Cursor.lineText, hafter.left] at hl
  rw [Cursor.lineText, hafter.right] at hr
  rw [readTagPart_other hc hx hline, readTagPart_other hd hx hline, hl, hr, h.line]
  split
  · split
    · exact .ok ⟨hacc, rfl, h.skipLine hb⟩
    · refine (checkText_alike _ _ _ _).bind fun _ _ _ => .ok ⟨?_, rfl, h.skipLine hb⟩
      exact hacc.cons rfl
  · exact strayText_alike h.line

theorem readTagPart_alike (hu : endsParts u = true) :
    Alike (PartAlike u t t') (readTagPart indent acc c) (readTagPart indent' acc' d) := by
  cases hv : u with
  | nil => exact hv ▸ readTagPart_end_alike hb h indent indent' hacc hv
  | cons x v =>
    by_cases hx : x ∈ ['.', '#', '(', '/']
    · simp only [List.mem_cons, List.not_mem_nil, or_false] at hx
      rcases hx with rfl | rfl | rfl | rfl
      · exact hv ▸ readTagPart_class_alike hb h indent indent' hacc hv hu
      · exact hv ▸ readTagPart_id_alike hb h indent indent' hacc hv hu
      · exact hv ▸ readTagPart_list_alike hb h indent indent' hacc hv hu
      · exact hv ▸ readTagPart_slash_alike h indent indent' hacc hv hu
    · exact hv ▸ readTagPart_text_alike hb h indent indent' hacc hv hx

omit hb h hacc in
theorem readTagParts_eq (indent : Nat) (acc : List Token) (c : Cursor) :
    readTagParts indent acc c = readTagPart indent acc c >>= fun x =>
      if x.1.2 then readTagParts indent x.1.1 x.2 else .ok (x.1.1, x.2) := by
  cases hpart : readTagPart indent acc c with
  | error e =>
    rw [readTagParts]
    split
    · next he =>
      rw [hpart] at he
      cases he
      rfl
    · next he => rw [hpart] at he; cases he
    · next he => rw [hpart] at he; cases he
  | ok x =>
    obtain ⟨⟨ts, more⟩, d⟩ := x
    cases more with
    | false => exact readTagParts_last hpart
    | true => exact readTagParts_step hpart

end

theorem readTagParts_alike {u t t' : List Char} {c d : Cursor} (hb : Below t t')
    (h : Along u t t' c d) (indent indent' : Nat) {acc acc' : List Token}
    (hacc : SameTokens acc acc') (hu : endsParts u = true) :
    Alike (fun a b => SameTokens a.1 b.1 ∧ Along [] t t' a.2 b.2)
      (readTagParts indent acc c) (readTagParts indent' acc' d) := by
  rw [readTagParts_eq indent, readTagParts_eq indent']
  refine (readTagPart_alike hb h indent indent' hacc hu).bind ?_
  rintro ⟨⟨ts, more⟩, c'⟩ ⟨⟨us, _⟩, d'⟩ ⟨htokens, rfl, hnext⟩
  cases more with
  | false => exact .ok ⟨htokens, hnext⟩
  | true =>
    obtain ⟨v, hlength, hv, h'⟩ := hnext
    exact readTagParts_alike hb h' indent indent' htokens hv
termination_by u.length

theorem tagName_append {u s : List Char} (hu : u ≠ []) (hs : Stops (· != '\n') s) :
    tagName (u ++ s) = tagName u := by
  cases u with
  | nil => exact absurd rfl hu
  | cons x u =>
    have htake := (takeWhile_append_stops (stops_of_newline (p := isNameChar) hs (by decide))
      (x :: u)).1
    rw [List.cons_append] at htake ⊢
    rw [tagName, tagName, htake]

theorem tagName_split (u : List Char) : ∃ w, u = tagName u ++ w := by
  cases u with
  | nil => exact ⟨[], rfl⟩
  | cons x u =>
    rw [tagName]
    split
    · obtain ⟨tail, hsplit, -⟩ :=
        Text.dropTail_split (fun x => !isWordChar x) ((x :: u).takeWhile isNameChar)
      refine ⟨tail ++ (x :: u).dropWhile isNameChar, ?_⟩
      rw [← List.append_assoc, ← hsplit, List.takeWhile_append_dropWhile]
    · exact ⟨x :: u, rfl⟩

section

variable {u t t' : List Char} {c d : Cursor} (hb : Below t t') (h : Along u t t' c d)
  (hu : u ≠ [])
include hb h hu

theorem readTagHead_alike : Option.Rel (fun a b => a.1.bare = b.1.bare ∧
      ∃ x, readTagHead (.ofText u) = some x ∧ Along x.2.rest t t' a.2 b.2)
    (readTagHead c) (readTagHead d) := by
  unfold readTagHead
  rw [h.left, h.right, tagName_append hu hb.left, tagName_append hu hb.right]
  dsimp only [Cursor.ofText]
  obtain ⟨w, hw⟩ := tagName_split u
  cases hname : tagName u with
  | nil =>
    cases u with
    | nil => exact absurd rfl hu
    | cons x v =>
      dsimp only [List.cons_append]
      rw [className_line hb.left, className_line hb.right]
      split
      · exact .some ⟨Token.bare_upTo _ h.line .., _, rfl, h⟩
      · exact .none
  | cons y name =>
    rw [hname] at hw
    have hnext := h.word hw rfl
    have hown : ((Cursor.ofText u).advance (y :: name).length).rest = w :=
      Cursor.rest_advance_append hw rfl
    dsimp only
    rw [hnext.left, hnext.right, head?_line hb.left (by decide), head?_line hb.right (by decide)]
    refine .some ⟨Token.bare_upTo _ h.line .., _, rfl, ?_⟩
    rw [Cursor.ofText] at hown
    rw [hown]
    split
    · next hslash =>
      rw [Cursor.rest_advance, hown]
      refine hnext.advance ?_
      cases w with
      | nil => cases hslash
      | cons z w => rw [List.length_cons]; omega
    · rw [hown]
      exact hnext

end

/-- Whether a line keeps to itself: the options in front of its reference, or else the parts of its
tag, end on it. -/
def ownLine (u : List Char) : Bool :=
  match directives.find? fun d => startsWord (.ofText u) d.1 with
  | some d => !takesOptions d.1 || endsOptions ((u.drop d.1.length).dropWhile Text.isIndent)
  | none => match readTagHead (.ofText u) with
    | some x => endsParts x.2.rest
    | none => true

theorem find?_directives_line {u s : List Char} {c : Cursor} (hs : Stops (· != '\n') s)
    (hc : c.rest = u ++ s) : directives.find? (fun d => startsWord c d.1) =
      directives.find? fun d => startsWord (.ofText u) d.1 := by
  refine List.find?_congr fun d hd => startsWord_line hs hc fun hm => ?_
  exact absurd (directives_names d hd _ hm) (by decide)

theorem bare_directiveToken (kind : TokenKind) {c c' d d' : Cursor} (hc : c.line = c'.line)
    (hd : d.line = d'.line) :
    (directiveToken c kind d).bare = (directiveToken c' kind d').bare := by
  unfold directiveToken
  split
  · exact Token.bare_upTo _ hc ..
  · exact Token.bare_upTo _ hd ..

theorem readDirective_none {indent : Nat} {u s : List Char} {c : Cursor} (hs : Stops (· != '\n') s)
    (hc : c.rest = u ++ s) (hwords : directives.find? (fun d => startsWord c d.1) = none)
    (hcomment : ¬ ['/', '/'] <+: u) (hbar : u.head? ≠ some '|') :
    readDirective indent c = none := by
  have hslash : Text.dropStart? (u ++ s) ['/', '/'] = _ := dropStart?_line hs (by decide)
  unfold readDirective
  rw [hwords]
  dsimp only
  split
  · next cs hrest =>
    exfalso
    have hrun : Text.dropStart? ('/' :: '/' :: cs) ['/', '/'] = some cs :=
      dropStart?_append ['/', '/'] cs
    rw [← hc, hrest, hrun] at hslash
    obtain ⟨v, hv, -⟩ := Option.map_eq_some_iff.1 hslash.symm
    exact hcomment ⟨v, (eq_append_of_dropStart? hv).symm⟩
  · next cs hrest =>
    exfalso
    have hhead := head?_line (u := u) (x := '|') hs (by decide)
    rw [← hc, hrest] at hhead
    exact hbar (beq_iff_eq.1 hhead.symm)
  · rfl

/-- A line that keeps to itself is read alike. -/
theorem readLine_alike {u t t' : List Char} {c d : Cursor} (hb : Below t t')
    (h : Along u t t' c d) (hu : u ≠ []) (hown : ownLine u = true) (hcomment : ¬ ['/', '/'] <+: u)
    (indent indent' : Nat) :
    Alike (fun a b => SameTokens a.1 b.1 ∧ Along [] t t' a.2 b.2)
      (readLine indent c) (readLine indent' d) := by
  have hdirective : ∀ r r', readDirective indent c = some r → readDirective indent' d = some r' →
      EndsAlike t t' r r' →
      Alike (fun a b => SameTokens a.1 b.1 ∧ Along [] t t' a.2 b.2)
        (readLine indent c) (readLine indent' d) := by
    intro r r' hr hr' halike
    unfold readLine
    rw [hr, hr']
    cases halike with
    | error code line => exact .error code line
    | ok related =>
      refine .ok ⟨?_, related.2⟩
      rw [related.1]
      exact SameTokens.cons (bare_directiveToken _ h.line related.2.line) rfl
  have hl := find?_directives_line hb.left h.left
  have hr := find?_directives_line hb.right h.right
  unfold ownLine at hown
  split at hown
  · next x hx =>
    have hword : startsWord (.ofText u) x.1 = true := by simpa using List.find?_some hx
    obtain ⟨v, hv⟩ := eq_append_of_startsWord hword
    rw [hv, List.drop_left' String.length_toList] at hown
    refine hdirective (x.2 c) (x.2 d) ?_ ?_ ?_
    · rw [readDirective, hl, hx]
    · rw [readDirective, hr, hx]
    · refine directives_alike hb h x (List.mem_of_find?_eq_some hx) v hv fun ht => ?_
      rw [ht] at hown
      exact hown
  · next hx =>
    rw [hx] at hl hr
    by_cases hbar : u.head? = some '|'
    · obtain ⟨v, hv⟩ := List.head?_eq_some_iff.1 hbar
      refine hdirective (readTextLine c) (readTextLine d) ?_ ?_ (readTextLine_alike hb h hv)
      · rw [readDirective, hl, h.left, hv]
        rfl
      · rw [readDirective, hr, h.right, hv]
        rfl
    · unfold readLine
      rw [readDirective_none hb.left h.left hl hcomment hbar,
        readDirective_none hb.right h.right hr hcomment hbar]
      have hhead := readTagHead_alike hb h hu
      dsimp only
      generalize readTagHead c = a at hhead ⊢
      generalize readTagHead d = b at hhead ⊢
      cases hhead with
      | none => exact strayText_alike h.line
      | @some a b related =>
        obtain ⟨htoken, x, hx, hnext⟩ := related
        rw [hx] at hown
        have hacc : SameTokens [a.1] [b.1] := SameTokens.cons htoken rfl
        have hparts := readTagParts_alike hb hnext indent indent' hacc hown
        exact alike_readMap (R := SameTokens) (S := SameTokens) hparts fun _ _ => SameTokens.reverse

end Stencil.Template
