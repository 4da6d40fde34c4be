import Stencil.Proofs.Template.Stream
import Stencil.Proofs.Text.Run

/-! # What the tokens cover

Reading a template passes over nothing but blanks and two marks without giving a token for it. The
readers move a cursor through the text; `Tiled` says that what lies behind it is accounted for, and
there are only four ways to go on: over blanks, over a mark, with a token of the text that is
passed, and with a token for the structure, which passes nothing. -/

namespace Stencil.Template

def TokenKind.isTagPart : TokenKind → Bool
  | .tag _ _ _ => true
  | .className _ => true
  | .attrs _ _ => true
  | _ => false

def IsBoundary (text : List Char) (n : Nat) : Prop :=
  ∃ pre post, text = pre ++ post ∧ Text.width pre = n

structure Lies (text : List Char) (s : Span) : Prop where
  ordered : s.start ≤ s.stop
  inside : s.stop ≤ Text.width text
  start : IsBoundary text s.start
  stop : IsBoundary text s.stop

def BehindTag (ts : List Token) (pre : List Char) : Prop :=
  ∃ t ∈ ts, t.kind.isTagPart = true ∧ ∃ head slashes, pre = head ++ slashes ∧
    Text.width head = t.span.stop ∧ ∀ s ∈ slashes, s = '/'

def IsMark (ts : List Token) (pre : List Char) (x : Char) (post : List Char) : Prop :=
  BehindTag ts pre ∧ (x = '/' ∨ x = '.' ∧ opensTextBlock post = true)

def IsCovered (ts : List Token) (pre : List Char) (x : Char) : Prop :=
  ∃ t ∈ ts, t.span.start ≤ Text.width pre ∧ Text.width (pre ++ [x]) ≤ t.span.stop

/-- What may be between `pre` and `post` when `ts` are the tokens of a text. -/
def Accounted (ts : List Token) (pre : List Char) (x : Char) (post : List Char) : Prop :=
  Text.isBlank x = true ∨ IsCovered ts pre x ∨ IsMark ts pre x post

/-- Tokens that leave out nothing of a text. -/
structure Covers (text : List Char) (ts : List Token) : Prop where
  inside : ∀ t ∈ ts, Lies text t.span
  ordered : ts.Pairwise fun t u => t.span.start ≤ u.span.start
  apart : ts.Pairwise fun t u => t.kind.isContent = true → u.kind.isContent = true →
    t.span.stop ≤ u.span.start
  covered : ∀ pre x post, text = pre ++ x :: post → Accounted ts pre x post

/-! ## Places in a text -/

theorem width_pos {x : Char} {cs : List Char} : 0 < Text.width (x :: cs) :=
  Nat.lt_of_lt_of_le x.utf8Size_pos (Nat.le_add_right ..)

theorem width_of_isIndent {cs : List Char} (h : ∀ x ∈ cs, Text.isIndent x = true) :
    Text.width cs = cs.length := by
  induction cs with
  | nil => rfl
  | cons x cs ih =>
    obtain ⟨hx, hcs⟩ := List.forall_mem_cons.1 h
    have hsize : x.utf8Size = 1 := by
      simp only [Text.isIndent, Bool.or_eq_true, beq_iff_eq] at hx
      rcases hx with rfl | rfl
      · rfl
      · rfl
    rw [Text.width, ih hcs, hsize, List.length_cons, Nat.add_comm]

theorem take_length_takeWhile (p : Char → Bool) (cs : List Char) :
    cs.take (cs.takeWhile p).length = cs.takeWhile p :=
  (List.prefix_iff_eq_take.1 (List.takeWhile_prefix p)).symm

theorem between_of_width {p u q pre post : List Char} {x : Char}
    (h : p ++ u ++ q = pre ++ x :: post) (hlo : Text.width p ≤ Text.width pre)
    (hhi : Text.width pre < Text.width (p ++ u)) :
    ∃ m n, pre = p ++ m ∧ u = m ++ x :: n ∧ post = n ++ q := by
  rw [List.append_assoc] at h
  rcases List.append_eq_append_iff.1 h with ⟨m, rfl, hm⟩ | ⟨m, rfl, hm⟩
  · rcases List.append_eq_append_iff.1 hm with ⟨n, rfl, -⟩ | ⟨n, rfl, hn⟩
    · simp only [Text.width_append] at hhi
      omega
    · cases n with
      | nil =>
        simp only [Text.width_append, Text.width] at hhi
        omega
      | cons y n =>
        obtain ⟨rfl, rfl⟩ := List.cons.inj hn
        exact ⟨m, n, rfl, rfl, rfl⟩
  · cases m with
    | nil =>
      rw [List.append_nil] at hhi ⊢
      cases u with
      | nil =>
        rw [List.append_nil] at hhi
        omega
      | cons y u =>
        obtain ⟨rfl, rfl⟩ := List.cons.inj hm
        exact ⟨[], u, by simp, rfl, rfl⟩
    | cons y m =>
      have : 0 < Text.width (y :: m) := width_pos
      rw [Text.width_append] at hlo
      omega

/-! ## What is accounted for so far -/

def Keeps (ts us : List Token) : Prop :=
  ∀ t ∈ ts, ∃ u ∈ us, u.span = t.span ∧ u.kind.isTagPart = t.kind.isTagPart

theorem Keeps.of_mem {ts us : List Token} (h : ∀ t ∈ ts, t ∈ us) : Keeps ts us :=
  fun t ht => ⟨t, h t ht, rfl, rfl⟩

theorem Keeps.head {t u : Token} {ts : List Token} (hspan : u.span = t.span)
    (hpart : u.kind.isTagPart = t.kind.isTagPart) : Keeps (t :: ts) (u :: ts) := by
  refine List.forall_mem_cons.2 ⟨⟨u, List.mem_cons_self .., hspan, hpart⟩, fun v hv => ?_⟩
  exact ⟨v, List.mem_cons_of_mem u hv, rfl, rfl⟩

theorem BehindTag.mono {ts us : List Token} {pre : List Char} (h : BehindTag ts pre)
    (hts : Keeps ts us) : BehindTag us pre := by
  obtain ⟨t, ht, htag, head, slashes, hpre, hhead, hs⟩ := h
  obtain ⟨u, hu, hspan, hpart⟩ := hts t ht
  exact ⟨u, hu, hpart.trans htag, head, slashes, hpre, hspan ▸ hhead, hs⟩

theorem Accounted.mono {ts us : List Token} {pre post : List Char} {x : Char}
    (h : Accounted ts pre x post) (hts : Keeps ts us) : Accounted us pre x post := by
  rcases h with h | h | h
  · exact .inl h
  · obtain ⟨t, ht, hcovered⟩ := h
    obtain ⟨u, hu, hspan, -⟩ := hts t ht
    exact .inr (.inl ⟨u, hu, hspan ▸ hcovered⟩)
  · exact .inr (.inr ⟨h.1.mono hts, h.2⟩)

/-- The text in front of the cursor is accounted for by tokens, the last one first. -/
structure Tiled (text : List Char) (acc : List Token) (c : Cursor) : Prop where
  reached : ∃ pre, text = pre ++ c.rest ∧ Text.width pre = c.pos
  inside : ∀ t ∈ acc, Lies text t.span
  started : ∀ t ∈ acc, t.span.start ≤ c.pos
  ended : ∀ t ∈ acc, t.kind.isContent = true → t.span.stop ≤ c.pos
  ordered : acc.Pairwise fun u t => t.span.start ≤ u.span.start
  apart : acc.Pairwise fun u t => u.kind.isContent = true → t.kind.isContent = true →
    t.span.stop ≤ u.span.start
  covered : ∀ pre x post, text = pre ++ x :: post → Text.width pre < c.pos →
    Accounted acc pre x post

def OnTag (text : List Char) (ts : List Token) (c : Cursor) : Prop :=
  ∃ pre, text = pre ++ c.rest ∧ BehindTag ts pre

theorem OnTag.mono {text : List Char} {ts us : List Token} {c : Cursor} (h : OnTag text ts c)
    (hts : Keeps ts us) : OnTag text us c := by
  obtain ⟨pre, htext, hpre⟩ := h
  exact ⟨pre, htext, hpre.mono hts⟩

theorem OnTag.slash {text : List Char} {ts : List Token} {c : Cursor} {cs : List Char}
    (h : OnTag text ts c) (hc : c.rest = '/' :: cs) : OnTag text ts (c.advance 1) := by
  obtain ⟨pre, htext, t, ht, htag, head, slashes, rfl, hhead, hs⟩ := h
  refine ⟨head ++ (slashes ++ ['/']), ?_, t, ht, htag, head, _, rfl, hhead, ?_⟩
  · rw [Cursor.rest_advance, hc]
    simpa [hc] using htext
  · intro s hmem
    rcases List.mem_append.1 hmem with hmem | hmem
    · exact hs s hmem
    · exact List.mem_singleton.1 hmem

namespace Tiled

variable {text : List Char} {acc : List Token} {c d : Cursor}

theorem ofText (text : List Char) : Tiled text [] (.ofText text) where
  reached := ⟨[], rfl, rfl⟩
  inside := List.forall_mem_nil _
  started := List.forall_mem_nil _
  ended := List.forall_mem_nil _
  ordered := .nil
  apart := .nil
  covered := by
    intro pre x post _ h
    exact absurd h (Nat.not_lt_zero _)

theorem reached_advance (h : Tiled text acc c) (n : Nat) :
    ∃ pre, text = pre ++ c.rest ∧ Text.width pre = c.pos ∧
      text = pre ++ c.rest.take n ++ (c.advance n).rest ∧
      Text.width (pre ++ c.rest.take n) = (c.advance n).pos := by
  obtain ⟨pre, htext, hpos⟩ := h.reached
  refine ⟨pre, htext, hpos, ?_, ?_⟩
  · rw [Cursor.rest_advance, List.append_assoc, List.take_append_drop]
    exact htext
  · rw [Text.width_append, hpos]
    rfl

theorem pos_le_advance (c : Cursor) (n : Nat) : c.pos ≤ (c.advance n).pos :=
  Nat.le_add_right ..

/-- What is passed has to be accounted for as well, if need be by one more token. -/
theorem covered_advance {us : List Token} (h : Tiled text acc c) (n : Nat)
    (hus : Keeps acc us)
    (hpassed : ∀ pre m x k, text = pre ++ c.rest → Text.width pre = c.pos →
      c.rest.take n = m ++ x :: k → Accounted us (pre ++ m) x (k ++ c.rest.drop n)) :
    ∀ pre x post, text = pre ++ x :: post → Text.width pre < (c.advance n).pos →
      Accounted us pre x post := by
  intro pre x post htext hlt
  by_cases hpos : Text.width pre < c.pos
  · exact (h.covered pre x post htext hpos).mono hus
  · obtain ⟨p, hp, hpc, hd, hdw⟩ := h.reached_advance n
    obtain ⟨m, k, rfl, hm, rfl⟩ := between_of_width (hd.symm.trans htext) (by omega) (by omega)
    exact hpassed p m x k hp hpc hm

theorem advance (h : Tiled text acc c) (n : Nat)
    (hpassed : ∀ pre m x k, text = pre ++ c.rest → Text.width pre = c.pos →
      c.rest.take n = m ++ x :: k → Accounted acc (pre ++ m) x (k ++ c.rest.drop n)) :
    Tiled text acc (c.advance n) where
  reached := by
    obtain ⟨pre, -, -, hd, hdw⟩ := h.reached_advance n
    exact ⟨_, hd, hdw⟩
  inside := h.inside
  started t ht := (h.started t ht).trans (pos_le_advance c n)
  ended t ht hk := (h.ended t ht hk).trans (pos_le_advance c n)
  ordered := h.ordered
  apart := h.apart
  covered := h.covered_advance n (.of_mem fun _ ht => ht) hpassed

theorem blanks (h : Tiled text acc c) {n : Nat}
    (hb : ∀ x ∈ c.rest.take n, Text.isBlank x = true) : Tiled text acc (c.advance n) := by
  apply h.advance n
  intro pre m x k _ _ hm
  refine .inl (hb x ?_)
  simp [hm]

theorem skipWhile {p : Char → Bool} (h : Tiled text acc c)
    (hb : ∀ x ∈ c.rest.takeWhile p, Text.isBlank x = true) : Tiled text acc (c.skipWhile p) := by
  apply h.blanks
  rwa [take_length_takeWhile]

theorem skipIndent (h : Tiled text acc c) : Tiled text acc c.skipIndent :=
  h.skipWhile fun _ hx => Text.isBlank_of_isIndent (List.mem_takeWhile_imp hx)

theorem mark {x : Char} {cs : List Char} (h : Tiled text acc c) (ht : OnTag text acc c)
    (hc : c.rest = x :: cs) (hx : x = '/' ∨ x = '.' ∧ opensTextBlock cs = true) :
    Tiled text acc (c.advance 1) := by
  apply h.advance 1
  intro pre m y k htext hpre hk
  obtain ⟨p, hp, htag⟩ := ht
  obtain rfl : pre = p := List.append_cancel_right (htext.symm.trans hp)
  rw [hc] at hk ⊢
  obtain ⟨rfl, rfl, rfl⟩ : m = [] ∧ y = x ∧ k = [] := by
    cases m with
    | nil => simpa [eq_comm] using hk
    | cons z m => simp at hk
  refine .inr (.inr ⟨?_, hx⟩)
  rwa [List.append_nil]

theorem lies (h : Tiled text acc c) (n : Nat) : Lies text ⟨c.pos, (c.advance n).pos⟩ := by
  obtain ⟨pre, htext, hpre, hd, hdw⟩ := h.reached_advance n
  refine ⟨pos_le_advance c n, ?_, ⟨pre, _, htext, hpre⟩, ⟨_, _, hd, hdw⟩⟩
  rw [hd, Text.width_append, hdw]
  exact Nat.le_add_right ..

theorem token {t : Token} (h : Tiled text acc c) (hr : c.Reaches d)
    (hspan : t.span = ⟨c.pos, d.pos⟩) : Tiled text (t :: acc) d := by
  obtain ⟨n, rfl⟩ := hr
  have hcovered : ∀ pre m x k, text = pre ++ c.rest → Text.width pre = c.pos →
      c.rest.take n = m ++ x :: k → Accounted (t :: acc) (pre ++ m) x (k ++ c.rest.drop n) := by
    intro pre m x k _ hpre hm
    refine .inr (.inl ⟨t, List.mem_cons_self .., ?_, ?_⟩)
    · rw [hspan, Text.width_append, hpre]
      exact Nat.le_add_right ..
    · rw [hspan]
      simp only [Cursor.advance, hm, Text.width_append, Text.width, hpre]
      omega
  obtain ⟨_, -, -, hd, hdw⟩ := h.reached_advance n
  refine ⟨⟨_, hd, hdw⟩, ?_, ?_, ?_, ?_, ?_, ?_⟩
  · exact List.forall_mem_cons.2 ⟨hspan ▸ h.lies n, h.inside⟩
  · refine List.forall_mem_cons.2 ⟨?_, fun u hu => (h.started u hu).trans (pos_le_advance c n)⟩
    rw [hspan]
    exact pos_le_advance c n
  · refine List.forall_mem_cons.2 ⟨fun _ => ?_, fun u hu hk =>
      (h.ended u hu hk).trans (pos_le_advance c n)⟩
    rw [hspan]
  · refine List.pairwise_cons.2 ⟨fun u hu => ?_, h.ordered⟩
    rw [hspan]
    exact h.started u hu
  · refine List.pairwise_cons.2 ⟨fun u hu _ hk => ?_, h.apart⟩
    rw [hspan]
    exact h.ended u hu hk
  · exact h.covered_advance n (.of_mem fun _ hu => List.mem_cons_of_mem t hu) hcovered

/-- On with tokens for the structure, which leave the cursor where it is. -/
theorem leads {lead : List Token} {n : Nat} (h : Tiled text acc c)
    (hlead : ∀ t ∈ lead, t.kind.isContent = false ∧ t.span = ⟨c.pos, (c.advance n).pos⟩) :
    Tiled text (lead.reverse ++ acc) c := by
  induction lead generalizing acc with
  | nil => exact h
  | cons t lead ih =>
    obtain ⟨⟨hkind, hspan⟩, hlead⟩ := List.forall_mem_cons.1 hlead
    rw [List.reverse_cons, List.append_assoc]
    refine ih ⟨h.reached, ?_, ?_, ?_, ?_, ?_, ?_⟩ hlead
    · exact List.forall_mem_cons.2 ⟨hspan ▸ h.lies n, h.inside⟩
    · refine List.forall_mem_cons.2 ⟨?_, h.started⟩
      rw [hspan]
    · refine List.forall_mem_cons.2 ⟨fun hk => ?_, h.ended⟩
      rw [hkind] at hk
      cases hk
    · refine List.pairwise_cons.2 ⟨fun u hu => ?_, h.ordered⟩
      rw [hspan]
      exact h.started u hu
    · refine List.pairwise_cons.2 ⟨fun u _ hk => ?_, h.apart⟩
      rw [hkind] at hk
      cases hk
    · intro pre x post htext hlt
      exact (h.covered pre x post htext hlt).mono (.of_mem fun u hu => List.mem_cons_of_mem t hu)

/-- What a token says may change, but not where it is. -/
theorem relabel {t u : Token} (h : Tiled text (t :: acc) c) (hspan : u.span = t.span)
    (hcontent : u.kind.isContent = t.kind.isContent) (hpart : u.kind.isTagPart = t.kind.isTagPart) :
    Tiled text (u :: acc) c := by
  refine ⟨h.reached, ?_, ?_, ?_, ?_, ?_, fun pre x post htext hlt =>
    (h.covered pre x post htext hlt).mono (.head hspan hpart)⟩
  · simpa only [List.forall_mem_cons, hspan] using h.inside
  · simpa only [List.forall_mem_cons, hspan] using h.started
  · simpa only [List.forall_mem_cons, hspan, hcontent] using h.ended
  · simpa only [List.pairwise_cons, hspan] using h.ordered
  · simpa only [List.pairwise_cons, hspan, hcontent] using h.apart

theorem onTag {t : Token} (h : Tiled text (t :: acc) c) (hpart : t.kind.isTagPart = true)
    (hstop : t.span.stop = c.pos) (us : List Token) : OnTag text (t :: us) c := by
  obtain ⟨pre, htext, hpre⟩ := h.reached
  refine ⟨pre, htext, t, List.mem_cons_self .., hpart, pre, [], by simp, hpre.trans hstop.symm, ?_⟩
  exact List.forall_mem_nil _

theorem covers {ts : List Token} (h : Tiled text ts.reverse c) (hc : c.rest = []) :
    Covers text ts where
  inside t ht := h.inside t (List.mem_reverse.2 ht)
  ordered := List.pairwise_reverse.1 h.ordered
  apart := (List.pairwise_reverse.1 h.apart).imp fun h ht hu => h hu ht
  covered := by
    intro pre x post htext
    obtain ⟨p, hp, hpos⟩ := h.reached
    rw [hc, List.append_nil] at hp
    refine (h.covered pre x post htext ?_).mono (.of_mem fun t ht => List.mem_reverse.1 ht)
    have : 0 < Text.width (x :: post) := width_pos
    rw [← hpos, ← hp, htext, Text.width_append]
    omega

end Tiled

/-! ## The readers -/

theorem span_directiveToken (c d : Cursor) (kind : TokenKind) :
    (directiveToken c kind d).span = ⟨c.pos, d.pos⟩ := by
  unfold directiveToken
  split
  · rfl
  · rfl

theorem readTagHead_spans {c d : Cursor} {t : Token} (h : readTagHead c = some (t, d)) :
    t.kind.isTagPart = true ∧ t.span = ⟨c.pos, d.pos⟩ := by
  unfold readTagHead at h
  split at h
  · split at h
    · split at h
      · cases h
        exact ⟨rfl, rfl⟩
      · cases h
    · cases h
  · cases h
    exact ⟨rfl, rfl⟩

theorem markSelfClosing_tiled {text : List Char} {acc before : List Token} {c : Cursor}
    (h : Tiled text (acc ++ before) c) (ht : OnTag text acc c) :
    Tiled text (markSelfClosing acc ++ before) c ∧ OnTag text (markSelfClosing acc) c := by
  cases acc with
  | nil => exact ⟨h, ht⟩
  | cons t acc =>
    simp only [markSelfClosing]
    split
    · next hk => exact ⟨h.relabel rfl (by rw [hk]; rfl) (by rw [hk]; rfl),
        ht.mono (.head rfl (by rw [hk]; rfl))⟩
    · next hk => exact ⟨h.relabel rfl (by rw [hk]; rfl) (by rw [hk]; rfl),
        ht.mono (.head rfl (by rw [hk]; rfl))⟩
    · exact ⟨h, ht⟩

theorem readTextBlock_tiled {text : List Char} {indent : Nat} {acc before ts : List Token}
    {c d : Cursor} (h : Tiled text (acc ++ before) c)
    (hr : readTextBlock indent acc c = .ok (ts, d)) : Tiled text (ts ++ before) d := by
  have hb := blockLines_reaches c indent
  unfold readTextBlock at hr
  split at hr
  · cases hr
    exact h
  · next l ls stop hl =>
    obtain ⟨_, -, hr⟩ := bind_eq_ok.1 hr
    cases hr
    rw [hl] at hb
    exact h.token hb rfl

/-- Nothing but blanks follows the point that opens a block of text. -/
theorem blank_of_opensTextBlock {cs : List Char} (h : opensTextBlock cs = true) :
    ∀ x ∈ cs.takeWhile (· != '\n'), Text.isBlank x = true := by
  simp only [opensTextBlock, Bool.or_eq_true, beq_iff_eq] at h
  intro x hx
  rcases h with h | h
  · have hsplit : cs = cs.takeWhile (· == ' ') ++ cs.dropWhile (· == ' ') :=
      List.takeWhile_append_dropWhile.symm
    have hspaces : ∀ y ∈ cs.takeWhile (· == ' '), (y != '\n') = true := by
      intro y hy
      have hy := List.mem_takeWhile_imp hy
      rw [beq_iff_eq.1 hy]
      rfl
    rw [hsplit, takeWhile_run hspaces] at hx
    · have hx := List.mem_takeWhile_imp hx
      rw [beq_iff_eq.1 hx]
      rfl
    · intro y hy
      rw [h] at hy
      obtain rfl := Option.some.inj hy
      rfl
  · exact List.all_eq_true.1 h x ((List.takeWhile_sublist _).mem hx)

theorem skipLine_advance {c : Cursor} {x : Char} {cs : List Char} (hc : c.rest = x :: cs)
    (hx : x ≠ '\n') : c.skipLine = (c.advance 1).skipLine := by
  have hrest : (c.advance 1).rest = cs := by rw [Cursor.rest_advance, hc]; rfl
  unfold Cursor.skipLine Cursor.skipWhile
  rw [Cursor.advance_advance, hrest, hc, List.takeWhile_cons_of_pos (by simpa using hx),
    List.length_cons, Nat.add_comm]

theorem readTagPart_tiled {text : List Char} {indent : Nat} {acc before ts : List Token}
    {more : Bool} {c d : Cursor} (h : Tiled text (acc ++ before) c) (ht : OnTag text acc c)
    (hr : readTagPart indent acc c = .ok ((ts, more), d)) :
    Tiled text (ts ++ before) d ∧ (more = true → OnTag text ts d) := by
  have hfront : OnTag text (acc ++ before) c :=
    ht.mono (.of_mem fun t ht => List.mem_append_left before ht)
  -- One more part of the tag, over the text that it passes.
  have hpart : ∀ {kind : TokenKind} {d : Cursor}, kind.isTagPart = true → c.Reaches d →
      Tiled text (.upTo kind c.line c.pos d :: acc ++ before) d ∧
        OnTag text (.upTo kind c.line c.pos d :: acc) d := by
    intro kind d hk hd
    have := h.token (t := .upTo kind c.line c.pos d) hd rfl
    exact ⟨this, this.onTag hk rfl acc⟩
  unfold readTagPart at hr
  split at hr
  · cases hr
    exact ⟨h, nofun⟩
  · cases hr
    exact ⟨h, nofun⟩
  · next cs hc =>
    dsimp only at hr
    split at hr
    · cases hr
      exact (hpart rfl (.advance _ _)).imp_right fun hon _ => hon
    · split at hr
      · next hopens =>
        obtain ⟨⟨us, e⟩, hb, hr⟩ := bind_eq_ok.1 hr
        cases hr
        have hline : Tiled text (acc ++ before) c.skipLine := by
          rw [skipLine_advance hc (by decide)]
          refine (h.mark hfront hc (.inr ⟨rfl, hopens⟩)).skipWhile ?_
          rw [Cursor.rest_advance, hc]
          exact blank_of_opensTextBlock hopens
        exact ⟨readTextBlock_tiled hline hb, nofun⟩
      · cases hr
  · dsimp only at hr
    split at hr
    · cases hr
    · cases hr
      exact (hpart rfl (.advance _ _)).imp_right fun hon _ => hon
  · obtain ⟨x, hattrs, hr⟩ := bind_eq_ok.1 hr
    cases hr
    exact (hpart rfl (readAttrs_reaches hattrs)).imp_right fun hon _ => hon
  · next cs hc =>
    cases hr
    exact (markSelfClosing_tiled (h.mark hfront hc (.inl rfl)) (ht.slash hc)).imp_right
      fun hon _ => hon
  · rename_i x cs hbreak _ _ _ _ hc
    dsimp only at hr
    split at hr
    · next hx =>
      split at hr
      · next hblank =>
        cases hr
        refine ⟨h.skipWhile ?_, nofun⟩
        intro y hy
        have hline : (x :: cs).takeWhile (· != '\n') = x :: cs.takeWhile (· != '\n') :=
          List.takeWhile_cons_of_pos (bne_iff_ne.2 hbreak)
        rw [hc, hline] at hy
        rcases List.mem_cons.1 hy with rfl | hy
        · exact Text.isBlank_of_isIndent hx
        · exact List.all_eq_true.1 hblank y hy
      · obtain ⟨_, -, hr⟩ := bind_eq_ok.1 hr
        cases hr
        exact ⟨h.token (.skipLine c) rfl, nofun⟩
    · cases hr

theorem readTagParts_tiled {text : List Char} {indent : Nat} {acc before ts : List Token}
    {c d : Cursor} (h : Tiled text (acc ++ before) c) (ht : OnTag text acc c)
    (hr : readTagParts indent acc c = .ok (ts, d)) : Tiled text (ts ++ before) d := by
  fun_induction readTagParts indent acc c with
  | case1 => cases hr
  | case2 acc c us e hp =>
    cases hr
    exact (readTagPart_tiled h ht hp).1
  | case3 acc c us e hp _ ih =>
    obtain ⟨h', ht'⟩ := readTagPart_tiled h ht hp
    exact ih h' (ht' rfl) hr

theorem readLine_tiled {text : List Char} {indent : Nat} {acc ts : List Token} {c d : Cursor}
    (h : Tiled text acc c) (hr : readLine indent c = .ok (ts, d)) :
    Tiled text (ts.reverse ++ acc) d := by
  unfold readLine at hr
  split at hr
  · cases hr
  · next kind e hd =>
    cases hr
    exact h.token (readDirective_reaches hd) (span_directiveToken c d kind)
  · split at hr
    · next t e hhead =>
      obtain ⟨hpart, hspan⟩ := readTagHead_spans hhead
      have htag : Tiled text ([t] ++ acc) e := h.token (readTagHead_reaches hhead) hspan
      unfold readMap at hr
      split at hr
      · cases hr
      · next us f hus =>
        cases hr
        rw [List.reverse_reverse]
        exact readTagParts_tiled htag (htag.onTag hpart (by rw [hspan]) []) hus
    · cases hr

theorem skipBlankLines_tiled {text : List Char} {acc : List Token} {c : Cursor}
    (h : Tiled text acc c) : Tiled text acc (skipBlankLines c) := by
  fun_induction skipBlankLines c with
  | case1 c cs hc _ ih =>
    refine ih (h.skipIndent.blanks ?_)
    rw [hc]
    simp [Text.isBlank]
  | case2 c => exact h.skipIndent
  | case3 c => exact h

theorem readLevels_tiled {text : List Char} {l l' : Levels} {first : Bool} {c : Cursor}
    {acc lead : List Token} (h : Tiled text acc c)
    (hr : readLevels l first c = .ok (lead, l')) : Tiled text (lead.reverse ++ acc) c := by
  have hwidth : (c.advance (indentWidth c.rest)).pos = c.pos + indentWidth c.rest := by
    have hw := width_of_isIndent fun x (hx : x ∈ c.rest.takeWhile Text.isIndent) =>
      List.mem_takeWhile_imp hx
    simp only [Cursor.advance, indentWidth, take_length_takeWhile, hw]
  have hspan : ∀ t ∈ lead, t.kind.isContent = false ∧
      t.span = ⟨c.pos, (c.advance (indentWidth c.rest)).pos⟩ := by
    rw [hwidth]
    unfold readLevels at hr
    obtain ⟨char, -, hr⟩ := bind_eq_ok.1 hr
    dsimp only at hr
    split at hr
    · cases hr
      simp [TokenKind.isContent]
    · split at hr
      · split at hr
        · cases hr
        · cases hr
          intro t ht
          obtain ⟨w, -, rfl⟩ := List.mem_map.1 ht
          exact ⟨rfl, rfl⟩
      · cases hr
        cases first with
        | true => simp
        | false => simp [TokenKind.isContent]
  exact h.leads hspan

theorem endTokens_tiled {text : List Char} {l : Levels} {c : Cursor} {acc : List Token}
    (h : Tiled text acc c) : Tiled text ((endTokens l c).reverse ++ acc) c := by
  apply h.leads (n := 0)
  intro t ht
  rw [Cursor.advance_zero]
  simp only [endTokens, List.mem_append, List.mem_map, List.mem_singleton] at ht
  rcases ht with ⟨_, -, rfl⟩ | rfl
  · exact ⟨rfl, rfl⟩
  · exact ⟨rfl, rfl⟩

/-! ## All lines -/

theorem readLines_tiled {text : List Char} {l : Levels} {first : Bool} {c : Cursor}
    {acc ts : List Token} (h : Tiled text acc c) (hr : readLines l first c = .ok ts) :
    ∃ e, e.rest = [] ∧ Tiled text (ts.reverse ++ acc) e := by
  fun_induction readLines l first c generalizing acc ts with
  | case1 l first c d =>
    rename_i hd
    cases hr
    exact ⟨d, List.isEmpty_iff.1 hd, endTokens_tiled (skipBlankLines_tiled h)⟩
  | case2 => cases hr
  | case3 => cases hr
  | case4 l first c d hd lead l' hl body e hb =>
    rename_i he
    cases hr
    have hbody := readLine_tiled (readLevels_tiled (skipBlankLines_tiled h) hl).skipIndent hb
    refine ⟨e, he, ?_⟩
    simpa only [List.reverse_append, List.append_assoc] using endTokens_tiled (l := l') hbody
  | case5 l first c d hd lead l' hl body e hb =>
    rename_i he _ ih
    obtain ⟨more, hmore, rfl⟩ := map_eq_ok.1 hr
    have hbody := readLine_tiled (readLevels_tiled (skipBlankLines_tiled h) hl).skipIndent hb
    have hbreak : ∀ x ∈ e.rest.take 1, Text.isBlank x = true := by
      rw [he]
      simp [Text.isBlank]
    obtain ⟨f, hf, hrest⟩ := ih (hbody.blanks hbreak) hmore
    refine ⟨f, hf, ?_⟩
    simpa only [List.reverse_append, List.append_assoc] using hrest
  | case6 => cases hr

/-- **Reading skips nothing.** The tokens of a template that can be read lie in its normalized text,
on boundaries of characters and in order; no two that stand for text overlap; and what is in none of
them is blank, or the slash behind a tag or the point that opens a block of text. -/
theorem tokenize_covers (source : String) {ts : List Token} (h : tokenize source = .ok ts) :
    Covers (Text.normalizeChars source.toList) ts := by
  obtain ⟨e, he, htiled⟩ := readLines_tiled (Tiled.ofText _) h
  rw [List.append_nil] at htiled
  exact htiled.covers he

/-- Wide characters, breaks of two characters, slashes and a point that opens a block of text: the
slashes behind the id and the point are in no token. -/
theorem tokenize_covers_wide :
    let source := "b é\r\np#i//.\n  ü x"
    ∃ ts, tokenize source = .ok ts ∧ Covers "b é\np#i//.\n  ü x".toList ts ∧
      ts.map (·.span) = [⟨0, 1⟩, ⟨1, 4⟩, ⟨5, 5⟩, ⟨5, 6⟩, ⟨6, 8⟩, ⟨11, 18⟩, ⟨18, 18⟩] := by
  intro source
  have hspans : (tokenize source).toOption.map (fun ts => ts.map (·.span)) =
      some [⟨0, 1⟩, ⟨1, 4⟩, ⟨5, 5⟩, ⟨5, 6⟩, ⟨6, 8⟩, ⟨11, 18⟩, ⟨18, 18⟩] := by decide +kernel
  obtain ⟨ts, hts, hspans⟩ := Option.map_eq_some_iff.1 hspans
  replace hts := ok_of_toOption hts
  have hsame : Text.normalizeChars source.toList = "b é\np#i//.\n  ü x".toList := by
    decide +kernel
  exact ⟨ts, hts, hsame ▸ tokenize_covers source hts, hspans⟩

end Stencil.Template
