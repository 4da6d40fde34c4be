import Stencil.Proofs.Result
import Stencil.Template.Parser

/-! # The structure of a token stream

Whatever a template looks like, the levels of its tokens are opened and closed like brackets, inner
levels are wider than outer ones, and a line is announced only where one follows. `Nests` says so
token by token; every line that is read keeps it, and so do all of them together. -/

namespace Stencil.Template

def TokenKind.isContent : TokenKind → Bool
  | .indent _ => false
  | .outdent => false
  | .newline => false
  | .eos => false
  | _ => true

def TokenKind.isIndent : TokenKind → Bool
  | .indent _ => true
  | _ => false

def TokenKind.isOutdent : TokenKind → Bool
  | .outdent => true
  | _ => false

/-- The widths of the levels that are open behind some tokens, innermost first, given those open in
front of them. -/
def openLevels (stack : List Nat) : List Token → List Nat
  | [] => stack
  | t :: ts => match t.kind with
    | .indent w => openLevels (w :: stack) ts
    | .outdent => openLevels stack.tail ts
    | _ => openLevels stack ts

def StartsContent (ts : List Token) : Prop :=
  ∃ t rest, ts = t :: rest ∧ t.kind.isContent = true

structure WellStructured (ts : List Token) : Prop where
  /-- The end is where the tokens end, and nowhere else. -/
  ends : ∃ body last, ts = body ++ [last] ∧ last.kind = .eos ∧ ∀ t ∈ body, t.kind ≠ .eos
  /-- No level is closed that is not open. -/
  opened : ∀ pre, pre <+: ts → pre.countP (·.kind.isOutdent) ≤ pre.countP (·.kind.isIndent)
  closed : ts.countP (·.kind.isOutdent) = ts.countP (·.kind.isIndent)
  /-- A level is wider than all those around it. -/
  deeper : ∀ pre t post w, ts = pre ++ t :: post → t.kind = .indent w →
    ∀ v ∈ openLevels [] pre, v < w
  started : ∀ t, ts.head? = some t → t.kind ≠ .newline
  /-- What announces a line is followed by one. -/
  followed : ∀ pre t post, ts = pre ++ t :: post →
    (t.kind.isIndent || t.kind.isNewline) = true → StartsContent post

/-! ## Nesting, token by token -/

/-- Tokens up to the end of a template, which close the levels in `stack` and all they open. -/
inductive Nests : List Nat → List Token → Prop
  | eos {t : Token} (kind : t.kind = .eos) : Nests [] [t]
  | indent {stack : List Nat} {t : Token} {ts : List Token} {w : Nat} (kind : t.kind = .indent w)
      (deeper : ∀ v ∈ stack, v < w) (followed : StartsContent ts) (rest : Nests (w :: stack) ts) :
      Nests stack (t :: ts)
  | outdent {stack : List Nat} {t : Token} {ts : List Token} {w : Nat} (kind : t.kind = .outdent)
      (rest : Nests stack ts) : Nests (w :: stack) (t :: ts)
  | newline {stack : List Nat} {t : Token} {ts : List Token} (kind : t.kind = .newline)
      (followed : StartsContent ts) (rest : Nests stack ts) : Nests stack (t :: ts)
  | content {stack : List Nat} {t : Token} {ts : List Token} (kind : t.kind.isContent = true)
      (rest : Nests stack ts) : Nests stack (t :: ts)

theorem TokenKind.isContent_eq {k : TokenKind} (h : k.isContent = true) :
    k.isIndent = false ∧ k.isOutdent = false ∧ k.isNewline = false ∧ k ≠ .eos := by
  cases k <;> simp_all [isContent, isIndent, isOutdent, isNewline]

namespace Nests

variable {stack : List Nat} {t : Token} {ts : List Token}

theorem contents {body : List Token} (hb : ∀ t ∈ body, t.kind.isContent = true)
    (h : Nests stack ts) : Nests stack (body ++ ts) := by
  induction body with
  | nil => exact h
  | cons t body ih =>
    obtain ⟨ht, hb⟩ := List.forall_mem_cons.1 hb
    exact .content ht (ih hb)

theorem outdents (closed : List Nat) (line : Nat) (span : Span) (h : Nests stack ts) :
    Nests (closed ++ stack) (closed.map (fun _ => ⟨.outdent, line, span⟩) ++ ts) := by
  induction closed with
  | nil => exact h
  | cons w closed ih => exact .outdent rfl ih

theorem ends (h : Nests stack ts) :
    ∃ (body : List Token) (last : Token), ts = body ++ [last] ∧ last.kind = .eos ∧
      ∀ t ∈ body, t.kind ≠ .eos := by
  have hcons : ∀ {t : Token} {ts : List Token}, t.kind ≠ .eos →
      (∃ (body : List Token) (last : Token), ts = body ++ [last] ∧ last.kind = .eos ∧
        ∀ t ∈ body, t.kind ≠ .eos) →
      ∃ (body : List Token) (last : Token), t :: ts = body ++ [last] ∧ last.kind = .eos ∧
        ∀ t ∈ body, t.kind ≠ .eos := by
    intro t ts ht h
    obtain ⟨body, last, rfl, hlast, hb⟩ := h
    exact ⟨t :: body, last, rfl, hlast, List.forall_mem_cons.2 ⟨ht, hb⟩⟩
  induction h with
  | @eos t kind => exact ⟨[], t, rfl, kind, List.forall_mem_nil _⟩
  | indent kind _ _ _ ih => exact hcons (by simp [kind]) ih
  | outdent kind _ ih => exact hcons (by simp [kind]) ih
  | newline kind _ _ ih => exact hcons (by simp [kind]) ih
  | content kind _ ih => exact hcons (TokenKind.isContent_eq kind).2.2.2 ih

/-- In front of any token, what is open is what the tokens so far have opened and not closed. -/
theorem split {pre post : List Token} (h : Nests stack (pre ++ post)) (hpost : post ≠ []) :
    Nests (openLevels stack pre) post ∧
      pre.countP (·.kind.isOutdent) + (openLevels stack pre).length =
        pre.countP (·.kind.isIndent) + stack.length := by
  induction pre generalizing stack with
  | nil => exact ⟨h, by simp [openLevels]⟩
  | cons t pre ih =>
    rw [List.cons_append] at h
    generalize hts : pre ++ post = ts at h
    cases h with
    | eos kind => exact absurd (List.append_eq_nil_iff.1 hts).2 hpost
    | @indent _ _ _ w kind _ _ rest =>
      obtain ⟨hn, hc⟩ := ih (hts ▸ rest)
      have hin : t.kind.isIndent = true := by rw [kind]; rfl
      have hout : t.kind.isOutdent = false := by rw [kind]; rfl
      have ho : openLevels stack (t :: pre) = openLevels (w :: stack) pre := by
        simp only [openLevels, kind]
      rw [List.length_cons] at hc
      refine ⟨by rw [ho]; exact hn, ?_⟩
      simp only [ho, List.countP_cons, hin, hout, if_true, Bool.false_eq_true, if_false]
      omega
    | @outdent stack _ _ w kind rest =>
      obtain ⟨hn, hc⟩ := ih (hts ▸ rest)
      have hin : t.kind.isIndent = false := by rw [kind]; rfl
      have hout : t.kind.isOutdent = true := by rw [kind]; rfl
      have ho : openLevels (w :: stack) (t :: pre) = openLevels stack pre := by
        simp only [openLevels, kind, List.tail_cons]
      refine ⟨by rw [ho]; exact hn, ?_⟩
      simp only [ho, List.countP_cons, hin, hout, if_true, Bool.false_eq_true, if_false,
        List.length_cons]
      omega
    | newline kind _ rest =>
      obtain ⟨hn, hc⟩ := ih (hts ▸ rest)
      have ho : openLevels stack (t :: pre) = openLevels stack pre := by
        simp only [openLevels, kind]
      refine ⟨by rw [ho]; exact hn, ?_⟩
      simpa [ho, List.countP_cons, kind, TokenKind.isIndent, TokenKind.isOutdent] using hc
    | content kind rest =>
      obtain ⟨hn, hc⟩ := ih (hts ▸ rest)
      obtain ⟨hin, hout, -, -⟩ := TokenKind.isContent_eq kind
      have ho : openLevels stack (t :: pre) = openLevels stack pre := by
        cases ht : t.kind <;> simp_all [openLevels, TokenKind.isContent]
      refine ⟨by rw [ho]; exact hn, ?_⟩
      simp only [ho, List.countP_cons, hin, hout, Bool.false_eq_true, if_false]
      omega

theorem stack_of_eos (h : Nests stack (t :: ts)) (ht : t.kind = .eos) : stack = [] := by
  cases h with
  | eos => rfl
  | indent kind => rw [ht] at kind; cases kind
  | outdent kind => rw [ht] at kind; cases kind
  | newline kind => rw [ht] at kind; cases kind
  | content kind => rw [ht] at kind; cases kind

theorem lt_of_indent {w : Nat} (h : Nests stack (t :: ts)) (ht : t.kind = .indent w) :
    ∀ v ∈ stack, v < w := by
  cases h with
  | eos kind => rw [ht] at kind; cases kind
  | indent kind deeper =>
    rw [ht] at kind
    cases kind
    exact deeper
  | outdent kind => rw [ht] at kind; cases kind
  | newline kind => rw [ht] at kind; cases kind
  | content kind => rw [ht] at kind; cases kind

theorem startsContent (h : Nests stack (t :: ts))
    (ht : (t.kind.isIndent || t.kind.isNewline) = true) : StartsContent ts := by
  cases h with
  | eos kind => rw [kind] at ht; cases ht
  | indent _ _ followed => exact followed
  | outdent kind => rw [kind] at ht; cases ht
  | newline _ followed => exact followed
  | content kind =>
    obtain ⟨hin, -, hnew, -⟩ := TokenKind.isContent_eq kind
    rw [hin, hnew] at ht
    cases ht

theorem closed (h : Nests [] ts) :
    ts.countP (·.kind.isOutdent) = ts.countP (·.kind.isIndent) := by
  obtain ⟨body, last, rfl, hlast, -⟩ := h.ends
  obtain ⟨hn, hc⟩ := h.split (List.cons_ne_nil last [])
  rw [hn.stack_of_eos hlast] at hc
  simpa [List.countP_append, hlast, TokenKind.isIndent, TokenKind.isOutdent] using hc

theorem wellStructured (h : Nests [] ts) (hs : ∀ t, ts.head? = some t → t.kind ≠ .newline) :
    WellStructured ts where
  ends := h.ends
  opened := by
    intro pre hp
    obtain ⟨post, rfl⟩ := hp
    by_cases hpost : post = []
    · rw [hpost, List.append_nil] at h
      exact Nat.le_of_eq h.closed
    · have := (h.split hpost).2
      simp only [List.length_nil] at this
      omega
  closed := h.closed
  deeper := by
    intro pre t post w hts ht
    rw [hts] at h
    exact (h.split (List.cons_ne_nil t post)).1.lt_of_indent ht
  started := hs
  followed := by
    intro pre t post hts ht
    rw [hts] at h
    exact (h.split (List.cons_ne_nil t post)).1.startsContent ht

end Nests

/-! ## Lines -/

def Levels.Widens (l : Levels) : Prop :=
  l.stack.Pairwise (· > ·)

theorem Levels.Widens.lt_of_top_lt {l : Levels} (h : l.Widens) {w : Nat} (hw : l.top < w) :
    ∀ v ∈ l.stack, v < w := by
  intro v hv
  unfold Levels.top at hw
  unfold Levels.Widens at h
  cases hs : l.stack with
  | nil => rw [hs] at hv; cases hv
  | cons top stack =>
    rw [hs] at hv hw h
    obtain ⟨htop, -⟩ := List.pairwise_cons.1 h
    rcases List.mem_cons.1 hv with rfl | hv
    · exact hw
    · exact Nat.lt_trans (htop v hv) hw

/-- The tokens that lead to a line open a level or close some, or they divide two lines; a line must
follow. -/
theorem nests_readLevels {l l' : Levels} {first : Bool} {c : Cursor} {lead : List Token}
    (hw : l.Widens) (h : readLevels l first c = .ok (lead, l')) :
    l'.Widens ∧ ∀ ts, StartsContent ts → Nests l'.stack ts → Nests l.stack (lead ++ ts) := by
  unfold readLevels at h
  obtain ⟨char, -, h⟩ := bind_eq_ok.1 h
  dsimp only at h
  split at h
  · next hlt =>
    obtain ⟨rfl, rfl⟩ := Prod.mk.inj (Except.ok.inj h)
    have hdeeper := hw.lt_of_top_lt hlt
    exact ⟨List.pairwise_cons.2 ⟨hdeeper, hw⟩, fun ts hs hn => .indent rfl hdeeper hs hn⟩
  · split at h
    · split at h
      · cases h
      · obtain ⟨rfl, rfl⟩ := Prod.mk.inj (Except.ok.inj h)
        refine ⟨hw.sublist (List.dropWhile_sublist _), fun ts _ hn => ?_⟩
        have := hn.outdents (l.stack.takeWhile (indentWidth c.rest < ·)) c.line
          ⟨c.pos, c.pos + indentWidth c.rest⟩
        rwa [List.takeWhile_append_dropWhile] at this
    · obtain ⟨rfl, rfl⟩ := Prod.mk.inj (Except.ok.inj h)
      refine ⟨hw, fun ts hs hn => ?_⟩
      cases first with
      | true => exact hn
      | false => exact .newline rfl hs hn

theorem nests_endTokens (l : Levels) (c : Cursor) : Nests l.stack (endTokens l c) := by
  have hend : Nests [] [⟨.eos, c.line, ⟨c.pos, c.pos⟩⟩] := .eos rfl
  have h := hend.outdents l.stack c.line ⟨c.pos, c.pos⟩
  rwa [List.append_nil] at h

/-! ## What lines are made of -/

theorem content_readMap {α : Type} {f : α → TokenKind} (hf : ∀ a, (f a).isContent = true)
    {r : Result (α × Cursor)} {k : TokenKind} {d : Cursor} (h : readMap f r = .ok (k, d)) :
    k.isContent = true := by
  unfold readMap at h
  split at h
  · cases h
  · next a e =>
    obtain ⟨rfl, -⟩ := Prod.mk.inj (Except.ok.inj h)
    exact hf a

theorem content_readReplace {p : Position} {c d : Cursor} {k : TokenKind}
    (h : readReplace p c = .ok (k, d)) : k.isContent = true :=
  content_readMap (fun _ => rfl) h

theorem content_readEach {word : String} {c d : Cursor} {k : TokenKind}
    (h : readEach word c = .ok (k, d)) : k.isContent = true := by
  simp only [readEach] at h
  split at h
  · cases h
  · obtain ⟨_, -, h⟩ := bind_eq_ok.1 h
    obtain ⟨rfl, -⟩ := Prod.mk.inj (Except.ok.inj h)
    rfl

theorem content_directives {c d : Cursor} {k : TokenKind} :
    ∀ x ∈ directives, x.2 c = .ok (k, d) → k.isContent = true := by
  have hdoctype : readDoctype c = .ok (k, d) → k.isContent = true := by
    intro h
    obtain ⟨rfl, -⟩ := Prod.mk.inj (Except.ok.inj h)
    rfl
  have hreplace : readReplaceLine c = .ok (k, d) → k.isContent = true := by
    intro h
    simp only [readReplaceLine] at h
    split at h
    · exact content_readReplace h
    · exact content_readReplace h
  have hblock : readBlockLine c = .ok (k, d) → k.isContent = true := by
    intro h
    simp only [readBlockLine] at h
    split at h
    · exact content_readReplace h
    · exact content_readMap (fun _ => rfl) h
  have helse : readElse c = .ok (k, d) → k.isContent = true := by
    intro h
    simp only [readElse] at h
    split at h
    · exact content_readMap (fun _ => rfl) h
    · exact content_readMap (fun _ => rfl) h
  simp only [directives, List.mem_cons, List.not_mem_nil, or_false, forall_eq_or_imp, forall_eq]
  exact ⟨hdoctype, content_readMap fun _ => rfl, content_readMap fun _ => rfl,
    content_readMap fun _ => rfl, content_readMap fun _ => rfl, content_readMap fun _ => rfl,
    content_readMap fun _ => rfl, hreplace, content_readReplace, content_readReplace, hblock,
    content_readMap fun _ => rfl, content_readMap fun _ => rfl, content_readMap fun _ => rfl, helse,
    content_readMap fun _ => rfl, content_readEach, content_readEach⟩

theorem content_readDirective {indent : Nat} {c d : Cursor} {k : TokenKind}
    (h : readDirective indent c = some (.ok (k, d))) : k.isContent = true := by
  unfold readDirective at h
  split at h
  · next x hx =>
    exact content_directives x (List.mem_of_find?_eq_some hx) (Option.some.inj h)
  · split at h
    · obtain ⟨rfl, -⟩ := Prod.mk.inj (Except.ok.inj (Option.some.inj h))
      rfl
    · obtain ⟨_, -, h⟩ := bind_eq_ok.1 (Option.some.inj h)
      obtain ⟨rfl, -⟩ := Prod.mk.inj (Except.ok.inj h)
      rfl
    · cases h

structure IsContent (ts : List Token) : Prop where
  nonempty : ts ≠ []
  all : ∀ t ∈ ts, t.kind.isContent = true

theorem IsContent.cons {t : Token} {ts : List Token} (ht : t.kind.isContent = true)
    (hts : IsContent ts) : IsContent (t :: ts) :=
  ⟨List.cons_ne_nil _ _, List.forall_mem_cons.2 ⟨ht, hts.all⟩⟩

theorem IsContent.markSelfClosing {ts : List Token} (h : IsContent ts) :
    IsContent (markSelfClosing ts) := by
  cases ts with
  | nil => exact h
  | cons t ts =>
    obtain ⟨-, hts⟩ := List.forall_mem_cons.1 h.all
    simp only [Template.markSelfClosing]
    split
    · exact ⟨List.cons_ne_nil _ _, List.forall_mem_cons.2 ⟨rfl, hts⟩⟩
    · exact ⟨List.cons_ne_nil _ _, List.forall_mem_cons.2 ⟨rfl, hts⟩⟩
    · exact h

theorem content_readTextBlock {indent : Nat} {acc ts : List Token} {c d : Cursor}
    (hacc : IsContent acc) (h : readTextBlock indent acc c = .ok (ts, d)) : IsContent ts := by
  unfold readTextBlock at h
  split at h
  · obtain ⟨rfl, -⟩ := Prod.mk.inj (Except.ok.inj h)
    exact hacc
  · obtain ⟨_, -, h⟩ := bind_eq_ok.1 h
    obtain ⟨rfl, -⟩ := Prod.mk.inj (Except.ok.inj h)
    exact .cons rfl hacc

theorem content_readTagPart {indent : Nat} {acc ts : List Token} {more : Bool} {c d : Cursor}
    (hacc : IsContent acc) (h : readTagPart indent acc c = .ok ((ts, more), d)) :
    IsContent ts := by
  unfold readTagPart at h
  split at h
  · cases h
    exact hacc
  · cases h
    exact hacc
  · dsimp only at h
    split at h
    · cases h
      exact .cons rfl hacc
    · split at h
      · obtain ⟨⟨us, e⟩, hb, h⟩ := bind_eq_ok.1 h
        cases h
        exact content_readTextBlock hacc hb
      · cases h
  · dsimp only at h
    split at h
    · cases h
    · cases h
      exact .cons rfl hacc
  · obtain ⟨x, -, h⟩ := bind_eq_ok.1 h
    cases h
    exact .cons rfl hacc
  · cases h
    exact hacc.markSelfClosing
  · dsimp only at h
    split at h
    · split at h
      · cases h
        exact hacc
      · obtain ⟨_, -, h⟩ := bind_eq_ok.1 h
        cases h
        exact .cons rfl hacc
    · cases h

theorem content_readTagParts {indent : Nat} {acc ts : List Token} {c d : Cursor}
    (hacc : IsContent acc) (h : readTagParts indent acc c = .ok (ts, d)) : IsContent ts := by
  fun_induction readTagParts indent acc c with
  | case1 => cases h
  | case2 acc c us e hp =>
    obtain ⟨rfl, -⟩ := Prod.mk.inj (Except.ok.inj h)
    exact content_readTagPart hacc hp
  | case3 acc c us e hp _ ih => exact ih (content_readTagPart hacc hp) h

theorem content_readTagHead {c d : Cursor} {t : Token} (h : readTagHead c = some (t, d)) :
    t.kind.isContent = true := by
  unfold readTagHead at h
  split at h
  · split at h
    · split at h
      · cases h
        rfl
      · cases h
    · cases h
  · cases h
    rfl

theorem content_readLine {indent : Nat} {c d : Cursor} {ts : List Token}
    (h : readLine indent c = .ok (ts, d)) : IsContent ts := by
  unfold readLine at h
  split at h
  · cases h
  · next kind e hd =>
    obtain ⟨rfl, -⟩ := Prod.mk.inj (Except.ok.inj h)
    refine ⟨List.cons_ne_nil _ _, List.forall_mem_singleton.2 ?_⟩
    have hkind := content_readDirective hd
    unfold directiveToken
    split
    · exact hkind
    · exact hkind
  · split at h
    · next t e ht =>
      have hhead : IsContent [t] :=
        ⟨List.cons_ne_nil _ _, List.forall_mem_singleton.2 (content_readTagHead ht)⟩
      unfold readMap at h
      split at h
      · cases h
      · next us f hus =>
        obtain ⟨rfl, -⟩ := Prod.mk.inj (Except.ok.inj h)
        have hparts := content_readTagParts hhead hus
        refine ⟨by simpa using hparts.nonempty, fun u hu => hparts.all u (List.mem_reverse.1 hu)⟩
    · cases h

theorem IsContent.startsContent {body : List Token} (h : IsContent body) (ts : List Token) :
    StartsContent (body ++ ts) := by
  obtain ⟨t, rest, rfl⟩ := List.exists_cons_of_ne_nil h.nonempty
  exact ⟨t, rest ++ ts, rfl, h.all t (List.mem_cons_self ..)⟩

/-! ## All lines -/

theorem nests_readLines {l : Levels} {first : Bool} {c : Cursor} {ts : List Token}
    (hw : l.Widens) (h : readLines l first c = .ok ts) : Nests l.stack ts := by
  fun_induction readLines l first c generalizing ts with
  | case1 l first c d =>
    cases h
    exact nests_endTokens l d
  | case2 => cases h
  | case3 => cases h
  | case4 l first c d hd lead l' hl body e hb =>
    cases h
    have hbody := content_readLine hb
    rw [List.append_assoc]
    exact (nests_readLevels hw hl).2 _ (hbody.startsContent _)
      ((nests_endTokens l' e).contents hbody.all)
  | case5 l first c d hd lead l' hl body e hb =>
    rename_i ih
    obtain ⟨more, hmore, rfl⟩ := map_eq_ok.1 h
    have hbody := content_readLine hb
    obtain ⟨hw', hlead⟩ := nests_readLevels hw hl
    rw [List.append_assoc]
    exact hlead _ (hbody.startsContent _) ((ih hw' hmore).contents hbody.all)
  | case6 => cases h

/-- No line comes before the first one, so none is to be divided from it. -/
theorem head?_readLines {l : Levels} {c : Cursor} {ts : List Token}
    (h : readLines l true c = .ok ts) : ∀ t, ts.head? = some t → t.kind ≠ .newline := by
  have hlead : ∀ {d : Cursor} {lead : List Token} {l' : Levels},
      readLevels l true d = .ok (lead, l') → ∀ t ∈ lead, t.kind ≠ .newline := by
    intro d lead l' h
    unfold readLevels at h
    obtain ⟨char, -, h⟩ := bind_eq_ok.1 h
    dsimp only at h
    split at h
    · cases h
      simp
    · split at h
      · split at h
        · cases h
        · cases h
          intro t ht hk
          obtain ⟨w, -, rfl⟩ := List.mem_map.1 ht
          cases hk
      · cases h
        simp
  have hline : ∀ {d e : Cursor} {lead body more : List Token} {l' : Levels} {indent : Nat},
      readLevels l true d = .ok (lead, l') → readLine indent d.skipIndent = .ok (body, e) →
      ∀ t, (lead ++ body ++ more).head? = some t → t.kind ≠ .newline := by
    intro d e lead body more l' indent hl hb t ht
    have hbody := content_readLine hb
    cases lead with
    | nil =>
      obtain ⟨u, rest, rfl⟩ := List.exists_cons_of_ne_nil hbody.nonempty
      cases ht
      intro hk
      have := hbody.all t (List.mem_cons_self ..)
      rw [hk] at this
      cases this
    | cons u lead =>
      cases ht
      exact hlead hl t (List.mem_cons_self ..)
  rw [readLines] at h
  dsimp only at h
  split at h
  · cases h
    intro t ht
    unfold endTokens at ht
    cases hs : l.stack with
    | nil => rw [hs] at ht; cases ht; simp
    | cons w stack => rw [hs] at ht; cases ht; simp
  · split at h
    · cases h
    · next hl =>
      split at h
      · cases h
      · next hb =>
        split at h
        · cases h
          exact hline hl hb
        · obtain ⟨more, -, rfl⟩ := map_eq_ok.1 h
          exact hline hl hb
        · cases h

/-- **The token stream is well structured.** The tokens of a template that can be read end with the
only end token; levels are closed as often as they are opened, and never before; a level is wider
than those it is in; and a new level or a new line always has content. -/
theorem tokenize_wellStructured (source : String) {ts : List Token}
    (h : tokenize source = .ok ts) : WellStructured ts :=
  (nests_readLines (l := ⟨[], none⟩) List.Pairwise.nil h).wellStructured (head?_readLines h)

/-- A text block and a comment that swallow lines, a list over two lines, and levels that are left
open to the end. -/
theorem tokenize_wellStructured_page :
    let source := "ul\n  li.\n    a\n\n      b\n  // c\n     d\n  p(x\n=1)\n    i"
    ∃ ts, tokenize source = .ok ts ∧ WellStructured ts ∧
      ts.map (·.kind.name) = ["tag", "indent", "tag", "text", "newline", "comment",
        "newline", "tag",
        "attrs", "indent", "tag", "outdent", "outdent", "eos"] := by
  intro source
  have hnames : (tokenize source).toOption.map (fun ts => ts.map (·.kind.name)) =
      some ["tag", "indent", "tag", "text", "newline", "comment", "newline", "tag",
        "attrs", "indent", "tag", "outdent", "outdent", "eos"] := by decide +kernel
  obtain ⟨ts, hts, hnames⟩ := Option.map_eq_some_iff.1 hnames
  replace hts := ok_of_toOption hts
  exact ⟨ts, hts, tokenize_wellStructured source hts, hnames⟩

end Stencil.Template
