import Stencil.Proofs.Result
import Stencil.Proofs.Template.Outline

/-! # Parsing outlines

The tokens of a node are parsed to the node they came from, whatever follows it, as long as that
does not belong to it: no `else` behind a condition, and no content for blocks behind an
extension. -/

namespace Stencil.Template

def kindsOf (ts : List Token) : List TokenKind :=
  ts.map (·.kind)

theorem kindsOf_eq_cons {ts : List Token} {k : TokenKind} {ks : List TokenKind}
    (h : kindsOf ts = k :: ks) : ∃ t r, ts = t :: r ∧ t.kind = k ∧ kindsOf r = ks := by
  cases ts with
  | nil => cases h
  | cons t r =>
    obtain ⟨hk, hks⟩ := List.cons.inj h
    exact ⟨t, r, rfl, hk, hks⟩

/-! ## What may follow -/

def TokenKind.endsLine : TokenKind → Bool
  | .newline => true
  | .outdent => true
  | .eos => true
  | _ => false

def TokenKind.startsNode : TokenKind → Bool
  | .doctype _ => true
  | .tag _ _ _ => true
  | .text _ => true
  | .comment _ _ => true
  | .block _ => true
  | .extension _ _ => true
  | .inclusion _ _ => true
  | .caseOf _ => true
  | .each _ _ _ => true
  | .whileTrue _ => true
  | .ifTrue _ => true
  | _ => false

def TokenKind.isElse : TokenKind → Bool
  | .elseIf _ => true
  | .otherwise => true
  | _ => false

def TokenKind.isReplace : TokenKind → Bool
  | .replace _ _ => true
  | _ => false

/-- What may follow a node: behind its last line something that ends a line, and nothing that would
belong to it. -/
structure MayFollow (flat : Bool) (ks : List TokenKind) : Prop where
  ends : flat = true → ks.head?.any TokenKind.endsLine = true
  noElse : ∀ k, (ks.dropWhile TokenKind.isNewline).head? = some k → k.isElse = false
  noReplace : ∀ k, (ks.dropWhile TokenKind.isFiller).head? = some k → k.isReplace = false

theorem dropWhile_kindsOf {p : TokenKind → Bool} (ts : List Token) :
    kindsOf (ts.dropWhile fun t => p t.kind) = (kindsOf ts).dropWhile p := by
  induction ts with
  | nil => rfl
  | cons t ts ih =>
    by_cases h : p t.kind = true
    · rw [List.dropWhile_cons_of_pos (by simpa using h), ih]
      exact (List.dropWhile_cons_of_pos h).symm
    · rw [List.dropWhile_cons_of_neg (by simpa using h)]
      exact (List.dropWhile_cons_of_neg h).symm

/-! ## Tags -/

def splitParts (h : TagHead) (ts : List Token) : TagHead × List Token :=
  ((tagParts h ts).value, (tagParts h ts).rest)

theorem splitParts_class {h : TagHead} {t : Token} {ts : List Token} {c : String}
    (hk : t.kind = .className c) :
    splitParts h (t :: ts) = splitParts { h with classes := h.classes ++ [c] } ts := by
  obtain ⟨kind, line, span⟩ := t
  subst hk
  rfl

theorem splitParts_attrs {h : TagHead} {t : Token} {ts : List Token} {as : List Attribute}
    (hk : t.kind = .attrs as false) :
    splitParts h (t :: ts) = splitParts { h with attrs := h.attrs ++ as } ts := by
  obtain ⟨kind, line, span⟩ := t
  subst hk
  obtain ⟨name, selfClosing, inline, attrs, classes, text⟩ := h
  cases selfClosing <;> rfl

theorem splitParts_text {h : TagHead} {t : Token} {ts : List Token} {s : String}
    (hk : t.kind = .text s) : splitParts h (t :: ts) = ({ h with text := some s }, ts) := by
  obtain ⟨kind, line, span⟩ := t
  subst hk
  rfl

theorem splitParts_classes (h : TagHead) {classes : List String} {ts : List Token}
    {ks : List TokenKind} (ht : kindsOf ts = classes.map .className ++ ks) :
    ∃ r, kindsOf r = ks ∧
      splitParts h ts = splitParts { h with classes := h.classes ++ classes } r := by
  induction classes generalizing h ts with
  | nil =>
    refine ⟨ts, ht, ?_⟩
    rw [List.append_nil]
  | cons c classes ih =>
    obtain ⟨t, r, rfl, hk, hr⟩ := kindsOf_eq_cons ht
    obtain ⟨r', hr', hsplit⟩ := ih { h with classes := h.classes ++ [c] } hr
    refine ⟨r', hr', ?_⟩
    rw [splitParts_class hk, hsplit, List.append_assoc]
    rfl

def EndsParts (ks : List TokenKind) : Prop :=
  ∃ k r, ks = k :: r ∧ (k.endsLine = true ∨ ∃ w, k = .indent w)

theorem splitParts_end {h : TagHead} {ts : List Token} {ks : List TokenKind}
    (ht : kindsOf ts = ks) (hks : EndsParts ks) : splitParts h ts = (h, ts) := by
  obtain ⟨k, r, rfl, hk⟩ := hks
  obtain ⟨⟨kind, line, span⟩, r, rfl, rfl, -⟩ := kindsOf_eq_cons ht
  rcases hk with hk | ⟨w, hk⟩
  · cases kind <;> first | rfl | cases hk
  · cases hk
    rfl

theorem splitParts_tag {head : TagHead} {ts : List Token} {ks : List TokenKind}
    (ht : kindsOf ts = head.classes.map .className ++
      ((if head.attrs.isEmpty then [] else [.attrs head.attrs false]) ++
        (head.text.toList.map .text ++ ks))) (hks : EndsParts ks) :
    ∃ r, kindsOf r = ks ∧
      splitParts ⟨head.name, head.selfClosing, head.inline, [], [], none⟩ ts = (head, r) := by
  obtain ⟨name, selfClosing, inline, attrs, classes, text⟩ := head
  obtain ⟨r₁, hr₁, hclasses⟩ :=
    splitParts_classes ⟨name, selfClosing, inline, [], [], none⟩ ht
  have hattrs : ∃ r₂, kindsOf r₂ = text.toList.map .text ++ ks ∧
      splitParts ⟨name, selfClosing, inline, [], classes, none⟩ r₁ =
        splitParts ⟨name, selfClosing, inline, attrs, classes, none⟩ r₂ := by
    cases attrs with
    | nil => exact ⟨r₁, hr₁, rfl⟩
    | cons a as =>
      obtain ⟨t, r, rfl, hk, hr⟩ := kindsOf_eq_cons hr₁
      exact ⟨r, hr, splitParts_attrs hk⟩
  obtain ⟨r₂, hr₂, hattrs⟩ := hattrs
  have hboth := hclasses.trans hattrs
  cases text with
  | none => exact ⟨r₂, hr₂, hboth.trans (splitParts_end hr₂ hks)⟩
  | some s =>
    obtain ⟨t, r, rfl, hk, hr⟩ := kindsOf_eq_cons hr₂
    exact ⟨r, hr, hboth.trans (splitParts_text hk)⟩

/-! ## Nodes -/

def belowKinds (level : Nat) (below : List Outline) : List TokenKind :=
  if below.isEmpty then []
  else .indent (2 * (level + 1)) :: (kindsAll (level + 1) false below ++ [.outdent])

theorem belowKinds_cons {level : Nat} {below : List Outline} (h : below.isEmpty = false) :
    belowKinds level below =
      .indent (2 * (level + 1)) :: (kindsAll (level + 1) false below ++ [TokenKind.outdent]) := by
  rw [belowKinds, if_neg (by simp [h])]

theorem belowKinds_nil {level : Nat} {below : List Outline} (h : below.isEmpty = true) :
    belowKinds level below = [] :=
  if_pos h

theorem kindsAll_newline (level : Nat) (newline : Bool) {os : List Outline} (h : os ≠ []) :
    kindsAll level newline os =
      (if newline then [.newline] else []) ++ kindsAll level false os := by
  cases os with
  | nil => exact absurd rfl h
  | cons o os => rfl

/-- The first token of a node. Only a comment that is not kept can be skipped, and it is alone. -/
theorem Node.WellFormed.kinds_start {n : Node} (h : n.WellFormed) (level : Nat) :
    ∃ k r, kindsAll level false n.outlines = k :: r ∧ k.startsNode = true ∧
      (k.isFiller = true → r = []) := by
  cases n with
  | comment mark text buffered => exact ⟨.comment text buffered, [], rfl, rfl, fun _ => rfl⟩
  | ifElse mark branches otherwise =>
    cases branches with
    | nil => exact absurd rfl h.1
    | cons b bs =>
      obtain ⟨expr, line, body⟩ := b
      exact ⟨.ifTrue expr, _, rfl, rfl, nofun⟩
  | doctype mark value => exact ⟨.doctype value, _, rfl, rfl, nofun⟩
  | tag mark head body => exact ⟨.tag _ _ _, _, rfl, rfl, nofun⟩
  | text mark text => exact ⟨.text text, _, rfl, rfl, nofun⟩
  | block mark name body => exact ⟨.block name, _, rfl, rfl, nofun⟩
  | extension mark reference options replaces =>
    exact ⟨.extension reference options, _, rfl, rfl, nofun⟩
  | inclusion mark reference options => exact ⟨.inclusion reference options, _, rfl, rfl, nofun⟩
  | caseOf mark expr arms => exact ⟨.caseOf expr, _, rfl, rfl, nofun⟩
  | whileTrue mark expr body => exact ⟨.whileTrue expr, _, rfl, rfl, nofun⟩
  | each mark value key expr body => exact ⟨.each value key expr, _, rfl, rfl, nofun⟩

theorem Node.WellFormed.outlines_ne_nil {n : Node} (h : n.WellFormed) : n.outlines ≠ [] := by
  intro hn
  obtain ⟨k, r, hk, -⟩ := h.kinds_start 0
  rw [hn, kindsAll] at hk
  cases hk

theorem outlinesOf_isEmpty {ns : List Node} (h : WellFormedAll ns) :
    (outlinesOf ns).isEmpty = ns.isEmpty := by
  cases ns with
  | nil => rfl
  | cons n ns =>
    rw [outlinesOf]
    cases ho : n.outlines with
    | nil => exact absurd ho h.1.outlines_ne_nil
    | cons o os => rfl

/-! ## What follows a node among others -/

def TokenKind.closes : TokenKind → Bool
  | .outdent => true
  | .eos => true
  | _ => false

theorem dropWhile_newline {p : TokenKind → Bool} (hp : p .newline = true) (flat : Bool)
    (ks : List TokenKind) :
    ((if flat then [TokenKind.newline] else []) ++ ks).dropWhile p = ks.dropWhile p := by
  cases flat with
  | true => exact List.dropWhile_cons_of_pos hp
  | false => rfl

theorem head?_dropWhile_cons {p : TokenKind → Bool} {k x : TokenKind} {ks : List TokenKind}
    (hk : p k = false) (h : ((k :: ks).dropWhile p).head? = some x) : x = k := by
  rw [List.dropWhile_cons_of_neg (by simp [hk])] at h
  exact (Option.some.inj h).symm

/-- The end of a level may follow all that is in it, and so may more nodes. -/
theorem mayFollow_nodes {ns : List Node} (h : WellFormedAll ns) (level : Nat) (flat : Bool)
    {k : TokenKind} (hk : k.closes = true) (ks : List TokenKind) :
    MayFollow flat (kindsAll level flat (outlinesOf ns) ++ k :: ks) := by
  induction ns generalizing flat with
  | nil =>
    have hends : k.endsLine = true ∧ k.isNewline = false ∧ k.isFiller = false ∧
        k.isElse = false ∧ k.isReplace = false := by
      cases k <;> first | exact ⟨rfl, rfl, rfl, rfl, rfl⟩ | cases hk
    obtain ⟨hends, hnewline, hfiller, helse, hreplace⟩ := hends
    refine ⟨fun _ => hends, fun x hx => ?_, fun x hx => ?_⟩
    · rw [head?_dropWhile_cons hnewline hx, helse]
    · rw [head?_dropWhile_cons hfiller hx, hreplace]
  | cons n ns ih =>
    obtain ⟨x, r, hx, hstart, hfiller⟩ := h.1.kinds_start level
    have hkinds : kindsAll level flat (outlinesOf (n :: ns)) ++ k :: ks =
        (if flat then [.newline] else []) ++
          (x :: (r ++ (kindsAll level (endsFlat flat n.outlines) (outlinesOf ns) ++ k :: ks))) := by
      rw [outlinesOf, kindsAll_append, kindsAll_newline level flat h.1.outlines_ne_nil, hx]
      simp only [List.append_assoc, List.cons_append]
    have hother : x.isNewline = false ∧ x.isElse = false ∧ x.isReplace = false := by
      cases x <;> first | exact ⟨rfl, rfl, rfl⟩ | cases hstart
    obtain ⟨hnewline, helse, hreplace⟩ := hother
    rw [hkinds]
    refine ⟨fun hf => ?_, fun y hy => ?_, fun y hy => ?_⟩
    · rw [hf]
      rfl
    · rw [dropWhile_newline (p := TokenKind.isNewline) rfl] at hy
      rw [head?_dropWhile_cons hnewline hy, helse]
    · rw [dropWhile_newline (p := TokenKind.isFiller) rfl] at hy
      cases hf : x.isFiller with
      | false => rw [head?_dropWhile_cons hf hy, hreplace]
      | true =>
        -- the comment is skipped, and what comes behind it decides
        rw [hfiller hf, List.nil_append, List.dropWhile_cons_of_pos hf] at hy
        exact (ih h.2 _).noReplace y hy

/-! ## Parsing -/

def Yields {α : Type} {n : Nat} (r : Result (Parsed α n)) (wanted : α → Prop)
    (ks : List TokenKind) : Prop :=
  ∃ p, r = .ok p ∧ wanted p.value ∧ kindsOf p.rest = ks

theorem Yields.bind {α β : Type} {n m : Nat} {x : Result (Parsed α n)}
    {f : Parsed α n → Result (Parsed β m)} {a : α → Prop} {b : β → Prop} {ks ls : List TokenKind}
    (hx : Yields x a ks) (hf : ∀ p, a p.value → kindsOf p.rest = ks → Yields (f p) b ls) :
    Yields (x >>= f) b ls := by
  obtain ⟨p, rfl, ha, hrest⟩ := hx
  exact hf p ha hrest

theorem parseBody_flat (fin : Token) {ts : List Token} {ks : List TokenKind}
    (ht : kindsOf ts = ks) (hks : ks.head?.any TokenKind.endsLine = true) :
    Yields (parseBody fin ts) (· = []) ks := by
  cases ks with
  | nil => cases hks
  | cons k ks =>
    obtain ⟨⟨kind, line, span⟩, r, rfl, rfl, hr⟩ := kindsOf_eq_cons ht
    refine ⟨⟨[], ⟨kind, line, span⟩ :: r, Nat.lt_succ_self _⟩, ?_, rfl, ht⟩
    rw [parseBody]
    rintro w l s r' heq
    cases heq
    cases hks

theorem parseBody_indent {fin : Token} {ts : List Token} {w : Nat} {below ks : List TokenKind}
    {wanted : List Node → Prop} (ht : kindsOf ts = .indent w :: below)
    (h : ∀ r, kindsOf r = below → Yields (parseNodes fin r) wanted ks) :
    Yields (parseBody fin ts) wanted ks := by
  obtain ⟨⟨kind, line, span⟩, r, rfl, rfl, hr⟩ := kindsOf_eq_cons ht
  rw [parseBody]
  exact (h r hr).bind fun p hw hrest => ⟨_, rfl, hw, hrest⟩

theorem parseIndentedReplaces_flat (fin : Token) {ts : List Token} {ks : List TokenKind}
    (ht : kindsOf ts = ks) (hks : ks.head?.any TokenKind.endsLine = true) :
    Yields (parseIndentedReplaces fin ts) (· = []) ks := by
  cases ks with
  | nil => cases hks
  | cons k ks =>
    obtain ⟨⟨kind, line, span⟩, r, rfl, rfl, hr⟩ := kindsOf_eq_cons ht
    refine ⟨⟨[], ⟨kind, line, span⟩ :: r, Nat.lt_succ_self _⟩, ?_, rfl, ht⟩
    rw [parseIndentedReplaces]
    rintro w l s r' heq
    cases heq
    cases hks

theorem parseIndentedReplaces_indent {fin : Token} {ts : List Token} {w : Nat}
    {below ks : List TokenKind} {wanted : List (Replace (List Node)) → Prop}
    (ht : kindsOf ts = .indent w :: below)
    (h : ∀ r, kindsOf r = below → Yields (parseReplaces fin r) wanted ks) :
    Yields (parseIndentedReplaces fin ts) wanted ks := by
  obtain ⟨⟨kind, line, span⟩, r, rfl, rfl, hr⟩ := kindsOf_eq_cons ht
  rw [parseIndentedReplaces]
  exact (h r hr).bind fun p hw hrest => ⟨_, rfl, hw, hrest⟩

theorem yields_newline {α : Type} {size : List Token → Nat}
    {parse : (ts : List Token) → Result (Parsed α (size ts))} {wanted : α → Prop}
    {ts : List Token} {ks below : List TokenKind} (newline : Bool)
    (hskip : ∀ t r, t.kind = .newline → Yields (parse r) wanted ks →
      Yields (parse (t :: r)) wanted ks)
    (ht : kindsOf ts = (if newline then [.newline] else []) ++ below)
    (h : ∀ r, kindsOf r = below → Yields (parse r) wanted ks) : Yields (parse ts) wanted ks := by
  cases newline with
  | false => exact h ts ht
  | true =>
    obtain ⟨t, r, rfl, hk, hr⟩ := kindsOf_eq_cons ht
    exact hskip t r hk (h r hr)

theorem parseNodes_newline {fin t : Token} {r : List Token} {ks : List TokenKind}
    {wanted : List Node → Prop} (hk : t.kind = .newline)
    (h : Yields (parseNodes fin r) wanted ks) : Yields (parseNodes fin (t :: r)) wanted ks := by
  obtain ⟨kind, line, span⟩ := t
  subst hk
  rw [parseNodes]
  exact h.bind fun p hw hrest => ⟨_, rfl, hw, hrest⟩

theorem parseReplaces_newline {fin t : Token} {r : List Token} {ks : List TokenKind}
    {wanted : List (Replace (List Node)) → Prop} (hk : t.kind = .newline)
    (h : Yields (parseReplaces fin r) wanted ks) :
    Yields (parseReplaces fin (t :: r)) wanted ks := by
  obtain ⟨kind, line, span⟩ := t
  subst hk
  rw [parseReplaces]
  exact h.bind fun p hw hrest => ⟨_, rfl, hw, hrest⟩

theorem parseArms_newline {fin t : Token} {hasDefault : Bool} {r : List Token}
    {ks : List TokenKind} {wanted : List (Arm (List Node)) → Prop} (hk : t.kind = .newline)
    (h : Yields (parseArms fin hasDefault r) wanted ks) :
    Yields (parseArms fin hasDefault (t :: r)) wanted ks := by
  obtain ⟨kind, line, span⟩ := t
  subst hk
  rw [parseArms]
  exact h.bind fun p hw hrest => ⟨_, rfl, hw, hrest⟩

theorem parseNodes_node {fin : Token} {ts : List Token} {k : TokenKind} {ks : List TokenKind}
    (hstart : k.startsNode = true) (ht : kindsOf ts = k :: ks) {first : Node → Prop}
    {more wanted : List Node → Prop} {ks' ls : List TokenKind}
    (hnode : Yields (parseNode fin ts) first ks')
    (hmore : ∀ r, kindsOf r = ks' → Yields (parseNodes fin r) more ls)
    (hwanted : ∀ n ns, first n → more ns → wanted (n :: ns)) :
    Yields (parseNodes fin ts) wanted ls := by
  obtain ⟨t, r, rfl, rfl, hr⟩ := kindsOf_eq_cons ht
  rw [parseNodes]
  split
  · next hk => rw [hk] at hstart; cases hstart
  · next hk => rw [hk] at hstart; cases hstart
  · next hk => rw [hk] at hstart; cases hstart
  · exact hnode.bind fun p hfirst hrest => (hmore p.rest hrest).bind fun q hmore hrest =>
      ⟨_, rfl, hwanted _ _ hfirst hmore, hrest⟩

theorem parseSiblingReplaces_none (fin : Token) {ts : List Token} {ks : List TokenKind}
    (ht : kindsOf ts = ks)
    (h : ∀ k, (ks.dropWhile TokenKind.isFiller).head? = some k → k.isReplace = false) :
    Yields (parseSiblingReplaces fin ts) (· = []) ks := by
  rw [parseSiblingReplaces]
  split
  · next position block line span r hd =>
    have hkinds := dropWhile_kindsOf (p := TokenKind.isFiller) ts
    rw [hd, ht] at hkinds
    have hreplace := h (.replace position block) (by rw [← hkinds]; rfl)
    cases hreplace
  · exact ⟨_, rfl, rfl, ht⟩

theorem dropWhile_newline_kindsOf {ts : List Token} {newline : Bool} {k : TokenKind}
    {ks : List TokenKind} (hk : k.isNewline = false)
    (ht : kindsOf ts = (if newline then [.newline] else []) ++ k :: ks) :
    ∃ t r, ts.dropWhile (fun t => t.kind.isNewline) = t :: r ∧ t.kind = k ∧ kindsOf r = ks := by
  apply kindsOf_eq_cons
  rw [dropWhile_kindsOf (p := TokenKind.isNewline), ht, dropWhile_newline rfl,
    List.dropWhile_cons_of_neg (by simp [hk])]

theorem parseElse_none (fin : Token) {ts : List Token} {ks : List TokenKind} (ht : kindsOf ts = ks)
    (h : ∀ k, (ks.dropWhile TokenKind.isNewline).head? = some k → k.isElse = false) :
    Yields (parseElse fin ts) (· = ([], none)) ks := by
  rw [parseElse]
  split
  · next t r hd =>
    have hkinds := dropWhile_kindsOf (p := TokenKind.isNewline) ts
    rw [hd, ht] at hkinds
    have helse := h t.kind (by rw [← hkinds]; rfl)
    split
    · next hk => rw [hk] at helse; cases helse
    · next hk => rw [hk] at helse; cases helse
    · exact ⟨_, rfl, rfl, ht⟩
  · exact ⟨_, rfl, rfl, ht⟩

theorem parseElse_elseIf {fin : Token} {ts r : List Token} {t : Token} {e : String}
    (hd : ts.dropWhile (fun t => t.kind.isNewline) = t :: r) (hk : t.kind = .elseIf e)
    {first : List Node → Prop} {more wanted : List (Branch (List Node)) × Option (List Node) → Prop}
    {ks ls : List TokenKind} (hbody : Yields (parseBody fin r) first ks)
    (hmore : ∀ r, kindsOf r = ks → Yields (parseElse fin r) more ls)
    (hwanted : ∀ line body v, first body → more v → wanted (⟨e, line, body⟩ :: v.1, v.2)) :
    Yields (parseElse fin ts) wanted ls := by
  rw [parseElse]
  split
  · next t' r' hd' =>
    rw [hd] at hd'
    obtain ⟨rfl, rfl⟩ := List.cons.inj hd'
    split
    · next e' hk' =>
      rw [hk] at hk'
      cases hk'
      exact hbody.bind fun p hfirst hrest => (hmore p.rest hrest).bind fun q hmore hrest =>
        ⟨_, rfl, hwanted _ _ _ hfirst hmore, hrest⟩
    · next hk' => rw [hk] at hk'; cases hk'
    · next hno _ => exact (hno e hk).elim
  · next hd' => rw [hd] at hd'; cases hd'

theorem parseElse_otherwise {fin : Token} {ts r : List Token} {t : Token}
    (hd : ts.dropWhile (fun t => t.kind.isNewline) = t :: r) (hk : t.kind = .otherwise)
    {last : List Node → Prop} {ks : List TokenKind} (hbody : Yields (parseBody fin r) last ks) :
    Yields (parseElse fin ts) (fun v => v.1 = [] ∧ ∃ body, v.2 = some body ∧ last body) ks := by
  rw [parseElse]
  split
  · next t' r' hd' =>
    rw [hd] at hd'
    obtain ⟨rfl, rfl⟩ := List.cons.inj hd'
    split
    · next hk' => rw [hk] at hk'; cases hk'
    · exact hbody.bind fun p hlast hrest => ⟨_, rfl, ⟨rfl, _, rfl, hlast⟩, hrest⟩
    · next _ hno => exact (hno hk).elim
  · next hd' => rw [hd] at hd'; cases hd'

theorem ends_kindsAll {level : Nat} {flat : Bool} {os : List Outline} {ks : List TokenKind}
    (h : endsFlat flat os = true → ks.head?.any TokenKind.endsLine = true) (hflat : flat = true) :
    (kindsAll level flat os ++ ks).head?.any TokenKind.endsLine = true := by
  cases os with
  | nil => exact h hflat
  | cons o os =>
    subst hflat
    rfl

theorem endsFlat_newline (newline : Bool) {os : List Outline} (h : os ≠ []) :
    endsFlat newline os = endsFlat false os := by
  cases os with
  | nil => exact absurd rfl h
  | cons o os => rfl

theorem kindsAll_cons (level : Nat) (newline : Bool) (line : Line) (below os : List Outline)
    (ks : List TokenKind) : kindsAll level newline (⟨line, below⟩ :: os) ++ ks =
      (if newline then [.newline] else []) ++
        (line.kinds ++ (belowKinds level below ++ (kindsAll level below.isEmpty os ++ ks))) := by
  rw [kindsAll, Outline.kinds, Outline.isFlat, belowKinds]
  simp only [List.append_assoc]

theorem parseNode_tag (fin : Token) {head : TagHead} {ts : List Token} {ks ls : List TokenKind}
    {wanted : List Node → Prop} (ht : kindsOf ts = (Line.tag head).kinds ++ ks) (hks : EndsParts ks)
    (hbody : ∀ r, kindsOf r = ks → Yields (parseBody fin r) wanted ls) :
    Yields (parseNode fin ts) (fun n => ∃ mark body, n = .tag mark head body ∧ wanted body) ls := by
  replace ht : kindsOf ts = .tag head.name head.selfClosing head.inline ::
      (head.classes.map .className ++
        ((if head.attrs.isEmpty then [] else [.attrs head.attrs false]) ++
          (head.text.toList.map .text ++ ks))) := by
    rw [ht, Line.kinds]
    simp
  obtain ⟨⟨kind, line, span⟩, r, rfl, rfl, hr⟩ := kindsOf_eq_cons ht
  obtain ⟨r', hr', hsplit⟩ := splitParts_tag hr hks
  rw [parseNode]
  dsimp only
  cases hparts : tagParts ⟨head.name, head.selfClosing, head.inline, [], [], none⟩ r with
  | mk value rest bound =>
    rw [splitParts, hparts] at hsplit
    obtain ⟨rfl, rfl⟩ := Prod.mk.inj hsplit
    exact (hbody rest hr').bind fun p hw hrest => ⟨_, rfl, ⟨_, _, rfl, hw⟩, hrest⟩

theorem endsParts_below {level : Nat} {below : List Outline} {ks : List TokenKind}
    (h : below.isEmpty = true → ks.head?.any TokenKind.endsLine = true) :
    EndsParts (belowKinds level below ++ ks) := by
  cases hempty : below.isEmpty with
  | true =>
    have hks := h hempty
    rw [belowKinds_nil hempty, List.nil_append]
    cases ks with
    | nil => cases hks
    | cons k ks => exact ⟨k, ks, rfl, .inl hks⟩
  | false =>
    rw [belowKinds_cons hempty]
    exact ⟨_, _, rfl, .inr ⟨_, rfl⟩⟩

/-- What is below a line is parsed to its children if its nodes are. -/
theorem parseBody_outlines {fin : Token} {body : List Node} (h : WellFormedAll body) {level : Nat}
    {ts : List Token} {ks : List TokenKind}
    (ht : kindsOf ts = belowKinds level (outlinesOf body) ++ ks)
    (hks : (outlinesOf body).isEmpty = true → ks.head?.any TokenKind.endsLine = true)
    (hnodes : ∀ r,
      kindsOf r = kindsAll (level + 1) false (outlinesOf body) ++ TokenKind.outdent :: ks →
      Yields (parseNodes fin r) (fun ns => unmarkedAll ns = unmarkedAll body) ks) :
    Yields (parseBody fin ts) (fun ns => unmarkedAll ns = unmarkedAll body) ks := by
  cases hempty : (outlinesOf body).isEmpty with
  | true =>
    rw [belowKinds_nil hempty] at ht
    rw [outlinesOf_isEmpty h, List.isEmpty_iff] at hempty
    obtain ⟨p, hp, hw, hrest⟩ := parseBody_flat fin ht (hks (by rw [hempty]; rfl))
    exact ⟨p, hp, by rw [hw, hempty], hrest⟩
  | false =>
    rw [belowKinds_cons hempty, List.cons_append, List.append_assoc] at ht
    exact parseBody_indent ht hnodes

theorem parseIndentedReplaces_outlines {fin : Token} (rs : List (Replace (List Node)))
    {level : Nat} {ts : List Token} {ks : List TokenKind}
    (ht : kindsOf ts = belowKinds level (outlinesOfReplaces rs) ++ ks)
    (hks : (outlinesOfReplaces rs).isEmpty = true → ks.head?.any TokenKind.endsLine = true)
    (hreplaces : ∀ r, kindsOf r =
        kindsAll (level + 1) false (outlinesOfReplaces rs) ++ TokenKind.outdent :: ks →
      Yields (parseReplaces fin r) (fun qs => unmarkedReplaces qs = unmarkedReplaces rs) ks) :
    Yields (parseIndentedReplaces fin ts) (fun qs => unmarkedReplaces qs = unmarkedReplaces rs)
      ks := by
  cases rs with
  | nil =>
    obtain ⟨p, hp, hw, hrest⟩ := parseIndentedReplaces_flat fin ht (hks rfl)
    exact ⟨p, hp, by rw [hw], hrest⟩
  | cons r rs =>
    rw [belowKinds_cons rfl, List.cons_append, List.append_assoc] at ht
    exact parseIndentedReplaces_indent ht hreplaces

mutual
/-- The tokens of a node are parsed to that node. -/
theorem parseNode_outlines (fin : Token) (n : Node) (h : n.WellFormed) {level : Nat}
    {ts : List Token} {ks : List TokenKind}
    (ht : kindsOf ts = kindsAll level false n.outlines ++ ks)
    (hks : MayFollow (endsFlat false n.outlines) ks) :
    Yields (parseNode fin ts) (fun m => m.unmarked = n.unmarked) ks := by
  match n, h with
  | .doctype mark value, _ =>
    replace ht : kindsOf ts = .doctype value :: ks := ht
    obtain ⟨⟨kind, line, span⟩, r, rfl, rfl, hr⟩ := kindsOf_eq_cons ht
    rw [parseNode]
    exact ⟨_, rfl, rfl, hr⟩
  | .text mark text, _ =>
    replace ht : kindsOf ts = .text text :: ks := ht
    obtain ⟨⟨kind, line, span⟩, r, rfl, rfl, hr⟩ := kindsOf_eq_cons ht
    rw [parseNode]
    exact ⟨_, rfl, rfl, hr⟩
  | .comment mark text buffered, _ =>
    replace ht : kindsOf ts = .comment text buffered :: ks := ht
    obtain ⟨⟨kind, line, span⟩, r, rfl, rfl, hr⟩ := kindsOf_eq_cons ht
    rw [parseNode]
    exact ⟨_, rfl, rfl, hr⟩
  | .inclusion mark reference options, _ =>
    replace ht : kindsOf ts = .inclusion reference options :: ks := ht
    obtain ⟨⟨kind, line, span⟩, r, rfl, rfl, hr⟩ := kindsOf_eq_cons ht
    rw [parseNode]
    exact ⟨_, rfl, rfl, hr⟩
  | .tag mark head body, h =>
    rw [Node.outlines, kindsAll_cons] at ht
    obtain ⟨p, hp, ⟨mark', ns, hn, hw⟩, hrest⟩ :=
      parseNode_tag fin ht (endsParts_below hks.ends) fun r hr =>
        parseBody_outlines h.2 hr hks.ends fun r hr => parseNodes_outlines fin body h.2 false hr
    refine ⟨p, hp, ?_, hrest⟩
    rw [hn]
    simp only [Node.unmarked, hw]
  | .block mark name body, h =>
    rw [Node.outlines, kindsAll_cons] at ht
    obtain ⟨⟨kind, line, span⟩, r, rfl, rfl, hr⟩ := kindsOf_eq_cons ht
    rw [parseNode]
    refine (parseBody_outlines h.2 hr hks.ends fun r hr =>
      parseNodes_outlines fin body h.2 false hr).bind fun p hw hrest => ⟨_, rfl, ?_, hrest⟩
    simp only [Node.unmarked, hw]
  | .whileTrue mark expr body, h =>
    rw [Node.outlines, kindsAll_cons] at ht
    obtain ⟨⟨kind, line, span⟩, r, rfl, rfl, hr⟩ := kindsOf_eq_cons ht
    rw [parseNode]
    refine (parseBody_outlines h.2 hr hks.ends fun r hr =>
      parseNodes_outlines fin body h.2 false hr).bind fun p hw hrest => ⟨_, rfl, ?_, hrest⟩
    simp only [Node.unmarked, hw]
  | .each mark value key expr body, h =>
    rw [Node.outlines, kindsAll_cons] at ht
    obtain ⟨⟨kind, line, span⟩, r, rfl, rfl, hr⟩ := kindsOf_eq_cons ht
    rw [parseNode]
    refine (parseBody_outlines h.2 hr hks.ends fun r hr =>
      parseNodes_outlines fin body h.2 false hr).bind fun p hw hrest => ⟨_, rfl, ?_, hrest⟩
    simp only [Node.unmarked, hw]
  | .extension mark reference options replaces, h =>
    rw [Node.outlines, kindsAll_cons] at ht
    obtain ⟨⟨kind, line, span⟩, r, rfl, rfl, hr⟩ := kindsOf_eq_cons ht
    rw [parseNode]
    refine (parseIndentedReplaces_outlines replaces hr hks.ends fun r hr =>
      parseReplaces_outlines fin replaces h.2 false hr).bind fun p hw hrest => ?_
    refine (parseSiblingReplaces_none fin hrest hks.noReplace).bind fun q hq hrest => ?_
    refine ⟨_, rfl, ?_, hrest⟩
    simp only [hq, List.append_nil, Node.unmarked, hw]
  | .caseOf mark expr arms, h =>
    obtain ⟨-, hne, hone, harms⟩ := h
    have hbelow : (outlinesOfArms arms).isEmpty = false := by
      cases arms with
      | nil => exact absurd rfl hne
      | cons a as =>
        obtain ⟨expr, line, body⟩ := a
        cases expr <;> rfl
    replace ht : kindsOf ts = .caseOf expr :: .indent (2 * (level + 1)) ::
        (kindsAll (level + 1) false (outlinesOfArms arms) ++ TokenKind.outdent :: ks) := by
      rw [ht, Node.outlines, kindsAll_cons, belowKinds_cons hbelow, List.cons_append,
        List.append_assoc]
      rfl
    obtain ⟨⟨kind, line, span⟩, r, rfl, rfl, hr⟩ := kindsOf_eq_cons ht
    obtain ⟨⟨kind, line', span'⟩, r', rfl, rfl, hr'⟩ := kindsOf_eq_cons hr
    rw [parseNode]
    refine (parseArms_outlines fin arms harms false hone false hr').bind fun p hw hrest =>
      ⟨_, rfl, ?_, hrest⟩
    simp only [Node.unmarked, hw]
  | .ifElse mark [] otherwise, h => exact absurd rfl h.1
  | .ifElse mark (⟨expr, line, body⟩ :: bs) otherwise, h =>
    obtain ⟨-, ⟨-, hbody, hbs⟩, hotherwise⟩ := h
    rw [Node.outlines, outlinesOfBranches, if_pos rfl, List.cons_append, kindsAll_cons] at ht
    rw [Node.outlines, outlinesOfBranches, if_pos rfl, List.cons_append, endsFlat] at hks
    obtain ⟨⟨kind, line, span⟩, r, rfl, rfl, hr⟩ := kindsOf_eq_cons ht
    rw [parseNode]
    refine (parseBody_outlines hbody hr (ends_kindsAll hks.ends) fun r hr =>
      parseNodes_outlines fin body hbody false hr).bind fun p hw hrest => ?_
    refine (parseElse_outlines fin bs hbs _ hrest hks fun newline r hr hks =>
      parseOtherwise_outlines fin otherwise hotherwise newline hr hks).bind
      fun q hq hrest => ⟨_, rfl, ?_, hrest⟩
    simp only [Node.unmarked, unmarkedBranches, hw, hq.1, hq.2]

theorem parseNodes_outlines (fin : Token) (ns : List Node) (h : WellFormedAll ns) {level : Nat}
    (newline : Bool) {ts : List Token} {ks : List TokenKind}
    (ht : kindsOf ts = kindsAll level newline (outlinesOf ns) ++ TokenKind.outdent :: ks) :
    Yields (parseNodes fin ts) (fun ms => unmarkedAll ms = unmarkedAll ns) ks := by
  match ns, h with
  | [], _ =>
    obtain ⟨⟨kind, line, span⟩, r, rfl, rfl, hr⟩ := kindsOf_eq_cons ht
    rw [parseNodes]
    exact ⟨_, rfl, rfl, hr⟩
  | n :: ns, h =>
    obtain ⟨k, r, hk, hstart, -⟩ := h.1.kinds_start level
    rw [outlinesOf, kindsAll_append, kindsAll_newline level newline h.1.outlines_ne_nil,
      endsFlat_newline newline h.1.outlines_ne_nil, List.append_assoc, List.append_assoc] at ht
    refine yields_newline newline (fun _ _ => parseNodes_newline) ht fun r' hr' => ?_
    have hfirst := hr'
    rw [hk] at hfirst
    refine parseNodes_node hstart hfirst
      (parseNode_outlines fin n h.1 hr' (mayFollow_nodes h.2 level _ rfl ks))
      (fun r'' hr'' => parseNodes_outlines fin ns h.2 _ hr'') fun m ms hm hms => ?_
    rw [unmarkedAll, unmarkedAll, hm, hms]

theorem parseReplaces_outlines (fin : Token) (rs : List (Replace (List Node)))
    (h : WellFormedReplaces rs) {level : Nat} (newline : Bool) {ts : List Token}
    {ks : List TokenKind}
    (ht : kindsOf ts = kindsAll level newline (outlinesOfReplaces rs) ++ TokenKind.outdent :: ks) :
    Yields (parseReplaces fin ts) (fun qs => unmarkedReplaces qs = unmarkedReplaces rs) ks := by
  match rs, h with
  | [], _ =>
    obtain ⟨⟨kind, line, span⟩, r, rfl, rfl, hr⟩ := kindsOf_eq_cons ht
    rw [parseReplaces]
    exact ⟨_, rfl, rfl, hr⟩
  | ⟨position, block, place, body⟩ :: rs, h =>
    obtain ⟨-, hbody, hrs⟩ := h
    rw [outlinesOfReplaces, kindsAll_cons] at ht
    refine yields_newline newline (fun _ _ => parseReplaces_newline) ht fun ts' ht' => ?_
    obtain ⟨⟨kind, line, span⟩, r, rfl, rfl, hr⟩ := kindsOf_eq_cons ht'
    rw [parseReplaces]
    refine (parseBody_outlines hbody hr (ends_kindsAll fun _ => rfl) fun r hr =>
      parseNodes_outlines fin body hbody false hr).bind fun p hw hrest => ?_
    refine (parseReplaces_outlines fin rs hrs _ hrest).bind fun q hw' hrest => ⟨_, rfl, ?_, hrest⟩
    simp only [unmarkedReplaces, hw, hw']

theorem parseArms_outlines (fin : Token) (as : List (Arm (List Node))) (h : WellFormedArms as)
    (hasDefault : Bool)
    (hone : (as.filter (·.expr.isNone)).length + hasDefault.toNat ≤ 1) {level : Nat}
    (newline : Bool) {ts : List Token} {ks : List TokenKind}
    (ht : kindsOf ts = kindsAll level newline (outlinesOfArms as) ++ TokenKind.outdent :: ks) :
    Yields (parseArms fin hasDefault ts) (fun bs => unmarkedArms bs = unmarkedArms as) ks := by
  match as, h with
  | [], _ =>
    obtain ⟨⟨kind, line, span⟩, r, rfl, rfl, hr⟩ := kindsOf_eq_cons ht
    rw [parseArms]
    exact ⟨_, rfl, rfl, hr⟩
  | ⟨some expr, place, body⟩ :: as, h =>
    obtain ⟨-, hbody, has⟩ := h
    rw [outlinesOfArms, kindsAll_cons] at ht
    refine yields_newline newline (fun _ _ => parseArms_newline) ht fun ts' ht' => ?_
    obtain ⟨⟨kind, line, span⟩, r, rfl, rfl, hr⟩ := kindsOf_eq_cons ht'
    rw [parseArms]
    refine (parseBody_outlines hbody hr (ends_kindsAll fun _ => rfl) fun r hr =>
      parseNodes_outlines fin body hbody false hr).bind fun p hw hrest => ?_
    refine (parseArms_outlines fin as has hasDefault hone _ hrest).bind
      fun q hw' hrest => ⟨_, rfl, ?_, hrest⟩
    simp only [unmarkedArms, hw, hw']
  | ⟨none, place, body⟩ :: as, h =>
    obtain ⟨hbody, has⟩ := h
    -- this is the one default there can be
    have hcount : (as.filter (·.expr.isNone)).length = 0 ∧ hasDefault = false := by
      rw [List.filter_cons_of_pos rfl, List.length_cons] at hone
      cases hasDefault with
      | false => exact ⟨by simpa using hone, rfl⟩
      | true => simp at hone
    obtain ⟨hnone, rfl⟩ := hcount
    rw [outlinesOfArms, kindsAll_cons] at ht
    refine yields_newline newline (fun _ _ => parseArms_newline) ht fun ts' ht' => ?_
    obtain ⟨⟨kind, line, span⟩, r, rfl, rfl, hr⟩ := kindsOf_eq_cons ht'
    have hone' : (as.filter (·.expr.isNone)).length + true.toNat ≤ 1 := by
      rw [hnone]
      exact Nat.le_refl 1
    rw [parseArms]
    dsimp only
    rw [if_neg Bool.false_ne_true]
    refine (parseBody_outlines hbody hr (ends_kindsAll fun _ => rfl) fun r hr =>
      parseNodes_outlines fin body hbody false hr).bind fun p hw hrest => ?_
    refine (parseArms_outlines fin as has true hone' _ hrest).bind
      fun q hw' hrest => ⟨_, rfl, ?_, hrest⟩
    simp only [unmarkedArms, hw, hw']

theorem parseOtherwise_outlines (fin : Token) (o : Option (List Node)) (h : WellFormedOtherwise o)
    {level : Nat} (newline : Bool) {ts : List Token} {ks : List TokenKind}
    (ht : kindsOf ts = kindsAll level newline (outlinesOfOtherwise o) ++ ks)
    (hks : MayFollow (endsFlat newline (outlinesOfOtherwise o)) ks) :
    Yields (parseElse fin ts)
      (fun v => v.1 = [] ∧ unmarkedOtherwise v.2 = unmarkedOtherwise o) ks := by
  match o, h with
  | none, _ =>
    obtain ⟨v, hv, hnone, hrest⟩ := parseElse_none fin ht hks.noElse
    exact ⟨v, hv, by rw [hnone]; exact ⟨rfl, rfl⟩, hrest⟩
  | some body, h =>
    rw [outlinesOfOtherwise, kindsAll_cons] at ht
    obtain ⟨t, r, hd, hk, hr⟩ := dropWhile_newline_kindsOf rfl ht
    have hbody := parseBody_outlines h hr hks.ends fun r hr =>
      parseNodes_outlines fin body h false hr
    obtain ⟨v, hv, ⟨hnil, ns, hns, hw⟩, hrest⟩ := parseElse_otherwise hd hk hbody
    refine ⟨v, hv, ⟨hnil, ?_⟩, hrest⟩
    rw [hns, unmarkedOtherwise, unmarkedOtherwise, hw]

theorem parseElse_outlines (fin : Token) (bs : List (Branch (List Node)))
    (h : WellFormedBranches bs) {o : Option (List Node)} {level : Nat} (newline : Bool)
    {ts : List Token} {ks : List TokenKind}
    (ht : kindsOf ts =
      kindsAll level newline (outlinesOfBranches false bs ++ outlinesOfOtherwise o) ++ ks)
    (hks : MayFollow (endsFlat newline (outlinesOfBranches false bs ++ outlinesOfOtherwise o)) ks)
    (hlast : ∀ newline r, kindsOf r = kindsAll level newline (outlinesOfOtherwise o) ++ ks →
      MayFollow (endsFlat newline (outlinesOfOtherwise o)) ks →
      Yields (parseElse fin r)
        (fun v => v.1 = [] ∧ unmarkedOtherwise v.2 = unmarkedOtherwise o) ks) :
    Yields (parseElse fin ts) (fun v => unmarkedBranches v.1 = unmarkedBranches bs ∧
      unmarkedOtherwise v.2 = unmarkedOtherwise o) ks := by
  match bs, h with
  | [], _ =>
    obtain ⟨v, hv, ⟨hnil, hw⟩, hrest⟩ := hlast newline ts ht hks
    exact ⟨v, hv, ⟨by rw [hnil], hw⟩, hrest⟩
  | ⟨expr, place, body⟩ :: bs, h =>
    obtain ⟨-, hbody, hbs⟩ := h
    rw [outlinesOfBranches, if_neg Bool.false_ne_true, List.cons_append, kindsAll_cons] at ht
    rw [outlinesOfBranches, if_neg Bool.false_ne_true, List.cons_append, endsFlat] at hks
    obtain ⟨t, r, hd, hk, hr⟩ := dropWhile_newline_kindsOf rfl ht
    refine parseElse_elseIf hd hk
      (parseBody_outlines hbody hr (ends_kindsAll hks.ends) fun r hr =>
        parseNodes_outlines fin body hbody false hr)
      (fun r hr => parseElse_outlines fin bs hbs _ hr hks hlast) fun line ns v hw hv => ⟨?_, hv.2⟩
    rw [unmarkedBranches, unmarkedBranches, hw, hv.1]
end

end Stencil.Template
