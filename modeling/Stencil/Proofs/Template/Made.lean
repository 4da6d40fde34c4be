import Stencil.Proofs.Result
import Stencil.Template.Parser

/-! # What documents are made of

The parser only puts tokens together: whatever stands in a document was in a token on the line that
the document gives for it. And if it finds a fault, that is a token which stands where it must
not. -/

namespace Stencil.Template

def TokenKind.reference? : TokenKind → Option String
  | .extension reference _ => some reference
  | .inclusion reference _ => some reference
  | _ => none

def ConditionOf (ts : List Token) (expr : String) (line : Nat) : Prop :=
  ∃ span, ⟨.ifTrue expr, line, span⟩ ∈ ts ∨ ⟨.elseIf expr, line, span⟩ ∈ ts ∨
    ∃ e, expr = "!(" ++ e ++ ")" ∧ ⟨.unlessTrue e, line, span⟩ ∈ ts

structure TagHead.MadeOf (ts : List Token) (head : TagHead) : Prop where
  attrs : ∀ a ∈ head.attrs, ∃ as closing line span, a ∈ as ∧ ⟨.attrs as closing, line, span⟩ ∈ ts
  text : ∀ s, head.text = some s → ∃ line span, ⟨.text s, line, span⟩ ∈ ts

mutual
def Node.MadeOf (ts : List Token) : Node → Prop
  | .doctype mark value => ⟨.doctype value, mark.line, mark.span⟩ ∈ ts
  | .tag mark head body =>
    (∃ selfClosing, ⟨.tag head.name selfClosing head.inline, mark.line, mark.span⟩ ∈ ts) ∧
      head.MadeOf ts ∧ MadeOfAll ts body
  | .text mark text => ⟨.text text, mark.line, mark.span⟩ ∈ ts
  | .comment mark text buffered => ⟨.comment text buffered, mark.line, mark.span⟩ ∈ ts
  | .block mark name body => ⟨.block name, mark.line, mark.span⟩ ∈ ts ∧ MadeOfAll ts body
  | .extension mark reference options replaces =>
    ⟨.extension reference options, mark.line, mark.span⟩ ∈ ts ∧ MadeOfReplaces ts replaces
  | .inclusion mark reference options => ⟨.inclusion reference options, mark.line, mark.span⟩ ∈ ts
  | .caseOf mark expr arms => ⟨.caseOf expr, mark.line, mark.span⟩ ∈ ts ∧ MadeOfArms ts arms
  | .ifElse _ branches otherwise => MadeOfBranches ts branches ∧ MadeOfOtherwise ts otherwise
  | .whileTrue mark expr body => ⟨.whileTrue expr, mark.line, mark.span⟩ ∈ ts ∧ MadeOfAll ts body
  | .each mark value key expr body =>
    ⟨.each value key expr, mark.line, mark.span⟩ ∈ ts ∧ MadeOfAll ts body
def MadeOfAll (ts : List Token) : List Node → Prop
  | [] => True
  | n :: ns => n.MadeOf ts ∧ MadeOfAll ts ns
def MadeOfReplaces (ts : List Token) : List (Replace (List Node)) → Prop
  | [] => True
  | ⟨position, block, line, body⟩ :: rs =>
    (∃ span, ⟨.replace position block, line, span⟩ ∈ ts) ∧ MadeOfAll ts body ∧ MadeOfReplaces ts rs
def MadeOfArms (ts : List Token) : List (Arm (List Node)) → Prop
  | [] => True
  | ⟨expr, line, body⟩ :: as =>
    (∀ e, expr = some e → ∃ span, ⟨.when e, line, span⟩ ∈ ts) ∧ MadeOfAll ts body ∧ MadeOfArms ts as
def MadeOfBranches (ts : List Token) : List (Branch (List Node)) → Prop
  | [] => True
  | ⟨expr, line, body⟩ :: bs =>
    ConditionOf ts expr line ∧ MadeOfAll ts body ∧ MadeOfBranches ts bs
def MadeOfOtherwise (ts : List Token) : Option (List Node) → Prop
  | none => True
  | some body => MadeOfAll ts body
end

theorem madeOfReplaces_append {ts : List Token} {rs qs : List (Replace (List Node))}
    (hrs : MadeOfReplaces ts rs) (hqs : MadeOfReplaces ts qs) : MadeOfReplaces ts (rs ++ qs) := by
  induction rs with
  | nil => exact hqs
  | cons r rs ih => exact ⟨hrs.1, hrs.2.1, ih hrs.2.2⟩

/-! ## The parser -/

section

variable {ts : List Token}

/-- A fault of the parser: one of the tokens, or the end, stands where something else is
expected. -/
def Misplaced (ts : List Token) (fin : Token) (e : Diagnostic) : Prop :=
  ∃ t expected, (t ∈ ts ∨ t = fin) ∧ e = unexpected t expected

/-- A reading of something made of the tokens, of which it leaves some. -/
abbrev Makes {α : Type} {n : Nat} (ts : List Token) (fin : Token) (good : α → Prop)
    (r : Result (Parsed α n)) : Prop :=
  Ensures (Misplaced ts fin) (fun p => good p.value ∧ p.rest ⊆ ts) r

variable {fin : Token}

theorem misplaced_of_mem {t : Token} (h : t ∈ ts) (expected : String) :
    Misplaced ts fin (unexpected t expected) :=
  ⟨t, expected, .inl h, rfl⟩

theorem misplaced_end (expected : String) : Misplaced ts fin (unexpected fin expected) :=
  ⟨fin, expected, .inr rfl, rfl⟩

theorem misplaced_next {us : List Token} (h : us ⊆ ts) (expected : String) :
    Misplaced ts fin (unexpectedNext fin us expected) := by
  cases us with
  | nil => exact misplaced_end expected
  | cons u us => exact misplaced_of_mem (h (List.mem_cons_self ..)) expected

theorem mem_of_kind {t : Token} {kind : TokenKind} (ht : t ∈ ts) (hk : t.kind = kind) :
    ⟨kind, t.line, t.span⟩ ∈ ts := by
  rw [← hk]
  exact ht

theorem madeOf_tagParts {head : TagHead} (hh : head.MadeOf ts) {us : List Token} (h : us ⊆ ts) :
    (tagParts head us).value.MadeOf ts ∧ (tagParts head us).rest ⊆ ts ∧
      (tagParts head us).value.name = head.name ∧
      (tagParts head us).value.inline = head.inline := by
  induction us generalizing head with
  | nil => exact ⟨hh, h, rfl, rfl⟩
  | cons t us ih =>
    obtain ⟨ht, hus⟩ := List.cons_subset.1 h
    rw [tagParts]
    split
    · exact ih ⟨hh.attrs, hh.text⟩ hus
    · next attrs closing hk =>
      refine ih ⟨?_, hh.text⟩ hus
      intro a ha
      rcases List.mem_append.1 ha with ha | ha
      · exact hh.attrs a ha
      · exact ⟨attrs, closing, t.line, t.span, ha, mem_of_kind ht hk⟩
    · next text hk =>
      refine ⟨⟨hh.attrs, ?_⟩, hus, rfl, rfl⟩
      intro s hs
      obtain rfl := Option.some.inj hs
      exact ⟨t.line, t.span, mem_of_kind ht hk⟩
    · exact ⟨hh, h, rfl, rfl⟩

mutual
theorem makes_parseNode {us : List Token} (h : us ⊆ ts) :
    Makes ts fin (Node.MadeOf ts) (parseNode fin us) := by
  cases us with
  | nil =>
    rw [parseNode]
    exact misplaced_end _
  | cons t r =>
    obtain ⟨ht, hr⟩ := List.cons_subset.1 h
    rw [parseNode]
    dsimp only
    split
    · next hk => exact ⟨mem_of_kind ht hk, hr⟩
    · next hk => exact ⟨mem_of_kind ht hk, hr⟩
    · next hk => exact ⟨mem_of_kind ht hk, hr⟩
    · next hk => exact ⟨mem_of_kind ht hk, hr⟩
    · next name selfClosing inline hk =>
      have hempty : TagHead.MadeOf ts ⟨name, selfClosing, inline, [], [], none⟩ := ⟨nofun, nofun⟩
      obtain ⟨hhead, hbody, hname, hinline⟩ := madeOf_tagParts hempty hr
      have := (tagParts ⟨name, selfClosing, inline, [], [], none⟩ r).bound
      refine Ensures.bind (makes_parseBody hbody) ?_
      intro p hp
      refine ⟨⟨⟨selfClosing, ?_⟩, hhead, hp.1⟩, hp.2⟩
      rw [hname, hinline]
      exact mem_of_kind ht hk
    · next hk =>
      exact Ensures.bind (makes_parseBody hr) fun p hp => ⟨⟨mem_of_kind ht hk, hp.1⟩, hp.2⟩
    · next hk =>
      exact Ensures.bind (makes_parseBody hr) fun p hp => ⟨⟨mem_of_kind ht hk, hp.1⟩, hp.2⟩
    · next hk =>
      exact Ensures.bind (makes_parseBody hr) fun p hp => ⟨⟨mem_of_kind ht hk, hp.1⟩, hp.2⟩
    · next hk =>
      refine Ensures.bind (makes_parseIndentedReplaces hr) ?_
      intro p hp
      have := p.bound
      refine Ensures.bind (makes_parseSiblingReplaces hp.2) ?_
      intro q hq
      exact ⟨⟨mem_of_kind ht hk, madeOfReplaces_append hp.1 hq.1⟩, hq.2⟩
    · next hk =>
      split
      · next r' =>
        refine Ensures.bind (makes_parseArms false (List.cons_subset.1 hr).2) ?_
        intro p hp
        exact ⟨⟨mem_of_kind ht hk, hp.1⟩, hp.2⟩
      · exact misplaced_next hr _
    · next hk =>
      refine Ensures.bind (makes_parseBody hr) ?_
      intro p hp
      have := p.bound
      refine Ensures.bind (makes_parseElse hp.2) ?_
      intro q hq
      exact ⟨⟨⟨⟨t.span, .inl (mem_of_kind ht hk)⟩, hp.1, hq.1.1⟩, hq.1.2⟩, hq.2⟩
    · next expr hk =>
      refine Ensures.bind (makes_parseBody hr) ?_
      intro p hp
      have := p.bound
      refine Ensures.bind (makes_parseElse hp.2) ?_
      intro q hq
      have hcondition : ConditionOf ts ("!(" ++ expr ++ ")") t.line :=
        ⟨t.span, .inr (.inr ⟨expr, rfl, mem_of_kind ht hk⟩)⟩
      exact ⟨⟨⟨hcondition, hp.1, hq.1.1⟩, hq.1.2⟩, hq.2⟩
    · exact misplaced_of_mem ht _
termination_by 2 * us.length
decreasing_by all_goals subst_vars; simp only [List.length_cons]; omega

theorem makes_parseBody {us : List Token} (h : us ⊆ ts) :
    Makes ts fin (MadeOfAll ts) (parseBody fin us) := by
  unfold parseBody
  split
  · next r => exact Ensures.bind (makes_parseNodes (List.cons_subset.1 h).2) fun p hp => hp
  · exact ⟨trivial, h⟩
termination_by 2 * us.length
decreasing_by all_goals subst_vars; simp only [List.length_cons]; omega

theorem makes_parseNodes {us : List Token} (h : us ⊆ ts) :
    Makes ts fin (MadeOfAll ts) (parseNodes fin us) := by
  cases us with
  | nil =>
    rw [parseNodes]
    exact ⟨trivial, h⟩
  | cons t r =>
    obtain ⟨ht, hr⟩ := List.cons_subset.1 h
    rw [parseNodes]
    split
    · exact Ensures.bind (makes_parseNodes hr) fun p hp => hp
    · exact ⟨trivial, hr⟩
    · exact ⟨trivial, h⟩
    · refine Ensures.bind (makes_parseNode h) ?_
      intro p hp
      have : p.rest.length < r.length + 1 := p.bound
      refine Ensures.bind (makes_parseNodes hp.2) ?_
      intro q hq
      exact ⟨⟨hp.1, hq.1⟩, hq.2⟩
termination_by 2 * us.length + 1
decreasing_by all_goals subst_vars; simp only [List.length_cons]; omega

theorem makes_parseIndentedReplaces {us : List Token} (h : us ⊆ ts) :
    Makes ts fin (MadeOfReplaces ts) (parseIndentedReplaces fin us) := by
  unfold parseIndentedReplaces
  split
  · next r => exact Ensures.bind (makes_parseReplaces (List.cons_subset.1 h).2) fun p hp => hp
  · exact ⟨trivial, h⟩
termination_by 2 * us.length
decreasing_by all_goals subst_vars; simp only [List.length_cons]; omega

theorem makes_parseReplaces {us : List Token} (h : us ⊆ ts) :
    Makes ts fin (MadeOfReplaces ts) (parseReplaces fin us) := by
  cases us with
  | nil =>
    rw [parseReplaces]
    exact misplaced_end _
  | cons t r =>
    obtain ⟨ht, hr⟩ := List.cons_subset.1 h
    rw [parseReplaces]
    split
    · exact Ensures.bind (makes_parseReplaces hr) fun p hp => hp
    · exact Ensures.bind (makes_parseReplaces hr) fun p hp => hp
    · exact ⟨trivial, hr⟩
    · next hk =>
      refine Ensures.bind (makes_parseBody hr) ?_
      intro p hp
      have := p.bound
      refine Ensures.bind (makes_parseReplaces hp.2) ?_
      intro q hq
      exact ⟨⟨⟨t.span, mem_of_kind ht hk⟩, hp.1, hq.1⟩, hq.2⟩
    · exact misplaced_of_mem ht _
termination_by 2 * us.length
decreasing_by all_goals subst_vars; simp only [List.length_cons]; omega

theorem makes_parseSiblingReplaces {us : List Token} (h : us ⊆ ts) :
    Makes ts fin (MadeOfReplaces ts) (parseSiblingReplaces fin us) := by
  rw [parseSiblingReplaces]
  split
  · next position block line span r hd =>
    have hlen := length_lt_of_dropWhile hd
    obtain ⟨ht, hr⟩ :=
      List.cons_subset.1 (hd ▸ List.Subset.trans (List.dropWhile_sublist _).subset h)
    refine Ensures.bind (makes_parseBody hr) ?_
    intro p hp
    have := p.bound
    refine Ensures.bind (makes_parseSiblingReplaces hp.2) ?_
    intro q hq
    exact ⟨⟨⟨span, ht⟩, hp.1, hq.1⟩, hq.2⟩
  · exact ⟨trivial, h⟩
termination_by 2 * us.length
decreasing_by all_goals omega

theorem makes_parseArms (hasDefault : Bool) {us : List Token} (h : us ⊆ ts) :
    Makes ts fin (MadeOfArms ts) (parseArms fin hasDefault us) := by
  cases us with
  | nil =>
    rw [parseArms]
    exact misplaced_end _
  | cons t r =>
    obtain ⟨ht, hr⟩ := List.cons_subset.1 h
    rw [parseArms]
    split
    · exact Ensures.bind (makes_parseArms hasDefault hr) fun p hp => hp
    · exact Ensures.bind (makes_parseArms hasDefault hr) fun p hp => hp
    · exact ⟨trivial, hr⟩
    · next expr hk =>
      refine Ensures.bind (makes_parseBody hr) ?_
      intro p hp
      have := p.bound
      refine Ensures.bind (makes_parseArms hasDefault hp.2) ?_
      intro q hq
      refine ⟨⟨?_, hp.1, hq.1⟩, hq.2⟩
      intro e he
      obtain rfl := Option.some.inj he
      exact ⟨t.span, mem_of_kind ht hk⟩
    · split
      · exact misplaced_of_mem ht _
      · refine Ensures.bind (makes_parseBody hr) ?_
        intro p hp
        have := p.bound
        refine Ensures.bind (makes_parseArms true hp.2) ?_
        intro q hq
        exact ⟨⟨nofun, hp.1, hq.1⟩, hq.2⟩
    · exact misplaced_of_mem ht _
termination_by 2 * us.length
decreasing_by all_goals subst_vars; simp only [List.length_cons]; omega

theorem makes_parseElse {us : List Token} (h : us ⊆ ts) :
    Makes ts fin (fun x => MadeOfBranches ts x.1 ∧ MadeOfOtherwise ts x.2) (parseElse fin us) := by
  rw [parseElse]
  split
  · next t r hd =>
    have hlen := length_lt_of_dropWhile hd
    obtain ⟨ht, hr⟩ :=
      List.cons_subset.1 (hd ▸ List.Subset.trans (List.dropWhile_sublist _).subset h)
    split
    · next expr hk =>
      refine Ensures.bind (makes_parseBody hr) ?_
      intro p hp
      have := p.bound
      refine Ensures.bind (makes_parseElse hp.2) ?_
      intro q hq
      exact ⟨⟨⟨⟨t.span, .inr (.inl (mem_of_kind ht hk))⟩, hp.1, hq.1.1⟩, hq.1.2⟩, hq.2⟩
    · exact Ensures.bind (makes_parseBody hr) fun p hp => ⟨⟨trivial, hp.1⟩, hp.2⟩
    · exact ⟨⟨trivial, trivial⟩, h⟩
  · exact ⟨⟨trivial, trivial⟩, h⟩
termination_by 2 * us.length
decreasing_by all_goals omega
end

theorem makes_parseAll {us : List Token} (h : us ⊆ ts) :
    Ensures (Misplaced ts fin) (MadeOfAll ts) (parseAll fin us) := by
  fun_induction parseAll fin us with
  | case1 => exact trivial
  | case2 t r hk ih => exact ih (List.cons_subset.1 h).2
  | case3 => exact trivial
  | case4 t r e he =>
    have hnode : Makes ts fin (Node.MadeOf ts) (parseNode fin (t :: r)) := makes_parseNode h
    rw [he] at hnode
    exact hnode
  | case5 t r p hp hlen _ _ ih =>
    have hnode : Makes ts fin (Node.MadeOf ts) (parseNode fin (t :: r)) := makes_parseNode h
    rw [hp] at hnode
    exact Ensures.map (ih hnode.2) fun ns hns => ⟨hnode.1, hns⟩

end

theorem madeOf_of_parse {source : String} {name : Option String} {d : Document}
    (h : parse source name = .ok d) :
    ∃ ts, tokenize source = .ok ts ∧ MadeOfAll ts d.nodes := by
  unfold parse at h
  split at h
  · cases h
  · next ts ht =>
    have hnodes : Ensures (Misplaced ts (endToken ts)) (MadeOfAll ts) (parseAll (endToken ts) ts) :=
      makes_parseAll (List.Subset.refl ts)
    unfold parseTokens at h
    split at h
    · cases h
    · next ns hn =>
      rw [hn] at hnodes
      obtain rfl := Except.ok.inj h
      exact ⟨ts, ht, hnodes⟩

theorem inFile_none (e : Diagnostic) : e.inFile none = e := by
  rw [Diagnostic.inFile, Option.or_none]

/-- Why a text is no document: it has no tokens, or one of them is misplaced. The name of the file
is put to that. -/
theorem parse_eq_error {source : String} {name : Option String} {e : Diagnostic}
    (h : parse source name = .error e) :
    ∃ x, e = x.inFile name ∧ parse source none = .error x ∧ (tokenize source = .error x ∨
      ∃ ts, tokenize source = .ok ts ∧ Misplaced ts (endToken ts) x) := by
  unfold parse at h ⊢
  split at h
  · next x ht =>
    obtain rfl := Except.error.inj h
    refine ⟨x, rfl, ?_, .inl ht⟩
    rw [inFile_none]
  · next ts ht =>
    have hnodes : Ensures (Misplaced ts (endToken ts)) (MadeOfAll ts) (parseAll (endToken ts) ts) :=
      makes_parseAll (List.Subset.refl ts)
    unfold parseTokens at h ⊢
    split at h
    · next x hn =>
      rw [hn] at hnodes
      obtain rfl := Except.error.inj h
      refine ⟨x, rfl, ?_, .inr ⟨ts, ht, hnodes⟩⟩
      rw [inFile_none]
    · cases h

/-! ## Blocks -/

mutual
theorem blocks_madeOf {ts : List Token} : {n : Node} → n.MadeOf ts →
    ∀ b ∈ n.blocks, ∃ span, ⟨.block b.1, b.2, span⟩ ∈ ts
  | .doctype _ _, _ => nofun
  | .tag _ _ _, h => blocksOf_madeOf h.2.2
  | .text _ _, _ => nofun
  | .comment _ _ _, _ => nofun
  | .block mark _ _, h => List.forall_mem_cons.2 ⟨⟨mark.span, h.1⟩, blocksOf_madeOf h.2⟩
  | .extension _ _ _ _, h => blocksOfReplaces_madeOf h.2
  | .inclusion _ _ _, _ => nofun
  | .caseOf _ _ _, h => blocksOfArms_madeOf h.2
  | .ifElse _ _ _, h => List.forall_mem_append.2
      ⟨blocksOfBranches_madeOf h.1, blocksOfOtherwise_madeOf h.2⟩
  | .whileTrue _ _ _, h => blocksOf_madeOf h.2
  | .each _ _ _ _ _, h => blocksOf_madeOf h.2
theorem blocksOf_madeOf {ts : List Token} : {ns : List Node} → MadeOfAll ts ns →
    ∀ b ∈ blocksOf ns, ∃ span, ⟨.block b.1, b.2, span⟩ ∈ ts
  | [], _ => nofun
  | _ :: _, h => List.forall_mem_append.2 ⟨blocks_madeOf h.1, blocksOf_madeOf h.2⟩
theorem blocksOfReplaces_madeOf {ts : List Token} : {rs : List (Replace (List Node))} →
    MadeOfReplaces ts rs → ∀ b ∈ blocksOfReplaces rs, ∃ span, ⟨.block b.1, b.2, span⟩ ∈ ts
  | [], _ => nofun
  | ⟨_, _, _, _⟩ :: _, h =>
    List.forall_mem_append.2 ⟨blocksOf_madeOf h.2.1, blocksOfReplaces_madeOf h.2.2⟩
theorem blocksOfArms_madeOf {ts : List Token} : {as : List (Arm (List Node))} →
    MadeOfArms ts as → ∀ b ∈ blocksOfArms as, ∃ span, ⟨.block b.1, b.2, span⟩ ∈ ts
  | [], _ => nofun
  | ⟨_, _, _⟩ :: _, h =>
    List.forall_mem_append.2 ⟨blocksOf_madeOf h.2.1, blocksOfArms_madeOf h.2.2⟩
theorem blocksOfBranches_madeOf {ts : List Token} : {bs : List (Branch (List Node))} →
    MadeOfBranches ts bs → ∀ b ∈ blocksOfBranches bs, ∃ span, ⟨.block b.1, b.2, span⟩ ∈ ts
  | [], _ => nofun
  | ⟨_, _, _⟩ :: _, h =>
    List.forall_mem_append.2 ⟨blocksOf_madeOf h.2.1, blocksOfBranches_madeOf h.2.2⟩
theorem blocksOfOtherwise_madeOf {ts : List Token} : {o : Option (List Node)} →
    MadeOfOtherwise ts o → ∀ b ∈ blocksOfOtherwise o, ∃ span, ⟨.block b.1, b.2, span⟩ ∈ ts
  | none, _ => nofun
  | some _, h => blocksOf_madeOf h
end

end Stencil.Template
