import Stencil.Proofs.Template.Conserved

/-! # Tags of documents

The tags of a document are those of its tokens, in their order. Each has the classes, the attributes
and the text that follow it, and closes itself if one of these says so. -/

namespace Stencil.Template

mutual
def Node.tags : Node → List (Mark × TagHead)
  | .doctype _ _ => []
  | .tag mark head body => (mark, head) :: tagsOf body
  | .text _ _ => []
  | .comment _ _ _ => []
  | .block _ _ body => tagsOf body
  | .extension _ _ _ replaces => tagsOfReplaces replaces
  | .inclusion _ _ _ => []
  | .caseOf _ _ arms => tagsOfArms arms
  | .ifElse _ branches otherwise => tagsOfBranches branches ++ tagsOfOtherwise otherwise
  | .whileTrue _ _ body => tagsOf body
  | .each _ _ _ _ body => tagsOf body
def tagsOf : List Node → List (Mark × TagHead)
  | [] => []
  | n :: ns => n.tags ++ tagsOf ns
def tagsOfReplaces : List (Replace (List Node)) → List (Mark × TagHead)
  | [] => []
  | ⟨_, _, _, body⟩ :: rs => tagsOf body ++ tagsOfReplaces rs
def tagsOfArms : List (Arm (List Node)) → List (Mark × TagHead)
  | [] => []
  | ⟨_, _, body⟩ :: as => tagsOf body ++ tagsOfArms as
def tagsOfBranches : List (Branch (List Node)) → List (Mark × TagHead)
  | [] => []
  | ⟨_, _, body⟩ :: bs => tagsOf body ++ tagsOfBranches bs
def tagsOfOtherwise : Option (List Node) → List (Mark × TagHead)
  | none => []
  | some body => tagsOf body
end

def Document.tags (d : Document) : List (Mark × TagHead) :=
  tagsOf d.nodes

def Token.tag? (t : Token) (ts : List Token) : Option (Mark × TagHead) :=
  match t.kind with
  | .tag name selfClosing inline =>
    some (⟨t.line, t.span⟩, (TagHead.take ⟨name, selfClosing, inline, [], [], none⟩ ts).1)
  | _ => none

def tagged : List Token → List (Mark × TagHead)
  | [] => []
  | t :: ts => (t.tag? ts).toList ++ tagged ts

def TokenKind.isTag : TokenKind → Bool
  | .tag _ _ _ => true
  | _ => false

section

variable {t : Token} {ts : List Token}

theorem tag?_eq_none (h : t.kind.isTag = false) : t.tag? ts = none := by
  unfold Token.tag?
  split
  · next hk =>
    rw [hk] at h
    cases h
  · rfl

theorem map_mark_tag? (t : Token) (ts : List Token) :
    (t.tag? ts).toList.map Prod.fst = if t.kind.isTag then [⟨t.line, t.span⟩] else [] := by
  obtain ⟨kind, line, span⟩ := t
  cases kind <;> rfl

theorem tagged_cons (h : t.kind.isTag = false) : tagged (t :: ts) = tagged ts := by
  rw [tagged, tag?_eq_none h]
  rfl

theorem map_mark_tagged (ts : List Token) :
    (tagged ts).map Prod.fst = (ts.filter (·.kind.isTag)).map fun t => ⟨t.line, t.span⟩ := by
  induction ts with
  | nil => rfl
  | cons t ts ih =>
    rw [tagged, List.map_append, map_mark_tag?, ih, List.filter_cons]
    split
    · rfl
    · rfl

theorem tagged_append {us : List Token} (h : ∀ u ∈ us, u.kind.isTag = false) (ts : List Token) :
    tagged (us ++ ts) = tagged ts := by
  induction us with
  | nil => rfl
  | cons u us ih =>
    obtain ⟨hu, hus⟩ := List.forall_mem_cons.1 h
    rw [List.cons_append, tagged_cons hu, ih hus]

theorem tagged_dropWhile {p : Token → Bool} (hp : ∀ t, p t = true → t.kind.isTag = false)
    (ts : List Token) : tagged (ts.dropWhile p) = tagged ts := by
  induction ts with
  | nil => rfl
  | cons t ts ih =>
    rw [List.dropWhile_cons]
    split
    · next hpt => rw [ih, tagged_cons (hp t hpt)]
    · rfl

theorem isTag_of_isNewline {k : TokenKind} (h : k.isNewline = true) : k.isTag = false := by
  cases k <;> first | rfl | cases h

theorem isTag_of_isFiller {k : TokenKind} (h : k.isFiller = true) : k.isTag = false := by
  cases k <;> first | rfl | cases h

theorem isTag_of_isDetail {k : TokenKind} (h : k.isDetail = true) : k.isTag = false := by
  cases k <;> first | rfl | cases h

/-- What a tag takes with it has no tag. -/
theorem tagged_take (head : TagHead) (ts : List Token) : tagged (head.take ts).2 = tagged ts := by
  rw [← tagged_dropWhile (p := fun t => t.kind.isDetail) (fun _ => isTag_of_isDetail) ts]
  simp only [TagHead.take, splitText]
  split
  · next hd =>
    rw [hd]
    exact (tagged_cons rfl).symm
  · rfl

end

/-! ## Parsing -/

theorem tagsOfReplaces_append (rs qs : List (Replace (List Node))) :
    tagsOfReplaces (rs ++ qs) = tagsOfReplaces rs ++ tagsOfReplaces qs := by
  induction rs with
  | nil => rfl
  | cons r rs ih =>
    rw [List.cons_append, tagsOfReplaces, tagsOfReplaces, ih, List.append_assoc]

/-- What is parsed, if anything is, has the tags of the tokens that it takes. -/
abbrev Takes {α : Type} {n : Nat} (tags : α → List (Mark × TagHead)) (ts : List Token) :
    Result (Parsed α n) → Prop :=
  Ensures (fun _ => True) fun p => tagged ts = tags p.value ++ tagged p.rest

section

variable (fin : Token)

mutual
theorem takes_parseNode (ts : List Token) : Takes Node.tags ts (parseNode fin ts) := by
  cases ts with
  | nil =>
    rw [parseNode]
    exact trivial
  | cons t r =>
    obtain ⟨kind, line, span⟩ := t
    rw [parseNode]
    cases kind with
    | tag name selfClosing inline =>
      have hsplit := splitParts_eq ⟨name, selfClosing, inline, [], [], none⟩ r
      have hhead := congrArg Prod.fst hsplit
      have hrest := congrArg Prod.snd hsplit
      dsimp only [splitParts] at hhead hrest
      have := (tagParts ⟨name, selfClosing, inline, [], [], none⟩ r).bound
      refine Ensures.bind (takes_parseBody _) ?_
      intro p hp
      have hbody : tagged r = tagsOf p.value ++ tagged p.rest := by
        rw [← hp, hrest, tagged_take]
      dsimp only [Ensures, pure, Except.pure, tagged]
      rw [hhead, hbody]
      rfl
    | block name => exact Ensures.bind (takes_parseBody r) fun p hp => hp
    | whileTrue expr => exact Ensures.bind (takes_parseBody r) fun p hp => hp
    | each value key expr => exact Ensures.bind (takes_parseBody r) fun p hp => hp
    | extension reference options =>
      refine Ensures.bind (takes_parseIndentedReplaces r) ?_
      intro p hp
      have := p.bound
      refine Ensures.bind (takes_parseSiblingReplaces p.rest) ?_
      intro q hq
      dsimp only [Ensures, pure, Except.pure]
      rw [tagged_cons rfl, hp, hq]
      simp only [Node.tags, tagsOfReplaces_append, List.append_assoc]
    | caseOf expr =>
      dsimp only
      split
      · exact Ensures.bind (takes_parseArms false _) fun p hp => hp
      · exact trivial
    | ifTrue expr =>
      refine Ensures.bind (takes_parseBody r) ?_
      intro p hp
      have := p.bound
      refine Ensures.bind (takes_parseElse p.rest) ?_
      intro q hq
      dsimp only [Ensures, pure, Except.pure]
      rw [tagged_cons rfl, hp, hq]
      simp only [Node.tags, tagsOfBranches, List.append_assoc]
    | unlessTrue expr =>
      refine Ensures.bind (takes_parseBody r) ?_
      intro p hp
      have := p.bound
      refine Ensures.bind (takes_parseElse p.rest) ?_
      intro q hq
      dsimp only [Ensures, pure, Except.pure]
      rw [tagged_cons rfl, hp, hq]
      simp only [Node.tags, tagsOfBranches, List.append_assoc]
    | _ => first | exact trivial | exact tagged_cons rfl
termination_by 2 * ts.length
decreasing_by all_goals subst_vars; simp only [List.length_cons]; omega

theorem takes_parseBody (ts : List Token) : Takes tagsOf ts (parseBody fin ts) := by
  unfold parseBody
  split
  · exact Ensures.bind (takes_parseNodes _) fun p hp => hp
  · exact rfl
termination_by 2 * ts.length
decreasing_by all_goals subst_vars; simp only [List.length_cons]; omega

theorem takes_parseNodes (ts : List Token) : Takes tagsOf ts (parseNodes fin ts) := by
  cases ts with
  | nil =>
    rw [parseNodes]
    exact rfl
  | cons t r =>
    rw [parseNodes]
    split
    · next hk =>
      refine Ensures.bind (takes_parseNodes r) ?_
      intro p hp
      dsimp only [Ensures, pure, Except.pure]
      rw [tagged_cons (by rw [hk]; rfl), hp]
    · next hk => exact tagged_cons (by rw [hk]; rfl)
    · exact rfl
    · refine Ensures.bind (takes_parseNode (t :: r)) ?_
      intro p hp
      have : p.rest.length < r.length + 1 := p.bound
      refine Ensures.bind (takes_parseNodes p.rest) ?_
      intro q hq
      dsimp only [Ensures, pure, Except.pure]
      rw [hp, hq, tagsOf, List.append_assoc]
termination_by 2 * ts.length + 1
decreasing_by all_goals subst_vars; simp only [List.length_cons]; omega

theorem takes_parseIndentedReplaces (ts : List Token) :
    Takes tagsOfReplaces ts (parseIndentedReplaces fin ts) := by
  unfold parseIndentedReplaces
  split
  · exact Ensures.bind (takes_parseReplaces _) fun p hp => hp
  · exact rfl
termination_by 2 * ts.length
decreasing_by all_goals subst_vars; simp only [List.length_cons]; omega

theorem takes_parseReplaces (ts : List Token) :
    Takes tagsOfReplaces ts (parseReplaces fin ts) := by
  cases ts with
  | nil =>
    rw [parseReplaces]
    exact trivial
  | cons t r =>
    obtain ⟨kind, line, span⟩ := t
    rw [parseReplaces]
    cases kind with
    | newline => exact Ensures.bind (takes_parseReplaces r) fun p hp => hp
    | comment s buffered => exact Ensures.bind (takes_parseReplaces r) fun p hp => hp
    | outdent => exact tagged_cons rfl
    | replace position block =>
      refine Ensures.bind (takes_parseBody r) ?_
      intro p hp
      have := p.bound
      refine Ensures.bind (takes_parseReplaces p.rest) ?_
      intro q hq
      dsimp only [Ensures, pure, Except.pure]
      rw [tagged_cons rfl, hp, hq, tagsOfReplaces, List.append_assoc]
    | _ => exact trivial
termination_by 2 * ts.length
decreasing_by all_goals subst_vars; simp only [List.length_cons]; omega

theorem takes_parseSiblingReplaces (ts : List Token) :
    Takes tagsOfReplaces ts (parseSiblingReplaces fin ts) := by
  rw [parseSiblingReplaces]
  split
  · next position block line span r hd =>
    have hlen := length_lt_of_dropWhile hd
    have hnext : tagged (⟨.replace position block, line, span⟩ :: r) = tagged ts := by
      rw [← hd, tagged_dropWhile fun _ => isTag_of_isFiller]
    refine Ensures.bind (takes_parseBody r) ?_
    intro p hp
    have := p.bound
    refine Ensures.bind (takes_parseSiblingReplaces p.rest) ?_
    intro q hq
    dsimp only [Ensures, pure, Except.pure]
    rw [← hnext, tagged_cons rfl, hp, hq, tagsOfReplaces, List.append_assoc]
  · exact rfl
termination_by 2 * ts.length
decreasing_by all_goals omega

theorem takes_parseArms (hasDefault : Bool) (ts : List Token) :
    Takes tagsOfArms ts (parseArms fin hasDefault ts) := by
  cases ts with
  | nil =>
    rw [parseArms]
    exact trivial
  | cons t r =>
    obtain ⟨kind, line, span⟩ := t
    rw [parseArms]
    cases kind with
    | newline => exact Ensures.bind (takes_parseArms hasDefault r) fun p hp => hp
    | comment s buffered => exact Ensures.bind (takes_parseArms hasDefault r) fun p hp => hp
    | outdent => exact tagged_cons rfl
    | when expr =>
      refine Ensures.bind (takes_parseBody r) ?_
      intro p hp
      have := p.bound
      refine Ensures.bind (takes_parseArms hasDefault p.rest) ?_
      intro q hq
      dsimp only [Ensures, pure, Except.pure]
      rw [tagged_cons rfl, hp, hq, tagsOfArms, List.append_assoc]
    | default =>
      dsimp only
      split
      · exact trivial
      · refine Ensures.bind (takes_parseBody r) ?_
        intro p hp
        have := p.bound
        refine Ensures.bind (takes_parseArms true p.rest) ?_
        intro q hq
        dsimp only [Ensures, pure, Except.pure]
        rw [tagged_cons rfl, hp, hq, tagsOfArms, List.append_assoc]
    | _ => exact trivial
termination_by 2 * ts.length
decreasing_by all_goals subst_vars; simp only [List.length_cons]; omega

theorem takes_parseElse (ts : List Token) :
    Takes (fun x => tagsOfBranches x.1 ++ tagsOfOtherwise x.2) ts (parseElse fin ts) := by
  rw [parseElse]
  split
  · next t r hd =>
    have hlen := length_lt_of_dropWhile hd
    obtain ⟨kind, line, span⟩ := t
    have hnext : tagged (⟨kind, line, span⟩ :: r) = tagged ts := by
      rw [← hd, tagged_dropWhile fun _ => isTag_of_isNewline]
    cases kind with
    | elseIf expr =>
      refine Ensures.bind (takes_parseBody r) ?_
      intro p hp
      have := p.bound
      refine Ensures.bind (takes_parseElse p.rest) ?_
      intro q hq
      dsimp only [Ensures, pure, Except.pure]
      rw [← hnext, tagged_cons rfl, hp, hq]
      simp only [tagsOfBranches, List.append_assoc]
    | otherwise =>
      refine Ensures.bind (takes_parseBody r) ?_
      intro p hp
      dsimp only [Ensures, pure, Except.pure]
      rw [← hnext, tagged_cons rfl, hp]
      rfl
    | _ => exact rfl
  · exact rfl
termination_by 2 * ts.length
decreasing_by all_goals omega
end

theorem takes_parseAll {ts : List Token} (h : Nests [] ts) :
    Ensures (fun _ => True) (fun nodes => tagged ts = tagsOf nodes) (parseAll fin ts) := by
  fun_induction parseAll fin ts with
  | case1 => exact rfl
  | case2 t r hk ih =>
    have hr : Nests [] r := by simpa only [openLevels, hk] using h.tail (by simp [hk])
    refine (ih hr).imp fun nodes hnodes => ?_
    rw [tagged_cons (by rw [hk]; rfl), hnodes]
  | case3 t r hk =>
    obtain rfl := h.rest_of_eos hk
    exact tagged_cons (by rw [hk]; rfl)
  | case4 => exact trivial
  | case5 t r p hp _ _ _ ih =>
    have hnests := conserves_parseNode fin h
    have hnode := takes_parseNode fin (t :: r)
    rw [hp] at hnests hnode
    refine Ensures.map (ih hnests.1) fun nodes hnodes => ?_
    rw [hnode, hnodes]
    rfl

end

theorem tags_of_parse {source : String} {filename : Option String} {d : Document}
    (h : parse source filename = .ok d) : ∃ ts, tokenize source = .ok ts ∧ d.tags = tagged ts := by
  unfold parse at h
  split at h
  · cases h
  · next ts ht =>
    have hnests : Nests [] ts := nests_readLines (l := ⟨[], none⟩) List.Pairwise.nil ht
    have hnodes := takes_parseAll (endToken ts) hnests
    unfold parseTokens at h
    split at h
    · cases h
    · next nodes hn =>
      rw [hn] at hnodes
      obtain rfl := Except.ok.inj h
      exact ⟨ts, ht, hnodes.symm⟩

end Stencil.Template
