import Stencil.Proofs.Template.Relaid

/-! # Documents without their places

The parser looks at the kinds of tokens and keeps their lines. So tokens that differ in their places
only give documents that differ in their spans only. -/

namespace Stencil.Template

def Mark.bare (m : Mark) : Mark :=
  ⟨m.line, ⟨0, 0⟩⟩

mutual
def Node.bare : Node → Node
  | .doctype mark value => .doctype mark.bare value
  | .tag mark head body => .tag mark.bare head (bareAll body)
  | .text mark text => .text mark.bare text
  | .comment mark text buffered => .comment mark.bare text buffered
  | .block mark name body => .block mark.bare name (bareAll body)
  | .extension mark reference options replaces =>
    .extension mark.bare reference options (bareReplaces replaces)
  | .inclusion mark reference options => .inclusion mark.bare reference options
  | .caseOf mark expr arms => .caseOf mark.bare expr (bareArms arms)
  | .ifElse mark branches otherwise =>
    .ifElse mark.bare (bareBranches branches) (bareOtherwise otherwise)
  | .whileTrue mark expr body => .whileTrue mark.bare expr (bareAll body)
  | .each mark value key expr body => .each mark.bare value key expr (bareAll body)
def bareAll : List Node → List Node
  | [] => []
  | n :: ns => n.bare :: bareAll ns
def bareReplaces : List (Replace (List Node)) → List (Replace (List Node))
  | [] => []
  | ⟨position, block, line, body⟩ :: rs => ⟨position, block, line, bareAll body⟩ :: bareReplaces rs
def bareArms : List (Arm (List Node)) → List (Arm (List Node))
  | [] => []
  | ⟨expr, line, body⟩ :: as => ⟨expr, line, bareAll body⟩ :: bareArms as
def bareBranches : List (Branch (List Node)) → List (Branch (List Node))
  | [] => []
  | ⟨expr, line, body⟩ :: bs => ⟨expr, line, bareAll body⟩ :: bareBranches bs
def bareOtherwise : Option (List Node) → Option (List Node)
  | none => none
  | some body => some (bareAll body)
end

def Document.bare (d : Document) : Document :=
  ⟨bareAll d.nodes, d.filename⟩

theorem bareReplaces_append (rs qs : List (Replace (List Node))) :
    bareReplaces (rs ++ qs) = bareReplaces rs ++ bareReplaces qs := by
  induction rs with
  | nil => rfl
  | cons r rs ih => rw [List.cons_append, bareReplaces, bareReplaces, ih, List.cons_append]

/-! ## Parsing -/

/-- A reading of bare tokens: it has what the other one has, bare, and leaves the same tokens,
bare. -/
def Bares {α : Type} (bare : α → α) {m n : Nat} (p : Parsed α m) (q : Parsed α n) : Prop :=
  bare p.value = q.value ∧ p.rest.map Token.bare = q.rest

theorem unexpected_alike {α β : Type} {R : α → β → Prop} (t : Token) (expected : String) :
    Alike R (.error (unexpected t expected)) (.error (unexpected t.bare expected)) :=
  .error rfl rfl

theorem tagParts_bare (h : TagHead) (ts : List Token) :
    (tagParts h (ts.map Token.bare)).value = (tagParts h ts).value ∧
      (tagParts h (ts.map Token.bare)).rest = (tagParts h ts).rest.map Token.bare := by
  induction ts generalizing h with
  | nil => exact ⟨rfl, rfl⟩
  | cons t ts ih =>
    obtain ⟨kind, line, span⟩ := t
    cases kind with
    | className c => exact ih _
    | attrs attrs closing => exact ih _
    | _ => exact ⟨rfl, rfl⟩

theorem dropWhile_bare {p : TokenKind → Bool} (hp : ∀ k, p k.bare = p k) (ts : List Token) :
    (ts.map Token.bare).dropWhile (fun t => p t.kind) =
      (ts.dropWhile fun t => p t.kind).map Token.bare := by
  induction ts with
  | nil => rfl
  | cons t ts ih =>
    have ht : p t.bare.kind = p t.kind := hp t.kind
    rw [List.map_cons, List.dropWhile_cons, List.dropWhile_cons, ht]
    split
    · exact ih
    · rfl

mutual
theorem bares_parseNode (fin : Token) (ts : List Token) :
    Alike (Bares Node.bare) (parseNode fin ts) (parseNode fin.bare (ts.map Token.bare)) := by
  cases ts with
  | nil =>
    unfold parseNode
    exact unexpected_alike fin ""
  | cons t r =>
    obtain ⟨kind, line, span⟩ := t
    rw [List.map_cons]
    unfold parseNode
    cases kind with
    | doctype value => exact .ok ⟨rfl, rfl⟩
    | text s => exact .ok ⟨rfl, rfl⟩
    | comment s buffered => exact .ok ⟨rfl, rfl⟩
    | inclusion reference options => exact .ok ⟨rfl, rfl⟩
    | tag name selfClosing inline =>
      have := (tagParts ⟨name, selfClosing, inline, [], [], none⟩ r).bound
      obtain ⟨hhead, hrest⟩ := tagParts_bare ⟨name, selfClosing, inline, [], [], none⟩ r
      have hbody := bares_parseBody fin (tagParts ⟨name, selfClosing, inline, [], [], none⟩ r).rest
      rw [← hrest] at hbody
      refine hbody.bind fun p q hp => .ok ⟨?_, hp.2⟩
      rw [Node.bare, hp.1, ← hhead]
      rfl
    | block name =>
      refine (bares_parseBody fin r).bind fun p q hp => .ok ⟨?_, hp.2⟩
      rw [Node.bare, hp.1]
      rfl
    | whileTrue expr =>
      refine (bares_parseBody fin r).bind fun p q hp => .ok ⟨?_, hp.2⟩
      rw [Node.bare, hp.1]
      rfl
    | each value key expr =>
      refine (bares_parseBody fin r).bind fun p q hp => .ok ⟨?_, hp.2⟩
      rw [Node.bare, hp.1]
      rfl
    | extension reference options =>
      refine (bares_parseIndentedReplaces fin r).bind fun p q hp => ?_
      have := p.bound
      have hsiblings := bares_parseSiblingReplaces fin p.rest
      rw [hp.2] at hsiblings
      refine hsiblings.bind fun p' q' hp' => .ok ⟨?_, hp'.2⟩
      rw [Node.bare, bareReplaces_append, hp.1, hp'.1]
      rfl
    | caseOf expr =>
      cases r with
      | nil => exact unexpected_alike fin _
      | cons u r =>
        obtain ⟨kind, line', span'⟩ := u
        cases kind with
        | indent width =>
          refine (bares_parseArms fin false r).bind fun p q hp => .ok ⟨?_, hp.2⟩
          rw [Node.bare, hp.1]
          rfl
        | _ => exact unexpected_alike ⟨_, line', span'⟩ _
    | ifTrue expr =>
      refine (bares_parseBody fin r).bind fun p q hp => ?_
      have := p.bound
      have helse := bares_parseElse fin p.rest
      rw [hp.2] at helse
      refine helse.bind fun p' q' hp' => .ok ⟨?_, hp'.2⟩
      rw [Node.bare, bareBranches, hp.1, ← hp'.1]
      rfl
    | unlessTrue expr =>
      refine (bares_parseBody fin r).bind fun p q hp => ?_
      have := p.bound
      have helse := bares_parseElse fin p.rest
      rw [hp.2] at helse
      refine helse.bind fun p' q' hp' => .ok ⟨?_, hp'.2⟩
      rw [Node.bare, bareBranches, hp.1, ← hp'.1]
      rfl
    | _ => exact unexpected_alike ⟨_, line, span⟩ ""
termination_by 2 * ts.length
decreasing_by all_goals subst_vars; simp only [List.length_cons]; omega

theorem bares_parseBody (fin : Token) (ts : List Token) :
    Alike (Bares bareAll) (parseBody fin ts) (parseBody fin.bare (ts.map Token.bare)) := by
  cases ts with
  | nil =>
    unfold parseBody
    exact .ok ⟨rfl, rfl⟩
  | cons t r =>
    obtain ⟨kind, line, span⟩ := t
    rw [List.map_cons]
    unfold parseBody
    cases kind with
    | indent width => exact (bares_parseNodes fin r).bind fun p q hp => .ok hp
    | _ => exact .ok ⟨rfl, rfl⟩
termination_by 2 * ts.length
decreasing_by all_goals subst_vars; simp only [List.length_cons]; omega

theorem bares_parseNodes (fin : Token) (ts : List Token) :
    Alike (Bares bareAll) (parseNodes fin ts) (parseNodes fin.bare (ts.map Token.bare)) := by
  cases ts with
  | nil =>
    unfold parseNodes
    exact .ok ⟨rfl, rfl⟩
  | cons t r =>
    obtain ⟨kind, line, span⟩ := t
    rw [List.map_cons]
    unfold parseNodes
    cases kind with
    | newline => exact (bares_parseNodes fin r).bind fun p q hp => .ok hp
    | outdent => exact .ok ⟨rfl, rfl⟩
    | eos => exact .ok ⟨rfl, rfl⟩
    | _ =>
      refine (bares_parseNode fin (_ :: r)).bind fun p q hp => ?_
      have : p.rest.length < r.length + 1 := p.bound
      have hnodes := bares_parseNodes fin p.rest
      rw [hp.2] at hnodes
      refine hnodes.bind fun p' q' hp' => .ok ⟨?_, hp'.2⟩
      rw [bareAll, hp.1, hp'.1]
termination_by 2 * ts.length + 1
decreasing_by all_goals subst_vars; simp only [List.length_cons]; omega

theorem bares_parseIndentedReplaces (fin : Token) (ts : List Token) :
    Alike (Bares bareReplaces) (parseIndentedReplaces fin ts)
      (parseIndentedReplaces fin.bare (ts.map Token.bare)) := by
  cases ts with
  | nil =>
    unfold parseIndentedReplaces
    exact .ok ⟨rfl, rfl⟩
  | cons t r =>
    obtain ⟨kind, line, span⟩ := t
    rw [List.map_cons]
    unfold parseIndentedReplaces
    cases kind with
    | indent width => exact (bares_parseReplaces fin r).bind fun p q hp => .ok hp
    | _ => exact .ok ⟨rfl, rfl⟩
termination_by 2 * ts.length
decreasing_by all_goals subst_vars; simp only [List.length_cons]; omega

theorem bares_parseReplaces (fin : Token) (ts : List Token) :
    Alike (Bares bareReplaces) (parseReplaces fin ts)
      (parseReplaces fin.bare (ts.map Token.bare)) := by
  cases ts with
  | nil =>
    unfold parseReplaces
    exact unexpected_alike fin _
  | cons t r =>
    obtain ⟨kind, line, span⟩ := t
    rw [List.map_cons]
    unfold parseReplaces
    cases kind with
    | newline => exact (bares_parseReplaces fin r).bind fun p q hp => .ok hp
    | comment s buffered => exact (bares_parseReplaces fin r).bind fun p q hp => .ok hp
    | outdent => exact .ok ⟨rfl, rfl⟩
    | replace position block =>
      refine (bares_parseBody fin r).bind fun p q hp => ?_
      have := p.bound
      have hmore := bares_parseReplaces fin p.rest
      rw [hp.2] at hmore
      refine hmore.bind fun p' q' hp' => .ok ⟨?_, hp'.2⟩
      rw [bareReplaces, hp.1, hp'.1]
      rfl
    | _ => exact unexpected_alike ⟨_, line, span⟩ _
termination_by 2 * ts.length
decreasing_by all_goals subst_vars; simp only [List.length_cons]; omega

theorem bares_parseSiblingReplaces (fin : Token) (ts : List Token) :
    Alike (Bares bareReplaces) (parseSiblingReplaces fin ts)
      (parseSiblingReplaces fin.bare (ts.map Token.bare)) := by
  have hdrop := dropWhile_bare (p := TokenKind.isFiller) (fun k => by cases k <;> rfl) ts
  rw [parseSiblingReplaces, parseSiblingReplaces]
  split
  · next position block line span r hd =>
    have hlen := length_lt_of_dropWhile hd
    rw [hd] at hdrop
    split
    · next position' block' line' span' r' hd' =>
      obtain ⟨ht, rfl⟩ := List.cons.inj (hdrop.symm.trans hd')
      cases ht
      refine (bares_parseBody fin r).bind fun p q hp => ?_
      have := p.bound
      have hmore := bares_parseSiblingReplaces fin p.rest
      rw [hp.2] at hmore
      refine hmore.bind fun p' q' hp' => .ok ⟨?_, hp'.2⟩
      rw [bareReplaces, hp.1, hp'.1]
    · next hnot => exact (hnot _ _ _ _ _ hdrop).elim
  · next hnot =>
    split
    · next position block line span r hd =>
      obtain ⟨t, u, hd', ht, -⟩ := List.map_eq_cons_iff.1 (hdrop.symm.trans hd)
      obtain ⟨kind, line', span'⟩ := t
      cases kind with
      | replace position' block' => exact (hnot _ _ _ _ _ hd').elim
      | _ => cases ht
    · exact .ok ⟨rfl, rfl⟩
termination_by 2 * ts.length
decreasing_by all_goals omega

theorem bares_parseArms (fin : Token) (hasDefault : Bool) (ts : List Token) :
    Alike (Bares bareArms) (parseArms fin hasDefault ts)
      (parseArms fin.bare hasDefault (ts.map Token.bare)) := by
  cases ts with
  | nil =>
    unfold parseArms
    exact unexpected_alike fin _
  | cons t r =>
    obtain ⟨kind, line, span⟩ := t
    rw [List.map_cons]
    unfold parseArms
    cases kind with
    | newline => exact (bares_parseArms fin hasDefault r).bind fun p q hp => .ok hp
    | comment s buffered => exact (bares_parseArms fin hasDefault r).bind fun p q hp => .ok hp
    | outdent => exact .ok ⟨rfl, rfl⟩
    | when expr =>
      refine (bares_parseBody fin r).bind fun p q hp => ?_
      have := p.bound
      have hmore := bares_parseArms fin hasDefault p.rest
      rw [hp.2] at hmore
      refine hmore.bind fun p' q' hp' => .ok ⟨?_, hp'.2⟩
      rw [bareArms, hp.1, hp'.1]
      rfl
    | default =>
      cases hasDefault with
      | true => exact unexpected_alike ⟨_, line, span⟩ _
      | false =>
        refine (bares_parseBody fin r).bind fun p q hp => ?_
        have := p.bound
        have hmore := bares_parseArms fin true p.rest
        rw [hp.2] at hmore
        refine hmore.bind fun p' q' hp' => .ok ⟨?_, hp'.2⟩
        rw [bareArms, hp.1, hp'.1]
        rfl
    | _ => exact unexpected_alike ⟨_, line, span⟩ _
termination_by 2 * ts.length
decreasing_by all_goals subst_vars; simp only [List.length_cons]; omega

theorem bares_parseElse (fin : Token) (ts : List Token) :
    Alike (Bares fun x => (bareBranches x.1, bareOtherwise x.2)) (parseElse fin ts)
      (parseElse fin.bare (ts.map Token.bare)) := by
  have hdrop := dropWhile_bare (p := TokenKind.isNewline) (fun k => by cases k <;> rfl) ts
  conv_rhs => rw [parseElse]
  split
  · next t' r' hd' =>
    obtain ⟨t, r, hd, rfl, rfl⟩ := List.map_eq_cons_iff.1 (hdrop.symm.trans hd')
    have hlen := length_lt_of_dropWhile hd
    rw [parseElse]
    split
    · next u s hd₂ =>
      obtain ⟨rfl, rfl⟩ := List.cons.inj (hd.symm.trans hd₂)
      obtain ⟨kind, line, span⟩ := t
      cases kind with
      | elseIf expr =>
        refine (bares_parseBody fin r).bind fun p q hp => ?_
        have := p.bound
        have hmore := bares_parseElse fin p.rest
        rw [hp.2] at hmore
        refine hmore.bind fun p' q' hp' => .ok ⟨?_, hp'.2⟩
        dsimp only
        rw [bareBranches, hp.1, ← hp'.1]
        rfl
      | otherwise =>
        refine (bares_parseBody fin r).bind fun p q hp => .ok ⟨?_, hp.2⟩
        dsimp only
        rw [bareBranches, bareOtherwise, hp.1]
      | _ => exact .ok ⟨rfl, rfl⟩
    · next hd₂ =>
      rw [hd] at hd₂
      cases hd₂
  · next hd' =>
    have hd := List.map_eq_nil_iff.1 (hdrop.symm.trans hd')
    rw [parseElse]
    split
    · next hd₂ =>
      rw [hd] at hd₂
      cases hd₂
    · exact .ok ⟨rfl, rfl⟩
termination_by 2 * ts.length
decreasing_by all_goals omega
end

theorem parseAll_cons (fin : Token) {t : Token} {r : List Token} (hn : t.kind ≠ .newline)
    (he : t.kind ≠ .eos) : parseAll fin (t :: r) =
      parseNode fin (t :: r) >>= fun p => (parseAll fin p.rest).map (p.value :: ·) := by
  rw [parseAll]
  split
  · next hk => exact absurd hk hn
  · next hk => exact absurd hk he
  · cases parseNode fin (t :: r) <;> rfl

theorem bares_parseAll (fin : Token) (ts : List Token) :
    Alike (fun ns ms => bareAll ns = ms) (parseAll fin ts)
      (parseAll fin.bare (ts.map Token.bare)) := by
  cases ts with
  | nil =>
    unfold parseAll
    exact .ok rfl
  | cons t r =>
    have hnodes := (bares_parseNode fin (t :: r)).bind (S := fun ns ms => bareAll ns = ms)
      (f := fun p => (parseAll fin p.rest).map (p.value :: ·))
      (g := fun q => (parseAll fin.bare q.rest).map (q.value :: ·)) fun p q hp => by
        have : p.rest.length < r.length + 1 := p.bound
        rw [← hp.1, ← hp.2]
        exact (bares_parseAll fin p.rest).map fun ns ms hns => hns ▸ rfl
    obtain ⟨kind, line, span⟩ := t
    rw [List.map_cons] at hnodes ⊢
    cases kind with
    | newline =>
      unfold parseAll
      exact bares_parseAll fin r
    | eos =>
      unfold parseAll
      exact .ok rfl
    | _ =>
      rw [parseAll_cons fin (by simp) (by simp),
        parseAll_cons fin.bare (by simp [Token.bare, TokenKind.bare])
          (by simp [Token.bare, TokenKind.bare])]
      exact hnodes
termination_by ts.length
decreasing_by all_goals subst_vars; simp only [List.length_cons]; omega

theorem endToken_bare (ts : List Token) : endToken (ts.map Token.bare) = (endToken ts).bare := by
  unfold endToken
  rw [List.getLast?_map]
  cases ts.getLast? <;> rfl

def SameDocument (d e : Document) : Prop :=
  d.bare = e.bare

theorem SameTokens.parseTokens {ts us : List Token} (h : SameTokens ts us) (name : Option String) :
    Alike SameDocument (parseTokens name ts) (parseTokens name us) := by
  have hts := bares_parseAll (endToken ts) ts
  have hus := bares_parseAll (endToken us) us
  rw [← endToken_bare, h] at hts
  rw [← endToken_bare] at hus
  have hnodes := hts.trans hus.symm
  unfold Template.parseTokens
  generalize parseAll (endToken ts) ts = x at hnodes ⊢
  generalize parseAll (endToken us) us = y at hnodes ⊢
  cases hnodes with
  | error code line => exact .error code line
  | ok related =>
    obtain ⟨ms, h₁, h₂⟩ := related
    refine .ok ?_
    rw [SameDocument, Document.bare, Document.bare, h₁, h₂]

theorem parse_alike {source source' : String}
    (h : Alike SameTokens (tokenize source) (tokenize source')) (name : Option String) :
    Alike SameDocument (parse source name) (parse source' name) := by
  unfold parse
  generalize tokenize source = x at h ⊢
  generalize tokenize source' = y at h ⊢
  cases h with
  | error code line => exact .error code line
  | ok related => exact related.parseTokens name

end Stencil.Template
