import Stencil.Proofs.Template.Made
import Stencil.Proofs.Template.Parse
import Stencil.Proofs.Template.Stream

/-! # Documents and their tokens

A parsed document is its tokens put together: written back in order, it gives the tokens it was read
from, but for those that only lay them out. `settled` says on the tokens alone which ones these are;
each routine of the parser takes some tokens and returns what they settle to. -/

namespace Stencil.Template

/-- A token in its place, and the lines that a document records for it: two for a condition, which
starts a node and a branch, and none for what only goes on with its line. -/
structure Entry where
  kind : TokenKind
  lines : List Nat
  deriving DecidableEq, Repr

namespace Entry

def opens : Entry := ⟨.indent 0, []⟩

def closes : Entry := ⟨.outdent, []⟩

end Entry

/-! ## Writing documents back -/

def TagHead.written (line : Nat) (head : TagHead) : List Entry :=
  ⟨.tag head.name head.selfClosing head.inline, [line]⟩ ::
    (head.classes.map (⟨.className ·, []⟩) ++ ⟨.attrs head.attrs false, []⟩ ::
      head.text.toList.map (⟨.text ·, []⟩))

mutual
def Node.written : Node → List Entry
  | .doctype mark value => [⟨.doctype value, [mark.line]⟩]
  | .tag mark head body => head.written mark.line ++ writtenBody body
  | .text mark text => [⟨.text text, [mark.line]⟩]
  | .comment mark text buffered => [⟨.comment text buffered, [mark.line]⟩]
  | .block mark name body => ⟨.block name, [mark.line]⟩ :: writtenBody body
  | .extension mark reference options replaces =>
    ⟨.extension reference options, [mark.line]⟩ :: writtenReplaces replaces
  | .inclusion mark reference options => [⟨.inclusion reference options, [mark.line]⟩]
  | .caseOf mark expr arms =>
    ⟨.caseOf expr, [mark.line]⟩ :: .opens :: (writtenArms arms ++ [.closes])
  | .ifElse mark branches otherwise =>
    writtenBranches (some mark.line) branches ++ writtenOtherwise otherwise
  | .whileTrue mark expr body => ⟨.whileTrue expr, [mark.line]⟩ :: writtenBody body
  | .each mark value key expr body => ⟨.each value key expr, [mark.line]⟩ :: writtenBody body
def writtenAll : List Node → List Entry
  | [] => []
  | n :: ns => n.written ++ writtenAll ns
def writtenBody : List Node → List Entry
  | [] => []
  | n :: ns => .opens :: (n.written ++ writtenAll ns ++ [.closes])
def writtenReplaces : List (Replace (List Node)) → List Entry
  | [] => []
  | ⟨position, block, line, body⟩ :: rs =>
    ⟨.replace position block, [line]⟩ :: (writtenBody body ++ writtenReplaces rs)
def writtenArms : List (Arm (List Node)) → List Entry
  | [] => []
  | ⟨some expr, line, body⟩ :: as => ⟨.when expr, [line]⟩ :: (writtenBody body ++ writtenArms as)
  | ⟨none, line, body⟩ :: as => ⟨.default, [line]⟩ :: (writtenBody body ++ writtenArms as)
/-- The first branch has the line of the node besides its own. -/
def writtenBranches (node : Option Nat) : List (Branch (List Node)) → List Entry
  | [] => []
  | ⟨expr, line, body⟩ :: bs =>
    ⟨if node.isSome then .ifTrue expr else .elseIf expr, node.toList ++ [line]⟩ ::
      (writtenBody body ++ writtenBranches none bs)
def writtenOtherwise : Option (List Node) → List Entry
  | none => []
  | some body => ⟨.otherwise, []⟩ :: writtenBody body
end

def Document.written (d : Document) : List Entry :=
  writtenAll d.nodes

/-! ## Settling tokens -/

inductive Level where
  /-- Nodes; the last one may be an extension, and then content for its blocks may follow. -/
  | nodes (extending : Bool)
  | arms
  | replaces
  deriving DecidableEq, Repr

def Level.begin (extending : Bool) : List Level → List Level
  | .nodes _ :: ls => .nodes extending :: ls
  | ls => ls

namespace TokenKind

def className? : TokenKind → Option String
  | .className c => some c
  | _ => none

def attributes : TokenKind → List Attribute
  | .attrs as _ => as
  | _ => []

def closesTag : TokenKind → Bool
  | .attrs _ closing => closing
  | _ => false

def isDetail : TokenKind → Bool
  | .className _ => true
  | .attrs _ _ => true
  | _ => false

end TokenKind

/-- A tag with some parts more: the classes in order, the lists of attributes put together, and
closed if one of them closes it. -/
def TagHead.gather (head : TagHead) (parts : List TokenKind) : TagHead :=
  { head with
    selfClosing := head.selfClosing || parts.any TokenKind.closesTag
    attrs := head.attrs ++ parts.flatMap TokenKind.attributes
    classes := head.classes ++ parts.filterMap TokenKind.className? }

def splitText : List Token → Option String × List Token
  | ⟨.text text, _, _⟩ :: ts => (some text, ts)
  | ts => (none, ts)

/-- A tag with the classes and attributes in front of some tokens and the text behind those, and the
tokens that are left. -/
def TagHead.take (head : TagHead) (ts : List Token) : TagHead × List Token :=
  let parts := (ts.takeWhile (·.kind.isDetail)).map (·.kind)
  let behind := splitText (ts.dropWhile (·.kind.isDetail))
  ({ head.gather parts with text := behind.1.or head.text }, behind.2)

/-- Whether a comment goes unrecorded: among the arms of a case, among content for blocks, and,
unless it is buffered, between an extension and the content that follows it. -/
def dropsComment (ls : List Level) (buffered : Bool) (ts : List Token) : Bool :=
  match ls with
  | .arms :: _ => true
  | .replaces :: _ => true
  | .nodes true :: _ =>
    !buffered && (ts.dropWhile (·.kind.isFiller)).head?.any (·.kind.isReplace)
  | _ => false

/-- The token `t` settled, in front of `ts`: what there is to record, the levels behind it, and the
tokens that are left. A tag takes its parts and its text with it; a case and an extension take the
start of their level, so that what is on it is known. -/
def settle (ls : List Level) (t : Token) (ts : List Token) :
    List Entry × List Level × List Token :=
  match t.kind with
  | .newline => ([], ls, ts)
  | .eos => ([], ls, ts)
  | .indent _ => ([.opens], .nodes false :: ls, ts)
  | .outdent => (if ls.head? = some .replaces then [] else [.closes], ls.tail, ts)
  | .comment text buffered =>
    if dropsComment ls buffered ts then ([], ls, ts)
    else ([⟨.comment text buffered, [t.line]⟩], Level.begin false ls, ts)
  | .tag name selfClosing inline =>
    let tag := TagHead.take ⟨name, selfClosing, inline, [], [], none⟩ ts
    (tag.1.written t.line, Level.begin false ls, tag.2)
  | .caseOf expr => match ts with
    | ⟨.indent _, _, _⟩ :: rest =>
      ([⟨.caseOf expr, [t.line]⟩, .opens], .arms :: Level.begin false ls, rest)
    | rest => ([⟨.caseOf expr, [t.line]⟩], Level.begin false ls, rest)
  | .extension reference options => match ts with
    | ⟨.indent _, _, _⟩ :: rest =>
      ([⟨.extension reference options, [t.line]⟩], .replaces :: Level.begin true ls, rest)
    | rest => ([⟨.extension reference options, [t.line]⟩], Level.begin true ls, rest)
  | .replace position block => ([⟨.replace position block, [t.line]⟩], ls, ts)
  | .ifTrue expr => ([⟨.ifTrue expr, [t.line, t.line]⟩], Level.begin false ls, ts)
  | .unlessTrue expr =>
    ([⟨.ifTrue ("!(" ++ expr ++ ")"), [t.line, t.line]⟩], Level.begin false ls, ts)
  | .otherwise => ([⟨.otherwise, []⟩], Level.begin false ls, ts)
  | .className name => ([⟨.className name, []⟩], ls, ts)
  | .attrs attrs closing => ([⟨.attrs attrs closing, []⟩], ls, ts)
  | kind => ([⟨kind, [t.line]⟩], Level.begin false ls, ts)

theorem length_splitText (ts : List Token) : (splitText ts).2.length ≤ ts.length := by
  unfold splitText
  split
  · exact Nat.le_succ _
  · exact Nat.le_refl _

theorem TagHead.length_take (head : TagHead) (ts : List Token) :
    (head.take ts).2.length ≤ ts.length :=
  Nat.le_trans (length_splitText _) (List.dropWhile_suffix _).length_le

theorem length_settle (ls : List Level) (t : Token) (ts : List Token) :
    (settle ls t ts).2.2.length ≤ ts.length := by
  unfold settle
  split
  case h_6 name selfClosing inline _ =>
    exact TagHead.length_take ⟨name, selfClosing, inline, [], [], none⟩ ts
  all_goals
    first
      | exact Nat.le_refl _
      | (split <;> simp)

/-- What a stream of tokens has to record, without its layout. -/
def settled (ls : List Level) : List Token → List Entry
  | [] => []
  | t :: ts => (settle ls t ts).1 ++ settled (settle ls t ts).2.1 (settle ls t ts).2.2
termination_by ts => ts.length
decreasing_by exact Nat.lt_succ_of_le (length_settle ls t ts)

section

variable {ls : List Level} {t : Token} {ts : List Token}

theorem settled_cons (es : List Entry) {ls' : List Level} {rest : List Token}
    (h : settle ls t ts = (es, ls', rest)) : settled ls (t :: ts) = es ++ settled ls' rest := by
  rw [settled, h]

theorem settled_line {e : Entry} {es : List Entry} {ls' : List Level} {rest : List Token}
    (h : settle ls t ts = ([e], ls', ts)) (hbelow : settled ls' ts = es ++ settled ls' rest) :
    settled ls (t :: ts) = (e :: es) ++ settled ls' rest := by
  rw [settled_cons _ h, hbelow]
  rfl

theorem settled_newline (hk : t.kind = .newline) : settled ls (t :: ts) = settled ls ts := by
  refine settled_cons [] ?_
  simp only [settle, hk]

theorem settled_newlines (ls : List Level) {rest : List Token}
    (h : ts.dropWhile (fun t => t.kind.isNewline) = rest) : settled ls ts = settled ls rest := by
  subst h
  induction ts with
  | nil => rfl
  | cons t ts ih =>
    rw [List.dropWhile_cons]
    split
    · next hn =>
      have hk : t.kind = .newline := by
        cases hk : t.kind <;> rw [hk] at hn <;> first | rfl | cases hn
      rw [settled_newline hk, ih]
    · rfl

/-- Between an extension and content for its blocks there is nothing to record. -/
theorem settled_fillers (ls : List Level) {u : Token} {rest : List Token}
    (h : ts.dropWhile (fun t => t.kind.isFiller) = u :: rest) (hu : u.kind.isReplace = true) :
    settled (.nodes true :: ls) ts = settled (.nodes true :: ls) (u :: rest) := by
  induction ts with
  | nil => cases h
  | cons t ts ih =>
    rw [List.dropWhile_cons] at h
    split at h
    · next hf =>
      rw [← ih h]
      cases hk : t.kind with
      | newline => exact settled_newline hk
      | comment text buffered =>
        rw [hk, TokenKind.isFiller, Bool.not_eq_true'] at hf
        refine settled_cons [] ?_
        simp only [settle, hk, dropsComment, h, List.head?_cons, Option.any_some, hu, hf]
        rfl
      | _ => rw [hk] at hf; cases hf
    · rw [h]

end

/-! ## Tags -/

theorem TagHead.gather_cons (head : TagHead) (part : TokenKind) (parts : List TokenKind) :
    head.gather (part :: parts) = (head.gather [part]).gather parts := by
  simp only [gather, List.any_cons, List.any_nil, Bool.or_false, List.flatMap_cons,
    List.flatMap_nil,
    List.append_nil, List.filterMap_cons, List.filterMap_nil, Bool.or_assoc, List.append_assoc]
  cases part.className? with
  | none => rfl
  | some c => simp

theorem TagHead.take_cons (head : TagHead) {t : Token} (ts : List Token)
    (h : t.kind.isDetail = true) : head.take (t :: ts) = (head.gather [t.kind]).take ts := by
  rw [take, take, List.takeWhile_cons_of_pos (by exact h), List.dropWhile_cons_of_pos (by exact h),
    List.map_cons, gather_cons]
  rfl

theorem splitParts_eq (head : TagHead) (ts : List Token) : splitParts head ts = head.take ts := by
  induction ts generalizing head with
  | nil => simp [splitParts, tagParts, TagHead.take, splitText, TagHead.gather]
  | cons t ts ih =>
    obtain ⟨kind, line, span⟩ := t
    cases kind with
    | className c =>
      have hgather : head.gather [.className c] = { head with classes := head.classes ++ [c] } := by
        simp [TagHead.gather, TokenKind.closesTag, TokenKind.attributes, TokenKind.className?]
      rw [TagHead.take_cons head ts rfl, ← ih, hgather]
      rfl
    | attrs as closing =>
      have hgather : head.gather [.attrs as closing] =
          { head with attrs := head.attrs ++ as, selfClosing := head.selfClosing || closing } := by
        simp [TagHead.gather, TokenKind.closesTag, TokenKind.attributes, TokenKind.className?]
      rw [TagHead.take_cons head ts rfl, ← ih, hgather]
      rfl
    | _ => simp [splitParts, tagParts, TagHead.take, TokenKind.isDetail, splitText, TagHead.gather]

/-! ## Levels while parsing -/

theorem openLevels_content {t : Token} (h : t.kind.isContent = true) (stack : List Nat) :
    openLevels stack [t] = stack := by
  obtain ⟨kind, line, span⟩ := t
  cases kind <;> first | rfl | cases h

namespace Nests

variable {stack : List Nat} {t : Token} {ts : List Token}

theorem tail (h : Nests stack (t :: ts)) (ht : t.kind ≠ .eos) :
    Nests (openLevels stack [t]) ts := by
  cases h with
  | eos kind => exact absurd kind ht
  | indent kind _ _ rest => simpa only [openLevels, kind] using rest
  | outdent kind rest => simpa only [openLevels, kind, List.tail_cons] using rest
  | newline kind _ rest => simpa only [openLevels, kind] using rest
  | content kind rest => rwa [openLevels_content kind]

theorem rest_of_eos (h : Nests stack (t :: ts)) (ht : t.kind = .eos) : ts = [] := by
  cases h with
  | eos => rfl
  | indent kind => rw [ht] at kind; cases kind
  | outdent kind => rw [ht] at kind; cases kind
  | newline kind => rw [ht] at kind; cases kind
  | content kind => rw [ht] at kind; cases kind

theorem dropWhile {p : Token → Bool}
    (hp : ∀ t, p t = true → t.kind.isContent = true ∨ t.kind = .newline) (h : Nests stack ts) :
    Nests stack (ts.dropWhile p) := by
  induction ts with
  | nil => exact h
  | cons t ts ih =>
    rw [List.dropWhile_cons]
    split
    · next hpt =>
      apply ih
      rcases hp t hpt with hk | hk
      · have hts := h.tail (TokenKind.isContent_eq hk).2.2.2
        rwa [openLevels_content hk] at hts
      · have hts := h.tail (by rw [hk]; nofun)
        simpa only [openLevels, hk] using hts
    · exact h

theorem take (head : TagHead) (h : Nests stack ts) : Nests stack (head.take ts).2 := by
  have hbehind : Nests stack (ts.dropWhile (·.kind.isDetail)) := by
    refine h.dropWhile fun t ht => .inl ?_
    cases hk : t.kind <;> rw [hk] at ht <;> first | rfl | cases ht
  unfold TagHead.take splitText
  dsimp only
  split
  · next hd =>
    rw [hd] at hbehind
    exact hbehind.tail nofun
  · exact hbehind

theorem newlines (h : Nests stack ts) : Nests stack (ts.dropWhile fun t => t.kind.isNewline) := by
  refine h.dropWhile fun t ht => .inr ?_
  cases hk : t.kind <;> rw [hk] at ht <;> first | rfl | cases ht

theorem fillers (h : Nests stack ts) : Nests stack (ts.dropWhile fun t => t.kind.isFiller) := by
  refine h.dropWhile fun t ht => ?_
  cases hk : t.kind <;> rw [hk] at ht <;> first | exact .inl rfl | exact .inr rfl | cases ht

end Nests

/-! ## Parsing -/

def Node.isExtension : Node → Bool
  | .extension _ _ _ _ => true
  | _ => false

theorem writtenBody_of_ne_nil {ns : List Node} (h : ns ≠ []) :
    writtenBody ns = .opens :: (writtenAll ns ++ [Entry.closes]) := by
  cases ns with
  | nil => exact absurd rfl h
  | cons n ns => rfl

theorem writtenReplaces_append (rs rs' : List (Replace (List Node))) :
    writtenReplaces (rs ++ rs') = writtenReplaces rs ++ writtenReplaces rs' := by
  induction rs with
  | nil => rfl
  | cons r rs ih =>
    obtain ⟨position, block, line, body⟩ := r
    simp only [List.cons_append, writtenReplaces, ih, List.append_assoc]

def Complete (extending : Bool) (ts : List Token) : Prop :=
  extending = true → (ts.dropWhile (·.kind.isFiller)).head?.any (·.kind.isReplace) = false

theorem complete_false (ts : List Token) : Complete false ts :=
  nofun

theorem Complete.of_newline {extending : Bool} {t : Token} {ts : List Token}
    (h : Complete extending (t :: ts)) (ht : t.kind = .newline) : Complete extending ts := by
  intro he
  have hts := h he
  rwa [List.dropWhile_cons_of_pos (by rw [ht]; rfl)] at hts

theorem settled_comment {extending : Bool} {text : String} {buffered : Bool} {line : Nat}
    {span : Span} {ts : List Token}
    (h : Complete extending (⟨.comment text buffered, line, span⟩ :: ts)) (ls : List Level) :
    settled (.nodes extending :: ls) (⟨.comment text buffered, line, span⟩ :: ts) =
      ⟨.comment text buffered, [line]⟩ :: settled (.nodes false :: ls) ts := by
  have hkeep : dropsComment (.nodes extending :: ls) buffered ts = false := by
    cases extending with
    | false => rfl
    | true =>
      cases buffered with
      | true => rfl
      | false =>
        have hts := h rfl
        rwa [List.dropWhile_cons_of_pos (by rfl)] at hts
  refine settled_cons [⟨.comment text buffered, [line]⟩] ?_
  simp only [settle, hkeep]
  rfl

/-- What is parsed, if anything is, leaves tokens that nest in `stack`, and `settles` says what the
tokens it was parsed from settle to. -/
def Conserves {α : Type} {n : Nat} (stack : List Nat) (settles : α → List Token → Prop) :
    Result (Parsed α n) → Prop :=
  Ensures (fun _ => True) fun p => Nests stack p.rest ∧ settles p.value p.rest

section

variable (fin : Token)

mutual
theorem conserves_parseNode {stack : List Nat} {ts : List Token} (h : Nests stack ts) :
    Conserves stack (fun n rest => Complete n.isExtension rest ∧
      ∀ extending ls, Complete extending ts → settled (.nodes extending :: ls) ts =
        n.written ++ settled (.nodes n.isExtension :: ls) rest) (parseNode fin ts) := by
  cases ts with
  | nil =>
    rw [parseNode]
    exact trivial
  | cons t r =>
    obtain ⟨kind, line, span⟩ := t
    rw [parseNode]
    cases kind with
    | doctype value => exact ⟨h.tail nofun, complete_false r, fun _ _ _ => settled_cons _ rfl⟩
    | text s => exact ⟨h.tail nofun, complete_false r, fun _ _ _ => settled_cons _ rfl⟩
    | comment s buffered =>
      exact ⟨h.tail nofun, complete_false r, fun _ ls hc => settled_comment hc ls⟩
    | inclusion reference options =>
      exact ⟨h.tail nofun, complete_false r, fun _ _ _ => settled_cons _ rfl⟩
    | tag name selfClosing inline =>
      have hsplit := splitParts_eq ⟨name, selfClosing, inline, [], [], none⟩ r
      have hhead := congrArg Prod.fst hsplit
      have hrest := congrArg Prod.snd hsplit
      dsimp only [splitParts] at hhead hrest
      have hbody : Nests stack (tagParts ⟨name, selfClosing, inline, [], [], none⟩ r).rest :=
        hrest ▸ Nests.take _ (h.tail nofun)
      have := (tagParts ⟨name, selfClosing, inline, [], [], none⟩ r).bound
      refine Ensures.bind (conserves_parseBody hbody) ?_
      intro p hp
      refine ⟨hp.1, complete_false _, fun _ ls _ => ?_⟩
      rw [settled]
      dsimp only [settle, Level.begin]
      rw [← hhead, ← hrest, hp.2, ← List.append_assoc]
      rfl
    | block name =>
      refine Ensures.bind (conserves_parseBody (h.tail nofun)) ?_
      intro p hp
      exact ⟨hp.1, complete_false _, fun _ ls _ => settled_line rfl (hp.2 _)⟩
    | whileTrue expr =>
      refine Ensures.bind (conserves_parseBody (h.tail nofun)) ?_
      intro p hp
      exact ⟨hp.1, complete_false _, fun _ ls _ => settled_line rfl (hp.2 _)⟩
    | each value key expr =>
      refine Ensures.bind (conserves_parseBody (h.tail nofun)) ?_
      intro p hp
      exact ⟨hp.1, complete_false _, fun _ ls _ => settled_line rfl (hp.2 _)⟩
    | extension reference options =>
      refine Ensures.bind (conserves_parseIndentedReplaces (h.tail nofun)) ?_
      intro p hp
      have := p.bound
      refine Ensures.bind (conserves_parseSiblingReplaces hp.1) ?_
      intro q hq
      refine ⟨hq.1, hq.2.1, fun extending ls _ => ?_⟩
      rw [hp.2, hq.2.2]
      simp only [Node.written, writtenReplaces_append, List.cons_append, List.append_assoc]
      rfl
    | caseOf expr =>
      dsimp only
      split
      · next r' =>
        refine Ensures.bind (conserves_parseArms false ((h.tail nofun).tail nofun)) ?_
        intro p hp
        refine ⟨hp.1, complete_false _, fun _ ls _ => ?_⟩
        rw [settled]
        dsimp only [settle, Level.begin]
        rw [hp.2]
        simp only [Node.written, List.cons_append, List.append_assoc, List.nil_append]
        rfl
      · exact trivial
    | ifTrue expr =>
      refine Ensures.bind (conserves_parseBody (h.tail nofun)) ?_
      intro p hp
      have := p.bound
      refine Ensures.bind (conserves_parseElse hp.1) ?_
      intro q hq
      refine ⟨hq.1, complete_false _, fun _ ls _ => ?_⟩
      rw [settled]
      dsimp only [settle, Level.begin]
      rw [hp.2, hq.2]
      simp only [Node.written, writtenBranches, List.cons_append, List.append_assoc]
      rfl
    | unlessTrue expr =>
      refine Ensures.bind (conserves_parseBody (h.tail nofun)) ?_
      intro p hp
      have := p.bound
      refine Ensures.bind (conserves_parseElse hp.1) ?_
      intro q hq
      refine ⟨hq.1, complete_false _, fun _ ls _ => ?_⟩
      rw [settled]
      dsimp only [settle, Level.begin]
      rw [hp.2, hq.2]
      simp only [Node.written, writtenBranches, List.cons_append, List.append_assoc]
      rfl
    | _ => exact trivial
termination_by 2 * ts.length
decreasing_by all_goals subst_vars; simp only [List.length_cons]; omega

theorem conserves_parseBody {stack : List Nat} {ts : List Token} (h : Nests stack ts) :
    Conserves stack (fun body rest => ∀ ls, settled ls ts = writtenBody body ++ settled ls rest)
      (parseBody fin ts) := by
  unfold parseBody
  split
  · next w line span r =>
    refine Ensures.bind (conserves_parseNodes (h.tail nofun)) ?_
    intro p hp
    refine ⟨hp.1, fun ls => ?_⟩
    rw [settled]
    dsimp only [settle, Level.begin]
    rw [writtenBody_of_ne_nil (hp.2.1 (h.startsContent rfl)),
      hp.2.2 _ _ (complete_false r)]
    simp only [List.cons_append, List.append_assoc, List.nil_append]
  · exact ⟨h, fun ls => rfl⟩
termination_by 2 * ts.length
decreasing_by all_goals subst_vars; simp only [List.length_cons]; omega

theorem conserves_parseNodes {w : Nat} {stack : List Nat} {ts : List Token}
    (h : Nests (w :: stack) ts) :
    Conserves stack (fun nodes rest => (StartsContent ts → nodes ≠ []) ∧
      ∀ extending ls, Complete extending ts → settled (.nodes extending :: ls) ts =
        writtenAll nodes ++ Entry.closes :: settled ls rest) (parseNodes fin ts) := by
  cases ts with
  | nil => cases h
  | cons t r =>
    rw [parseNodes]
    split
    · next hk =>
      have hr : Nests (w :: stack) r := by
        simpa only [openLevels, hk] using h.tail (by rw [hk]; nofun)
      refine Ensures.bind (conserves_parseNodes hr) ?_
      intro p hp
      refine ⟨hp.1, fun _ => hp.2.1 (h.startsContent (by rw [hk]; rfl)), fun extending ls hc => ?_⟩
      rw [settled_newline hk, hp.2.2 _ _ (hc.of_newline hk)]
    · next hk =>
      have hr : Nests stack r := by
        simpa only [openLevels, hk, List.tail_cons] using h.tail (by rw [hk]; nofun)
      refine ⟨hr, ?_, fun extending ls _ => ?_⟩
      · rintro ⟨u, us, heq, hu⟩
        rw [← (List.cons.inj heq).1, hk] at hu
        cases hu
      · refine settled_cons [.closes] ?_
        simp only [settle, hk]
        rfl
    · next hk => exact absurd (h.stack_of_eos hk) (List.cons_ne_nil _ _)
    · next hnewline houtdent heos =>
      refine Ensures.bind (conserves_parseNode h) ?_
      intro p hp
      have : p.rest.length < r.length + 1 := p.bound
      refine Ensures.bind (conserves_parseNodes hp.1) ?_
      intro q hq
      refine ⟨hq.1, fun _ => List.cons_ne_nil _ _, fun extending ls hc => ?_⟩
      rw [hp.2.2 _ _ hc, hq.2.2 _ _ hp.2.1, ← List.append_assoc]
      rfl
termination_by 2 * ts.length + 1
decreasing_by all_goals subst_vars; simp only [List.length_cons]; omega

theorem conserves_parseIndentedReplaces {stack : List Nat} {ts : List Token}
    (h : Nests stack ts) :
    Conserves stack (fun replaces rest => ∀ extending ls reference options line span,
      settled (.nodes extending :: ls) (⟨.extension reference options, line, span⟩ :: ts) =
        ⟨.extension reference options, [line]⟩ ::
          (writtenReplaces replaces ++ settled (.nodes true :: ls) rest))
      (parseIndentedReplaces fin ts) := by
  unfold parseIndentedReplaces
  split
  · next w line span r =>
    refine Ensures.bind (conserves_parseReplaces (h.tail nofun)) ?_
    intro p hp
    refine ⟨hp.1, fun extending ls reference options line span => ?_⟩
    rw [settled]
    dsimp only [settle, Level.begin]
    rw [hp.2]
    rfl
  · next hflat =>
    refine ⟨h, fun extending ls reference options line span => ?_⟩
    refine settled_cons [⟨.extension reference options, [line]⟩] ?_
    simp only [settle]
    rfl
termination_by 2 * ts.length
decreasing_by all_goals subst_vars; simp only [List.length_cons]; omega

theorem conserves_parseReplaces {w : Nat} {stack : List Nat} {ts : List Token}
    (h : Nests (w :: stack) ts) :
    Conserves stack (fun replaces rest => ∀ ls, settled (.replaces :: ls) ts =
      writtenReplaces replaces ++ settled ls rest) (parseReplaces fin ts) := by
  cases ts with
  | nil => cases h
  | cons t r =>
    obtain ⟨kind, line, span⟩ := t
    rw [parseReplaces]
    cases kind with
    | newline =>
      refine Ensures.bind (conserves_parseReplaces (h.tail nofun)) ?_
      intro p hp
      exact ⟨hp.1, fun ls => (settled_cons [] rfl).trans (hp.2 ls)⟩
    | comment s buffered =>
      refine Ensures.bind (conserves_parseReplaces (h.tail nofun)) ?_
      intro p hp
      exact ⟨hp.1, fun ls => (settled_cons [] rfl).trans (hp.2 ls)⟩
    | outdent => exact ⟨h.tail nofun, fun ls => settled_cons _ rfl⟩
    | replace position block =>
      refine Ensures.bind (conserves_parseBody (h.tail nofun)) ?_
      intro p hp
      have := p.bound
      refine Ensures.bind (conserves_parseReplaces hp.1) ?_
      intro q hq
      refine ⟨hq.1, fun ls => ?_⟩
      rw [settled]
      dsimp only [settle, Level.begin]
      rw [hp.2, hq.2]
      simp only [writtenReplaces, List.cons_append, List.append_assoc, List.nil_append]
    | _ => exact trivial
termination_by 2 * ts.length
decreasing_by all_goals subst_vars; simp only [List.length_cons]; omega

theorem conserves_parseSiblingReplaces {stack : List Nat} {ts : List Token} (h : Nests stack ts) :
    Conserves stack (fun replaces rest => Complete true rest ∧
      ∀ ls, settled (.nodes true :: ls) ts =
        writtenReplaces replaces ++ settled (.nodes true :: ls) rest)
      (parseSiblingReplaces fin ts) := by
  rw [parseSiblingReplaces]
  split
  · next position block line span r hd =>
    have hlen := length_lt_of_dropWhile hd
    have hr := h.fillers
    rw [hd] at hr
    refine Ensures.bind (conserves_parseBody (hr.tail nofun)) ?_
    intro p hp
    have := p.bound
    refine Ensures.bind (conserves_parseSiblingReplaces hp.1) ?_
    intro q hq
    refine ⟨hq.1, hq.2.1, fun ls => ?_⟩
    rw [settled_fillers ls hd rfl, settled]
    dsimp only [settle, Level.begin]
    rw [hp.2, hq.2.2]
    simp only [writtenReplaces, List.cons_append, List.append_assoc, List.nil_append]
  · next hnone =>
    refine ⟨h, fun _ => ?_, fun ls => rfl⟩
    dsimp only
    cases hd : ts.dropWhile fun t => t.kind.isFiller with
    | nil => rfl
    | cons t r =>
      obtain ⟨kind, line, span⟩ := t
      cases kind <;> first | rfl | exact absurd hd (hnone _ _ _ _ _)
termination_by 2 * ts.length
decreasing_by all_goals omega

theorem conserves_parseArms (hasDefault : Bool) {w : Nat} {stack : List Nat} {ts : List Token}
    (h : Nests (w :: stack) ts) :
    Conserves stack (fun arms rest => ∀ ls, settled (.arms :: ls) ts =
      writtenArms arms ++ Entry.closes :: settled ls rest) (parseArms fin hasDefault ts) := by
  cases ts with
  | nil => cases h
  | cons t r =>
    obtain ⟨kind, line, span⟩ := t
    rw [parseArms]
    cases kind with
    | newline =>
      refine Ensures.bind (conserves_parseArms hasDefault (h.tail nofun)) ?_
      intro p hp
      exact ⟨hp.1, fun ls => (settled_cons [] rfl).trans (hp.2 ls)⟩
    | comment s buffered =>
      refine Ensures.bind (conserves_parseArms hasDefault (h.tail nofun)) ?_
      intro p hp
      exact ⟨hp.1, fun ls => (settled_cons [] rfl).trans (hp.2 ls)⟩
    | outdent => exact ⟨h.tail nofun, fun ls => settled_cons _ rfl⟩
    | when expr =>
      refine Ensures.bind (conserves_parseBody (h.tail nofun)) ?_
      intro p hp
      have := p.bound
      refine Ensures.bind (conserves_parseArms hasDefault hp.1) ?_
      intro q hq
      refine ⟨hq.1, fun ls => ?_⟩
      rw [settled]
      dsimp only [settle, Level.begin]
      rw [hp.2, hq.2]
      simp only [writtenArms, List.cons_append, List.append_assoc, List.nil_append]
    | default =>
      dsimp only
      split
      · exact trivial
      · refine Ensures.bind (conserves_parseBody (h.tail nofun)) ?_
        intro p hp
        have := p.bound
        refine Ensures.bind (conserves_parseArms true hp.1) ?_
        intro q hq
        refine ⟨hq.1, fun ls => ?_⟩
        rw [settled]
        dsimp only [settle, Level.begin]
        rw [hp.2, hq.2]
        simp only [writtenArms, List.cons_append, List.append_assoc, List.nil_append]
    | _ => exact trivial
termination_by 2 * ts.length
decreasing_by all_goals subst_vars; simp only [List.length_cons]; omega

theorem conserves_parseElse {stack : List Nat} {ts : List Token} (h : Nests stack ts) :
    Conserves stack (fun x rest => ∀ ls, settled (.nodes false :: ls) ts =
      writtenBranches none x.1 ++ writtenOtherwise x.2 ++ settled (.nodes false :: ls) rest)
      (parseElse fin ts) := by
  rw [parseElse]
  split
  · next t r hd =>
    have hlen := length_lt_of_dropWhile hd
    have hr := h.newlines
    rw [hd] at hr
    obtain ⟨kind, line, span⟩ := t
    cases kind with
    | elseIf expr =>
      refine Ensures.bind (conserves_parseBody (hr.tail nofun)) ?_
      intro p hp
      have := p.bound
      refine Ensures.bind (conserves_parseElse hp.1) ?_
      intro q hq
      refine ⟨hq.1, fun ls => ?_⟩
      rw [settled_newlines _ hd, settled]
      dsimp only [settle, Level.begin]
      rw [hp.2, hq.2]
      simp only [writtenBranches, List.cons_append, List.append_assoc]
      rfl
    | otherwise =>
      refine Ensures.bind (conserves_parseBody (hr.tail nofun)) ?_
      intro p hp
      refine ⟨hp.1, fun ls => ?_⟩
      rw [settled_newlines _ hd, settled]
      dsimp only [settle, Level.begin]
      rw [hp.2]
      rfl
    | _ => exact ⟨h, fun ls => rfl⟩
  · exact ⟨h, fun ls => rfl⟩
termination_by 2 * ts.length
decreasing_by all_goals omega
end

theorem conserves_parseAll {ts : List Token} (h : Nests [] ts) :
    Ensures (fun _ => True) (fun nodes => ∀ extending, Complete extending ts →
      settled [.nodes extending] ts = writtenAll nodes) (parseAll fin ts) := by
  fun_induction parseAll fin ts with
  | case1 => cases h
  | case2 t r hk ih =>
    have hr : Nests [] r := by simpa only [openLevels, hk] using h.tail (by rw [hk]; nofun)
    refine (ih hr).imp fun nodes hnodes extending hc => ?_
    rw [settled_newline hk, hnodes _ (hc.of_newline hk)]
  | case3 t r hk =>
    obtain rfl := h.rest_of_eos hk
    intro extending _
    have heos : settle [.nodes extending] t [] = ([], [.nodes extending], []) := by
      simp only [settle, hk]
    rw [settled_cons [] heos, settled]
    rfl
  | case4 => exact trivial
  | case5 t r p hp _ _ _ ih =>
    have hnode := conserves_parseNode fin h
    rw [hp] at hnode
    refine Ensures.map (ih hnode.1) fun nodes hnodes extending hc => ?_
    rw [hnode.2.2 _ _ hc, hnodes _ hnode.2.1]
    rfl

end

/-- **Parsing conserves tokens.** A document written back in order is what its tokens settle to:
each is there once, in its place, under the line it was on. -/
theorem parse_conserves {source : String} {filename : Option String} {d : Document}
    (h : parse source filename = .ok d) :
    ∃ ts, tokenize source = .ok ts ∧ settled [.nodes false] ts = d.written := by
  unfold parse at h
  split at h
  · cases h
  · next ts ht =>
    have hnests : Nests [] ts := nests_readLines (l := ⟨[], none⟩) List.Pairwise.nil ht
    have hnodes := conserves_parseAll (endToken ts) hnests
    unfold parseTokens at h
    split at h
    · cases h
    · next nodes hn =>
      rw [hn] at hnodes
      obtain rfl := Except.ok.inj h
      exact ⟨ts, ht, hnodes false (complete_false ts)⟩

/-- Comments in each place where they may go unrecorded, content for blocks below an extension and
beside it, classes among attributes, and conditions with an empty line between them. -/
theorem parse_conserves_page :
    let page :=
      "extends base\n  // i\n  append head\n    meta\n//- x\nprepend body\ncase x\n  //- c\n" ++
      "  when 1\n    a.k(b).l(c) t\n  default\nunless p\n  a\nelse if q\n\nelse\n  | s"
    let entries := [("extends", [1]), ("replace", [3]), ("indent", []), ("tag", [4]), ("attrs", []),
      ("outdent", []), ("replace", [6]), ("case", [7]), ("indent", []), ("when", [9]),
      ("indent", []),
      ("tag", [10]), ("class", []), ("class", []), ("attrs", []), ("text", []), ("outdent", []),
      ("default", [11]), ("outdent", []), ("if", [12, 12]), ("indent", []), ("tag", [13]),
      ("attrs", []), ("outdent", []), ("elseif", [14]), ("else", []), ("indent", []),
      ("text", [17]),
      ("outdent", [])]
    ∃ d ts, parse page none = .ok d ∧ tokenize page = .ok ts ∧ settled [.nodes false] ts =
      d.written ∧
      d.written.map (fun e => (e.kind.name, e.lines)) = entries := by
  intro page entries
  have hentries : (parse page none).toOption.map
      (fun d => d.written.map (fun e => (e.kind.name, e.lines))) = some entries := by decide +kernel
  obtain ⟨d, hd, hentries⟩ := Option.map_eq_some_iff.1 hentries
  replace hd := ok_of_toOption hd
  obtain ⟨ts, hts, hsettled⟩ := parse_conserves hd
  exact ⟨d, ts, hd, hts, hsettled, hentries⟩

end Stencil.Template
