import Stencil.Proofs.Template.Made
import Stencil.Proofs.Template.Vetted

/-! # Checked documents

A document is made of tokens, so all texts and expressions in it are checked ones. The one
expression that the parser writes itself is the negation of a checked one. -/

namespace Stencil.Template

structure TagHead.Checked (head : TagHead) : Prop where
  attrs : CheckedAttrs head.attrs
  text : ∀ t, head.text = some t → Readable t

mutual
/-- A node whose texts can be split, whose expressions can be parsed and whose loops have
variables. -/
def Node.Checked : Node → Prop
  | .doctype _ _ => True
  | .tag _ head body => head.Checked ∧ CheckedAll body
  | .text _ text => Readable text
  | .comment _ _ _ => True
  | .block _ _ body => CheckedAll body
  | .extension _ _ options replaces => CheckedAttrs options ∧ CheckedReplaces replaces
  | .inclusion _ _ options => CheckedAttrs options
  | .caseOf _ expr arms => Expr.accepts expr = true ∧ CheckedArms arms
  | .ifElse _ branches otherwise => CheckedBranches branches ∧ CheckedOtherwise otherwise
  | .whileTrue _ expr body => Expr.accepts expr = true ∧ CheckedAll body
  | .each _ value key expr body =>
    (∀ n ∈ value :: key.toList, IsVariable n) ∧ Expr.accepts expr = true ∧ CheckedAll body
def CheckedAll : List Node → Prop
  | [] => True
  | n :: ns => n.Checked ∧ CheckedAll ns
def CheckedReplaces : List (Replace (List Node)) → Prop
  | [] => True
  | ⟨_, _, _, body⟩ :: rs => CheckedAll body ∧ CheckedReplaces rs
def CheckedArms : List (Arm (List Node)) → Prop
  | [] => True
  | ⟨expr, _, body⟩ :: as =>
    (∀ e, expr = some e → Expr.accepts e = true) ∧ CheckedAll body ∧ CheckedArms as
def CheckedBranches : List (Branch (List Node)) → Prop
  | [] => True
  | ⟨expr, _, body⟩ :: bs => Expr.accepts expr = true ∧ CheckedAll body ∧ CheckedBranches bs
def CheckedOtherwise : Option (List Node) → Prop
  | none => True
  | some body => CheckedAll body
end

section

variable {ts : List Token}

def CheckedTokens (ts : List Token) : Prop :=
  ∀ t ∈ ts, t.kind.Checked

theorem checked_tagHead (hts : CheckedTokens ts) {head : TagHead} (h : head.MadeOf ts) :
    head.Checked where
  attrs a ha := by
    obtain ⟨as, closing, line, span, hmem, ht⟩ := h.attrs a ha
    exact hts _ ht a hmem
  text s hs := by
    obtain ⟨line, span, ht⟩ := h.text s hs
    exact hts _ ht

theorem accepts_condition (hts : CheckedTokens ts) {expr : String} {line : Nat}
    (h : ConditionOf ts expr line) : Expr.accepts expr = true := by
  obtain ⟨span, ht | ht | ⟨e, rfl, ht⟩⟩ := h
  · exact hts _ ht
  · exact hts _ ht
  · exact Expr.accepts_negated (hts _ ht)

mutual
theorem checked_node (hts : CheckedTokens ts) : {n : Node} → n.MadeOf ts → n.Checked
  | .doctype _ _, _ => trivial
  | .tag _ _ _, h => ⟨checked_tagHead hts h.2.1, checked_nodes hts h.2.2⟩
  | .text _ _, h => hts _ h
  | .comment _ _ _, _ => trivial
  | .block _ _ _, h => checked_nodes hts h.2
  | .extension _ _ _ _, h => ⟨hts _ h.1, checked_replaces hts h.2⟩
  | .inclusion _ _ _, h => hts _ h
  | .caseOf _ _ _, h => ⟨hts _ h.1, checked_arms hts h.2⟩
  | .ifElse _ _ _, h => ⟨checked_branches hts h.1, checked_otherwise hts h.2⟩
  | .whileTrue _ _ _, h => ⟨hts _ h.1, checked_nodes hts h.2⟩
  | .each _ _ _ _ _, h => ⟨(hts _ h.1).1, (hts _ h.1).2, checked_nodes hts h.2⟩
theorem checked_nodes (hts : CheckedTokens ts) : {ns : List Node} → MadeOfAll ts ns → CheckedAll ns
  | [], _ => trivial
  | _ :: _, h => ⟨checked_node hts h.1, checked_nodes hts h.2⟩
theorem checked_replaces (hts : CheckedTokens ts) : {rs : List (Replace (List Node))} →
    MadeOfReplaces ts rs → CheckedReplaces rs
  | [], _ => trivial
  | ⟨_, _, _, _⟩ :: _, h => ⟨checked_nodes hts h.2.1, checked_replaces hts h.2.2⟩
theorem checked_arms (hts : CheckedTokens ts) : {as : List (Arm (List Node))} →
    MadeOfArms ts as → CheckedArms as
  | [], _ => trivial
  | ⟨_, _, _⟩ :: _, h => by
    refine ⟨fun e he => ?_, checked_nodes hts h.2.1, checked_arms hts h.2.2⟩
    obtain ⟨span, ht⟩ := h.1 e he
    exact hts _ ht
theorem checked_branches (hts : CheckedTokens ts) : {bs : List (Branch (List Node))} →
    MadeOfBranches ts bs → CheckedBranches bs
  | [], _ => trivial
  | ⟨_, _, _⟩ :: _, h =>
    ⟨accepts_condition hts h.1, checked_nodes hts h.2.1, checked_branches hts h.2.2⟩
theorem checked_otherwise (hts : CheckedTokens ts) : {o : Option (List Node)} →
    MadeOfOtherwise ts o → CheckedOtherwise o
  | none, _ => trivial
  | some _, h => checked_nodes hts h
end

end

def lineCount (source : String) : Nat :=
  1 + Cursor.newlines (Text.normalizeChars source.toList)

theorem vettedTokens_of_tokenize {source : String} {ts : List Token}
    (h : tokenize source = .ok ts) : VettedTokens (lineCount source) ts := by
  have hts := vets_tokenize source
  rw [h] at hts
  exact hts

theorem VettedTokens.checked {lines : Nat} {ts : List Token} (h : VettedTokens lines ts) :
    CheckedTokens ts :=
  fun t ht => (h t ht).checked

def Document.Checked (d : Document) : Prop :=
  ∃ ts, CheckedTokens ts ∧ MadeOfAll ts d.nodes

theorem Document.Checked.nodes {d : Document} (h : d.Checked) : CheckedAll d.nodes := by
  obtain ⟨ts, hts, hmade⟩ := h
  exact checked_nodes hts hmade

theorem checked_of_parse {source : String} {name : Option String} {d : Document}
    (h : parse source name = .ok d) : d.Checked := by
  obtain ⟨ts, ht, hmade⟩ := madeOf_of_parse h
  exact ⟨ts, (vettedTokens_of_tokenize ht).checked, hmade⟩

theorem hasLine_endToken {lines : Nat} (hlines : 1 ≤ lines) {ts : List Token}
    (h : VettedTokens lines ts) : HasLine lines (endToken ts).line := by
  unfold endToken
  split
  · next t ht => exact (h t (List.mem_of_getLast? ht)).line
  · exact ⟨Nat.le_refl 1, hlines⟩

/-- What is wrong with a template that is not accepted, is wrong in its text and on one of its
lines. -/
theorem parse_isLexical {source : String} {name : Option String} {e : Diagnostic}
    (h : parse source name = .error e) :
    ∃ x, e = x.inFile name ∧ parse source none = .error x ∧ x.IsLexical (lineCount source) := by
  obtain ⟨x, rfl, hx, htokens | ⟨ts, ht, t, expected, hmem, rfl⟩⟩ := parse_eq_error h
  · have hvets := vets_tokenize source
    rw [htokens] at hvets
    exact ⟨x, rfl, hx, hvets⟩
  · have hvetted := vettedTokens_of_tokenize ht
    have hline : HasLine (lineCount source) t.line := by
      rcases hmem with hmem | rfl
      · exact (hvetted t hmem).line
      · exact hasLine_endToken (Nat.le_add_right ..) hvetted
    exact ⟨_, rfl, hx, ⟨rfl, rfl, List.forall_mem_singleton.2 rfl, t.line, rfl, hline⟩⟩

theorem lexical_of_parse {source : String} {name : Option String} {e : Diagnostic}
    (h : parse source name = .error e) :
    compileCodes.contains e.cause.code = false ∧ e.filename = name := by
  obtain ⟨x, rfl, -, hx⟩ := parse_isLexical h
  refine ⟨hx.code, ?_⟩
  rw [Diagnostic.inFile, hx.filename]
  rfl

end Stencil.Template
