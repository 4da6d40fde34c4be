import Stencil.Proofs.Compile.Emitted
import Stencil.Proofs.Template.Interpolated
import Stencil.Template.Parser

/-! # Literals

The literals of a document that transforms are looked up for, and what stands in a program for the
value of one. Without a transform that is what the literal is split into: for a plain one in which
no marker is escaped, the literal itself. -/

namespace Stencil

/-! ## Plain texts -/

def EscapesMarker (text : String) : Prop :=
  ['\\', '#', '\x7b'] <:+: text.toList ∨ ['\\', '!', '\x7b'] <:+: text.toList

instance : DecidablePred EscapesMarker := fun text =>
  inferInstanceAs (Decidable (['\\', '#', '\x7b'] <:+: text.toList ∨
    ['\\', '!', '\x7b'] <:+: text.toList))

theorem escapesMarker_of_marker {text : String} {m : Char} (hm : isMarker m = true)
    (h : ['\\', m, '\x7b'] <:+: text.toList) : EscapesMarker text := by
  rcases isMarker_iff.1 hm with rfl | rfl
  · exact .inl h
  · exact .inr h

def isPlainText (text : String) : Bool :=
  match segments text with
  | .ok ss => isPlain ss
  | .error _ => false

theorem withBackslashes_eq_or (cs : List Char) : withBackslashes cs = cs ∨
    ∃ m, isMarker m = true ∧ ['\\', m, '\x7b'] <:+: withBackslashes cs := by
  induction cs with
  | nil => exact .inl rfl
  | cons c cs ih =>
    rw [withBackslashes]
    split
    · next h =>
      obtain ⟨hmarker, hbrace⟩ := Bool.and_eq_true_iff.1 h
      obtain ⟨rest, rfl⟩ : ∃ rest, cs = '\x7b' :: rest := by
        cases cs with
        | nil => cases hbrace
        | cons d rest => exact ⟨rest, by rw [Option.some.inj (beq_iff_eq.1 hbrace)]⟩
      exact .inr ⟨c, hmarker, [], withBackslashes rest, rfl⟩
    · rcases ih with ih | ⟨m, hm, hinfix⟩
      · exact .inl (by rw [ih]; rfl)
      · exact .inr ⟨m, hm, hinfix.trans (List.infix_cons List.infix_rfl)⟩

/-- A text without expressions in which no marker is escaped is a single run. -/
theorem segments_plain {text : String} {ss : List Segment} (h : segments text = .ok ss)
    (hplain : isPlain ss = true) (hescape : ¬ EscapesMarker text) :
    text = "" ∧ ss = [] ∨ ss = [.literal text] := by
  have hchars : ss.flatMap Segment.chars = text.toList :=
    chars_segmentsFrom h fun m hm => by cases hm
  obtain ⟨-, hchain⟩ := areMaximal_segmentsFrom h
  match ss with
  | [] => exact .inl ⟨String.toList_eq_nil_iff.1 hchars.symm, rfl⟩
  | [.literal run] =>
    have hrun : withBackslashes run.toList = text.toList := by simpa [Segment.chars] using hchars
    rcases withBackslashes_eq_or run.toList with heq | ⟨m, hm, hinfix⟩
    · exact .inr (by rw [String.toList_inj.1 (heq.symm.trans hrun)])
    · exact absurd (escapesMarker_of_marker hm (hrun ▸ hinfix)) hescape
  | [.interpolation e escape offset] => cases hplain
  | s :: t :: ss =>
    -- Of two neighbours one is an expression.
    obtain ⟨hs, ht, -⟩ : s.isLiteral = true ∧ t.isLiteral = true ∧ _ := by
      simpa [isPlain] using hplain
    rcases (List.isChain_cons_cons.1 hchain).1 with hnot | hnot
    · rw [hs] at hnot
      cases hnot
    · rw [ht] at hnot
      cases hnot

/-! ## Values in a program -/

/-- What stands for the value of a literal attribute, from the value that a transform gave for
it. -/
def attrContent (line : Nat) (ss : List Segment) : Option String → List Instruction
  | some s => [.text s]
  | none => ss.map (Segment.instruction line)

def optionContent (ss : List Segment) : Option String → List Part
  | some s => [.text s]
  | none => ss.map Segment.part

namespace Compiler

variable (c : Compiler)

theorem literalAttr_eq (tag name value : String) (line : Nat) :
    c.literalAttr tag name value line = (do
      let ss ← segmentsOnLine value line
      return .text (" " ++ name ++ "=\"") :: attrContent line ss
        (if isPlain ss then c.transforms.run name value (.tag tag) c.options else none) ++
          [.text "\""]) :=
  rfl

theorem optionText_eq (name value : String) (line : Nat) :
    c.optionText name value line = (do
      let ss ← segmentsOnLine value line
      return optionContent ss
        (if isPlain ss then c.transforms.run name value .option c.options else none)) :=
  rfl

end Compiler

theorem leaves_attrContent (line : Nat) (ss : List Segment) (transformed : Option String) :
    ∀ i ∈ attrContent line ss transformed, i.isLeaf = true := by
  cases transformed with
  | some s => simp [attrContent, Instruction.isLeaf]
  | none => exact leaves_segments line ss

/-! ## Documents -/

structure Literal where
  name : String
  value : String
  deriving DecidableEq, Repr

def Attribute.literal? (a : Attribute) : Option Literal :=
  match a.value with
  | .literal value => some ⟨a.name, value⟩
  | .expr _ => none
  | .boolean => none

theorem forall_literals_cons {fit : Literal → Prop} {a : Attribute} {as : List Attribute} :
    (∀ l ∈ (a :: as).filterMap Attribute.literal?, fit l) ↔
      (∀ l ∈ a.literal?, fit l) ∧ ∀ l ∈ as.filterMap Attribute.literal?, fit l := by
  rw [List.filterMap_cons]
  cases a.literal? with
  | none => simp
  | some l => simp

namespace Template

/-- The literals of a tag but those for its classes and its id, which no transform gets. -/
def TagHead.literals (head : TagHead) : List Literal :=
  (head.attrs.filterMap Attribute.literal?).filter fun l => l.name != "class" && l.name != "id"

mutual
def Node.literals : Node → List Literal
  | .doctype _ _ => []
  | .tag _ head body => head.literals ++ literalsOf body
  | .text _ _ => []
  | .comment _ _ _ => []
  | .block _ _ body => literalsOf body
  | .extension _ _ options replaces =>
    options.filterMap Attribute.literal? ++ literalsOfReplaces replaces
  | .inclusion _ _ options => options.filterMap Attribute.literal?
  | .caseOf _ _ arms => literalsOfArms arms
  | .ifElse _ branches otherwise => literalsOfBranches branches ++ literalsOfOtherwise otherwise
  | .whileTrue _ _ body => literalsOf body
  | .each _ _ _ _ body => literalsOf body
def literalsOf : List Node → List Literal
  | [] => []
  | n :: ns => n.literals ++ literalsOf ns
def literalsOfReplaces : List (Replace (List Node)) → List Literal
  | [] => []
  | ⟨_, _, _, body⟩ :: rs => literalsOf body ++ literalsOfReplaces rs
def literalsOfArms : List (Arm (List Node)) → List Literal
  | [] => []
  | ⟨_, _, body⟩ :: as => literalsOf body ++ literalsOfArms as
def literalsOfBranches : List (Branch (List Node)) → List Literal
  | [] => []
  | ⟨_, _, body⟩ :: bs => literalsOf body ++ literalsOfBranches bs
def literalsOfOtherwise : Option (List Node) → List Literal
  | none => []
  | some body => literalsOf body
end

def Document.literals (d : Document) : List Literal :=
  literalsOf d.nodes

def literalsIn (source : String) : List Literal :=
  match parse source none with
  | .ok d => d.literals
  | .error _ => []

theorem literals_of_parse {source : String} {filename : Option String} {d : Document}
    (h : parse source filename = .ok d) : d.literals = literalsIn source := by
  unfold literalsIn
  unfold parse parseTokens at h ⊢
  split at h
  · cases h
  · split at h
    · cases h
    · obtain rfl := Except.ok.inj h
      rfl

end Template

def Files.LiteralsAre (fit : Literal → Prop) (files : Files) : Prop :=
  ∀ f ∈ files.entries, ∀ l ∈ Template.literalsIn f.source, fit l

end Stencil
