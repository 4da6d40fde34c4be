import Stencil.Template.Parser

/-! # Printing documents

The canonical source of a document: one line for every tag and directive, two spaces for every
level. A document is turned into an outline first, the lines with the lines below them; text and
tokens are both read off that. -/

namespace Stencil.Template

/-! ## Lines -/

inductive Line where
  | tag (head : TagHead)
  | doctype (value : String)
  | text (text : String)
  | comment (text : String) (buffered : Bool)
  | block (name : String)
  | extension (reference : String) (options : List Attribute)
  | inclusion (reference : String) (options : List Attribute)
  | replace (position : Position) (block : String)
  | caseOf (expr : String)
  | when (expr : String)
  | default
  | each (value : String) (key : Option String) (expr : String)
  | whileTrue (expr : String)
  | ifTrue (expr : String)
  | elseIf (expr : String)
  | otherwise

def escapedChar (c : Char) : List Char :=
  if c == '\\' || c == '"' then ['\\', c]
  else if c == '\n' then ['\\', 'n']
  else if c == '\r' then ['\\', 'r']
  else if c == '\t' then ['\\', 't']
  else [c]

def quotedChars (text : String) : List Char :=
  '"' :: text.toList.flatMap escapedChar ++ ['"']

def valueChars : AttrValue → List Char
  | .boolean => []
  | .literal text => quotedChars text
  | .expr source => source.toList

/-- A name, and behind it the sign that tells whether its value is escaped. -/
def attrChars (a : Attribute) : List Char :=
  match a.value with
  | .boolean => a.name.toList
  | v => a.name.toList ++ (if a.escaped then ['='] else ['!', '=']) ++ valueChars v

def attrsChars : List Attribute → List Char
  | [] => []
  | [a] => attrChars a
  | a :: as => attrChars a ++ [',', ' '] ++ attrsChars as

def parenthesized (as : List Attribute) : List Char :=
  '(' :: attrsChars as ++ [')']

def textChars : Option String → List Char
  | some text => ' ' :: text.toList
  | none => []

def tailChars (classes : List String) (attrs : List Attribute) (text : Option String) : List Char :=
  classes.flatMap (fun n => '.' :: n.toList) ++
    ((if attrs.isEmpty then [] else parenthesized attrs) ++ textChars text)

def tagChars (head : TagHead) : List Char :=
  head.name.toList ++ ((if head.selfClosing then ['/'] else []) ++
    tailChars head.classes head.attrs head.text)

/-- Options and a reference. A reference that starts with a parenthesis is not taken for options if
it has some in front, even if these are none. -/
def referenceChars (reference : String) (options : List Attribute) : List Char :=
  (if options.isEmpty && reference.toList.head? != some '(' then [] else parenthesized options) ++
    ' ' :: reference.toList

def Position.word : Position → String
  | .before => "prepend"
  | .replace => "replace"
  | .after => "append"

def directiveChars (word text : String) : List Char :=
  word.toList ++ ' ' :: text.toList

namespace Line

def chars : Line → List Char
  | .tag head => tagChars head
  | .doctype value => directiveChars "doctype" value
  | .text t => '|' :: ' ' :: t.toList
  | .comment t true => '/' :: '/' :: t.toList
  | .comment t false => '/' :: '/' :: '-' :: t.toList
  | .block name => directiveChars "block" name
  | .extension reference options => "extends".toList ++ referenceChars reference options
  | .inclusion reference options => "include".toList ++ referenceChars reference options
  | .replace position name => directiveChars position.word name
  | .caseOf e => directiveChars "case" e
  | .when e => directiveChars "when" e
  | .default => "default".toList
  | .each value none e => directiveChars "each" (value ++ " in " ++ e)
  | .each value (some key) e => directiveChars "each" (value ++ ", " ++ key ++ " in " ++ e)
  | .whileTrue e => directiveChars "while" e
  | .ifTrue e => directiveChars "if" e
  | .elseIf e => directiveChars "else if" e
  | .otherwise => "else".toList

def kinds : Line → List TokenKind
  | .tag head => .tag head.name head.selfClosing head.inline :: (head.classes.map .className ++
    ((if head.attrs.isEmpty then [] else [.attrs head.attrs false]) ++ head.text.toList.map .text))
  | .doctype value => [.doctype value]
  | .text t => [.text t]
  | .comment t buffered => [.comment t buffered]
  | .block name => [.block name]
  | .extension reference options => [.extension reference options]
  | .inclusion reference options => [.inclusion reference options]
  | .replace position name => [.replace position name]
  | .caseOf e => [.caseOf e]
  | .when e => [.when e]
  | .default => [.default]
  | .each value key e => [.each value key e]
  | .whileTrue e => [.whileTrue e]
  | .ifTrue e => [.ifTrue e]
  | .elseIf e => [.elseIf e]
  | .otherwise => [.otherwise]

end Line

/-! ## Outlines -/

inductive Outline where
  | mk (line : Line) (below : List Outline)

mutual
def Outline.leveled (level : Nat) : Outline → List (Nat × Line)
  | ⟨line, below⟩ => (level, line) :: leveledAll (level + 1) below
def leveledAll (level : Nat) : List Outline → List (Nat × Line)
  | [] => []
  | o :: os => o.leveled level ++ leveledAll level os
end

/-- The text of lines: two spaces for every level, and a line end behind each. -/
def linesChars : List (Nat × Line) → List Char
  | [] => []
  | (level, line) :: ls =>
    List.replicate (2 * level) ' ' ++ (line.chars ++ '\n' :: linesChars ls)

mutual
/-- The lines of a node; a condition has one for each branch. -/
def Node.outlines : Node → List Outline
  | .doctype _ value => [⟨.doctype value, []⟩]
  | .tag _ head body => [⟨.tag head, outlinesOf body⟩]
  | .text _ text => [⟨.text text, []⟩]
  | .comment _ text buffered => [⟨.comment text buffered, []⟩]
  | .block _ name body => [⟨.block name, outlinesOf body⟩]
  | .extension _ reference options replaces =>
    [⟨.extension reference options, outlinesOfReplaces replaces⟩]
  | .inclusion _ reference options => [⟨.inclusion reference options, []⟩]
  | .caseOf _ expr arms => [⟨.caseOf expr, outlinesOfArms arms⟩]
  | .ifElse _ branches otherwise =>
    outlinesOfBranches true branches ++ outlinesOfOtherwise otherwise
  | .whileTrue _ expr body => [⟨.whileTrue expr, outlinesOf body⟩]
  | .each _ value key expr body => [⟨.each value key expr, outlinesOf body⟩]
def outlinesOf : List Node → List Outline
  | [] => []
  | n :: ns => n.outlines ++ outlinesOf ns
def outlinesOfReplaces : List (Replace (List Node)) → List Outline
  | [] => []
  | ⟨position, block, _, body⟩ :: rs =>
    ⟨.replace position block, outlinesOf body⟩ :: outlinesOfReplaces rs
def outlinesOfArms : List (Arm (List Node)) → List Outline
  | [] => []
  | ⟨some expr, _, body⟩ :: as => ⟨.when expr, outlinesOf body⟩ :: outlinesOfArms as
  | ⟨none, _, body⟩ :: as => ⟨.default, outlinesOf body⟩ :: outlinesOfArms as
def outlinesOfBranches (first : Bool) : List (Branch (List Node)) → List Outline
  | [] => []
  | ⟨expr, _, body⟩ :: bs =>
    ⟨if first then .ifTrue expr else .elseIf expr, outlinesOf body⟩ :: outlinesOfBranches false bs
def outlinesOfOtherwise : Option (List Node) → List Outline
  | none => []
  | some body => [⟨.otherwise, outlinesOf body⟩]
end

/-- The canonical source of a document. -/
def Document.print (d : Document) : String :=
  String.ofList (linesChars (leveledAll 0 (outlinesOf d.nodes)))

/-! ## Well-formed documents -/

def OneLine (s : String) : Prop :=
  ∀ c ∈ s.toList, c ≠ '\n' ∧ c ≠ '\r'

def Trimmed (s : String) : Prop :=
  s.toList ≠ [] ∧ Text.trim s.toList = s.toList

def Readable (s : String) : Prop :=
  ∃ ss, segments s = .ok ss ∧
    ∀ e escape offset, .interpolation e escape offset ∈ ss → Expr.accepts e = true

structure IsExpr (e : String) : Prop where
  trimmed : Trimmed e
  oneLine : OneLine e
  accepted : Expr.accepts e = true

def isPlainChar (c : Char) : Bool :=
  !(Text.isBlank c || isQuote c || isOpening c || isClosing c || c == '\\' || c == '=' ||
    c == '!' ||
    c == ',')

def PlainName (name : String) : Prop :=
  name.toList ≠ [] ∧ ∀ c ∈ name.toList, isPlainChar c = true

def IsString (e : String) : Prop :=
  Attribute.isQuoted e.toList = true ∧ ∃ span s, Expr.parse e = .ok (.lit span (.str s))

/-- An attribute whose value is classified as it would be when it is read. -/
structure WellFormedAttribute (a : Attribute) : Prop where
  name : PlainName a.name
  value : match a.value with
    | .boolean => a.escaped = true
    | .literal text => Readable text
    | .expr e => IsExpr e ∧ ¬ IsString e

def IsTagName (name : String) : Prop :=
  (∀ c ∈ name.toList, isNameChar c = true) ∧ (∃ c, name.toList.head? = some c ∧
    isWordChar c = true) ∧
    (∃ c, name.toList.getLast? = some c ∧ isWordChar c = true) ∧ ∀ d ∈ directives, d.1 ≠ name

def IsClassName (name : String) : Prop :=
  name.toList ≠ [] ∧ ∀ c ∈ name.toList, isClassChar c = true

structure TagHead.WellFormed (head : TagHead) : Prop where
  name : IsTagName head.name
  selfClosing : isVoidTag head.name = true → head.selfClosing = true
  inline : head.inline = isInlineTag head.name
  classes : ∀ n ∈ head.classes, IsClassName n
  attrs : ∀ a ∈ head.attrs, WellFormedAttribute a
  text : ∀ t, head.text = some t → OneLine t ∧ Text.allBlank t.toList = false ∧ Readable t

def IsVariable (name : String) : Prop :=
  ∃ c cs, name.toList = c :: cs ∧ (c.isAlpha || c == '_' || c == '$') = true ∧
    ∀ x ∈ cs, (isWordChar x || x == '$') = true

/-- A variable may go on with what it may start with. -/
theorem goesOn_of_starts {c : Char} (h : (c.isAlpha || c == '_' || c == '$') = true) :
    (isWordChar c || c == '$') = true := by
  simp only [Bool.or_eq_true] at h ⊢
  rcases h with (h | h) | h
  · exact .inl (by simp [isWordChar, Char.isAlphanum, h])
  · exact .inl (by simp [isWordChar, h])
  · exact .inr h

def Line.WellFormed : Line → Prop
  | .tag head => head.WellFormed
  | .doctype value => Trimmed value ∧ OneLine value
  | .text t => OneLine t ∧ Readable t
  | .comment t buffered => OneLine t ∧ (buffered = true → t.toList.head? ≠ some '-')
  | .block name => isBlockName name.toList = true
  | .extension reference options =>
    Trimmed reference ∧ OneLine reference ∧ ∀ a ∈ options, WellFormedAttribute a
  | .inclusion reference options =>
    Trimmed reference ∧ OneLine reference ∧ ∀ a ∈ options, WellFormedAttribute a
  | .replace _ name => isBlockName name.toList = true
  | .caseOf e => IsExpr e
  | .when e => IsExpr e
  | .default => True
  | .each value key e => IsVariable value ∧ (∀ k, key = some k → IsVariable k) ∧ IsExpr e
  | .whileTrue e => IsExpr e
  | .ifTrue e => IsExpr e
  | .elseIf e => IsExpr e
  | .otherwise => True

mutual
/-- A node that can be written with one line for each of its parts. -/
def Node.WellFormed : Node → Prop
  | .doctype _ value => (Line.doctype value).WellFormed
  | .tag _ head body => (Line.tag head).WellFormed ∧ WellFormedAll body
  | .text _ text => (Line.text text).WellFormed
  | .comment _ text buffered => (Line.comment text buffered).WellFormed
  | .block _ name body => (Line.block name).WellFormed ∧ WellFormedAll body
  | .extension _ reference options replaces =>
    (Line.extension reference options).WellFormed ∧ WellFormedReplaces replaces
  | .inclusion _ reference options => (Line.inclusion reference options).WellFormed
  | .caseOf _ expr arms =>
    (Line.caseOf expr).WellFormed ∧ arms ≠ [] ∧ (arms.filter (·.expr.isNone)).length ≤ 1 ∧
      WellFormedArms arms
  | .ifElse _ branches otherwise =>
    branches ≠ [] ∧ WellFormedBranches branches ∧ WellFormedOtherwise otherwise
  | .whileTrue _ expr body => (Line.whileTrue expr).WellFormed ∧ WellFormedAll body
  | .each _ value key expr body => (Line.each value key expr).WellFormed ∧ WellFormedAll body
def WellFormedAll : List Node → Prop
  | [] => True
  | n :: ns => n.WellFormed ∧ WellFormedAll ns
def WellFormedReplaces : List (Replace (List Node)) → Prop
  | [] => True
  | ⟨position, block, _, body⟩ :: rs =>
    (Line.replace position block).WellFormed ∧ WellFormedAll body ∧ WellFormedReplaces rs
def WellFormedArms : List (Arm (List Node)) → Prop
  | [] => True
  | ⟨some expr, _, body⟩ :: as =>
    (Line.when expr).WellFormed ∧ WellFormedAll body ∧ WellFormedArms as
  | ⟨none, _, body⟩ :: as => WellFormedAll body ∧ WellFormedArms as
def WellFormedBranches : List (Branch (List Node)) → Prop
  | [] => True
  | ⟨expr, _, body⟩ :: bs =>
    (Line.ifTrue expr).WellFormed ∧ WellFormedAll body ∧ WellFormedBranches bs
def WellFormedOtherwise : Option (List Node) → Prop
  | none => True
  | some body => WellFormedAll body
end

def Document.WellFormed (d : Document) : Prop :=
  WellFormedAll d.nodes

/-! ## Documents without places -/

/-- The mark of a node that is not looked for in any text. -/
def noMark : Mark :=
  ⟨0, ⟨0, 0⟩⟩

mutual
def Node.unmarked : Node → Node
  | .doctype _ value => .doctype noMark value
  | .tag _ head body => .tag noMark head (unmarkedAll body)
  | .text _ text => .text noMark text
  | .comment _ text buffered => .comment noMark text buffered
  | .block _ name body => .block noMark name (unmarkedAll body)
  | .extension _ reference options replaces =>
    .extension noMark reference options (unmarkedReplaces replaces)
  | .inclusion _ reference options => .inclusion noMark reference options
  | .caseOf _ expr arms => .caseOf noMark expr (unmarkedArms arms)
  | .ifElse _ branches otherwise =>
    .ifElse noMark (unmarkedBranches branches) (unmarkedOtherwise otherwise)
  | .whileTrue _ expr body => .whileTrue noMark expr (unmarkedAll body)
  | .each _ value key expr body => .each noMark value key expr (unmarkedAll body)
def unmarkedAll : List Node → List Node
  | [] => []
  | n :: ns => n.unmarked :: unmarkedAll ns
def unmarkedReplaces : List (Replace (List Node)) → List (Replace (List Node))
  | [] => []
  | ⟨position, block, _, body⟩ :: rs => ⟨position, block, 0, unmarkedAll body⟩ ::
      unmarkedReplaces rs
def unmarkedArms : List (Arm (List Node)) → List (Arm (List Node))
  | [] => []
  | ⟨expr, _, body⟩ :: as => ⟨expr, 0, unmarkedAll body⟩ :: unmarkedArms as
def unmarkedBranches : List (Branch (List Node)) → List (Branch (List Node))
  | [] => []
  | ⟨expr, _, body⟩ :: bs => ⟨expr, 0, unmarkedAll body⟩ :: unmarkedBranches bs
def unmarkedOtherwise : Option (List Node) → Option (List Node)
  | none => none
  | some body => some (unmarkedAll body)
end

def Document.unmarked (d : Document) : Document :=
  ⟨unmarkedAll d.nodes, d.filename⟩

end Stencil.Template
