import Stencil.Template.Document
import Stencil.Template.Lexer

/-! # Parsing templates

Tokens become nodes; what is indented below a line becomes its children. Each function returns what
it read and the tokens left. -/

namespace Stencil.Template

structure Parsed (α : Type) (n : Nat) where
  value : α
  rest : List Token
  bound : rest.length < n

/-- The token where the tokens end: it stands at the last one. -/
def endToken (ts : List Token) : Token :=
  match ts.getLast? with
  | some t => ⟨.eos, t.line, t.span⟩
  | none => ⟨.eos, 1, ⟨0, 0⟩⟩

def unexpected (t : Token) (expected : String) : Diagnostic :=
  ⟨.strayToken t.kind.name expected, [.primary t.span "Unexpected token"], some t.line, none⟩

def unexpectedNext (fin : Token) (ts : List Token) (expected : String) : Diagnostic :=
  unexpected (ts.headD fin) expected

def tagParts (h : TagHead) : (ts : List Token) → Parsed TagHead (ts.length + 1)
  | [] => ⟨h, [], Nat.lt_succ_self _⟩
  | t :: ts => match t.kind with
    | .className c =>
      let p := tagParts { h with classes := h.classes ++ [c] } ts
      ⟨p.value, p.rest, Nat.lt_succ_of_lt p.bound⟩
    | .attrs attrs closing =>
      let p := tagParts
        { h with attrs := h.attrs ++ attrs, selfClosing := h.selfClosing || closing } ts
      ⟨p.value, p.rest, Nat.lt_succ_of_lt p.bound⟩
    | .text s => ⟨{ h with text := some s }, ts, Nat.lt_succ_of_lt (Nat.lt_succ_self _)⟩
    | _ => ⟨h, t :: ts, Nat.lt_succ_self _⟩

def TokenKind.isNewline : TokenKind → Bool
  | .newline => true
  | _ => false

/-- What may stand between an extension and content that follows it as a sibling. -/
def TokenKind.isFiller : TokenKind → Bool
  | .newline => true
  | .comment _ buffered => !buffered
  | _ => false

theorem length_lt_of_dropWhile {p : Token → Bool} {ts r : List Token} {t : Token}
    (h : ts.dropWhile p = t :: r) : r.length < ts.length := by
  have hl := (List.dropWhile_suffix (l := ts) p).length_le
  rw [h, List.length_cons] at hl
  exact hl

mutual
def parseNode (fin : Token) (ts : List Token) : Result (Parsed Node ts.length) :=
  match ts with
  | [] => .error (unexpected fin "")
  | t :: r =>
    let mark := Mark.mk t.line t.span
    match t.kind with
    | .doctype value => .ok ⟨.doctype mark value, r, Nat.lt_succ_self _⟩
    | .text s => .ok ⟨.text mark s, r, Nat.lt_succ_self _⟩
    | .comment s buffered => .ok ⟨.comment mark s buffered, r, Nat.lt_succ_self _⟩
    | .inclusion reference options =>
      .ok ⟨.inclusion mark reference options, r, Nat.lt_succ_self _⟩
    | .tag name selfClosing inline => do
      let ⟨head, body, hb⟩ := tagParts ⟨name, selfClosing, inline, [], [], none⟩ r
      let p ← parseBody fin body
      return ⟨.tag mark head p.value, p.rest, Nat.lt_of_lt_of_le p.bound hb⟩
    | .block name => do
      let p ← parseBody fin r
      return ⟨.block mark name p.value, p.rest, p.bound⟩
    | .whileTrue expr => do
      let p ← parseBody fin r
      return ⟨.whileTrue mark expr p.value, p.rest, p.bound⟩
    | .each value key expr => do
      let p ← parseBody fin r
      return ⟨.each mark value key expr p.value, p.rest, p.bound⟩
    | .extension reference options => do
      let p ← parseIndentedReplaces fin r
      have := p.bound
      let q ← parseSiblingReplaces fin p.rest
      return ⟨.extension mark reference options (p.value ++ q.value), q.rest,
        Nat.lt_of_lt_of_le q.bound p.bound⟩
    | .caseOf expr =>
      match r with
      | ⟨.indent _, _, _⟩ :: r' => do
        let p ← parseArms fin false r'
        return ⟨.caseOf mark expr p.value, p.rest, Nat.lt_succ_of_lt (Nat.lt_succ_of_lt p.bound)⟩
      | _ => .error (unexpectedNext fin r "an indented block of `when` or `default`")
    | .ifTrue expr => do
      let p ← parseBody fin r
      have := p.bound
      let q ← parseElse fin p.rest
      return ⟨.ifElse mark (⟨expr, t.line, p.value⟩ :: q.value.1) q.value.2, q.rest,
        Nat.lt_of_lt_of_le q.bound p.bound⟩
    | .unlessTrue expr => do
      let p ← parseBody fin r
      have := p.bound
      let q ← parseElse fin p.rest
      return ⟨.ifElse mark (⟨"!(" ++ expr ++ ")", t.line, p.value⟩ :: q.value.1) q.value.2, q.rest,
        Nat.lt_of_lt_of_le q.bound p.bound⟩
    | _ => .error (unexpected t "")
termination_by 2 * ts.length

def parseBody (fin : Token) (ts : List Token) : Result (Parsed (List Node) (ts.length + 1)) :=
  match ts with
  | ⟨.indent _, _, _⟩ :: r => do
    let p ← parseNodes fin r
    return ⟨p.value, p.rest, Nat.lt_succ_of_lt p.bound⟩
  | ts => .ok ⟨[], ts, Nat.lt_succ_self _⟩
termination_by 2 * ts.length

def parseNodes (fin : Token) (ts : List Token) : Result (Parsed (List Node) (ts.length + 1)) :=
  match ts with
  | [] => .ok ⟨[], [], Nat.lt_succ_self _⟩
  | t :: r => match t.kind with
    | .newline => do
      let p ← parseNodes fin r
      return ⟨p.value, p.rest, Nat.lt_succ_of_lt p.bound⟩
    | .outdent => .ok ⟨[], r, Nat.lt_succ_of_lt (Nat.lt_succ_self _)⟩
    | .eos => .ok ⟨[], t :: r, Nat.lt_succ_self _⟩
    | _ => do
      let p ← parseNode fin (t :: r)
      have : p.rest.length < r.length + 1 := p.bound
      let q ← parseNodes fin p.rest
      return ⟨p.value :: q.value, q.rest, Nat.lt_succ_of_lt (Nat.lt_of_lt_of_le q.bound p.bound)⟩
termination_by 2 * ts.length + 1

def parseIndentedReplaces (fin : Token) (ts : List Token) :
    Result (Parsed (List (Replace (List Node))) (ts.length + 1)) :=
  match ts with
  | ⟨.indent _, _, _⟩ :: r => do
    let p ← parseReplaces fin r
    return ⟨p.value, p.rest, Nat.lt_succ_of_lt (Nat.lt_succ_of_lt p.bound)⟩
  | ts => .ok ⟨[], ts, Nat.lt_succ_self _⟩
termination_by 2 * ts.length

/-- Content for blocks up to the outdent that closes their level; comments do not count. -/
def parseReplaces (fin : Token) (ts : List Token) :
    Result (Parsed (List (Replace (List Node))) ts.length) :=
  match ts with
  | [] => .error (unexpected fin "`replace`")
  | t :: r => match t.kind with
    | .newline => do
      let p ← parseReplaces fin r
      return ⟨p.value, p.rest, Nat.lt_succ_of_lt p.bound⟩
    | .comment _ _ => do
      let p ← parseReplaces fin r
      return ⟨p.value, p.rest, Nat.lt_succ_of_lt p.bound⟩
    | .outdent => .ok ⟨[], r, Nat.lt_succ_self _⟩
    | .replace position block => do
      let p ← parseBody fin r
      have := p.bound
      let q ← parseReplaces fin p.rest
      return ⟨⟨position, block, t.line, p.value⟩ :: q.value, q.rest, Nat.lt_trans q.bound p.bound⟩
    | _ => .error (unexpected t "`replace`")
termination_by 2 * ts.length

def parseSiblingReplaces (fin : Token) (ts : List Token) :
    Result (Parsed (List (Replace (List Node))) (ts.length + 1)) :=
  match h : ts.dropWhile fun t => t.kind.isFiller with
  | ⟨.replace position block, line, _⟩ :: r =>
    have hr := length_lt_of_dropWhile h
    do
      let p ← parseBody fin r
      have := p.bound
      let q ← parseSiblingReplaces fin p.rest
      return ⟨⟨position, block, line, p.value⟩ :: q.value, q.rest,
        Nat.lt_succ_of_lt (Nat.lt_of_lt_of_le (Nat.lt_of_lt_of_le q.bound p.bound) hr)⟩
  | _ => .ok ⟨[], ts, Nat.lt_succ_self _⟩
termination_by 2 * ts.length

/-- The arms of a case up to the outdent that closes their level; only one may be the default. -/
def parseArms (fin : Token) (hasDefault : Bool) (ts : List Token) :
    Result (Parsed (List (Arm (List Node))) ts.length) :=
  match ts with
  | [] => .error (unexpected fin "`when` or `default`")
  | t :: r => match t.kind with
    | .newline => do
      let p ← parseArms fin hasDefault r
      return ⟨p.value, p.rest, Nat.lt_succ_of_lt p.bound⟩
    | .comment _ _ => do
      let p ← parseArms fin hasDefault r
      return ⟨p.value, p.rest, Nat.lt_succ_of_lt p.bound⟩
    | .outdent => .ok ⟨[], r, Nat.lt_succ_self _⟩
    | .when expr => do
      let p ← parseBody fin r
      have := p.bound
      let q ← parseArms fin hasDefault p.rest
      return ⟨⟨some expr, t.line, p.value⟩ :: q.value, q.rest, Nat.lt_trans q.bound p.bound⟩
    | .default =>
      if hasDefault then .error (unexpected t "a single `default`")
      else do
        let p ← parseBody fin r
        have := p.bound
        let q ← parseArms fin true p.rest
        return ⟨⟨none, t.line, p.value⟩ :: q.value, q.rest, Nat.lt_trans q.bound p.bound⟩
    | _ => .error (unexpected t "`when` or `default`")
termination_by 2 * ts.length

/-- The conditions and the last resort that follow a condition on its own level. -/
def parseElse (fin : Token) (ts : List Token) :
    Result (Parsed (List (Branch (List Node)) × Option (List Node)) (ts.length + 1)) :=
  match h : ts.dropWhile fun t => t.kind.isNewline with
  | t :: r =>
    have hr := length_lt_of_dropWhile h
    match t.kind with
    | .elseIf expr => do
      let p ← parseBody fin r
      have := p.bound
      let q ← parseElse fin p.rest
      return ⟨(⟨expr, t.line, p.value⟩ :: q.value.1, q.value.2), q.rest,
        Nat.lt_succ_of_lt (Nat.lt_of_lt_of_le (Nat.lt_of_lt_of_le q.bound p.bound) hr)⟩
    | .otherwise => do
      let p ← parseBody fin r
      return ⟨([], some p.value), p.rest, Nat.lt_succ_of_lt (Nat.lt_of_lt_of_le p.bound hr)⟩
    | _ => .ok ⟨([], none), ts, Nat.lt_succ_self _⟩
  | [] => .ok ⟨([], none), ts, Nat.lt_succ_self _⟩
termination_by 2 * ts.length
end

def parseAll (fin : Token) (ts : List Token) : Result (List Node) :=
  match ts with
  | [] => .ok []
  | t :: r => match t.kind with
    | .newline => parseAll fin r
    | .eos => .ok []
    | _ =>
      match parseNode fin (t :: r) with
      | .error e => .error e
      | .ok p =>
        have : p.rest.length < r.length + 1 := p.bound
        (parseAll fin p.rest).map (p.value :: ·)
termination_by ts.length

def parseTokens (filename : Option String) (ts : List Token) : Result Document :=
  match parseAll (endToken ts) ts with
  | .error e => .error (e.inFile filename)
  | .ok nodes => .ok ⟨nodes, filename⟩

def parse (source : String) (filename : Option String) : Result Document :=
  match tokenize source with
  | .error e => .error (e.inFile filename)
  | .ok ts => parseTokens filename ts

end Stencil.Template
