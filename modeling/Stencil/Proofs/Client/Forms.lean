import Stencil.Client.Function
import Stencil.Compile.Node
import Stencil.Proofs.Expr.Enclosed
import Stencil.Render.Run
import Stencil.Template.Parser

/-! # Where expressions are put in parentheses

An expression is put in parentheses where it is copied into the text of a longer one: into the
negation that an `unless` becomes, and into the client function. It keeps its structure there, so it
evaluates to what it does alone, and what stands around it is read as it was written. -/

namespace Stencil

open Template

/-! ## Unless -/

theorem evaluate_negated {s : String} (h : Expr.accepts s = true) (scope : Scope) :
    evaluate ("!(" ++ s ++ ")") scope = (evaluate s scope).map fun v => .bool !v.truthy := by
  obtain ⟨e, he⟩ := exists_ok h
  obtain ⟨e', he', hbare⟩ := Expr.parse_negated he
  have hvalue : e'.eval scope = e.eval scope >>= fun o =>
    .ok (.made (UnaryOp.not.apply o.value)) := by
    rw [← Expr.eval_bare, hbare, Expr.eval, Expr.eval_bare]
    rfl
  rw [evaluate, evaluate, he', he]
  simp only [hvalue]
  cases e.eval scope with
  | error x => rfl
  | ok o => rfl

/-- What an `unless` renders: its body if the expression is false, and else what follows it; it
fails with the expression. -/
def Frame.unlessTrue (f : Frame) (s : String) (line : Nat) (body rest : Rendering) : Rendering :=
  match evaluate s f.scope with
  | .error e => .error ⟨.evaluation e, f.filename, "!(" ++ s ++ ")", line⟩
  | .ok v => if v.truthy then rest else body

theorem run_unless {s : String} (h : Expr.accepts s = true) (root : Binding) (limit : Nat)
    (f : Frame)
    (line : Nat) (body : List Instruction) (bs : List (Guarded (List Instruction)))
    (otherwise : Option (List Instruction)) :
    (Instruction.ifElse (⟨"!(" ++ s ++ ")", body, line⟩ :: bs) otherwise).run root limit f =
      f.unlessTrue s line (runAll root limit f body)
        (runBranches root limit f (fun _ => runOption root limit f otherwise) bs) := by
  rw [Instruction.run, runBranches, Setting.holds, Setting.eval, evaluate_negated h,
    Frame.unlessTrue]
  cases evaluate s f.scope with
  | error e => rfl
  | ok v =>
    have htruthy : (Value.bool !v.truthy).truthy = !v.truthy := rfl
    simp only [Except.map, htruthy]
    cases v.truthy with
    | true => rfl
    | false => rfl

theorem node_unless {fin : Token} {s : String} {line : Nat} {span : Span} {ts : List Token}
    {p : Template.Parsed Node (ts.length + 1)}
    (hp : parseNode fin (⟨.unlessTrue s, line, span⟩ :: ts) = .ok p) {c : Compiler}
    {indent : String}
    {is : List Instruction} (hc : c.node indent p.value = .ok is) :
    ∃ q body bs otherwise, parseBody fin ts = .ok q ∧ c.nodes indent q.value = .ok body ∧
      is = [.ifElse (⟨"!(" ++ s ++ ")", coalesce body, line⟩ :: bs) otherwise] := by
  rw [parseNode] at hp
  obtain ⟨q, hq, hp⟩ := bind_eq_ok.1 hp
  obtain ⟨r, hr, hp⟩ := bind_eq_ok.1 hp
  obtain rfl := Except.ok.inj hp
  rw [Compiler.node, Compiler.guarded] at hc
  obtain ⟨branches, hb, hc⟩ := bind_eq_ok.1 hc
  obtain ⟨otherwise, ho, hc⟩ := bind_eq_ok.1 hc
  obtain ⟨body, hbody, hb⟩ := bind_eq_ok.1 hb
  obtain ⟨bs, hbs, hb⟩ := bind_eq_ok.1 hb
  obtain rfl := Except.ok.inj hb
  obtain rfl := Except.ok.inj hc
  exact ⟨q, body, bs, otherwise, hq, hbody, rfl⟩

/-! ## Client functions -/

def OptionEntry.exprs (o : OptionEntry) : List String :=
  match o.value with
  | .boolean => []
  | .expr e => [e]
  | .text parts => parts.filterMap fun
    | .text _ => none
    | .expr e => some e

def Instruction.exprs : Instruction → List String
  | .text _ => []
  | .output e _ _ => [e]
  | .attr _ e _ _ => [e]
  | .ifElse branches _ => branches.map (·.expr)
  | .whileTrue e _ _ => [e]
  | .caseOf e arms _ => e :: arms.filterMap (·.expr)
  | .each _ _ e _ _ => [e]
  | .block _ _ => []
  | .extension _ os _ _ _ => os.flatMap OptionEntry.exprs
  | .inclusion _ os _ _ => os.flatMap OptionEntry.exprs

namespace Client

def Encloses (t s : String) : Prop :=
  ∃ u v, t = u ++ "(" ++ s ++ ")" ++ v

section
variable {s t : String}

theorem encloses_front {a b : String} (u : String) (ha : a.toList.getLast? = some '(')
    (hb : b.toList.head? = some ')') : Encloses (u ++ a ++ s ++ b) s := by
  obtain ⟨as, has⟩ := List.getLast?_eq_some_iff.1 ha
  obtain ⟨bs, hbs⟩ := List.head?_eq_some_iff.1 hb
  refine ⟨u ++ String.ofList as, String.ofList bs, String.toList_injective ?_⟩
  simp [has, hbs]

theorem encloses_pieces {a b : String} (ha : a.toList.getLast? = some '(')
    (hb : b.toList.head? = some ')') : Encloses (a ++ s ++ b) s := by
  simpa using encloses_front "" ha hb

theorem Encloses.between (h : Encloses t s) (a b : String) : Encloses (a ++ t ++ b) s := by
  obtain ⟨u, v, rfl⟩ := h
  exact ⟨a ++ u, v ++ b, by simp only [String.append_assoc]⟩

theorem Encloses.before (h : Encloses t s) (b : String) : Encloses (t ++ b) s := by
  simpa using h.between "" b

theorem Encloses.behind (h : Encloses t s) (a : String) : Encloses (a ++ t) s := by
  simpa using h.between a ""

theorem encloses_intercalate {sep : String} {ts : List String} (h : ∃ t ∈ ts, Encloses t s) :
    Encloses (String.intercalate sep ts) s := by
  induction ts with
  | nil =>
    obtain ⟨t, ht, -⟩ := h
    cases ht
  | cons t ts ih =>
    cases ts with
    | nil =>
      obtain ⟨t', ht, hs⟩ := h
      obtain rfl := List.mem_singleton.1 ht
      rwa [String.intercalate_singleton]
    | cons t' ts =>
      rw [String.intercalate_cons_cons]
      obtain ⟨t'', ht, hs⟩ := h
      rcases List.mem_cons.1 ht with rfl | ht
      · rw [String.append_assoc]
        exact hs.before _
      · exact (ih ⟨t'', ht, hs⟩).behind _

theorem encloses_text (s : String) : Encloses (text s) s :=
  encloses_pieces (by decide) (by decide)

theorem encloses_test (s : String) : Encloses (test s) s :=
  encloses_pieces (by decide) (by decide)

theorem encloses_output (s : String) (format : Format) : Encloses (output s format) s := by
  cases format with
  | escape => exact encloses_pieces (by decide) (by decide)
  | raw => exact encloses_text s
  | classList => exact encloses_pieces (by decide) (by decide)

theorem Encloses.pushed (h : Encloses t s) : Encloses (push t) s :=
  h.between _ _

theorem encloses_optionValue {o : OptionEntry} (h : s ∈ o.exprs) :
    Encloses (optionValue o.value) s := by
  obtain ⟨name, value⟩ := o
  cases value with
  | boolean => cases h
  | expr e =>
    obtain rfl := List.mem_singleton.1 h
    exact encloses_pieces rfl rfl
  | text parts =>
    obtain ⟨p, hp, hs⟩ := List.mem_filterMap.1 h
    have hcopied : Encloses (part p) s := by
      cases p with
      | text _ => cases hs
      | expr e =>
        obtain rfl := Option.some.inj hs
        exact encloses_text _
    cases parts with
    | nil => cases hp
    | cons p' ps =>
      exact (encloses_intercalate ⟨_, List.mem_map_of_mem hp, hcopied⟩).between _ _

theorem encloses_options {os : List OptionEntry} (h : s ∈ os.flatMap OptionEntry.exprs) :
    Encloses (options os) s := by
  obtain ⟨o, ho, hs⟩ := List.mem_flatMap.1 h
  exact (encloses_intercalate ⟨_, List.mem_map_of_mem ho,
    (encloses_optionValue hs).behind _⟩).between _ _

variable (recording : Bool)

theorem encloses_conditions {bs : List (Guarded (List Instruction))} (h : s ∈ bs.map (·.expr)) :
    ∃ t ∈ conditions recording bs, Encloses t s := by
  induction bs with
  | nil => cases h
  | cons b bs ih =>
    obtain ⟨e, body, line⟩ := b
    rw [conditions]
    rcases List.mem_cons.1 h with rfl | h
    · exact ⟨_, List.mem_cons_self .., ((encloses_test _).behind _).before _⟩
    · obtain ⟨t, ht, hs⟩ := ih h
      exact ⟨t, List.mem_cons_of_mem _ ht, hs⟩

theorem encloses_cases {as : List (CaseArm (List Instruction))} (h : s ∈ as.filterMap (·.expr)) :
    Encloses (cases recording as) s := by
  induction as with
  | nil => cases h
  | cons arm as ih =>
    obtain ⟨expr, body⟩ := arm
    cases expr with
    | none =>
      rw [cases]
      exact ih h
    | some e =>
      rw [cases]
      rcases List.mem_cons.1 h with rfl | h
      · exact ((encloses_pieces (by decide) (by decide)).before _).before _
      · exact (ih h).behind _

/-- **Every expression of an instruction** is copied into the client function in parentheses. -/
theorem encloses_instruction {i : Instruction} (h : s ∈ i.exprs) :
    Encloses (instruction recording i) s := by
  cases i with
  | text _ => cases h
  | block _ _ => cases h
  | output e format _ =>
    obtain rfl := List.mem_singleton.1 h
    exact (encloses_output _ format).pushed
  | attr name e escape _ =>
    obtain rfl := List.mem_singleton.1 h
    exact (((encloses_front _ rfl rfl).before _).before _).pushed
  | ifElse branches otherwise =>
    exact (encloses_intercalate (encloses_conditions recording h)).before _
  | whileTrue e body _ =>
    obtain rfl := List.mem_singleton.1 h
    exact ((encloses_test _).behind _).before _
  | caseOf e arms _ =>
    rcases List.mem_cons.1 h with rfl | h
    · exact (encloses_pieces (by decide) (by decide)).before _
    · refine Encloses.behind ?_ _
      exact ((encloses_cases recording h).before _).between _ _
  | each value key e body _ =>
    obtain rfl := List.mem_singleton.1 h
    exact ((((encloses_pieces (by decide) (by decide)).before _).before _).before
      _).before _
  | extension p os overrides dependency _ =>
    exact ((((encloses_options h).behind _).before _).before _).before _
  | inclusion p os dependency _ =>
    exact ((((encloses_options h).behind _).before _).before _).before _

end

end Client

/-! ## Calls of the support object -/

namespace Expr

/-- A text with tokens that are read as `x` whatever operators stand around them. -/
def ReadsTight (t : String) (x : Expr) : Prop :=
  ∃ own, ReadAs t.toList own ∧ Tight own x ∧ StartsItem own

def supportCall (function : String) (x : Expr) : Expr :=
  .call ⟨0, 0⟩ (.member ⟨0, 0⟩ (.ref ⟨0, 0⟩ ⟨"__made_view", ⟨0, 0⟩⟩) ⟨function, ⟨0, 0⟩⟩) [x]

section

variable {s t : String} {x : Expr}

theorem toList_enclosed (t : String) : ("(" ++ t ++ ")").toList = '(' :: (t.toList ++ [')']) := by
  simp

theorem readsTight_enclosed (h : parse s = .ok x) : ReadsTight ("(" ++ s ++ ")") x := by
  obtain ⟨own, hread, hstands⟩ := exists_stands_of_parse h
  exact ⟨_, toList_enclosed s ▸ readAs_enclosed hread, hstands.enclosed, _, _, rfl, rfl⟩

theorem ReadsTight.enclosed (h : ReadsTight t x) : ReadsTight ("(" ++ t ++ ")") x := by
  obtain ⟨own, hread, htight, -⟩ := h
  exact ⟨_, toList_enclosed t ▸ readAs_enclosed hread, htight.stands.enclosed, _, _, rfl, rfl⟩

theorem ReadsTight.supportCall (h : ReadsTight t x) {function : String} (hf : IsWord function) :
    ReadsTight ("__made_view" ++ "." ++ function ++ "(" ++ t ++ ")") (supportCall function x) := by
  obtain ⟨own, hread, htight, hstart⟩ := h
  have hview : wordKind "__made_view" = .name "__made_view" := by
    rw [wordKind, show Keyword.ofName? "__made_view" = none by decide]
  have hword : IsWord "__made_view" := (isWord_iff _).1 (by decide)
  have hdot : ∀ r, Stops Text.isIdChar ('.' :: r) := fun r => stops_cons (by decide)
  have hparen : ∀ r, Stops Text.isIdChar ('(' :: r) := fun r => stops_cons (by decide)
  have hcall := ((readAs_enclosed hread).word hf (hparen _)).single
    (by decide : ('.', Sign.dot) ∈ singleSigns)
  have hchars : ("__made_view" ++ "." ++ function ++ "(" ++ t ++ ")").toList =
      "__made_view".toList ++ '.' :: (function.toList ++ '(' :: (t.toList ++ [')'])) := by
    simp only [String.toList_append, List.append_assoc]
    rfl
  have htext := hcall.word hword (hdot _)
  rw [hview, ← hchars] at htext
  refine ⟨_, htext, ?_, _, _, rfl, rfl⟩
  exact ((tight_name _).member function).call htight.stands hstart

theorem ReadsTight.parse (h : ReadsTight t x) : ∃ y, parse t = .ok y ∧ y.bare = x.bare := by
  obtain ⟨own, hread, htight, -⟩ := h
  exact parse_of_tight hread htight

end

end Expr

namespace Client

theorem pieces_eq {a b u v : String} (ha : a = u ++ "(") (hb : b = ")" ++ v) (s : String) :
    a ++ s ++ b = u ++ ("(" ++ s ++ ")") ++ v := by
  rw [ha, hb]
  simp only [String.append_assoc]

theorem text_eq (s : String) :
    text s = "__made_view" ++ "." ++ "str" ++ "(" ++ ("(" ++ s ++ ")") ++ ")" := by
  have hfront : "__made_view.str((" = "__made_view" ++ "." ++ "str" ++ "(" ++ "(" := by decide
  have hback : "))" = ")" ++ ")" := by decide
  unfold text
  exact pieces_eq hfront hback s

theorem test_eq (s : String) :
    test s = "(" ++ ("__made_view" ++ "." ++ "ok" ++ "(" ++ ("(" ++ s ++ ")") ++ ")") ++ ")" := by
  have hfront : "(__made_view.ok((" = "(" ++ ("__made_view" ++ "." ++ "ok" ++ "(") ++ "(" := by
    decide
  have hback : ")))" = ")" ++ (")" ++ ")") := by decide
  have hpieces := pieces_eq hfront hback s
  unfold test
  simp only [String.append_assoc] at hpieces ⊢
  exact hpieces

theorem escape_eq (s : String) :
    output s .escape = "__made_view" ++ "." ++ "encode" ++ "(" ++ ("(" ++ s ++ ")") ++ ")" := by
  have hfront : "__made_view.encode((" = "__made_view" ++ "." ++ "encode" ++ "(" ++ "(" := by
    decide
  have hback : "))" = ")" ++ ")" := by decide
  unfold output
  exact pieces_eq hfront hback s

theorem classList_eq (s : String) :
    output s .classList = "__made_view" ++ "." ++ "encode" ++ "(" ++
      ("__made_view" ++ "." ++ "cls" ++ "(" ++ ("(" ++ s ++ ")") ++ ")") ++ ")" := by
  have hfront : "__made_view.encode(__made_view.cls((" =
      "__made_view" ++ "." ++ "encode" ++ "(" ++ ("__made_view" ++ "." ++ "cls" ++ "(") ++ "(" := by
    decide
  have hback : ")))" = ")" ++ (")" ++ ")") := by decide
  have hpieces := pieces_eq hfront hback s
  unfold output
  simp only [String.append_assoc] at hpieces ⊢
  exact hpieces

end Client

theorem isWord_functions : ∀ n ∈ ["str", "ok", "encode", "cls"], Expr.IsWord n := fun n hn =>
  (Expr.isWord_iff n).1 ((by decide : ∀ n ∈ ["str", "ok", "encode", "cls"],
    Expr.isWord n = true) n hn)

/-- **Parentheses are transparent.** In parentheses an expression is parsed with its structure, and
behind `!` the parentheses hold it together. So an `unless` is run as the condition that its
expression is false; and the client function has its expressions in parentheses, which are read as
operands of their structure whatever follows, and as the arguments that the calls of the support
object are given. -/
theorem transparent_parentheses {s : String} {x : Expr} (h : Expr.parse s = .ok x) :
    ((∃ y, Expr.parse ("(" ++ s ++ ")") = .ok y ∧ y.bare = x.bare) ∧
      ∃ y, Expr.parse ("!(" ++ s ++ ")") = .ok y ∧ y.bare = .unary ⟨0, 0⟩ .not x.bare) ∧
    (∀ {fin : Token} {line : Nat} {span : Span} {ts : List Token}
      {p : Template.Parsed Node (ts.length + 1)},
      parseNode fin (⟨.unlessTrue s, line, span⟩ :: ts) = .ok p →
      ∀ {c : Compiler} {indent : String} {is : List Instruction}, c.node indent p.value = .ok is →
      ∃ q body bs otherwise, parseBody fin ts = .ok q ∧ c.nodes indent q.value = .ok body ∧
        is = [.ifElse (⟨"!(" ++ s ++ ")", coalesce body, line⟩ :: bs) otherwise] ∧
        ∀ root limit f,
          (Instruction.ifElse (⟨"!(" ++ s ++ ")", coalesce body, line⟩ :: bs) otherwise).run
              root limit f =
            f.unlessTrue s line (runAll root limit f (coalesce body))
              (runBranches root limit f (fun _ => runOption root limit f otherwise) bs)) ∧
    (∀ recording i, s ∈ i.exprs → Client.Encloses (Client.instruction recording i) s) ∧
    (∀ pos stop v, ∃ next, Expr.Yields
      (Expr.parseOperand (.eof stop) (Expr.tokensFrom pos ('(' :: (s.toList ++ ')' :: v))).list)
      (·.bare = x.bare) (Expr.kindsOf (Expr.tokensFrom next v).list)) ∧
    (∃ y, Expr.parse (Client.text s) = .ok y ∧ y.bare = (Expr.supportCall "str" x).bare) ∧
    (∃ y, Expr.parse (Client.test s) = .ok y ∧ y.bare = (Expr.supportCall "ok" x).bare) ∧
    (∃ y, Expr.parse (Client.output s .escape) = .ok y ∧
      y.bare = (Expr.supportCall "encode" x).bare) ∧
    (∃ y, Expr.parse (Client.output s .classList) = .ok y ∧
      y.bare = (Expr.supportCall "encode" (.supportCall "cls" x)).bare) := by
  have hs : Expr.accepts s = true := by
    rw [Expr.accepts, h]
    rfl
  have henclosed := Expr.readsTight_enclosed h
  have hcall {n : String} (hn : n ∈ ["str", "ok", "encode", "cls"]) :=
    henclosed.supportCall (isWord_functions n hn)
  refine ⟨⟨Expr.parse_enclosed h, Expr.parse_negated h⟩, ?_, fun recording i hi =>
    Client.encloses_instruction recording hi, Expr.operand_enclosed h, ?_, ?_, ?_, ?_⟩
  · intro fin line span ts p hp c indent is hc
    obtain ⟨q, body, bs, otherwise, hq, hbody, rfl⟩ := node_unless hp hc
    exact ⟨q, body, bs, otherwise, hq, hbody, rfl, fun root limit f =>
      run_unless hs root limit f line (coalesce body) bs otherwise⟩
  · rw [Client.text_eq]
    exact (hcall (by decide)).parse
  · rw [Client.test_eq]
    exact (hcall (by decide)).enclosed.parse
  · rw [Client.escape_eq]
    exact (hcall (by decide)).parse
  · rw [Client.classList_eq]
    exact ((hcall (by decide)).supportCall (isWord_functions "encode" (by decide))).parse

/-- A conditional, which the parentheses hold together, and an `unless` with nothing in it. -/
theorem transparent_parentheses_conditional :
    let s := "a ? b : c"
    let start : Token := ⟨.unlessTrue s, 1, ⟨0, 9⟩⟩
    let fin : Token := ⟨.eos, 1, ⟨9, 9⟩⟩
    let c : Compiler := ⟨{}, "", [], fun _ _ _ => .error (unexpected fin "")⟩
    ∃ x p is, Expr.parse s = .ok x ∧ parseNode fin [start] = .ok p ∧ c.node "" p.value = .ok is ∧
      (∃ y, Expr.parse "!(a ? b : c)" = .ok y ∧ y.bare = .unary ⟨0, 0⟩ .not x.bare) ∧
      (∃ body bs otherwise, is = [.ifElse (⟨"!(a ? b : c)", body, 1⟩ :: bs) otherwise]) ∧
      Client.Encloses (Client.instruction false (.each "v" none s [] 1)) s := by
  intro s start fin c
  obtain ⟨x, hx⟩ : ∃ x, Expr.parse s = .ok x := exists_ok (by decide +kernel)
  have hbody : parseBody fin [] = .ok ⟨[], [], Nat.lt_succ_self _⟩ := by
    rw [parseBody]
    intro _ _ _ _ h
    cases h
  have helse : parseElse fin [] = .ok ⟨([], none), [], Nat.lt_succ_self _⟩ := by
    rw [parseElse]
    rfl
  have hp : parseNode fin [start] =
      .ok ⟨.ifElse ⟨1, ⟨0, 9⟩⟩ [⟨"!(" ++ s ++ ")", 1, []⟩] none, [], Nat.lt_succ_self _⟩ := by
    rw [parseNode]
    simp only [start, hbody]
    change (parseElse fin [] >>= _) = _
    rw [helse]
    rfl
  have his : c.node "" (.ifElse ⟨1, ⟨0, 9⟩⟩ [⟨"!(" ++ s ++ ")", 1, []⟩] none) =
      .ok [.ifElse [⟨"!(" ++ s ++ ")", [], 1⟩] none] := by
    rw [Compiler.node, Compiler.guarded, Compiler.nodes, Compiler.guarded, Compiler.alternative]
    rfl
  obtain ⟨⟨-, hnegated⟩, hunless, hcopied, -⟩ := transparent_parentheses hx
  obtain ⟨q, body, bs, otherwise, -, -, hcompiled, -⟩ := hunless hp his
  exact ⟨x, _, _, hx, hp, his, hnegated, ⟨_, bs, otherwise, hcompiled⟩,
    hcopied false (.each "v" none s [] 1) (List.mem_singleton_self _)⟩

end Stencil
