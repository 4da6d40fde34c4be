import Stencil.Proofs.Client.Brackets

/-! # The texts in client functions

A client function is written from its literals, in the order of the instructions, and from source
between them in which every string is closed. So each literal begins outside of strings, and where
it ends the function goes on outside of them, whatever the texts of the program are. -/

namespace Stencil

/-! ## Texts that become literals -/

def Part.texts : Part → List String
  | .text s => [s]
  | .expr _ => []

def OptionEntry.texts (o : OptionEntry) : List String :=
  o.name :: match o.value with
    | .boolean => []
    | .expr _ => []
    | .text parts => parts.flatMap Part.texts

section
variable (recording : Bool)

def recordedTexts : Option Dependency → List String
  | none => []
  | some d => if recording then [d.filename, d.instanceName, d.use.name] else []

mutual
/-- The texts of an instruction in the order in which its client function has their literals. -/
def Instruction.texts : Instruction → List String
  | .text s => [s]
  | .output _ _ _ => []
  | .attr name _ _ _ => [name]
  | .ifElse branches otherwise => textsOfBranches branches ++ textsOfOption otherwise
  | .whileTrue _ body _ => textsOf body
  | .caseOf _ arms _ => textsOfCases arms ++ textsOfDefault arms
  | .each _ _ _ body _ => textsOf body
  | .block name body => [name] ++ textsOf body
  | .extension p os overrides dependency _ =>
    textsFrom p ++ recordedTexts recording dependency ++ os.flatMap OptionEntry.texts ++
      textsOfOverrides overrides
  | .inclusion p os dependency _ =>
    textsFrom p ++ recordedTexts recording dependency ++ os.flatMap OptionEntry.texts
def textsOf : List Instruction → List String
  | [] => []
  | i :: is => i.texts ++ textsOf is
def textsOfBranches : List (Guarded (List Instruction)) → List String
  | [] => []
  | ⟨_, body, _⟩ :: bs => textsOf body ++ textsOfBranches bs
def textsOfOption : Option (List Instruction) → List String
  | none => []
  | some body => textsOf body
def textsOfCases : List (CaseArm (List Instruction)) → List String
  | [] => []
  | ⟨none, _⟩ :: as => textsOfCases as
  | ⟨some _, body⟩ :: as => textsOf body ++ textsOfCases as
def textsOfDefault : List (CaseArm (List Instruction)) → List String
  | [] => []
  | ⟨some _, _⟩ :: as => textsOfDefault as
  | ⟨none, body⟩ :: _ => textsOf body
def textsOfOverrides : List (Override (List Instruction)) → List String
  | [] => []
  | ⟨block, before, replace, after⟩ :: os =>
    [block] ++ textsOfOption before ++ textsOfOption replace ++ textsOfOption after ++
      textsOfOverrides os
/-- The free names are keys of the input. -/
def textsFrom : ProgramOf (List Instruction) → List String
  | ⟨_, _, _, body, _, freeNames⟩ => textsOf body ++ freeNames
end

end

namespace Client

/-! ## Source with literals in it -/

/-- The source is written from the literals of the texts, in this order, and from source between
them. A scan comes to it with the brackets `a` open and leaves `b`, and is outside of strings
wherever a literal begins or ends. -/
inductive Holds : List Char → String → List Char → List String → Prop where
  | nil {a b : List Char} {s : String} : Scans a s b → Holds a s b []
  | cons {a b c : List Char} {u v t : String} {ts : List String} : Scans a u b → Holds b v c ts →
    Holds a (u ++ literal t ++ v) c (t :: ts)

inductive HoldAll : List String → List String → Prop where
  | nil : HoldAll [] []
  | cons {s : String} {ss ts us : List String} : Holds [] s [] ts → HoldAll ss us →
    HoldAll (s :: ss) (ts ++ us)

section
variable {a b c : List Char} {s t : String} {ts us : List String}

theorem Scans.under (h : Scans a s b) (below : List Char) : Scans (a ++ below) s (b ++ below) := by
  intro more
  rw [List.append_assoc, List.append_assoc]
  exact h (below ++ more)

namespace Holds

theorem behind (hs : Scans a s b) (ht : Holds b t c ts) : Holds a (s ++ t) c ts := by
  cases ht with
  | nil ht => exact .nil (hs.append ht)
  | cons hu hv =>
    rw [← String.append_assoc, ← String.append_assoc]
    exact .cons (hs.append hu) hv

theorem append (hs : Holds a s b ts) (ht : Holds b t c us) : Holds a (s ++ t) c (ts ++ us) := by
  induction hs with
  | nil hs => exact behind hs ht
  | cons hu _ ih =>
    rw [String.append_assoc]
    exact .cons hu (ih ht)

theorem before (hs : Holds a s b ts) (ht : Scans b t c) : Holds a (s ++ t) c ts := by
  have happend := hs.append (.nil ht)
  rwa [List.append_nil] at happend

theorem under (h : Holds a s b ts) (below : List Char) : Holds (a ++ below) s (b ++ below) ts := by
  induction h with
  | nil hs => exact .nil (hs.under below)
  | cons hu _ ih => exact .cons (hu.under below) ih

theorem inside (h : Holds [] s [] ts) (a : List Char) : Holds a s a ts :=
  h.under a

theorem between {before after : String} (b : List Char)
    (hb : ScanState.pass ⟨[], none, false⟩ before.toList = some ⟨b, none, false⟩)
    (ha : ScanState.pass ⟨b, none, false⟩ after.toList = some ⟨[], none, false⟩)
    (h : Holds b s b ts) : Holds [] (before ++ s ++ after) [] ts :=
  (behind (scans_of_pass hb) h).before (scans_of_pass ha)

theorem braced (h : Holds ['\x7b'] s ['\x7b'] ts) : Holds [] (braced s) [] ts :=
  between ['\x7b'] rfl rfl h

theorem push (h : Holds [] s [] ts) : Holds [] (push s) [] ts :=
  between ['('] (by decide +kernel) (by decide +kernel) (h.inside _)

end Holds

theorem holds_literal (t : String) : Holds [] (literal t) [] [t] := by
  have h := Holds.cons (t := t) (scans_empty []) (.nil (scans_empty []))
  rwa [String.empty_append, String.append_empty] at h

theorem holds_intercalate {separator : String} {ss : List String} (hsep : Scans a separator a)
    (h : HoldAll ss ts) : Holds a (String.intercalate separator ss) a ts := by
  induction h with
  | nil =>
    rw [String.intercalate_nil]
    exact .nil (scans_empty a)
  | @cons s ss ts us hs hss ih =>
    cases hss with
    | nil =>
      rw [String.intercalate_singleton, List.append_nil]
      exact hs.inside a
    | cons ht htt =>
      rw [String.intercalate_cons_cons]
      exact ((hs.inside a).before hsep).append ih

theorem holds_list {bracket : Char} {ss : List String} (h : HoldAll ss ts) :
    Holds [bracket] (String.intercalate "," ss) [bracket] ts :=
  holds_intercalate (fun _ => rfl) h

theorem holdAll_map {α : Type} {f : α → String} {g : α → List String} {l : List α}
    (h : ∀ x ∈ l, Holds [] (f x) [] (g x)) : HoldAll (l.map f) (l.flatMap g) := by
  induction l with
  | nil => exact .nil
  | cons x l ih =>
    obtain ⟨hx, hl⟩ := List.forall_mem_cons.1 h
    exact .cons hx (ih hl)

end

/-! ## Client functions -/

section
variable {line : Nat} {bound : List String}

theorem holds_part {p : Part} (h : ∀ s ∈ p.sites line bound, Expr.accepts s.source = true) :
    Holds [] (part p) [] p.texts := by
  cases p with
  | text s => exact holds_literal s
  | expr e => exact .nil (scans_text (h ⟨e, line, bound⟩ (List.mem_singleton_self _)))

theorem holds_option {o : OptionEntry}
    (h : ∀ s ∈ o.sites line bound, Expr.accepts s.source = true) :
    Holds [] (option o) [] o.texts := by
  obtain ⟨name, value⟩ := o
  have hname : Holds [] (literal name ++ ":") [] [name] := (holds_literal name).before fun _ => rfl
  refine hname.append ?_
  cases value with
  | boolean => exact .nil (scans_optionValue h)
  | expr e => exact .nil (scans_optionValue h)
  | text parts =>
    cases parts with
    | nil => exact .nil (scans_optionValue h)
    | cons p ps =>
      refine Holds.between ['('] rfl rfl (holds_intercalate (fun _ => rfl) (holdAll_map ?_))
      exact fun p hp => holds_part fun s hs => h s (List.mem_flatMap.2 ⟨p, hp, hs⟩)

theorem holds_options {os : List OptionEntry}
    (h : ∀ s ∈ optionSites line bound os, Expr.accepts s.source = true) :
    Holds [] (options os) [] (os.flatMap OptionEntry.texts) :=
  (holds_list (holdAll_map fun o ho => holds_option fun s hs =>
    h s (List.mem_flatMap.2 ⟨o, ho, hs⟩))).braced

end

theorem holds_record (recording : Bool) (d : Option Dependency) :
    Holds [] (record recording d) [] (recordedTexts recording d) := by
  cases d with
  | none => exact .nil (scans_empty [])
  | some d =>
    cases recording with
    | false => exact .nil (scans_empty [])
    | true =>
      have hfilename : Scans ['\x7b'] "filename:" ['\x7b'] := scans_of_pass (by decide +kernel)
      have hinstance : Scans ['\x7b'] ",instance:" ['\x7b'] := scans_of_pass (by decide +kernel)
      have htype : Scans ['\x7b'] ",type:" ['\x7b'] := scans_of_pass (by decide +kernel)
      have hoptions : Scans ['\x7b'] ",options:__made_locals" ['\x7b'] :=
        scans_of_pass (by decide +kernel)
      have hfields := ((((Holds.behind hfilename ((holds_literal d.filename).inside _)).before
        hinstance).append ((holds_literal d.instanceName).inside _)).before htype).append
        ((holds_literal d.use.name).inside _) |>.before hoptions
      exact Holds.between ['('] (by decide +kernel) (by decide +kernel) (hfields.braced.inside _)

theorem holds_use {body arguments replacements : String} {ts us vs : List String}
    (hbody : Holds [] body [] ts) (harguments : Holds [] arguments [] us)
    (hreplacements : Holds ['\x7b'] replacements ['\x7b'] vs) :
    Holds [] ("(function(__made_locals,__made_block)" ++ braced body ++ ")(" ++ arguments ++ "," ++
      braced replacements ++ ");") [] (ts ++ us ++ vs) := by
  have hopen : Scans [] "(function(__made_locals,__made_block)" ['('] :=
    scans_of_pass (by decide +kernel)
  have hcall : Scans ['('] ")(" ['('] := fun _ => rfl
  exact (((((Holds.behind hopen ((hbody.inside _).braced.inside _)).before hcall).append
    (harguments.inside _)).before fun _ => rfl).append (hreplacements.braced.inside ['('])).before
    fun _ => rfl

section
variable (recording : Bool)

mutual
theorem holds_instruction (bound : List String) : (i : Instruction) →
    Writable (i.sites bound) (i :: i.nested) i.programs →
    Holds [] (instruction recording i) [] (i.texts recording)
  | .text s, _ => (holds_literal s).push
  | .output _ format _, h => (Holds.nil (scans_output h.expr format)).push
  | .attr name e escape _, h => by
    have hescape : Scans ['('] (if escape then "true" else "false") ['('] := by
      cases escape <;> exact scans_of_pass (by decide +kernel)
    have hopen : Scans [] "__made_view.attr(" ['('] := scans_of_pass (by decide +kernel)
    have hexpr : Scans ['('] ",(" ['(', '('] := scans_of_pass (by decide +kernel)
    have hflag : Scans ['(', '('] ")," ['('] := scans_of_pass (by decide +kernel)
    exact ((((((Holds.behind hopen ((holds_literal name).inside _)).before hexpr).before
      ((scans_expr h.expr).inside _)).before hflag).before hescape).before fun _ => rfl).push
  | .ifElse branches otherwise, h => by
    have helse : Scans [] "else " [] := scans_of_pass (by decide +kernel)
    exact (holds_intercalate helse (holds_conditions bound branches h.below.left)).append
      (holds_alternative bound otherwise h.below.right)
  | .whileTrue _ body _, h => by
    have hwhile : Scans [] "while" [] := scans_of_pass (by decide +kernel)
    exact Holds.behind (hwhile.append (scans_test h.expr))
      ((holds_instructions bound body h.below.behind).inside _).braced
  | .caseOf _ arms line, h => by
    have harms := (holds_cases bound line arms h.below.behind).append
      (holds_default bound line arms h.below.behind)
    exact Holds.behind (scans_between ['(', '('] (by decide +kernel) (by decide +kernel)
      ((scans_expr h.expr).inside _)) (harms.inside _).braced
  | .each value key _ body _, h => by
    have hopen : Scans [] "__made_view.each((" ['(', '('] := scans_of_pass (by decide +kernel)
    have hfunction : Scans ['(', '('] "),function(" ['(', '('] := scans_of_pass (by decide +kernel)
    have hnames : Scans ['(', '('] (parameters value key) ['(', '('] :=
      (scans_parameters (h.loops _ (List.mem_cons_self ..))).under ['(']
    have hbody := ((holds_instructions _ body h.below.behind).inside _).braced
    exact (Holds.behind ((((hopen.append ((scans_expr h.expr).inside _)).append hfunction).append
      hnames).append (fun _ => rfl : Scans ['(', '('] ")" ['('])) (hbody.inside _)).before
      fun _ => rfl
  | .block name body, h => by
    have hopen : Scans [] "__made_view.block(__made_block," ['('] :=
      scans_of_pass (by decide +kernel)
    have hfunction : Scans ['('] ",function()" ['('] := scans_of_pass (by decide +kernel)
    have hbody := ((holds_instructions bound body h.below).inside _).braced
    exact (((Holds.behind hopen ((holds_literal name).inside _)).before hfunction).append
      (hbody.inside _)).before fun _ => rfl
  | .extension p os overrides dependency line, h => by
    have h : Writable (optionSites line bound os ++ sitesOfOverrides bound overrides)
        ([] ++ ownOfOverrides overrides) (programsFrom p ++ programsOfOverrides overrides) :=
      h.below
    exact holds_use ((holds_program p h.left.copyable).append (holds_record recording dependency))
      (holds_options h.left.accepted) (holds_list (holds_contents bound overrides h.right))
  | .inclusion p os dependency _, h => by
    have huse := holds_use
      ((holds_program p h.copyable).append (holds_record recording dependency))
      (holds_options h.accepted) (.nil (scans_empty _))
    rwa [List.append_nil] at huse
theorem holds_instructions (bound : List String) : (is : List Instruction) →
    Writable (sitesOf bound is) (ownOf is) (programsOf is) →
    Holds [] (instructions recording is) [] (textsOf recording is)
  | [], _ => .nil (scans_empty [])
  | i :: is, h => (holds_instruction bound i h.left).append (holds_instructions bound is h.right)
theorem holds_conditions (bound : List String) : (bs : List (Guarded (List Instruction))) →
    Writable (sitesOfBranches bound bs) (ownOfBranches bs) (programsOfBranches bs) →
    HoldAll (conditions recording bs) (textsOfBranches recording bs)
  | [], _ => .nil
  | ⟨e, body, line⟩ :: bs, h => by
    have hif : Scans [] "if" [] := scans_of_pass (by decide +kernel)
    refine .cons ?_ (holds_conditions bound bs h.right)
    exact Holds.behind (hif.append (scans_test h.left.expr))
      ((holds_instructions bound body h.left.behind).inside _).braced
theorem holds_alternative (bound : List String) : (o : Option (List Instruction)) →
    Writable (sitesOfOption bound o) (ownOfOption o) (programsOfOption o) →
    Holds [] (alternative recording o) [] (textsOfOption recording o)
  | none, _ => .nil (scans_empty [])
  | some body, h =>
    Holds.behind (scans_of_pass (by decide +kernel) : Scans [] "else" [])
      ((holds_instructions bound body h).inside _).braced
theorem holds_cases (bound : List String) (line : Nat) :
    (as : List (CaseArm (List Instruction))) →
    Writable (sitesOfArms bound line as) (ownOfArms as) (programsOfArms as) →
    Holds [] (cases recording as) [] (textsOfCases recording as)
  | [], _ => .nil (scans_empty [])
  | ⟨none, _⟩ :: as, h => holds_cases bound line as h.right
  | ⟨some e, body⟩ :: as, h => by
    have hbreak : Scans [] "break" [] := scans_of_pass (by decide +kernel)
    have hbody := (holds_instructions bound body h.left.behind).before hbreak
    exact (Holds.behind (scans_between ['('] (by decide +kernel) (by decide +kernel)
      ((scans_expr h.left.expr).inside _)) (hbody.inside _).braced).append
      (holds_cases bound line as h.right)
theorem holds_default (bound : List String) (line : Nat) :
    (as : List (CaseArm (List Instruction))) →
    Writable (sitesOfArms bound line as) (ownOfArms as) (programsOfArms as) →
    Holds [] (default recording as) [] (textsOfDefault recording as)
  | [], _ => .nil (scans_empty [])
  | ⟨some _, _⟩ :: as, h => holds_default bound line as h.right
  | ⟨none, body⟩ :: _, h =>
    Holds.behind (scans_of_pass (by decide +kernel) : Scans [] "default:" [])
      ((holds_instructions bound body h.left).inside _).braced
theorem holds_content (bound : List String) : (o : Option (List Instruction)) →
    Writable (sitesOfOption bound o) (ownOfOption o) (programsOfOption o) →
    Holds [] (content recording o) [] (textsOfOption recording o)
  | none, _ => .nil (scans_of_pass (by decide +kernel) : Scans [] "null" [])
  | some body, h =>
    Holds.behind (scans_of_pass (by decide +kernel) : Scans [] "function()" [])
      ((holds_instructions bound body h).inside _).braced
theorem holds_contents (bound : List String) : (os : List (Override (List Instruction))) →
    Writable (sitesOfOverrides bound os) (ownOfOverrides os) (programsOfOverrides os) →
    HoldAll (contents recording os) (textsOfOverrides recording os)
  | [], _ => .nil
  | ⟨block, before, replace, after⟩ :: os, h => by
    refine .cons ?_ (holds_contents bound os h.right)
    have hbefore := holds_content bound before h.left.left.left
    have hreplace := holds_content bound replace h.left.left.right
    have hafter := holds_content bound after h.left.right
    have hblock : Holds [] (literal block ++ ":[") ['['] [block] :=
      (holds_literal block).before fun _ => rfl
    exact (((((hblock.append (hbefore.inside ['['])).before fun _ => rfl).append
      (hreplace.inside ['['])).before fun _ => rfl).append (hafter.inside ['['])).before
      fun _ => rfl
theorem holds_program : (p : Program) → (∀ q ∈ programsFrom p, q.Copyable) →
    Holds [] (program recording p) [] (textsFrom recording p)
  | ⟨_, _, _, body, _, freeNames⟩, h => by
    obtain ⟨hp, hmodules⟩ := List.forall_mem_cons.1 h
    have hopen : Scans [] ";(function(" ['(', '('] := scans_of_pass (by decide +kernel)
    have hnames : Scans ['(', '('] (String.intercalate "," freeNames) ['(', '('] :=
      (scans_list fun n hn => scans_name (hp.free n hn)).under ['(']
    have hbody := ((holds_instructions [] body ⟨hp.accepted, hp.loops, hmodules⟩).inside _).braced
    have harguments : Holds ['('] (String.intercalate ","
        (freeNames.map fun n => "__made_locals[" ++ literal n ++ "]")) ['('] freeNames := by
      have hkey : ∀ n ∈ freeNames, Holds [] ("__made_locals[" ++ literal n ++ "]") [] [n] :=
        fun n _ => Holds.between ['['] (by decide +kernel) (by decide +kernel)
          ((holds_literal n).inside _)
      have hkeys := holdAll_map hkey
      rw [List.flatMap_singleton'] at hkeys
      exact holds_list hkeys
    exact (((Holds.behind ((hopen.append hnames).append
      (fun _ => rfl : Scans ['(', '('] ")" ['('])) (hbody.inside _)).before fun _ => rfl).append
      harguments).before fun _ => rfl
end

def ending : String :=
  (if recording then "return [__made_buf.join(\"\"),__made_dep];"
    else "return __made_buf.join(\"\");") ++ "\x7d"

theorem functionWith_split (p : Program) (support : String) : functionWith support p recording =
    "function(__made_locals)\x7bvar __made_view=" ++ support ++
      (opening recording ++ program recording p ++ ending recording) := by
  have hhead : "function(__made_locals)\x7bvar __made_view=" =
      "function(__made_locals)" ++ "\x7b" ++ "var __made_view=" := by decide +kernel
  have hsplit : functionWith support p recording =
      "function(__made_locals)" ++ "\x7b" ++ "var __made_view=" ++ support ++
        (opening recording ++ program recording p ++ ending recording) := by
    unfold functionWith opening ending braced
    simp only [String.append_assoc]
  exact hsplit.trans (congrArg (· ++ support ++ _) hhead.symm)

theorem holds_functionWith {p : Program} (h : ∀ q ∈ programsFrom p, q.Copyable) (support : String) :
    ∃ source, functionWith support p recording =
        "function(__made_locals)\x7bvar __made_view=" ++ support ++ source ∧
      Holds ['\x7b'] source [] (textsFrom recording p) := by
  have hopening : Scans ['\x7b'] (opening recording) ['\x7b'] := (scans_opening recording).inside _
  have hending : Scans ['\x7b'] (ending recording) [] :=
    ((scans_answer recording).inside _).append fun _ => rfl
  exact ⟨_, functionWith_split recording p support,
    (Holds.behind hopening ((holds_program recording p h).inside _)).before hending⟩

end

/-- **Literals are read back.** The literal of a text stands between its only two bare quotes,
without control characters and line separators; it is what JSON writes with the separators replaced;
and a reader of JSON or an engine gets the text from it. Texts with the same literal are the same.
An engine stops at the last quote whatever follows, and in a client function whose expressions and
names can be copied every literal begins outside of strings. -/
theorem literals_read_back :
    (∀ s, Delimited (literal s).toList) ∧
    (∀ s, literal s = String.ofList (replaced '\u2029' "\\u2029".toList
      (replaced '\u2028' "\\u2028".toList (Json.quote s).toList))) ∧
    (∀ s, Json.readValue? (literal s) = some (.str s)) ∧
    (∀ s rest, readLiteral ((literal s).toList ++ rest) = some (some s, rest)) ∧
    Function.Injective literal ∧
    ∀ (p : Program) (recording : Bool), (∀ q ∈ programsFrom p, q.Copyable) → ∀ support, ∃ source,
      functionWith support p recording =
          "function(__made_locals)\x7bvar __made_view=" ++ support ++ source ∧
        Holds ['\x7b'] source [] (textsFrom recording p) := by
  refine ⟨delimited_literal, fun s => ?_, readValue?_literal, readLiteral_literal,
    literal_injective,
    fun p recording h support => holds_functionWith recording h support⟩
  have hquote : (Json.quote s).toList = Json.quoteChars s.toList := String.toList_ofList
  rw [hquote, literal, literalChars_eq]

/-- A page with quotes, backslashes and separators in its texts, and such a layout. -/
def noticeProgram : Program :=
  let layout : Program :=
    ⟨some "lay\"out", "m1", "", [.text "<p title=\"", .output "title" .escape 1,
    .text "\">", .block "body" [.text "\\"]], ["body"], ["title"]⟩
  ⟨none, "m2", "", [.extension layout
    [⟨"title", .text [.text "\u2028\\\"", .expr "user['\"']"]⟩]
    [⟨"body", none, some [.text "\\\u2029\n"], none⟩] (some ⟨"lay\"out", "", .extension⟩) 1],
    [], ["user"]⟩

theorem literals_read_back_notice :
    (∀ q ∈ programsFrom noticeProgram, q.Copyable) ∧
    literal "\u2028\\\"" = "\"\\u2028\\\\\\\"\"" ∧
    Delimited "\"\\u2028\\\\\\\"\"".toList ∧
    Json.readValue? "\"\\u2028\\\\\\\"\"" = some (.str "\u2028\\\"") ∧
    (∀ rest, readLiteral ("\"\\u2028\\\\\\\"\"".toList ++ rest) = some (some "\u2028\\\"", rest)) ∧
    ∃ source, functionWith support noticeProgram true =
        "function(__made_locals)\x7bvar __made_view=" ++ support ++ source ∧
      Holds ['\x7b'] source [] ["<p title=\"", "\">", "body", "\\", "title", "lay\"out", "",
        "extends", "title", "\u2028\\\"", "body", "\\\u2029\n", "user"] := by
  obtain ⟨hdelimited, -, hjson, hengine, -, hprograms⟩ := literals_read_back
  have h : ∀ q ∈ programsFrom noticeProgram, q.Copyable := by decide +kernel
  have hliteral : literal "\u2028\\\"" = "\"\\u2028\\\\\\\"\"" := by decide +kernel
  exact ⟨h, hliteral, hliteral ▸ hdelimited _, hliteral ▸ hjson _, fun rest =>
    hliteral ▸ hengine _ rest,
    hprograms noticeProgram true h support⟩

end Client

end Stencil
