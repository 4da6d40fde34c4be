import Stencil.Client.Function
import Stencil.Proofs.Client.Literal
import Stencil.Proofs.Program.Own
import Stencil.Proofs.Program.Sites
import Stencil.Proofs.Template.Balance

/-! # The brackets of client functions

A client function is written from fixed pieces with expressions, names and literals between them.
The pieces open and close brackets, what is copied leaves them as they are: so the brackets of the
whole match, and the strings in it are closed. -/

namespace Stencil

namespace ScanState

theorem allows_under {s : ScanState} {c : Char} (h : s.allows c = true) (below : List Char) :
    (s.under below).allows c = true := by
  obtain ⟨stack, quote, escaped⟩ := s
  cases quote with
  | some q => rfl
  | none =>
    cases stack with
    | nil =>
      by_cases hc : isClosing c = true
      · simp [allows, isString, hc] at h
      · simp [allows, isString, isNesting, hc] at h
        simp [allows, isString, under, hc, h]
    | cons b stack => exact h

theorem pass_under {s t : ScanState} {w : List Char} (h : s.pass w = some t) (below : List Char) :
    (s.under below).pass w = some (t.under below) := by
  induction w generalizing s with
  | nil =>
    obtain rfl := Option.some.inj h
    rfl
  | cons c w ih =>
    obtain ⟨hc, hw⟩ := pass_cons h
    rw [pass, if_pos (allows_under hc below), step_under hc]
    exact ih hw

end ScanState

namespace Client

/-! ## Pieces -/

/-- A scan comes to the text with the brackets `before` open, innermost first, whatever else is, and
leaves `after` in their place. -/
def Scans (before : List Char) (s : String) (after : List Char) : Prop :=
  ∀ below, ScanState.pass ⟨before ++ below, none, false⟩ s.toList =
    some ⟨after ++ below, none, false⟩

section
variable {a b c : List Char} {s t : String}

theorem scans_of_pass
    (h : ScanState.pass ⟨a, none, false⟩ s.toList = some ⟨b, none, false⟩) : Scans a s b :=
  fun below => ScanState.pass_under h below

theorem scans_of_balanced (h : Balanced s.toList) : Scans [] s [] :=
  scans_of_pass h

theorem Scans.append (hs : Scans a s b) (ht : Scans b t c) : Scans a (s ++ t) c := by
  intro below
  rw [String.toList_append, ScanState.pass_append, hs below, Option.bind_some, ht below]

theorem Scans.inside (h : Scans [] s []) (a : List Char) : Scans a s a :=
  fun below => h (a ++ below)

theorem scans_empty (a : List Char) : Scans a "" a :=
  fun _ => rfl

theorem scans_intercalate {separator : String} {ss : List String}
    (hsep : Scans a separator a) (h : ∀ s ∈ ss, Scans [] s []) :
    Scans a (String.intercalate separator ss) a := by
  induction ss with
  | nil =>
    rw [String.intercalate_nil]
    exact scans_empty a
  | cons s ss ih =>
    have hs := (h s (List.mem_cons_self ..)).inside a
    have ih := ih fun t ht => h t (List.mem_cons_of_mem _ ht)
    cases ss with
    | nil =>
      rw [String.intercalate_singleton]
      exact hs
    | cons t ss =>
      rw [String.intercalate_cons_cons]
      exact (hs.append hsep).append ih

theorem scans_list {bracket : Char} {ss : List String} (h : ∀ s ∈ ss, Scans [] s []) :
    Scans [bracket] (String.intercalate "," ss) [bracket] :=
  scans_intercalate (fun _ => rfl) h

theorem scans_between {before after : String} (b : List Char)
    (hb : ScanState.pass ⟨[], none, false⟩ before.toList = some ⟨b, none, false⟩)
    (ha : ScanState.pass ⟨b, none, false⟩ after.toList = some ⟨[], none, false⟩)
    (h : Scans b s b) : Scans [] (before ++ s ++ after) [] :=
  ((scans_of_pass hb).append h).append (scans_of_pass ha)

theorem scans_braced (h : Scans ['\x7b'] s ['\x7b']) : Scans [] (braced s) [] :=
  scans_between ['\x7b'] rfl rfl h

theorem scans_push (h : Scans [] s []) : Scans [] (push s) [] :=
  scans_between ['('] (by decide +kernel) (by decide +kernel) (h.inside _)

end

/-! ## What is copied -/

theorem scans_literal (s : String) : Scans [] (literal s) [] := by
  refine scans_of_pass ?_
  rw [literal, String.toList_ofList, literalChars,
    ← pass_quoted (.inl rfl) (quoted_escapeChars s.toList) []]
  rfl

theorem scans_expr {e : String} (h : Expr.accepts e = true) : Scans [] e [] :=
  scans_of_balanced (balanced_of_accepts h)

def OfNameChars (n : String) : Prop :=
  ∀ c ∈ n.toList, Text.isIdChar c = true

instance (n : String) : Decidable (OfNameChars n) :=
  inferInstanceAs (Decidable (∀ c ∈ n.toList, Text.isIdChar c = true))

theorem scans_name {n : String} (h : OfNameChars n) : Scans [] n [] :=
  scans_of_balanced (balanced_calm fun c hc =>
    isCalm_of_isWordy (Expr.isWordy_of_isIdChar (h c hc)))

theorem scans_text {e : String} (h : Expr.accepts e = true) : Scans [] (text e) [] :=
  scans_between ['(', '('] (by decide +kernel) (by decide +kernel) ((scans_expr h).inside _)

theorem scans_test {e : String} (h : Expr.accepts e = true) : Scans [] (test e) [] :=
  scans_between ['(', '(', '('] (by decide +kernel) (by decide +kernel) ((scans_expr h).inside _)

theorem scans_output {e : String} (h : Expr.accepts e = true) (format : Format) :
    Scans [] (output e format) [] := by
  cases format with
  | escape =>
    exact scans_between ['(', '('] (by decide +kernel) (by decide +kernel) ((scans_expr h).inside _)
  | raw => exact scans_text h
  | classList =>
    exact scans_between ['(', '(', '('] (by decide +kernel) (by decide +kernel)
      ((scans_expr h).inside _)

/-! ## Options -/

section
variable {line : Nat} {bound : List String}

theorem scans_part {p : Part} (h : ∀ s ∈ p.sites line bound, Expr.accepts s.source = true) :
    Scans [] (part p) [] := by
  cases p with
  | text s => exact scans_literal s
  | expr e => exact scans_text (h ⟨e, line, bound⟩ (List.mem_singleton_self _))

theorem scans_optionValue {name : String} {value : OptionValue}
    (h : ∀ s ∈ OptionEntry.sites line bound ⟨name, value⟩, Expr.accepts s.source = true) :
    Scans [] (optionValue value) [] := by
  cases value with
  | boolean => exact scans_of_pass (by decide +kernel)
  | expr e =>
    have he := h ⟨e, line, bound⟩ (List.mem_singleton_self _)
    exact scans_between ['('] rfl rfl ((scans_expr he).inside _)
  | text parts =>
    cases parts with
    | nil => exact scans_of_pass (by decide +kernel)
    | cons p ps =>
      refine scans_between ['('] rfl rfl (scans_intercalate (fun _ => rfl) fun s hs => ?_)
      obtain ⟨p, hp, rfl⟩ := List.mem_map.1 hs
      exact scans_part fun s hs => h s (List.mem_flatMap.2 ⟨p, hp, hs⟩)

theorem scans_options {os : List OptionEntry}
    (h : ∀ s ∈ optionSites line bound os, Expr.accepts s.source = true) :
    Scans [] (options os) [] := by
  refine scans_braced (scans_list fun s hs => ?_)
  obtain ⟨⟨name, value⟩, ho, rfl⟩ := List.mem_map.1 hs
  have hvalue := scans_optionValue fun s hs => h s (List.mem_flatMap.2 ⟨_, ho, hs⟩)
  exact ((scans_literal name).append fun _ => rfl).append hvalue

end

theorem scans_record (recording : Bool) (d : Option Dependency) :
    Scans [] (record recording d) [] := by
  cases d with
  | none => exact scans_empty []
  | some d =>
    cases recording with
    | false => exact scans_empty []
    | true =>
      have hfilename : Scans ['\x7b'] "filename:" ['\x7b'] := scans_of_pass (by decide +kernel)
      have hinstance : Scans ['\x7b'] ",instance:" ['\x7b'] := scans_of_pass (by decide +kernel)
      have htype : Scans ['\x7b'] ",type:" ['\x7b'] := scans_of_pass (by decide +kernel)
      have hoptions : Scans ['\x7b'] ",options:__made_locals" ['\x7b'] :=
        scans_of_pass (by decide +kernel)
      have hfields := ((((((hfilename.append ((scans_literal d.filename).inside _)).append
        hinstance).append ((scans_literal d.instanceName).inside _)).append htype).append
        ((scans_literal d.use.name).inside _)).append hoptions)
      exact scans_between ['('] (by decide +kernel) (by decide +kernel)
        ((scans_braced hfields).inside _)

end Client

def Instruction.loopNames : Instruction → List String
  | .each value key _ _ _ => value :: key.toList
  | _ => []

/-- Every expression of a program can be parsed, and its free names and those of its loops have only
characters of names. -/
structure ProgramOf.Copyable (p : Program) : Prop where
  accepted : ∀ s ∈ sitesOf [] p.instructions, Expr.accepts s.source = true
  loops : ∀ i ∈ ownOf p.instructions, ∀ n ∈ i.loopNames, Client.OfNameChars n
  free : ∀ n ∈ p.freeNames, Client.OfNameChars n

instance (p : Program) : Decidable p.Copyable :=
  decidable_of_iff ((∀ s ∈ sitesOf [] p.instructions, Expr.accepts s.source = true) ∧
      (∀ i ∈ ownOf p.instructions, ∀ n ∈ i.loopNames, Client.OfNameChars n) ∧
      ∀ n ∈ p.freeNames, Client.OfNameChars n)
    ⟨fun h => ⟨h.1, h.2.1, h.2.2⟩, fun h => ⟨h.accepted, h.loops, h.free⟩⟩

namespace Client

structure Writable (sites : List Site) (own : List Instruction) (modules : List Program) :
    Prop where
  accepted : ∀ s ∈ sites, Expr.accepts s.source = true
  loops : ∀ i ∈ own, ∀ n ∈ i.loopNames, OfNameChars n
  copyable : ∀ q ∈ modules, q.Copyable

namespace Writable
variable {s₁ s₂ : List Site} {o₁ o₂ : List Instruction} {m₁ m₂ : List Program}

theorem left (h : Writable (s₁ ++ s₂) (o₁ ++ o₂) (m₁ ++ m₂)) : Writable s₁ o₁ m₁ :=
  ⟨fun s hs => h.accepted s (List.mem_append_left _ hs),
    fun i hi => h.loops i (List.mem_append_left _ hi),
    fun q hq => h.copyable q (List.mem_append_left _ hq)⟩

theorem right (h : Writable (s₁ ++ s₂) (o₁ ++ o₂) (m₁ ++ m₂)) : Writable s₂ o₂ m₂ :=
  ⟨fun s hs => h.accepted s (List.mem_append_right _ hs),
    fun i hi => h.loops i (List.mem_append_right _ hi),
    fun q hq => h.copyable q (List.mem_append_right _ hq)⟩

theorem below {i : Instruction} (h : Writable s₁ (i :: o₁) m₁) : Writable s₁ o₁ m₁ :=
  ⟨h.accepted, fun j hj => h.loops j (List.mem_cons_of_mem _ hj), h.copyable⟩

theorem expr {s : Site} (h : Writable (s :: s₁) o₁ m₁) : Expr.accepts s.source = true :=
  h.accepted s (List.mem_cons_self ..)

theorem behind {s : Site} (h : Writable (s :: s₁) o₁ m₁) : Writable s₁ o₁ m₁ :=
  ⟨fun t ht => h.accepted t (List.mem_cons_of_mem _ ht), h.loops, h.copyable⟩

end Writable

theorem scans_parameters {value : String} {key : Option String}
    (h : ∀ n ∈ value :: key.toList, OfNameChars n) : Scans ['('] (parameters value key) ['('] := by
  have hvalue := (scans_name (h value (List.mem_cons_self ..))).inside ['(']
  cases key with
  | none => exact hvalue
  | some key =>
    have hkey := scans_name (h key (List.mem_cons_of_mem _ (List.mem_singleton_self _)))
    exact (hvalue.append fun _ => rfl).append (hkey.inside _)

theorem scans_use {body arguments replacements : String} (hbody : Scans [] body [])
    (harguments : Scans [] arguments []) (hreplacements : Scans ['\x7b'] replacements ['\x7b']) :
    Scans [] ("(function(__made_locals,__made_block)" ++ braced body ++ ")(" ++ arguments ++ "," ++
      braced replacements ++ ");") [] := by
  have hopen : Scans [] "(function(__made_locals,__made_block)" ['('] :=
    scans_of_pass (by decide +kernel)
  have hcall : Scans ['('] ")(" ['('] := fun _ => rfl
  exact ((((hopen.append ((scans_braced (hbody.inside _)).inside _)).append hcall).append
    (harguments.inside _)).append fun _ => rfl).append
    ((scans_braced hreplacements).inside ['(']) |>.append fun _ => rfl

section
variable (recording : Bool)

mutual
theorem scans_instruction (bound : List String) : (i : Instruction) →
    Writable (i.sites bound) (i :: i.nested) i.programs → Scans [] (instruction recording i) []
  | .text s, _ => scans_push (scans_literal s)
  | .output _ format _, h => scans_push (scans_output h.expr format)
  | .attr name e escape _, h => by
    have hescape : Scans ['('] (if escape then "true" else "false") ['('] := by
      cases escape <;> exact scans_of_pass (by decide +kernel)
    have hopen : Scans [] "__made_view.attr(" ['('] := scans_of_pass (by decide +kernel)
    have hexpr : Scans ['('] ",(" ['(', '('] := scans_of_pass (by decide +kernel)
    have hflag : Scans ['(', '('] ")," ['('] := scans_of_pass (by decide +kernel)
    exact scans_push ((((((hopen.append ((scans_literal name).inside _)).append hexpr).append
      ((scans_expr h.expr).inside _)).append hflag).append hescape).append fun _ => rfl)
  | .ifElse branches otherwise, h => by
    have helse : Scans [] "else " [] := scans_of_pass (by decide +kernel)
    exact (scans_intercalate helse (scans_conditions bound branches h.below.left)).append
      (scans_alternative bound otherwise h.below.right)
  | .whileTrue _ body _, h => by
    have hwhile : Scans [] "while" [] := scans_of_pass (by decide +kernel)
    exact (hwhile.append (scans_test h.expr)).append
      (scans_braced ((scans_instructions bound body h.below.behind).inside _))
  | .caseOf _ arms line, h => by
    have harms := (scans_cases bound line arms h.below.behind).append
      (scans_default bound line arms h.below.behind)
    exact (scans_between ['(', '('] (by decide +kernel) (by decide +kernel)
      ((scans_expr h.expr).inside _)).append (scans_braced (harms.inside _))
  | .each value key _ body _, h => by
    have hopen : Scans [] "__made_view.each((" ['(', '('] := scans_of_pass (by decide +kernel)
    have hfunction : Scans ['(', '('] "),function(" ['(', '('] := scans_of_pass (by decide +kernel)
    have hnames : Scans ['(', '('] (parameters value key) ['(', '('] := fun below =>
      scans_parameters (h.loops _ (List.mem_cons_self ..)) ('(' :: below)
    have hbody := scans_braced ((scans_instructions _ body h.below.behind).inside _)
    exact (((((hopen.append ((scans_expr h.expr).inside _)).append hfunction).append hnames).append
      (fun _ => rfl : Scans ['(', '('] ")" ['('])).append (hbody.inside _)).append fun _ => rfl
  | .block name body, h => by
    have hopen : Scans [] "__made_view.block(__made_block," ['('] :=
      scans_of_pass (by decide +kernel)
    have hfunction : Scans ['('] ",function()" ['('] := scans_of_pass (by decide +kernel)
    have hbody := scans_braced ((scans_instructions bound body h.below).inside _)
    exact ((((hopen.append ((scans_literal name).inside _)).append hfunction).append
      (hbody.inside _))).append fun _ => rfl
  | .extension p os overrides dependency line, h => by
    have h : Writable (optionSites line bound os ++ sitesOfOverrides bound overrides)
        ([] ++ ownOfOverrides overrides) (programsFrom p ++ programsOfOverrides overrides) :=
      h.below
    exact scans_use ((scans_program p h.left.copyable).append (scans_record recording dependency))
      (scans_options h.left.accepted) (scans_list (scans_contents bound overrides h.right))
  | .inclusion p os dependency _, h =>
    scans_use ((scans_program p h.copyable).append (scans_record recording dependency))
      (scans_options h.accepted) (scans_empty _)
theorem scans_instructions (bound : List String) : (is : List Instruction) →
    Writable (sitesOf bound is) (ownOf is) (programsOf is) →
    Scans [] (instructions recording is) []
  | [], _ => scans_empty []
  | i :: is, h => (scans_instruction bound i h.left).append (scans_instructions bound is h.right)
theorem scans_conditions (bound : List String) : (bs : List (Guarded (List Instruction))) →
    Writable (sitesOfBranches bound bs) (ownOfBranches bs) (programsOfBranches bs) →
    ∀ s ∈ conditions recording bs, Scans [] s []
  | [], _ => nofun
  | ⟨e, body, line⟩ :: bs, h => by
    have hif : Scans [] "if" [] := scans_of_pass (by decide +kernel)
    refine List.forall_mem_cons.2 ⟨?_, scans_conditions bound bs h.right⟩
    exact (hif.append (scans_test h.left.expr)).append
      (scans_braced ((scans_instructions bound body h.left.behind).inside _))
theorem scans_alternative (bound : List String) : (o : Option (List Instruction)) →
    Writable (sitesOfOption bound o) (ownOfOption o) (programsOfOption o) →
    Scans [] (alternative recording o) []
  | none, _ => scans_empty []
  | some body, h =>
    (scans_of_pass (by decide +kernel) : Scans [] "else" []).append
      (scans_braced ((scans_instructions bound body h).inside _))
theorem scans_cases (bound : List String) (line : Nat) :
    (as : List (CaseArm (List Instruction))) →
    Writable (sitesOfArms bound line as) (ownOfArms as) (programsOfArms as) →
    Scans [] (cases recording as) []
  | [], _ => scans_empty []
  | ⟨none, _⟩ :: as, h => scans_cases bound line as h.right
  | ⟨some e, body⟩ :: as, h => by
    have hbreak : Scans [] "break" [] := scans_of_pass (by decide +kernel)
    have hbody := (scans_instructions bound body h.left.behind).append hbreak
    exact ((scans_between ['('] (by decide +kernel) (by decide +kernel)
      ((scans_expr h.left.expr).inside _)).append (scans_braced (hbody.inside _))).append
      (scans_cases bound line as h.right)
theorem scans_default (bound : List String) (line : Nat) :
    (as : List (CaseArm (List Instruction))) →
    Writable (sitesOfArms bound line as) (ownOfArms as) (programsOfArms as) →
    Scans [] (default recording as) []
  | [], _ => scans_empty []
  | ⟨some _, _⟩ :: as, h => scans_default bound line as h.right
  | ⟨none, body⟩ :: _, h =>
    (scans_of_pass (by decide +kernel) : Scans [] "default:" []).append
      (scans_braced ((scans_instructions bound body h.left).inside _))
theorem scans_content (bound : List String) : (o : Option (List Instruction)) →
    Writable (sitesOfOption bound o) (ownOfOption o) (programsOfOption o) →
    Scans [] (content recording o) []
  | none, _ => (scans_of_pass (by decide +kernel) : Scans [] "null" [])
  | some body, h =>
    (scans_of_pass (by decide +kernel) : Scans [] "function()" []).append
      (scans_braced ((scans_instructions bound body h).inside _))
theorem scans_contents (bound : List String) : (os : List (Override (List Instruction))) →
    Writable (sitesOfOverrides bound os) (ownOfOverrides os) (programsOfOverrides os) →
    ∀ s ∈ contents recording os, Scans [] s []
  | [], _ => nofun
  | ⟨block, before, replace, after⟩ :: os, h => by
    refine List.forall_mem_cons.2 ⟨?_, scans_contents bound os h.right⟩
    have hbefore := scans_content bound before h.left.left.left
    have hreplace := scans_content bound replace h.left.left.right
    have hafter := scans_content bound after h.left.right
    exact (((((((scans_literal block).append (fun _ => rfl)).append (hbefore.inside ['['])).append
      (fun _ => rfl)).append (hreplace.inside ['['])).append (fun _ => rfl)).append
      (hafter.inside ['['])).append fun _ => rfl
theorem scans_program : (p : Program) → (∀ q ∈ programsFrom p, q.Copyable) →
    Scans [] (program recording p) []
  | ⟨_, _, _, body, _, freeNames⟩, h => by
    obtain ⟨hp, hmodules⟩ := List.forall_mem_cons.1 h
    have hopen : Scans [] ";(function(" ['(', '('] := scans_of_pass (by decide +kernel)
    have hnames : Scans ['(', '('] (String.intercalate "," freeNames) ['(', '('] := fun below =>
      scans_list (fun n hn => scans_name (hp.free n hn)) ('(' :: below)
    have hbody := scans_braced
      ((scans_instructions [] body ⟨hp.accepted, hp.loops, hmodules⟩).inside _)
    have harguments : Scans ['('] (String.intercalate ","
        (freeNames.map fun n => "__made_locals[" ++ literal n ++ "]")) ['('] := by
      refine scans_list fun s hs => ?_
      obtain ⟨n, -, rfl⟩ := List.mem_map.1 hs
      exact scans_between ['['] (by decide +kernel) (by decide +kernel) ((scans_literal n).inside _)
    exact ((((((hopen.append hnames).append (fun _ => rfl : Scans ['(', '('] ")" ['('])).append
      (hbody.inside _)).append (fun _ => rfl)).append harguments)).append fun _ => rfl
end

def opening : String :=
  ";var __made_buf=[];var __made_block=" ++ braced "" ++ ";__made_locals=__made_locals||" ++
    braced "" ++ ";" ++ (if recording then "var __made_dep=[];" else "")

theorem scans_opening : Scans [] (opening recording) [] := by
  refine (scans_of_pass (b := []) (by decide +kernel)).append ?_
  cases recording with
  | false => exact scans_empty _
  | true => exact scans_of_pass (by decide +kernel)

theorem scans_answer : Scans [] (if recording then "return [__made_buf.join(\"\"),__made_dep];"
    else "return __made_buf.join(\"\");") [] := by
  cases recording <;> exact scans_of_pass (by decide +kernel)

theorem functionWith_eq (p : Program) (h : ∀ q ∈ programsFrom p, q.Copyable) :
    ∃ body, functionWith "\x7b\x7d" p recording = "function(__made_locals)" ++ braced body ∧
      Scans [] body [] := by
  have hview : Scans [] ("var __made_view=" ++ "\x7b\x7d") [] := scans_of_pass (by decide +kernel)
  refine ⟨_, ?_, ((hview.append (scans_opening recording)).append
    (scans_program recording p h)).append (scans_answer recording)⟩
  unfold functionWith opening
  simp only [String.append_assoc]

end

/-- **The last character of a client function closes its first brace**: up to there all strings are
closed and all brackets match. -/
theorem functionWith_closes (p : Program) (recording : Bool)
    (h : ∀ q ∈ programsFrom p, q.Copyable) :
    ∃ head body,
      (functionWith "\x7b\x7d" p recording).toList = head ++ '\x7b' :: (body ++ ['\x7d']) ∧
        '\x7b' ∉ head ∧
        closing (Text.width (head ++ ['\x7b'])) '\x7b' (body ++ ['\x7d']) = .ok (body, []) := by
  obtain ⟨body, hbody, hscan⟩ := functionWith_eq recording p h
  refine ⟨"function(__made_locals)".toList, body.toList, ?_, by decide +kernel, ?_⟩
  · rw [hbody, braced, String.toList_append, String.toList_append, String.toList_append]
    rfl
  · rw [closing]
    refine (closingFrom_pass (hscan []) '\x7b' _ _).trans ?_
    simp [closingFrom, ScanState.under, ScanState.isString, isClosing, closerOf, Except.map]

/-- A page that extends a layout, with a loop and a case in what it has for the block. -/
def menuProgram : Program :=
  let layout : Program := ⟨some "layout", "m1", "outer",
    [.text "<main title=\"", .output "title" .escape 1, .text "\">",
      .block "body" [.ifElse [⟨"title.length > 1", [.text "\x7b"], 3⟩] (some [.text ")"])]],
    ["body"], ["title"]⟩
  let entry : List Instruction := [.each "item" (some "i") "menu" [
    .caseOf "i % 2" [⟨none, [.output "item['na)me']" .raw 4]⟩, ⟨some "[1][0]", [.text "]"]⟩] 3] 2]
  ⟨none, "m2", "",
    [.extension layout [⟨"title", .text [.text "a\"b", .expr "site['(']"]⟩, ⟨"dark", .boolean⟩]
      [⟨"body", none, some entry, some []⟩] (some ⟨"layout", "outer", .extension⟩) 1],
    [], ["site", "menu"]⟩

theorem functionWith_closes_menu :
    (∀ q ∈ programsFrom menuProgram, q.Copyable) ∧ ∃ head body,
      (functionWith "\x7b\x7d" menuProgram true).toList = head ++ '\x7b' :: (body ++ ['\x7d']) ∧
        '\x7b' ∉ head ∧
        closing (Text.width (head ++ ['\x7b'])) '\x7b' (body ++ ['\x7d']) = .ok (body, []) :=
  have h : ∀ q ∈ programsFrom menuProgram, q.Copyable := by decide +kernel
  ⟨h, functionWith_closes menuProgram true h⟩

end Client

end Stencil
