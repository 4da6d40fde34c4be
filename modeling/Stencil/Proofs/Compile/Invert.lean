import Stencil.Compile.Module
import Stencil.Proofs.Result
import Stencil.Session

/-! # What compilation did

Inversions: from the fact that a step of compilation succeeded, all that it went through. -/

namespace Stencil

open Template

theorem segmentsOnLine_eq_ok {text : String} {line : Nat} {ss : List Segment} :
    segmentsOnLine text line = .ok ss ↔ segments text = .ok ss := by
  unfold segmentsOnLine
  cases segments text with
  | error e => simp
  | ok ss => simp

theorem Compiler.program_eq_ok {c : Compiler} {d : Document} {p : Program}
    (h : c.program d = .ok p) :
    ∃ body, c.nodes c.options.indent d.nodes = .ok body ∧ p.filename = c.options.filename ∧
      p.instructions = coalesce body ∧ freeNamesOf p.instructions = .ok p.freeNames := by
  unfold Compiler.program at h
  split at h
  · cases h
  · obtain ⟨body, hb, h⟩ := bind_eq_ok.1 h
    obtain ⟨names, hn, h⟩ := bind_eq_ok.1 h
    obtain rfl := Except.ok.inj h
    exact ⟨body, hb, rfl, rfl, hn⟩

/-- What a compiler embeds for the references in a file at the end of a chain: the programs of the
modules that they stand for. -/
def Compiler.EmbedsModules (c : Compiler) (files : Files) (chain : List String) : Prop :=
  ∀ {reference line indent e}, c.embed reference line indent = .ok e →
    ∃ m, findModule files c.options chain c.sid reference line = .ok m ∧ m.target = e.target ∧
      compile files c.transforms (c.options.forModule m.target indent)
        (chain ++ [m.target.filename]) m.document = .ok e.program

theorem compile_eq_ok {files : Files} {transforms : Transforms} {options : Options}
    {chain : List String} {d : Document} {p : Program}
    (h : compile files transforms options chain d = .ok p) :
    ∃ embed, Compiler.program
        ⟨options, scopeId options.filename options.instanceName, transforms, embed⟩ d = .ok p ∧
      Compiler.EmbedsModules
        ⟨options, scopeId options.filename options.instanceName, transforms, embed⟩ files
          chain := by
  rw [compile] at h
  split at h
  · cases h
  · next q hq =>
    obtain rfl := Except.ok.inj h
    refine ⟨_, hq, fun {reference line indent e} he => ?_⟩
    simp only at he ⊢
    cases hf : findModule files options chain (scopeId options.filename options.instanceName)
      reference line with
    | error err => simp only [hf] at he; cases he
    | ok m =>
      simp only [hf] at he
      split at he
      · cases he
      · next q hq =>
        obtain rfl := Except.ok.inj he
        exact ⟨m, rfl, rfl, hq⟩

def Session.nameOf (options : Options) (d : Document) : Option String :=
  (options.filename.or d.filename).map Path.normalize

theorem Session.compileDocument_eq_ok {s : Session} {d : Document} {options : Options}
    {t : Compiled} (h : s.compileDocument d options = .ok t) :
    compile s.files s.transforms { options with filename := nameOf options d }
      (nameOf options d).toList d = .ok t.program := by
  obtain ⟨p, hp, rfl⟩ := map_eq_ok.1 h
  exact hp

theorem Session.compileDocument_eq_error {s : Session} {d : Document} {options : Options}
    {e : Diagnostic} (h : s.compileDocument d options = .error e) :
    compile s.files s.transforms { options with filename := nameOf options d }
      (nameOf options d).toList d = .error e :=
  map_eq_error.1 h

theorem Session.compileLoaded_eq_ok {s : Session} {id : Nat} {source : String} {options : Options}
    {t : Compiled} (h : s.compileLoaded id source options = .ok t) :
    ∃ d, parse source options.filename = .ok d ∧ s.compileDocument d options = .ok t :=
  bind_eq_ok.1 (mapError_eq_ok.1 h)

theorem Session.compileLoaded_eq_error {s : Session} {id : Nat} {source : String}
    {options : Options} {e : Diagnostic} (h : s.compileLoaded id source options = .error e) :
    ∃ x, e = x.forFile id ∧ (parse source options.filename = .error x ∨
      ∃ d, parse source options.filename = .ok d ∧ s.compileDocument d options = .error x) := by
  obtain ⟨x, hx, rfl⟩ := mapError_eq_error.1 h
  exact ⟨x, rfl, bind_eq_error.1 hx⟩

end Stencil
