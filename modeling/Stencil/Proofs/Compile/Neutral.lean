import Stencil.Proofs.Compile.Written

/-! # Transforms that change nothing

A transform that gives back what it gets is as good as none, for most literals. What it gets is the
literal as it was written, though, and what it gives is not split: a backslash that escapes a marker
stays there, while it is left out of a literal without a transform. -/

namespace Stencil

open Template

def Transforms.identity (names : List String) : Transforms :=
  names.map fun name => (name, fun value _ _ => some value)

theorem Transforms.run_identity (names : List String) (name value : String) (target : Target)
    (options : Options) :
    (identity names).run name value target options = if name ∈ names then some value else none := by
  induction names with
  | nil => rfl
  | cons n names ih =>
    rw [run, identity, List.map_cons, List.lookup_cons]
    by_cases hn : name = n
    · simp [hn]
    · simp only [beq_false_of_ne hn, List.mem_cons, hn, false_or]
      exact ih

/-- If a literal has one of the names and no expressions, no marker is escaped in it. -/
def Literal.Unescaped (names : List String) (l : Literal) : Prop :=
  l.name ∈ names → isPlainText l.value = true → ¬ EscapesMarker l.value

instance (names : List String) : DecidablePred (Literal.Unescaped names) := fun l =>
  inferInstanceAs (Decidable (l.name ∈ names → isPlainText l.value = true →
    ¬ EscapesMarker l.value))

/-! ## Values in a program -/

/-- A literal in its place writes the same whether it was split before or not. -/
theorem attrContent_alike {value : String} {ss : List Segment} (h : segments value = .ok ss)
    (hplain : isPlain ss = true) (hescape : ¬ EscapesMarker value) (line : Nat) :
    WritesAlike .whole (attrContent line ss (some value)) (attrContent line ss none) ∧
      SameSites (attrContent line ss (some value)) (attrContent line ss none) := by
  rcases segments_plain h hplain hescape with ⟨rfl, rfl⟩ | rfl
  · refine ⟨fun limit g slots slots' _ => ?_, fun _ => rfl⟩
    rw [attrContent, shown_runAll_singleton, shown_run_text, Shown.text_empty]
    exact .refl _
  · exact ⟨fun limit g slots slots' _ => .refl _, fun _ => rfl⟩

theorem optionContent_alike {value : String} {ss : List Segment} (h : segments value = .ok ss)
    (hplain : isPlain ss = true) (hescape : ¬ EscapesMarker value) (name : String) :
    OptionEntry.Alike ⟨name, .text (optionContent ss (some value))⟩
      ⟨name, .text (optionContent ss none)⟩ := by
  rcases segments_plain h hplain hescape with ⟨rfl, rfl⟩ | rfl
  · exact ⟨rfl, fun _ _ => rfl, fun _ _ => rfl⟩
  · exact .refl _

theorem kept_writesAlike_whole :
    Kept id (fun _ => True) OptionEntry.Alike (WritesAlike .whole) := by
  refine kept_writesAlike (fun _ => rfl) (fun _ => trivial) ?_
  intro c d indent hd _ limit g slots slots' _
  have hsame : d.layout indent = c.layout indent := by
    rw [Compiler.layout, Compiler.layout, hd]
    rfl
  rw [hsame, runAll_leaves (Compiler.leaves_layout indent)]
  exact .refl _

theorem identity_beside (names : List String) :
    (Transforms.identity names).Beside id (Literal.Unescaped names) OptionEntry.Alike
      (fun a b => WritesAlike .whole a b ∧ SameSites a b) [] := by
  -- Without a transform both compilers split the literal.
  have hunescaped : ∀ {name value ss}, Literal.Unescaped names ⟨name, value⟩ →
      segments value = .ok ss → isPlain ss = true → name ∈ names → ¬ EscapesMarker value := by
    intro name value ss hl h hplain hname
    refine hl hname ?_
    rw [isPlainText, h]
    exact hplain
  constructor
  · intro name value ss tag line o hl h hplain
    rw [Transforms.run_identity]
    by_cases hname : name ∈ names
    · rw [if_pos hname]
      exact attrContent_alike h hplain (hunescaped hl h hplain hname) line
    · rw [if_neg hname]
      have hleaves := leaves_attrContent line ss none
      exact ⟨kept_writesAlike_whole.leaves hleaves, fun _ => rfl⟩
  · intro name value ss o hl h hplain
    rw [Transforms.run_identity]
    by_cases hname : name ∈ names
    · rw [if_pos hname]
      exact optionContent_alike h hplain (hunescaped hl h hplain hname) name
    · rw [if_neg hname]
      exact .refl _

/-! ## Sessions -/

namespace Session

/-- **The identity transform is neutral.** If no marker is escaped in the plain literals of some
names, then a source compiles alike with transforms for these names that give back what they get and
with no transforms at all: with the same fault, or to programs with the same names, blocks and free
names. These render alike: with the same error, or with the same text and the same modules used. -/
theorem identity_neutral (files : Files) (names : List String) (source : String)
    (options : Options)
    (h : (files.load (options.filename.getD anonymous) source).2.LiteralsAre
      (Literal.Unescaped names)) :
    Parallel (fun t u => t.program.Related (fun _ _ => True) u.program ∧ ∀ input limit,
        Parallel (fun r r' => r.html = r'.html ∧ r.records = r'.records)
          (t.render input limit) (u.render input limit))
      ((mk files (.identity names)).compileSource source options).1
      ((mk files []).compileSource source options).1 := by
  have haside : Options.Aside id :=
    ⟨fun _ _ => rfl, fun _ _ _ => rfl, fun _ => rfl, fun _ => rfl, fun _ => rfl, fun _ _ _ _ => rfl⟩
  refine (compileSource_beside haside kept_writesAlike_whole (fun _ _ ho => ho.sites)
    (identity_beside names) trivial source h).mono ?_
  intro t u htu
  exact ⟨htu.mono fun _ _ _ => trivial, Compiled.alike_render htu⟩

/-- A module that gets options, and a tag with an escaped marker in its class and in a literal with
an expression. -/
theorem identity_neutral_module :
    let files : Files := ⟨[⟨"/m.made", "/m.made", "i(t=t) !\x7bs\x7d"⟩]⟩
    let names := ["t", "s", "class"]
    let source := "include(t=\"T\", s=\"\") m\n" ++
      "b(t=\"#\x7b1\x7d\\#\x7bx\x7d\", class=\"\\#\x7by\x7d\")"
    ∃ t u r r', ((mk files (.identity names)).compileSource source {}).1 = .ok t ∧
      ((mk files []).compileSource source {}).1 = .ok u ∧ t.render .null 10 = .ok r ∧
      u.render .null 10 = .ok r' ∧ r.html = r'.html ∧ r.records = r'.records ∧
      r'.html = "<i t=\"T\"></i><b t=\"1#\x7bx\x7d\" class=\"#\x7by\x7d\"></b>" := by
  intro files names source
  have hliterals : (files.load "template" source).2.LiteralsAre (Literal.Unescaped names) := by
    unfold Files.LiteralsAre
    decide +kernel
  have hplain : ((mk files []).compileSource source {}).1.toOption.bind (fun u =>
      (u.render .null 10).toOption.map Rendered.html) = some
        "<i t=\"T\"></i><b t=\"1#\x7bx\x7d\" class=\"#\x7by\x7d\"></b>" := by decide +kernel
  obtain ⟨u, hu, hplain⟩ := Option.bind_eq_some_iff.1 hplain
  obtain ⟨r', hr', hhtml⟩ := Option.map_eq_some_iff.1 hplain
  obtain ⟨t, ht, -, hrender⟩ :=
    (identity_neutral files names source {} hliterals).exists_left (ok_of_toOption hu)
  obtain ⟨r, hr, hsame, hrecords⟩ := (hrender .null 10).exists_left (ok_of_toOption hr')
  exact ⟨t, u, r, r', ht, ok_of_toOption hu, hr, ok_of_toOption hr', hsame, hrecords, hhtml⟩

/-- An escaped marker keeps its backslash on the way through a transform. -/
theorem identity_keeps_backslash :
    let source := "p(title=\"\\#\x7bb\x7d\")"
    let html (transforms : Transforms) : Option String :=
      ((mk ⟨[]⟩ transforms).compileSource source {}).1.toOption.bind fun t =>
        (t.render .null 10).toOption.map Rendered.html
    html (.identity ["title"]) = some "<p title=\"\\#\x7bb\x7d\"></p>" ∧
      html [] = some "<p title=\"#\x7bb\x7d\"></p>" := by
  decide +kernel

end Session

end Stencil
