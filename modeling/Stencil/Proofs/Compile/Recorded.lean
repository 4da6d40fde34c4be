import Stencil.Proofs.Compile.Blocks
import Stencil.Proofs.Compile.Parallel
import Stencil.Proofs.Render.Calls

/-! # Recording the modules that are used

Whether uses of modules are recorded shows in the dependencies of the program and nowhere else. What
is recorded is one record for each call of a module, with the names that the reference to it stands
for. -/

namespace Stencil

open Template

section
variable (recording : Bool)

def Options.withRecording (o : Options) : Options :=
  { o with dep := recording }

theorem aside_withRecording : Options.Aside (Options.withRecording recording) :=
  ⟨fun _ _ => rfl, fun _ _ _ => rfl, fun _ => rfl, fun _ => rfl, fun _ => rfl, fun _ _ _ _ => rfl⟩

/-! ## Instructions -/

theorem recordedAll_append (is js : List Instruction) :
    recordedAll recording (is ++ js) = recordedAll recording is ++ recordedAll recording js := by
  induction is with
  | nil => rfl
  | cons i is ih => rw [List.cons_append, recordedAll, recordedAll, ih, List.cons_append]

theorem recordedAll_leaves {is : List Instruction} (h : ∀ i ∈ is, i.isLeaf = true) :
    recordedAll recording is = is := by
  induction is with
  | nil => rfl
  | cons i is ih =>
    rw [List.forall_mem_cons] at h
    rw [recordedAll, ih h.2]
    cases i with
    | text s => rfl
    | output expr format line => rfl
    | attr name expr escape line => rfl
    | _ => cases h.1

theorem coalesce_recordedAll (is : List Instruction) :
    coalesce (recordedAll recording is) = recordedAll recording (coalesce is) := by
  induction is with
  | nil => rfl
  | cons i is ih =>
    cases i with
    | text s =>
      rw [recordedAll, Instruction.recorded, coalesce, coalesce, ih]
      cases coalesce is with
      | nil => by_cases hs : (s == "") = true <;> simp [recordedAll, Instruction.recorded, hs]
      | cons j rest =>
        cases j <;> by_cases hs : (s == "") = true <;>
          simp [recordedAll, Instruction.recorded, hs]
    | _ => simp only [recordedAll, Instruction.recorded, coalesce, ih]

theorem recordedOption_of_rel {o o' : Option (List Instruction)}
    (h : Option.Rel (fun a a' => a' = recordedAll recording a) o o') :
    o' = recordedOption recording o := by
  cases h with
  | none => rfl
  | some h => rw [h, recordedOption]

theorem recordedBranches_of_related {bs bs' : List (Guarded (List Instruction))}
    (h : List.Forall₂ (Guarded.Related fun a a' => a' = recordedAll recording a) bs bs') :
    bs' = recordedBranches recording bs := by
  induction h with
  | nil => rfl
  | @cons b b' bs bs' hb _ ih =>
    obtain ⟨expr, body, line⟩ := b
    obtain ⟨_, _, _⟩ := b'
    obtain ⟨rfl, rfl, rfl⟩ := hb
    rw [recordedBranches, ih]

theorem recordedArms_of_related {as as' : List (CaseArm (List Instruction))}
    (h : List.Forall₂ (CaseArm.Related fun a a' => a' = recordedAll recording a) as as') :
    as' = recordedArms recording as := by
  induction h with
  | nil => rfl
  | @cons a a' as as' ha _ ih =>
    obtain ⟨expr, body⟩ := a
    obtain ⟨_, _⟩ := a'
    obtain ⟨rfl, rfl⟩ := ha
    rw [recordedArms, ih]

theorem recordedOverrides_of_related {os os' : List (Override (List Instruction))}
    (h : List.Forall₂ (Override.Related fun a a' => a' = recordedAll recording a) os os') :
    os' = recordedOverrides recording os := by
  induction h with
  | nil => rfl
  | @cons o o' os os' ho _ ih =>
    obtain ⟨block, before, replace, after⟩ := o
    obtain ⟨_, before', replace', after'⟩ := o'
    obtain ⟨rfl, hbefore, hreplace, hafter⟩ := ho
    have hbefore : before' = _ := recordedOption_of_rel recording hbefore
    have hreplace : replace' = _ := recordedOption_of_rel recording hreplace
    have hafter : after' = _ := recordedOption_of_rel recording hafter
    rw [recordedOverrides, ih, hbefore, hreplace, hafter]

theorem recorded_of_related {p q : Program}
    (h : p.Related (fun a a' => a' = recordedAll recording a) q) : q = p.recorded recording := by
  obtain ⟨filename, sid, name, body, blocks, freeNames⟩ := p
  obtain ⟨_, _, _, _, _, _⟩ := q
  obtain ⟨rfl, rfl, rfl, rfl, rfl, rfl⟩ := h
  rfl

theorem dependency_of_related {c d : Compiler} (hd : d.options = c.options.withRecording recording)
    {e e' : Embedded} (he : e.Related (fun a a' => a' = recordedAll recording a) e') (use : Use) :
    d.dependency e'.target use = if recording then some (e.program.dependency use) else none := by
  rw [Compiler.dependency, hd, ← he.target, ProgramOf.dependency, he.filename, he.instanceName]
  rfl

theorem kept_recorded : Kept (Options.withRecording recording) (fun _ => True) (· = ·)
    fun a a' => a' = recordedAll recording a where
  deeper := fun _ => trivial
  entry := fun _ => rfl
  leaves := fun h => (recordedAll_leaves recording h).symm
  append := fun ha hb => by rw [recordedAll_append, ha, hb]
  coalesce := fun ha => by rw [ha, coalesce_recordedAll]
  layout := fun {c d indent} hd _ => by
    rw [recordedAll_leaves recording (Compiler.leaves_layout indent), Compiler.layout, hd]
    rfl
  block := fun name ha => by rw [ha]; rfl
  ifElse := fun hbs ho => by
    rw [recordedBranches_of_related recording hbs, recordedOption_of_rel recording ho]
    rfl
  whileTrue := fun expr line ha => by rw [ha]; rfl
  caseOf := fun expr line has => by rw [recordedArms_of_related recording has]; rfl
  each := fun value key expr line ha => by rw [ha]; rfl
  extension := fun line hd he hentries hos => by
    rw [List.forall₂_eq_eq_eq] at hentries
    rw [recorded_of_related recording he.program, recordedOverrides_of_related recording hos,
      dependency_of_related recording hd he, hentries]
    rfl
  inclusion := fun line hd he hentries => by
    rw [List.forall₂_eq_eq_eq] at hentries
    rw [recorded_of_related recording he.program, dependency_of_related recording hd he, hentries]
    rfl

end

/-! ## The names of modules -/

/-- A module whose names are what a reference stands for: one in the document of a program, or of
one inside it. -/
def ProgramOf.Refers (p : Program) (files : Files) (transforms : Transforms) (options : Options)
    (m : Program) : Prop :=
  ∃ q ∈ programsFrom p, ∃ o chain d, compile files transforms o chain d = .ok q ∧
    o.SamePlaces options ∧ ∃ reference ∈ d.references, ∃ filename,
      Reference.resolve reference q.sid o files = .ok ⟨filename, m.instanceName⟩ ∧
      m.filename = some filename

/-- Modules are compiled outside the chain that leads to them, so the induction is on the number of
files outside it. -/
theorem refers_of_compile {files : Files} {transforms : Transforms} {options places : Options}
    {chain : List String} {d : Document} {p : Program}
    (h : compile files transforms options chain d = .ok p) (hplaces : options.SamePlaces places)
    {m : Program} (hm : m ∈ programsOf p.instructions) : p.Refers files transforms places m := by
  obtain ⟨embed, hp, hfound⟩ := compile_eq_ok h
  obtain ⟨body, hb, -, hbody, -⟩ := Compiler.program_eq_ok hp
  obtain ⟨i, hi, q, hmodule, hm⟩ := mem_programsOf.1 hm
  have hi' := hi
  rw [hbody] at hi'
  obtain ⟨reference, hreference, line, indent, e, he, rfl⟩ :=
    ((Compiler.emitsAll_nodes (List.Subset.refl _) hb).coalesce i hi').embedded q hmodule
  obtain ⟨found, hfind, -, hcompile⟩ := hfound he
  rw [programsFrom, List.mem_cons] at hm
  rcases hm with rfl | hm
  · obtain ⟨hname, hinstance, -⟩ := names_of_compile hcompile
    obtain ⟨-, -, hsid⟩ := names_of_compile h
    refine ⟨p, mem_programsFrom p, options, chain, d, h, hplaces, reference,
      hreference, found.target.filename, ?_, hname⟩
    rw [hsid, hinstance]
    exact (findModule_eq_ok hfind).1
  · have := found.outside
    obtain ⟨r, hr, hrefers⟩ :=
      refers_of_compile hcompile ⟨hplaces.basedir, hplaces.ext, hplaces.entry⟩ hm
    refine ⟨r, ?_, hrefers⟩
    rw [programsFrom, List.mem_cons]
    exact .inr (mem_programsOf.2 ⟨i, hi, _, hmodule, hr⟩)
termination_by files.outside chain

/-! ## Sessions -/

namespace Session

/-- Two compilations that differ in whether they record give programs that differ in that alone. -/
theorem compileSource_withRecording {s : Session}
    (ht : ∀ name value target o recording, s.transforms.run name value target
      { o with dep := recording } = s.transforms.run name value target o)
    (source : String) (options : Options) (recording : Bool) :
    Parallel (fun t u => u.program = t.program.recorded recording)
      (s.compileSource source options).1
      (s.compileSource source { options with dep := recording }).1 :=
  (compileSource_changed (aside_withRecording recording) (kept_recorded recording)
    (fun _ _ h _ _ => h ▸ rfl) (fun name value target o => ht name value target o recording) trivial
    source).mono fun _ _ h => recorded_of_related recording h

/-- **Recording only observes.** Without and with recording a source compiles alike, to programs
that are the same but for their dependencies, and these render alike: with the same text or the same
error. Nothing is recorded in the first case. In the second one there is one record for each call of
a module that is made while the program runs, in the order in which the calls are completed; a call
is recorded under the names that a reference stands for, with the way the module was used and its
input. -/
theorem recording_observes {s : Session}
    (ht : ∀ name value target o recording, s.transforms.run name value target
      { o with dep := recording } = s.transforms.run name value target o)
    (source : String) (options : Options) :
    Parallel (fun t u => t.program.recorded false = u.program.recorded false ∧
        ∀ input limit, Parallel (fun r r' => r.html = r'.html ∧ r.records = [] ∧
            ∃ x, t.program.trace input limit = .ok x ∧ r.html = Html.join x.pieces ∧
              r'.records = (completedOf x.calls).map Call.record ∧
              ∀ c ∈ completedOf x.calls,
                t.program.Refers (s.compileSource source options).2.files s.transforms options
                  c.program)
          (t.render input limit) (u.render input limit))
      (s.compileSource source { options with dep := false }).1
      (s.compileSource source { options with dep := true }).1 := by
  -- The program without records is the one that is traced; all others are `recorded` from it.
  have hon := compileSource_withRecording ht source { options with dep := false } true
  have hoff := compileSource_withRecording ht source { options with dep := false } false
  have herase := compileSource_withRecording ht source { options with dep := true } false
  refine hon.with_results.mono ?_
  rintro t u ⟨ht, hu, hprogram⟩
  have hnone : t.program = t.program.recorded false := hoff.related ht ht
  have herased : t.program = u.program.recorded false := herase.related hu ht
  refine ⟨hnone.symm.trans herased, fun input limit => ?_⟩
  have hplain := t.program.traces_render false input limit
  have hrecorded := t.program.traces_render true input limit
  rw [← hnone] at hplain
  rw [← hprogram] at hrecorded
  refine (hplain.meet hrecorded).mono ?_
  rintro r r' ⟨x, hx, hr, hr'⟩
  refine ⟨?_, hr.records, x, hx, ?_, hr'.records, fun c hc => ?_⟩
  · rw [Rendered.html, Rendered.html, hr.pieces, hr'.pieces]
  · rw [Rendered.html, hr.pieces]
  · obtain ⟨d, -, hd⟩ := compileLoaded_eq_ok ht
    refine refers_of_compile (compileDocument_eq_ok hd) ?_ (hr.known c hc)
    exact ⟨rfl, rfl, rfl⟩

/-- A layout that uses a module itself and gets content that uses it in a loop. -/
theorem recording_observes_layout :
    let s : Session := ⟨⟨[⟨"/nav.made", "/nav.made", "nav #\x7btitle\x7d"⟩,
      ⟨"/layout.made", "/layout.made", "include(title=\"T\") nav\nblock content"⟩]⟩,
      [("title", fun value _ _ => some (value ++ "!"))]⟩
    let source := "extends layout\n  replace content\n    each x in [1, 2]\n" ++
      "      include(title=x) nav"
    let options : Options := { filename := some "/page.made" }
    ∃ t u r r' x, (s.compileSource source { options with dep := false }).1 = .ok t ∧
      (s.compileSource source { options with dep := true }).1 = .ok u ∧
      t.render .null 10 = .ok r ∧ u.render .null 10 = .ok r' ∧ t.program.trace .null 10 = .ok x ∧
      r.html = r'.html ∧ r.records = [] ∧ r'.records = (completedOf x.calls).map Call.record ∧
      r.html = "<nav>T!</nav><nav>1</nav><nav>2</nav>" ∧
      r'.records.map (fun record => (record.dependency.filename, record.dependency.use)) =
        [("/nav.made", .inclusion), ("/nav.made", .inclusion), ("/nav.made", .inclusion),
          ("/layout.made", .extension)] := by
  intro s source options
  have ht : ∀ name value target o recording, s.transforms.run name value target
      { o with dep := recording } = s.transforms.run name value target o := by
    intro name value target o recording
    rw [Transforms.run, Transforms.run, List.lookup_cons]
    split
    · rfl
    · rfl
  have hon : (s.compileSource source { options with dep := true }).1.toOption.bind (fun u =>
      (u.render .null 10).toOption.map fun r => (r.html, r.records.map fun record =>
        (record.dependency.filename, record.dependency.use))) =
      some ("<nav>T!</nav><nav>1</nav><nav>2</nav>",
        [("/nav.made", .inclusion), ("/nav.made", .inclusion), ("/nav.made", .inclusion),
          ("/layout.made", .extension)]) := by decide +kernel
  obtain ⟨u, hu, hon⟩ := Option.bind_eq_some_iff.1 hon
  obtain ⟨r', hr', hon⟩ := Option.map_eq_some_iff.1 hon
  obtain ⟨hhtml, hrecords⟩ := Prod.mk.inj hon
  obtain ⟨t, ht, -, hrender⟩ :=
    (recording_observes ht source options).exists_left (ok_of_toOption hu)
  obtain ⟨r, hr, hsame, hnone, x, hx, -, hcalls, -⟩ :=
    (hrender .null 10).exists_left (ok_of_toOption hr')
  exact ⟨t, u, r, r', x, ht, ok_of_toOption hu, hr, ok_of_toOption hr', hx, hsame, hnone, hcalls,
    hsame.trans hhtml, hrecords⟩

end Session

end Stencil
