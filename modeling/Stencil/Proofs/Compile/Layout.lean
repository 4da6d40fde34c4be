import Stencil.Proofs.Compile.Written

/-! # The layout of the markup

Laying out the markup adds blanks to the texts of a program. So two programs that were compiled with
and without layout write the same, blanks apart, as long as what they have for blocks does, too. -/

namespace Stencil

open Template

namespace Text

def withoutBlanks (s : String) : String :=
  String.ofList (s.toList.filter fun c => !isBlank c)

theorem withoutBlanks_append (s t : String) :
    withoutBlanks (s ++ t) = withoutBlanks s ++ withoutBlanks t := by
  rw [withoutBlanks, String.toList_append, List.filter_append, String.ofList_append]
  rfl

theorem withoutBlanks_of_allBlank {s : String} (h : allBlank s.toList = true) :
    withoutBlanks s = "" := by
  have hnone : s.toList.filter (fun c => !isBlank c) = [] := by
    rw [List.filter_eq_nil_iff]
    intro c hc
    simpa using List.all_eq_true.1 h c hc
  rw [withoutBlanks, hnone]

end Text

def Text.Aspect.unblanked : Text.Aspect :=
  ⟨Text.withoutBlanks, Text.withoutBlanks_append⟩

theorem blank_layout (c : Compiler) {indent : String} (h : Text.allBlank indent.toList = true)
    (limit : Nat) (f : Frame) : ∃ s, (runAll rootScope limit f (c.layout indent)).shown =
      Shown.text s ∧
      Text.withoutBlanks s = "" := by
  unfold Compiler.layout
  split
  · refine ⟨indent, ?_, Text.withoutBlanks_of_allBlank h⟩
    rw [shown_runAll_singleton, shown_run_text]
  · exact ⟨"", rfl, rfl⟩

def Options.withLayout (pretty : Bool) (o : Options) : Options :=
  { o with pretty := pretty }

theorem aside_withLayout (pretty : Bool) : Options.Aside (Options.withLayout pretty) :=
  ⟨fun _ _ => rfl, fun _ _ _ => rfl, fun _ => rfl, fun _ => rfl, fun _ => rfl, fun _ _ _ _ => rfl⟩

/-- Layout is kept apart from everything else the compiler does. -/
theorem kept_withLayout (pretty : Bool) : Kept (Options.withLayout pretty)
    (fun indent => Text.allBlank indent.toList = true) OptionEntry.Alike
    (WritesAlike .unblanked) := by
  refine kept_writesAlike (fun _ => rfl) ?_ ?_
  · intro indent h
    rw [Compiler.deeper, String.toList_append, Text.allBlank, List.all_append]
    exact Bool.and_eq_true_iff.2 ⟨h, rfl⟩
  · intro c d indent _ h limit g slots slots' _
    obtain ⟨s, hshown, hs⟩ := blank_layout c h limit ⟨g, slots⟩
    obtain ⟨t, hshown', ht⟩ := blank_layout d h limit ⟨g, slots'⟩
    rw [hshown, hshown']
    exact Shown.alike_text (hs.trans ht.symm)

/-! ## Sessions -/

namespace Session

/-- **Layout is cosmetic.** With an indentation of blanks, a source compiles alike whether its
markup is laid out or not, and the programs render alike: with the same error, or with the same
modules used and with texts that are the same but for blanks. -/
theorem layout_cosmetic {s : Session}
    (ht : ∀ name value target o pretty, s.transforms.run name value target
      { o with pretty := pretty } = s.transforms.run name value target o)
    (source : String) {options : Options} (hi : Text.allBlank options.indent.toList = true) :
    Parallel (fun t u => ∀ input limit,
        Parallel (fun r r' => r.records = r'.records ∧
            Text.withoutBlanks r.html = Text.withoutBlanks r'.html)
          (t.render input limit) (u.render input limit))
      (s.compileSource source { options with pretty := true }).1
      (s.compileSource source { options with pretty := false }).1 := by
  have hi' : Text.allBlank { options with pretty := true }.indent.toList = true := hi
  refine (compileSource_changed (aside_withLayout false) (kept_withLayout false)
    (fun _ _ ho => ho.sites) (fun name value target o => ht name value target o false) hi'
    source).mono ?_
  intro t u htu input limit
  exact (Compiled.alike_render htu input limit).mono fun r r' h => ⟨h.2, h.1⟩

/-- A list whose items use a module. -/
theorem layout_cosmetic_list :
    let s : Session := ⟨⟨[⟨"/item.made", "/item.made", "p\n  b #\x7bx\x7d"⟩]⟩,
      [("title", fun value _ _ => some (value ++ "!"))]⟩
    let source := "ul\n  each x in [1, 2]\n    li(title=\"a b\")\n      include(x=x) item"
    let options : Options := { filename := some "/page.made", dep := true }
    ∃ t u r r', (s.compileSource source { options with pretty := true }).1 = .ok t ∧
      (s.compileSource source { options with pretty := false }).1 = .ok u ∧
      t.render .null 10 = .ok r ∧ u.render .null 10 = .ok r' ∧ r.records = r'.records ∧
      Text.withoutBlanks r.html = Text.withoutBlanks r'.html ∧ r'.records.length = 2 ∧
      r.html = "\n<ul>\n  <li title=\"a b!\">\n    <p><b>1</b>\n    </p>\n  </li>\n" ++
        "  <li title=\"a b!\">\n    <p><b>2</b>\n    </p>\n  </li>\n</ul>" ∧
      r'.html = "<ul><li title=\"a b!\"><p><b>1</b></p></li>" ++
        "<li title=\"a b!\"><p><b>2</b></p></li></ul>" := by
  intro s source options
  have ht : ∀ name value target o pretty, s.transforms.run name value target
      { o with pretty := pretty } = s.transforms.run name value target o := by
    intro name value target o pretty
    rw [Transforms.run, Transforms.run, List.lookup_cons]
    split
    · rfl
    · rfl
  have hboth : ((s.compileSource source { options with pretty := true }).1.toOption.bind (fun t =>
      (t.render .null 10).toOption.map fun r => r.html),
      (s.compileSource source { options with pretty := false }).1.toOption.bind fun u =>
        (u.render .null 10).toOption.map fun r => (r.records.length, r.html)) =
      (some ("\n<ul>\n  <li title=\"a b!\">\n    <p><b>1</b>\n    </p>\n  </li>\n" ++
          "  <li title=\"a b!\">\n    <p><b>2</b>\n    </p>\n  </li>\n</ul>"),
        some (2, "<ul><li title=\"a b!\"><p><b>1</b></p></li>" ++
          "<li title=\"a b!\"><p><b>2</b></p></li></ul>")) := by decide +kernel
  obtain ⟨hlaid, hplain⟩ := Prod.mk.inj hboth
  obtain ⟨t, htrue, hlaid⟩ := Option.bind_eq_some_iff.1 hlaid
  obtain ⟨r, hr, hhtml⟩ := Option.map_eq_some_iff.1 hlaid
  obtain ⟨u, hfalse, hplain⟩ := Option.bind_eq_some_iff.1 hplain
  obtain ⟨r', hr', hplain⟩ := Option.map_eq_some_iff.1 hplain
  obtain ⟨hlength, hhtml'⟩ := Prod.mk.inj hplain
  have hindent : Text.allBlank options.indent.toList = true := by decide +kernel
  have hrender := (layout_cosmetic ht source hindent).related (ok_of_toOption htrue)
    (ok_of_toOption hfalse) .null 10
  obtain ⟨hrecords, hsame⟩ := hrender.related (ok_of_toOption hr) (ok_of_toOption hr')
  exact ⟨t, u, r, r', ok_of_toOption htrue, ok_of_toOption hfalse, ok_of_toOption hr,
    ok_of_toOption hr', hrecords, hsame, hlength, hhtml, hhtml'⟩

end Session

end Stencil
