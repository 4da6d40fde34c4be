import Stencil.Proofs.Client.Brackets
import Stencil.Proofs.Compile.Fault
import Stencil.Proofs.Expr.Name
import Stencil.Proofs.Program.Free
import Stencil.Proofs.Template.Chars

/-! # The parameters of client functions

The free names of a program and the variables of its loops become parameters. They are names, as the
expressions that use them have it, but for two things that no check is made of: a field without a
value may have any key, and a variable may be called like a keyword. -/

namespace Stencil

open Template

/-! ## Variables -/

theorem isIdChar_of_isWordChar {c : Char} (h : (isWordChar c || c == '$') = true) :
    Text.isIdChar c = true := by
  have hall : ∀ n ∈ List.range' 0x30 10 ++ List.range' 0x41 26 ++ List.range' 0x61 26 ++ [0x5F],
      Expr.isIdCode n = true := by decide +kernel
  rw [Bool.or_eq_true, beq_iff_eq] at h
  rcases h with h | rfl
  · rw [Expr.isIdChar_eq]
    refine hall _ ?_
    have := toNat_of_isWordChar h
    simp only [List.mem_append, List.mem_range'_1, List.mem_singleton]
    omega
  · decide +kernel

theorem isIdStart_of_isAlpha {c : Char} (h : (c.isAlpha || c == '_' || c == '$') = true) :
    Text.isIdStart c = true := by
  have hall : ∀ n ∈ List.range' 0x41 26 ++ List.range' 0x61 26,
      Text.idStartRanges.hasCode n = true := by decide +kernel
  simp only [Bool.or_eq_true, beq_iff_eq] at h
  rcases h with (h | rfl) | rfl
  · replace h : (c.isUpper || c.isLower) = true := h
    have hcode : c.toNat ∈ List.range' 0x41 26 ++ List.range' 0x61 26 := by
      rw [Bool.or_eq_true] at h
      simp only [List.mem_append, List.mem_range'_1]
      rcases h with h | h
      · have := toNat_between (of_decide_eq_true h)
        exact .inl (by simp at this; omega)
      · have := toNat_between (le_and_le_of_decide h)
        exact .inr (by simp at this; omega)
    simp [Text.isIdStart, Text.Ranges.has, hall _ hcode]
  · decide +kernel
  · decide +kernel

theorem isWord_of_isVariable {n : String} (h : IsVariable n) : Expr.IsWord n := by
  obtain ⟨c, cs, hn, hc, hcs⟩ := h
  exact ⟨c, cs, hn, isIdStart_of_isAlpha hc, fun x hx => isIdChar_of_isWordChar (hcs x hx)⟩

/-! ## Loops -/

def Instruction.LoopNamed (i : Instruction) : Prop :=
  ∀ n ∈ i.loopNames, IsVariable n

def LoopsNamed (is : List Instruction) : Prop :=
  AllOwn Instruction.LoopNamed is

theorem loopNamed_of_isLeaf (i : Instruction) (h : i.isLeaf = true) : i.LoopNamed := by
  cases i with
  | each value key e body line => cases h
  | _ => nofun

theorem loopsNamed_leaves {is : List Instruction} (h : ∀ i ∈ is, i.isLeaf = true) :
    LoopsNamed is :=
  allOwn_leaves loopNamed_of_isLeaf h

theorem LoopsNamed.append {is js : List Instruction} (hi : LoopsNamed is) (hj : LoopsNamed js) :
    LoopsNamed (is ++ js) :=
  AllOwn.append hi hj

theorem LoopsNamed.coalesce {is : List Instruction} (h : LoopsNamed is) :
    LoopsNamed (coalesce is) :=
  AllOwn.coalesce loopNamed_of_isLeaf h

theorem loopsNamed_joined {body : List Instruction} (hb : LoopsNamed body)
    (old : Option (List Instruction)) (ho : ∀ b ∈ old.toList, LoopsNamed b) :
    LoopsNamed (coalesce (old.getD [] ++ body)) := by
  refine LoopsNamed.coalesce (LoopsNamed.append ?_ hb)
  cases old with
  | none => nofun
  | some is => exact ho is (List.mem_singleton_self _)

namespace Compiler
variable {c : Compiler}

mutual
theorem loopsNamed_node {indent : String} : {n : Node} → {is : List Instruction} → n.Checked →
    c.node indent n = .ok is → LoopsNamed is
  | .doctype _ _, is, _, h => by
    rw [node] at h
    obtain rfl := Except.ok.inj h
    exact loopsNamed_leaves (by simp [Instruction.isLeaf])
  | .tag mark head body, is, ⟨_, hbody⟩, h => by
    rw [node] at h
    obtain ⟨start, hs, h⟩ := bind_eq_ok.1 h
    split at h
    · obtain rfl := Except.ok.inj h
      exact loopsNamed_leaves (leaves_openTag hs)
    · obtain ⟨text, ht, h⟩ := bind_eq_ok.1 h
      obtain ⟨content, hb, h⟩ := bind_eq_ok.1 h
      obtain rfl := Except.ok.inj h
      have hstart := loopsNamed_leaves (leaves_append (leaves_openTag hs) (leaves_tagText ht))
      exact (hstart.append (loopsNamed_nodes hbody hb)).append
        (loopsNamed_leaves (leaves_closeTag indent head _))
  | .text mark text, is, _, h => by
    rw [node] at h
    exact loopsNamed_leaves (leaves_interpolate h)
  | .comment _ _ true, is, _, h => by
    rw [node] at h
    obtain rfl := Except.ok.inj h
    exact loopsNamed_leaves (leaves_append (leaves_layout indent) (by simp [Instruction.isLeaf]))
  | .comment _ _ false, is, _, h => by
    rw [node] at h
    obtain rfl := Except.ok.inj h
    nofun
  | .block _ name body, is, hbody, h => by
    rw [node] at h
    obtain ⟨content, hb, h⟩ := bind_eq_ok.1 h
    obtain rfl := Except.ok.inj h
    exact allOwn_singleton nofun
      (List.forall_mem_singleton.2 (loopsNamed_nodes hbody hb).coalesce)
  | .extension mark reference options replaces, is, ⟨_, hreplaces⟩, h => by
    rw [node] at h
    obtain ⟨e, -, h⟩ := bind_eq_ok.1 h
    obtain ⟨overrides, hr, h⟩ := bind_eq_ok.1 h
    obtain ⟨os, -, h⟩ := bind_eq_ok.1 h
    obtain rfl := Except.ok.inj h
    refine allOwn_singleton nofun fun body hbody => ?_
    obtain ⟨o, ho, hbody⟩ := List.mem_flatMap.1 hbody
    exact loopsNamed_replacements hreplaces hr nofun o ho body hbody
  | .inclusion mark reference options, is, _, h => by
    rw [node] at h
    obtain ⟨e, -, h⟩ := bind_eq_ok.1 h
    obtain ⟨os, -, h⟩ := bind_eq_ok.1 h
    obtain rfl := Except.ok.inj h
    exact allOwn_singleton nofun nofun
  | .caseOf mark expr arms, is, ⟨_, harms⟩, h => by
    rw [node] at h
    obtain ⟨as, ha, h⟩ := bind_eq_ok.1 h
    obtain rfl := Except.ok.inj h
    exact allOwn_singleton nofun (loopsNamed_arms harms ha)
  | .ifElse _ branches otherwise, is, ⟨hbranches, hotherwise⟩, h => by
    rw [node] at h
    obtain ⟨bs, hb, h⟩ := bind_eq_ok.1 h
    obtain ⟨o, ho, h⟩ := bind_eq_ok.1 h
    obtain rfl := Except.ok.inj h
    refine allOwn_singleton nofun fun body hbody => ?_
    rcases List.mem_append.1 hbody with hbody | hbody
    · exact loopsNamed_guarded hbranches hb body hbody
    · exact loopsNamed_alternative hotherwise ho body hbody
  | .whileTrue mark expr body, is, ⟨_, hbody⟩, h => by
    rw [node] at h
    obtain ⟨content, hb, h⟩ := bind_eq_ok.1 h
    obtain rfl := Except.ok.inj h
    exact allOwn_singleton nofun
      (List.forall_mem_singleton.2 (loopsNamed_nodes hbody hb).coalesce)
  | .each mark value key expr body, is, ⟨hnames, _, hbody⟩, h => by
    rw [node] at h
    obtain ⟨content, hb, h⟩ := bind_eq_ok.1 h
    obtain rfl := Except.ok.inj h
    exact allOwn_singleton hnames
      (List.forall_mem_singleton.2 (loopsNamed_nodes hbody hb).coalesce)
theorem loopsNamed_nodes {indent : String} : {ns : List Node} → {is : List Instruction} →
    CheckedAll ns → c.nodes indent ns = .ok is → LoopsNamed is
  | [], is, _, h => by
    rw [nodes] at h
    obtain rfl := Except.ok.inj h
    nofun
  | n :: ns, is, ⟨hn, hns⟩, h => by
    rw [nodes] at h
    obtain ⟨first, hf, h⟩ := bind_eq_ok.1 h
    obtain ⟨rest, hr, h⟩ := bind_eq_ok.1 h
    obtain rfl := Except.ok.inj h
    exact (loopsNamed_node hn hf).append (loopsNamed_nodes hns hr)
theorem loopsNamed_arms {indent : String} : {as : List (Arm (List Node))} →
    {cs : List (CaseArm (List Instruction))} → CheckedArms as → c.caseArms indent as = .ok cs →
    ∀ body ∈ cs.map (·.body), LoopsNamed body
  | [], cs, _, h => by
    rw [caseArms] at h
    obtain rfl := Except.ok.inj h
    nofun
  | ⟨_, _, body⟩ :: as, cs, ⟨_, hbody, has⟩, h => by
    rw [caseArms] at h
    obtain ⟨content, hb, h⟩ := bind_eq_ok.1 h
    obtain ⟨rest, hr, h⟩ := bind_eq_ok.1 h
    obtain rfl := Except.ok.inj h
    rw [List.map_cons, List.forall_mem_cons]
    exact ⟨(loopsNamed_nodes hbody hb).coalesce, loopsNamed_arms has hr⟩
theorem loopsNamed_guarded {indent : String} : {bs : List (Branch (List Node))} →
    {gs : List (Guarded (List Instruction))} → CheckedBranches bs → c.guarded indent bs = .ok gs →
    ∀ body ∈ gs.map (·.body), LoopsNamed body
  | [], gs, _, h => by
    rw [guarded] at h
    obtain rfl := Except.ok.inj h
    nofun
  | ⟨_, _, body⟩ :: bs, gs, ⟨_, hbody, hbs⟩, h => by
    rw [guarded] at h
    obtain ⟨content, hb, h⟩ := bind_eq_ok.1 h
    obtain ⟨rest, hr, h⟩ := bind_eq_ok.1 h
    obtain rfl := Except.ok.inj h
    rw [List.map_cons, List.forall_mem_cons]
    exact ⟨(loopsNamed_nodes hbody hb).coalesce, loopsNamed_guarded hbs hr⟩
theorem loopsNamed_alternative {indent : String} : {o : Option (List Node)} →
    {is : Option (List Instruction)} → CheckedOtherwise o → c.alternative indent o = .ok is →
    ∀ body ∈ is.toList, LoopsNamed body
  | none, is, _, h => by
    rw [alternative] at h
    obtain rfl := Except.ok.inj h
    nofun
  | some body, is, hbody, h => by
    rw [alternative] at h
    obtain ⟨content, hb, h⟩ := bind_eq_ok.1 h
    obtain rfl := Except.ok.inj h
    exact List.forall_mem_singleton.2 (loopsNamed_nodes hbody hb).coalesce
theorem loopsNamed_replacements {indent : String} {e : Embedded} :
    {rs : List (Replace (List Node))} → {done os : List (Override (List Instruction))} →
    CheckedReplaces rs → c.replacements indent e done rs = .ok os →
    (∀ o ∈ done, ∀ b ∈ o.bodies, LoopsNamed b) → ∀ o ∈ os, ∀ b ∈ o.bodies, LoopsNamed b
  | [], done, os, _, h, hd => by
    rw [replacements] at h
    obtain rfl := Except.ok.inj h
    exact hd
  | ⟨position, block, _, body⟩ :: rs, done, os, ⟨hbody, hrs⟩, h, hd => by
    rw [replacements] at h
    split at h
    · obtain ⟨content, hb, h⟩ := bind_eq_ok.1 h
      have hjoined := loopsNamed_joined (loopsNamed_nodes hbody hb).coalesce
      exact loopsNamed_replacements hrs h (forall_addOverride hd
        (forall_bodies_add nofun hjoined position) fun o ho =>
          forall_bodies_add ho hjoined position)
    · cases h
end

end Compiler

theorem loopsNamed_compile {files : Files} {transforms : Transforms} {options : Options}
    {chain : List String} {d : Document} {p : Program} (hd : d.Checked)
    (h : compile files transforms options chain d = .ok p) :
    ∀ q ∈ programsFrom p, LoopsNamed q.instructions := by
  obtain ⟨embed, hp, hm⟩ := compile_eq_ok h
  obtain ⟨body, hb, -, hi, -⟩ := Compiler.program_eq_ok hp
  intro q hq
  rw [programsFrom, List.mem_cons] at hq
  rcases hq with rfl | hq
  · change LoopsNamed p.instructions
    rw [hi]
    exact (Compiler.loopsNamed_nodes hd.nodes hb).coalesce
  · rw [hi, programsOf_coalesce] at hq
    obtain ⟨reference, line, indent, e, he, hq⟩ := Compiler.embeds_nodes hb q hq
    obtain ⟨m, hfind, -, hcompile⟩ := hm he
    obtain ⟨-, -, file, -, hparse⟩ := findModule_eq_ok hfind
    exact loopsNamed_compile (checked_of_parse hparse) hcompile q hq
termination_by files.outside chain
decreasing_by exact m.outside

/-! ## Parameters -/

/-- In the expression there is a field that has a key and no value, and that key is no name. -/
def Site.HasKey (s : Site) (key : String) : Prop :=
  ∃ e, Expr.parse s.source = .ok e ∧ key ∈ e.shorthands ∧
    ∃ t ∈ (Expr.tokenize s.source).list, t.kind.key? = some key ∧ ∀ n, t.kind ≠ .name n

def Lists (text : String) (names : List String) : Prop :=
  (Expr.tokenize text).list.map (·.kind) = (names.map Expr.Kind.name).intersperse (.sign .comma) ∧
    ∃ stop, (Expr.tokenize text).finish = .eof stop

theorem Client.parameters_eq (value : String) (key : Option String) :
    parameters value key = String.intercalate "," (value :: key.toList) := by
  cases key <;> simp [parameters]

theorem isName_of_freeNames {p : Program} (h : p.Bound) {n : String} (hn : n ∈ p.freeNames) :
    Expr.IsName n ∨ ∃ s ∈ sitesOf [] p.instructions, n ∉ s.bound ∧ s.HasKey n := by
  rw [ProgramOf.Bound, freeNamesOf_eq] at h
  rcases mem_foldlM_addFree h hn with hn | ⟨s, hs, hb, e, he, hread⟩
  · cases hn
  · exact (Expr.isName_or_shorthand he hread).imp_right fun hk => ⟨s, hs, hb, e, he, hk⟩

namespace Session

/-- **Parameters of client functions.** Of every program in a compiled one, a free name is a name
unless it is the key of a field without a value, and a loop variable is a name unless it is a
keyword; and names are the parameters of the function that is written with them. -/
theorem reads_parameters {s : Session} {source : String} {options : Options} {t : Compiled}
    (h : (s.compileSource source options).1 = .ok t) :
    ∀ q ∈ programsFrom t.program,
      (∀ n ∈ q.freeNames, Expr.IsName n ∨
        ∃ x ∈ sitesOf [] q.instructions, n ∉ x.bound ∧ x.HasKey n) ∧
      (∀ i ∈ ownOf q.instructions, ∀ n ∈ i.loopNames, Expr.IsName n ∨
        ∃ k : Expr.Keyword, n = k.name) ∧
      ((∀ n ∈ q.freeNames, Expr.IsName n) →
        Lists (String.intercalate "," q.freeNames) q.freeNames) ∧
      ∀ value key expr body line, .each value key expr body line ∈ ownOf q.instructions →
        (∀ n ∈ value :: key.toList, Expr.IsName n) →
        Lists (Client.parameters value key) (value :: key.toList) := by
  obtain ⟨d, hparse, hd⟩ := compileLoaded_eq_ok h
  have hcompile := compileDocument_eq_ok hd
  intro q hq
  refine ⟨fun n hn => isName_of_freeNames (bound_compile hcompile q hq) hn, fun i hi n hn => ?_,
    fun hnames => Expr.tokensFrom_names hnames 0, fun value key _ _ _ _ hnames => ?_⟩
  · have hvariable := loopsNamed_compile (checked_of_parse hparse) hcompile q hq i hi n hn
    exact (isWord_of_isVariable hvariable).name_or_keyword
  · rw [Client.parameters_eq]
    exact Expr.tokensFrom_names hnames 0

/-- A loop over a variable that is a keyword, with a text, a name and a loop variable as fields
without values. -/
theorem reads_parameters_fields :
    let source := "each true, i in xs\n  p(data=\x7b'a b', k, i\x7d)"
    ∃ t, (Session.compileSource ⟨⟨[]⟩, []⟩ source {}).1 = .ok t ∧
      t.program.freeNames = ["xs", "a b", "k"] ∧
      (ownOf t.program.instructions).flatMap Instruction.loopNames = ["true", "i"] ∧
      ∀ q ∈ programsFrom t.program,
        (∀ n ∈ q.freeNames, Expr.IsName n ∨
          ∃ x ∈ sitesOf [] q.instructions, n ∉ x.bound ∧ x.HasKey n) ∧
        (∀ i ∈ ownOf q.instructions, ∀ n ∈ i.loopNames, Expr.IsName n ∨
          ∃ k : Expr.Keyword, n = k.name) ∧
        ((∀ n ∈ q.freeNames, Expr.IsName n) →
          Lists (String.intercalate "," q.freeNames) q.freeNames) ∧
        ∀ value key expr body line, .each value key expr body line ∈ ownOf q.instructions →
          (∀ n ∈ value :: key.toList, Expr.IsName n) →
          Lists (Client.parameters value key) (value :: key.toList) := by
  intro source
  have hnames : (Session.compileSource ⟨⟨[]⟩, []⟩ source {}).1.toOption.map (fun t =>
      (t.program.freeNames, (ownOf t.program.instructions).flatMap Instruction.loopNames)) =
      some (["xs", "a b", "k"], ["true", "i"]) := by decide +kernel
  obtain ⟨t, ht, hnames⟩ := Option.map_eq_some_iff.1 hnames
  obtain ⟨hfree, hloops⟩ := Prod.mk.inj hnames
  exact ⟨t, ok_of_toOption ht, hfree, hloops, reads_parameters (ok_of_toOption ht)⟩

/-- The key of a field without a value is a parameter, whatever is in it. -/
theorem text_key_parameter :
    ∃ t, (Session.compileSource ⟨⟨[]⟩, []⟩ "p(data=\x7b'a b'\x7d)" {}).1 = .ok t ∧
      "a b" ∈ t.program.freeNames ∧ ¬ Expr.IsName "a b" := by
  have hnames : (Session.compileSource ⟨⟨[]⟩, []⟩ "p(data=\x7b'a b'\x7d)" {}).1.toOption.map
      (fun t => t.program.freeNames) = some ["a b"] := by decide +kernel
  obtain ⟨t, ht, hnames⟩ := Option.map_eq_some_iff.1 hnames
  refine ⟨t, ok_of_toOption ht, ?_, fun h => ?_⟩
  · rw [hnames]
    exact List.mem_singleton_self _
  · obtain ⟨⟨c, cs, hcs, -, hall⟩, -⟩ := Expr.isName_iff.1 h
    have hlist : "a b".toList = ['a', ' ', 'b'] := rfl
    obtain ⟨-, rfl⟩ := List.cons.inj (hlist.symm.trans hcs)
    have hblank : Text.isIdChar ' ' = false := by decide +kernel
    rw [hall ' ' (List.mem_cons_self ..)] at hblank
    cases hblank

end Session

end Stencil
