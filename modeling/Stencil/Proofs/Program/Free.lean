import Stencil.Proofs.Compile.Emitted
import Stencil.Proofs.Program.Sites

/-! # The free names of compiled programs

The free names found for a list of instructions are all names that its expressions read and no loop
around them binds, the global ones apart; and every program inside a compiled one carries the names
found for its own instructions. -/

namespace Stencil

open Template

theorem mem_addName {names : List String} {m n : String} :
    n ∈ addName names m ↔ n ∈ names ∨ n = m := by
  unfold addName
  by_cases h : names.contains m = true
  · rw [if_pos h]
    refine ⟨.inl, ?_⟩
    rintro (hn | rfl)
    · exact hn
    · exact List.contains_iff_mem.1 h
  · rw [if_neg h, List.mem_append, List.mem_singleton]

theorem mem_foldl_addName {xs names : List String} {n : String} :
    n ∈ xs.foldl addName names ↔ n ∈ names ∨ n ∈ xs := by
  induction xs generalizing names with
  | nil => simp
  | cons x xs ih => rw [List.foldl_cons, ih, mem_addName, List.mem_cons, or_assoc]

theorem Expr.mem_freeNames {e : Expr} {n : String} :
    n ∈ e.freeNames ↔ n ∈ e.references ∧ isGlobal n = false := by
  rw [Expr.freeNames, mem_foldl_addName, List.mem_filter]
  simp

def Site.Closed (known : String → Prop) (s : Site) : Prop :=
  ∀ e, Expr.parse s.source = .ok e → ∀ n ∈ e.references, n ∈ s.bound ∨ known n

theorem Site.Closed.mono {known other : String → Prop} {s : Site} (h : s.Closed known)
    (hk : ∀ n, known n → other n) : s.Closed other :=
  fun e he n hn => (h e he n hn).imp_right (hk n)

def Known (freeNames : List String) (n : String) : Prop :=
  n ∈ freeNames ∨ isGlobal n = true

theorem addFree_closed {names names' : List String} {s : Site} (h : addFree names s = .ok names') :
    s.Closed (Known names') ∧ (∀ n ∈ names, n ∈ names') ∧
      ((∀ n ∈ names, isGlobal n = false) → ∀ n ∈ names', isGlobal n = false) := by
  unfold addFree at h
  split at h
  · cases h
  · next e he =>
    obtain rfl := Except.ok.inj h
    refine ⟨fun e' he' n hn => ?_, fun n hn => mem_foldl_addName.2 (.inl hn), fun hg n hn => ?_⟩
    · obtain rfl := Except.ok.inj (he'.symm.trans he)
      by_cases hb : n ∈ s.bound
      · exact .inl hb
      · by_cases hg : isGlobal n = true
        · exact .inr (.inr hg)
        · refine .inr (.inl (mem_foldl_addName.2 (.inr (List.mem_filter.2 ⟨?_, ?_⟩))))
          · exact Expr.mem_freeNames.2 ⟨hn, by simpa using hg⟩
          · simpa using hb
    · rcases mem_foldl_addName.1 hn with hn | hn
      · exact hg n hn
      · exact (Expr.mem_freeNames.1 (List.mem_filter.1 hn).1).2

/-- Names are only added from site to site, so those of every site are there in the end. -/
theorem foldlM_addFree {ss : List Site} {names names' : List String}
    (h : ss.foldlM addFree names = .ok names') :
    (∀ s ∈ ss, s.Closed (Known names')) ∧ (∀ n ∈ names, n ∈ names') ∧
      ((∀ n ∈ names, isGlobal n = false) → ∀ n ∈ names', isGlobal n = false) := by
  induction ss generalizing names with
  | nil =>
    obtain rfl := Except.ok.inj h
    exact ⟨fun _ hs => (nomatch hs), fun n hn => hn, fun hg => hg⟩
  | cons s ss ih =>
    rw [List.foldlM_cons] at h
    obtain ⟨next, hs, h⟩ := bind_eq_ok.1 h
    obtain ⟨hc, hsub, hg⟩ := addFree_closed hs
    obtain ⟨hc', hsub', hg'⟩ := ih h
    refine ⟨fun r hr => ?_, fun n hn => hsub' n (hsub n hn), fun h => hg' (hg h)⟩
    rcases List.mem_cons.1 hr with rfl | hr
    · exact hc.mono fun n hn => hn.imp_left (hsub' n)
    · exact hc' r hr

theorem freeNamesOf_closed {body : List Instruction} {names : List String}
    (h : freeNamesOf body = .ok names) :
    (∀ s ∈ sitesOf [] body, s.Closed (Known names)) ∧ ∀ n ∈ names, isGlobal n = false := by
  rw [freeNamesOf_eq] at h
  obtain ⟨hc, -, hg⟩ := foldlM_addFree h
  exact ⟨hc, hg fun _ hn => nomatch hn⟩

/-- A free name is read somewhere where no loop binds it. -/
theorem mem_foldlM_addFree {ss : List Site} {names names' : List String}
    (h : ss.foldlM addFree names = .ok names') {n : String} (hn : n ∈ names') :
    n ∈ names ∨ ∃ s ∈ ss, n ∉ s.bound ∧ ∃ e, Expr.parse s.source = .ok e ∧ n ∈ e.references := by
  induction ss generalizing names with
  | nil =>
    obtain rfl := Except.ok.inj h
    exact .inl hn
  | cons s ss ih =>
    rw [List.foldlM_cons] at h
    obtain ⟨next, hs, h⟩ := bind_eq_ok.1 h
    rcases ih h with hnext | ⟨r, hr, hread⟩
    · unfold addFree at hs
      split at hs
      · cases hs
      · next e he =>
        obtain rfl := Except.ok.inj hs
        refine (mem_foldl_addName.1 hnext).imp_right fun hf => ?_
        obtain ⟨hf, hb⟩ := List.mem_filter.1 hf
        exact ⟨s, List.mem_cons_self .., by simpa using hb, e, he, (Expr.mem_freeNames.1 hf).1⟩
    · exact .inr ⟨r, List.mem_cons_of_mem _ hr, hread⟩

/-! ## Programs inside programs -/

def ProgramOf.Bound (p : Program) : Prop :=
  freeNamesOf p.instructions = .ok p.freeNames

theorem programsOf_coalesce (is : List Instruction) : programsOf (coalesce is) = programsOf is := by
  rw [programsOf_eq, programsOf_eq]
  exact flatMap_ownOf_coalesce (fun s => rfl) is

namespace Compiler

variable {c : Compiler}

def Embeds (c : Compiler) (q : Program) : Prop :=
  ∃ reference line indent e, c.embed reference line indent = .ok e ∧ q ∈ programsFrom e.program

theorem embeds_nodes {indent : String} {ns : List Node} {is : List Instruction}
    (h : c.nodes indent ns = .ok is) : ∀ q ∈ programsOf is, c.Embeds q := by
  intro q hq
  obtain ⟨i, hi, p, hp, hq⟩ := mem_programsOf.1 hq
  obtain ⟨reference, -, line, indent, e, he, rfl⟩ :=
    (emitsAll_nodes (List.Subset.refl _) h i hi).embedded p hp
  exact ⟨reference, line, indent, e, he, hq⟩

end Compiler

/-- Every program inside a compiled one has the free names of its own instructions. -/
theorem bound_compile {files : Files} {transforms : Transforms} {options : Options}
    {chain : List String} {d : Document} {p : Program}
    (h : compile files transforms options chain d = .ok p) : ∀ q ∈ programsFrom p, q.Bound := by
  obtain ⟨embed, hp, hm⟩ := compile_eq_ok h
  obtain ⟨body, hb, -, hi, hfree⟩ := Compiler.program_eq_ok hp
  intro q hq
  rw [programsFrom, List.mem_cons] at hq
  rcases hq with rfl | hq
  · exact hfree
  · rw [hi, programsOf_coalesce] at hq
    obtain ⟨reference, line, indent, e, he, hq⟩ := Compiler.embeds_nodes hb q hq
    obtain ⟨m, -, -, hcompile⟩ := hm he
    exact bound_compile hcompile q hq
termination_by files.outside chain
decreasing_by exact m.outside

end Stencil
