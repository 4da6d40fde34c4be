import Mathlib.Data.List.Chain
import Stencil.Proofs.Program.Free

/-! # Texts in compiled programs

Where a list of instructions is complete its texts are joined, and nothing is put into it afterwards
except where it is joined again. So in a compiled program a text is never empty, and no two texts
stand next to each other. -/

namespace Stencil

open Template

/-- Every text stands for all that is written in one go. -/
structure Coalesced (is : List Instruction) : Prop where
  apart : is.IsChain fun i j => ¬ (i.isText = true ∧ j.isText = true)
  nonempty : Instruction.text "" ∉ is

theorem Coalesced.tail {i : Instruction} {is : List Instruction} (h : Coalesced (i :: is)) :
    Coalesced is :=
  ⟨h.apart.tail, fun hm => h.nonempty (List.mem_cons_of_mem _ hm)⟩

theorem Coalesced.cons {i : Instruction} {is : List Instruction} (h : Coalesced is)
    (hi : i ≠ .text "") (hfirst : i.isText = true → ∀ j ∈ is.head?, j.isText = false) :
    Coalesced (i :: is) := by
  refine ⟨?_, ?_⟩
  · rw [List.isChain_cons]
    refine ⟨fun j hj => ?_, h.apart⟩
    rintro ⟨hti, htj⟩
    rw [hfirst hti j hj] at htj
    cases htj
  · rw [List.mem_cons]
    rintro (hm | hm)
    · exact hi hm.symm
    · exact h.nonempty hm

theorem coalesced_coalesce (is : List Instruction) : Coalesced (coalesce is) := by
  fun_induction coalesce is with
  | case1 => exact ⟨.nil, List.not_mem_nil⟩
  | case2 s is t rest hc ih =>
    rw [hc] at ih
    -- The joined text is not empty, since the one that it ends with is not.
    have ht : t ≠ "" := fun h => ih.nonempty (h ▸ List.mem_cons_self ..)
    refine ih.tail.cons ?_ ?_
    · intro h
      exact ht (String.append_eq_empty_iff.1 (Instruction.text.inj h)).2
    · intro _ j hj
      have hpair := (List.isChain_cons.1 ih.apart).1 j hj
      simpa [Instruction.isText] using hpair
  | case3 s is hs hne ih => exact ih
  | case4 s is hs hne ih =>
    refine ih.cons ?_ ?_
    · intro h
      exact hs (by simpa using Instruction.text.inj h)
    · intro _ j hj
      cases hc : coalesce is with
      | nil =>
        rw [hc] at hj
        cases hj
      | cons i rest =>
        rw [hc, List.head?_cons] at hj
        obtain rfl := Option.some.inj hj
        cases i with
        | text t => exact (hne t rest hc).elim
        | _ => rfl
  | case5 i is hne ih =>
    refine ih.cons (fun h => hne "" h) fun ht => ?_
    cases i with
    | text s => exact (hne s rfl).elim
    | _ => cases ht

/-! ## Joining again -/

theorem coalesce_cons_congr {is js : List Instruction} (h : coalesce is = coalesce js)
    (i : Instruction) : coalesce (i :: is) = coalesce (i :: js) := by
  cases i with
  | text s => rw [coalesce, coalesce, h]
  | _ => simp only [coalesce, h]

theorem coalesce_text_text (s t : String) (is : List Instruction) :
    coalesce (.text s :: .text t :: is) = coalesce (.text (s ++ t) :: is) := by
  simp only [coalesce]
  rcases hc : coalesce is with _ | ⟨i, rest⟩
  · by_cases ht : t = ""
    · simp [ht]
    · simp [ht]
  · cases i with
    | text u => simp [String.append_assoc]
    | _ =>
      by_cases ht : t = ""
      · simp [ht]
      · simp [ht]

/-- Texts may be joined before more instructions come, or when all are there. -/
theorem coalesce_coalesce_append (is js : List Instruction) :
    coalesce (coalesce is ++ js) = coalesce (is ++ js) := by
  fun_induction coalesce is with
  | case1 => rfl
  | case2 s is t rest hc ih =>
    rw [hc] at ih
    have hcons := coalesce_cons_congr ih (.text s)
    rw [List.cons_append, coalesce_text_text] at hcons
    exact hcons
  | case3 s is hs hne ih =>
    obtain rfl : s = "" := by simpa using hs
    rw [ih, List.cons_append, coalesce]
    split
    · next h => rw [h, String.empty_append]
    · rfl
  | case4 s is hs hne ih => exact coalesce_cons_congr ih _
  | case5 i is hne ih => exact coalesce_cons_congr ih _

theorem coalesce_append_coalesce (is js : List Instruction) :
    coalesce (is ++ coalesce js) = coalesce (is ++ js) := by
  induction is with
  | nil => simpa using coalesce_coalesce_append js []
  | cons i is ih => exact coalesce_cons_congr ih i

/-! ## Programs -/

/-- All lists of instructions of a program: its own, and those inside its instructions. -/
def ProgramOf.lists (p : Program) : List (List Instruction) :=
  p.instructions :: (ownOf p.instructions).flatMap Instruction.bodies

theorem coalesced_program {c : Compiler} {d : Document} {p : Program} (h : c.program d = .ok p) :
    ∀ body ∈ p.lists, Coalesced body := by
  obtain ⟨body, hb, -, hi, -⟩ := Compiler.program_eq_ok h
  rw [ProgramOf.lists, hi, List.forall_mem_cons]
  refine ⟨coalesced_coalesce body, ?_⟩
  intro b hmem
  obtain ⟨i, hi, hb'⟩ := List.mem_flatMap.1 hmem
  have hemits := Compiler.emitsAll_nodes (List.Subset.refl _) hb
  obtain ⟨is, rfl⟩ := (hemits.coalesce i hi).complete b hb'
  exact coalesced_coalesce is

/-- Modules are compiled outside the chain that leads to them, so the induction is on the number of
files outside it. -/
theorem coalesced_compile {files : Files} {transforms : Transforms} {options : Options}
    {chain : List String} {d : Document} {p : Program}
    (h : compile files transforms options chain d = .ok p) :
    ∀ q ∈ programsFrom p, ∀ body ∈ q.lists, Coalesced body := by
  obtain ⟨embed, hp, hm⟩ := compile_eq_ok h
  obtain ⟨body, hb, -, hi, -⟩ := Compiler.program_eq_ok hp
  intro q hq
  rw [programsFrom, List.mem_cons] at hq
  rcases hq with rfl | hq
  · exact coalesced_program hp
  · rw [hi, programsOf_coalesce] at hq
    obtain ⟨reference, line, indent, e, he, hq⟩ := Compiler.embeds_nodes hb q hq
    obtain ⟨m, -, -, hcompile⟩ := hm he
    exact coalesced_compile hcompile q hq
termination_by files.outside chain
decreasing_by exact m.outside

namespace Session

inductive Gives (s : Session) (options : Options) (t : Compiled) : Prop where
  | source {text : String} (h : (s.compileSource text options).1 = .ok t)
  | file {path : String} (h : s.compileFile path options = .ok t)
  | document {d : Document} (h : s.compileDocument d options = .ok t)

theorem Gives.compiled {s : Session} {options : Options} {t : Compiled} (h : s.Gives options t) :
    ∃ (files : Files) (o : Options) (chain : List String) (d : Document),
      compile files s.transforms o chain d = .ok t.program := by
  cases h with
  | source h =>
    obtain ⟨d, -, hd⟩ := compileLoaded_eq_ok h
    have hcompile := compileDocument_eq_ok hd
    exact ⟨_, _, _, d, hcompile⟩
  | file h =>
    unfold compileFile at h
    split at h
    · obtain ⟨d, -, hd⟩ := compileLoaded_eq_ok h
      exact ⟨_, _, _, d, compileDocument_eq_ok hd⟩
    · cases h
  | document h => exact ⟨_, _, _, _, compileDocument_eq_ok h⟩

/-- **Literal text is coalesced.** Whatever is compiled, with any options and transforms, no list of
instructions in the program or in a program inside it has an empty text, or two texts next to each
other. -/
theorem coalesced_lists {s : Session} {options : Options} {t : Compiled} (h : s.Gives options t) :
    ∀ q ∈ programsFrom t.program, ∀ body ∈ q.lists, Coalesced body := by
  obtain ⟨files, o, chain, d, hd⟩ := h.compiled
  exact coalesced_compile hd

/-- A page with content for a block of its layout twice, and with texts that leave nothing between
them. -/
theorem coalesced_lists_layout :
    let files : Files := ⟨[⟨"/layout.made", "/layout.made", "body\n  block content\n    p none"⟩]⟩
    let source := "extends layout\n  append content\n    p(title='') a\n  append content\n    b"
    ∃ t, (Session.compileSource ⟨files, []⟩ source { filename := some "/page.made" }).1 = .ok t ∧
      ((programsFrom t.program).flatMap ProgramOf.lists).length = 4 ∧
      ∀ q ∈ programsFrom t.program, ∀ body ∈ q.lists, Coalesced body := by
  intro files source
  have hlength : ((Session.compileSource ⟨files, []⟩ source
      { filename := some "/page.made" }).1.toOption.map fun t =>
        ((programsFrom t.program).flatMap ProgramOf.lists).length) = some 4 := by decide +kernel
  obtain ⟨t, ht, hlength⟩ := Option.map_eq_some_iff.1 hlength
  exact ⟨t, ok_of_toOption ht, hlength, coalesced_lists (.source (ok_of_toOption ht))⟩

end Session

end Stencil
