import Mathlib.Data.List.Induction
import Stencil.Proofs.Expr.Occurrence
import Stencil.Proofs.Program.Free

/-! # Where a list of instructions reads a name

The expressions and the bodies of an instruction stand in it one after another. A loop binds its
names in its body, and nowhere else. The free names of a list are those read at a place with no such
loop around it, each listed where it is read first. -/

namespace Stencil

/-! ## Names listed where they stand first -/

def firsts (xs : List String) : List String :=
  xs.foldl addName []

theorem mem_firsts {xs : List String} {n : String} : n ∈ firsts xs ↔ n ∈ xs := by
  rw [firsts, mem_foldl_addName]
  exact or_iff_right List.not_mem_nil

theorem firsts_concat (xs : List String) (x : String) :
    firsts (xs ++ [x]) = addName (firsts xs) x := by
  rw [firsts, List.foldl_append]
  rfl

theorem addName_of_mem {names : List String} {n : String} (h : n ∈ names) :
    addName names n = names :=
  if_pos (List.contains_iff_mem.2 h)

theorem addName_of_not_mem {names : List String} {n : String} (h : n ∉ names) :
    addName names n = names ++ [n] :=
  if_neg fun hc => h (List.contains_iff_mem.1 hc)

theorem nodup_firsts (xs : List String) : (firsts xs).Nodup := by
  induction xs using List.reverseRecOn with
  | nil => exact .nil
  | append_singleton xs x ih =>
    rw [firsts_concat]
    by_cases hx : x ∈ firsts xs
    · rwa [addName_of_mem hx]
    · rw [addName_of_not_mem hx]
      exact List.nodup_append.2 ⟨ih, List.pairwise_singleton _ x, fun y hy z hz heq =>
        hx (List.mem_singleton.1 hz ▸ heq ▸ hy)⟩

theorem concat_eq_append_cons {xs front back : List String} {y z : String}
    (h : xs ++ [z] = front ++ y :: back) :
    xs = front ∧ z = y ∨ ∃ back', xs = front ++ y :: back' := by
  rcases List.eq_nil_or_concat back with rfl | ⟨back', w, rfl⟩
  · obtain ⟨hfront, hlast⟩ := List.append_inj' h rfl
    exact .inl ⟨hfront, List.singleton_inj.1 hlast⟩
  · rw [List.concat_eq_append, ← List.cons_append, ← List.append_assoc] at h
    exact .inr ⟨back', (List.append_inj' h rfl).1⟩

/-- Where one name is listed before another one, it stands before all places of that. -/
theorem pairwise_firsts (xs : List String) :
    (firsts xs).Pairwise fun x y => ∀ front back, xs = front ++ y :: back → x ∈ front := by
  induction xs using List.reverseRecOn with
  | nil => exact .nil
  | append_singleton xs z ih =>
    have hold : (firsts xs).Pairwise fun x y =>
        ∀ front back, xs ++ [z] = front ++ y :: back → x ∈ front := by
      refine ih.imp_of_mem fun hx _ h front back heq => ?_
      rcases concat_eq_append_cons heq with ⟨rfl, -⟩ | ⟨back', hback⟩
      · exact mem_firsts.1 hx
      · exact h front back' hback
    rw [firsts_concat]
    by_cases hz : z ∈ firsts xs
    · rwa [addName_of_mem hz]
    · rw [addName_of_not_mem hz, List.pairwise_append]
      refine ⟨hold, List.pairwise_singleton _ _, fun x hx y hy front back heq => ?_⟩
      obtain rfl := List.mem_singleton.1 hy
      rcases concat_eq_append_cons heq with ⟨rfl, -⟩ | ⟨back', hback⟩
      · exact mem_firsts.1 hx
      · refine absurd (mem_firsts.2 ?_) hz
        rw [hback]
        exact List.mem_append_right front (List.mem_cons_self ..)

/-- To leave out repetitions first makes no difference to what is added. -/
theorem foldl_addName_firsts (keep : String → Bool) (names xs : List String) :
    ((firsts xs).filter keep).foldl addName names = (xs.filter keep).foldl addName names := by
  induction xs using List.reverseRecOn with
  | nil => rfl
  | append_singleton xs z ih =>
    rw [firsts_concat, List.filter_append, List.foldl_append, ← ih]
    by_cases hz : z ∈ firsts xs
    · rw [addName_of_mem hz]
      by_cases hkeep : keep z = true
      · rw [List.filter_cons_of_pos hkeep]
        exact (addName_of_mem (mem_foldl_addName.2 (.inr (List.mem_filter.2 ⟨hz, hkeep⟩)))).symm
      · rw [List.filter_cons_of_neg hkeep]
        rfl
    · rw [addName_of_not_mem hz, List.filter_append, List.foldl_append]

/-! ## Places in instructions -/

inductive Child where
  | expr (source : String) (line : Nat)
  | body (is : List Instruction)

def Part.sources : Part → List String
  | .text _ => []
  | .expr source => [source]

def OptionEntry.sources (o : OptionEntry) : List String :=
  match o.value with
  | .boolean => []
  | .text parts => parts.flatMap Part.sources
  | .expr source => [source]

def optionChildren (line : Nat) (os : List OptionEntry) : List Child :=
  (os.flatMap OptionEntry.sources).map fun source => .expr source line

namespace Instruction

/-- Expressions and bodies in the order in which they stand. A module has none of its own here. -/
def children : Instruction → List Child
  | .text _ => []
  | .output source _ line => [.expr source line]
  | .attr _ source _ line => [.expr source line]
  | .ifElse branches otherwise =>
    branches.flatMap (fun b => [.expr b.expr b.line, .body b.body]) ++ otherwise.toList.map .body
  | .whileTrue source body line => [.expr source line, .body body]
  | .caseOf source arms line =>
    .expr source line ::
      arms.flatMap fun a => a.expr.toList.map (.expr · line) ++ [.body a.body]
  | .each _ _ source body line => [.expr source line, .body body]
  | .block _ body => [.body body]
  | .extension _ options overrides _ line =>
    optionChildren line options ++ (overrides.flatMap Override.bodies).map .body
  | .inclusion _ options _ line => optionChildren line options

def binds : Instruction → List String
  | .each value key _ _ _ => key.toList ++ [value]
  | _ => []

def Parses (i : Instruction) : Prop :=
  ∀ source line, .expr source line ∈ i.children → ∃ e, Expr.parse source = .ok e

end Instruction

/-- A name is read at a place in a list of instructions, and no loop around the place binds it. -/
inductive FreeAt (x : String) : List Instruction → List Nat → Prop
  | expr {is : List Instruction} {i : Instruction} {n m line : Nat} {source : String} {e : Expr}
    {p : List Nat} (instruction : is[n]? = some i)
    (child : i.children[m]? = some (.expr source line))
    (parsed : Expr.parse source = .ok e) (reads : e.ReadsAt x p) : FreeAt x is (n :: m :: p)
  | body {is b : List Instruction} {i : Instruction} {n m : Nat} {p : List Nat}
    (instruction : is[n]? = some i) (child : i.children[m]? = some (.body b))
    (unbound : x ∉ i.binds)
    (free : FreeAt x b p) : FreeAt x is (n :: m :: p)

def Child.FreeAt (binds : List String) (x : String) (p : List Nat) : Child → Prop
  | .expr source _ => ∃ e, Expr.parse source = .ok e ∧ e.ReadsAt x p
  | .body is => x ∉ binds ∧ Stencil.FreeAt x is p

theorem freeAt_iff {x : String} {is : List Instruction} {q : List Nat} : FreeAt x is q ↔
    Below (fun i => Below (fun c x p => c.FreeAt i.binds x p) i.children) is x q := by
  constructor
  · rintro (⟨hi, hc, he, hp⟩ | ⟨hi, hc, hx, hp⟩)
    · exact ⟨_, _, _, hi, ⟨_, _, _, hc, ⟨_, he, hp⟩, rfl⟩, rfl⟩
    · exact ⟨_, _, _, hi, ⟨_, _, _, hc, ⟨hx, hp⟩, rfl⟩, rfl⟩
  · rintro ⟨n, i, _, hi, ⟨m, c, p, hc, hp, rfl⟩, rfl⟩
    cases c with
    | expr source line =>
      obtain ⟨e, he, hp⟩ := hp
      exact .expr hi hc he hp
    | body b => exact .body hi hc hp.1 hp.2

/-! ## Sites by children -/

def Child.sites (bound inner : List String) : Child → List Site
  | .expr source line => [⟨source, line, bound⟩]
  | .body is => sitesOf inner is

theorem Part.sites_eq (line : Nat) (bound : List String) (p : Part) :
    p.sites line bound = p.sources.map fun source => ⟨source, line, bound⟩ := by
  cases p <;> rfl

theorem OptionEntry.sites_eq (line : Nat) (bound : List String) (o : OptionEntry) :
    o.sites line bound = o.sources.map fun source => ⟨source, line, bound⟩ := by
  unfold OptionEntry.sites OptionEntry.sources
  cases o.value with
  | boolean => rfl
  | text parts =>
    rw [List.map_flatMap]
    exact List.flatMap_congr fun p _ => p.sites_eq line bound
  | expr source => rfl

theorem optionSites_eq (line : Nat) (bound inner : List String) (os : List OptionEntry) :
    optionSites line bound os = (optionChildren line os).flatMap (Child.sites bound inner) := by
  rw [optionChildren, List.flatMap_map, List.flatMap_assoc]
  refine List.flatMap_congr fun o _ => ?_
  rw [o.sites_eq, List.map_eq_flatMap]
  rfl

theorem sitesOfBranches_eq (bound : List String) (bs : List (Guarded (List Instruction))) :
    sitesOfBranches bound bs = bs.flatMap fun b => ⟨b.expr, b.line, bound⟩ ::
      sitesOf bound b.body := by
  induction bs with
  | nil => rfl
  | cons b bs ih => rw [sitesOfBranches, ih, List.flatMap_cons]

theorem sitesOfOption_eq (bound : List String) (o : Option (List Instruction)) :
    sitesOfOption bound o = o.toList.flatMap (sitesOf bound) := by
  cases o <;> simp [sitesOfOption]

theorem sitesOfArms_eq (bound : List String) (line : Nat) (as : List (CaseArm (List Instruction))) :
    sitesOfArms bound line as =
      as.flatMap fun a => a.expr.toList.map (⟨·, line, bound⟩) ++ sitesOf bound a.body := by
  induction as with
  | nil => rfl
  | cons a as ih =>
    obtain ⟨expr, body⟩ := a
    rw [List.flatMap_cons, ← ih]
    cases expr <;> simp [sitesOfArms]

theorem sitesOfOverrides_eq (bound : List String) (os : List (Override (List Instruction))) :
    sitesOfOverrides bound os = (os.flatMap Override.bodies).flatMap (sitesOf bound) := by
  induction os with
  | nil => rfl
  | cons o os ih =>
    rw [sitesOfOverrides, ih, List.flatMap_cons, List.flatMap_append, Override.bodies]
    simp only [sitesOfOption_eq, List.flatMap_append]

theorem Instruction.sites_eq (bound : List String) (i : Instruction) :
    i.sites bound = i.children.flatMap (Child.sites bound (i.binds ++ bound)) := by
  cases i with
  | text s => rfl
  | output source format line => rfl
  | attr name source escape line => rfl
  | ifElse branches otherwise =>
    simp [sites, children, binds, Child.sites, sitesOfBranches_eq, sitesOfOption_eq,
      List.flatMap_assoc, List.flatMap_map]
  | whileTrue source body line => simp [sites, children, binds, Child.sites]
  | caseOf source arms line =>
    simp [sites, children, binds, Child.sites, sitesOfArms_eq, List.flatMap_assoc,
      List.map_eq_flatMap]
  | each value key source body line => simp [sites, children, binds, Child.sites]
  | block name body => simp [sites, children, binds, Child.sites]
  | extension p options overrides dependency line =>
    simp [sites, children, binds, Child.sites, sitesOfOverrides_eq, List.flatMap_append,
      List.flatMap_map, optionSites_eq line bound bound options]
  | inclusion p options dependency line => exact optionSites_eq line bound _ options

theorem sitesOf_eq (bound : List String) (is : List Instruction) : sitesOf bound is =
    is.flatMap fun i => i.children.flatMap (Child.sites bound (i.binds ++ bound)) := by
  induction is with
  | nil => rfl
  | cons i is ih => rw [sitesOf, ih, Instruction.sites_eq, List.flatMap_cons]

/-! ## The names that sites read -/

def Site.reads (s : Site) : List String :=
  match Expr.parse s.source with
  | .ok e => e.references.filter fun n => !s.bound.contains n
  | .error _ => []

theorem Child.body_mem {b : List Instruction} {i : Instruction} (h : .body b ∈ i.children) :
    b ∈ i.bodies := by
  cases i with
  | ifElse branches otherwise =>
    simpa [Instruction.children, Instruction.bodies, eq_comm] using h
  | caseOf source arms line => simpa [Instruction.children, Instruction.bodies, eq_comm] using h
  | extension p options overrides dependency line =>
    simpa [Instruction.children, Instruction.bodies, optionChildren] using h
  | _ => simp_all [Instruction.children, Instruction.bodies, optionChildren]

theorem Child.enumerates_expr (bound inner binds : List String) (source : String) (line : Nat) :
    Enumerates (fun x p => x ∉ bound ∧ (Child.expr source line).FreeAt binds x p)
      (((Child.expr source line).sites bound inner).flatMap Site.reads) := by
  rw [Child.sites, List.flatMap_singleton, Site.reads]
  cases he : Expr.parse source with
  | error d =>
    refine Enumerates.none.congr fun x p => iff_of_false ?_ not_false
    rintro ⟨-, e, he', -⟩
    cases he.symm.trans he'
  | ok e =>
    refine (e.enumerates_references.filter fun n => !bound.contains n).congr fun x p => ?_
    refine and_congr (by simp) ⟨?_, fun hp => ⟨e, he, hp⟩⟩
    rintro ⟨e', he', hp⟩
    obtain rfl := Except.ok.inj (he.symm.trans he')
    exact hp

/-- The sites of a list read the names at its free places, those apart that are bound around it. -/
theorem enumerates_reads (is : List Instruction) : ∀ bound : List String,
    Enumerates (fun x p => x ∉ bound ∧ FreeAt x is p) ((sitesOf bound is).flatMap Site.reads) := by
  refine bodies_induction (P := fun is => ∀ bound : List String,
    Enumerates (fun x p => x ∉ bound ∧ FreeAt x is p) ((sitesOf bound is).flatMap Site.reads))
    (fun is ih bound => ?_) is
  have hchild : ∀ i ∈ is, ∀ c ∈ i.children,
      Enumerates (fun x p => x ∉ bound ∧ c.FreeAt i.binds x p)
        ((c.sites bound (i.binds ++ bound)).flatMap Site.reads) := by
    intro i hi c hc
    cases c with
    | expr source line => exact Child.enumerates_expr bound _ i.binds source line
    | body b =>
      refine (ih i hi b (Child.body_mem hc) (i.binds ++ bound)).congr fun x p => ?_
      rw [List.mem_append, not_or, and_assoc, and_left_comm]
      rfl
  have hplaces := Enumerates.below fun i hi => Enumerates.below (hchild i hi)
  rw [sitesOf_eq, List.flatMap_assoc]
  simp only [List.flatMap_assoc]
  refine hplaces.congr fun x p => ?_
  simp only [freeAt_iff, below_and]

/-! ## Free names -/

theorem addFree_eq {s : Site} (h : ∃ e, Expr.parse s.source = .ok e) (names : List String) :
    addFree names s = .ok ((s.reads.filter fun n => !isGlobal n).foldl addName names) := by
  obtain ⟨e, he⟩ := h
  rw [addFree, Site.reads, he]
  refine congrArg Except.ok ?_
  rw [List.filter_comm]
  exact foldl_addName_firsts _ names _

theorem foldlM_addFree_eq {ss : List Site} (h : ∀ s ∈ ss, ∃ e, Expr.parse s.source = .ok e)
    (names : List String) : ss.foldlM addFree names =
      .ok (((ss.flatMap Site.reads).filter fun n => !isGlobal n).foldl addName names) := by
  induction ss generalizing names with
  | nil => rfl
  | cons s ss ih =>
    obtain ⟨hs, hss⟩ := List.forall_mem_cons.1 h
    rw [List.foldlM_cons, addFree_eq hs, List.flatMap_cons, List.filter_append, List.foldl_append]
    exact ih hss _

theorem mem_ownOf {j : Instruction} {is : List Instruction} :
    j ∈ ownOf is ↔ ∃ i ∈ is, j = i ∨ ∃ b ∈ i.bodies, j ∈ ownOf b := by
  induction is with
  | nil => simp [ownOf]
  | cons i is ih =>
    rw [ownOf, List.mem_append, ih, List.mem_cons, Instruction.nested_eq, List.mem_flatMap]
    simp

theorem exists_child_of_site (is : List Instruction) : ∀ bound, ∀ s ∈ sitesOf bound is,
    ∃ i ∈ ownOf is, ∃ line, .expr s.source line ∈ i.children := by
  refine bodies_induction (P := fun is => ∀ bound, ∀ s ∈ sitesOf bound is,
    ∃ i ∈ ownOf is, ∃ line, .expr s.source line ∈ i.children) (fun is ih bound s hs => ?_) is
  rw [sitesOf_eq] at hs
  obtain ⟨i, hi, hs⟩ := List.mem_flatMap.1 hs
  obtain ⟨c, hc, hs⟩ := List.mem_flatMap.1 hs
  cases c with
  | expr source line =>
    obtain rfl := List.mem_singleton.1 hs
    exact ⟨i, mem_ownOf.2 ⟨i, hi, .inl rfl⟩, line, hc⟩
  | body b =>
    have hb := Child.body_mem hc
    obtain ⟨j, hj, hline⟩ := ih i hi b hb _ s hs
    exact ⟨j, mem_ownOf.2 ⟨i, hi, .inr ⟨b, hb, hj⟩⟩, hline⟩

/-- A name listed before another one is read at a place in front of all places of that. -/
theorem Enumerates.pairwise_firsts {At : String → List Nat → Prop} {names : List String}
    (h : Enumerates At names) :
    (firsts names).Pairwise fun x y => ∀ q, At y q → ∃ p, At x p ∧ p < q := by
  obtain ⟨os, rfl, hsorted, hmem⟩ := h
  refine (Stencil.pairwise_firsts _).imp fun {x y} hfirst q hq => ?_
  obtain ⟨front, back, rfl⟩ := List.append_of_mem ((hmem y q).1 hq)
  have hx := hfirst (front.map (·.2)) (back.map (·.2)) (by rw [List.map_append]; rfl)
  obtain ⟨⟨p, x⟩, ho, rfl⟩ := List.mem_map.1 hx
  refine ⟨p, (hmem _ p).2 (List.mem_append_left _ ho), ?_⟩
  exact (List.pairwise_append.1 hsorted).2.2 _ ho _ (List.mem_cons_self ..)

/-- **The free names of a list of instructions are found exactly.** If all its expressions can be
read, then so can their free names: each once, all names that are not global and are read at a place
with no loop around it that binds them, and of two names the one that is read first in front. -/
theorem freeNamesOf_exact {body : List Instruction} (h : AllOwn Instruction.Parses body) :
    ∃ names, freeNamesOf body = .ok names ∧ names.Nodup ∧
      (∀ x, x ∈ names ↔ isGlobal x = false ∧ ∃ p, FreeAt x body p) ∧
      names.Pairwise fun x y => ∀ q, FreeAt y body q → ∃ p, FreeAt x body p ∧ p < q := by
  have hparse : ∀ s ∈ sitesOf [] body, ∃ e, Expr.parse s.source = .ok e := by
    intro s hs
    obtain ⟨i, hi, line, hc⟩ := exists_child_of_site body [] s hs
    exact h i hi s.source line hc
  have hplaces : Enumerates (fun x p => isGlobal x = false ∧ FreeAt x body p)
      (((sitesOf [] body).flatMap Site.reads).filter fun n => !isGlobal n) :=
    ((enumerates_reads body []).filter fun n => !isGlobal n).congr fun x p => by simp
  have hmem : ∀ x, x ∈ firsts (((sitesOf [] body).flatMap Site.reads).filter fun n => !isGlobal n) ↔
      isGlobal x = false ∧ ∃ p, FreeAt x body p := by
    intro x
    rw [mem_firsts, hplaces.mem_iff, exists_and_left]
  refine ⟨_, (freeNamesOf_eq body).trans (foldlM_addFree_eq hparse []), nodup_firsts _, hmem, ?_⟩
  refine hplaces.pairwise_firsts.imp_of_mem fun _ hy hfirst q hq => ?_
  obtain ⟨p, hp, hlt⟩ := hfirst q ⟨((hmem _).1 hy).1, hq⟩
  exact ⟨p, hp.2, hlt⟩

/-- The list of a loop has the name that the loop binds, and the key is read again behind it. -/
theorem freeNamesOf_exact_loop :
    let layout : Program := ⟨none, "", "", [.output "nested" .raw 1], ["b"], ["nested"]⟩
    let body : List Instruction := [
      .each "row" (some "i") "row" [.output "row.a + i + sum" .escape 2] 1, .output "i" .escape 3,
      .extension layout [⟨"t", .text [.text "x", .expr "title"]⟩]
        [⟨"b", none, some [.output "String(row)" .escape 5], none⟩] none 4]
    AllOwn Instruction.Parses body ∧
      ∃ names, freeNamesOf body = .ok names ∧ names = ["row", "sum", "i", "title"] ∧ names.Nodup ∧
      (∀ x, x ∈ names ↔ isGlobal x = false ∧ ∃ p, FreeAt x body p) ∧
      names.Pairwise fun x y => ∀ q, FreeAt y body q → ∃ p, FreeAt x body p ∧ p < q := by
  intro layout body
  have hnames : freeNamesOf body = .ok ["row", "sum", "i", "title"] :=
    ok_of_toOption (by decide +kernel)
  have hread : ∀ s ∈ ["row", "row.a + i + sum", "i", "title", "String(row)"],
      (Expr.parse s).isOk = true := by
    decide +kernel
  have hparse : AllOwn Instruction.Parses body := by
    intro i hi source line hc
    refine exists_ok (hread source ?_)
    simp only [body, ownOf, Instruction.nested, ownOfOverrides, ownOfOption, List.append_nil,
      List.nil_append, List.cons_append, List.mem_cons, List.not_mem_nil, or_false] at hi
    rcases hi with rfl | rfl | rfl | rfl | rfl <;>
      simp_all [Instruction.children, optionChildren, OptionEntry.sources, Part.sources,
        Override.bodies]
  obtain ⟨names, hok, hrest⟩ := freeNamesOf_exact hparse
  exact ⟨hparse, names, hok, Except.ok.inj (hok.symm.trans hnames), hrest⟩

end Stencil
