import Stencil.Proofs.Compile.Chain

/-! # Tables of blocks

A program lists all blocks of its document, and content is accepted for any block that is listed.
The instructions of a block are compiled only where the block can be shown: a self-closing tag has
no content, so the blocks below one are listed but dropped. -/

namespace Stencil

namespace Template

mutual
def Node.keptBelow : Node → List Node
  | .doctype _ _ => []
  | .tag _ head body => if head.selfClosing then [] else keptOf body
  | .text _ _ => []
  | .comment _ _ _ => []
  | .block _ _ body => keptOf body
  | .extension _ _ _ replaces => keptOfReplaces replaces
  | .inclusion _ _ _ => []
  | .caseOf _ _ arms => keptOfArms arms
  | .ifElse _ branches otherwise => keptOfBranches branches ++ keptOfOtherwise otherwise
  | .whileTrue _ _ body => keptOf body
  | .each _ _ _ _ body => keptOf body
def keptOf : List Node → List Node
  | [] => []
  | n :: ns => n :: n.keptBelow ++ keptOf ns
def keptOfReplaces : List (Replace (List Node)) → List Node
  | [] => []
  | ⟨_, _, _, body⟩ :: rs => keptOf body ++ keptOfReplaces rs
def keptOfArms : List (Arm (List Node)) → List Node
  | [] => []
  | ⟨_, _, body⟩ :: as => keptOf body ++ keptOfArms as
def keptOfBranches : List (Branch (List Node)) → List Node
  | [] => []
  | ⟨_, _, body⟩ :: bs => keptOf body ++ keptOfBranches bs
def keptOfOtherwise : Option (List Node) → List Node
  | none => []
  | some body => keptOf body
end

/-- The blocks that are lost with a node: those below a self-closing tag. -/
def Node.lost : Node → List String
  | .tag _ head body => if head.selfClosing then (blocksOf body).map (·.1) else []
  | _ => []

def Document.droppedBlocks (d : Document) : List String :=
  (keptOf d.nodes).flatMap Node.lost

end Template

open Template

def blockNamesOf (is : List Instruction) : List String :=
  (ownOf is).flatMap fun i => i.blockName?.toList

/-! ## Counting blocks -/

section

variable (name : String)

theorem count_blockNamesOf_append (is js : List Instruction) :
    (blockNamesOf (is ++ js)).count name =
      (blockNamesOf is).count name + (blockNamesOf js).count name := by
  rw [blockNamesOf, ownOf_append, List.flatMap_append, List.count_append]
  rfl

theorem blockNamesOf_coalesce (is : List Instruction) :
    blockNamesOf (coalesce is) = blockNamesOf is :=
  flatMap_ownOf_coalesce (fun _ => rfl) is

theorem blockNamesOf_leaves {is : List Instruction} (h : ∀ i ∈ is, i.isLeaf = true) :
    blockNamesOf is = [] := by
  rw [blockNamesOf, ownOf_of_leaves h, List.flatMap_eq_nil_iff]
  intro i hi
  have hleaf := h i hi
  cases i with
  | block n body => cases hleaf
  | _ => rfl

def countIn (bodies : List (List Instruction)) : Nat :=
  (bodies.flatMap blockNamesOf).count name

theorem count_blockNamesOf_singleton (i : Instruction) :
    (blockNamesOf [i]).count name = i.blockName?.toList.count name + countIn name i.bodies := by
  rw [blockNamesOf, ownOf_singleton, List.flatMap_cons, List.flatMap_assoc, List.count_append]
  rfl

theorem countIn_append (bs cs : List (List Instruction)) :
    countIn name (bs ++ cs) = countIn name bs + countIn name cs := by
  rw [countIn, List.flatMap_append, List.count_append]
  rfl

theorem countIn_cons (b : List Instruction) (bs : List (List Instruction)) :
    countIn name (b :: bs) = (blockNamesOf b).count name + countIn name bs := by
  rw [countIn, List.flatMap_cons, List.count_append]
  rfl

theorem countIn_coalesce (is : List Instruction) :
    countIn name [coalesce is] = (blockNamesOf is).count name := by
  rw [countIn, List.flatMap_singleton, blockNamesOf_coalesce]

theorem countIn_joined (old : Option (List Instruction)) (body : List Instruction) :
    countIn name (some (coalesce (old.getD [] ++ body))).toList =
      countIn name old.toList + (blockNamesOf body).count name := by
  rw [Option.toList_some, countIn_coalesce, count_blockNamesOf_append]
  cases old <;> simp [countIn, blockNamesOf, ownOf]

theorem countIn_add (o : Override (List Instruction)) (position : Position)
    (body : List Instruction) :
    countIn name (o.add position body).bodies =
      countIn name o.bodies + (blockNamesOf body).count name := by
  cases position with
  | before =>
    simp only [Override.add, Override.bodies, countIn_append, countIn_joined]
    omega
  | replace =>
    simp only [Override.add, Override.bodies, countIn_append, countIn_joined]
    omega
  | after =>
    simp only [Override.add, Override.bodies, countIn_append, countIn_joined]
    omega

theorem countIn_addOverride (position : Position) (block : String) (body : List Instruction)
    (os : List (Override (List Instruction))) :
    countIn name ((addOverride position block body os).flatMap Override.bodies) =
      countIn name (os.flatMap Override.bodies) + (blockNamesOf body).count name := by
  induction os with
  | nil =>
    rw [addOverride, List.flatMap_singleton, countIn_add]
    rfl
  | cons o os ih =>
    rw [addOverride]
    split
    · simp only [List.flatMap_cons, countIn_append, countIn_add]
      omega
    · simp only [List.flatMap_cons, countIn_append, ih]
      omega

def listed (bs : List (String × Nat)) : Nat :=
  (bs.map (·.1)).count name

theorem listed_cons (n : String) (line : Nat) (bs : List (String × Nat)) :
    listed name ((n, line) :: bs) = [n].count name + listed name bs := by
  rw [listed, List.map_cons, ← List.singleton_append, List.count_append]
  rfl

theorem listed_append (bs cs : List (String × Nat)) :
    listed name (bs ++ cs) = listed name bs + listed name cs := by
  rw [listed, List.map_append, List.count_append]
  rfl

def lost (ns : List Node) : Nat :=
  (ns.flatMap Node.lost).count name

theorem lost_append (ns ms : List Node) : lost name (ns ++ ms) = lost name ns + lost name ms := by
  rw [lost, List.flatMap_append, List.count_append]
  rfl

theorem lost_cons (n : Node) (ns : List Node) :
    lost name (n :: ns) = n.lost.count name + lost name ns := by
  rw [lost, List.flatMap_cons, List.count_append]
  rfl

end

namespace Compiler

variable {c : Compiler} {name : String}

mutual
/-- A block of a node is compiled once, unless it is lost. -/
theorem count_node {indent : String} : {n : Node} → {is : List Instruction} →
    c.node indent n = .ok is →
    (blockNamesOf is).count name + (n.lost.count name + lost name n.keptBelow) =
      listed name n.blocks
  | .doctype _ _, is, h => by
    rw [node] at h
    obtain rfl := Except.ok.inj h
    rfl
  | .tag mark head body, is, h => by
    rw [node] at h
    obtain ⟨start, hs, h⟩ := bind_eq_ok.1 h
    rw [Node.lost, Node.keptBelow, Node.blocks]
    split at h
    · next hc =>
      obtain rfl := Except.ok.inj h
      rw [if_pos hc, if_pos hc, blockNamesOf_leaves (leaves_openTag hs)]
      exact Nat.zero_add _
    · next hc =>
      obtain ⟨text, ht, h⟩ := bind_eq_ok.1 h
      obtain ⟨content, hb, h⟩ := bind_eq_ok.1 h
      obtain rfl := Except.ok.inj h
      have hcontent := count_nodes hb
      simp only [if_neg hc, count_blockNamesOf_append, blockNamesOf_leaves (leaves_openTag hs),
        blockNamesOf_leaves (leaves_tagText ht),
        blockNamesOf_leaves (leaves_closeTag indent head _),
        List.count_nil]
      omega
  | .text mark text, is, h => by
    rw [node] at h
    rw [blockNamesOf_leaves (leaves_interpolate h)]
    rfl
  | .comment _ _ true, is, h => by
    rw [node] at h
    obtain rfl := Except.ok.inj h
    rw [blockNamesOf_leaves (leaves_append (leaves_layout indent) (by simp [Instruction.isLeaf]))]
    rfl
  | .comment _ _ false, is, h => by
    rw [node] at h
    obtain rfl := Except.ok.inj h
    rfl
  | .block mark n body, is, h => by
    rw [node] at h
    obtain ⟨content, hb, h⟩ := bind_eq_ok.1 h
    obtain rfl := Except.ok.inj h
    rw [count_blockNamesOf_singleton, Node.keptBelow, Node.blocks, listed_cons, ← count_nodes hb]
    simp only [Instruction.blockName?, Instruction.bodies, Node.lost, Option.toList_some,
      List.count_nil, countIn_coalesce]
    omega
  | .extension mark reference options replaces, is, h => by
    rw [node] at h
    obtain ⟨e, he, h⟩ := bind_eq_ok.1 h
    obtain ⟨overrides, hr, h⟩ := bind_eq_ok.1 h
    obtain ⟨os, -, h⟩ := bind_eq_ok.1 h
    obtain rfl := Except.ok.inj h
    have hall := count_replacements hr
    simp only [List.flatMap_nil, countIn, List.count_nil, Nat.zero_add] at hall
    rw [count_blockNamesOf_singleton, Node.keptBelow, Node.blocks, ← hall]
    simp [Instruction.bodies, Instruction.blockName?, Node.lost, countIn]
  | .inclusion mark reference options, is, h => by
    rw [node] at h
    obtain ⟨e, he, h⟩ := bind_eq_ok.1 h
    obtain ⟨os, -, h⟩ := bind_eq_ok.1 h
    obtain rfl := Except.ok.inj h
    rfl
  | .caseOf mark expr arms, is, h => by
    rw [node] at h
    obtain ⟨as, ha, h⟩ := bind_eq_ok.1 h
    obtain rfl := Except.ok.inj h
    rw [count_blockNamesOf_singleton, Node.keptBelow, Node.blocks, ← count_arms ha]
    simp [Instruction.bodies, Instruction.blockName?, Node.lost]
  | .ifElse _ branches otherwise, is, h => by
    rw [node] at h
    obtain ⟨bs, hb, h⟩ := bind_eq_ok.1 h
    obtain ⟨o, ho, h⟩ := bind_eq_ok.1 h
    obtain rfl := Except.ok.inj h
    rw [count_blockNamesOf_singleton, Node.keptBelow, Node.blocks, listed_append, lost_append,
      ← count_guarded hb, ← count_alternative ho]
    simp only [Instruction.bodies, Instruction.blockName?, Node.lost, countIn_append,
      Option.toList_none, List.count_nil]
    omega
  | .whileTrue mark expr body, is, h => by
    rw [node] at h
    obtain ⟨content, hb, h⟩ := bind_eq_ok.1 h
    obtain rfl := Except.ok.inj h
    rw [count_blockNamesOf_singleton, Node.keptBelow, Node.blocks, ← count_nodes hb]
    simp [Instruction.bodies, Instruction.blockName?, Node.lost, countIn_coalesce]
  | .each mark value key expr body, is, h => by
    rw [node] at h
    obtain ⟨content, hb, h⟩ := bind_eq_ok.1 h
    obtain rfl := Except.ok.inj h
    rw [count_blockNamesOf_singleton, Node.keptBelow, Node.blocks, ← count_nodes hb]
    simp [Instruction.bodies, Instruction.blockName?, Node.lost, countIn_coalesce]
theorem count_nodes {indent : String} : {ns : List Node} → {is : List Instruction} →
    c.nodes indent ns = .ok is →
    (blockNamesOf is).count name + lost name (keptOf ns) = listed name (blocksOf ns)
  | [], is, h => by
    rw [nodes] at h
    obtain rfl := Except.ok.inj h
    rfl
  | n :: ns, is, h => by
    rw [nodes] at h
    obtain ⟨first, hn, h⟩ := bind_eq_ok.1 h
    obtain ⟨rest, hr, h⟩ := bind_eq_ok.1 h
    obtain rfl := Except.ok.inj h
    have hfirst := count_node hn
    have hrest := count_nodes hr
    rw [keptOf, blocksOf, count_blockNamesOf_append, List.cons_append, lost_cons, lost_append,
      listed_append]
    omega
theorem count_arms {indent : String} : {as : List (Arm (List Node))} →
    {cs : List (CaseArm (List Instruction))} → c.caseArms indent as = .ok cs →
    countIn name (cs.map (·.body)) + lost name (keptOfArms as) = listed name (blocksOfArms as)
  | [], cs, h => by
    rw [caseArms] at h
    obtain rfl := Except.ok.inj h
    rfl
  | ⟨_, _, body⟩ :: as, cs, h => by
    rw [caseArms] at h
    obtain ⟨content, hb, h⟩ := bind_eq_ok.1 h
    obtain ⟨rest, hr, h⟩ := bind_eq_ok.1 h
    obtain rfl := Except.ok.inj h
    have hbody := count_nodes hb
    have hrest := count_arms hr
    rw [keptOfArms, blocksOfArms, List.map_cons, countIn_cons, blockNamesOf_coalesce, lost_append,
      listed_append]
    omega
theorem count_guarded {indent : String} : {bs : List (Branch (List Node))} →
    {gs : List (Guarded (List Instruction))} → c.guarded indent bs = .ok gs →
    countIn name (gs.map (·.body)) + lost name (keptOfBranches bs) =
      listed name (blocksOfBranches bs)
  | [], gs, h => by
    rw [guarded] at h
    obtain rfl := Except.ok.inj h
    rfl
  | ⟨_, _, body⟩ :: bs, gs, h => by
    rw [guarded] at h
    obtain ⟨content, hb, h⟩ := bind_eq_ok.1 h
    obtain ⟨rest, hr, h⟩ := bind_eq_ok.1 h
    obtain rfl := Except.ok.inj h
    have hbody := count_nodes hb
    have hrest := count_guarded hr
    rw [keptOfBranches, blocksOfBranches, List.map_cons, countIn_cons, blockNamesOf_coalesce,
      lost_append, listed_append]
    omega
theorem count_alternative {indent : String} : {o : Option (List Node)} →
    {is : Option (List Instruction)} → c.alternative indent o = .ok is →
    countIn name is.toList + lost name (keptOfOtherwise o) = listed name (blocksOfOtherwise o)
  | none, is, h => by
    rw [alternative] at h
    obtain rfl := Except.ok.inj h
    rfl
  | some body, is, h => by
    rw [alternative] at h
    obtain ⟨content, hb, h⟩ := bind_eq_ok.1 h
    obtain rfl := Except.ok.inj h
    rw [keptOfOtherwise, blocksOfOtherwise, ← count_nodes hb, Option.toList_some, countIn_coalesce]
/-- Content for blocks is regrouped, but none of it is lost or doubled. -/
theorem count_replacements {indent : String} {e : Embedded} :
    {rs : List (Replace (List Node))} → {done os : List (Override (List Instruction))} →
    c.replacements indent e done rs = .ok os →
    countIn name (os.flatMap Override.bodies) + lost name (keptOfReplaces rs) =
      countIn name (done.flatMap Override.bodies) + listed name (blocksOfReplaces rs)
  | [], done, os, h => by
    rw [replacements] at h
    obtain rfl := Except.ok.inj h
    rfl
  | ⟨position, block, _, body⟩ :: rs, done, os, h => by
    rw [replacements] at h
    split at h
    · obtain ⟨content, hb, h⟩ := bind_eq_ok.1 h
      have hbody := count_nodes hb
      have hrest := count_replacements h
      rw [countIn_addOverride, blockNamesOf_coalesce] at hrest
      rw [keptOfReplaces, blocksOfReplaces, lost_append, listed_append]
      omega
    · cases h
end

end Compiler

/-! ## Tables -/

theorem nodup_of_firstRepeated {seen : List String} {bs : List (String × Nat)}
    (h : firstRepeated seen bs = none) :
    (bs.map (·.1)).Nodup ∧ ∀ n ∈ bs.map (·.1), n ∉ seen := by
  induction bs generalizing seen with
  | nil => exact ⟨List.nodup_nil, nofun⟩
  | cons b bs ih =>
    obtain ⟨n, line⟩ := b
    rw [firstRepeated] at h
    split at h
    · cases h
    · next hn =>
      obtain ⟨hnodup, hnew⟩ := ih h
      have hseen : n ∉ seen := fun hm => hn (List.contains_iff_mem.2 hm)
      rw [List.map_cons, List.nodup_cons, List.forall_mem_cons]
      refine ⟨⟨?_, hnodup⟩, hseen, ?_⟩
      · intro hm
        exact hnew n hm (List.mem_cons_self ..)
      · intro m hm hs
        exact hnew m hm (List.mem_cons_of_mem _ hs)

theorem Compiler.program_blocks {c : Compiler} {d : Document} {p : Program}
    (h : c.program d = .ok p) : p.blocks = d.blocks.map (·.1) ∧ p.blocks.Nodup := by
  unfold Compiler.program at h
  split at h
  · cases h
  · next hrepeated =>
    obtain ⟨body, -, h⟩ := bind_eq_ok.1 h
    obtain ⟨names, -, h⟩ := bind_eq_ok.1 h
    obtain rfl := Except.ok.inj h
    exact ⟨rfl, (nodup_of_firstRepeated hrepeated).1⟩

structure ProgramOf.Tabled (p : Program) (d : Document) : Prop where
  once : (blockNamesOf p.instructions).Nodup
  listed : ∀ name, name ∈ p.blocks ↔ name ∈ blockNamesOf p.instructions ∨ name ∈ d.droppedBlocks
  apart : ∀ name ∈ blockNamesOf p.instructions, name ∉ d.droppedBlocks

theorem Compiler.tabled_program {c : Compiler} {d : Document} {p : Program}
    (h : c.program d = .ok p) : p.Tabled d := by
  obtain ⟨body, hb, -, hi, -⟩ := Compiler.program_eq_ok h
  obtain ⟨htable, hnodup⟩ := Compiler.program_blocks h
  have hperm : p.blocks.Perm (blockNamesOf p.instructions ++ d.droppedBlocks) := by
    rw [List.perm_iff_count]
    intro name
    rw [htable, hi, blockNamesOf_coalesce, List.count_append]
    exact (Compiler.count_nodes hb).symm
  rw [hperm.nodup_iff, List.nodup_append] at hnodup
  obtain ⟨honce, -, hapart⟩ := hnodup
  refine ⟨honce, ?_, ?_⟩
  · intro name
    rw [hperm.mem_iff, List.mem_append]
  · intro name hn hd
    exact hapart name hn name hd rfl

theorem tabled_compile {files : Files} {transforms : Transforms} {options : Options}
    {chain : List String} {d : Document} {p : Program}
    (h : compile files transforms options chain d = .ok p) : p.Tabled d := by
  obtain ⟨embed, hp, -⟩ := compile_eq_ok h
  exact Compiler.tabled_program hp

theorem overridden_listed {files : Files} {transforms : Transforms} {options : Options}
    {chain : List String} {d : Document} {p : Program}
    (h : compile files transforms options chain d = .ok p) {i : Instruction}
    (hi : i ∈ ownOf p.instructions) {q : Program} (hq : i.module? = some q) :
    ∀ name ∈ i.overridden, name ∈ q.blocks := by
  obtain ⟨embed, hp, -⟩ := compile_eq_ok h
  obtain ⟨body, hb, -, hbody, -⟩ := Compiler.program_eq_ok hp
  rw [hbody] at hi
  exact ((Compiler.emitsAll_nodes (List.Subset.refl _) hb).coalesce i hi).listed q hq

theorem programsFrom_trans {files : Files} {transforms : Transforms} {options : Options}
    {chain : List String} {d : Document} {p : Program}
    (h : compile files transforms options chain d = .ok p) {q r : Program}
    (hq : q ∈ programsFrom p) (hr : r ∈ programsFrom q) : r ∈ programsFrom p := by
  obtain ⟨embed, hp, hm⟩ := compile_eq_ok h
  obtain ⟨body, hb, -, hbody, -⟩ := Compiler.program_eq_ok hp
  rw [programsFrom, List.mem_cons] at hq ⊢
  rcases hq with rfl | hq
  · rw [programsFrom, List.mem_cons] at hr
    exact hr
  · obtain ⟨i, hi, m, hmodule, hq⟩ := mem_programsOf.1 hq
    have hi' := hi
    rw [hbody] at hi'
    obtain ⟨reference, -, line, indent, e, he, rfl⟩ :=
      ((Compiler.emitsAll_nodes (List.Subset.refl _) hb).coalesce i hi').embedded m hmodule
    obtain ⟨m, -, -, hcompile⟩ := hm he
    exact .inr (mem_programsOf.2 ⟨i, hi, _, hmodule, programsFrom_trans hcompile hq hr⟩)
termination_by files.outside chain
decreasing_by exact m.outside

namespace Session

/-- **The table of blocks.** In every program of a template no two instructions declare the same
block, and the table lists the blocks that are declared and those that were dropped below
self-closing tags of its document. So content that is accepted for a block of a module is for one
that the module can show, or for one that it dropped. -/
theorem tabled_blocks {s : Session} {d : Document} {options : Options} {t : Compiled}
    (h : s.compileDocument d options = .ok t) :
    ∀ q ∈ programsFrom t.program, ∃ e,
      documentOf s.files (nameOf options d) d q.filename = some e ∧ q.Tabled e ∧
      ∀ i ∈ ownOf q.instructions, ∀ p, i.module? = some p → ∀ name ∈ i.overridden,
        name ∈ blockNamesOf p.instructions ∨
          ∃ e, documentOf s.files (nameOf options d) d p.filename = some e ∧
            name ∈ e.droppedBlocks := by
  intro q hq
  obtain ⟨o, chain, e, he, hcompile⟩ := compiled_from h hq
  refine ⟨e, he, tabled_compile hcompile, ?_⟩
  intro i hi p hp name hname
  have hinside : p ∈ programsFrom q := by
    rw [programsFrom, List.mem_cons]
    exact .inr (mem_programsOf.2 ⟨i, hi, p, hp, by rw [programsFrom]; exact List.mem_cons_self ..⟩)
  have htemplate := programsFrom_trans (compileDocument_eq_ok h) hq hinside
  obtain ⟨o', chain', e', he', hcompile'⟩ := compiled_from h htemplate
  have hlisted := overridden_listed hcompile hi hp name hname
  rcases ((tabled_compile hcompile').listed name).1 hlisted with hshown | hdropped
  · exact .inl hshown
  · exact .inr ⟨e', he', hdropped⟩

/-- A page with content for a block of its layout, which holds a block itself. -/
theorem tabled_blocks_layout :
    let files : Files :=
      ⟨[⟨"/layout.made", "/layout.made", "body\n  block content\n  br\n    block b"⟩]⟩
    let mark : Mark := ⟨1, ⟨0, 0⟩⟩
    let d : Document := ⟨[.extension mark "layout" []
      [⟨.replace, "content", 2, [.block mark "more" []]⟩, ⟨.after, "b", 3, []⟩]], some "/page.made"⟩
    ∃ t, Session.compileDocument ⟨files, []⟩ d {} = .ok t ∧
      (programsFrom t.program).map (fun q => (q.blocks, blockNamesOf q.instructions)) =
        [(["more"], ["more"]), (["content", "b"], ["content"])] ∧
      ∀ q ∈ programsFrom t.program, ∃ e,
        documentOf files (nameOf {} d) d q.filename = some e ∧ q.Tabled e := by
  intro files mark d
  have hblocks : ((Session.compileDocument ⟨files, []⟩ d {}).toOption.map fun t =>
      (programsFrom t.program).map fun q => (q.blocks, blockNamesOf q.instructions)) =
        some [(["more"], ["more"]), (["content", "b"], ["content"])] := by decide +kernel
  obtain ⟨t, ht, hblocks⟩ := Option.map_eq_some_iff.1 hblocks
  replace ht := ok_of_toOption ht
  refine ⟨t, ht, hblocks, ?_⟩
  intro q hq
  obtain ⟨e, he, htabled, -⟩ := tabled_blocks ht q hq
  exact ⟨e, he, htabled⟩

/-- A block below an image is listed but has no instruction, and what a page has for it is accepted
and never shown. -/
theorem dropped_block_listed :
    let source := "img\n  block a"
    let s : Session := ⟨⟨[⟨"/pic.made", "/pic.made", source⟩]⟩, []⟩
    let page := "extends pic\n  replace a\n    p hello"
    (∃ t, (s.compileSource source {}).1 = .ok t ∧ t.program.blocks = ["a"] ∧
      blockNamesOf t.program.instructions = []) ∧
    ∃ t r, (s.compileSource page { filename := some "/page.made" }).1 = .ok t ∧
      t.render .null 1 = .ok r ∧ r.html = "<img>" := by
  intro source s page
  constructor
  · have h : ((s.compileSource source {}).1.toOption.map fun t =>
        (t.program.blocks, blockNamesOf t.program.instructions)) = some (["a"], []) := by
      decide +kernel
    obtain ⟨t, ht, hblocks⟩ := Option.map_eq_some_iff.1 h
    exact ⟨t, ok_of_toOption ht, congrArg Prod.fst hblocks, congrArg Prod.snd hblocks⟩
  · have h : ((s.compileSource page { filename := some "/page.made" }).1.toOption.bind fun t =>
        (t.render .null 1).toOption.map Rendered.html) = some "<img>" := by decide +kernel
    obtain ⟨t, ht, h⟩ := Option.bind_eq_some_iff.1 h
    obtain ⟨r, hr, hhtml⟩ := Option.map_eq_some_iff.1 h
    exact ⟨t, r, ok_of_toOption ht, ok_of_toOption hr, hhtml⟩

end Session

end Stencil
