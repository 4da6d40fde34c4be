import Stencil.Proofs.Files

/-! # Runs of the table of files

Texts are loaded and files are asked for in any order, under any spelling of their paths. What the
table holds afterwards is told by the loads alone: a file for every distinct path, in the order in
which the paths came first, with the text that came last. -/

namespace Stencil.Files

/-! ## Spellings -/

/-- Paths without the later spellings of those that came before. -/
def distinct : List String → List String
  | [] => []
  | p :: ps => p :: (distinct ps).filter fun q => !Path.same p q

theorem same_eq {p q : String} (h : Path.same p q = true) (r : String) :
    Path.same p r = Path.same q r := by
  rw [Path.same, beq_iff_eq] at h
  rw [Path.same, Path.same, h]

/-- One more path is one more file, unless it is spelled like one before. -/
theorem distinct_concat (ps : List String) (p : String) :
    distinct (ps ++ [p]) =
      if ps.any (Path.same · p) then distinct ps else distinct ps ++ [p] := by
  induction ps with
  | nil => rfl
  | cons q ps ih =>
    rw [List.cons_append, distinct, ih, distinct, List.any_cons]
    cases hq : Path.same q p with
    | true => split <;> simp [hq]
    | false => split <;> simp_all

theorem distinct_apart (ps : List String) :
    (distinct ps).Pairwise fun p q => Path.same p q = false := by
  induction ps with
  | nil => exact .nil
  | cons p ps ih =>
    refine List.pairwise_cons.2 ⟨fun q hq => ?_, ih.filter _⟩
    simpa using (List.mem_filter.1 hq).2

theorem any_distinct (ps : List String) (p : String) :
    (distinct ps).any (Path.same · p) = ps.any (Path.same · p) := by
  induction ps with
  | nil => rfl
  | cons q ps ih =>
    rw [distinct, List.any_cons, List.any_cons, List.any_filter]
    cases hq : Path.same q p with
    | true => rfl
    | false =>
      -- what is spelled like `p` is not spelled like `q`, so it was not dropped
      have hkept : ∀ r, (!Path.same q r && Path.same r p) = Path.same r p := by
        intro r
        cases hr : Path.same r p with
        | false => rw [Bool.and_false]
        | true => rw [Path.same_comm, same_eq hr, Path.same_comm, hq]; rfl
      simp only [hkept, ih]

/-! ## Steps -/

inductive Step where
  | load (path text : String)
  | resolve (path : String)
  deriving DecidableEq, Repr

def step (fs : Files) : Step → Result Nat × Files
  | .load path text => ((.ok (fs.load path text).1), (fs.load path text).2)
  | .resolve path => (fs.resolve path, fs)

def run (fs : Files) : List Step → Files
  | [] => fs
  | s :: steps => run (fs.step s).2 steps

def Step.load? : Step → Option (String × String)
  | .load path text => some (path, text)
  | .resolve _ => none

def loads (steps : List Step) : List (String × String) :=
  steps.filterMap Step.load?

def lastText? (ls : List (String × String)) (path : String) : Option String :=
  (ls.reverse.find? fun l => Path.same l.1 path).map (·.2)

theorem lastText?_concat (ls : List (String × String)) (path text p : String) :
    lastText? (ls ++ [(path, text)]) p =
      if Path.same path p then some text else lastText? ls p := by
  rw [lastText?, List.reverse_append, List.reverse_singleton, List.singleton_append,
    List.find?_cons]
  cases Path.same path p with
  | true => rfl
  | false => rfl

theorem lastText?_same {p q : String} (h : Path.same p q = true) (ls : List (String × String)) :
    lastText? ls p = lastText? ls q := by
  have hsame : ∀ l : String × String, Path.same l.1 p = Path.same l.1 q := by
    intro l
    rw [Path.same_comm, same_eq h, Path.same_comm]
  simp only [lastText?, hsame]

/-! ## What the table holds -/

structure Holds (ls : List (String × String)) (fs : Files) : Prop where
  paths : fs.entries.map File.path = distinct (ls.map Prod.fst)
  sources : ∀ f ∈ fs.entries, (lastText? ls f.path).map Text.normalize = some f.source

theorem id?_eq (fs : Files) (path : String) :
    fs.id? path = (fs.entries.map File.path).findIdx? (Path.same · path) := by
  rw [id?, List.findIdx?_map]
  rfl

/-- Loading a file again leaves it where it is. -/
theorem paths_load_some {fs : Files} {path : String} {id : Nat} (h : fs.id? path = some id)
    (text : String) :
    (fs.load path text).2.entries.map File.path = fs.entries.map File.path := by
  simp only [load, h]
  refine List.ext_getElem? fun i => ?_
  rw [List.getElem?_map, List.getElem?_map, List.getElem?_modify]
  cases fs.entries[i]? with
  | none => rfl
  | some f =>
    by_cases hi : id = i
    · simp [hi]
    · simp [hi]

theorem paths_load_none {fs : Files} {path : String} (h : fs.id? path = none) (text : String) :
    (fs.load path text).2.entries.map File.path = fs.entries.map File.path ++ [path] := by
  simp [load, h]

namespace Holds

variable {ls : List (String × String)} {fs : Files} {path text : String}

theorem isSome_id? (h : Holds ls fs) (path : String) :
    (fs.id? path).isSome = (ls.map Prod.fst).any (Path.same · path) := by
  rw [id?_eq, List.findIdx?_isSome, h.paths, any_distinct]

theorem id?_eq_some (h : Holds ls fs) {id : Nat} :
    fs.id? path = some id ↔ ∃ f, fs.get? id = some f ∧ Path.same f.path path = true := by
  constructor
  · intro hid
    obtain ⟨hlt, hs, -⟩ := List.findIdx?_eq_some_iff_getElem.1 hid
    exact ⟨fs.entries[id], List.getElem?_eq_getElem hlt, hs⟩
  · rintro ⟨f, hf, hs⟩
    obtain ⟨hlt, rfl⟩ := List.getElem?_eq_some_iff.1 hf
    refine List.findIdx?_eq_some_iff_getElem.2 ⟨hlt, hs, fun j hj hsj => ?_⟩
    have hapart : (fs.entries.map File.path).Pairwise fun p q => Path.same p q = false := by
      rw [h.paths]
      exact distinct_apart _
    have hfalse := List.pairwise_iff_getElem.1 (List.pairwise_map.1 hapart) j id
      (Nat.lt_trans hj hlt) hlt hj
    rw [same_eq hsj, Path.same_comm, hs] at hfalse
    cases hfalse

theorem empty : Holds [] Files.empty :=
  ⟨rfl, List.forall_mem_nil _⟩

/-- A load is all that a table needs to hold one load more. -/
theorem load (h : Holds ls fs) (path text : String) :
    Holds (ls ++ [(path, text)]) (fs.load path text).2 := by
  have hany := h.isSome_id? path
  have hpaths : (ls ++ [(path, text)]).map Prod.fst = ls.map Prod.fst ++ [path] := List.map_append
  cases hid : fs.id? path with
  | none =>
    rw [hid, Option.isSome_none] at hany
    refine ⟨?_, ?_⟩
    · rw [paths_load_none hid, hpaths, distinct_concat, ← hany, h.paths]
      rfl
    · intro f hf
      simp only [Files.load, hid, List.mem_append, List.mem_singleton] at hf
      rw [lastText?_concat]
      rcases hf with hf | rfl
      · have hne : Path.same path f.path = false := by
          rw [Path.same_comm]
          exact Bool.eq_false_iff.2 (List.findIdx?_eq_none_iff.1 hid f hf ▸ Bool.false_ne_true)
        rw [hne]
        exact h.sources f hf
      · rw [if_pos (by simp [Path.same])]
        rfl
  | some id =>
    rw [hid, Option.isSome_some] at hany
    refine ⟨?_, ?_⟩
    · rw [paths_load_some hid, hpaths, distinct_concat, ← hany, h.paths]
      rfl
    · intro f hf
      obtain ⟨j, hj⟩ := List.mem_iff_getElem?.1 hf
      simp only [Files.load, hid, List.getElem?_modify] at hj
      obtain ⟨g, hg, rfl⟩ := Option.map_eq_some_iff.1 hj
      rw [lastText?_concat]
      split
      · next hij =>
        subst hij
        obtain ⟨g', hg', hs⟩ := h.id?_eq_some.1 hid
        obtain rfl : g' = g := Option.some.inj (hg'.symm.trans hg)
        rw [Path.same_comm, if_pos hs]
        rfl
      · next hij =>
        have hne : Path.same path g.path = false := by
          cases hs : Path.same path g.path with
          | false => rfl
          | true =>
            rw [Path.same_comm] at hs
            have hj := h.id?_eq_some.2 ⟨g, hg, hs⟩
            exact absurd (Option.some.inj (hid.symm.trans hj)) hij
        rw [hne]
        exact h.sources g (List.mem_of_getElem? hg)

theorem step (h : Holds ls fs) (s : Step) : Holds (ls ++ s.load?.toList) (fs.step s).2 := by
  cases s with
  | load path text => exact h.load path text
  | resolve path =>
    rw [Step.load?, Option.toList_none, List.append_nil]
    exact h

theorem run (h : Holds ls fs) (steps : List Step) : Holds (ls ++ loads steps) (fs.run steps) := by
  induction steps generalizing ls fs with
  | nil =>
    rw [loads, List.filterMap_nil, List.append_nil]
    exact h
  | cons s steps ih =>
    have hmore := ih (h.step s)
    rw [List.append_assoc] at hmore
    rw [Files.run, loads, List.filterMap_cons]
    cases hs : s.load? with
    | none => rwa [hs] at hmore
    | some l => rwa [hs] at hmore

end Holds

/-! ## Loads leave the other files alone -/

theorem id?_load_self (fs : Files) (path text : String) :
    (fs.load path text).2.id? path = some (fs.load path text).1 := by
  rw [id?_eq]
  cases hid : fs.id? path with
  | none =>
    have hnone := hid
    rw [id?_eq] at hnone
    rw [paths_load_none hid, List.findIdx?_append, hnone]
    simp [load, hid, Path.same]
  | some id =>
    rw [paths_load_some hid, ← id?_eq, hid, load, hid]

theorem id?_load_of_some {fs : Files} {p : String} {id : Nat} (h : fs.id? p = some id)
    (path text : String) : (fs.load path text).2.id? p = some id := by
  rw [id?_eq] at h ⊢
  cases hid : fs.id? path with
  | none => rw [paths_load_none hid, List.findIdx?_append, h, Option.some_or]
  | some _ => rw [paths_load_some hid, h]

theorem get?_load_of_ne {fs : Files} {id : Nat} {f : File} (h : fs.get? id = some f)
    {path text : String} (hne : id ≠ (fs.load path text).1) :
    (fs.load path text).2.get? id = some f := by
  rw [load] at hne ⊢
  split at hne
  · next i hi =>
    exact (List.getElem?_modify_ne _ _ (Ne.symm hne)).trans h
  · next hi =>
    exact (List.getElem?_append_left (List.getElem?_eq_some_iff.1 h).1).trans h

/-! ## Consistency -/

/-- What a table is to those who use it, given all the loads there were. -/
structure Consistent (ls : List (String × String)) (fs : Files) : Prop where
  /-- Files are numbered from zero on, in the order in which their paths came first. -/
  numbered : ∀ id, (fs.get? id).map File.path = (distinct (ls.map Prod.fst))[id]?
  /-- The number of a path and the path of a number lead back to each other. -/
  inverse : ∀ path id, fs.id? path = some id ↔
    ∃ p, (fs.get? id).map File.path = some p ∧ Path.same p path = true
  /-- The text of a file is the one that came last. -/
  sources : ∀ path id, fs.id? path = some id → ∃ text, lastText? ls path = some text ∧
    (fs.get? id).map File.source = some (Text.normalize text)
  /-- A load answers with the number its path has from then on. -/
  loaded : ∀ path text, ∃ id, (fs.step (.load path text)).1 = .ok id ∧
    (fs.step (.load path text)).2.id? path = some id
  /-- A load changes no number, and no file but its own. -/
  kept : ∀ path text id, (fs.step (.load path text)).1 = .ok id →
    (∀ p i, fs.id? p = some i → (fs.step (.load path text)).2.id? p = some i) ∧
      ∀ i f, fs.get? i = some f → i ≠ id → (fs.step (.load path text)).2.get? i = some f
  /-- Asking for a file gives its number, or fails if it was never loaded. -/
  resolved : ∀ path, (fs.step (.resolve path)).1.toOption = fs.id? path ∧
    ((fs.id? path).isSome = true ↔ ∃ l ∈ ls, Path.same l.1 path = true)
  /-- Asking in vain leaves the table as it was. -/
  failed : ∀ path e, (fs.step (.resolve path)).1 = .error e → (fs.step (.resolve path)).2 = fs

theorem toOption_resolve (fs : Files) (path : String) :
    (fs.resolve path).toOption = fs.id? path := by
  rw [resolve]
  split
  · next id hid => rw [hid]; rfl
  · next hid => rw [hid]; rfl

theorem Holds.consistent {ls : List (String × String)} {fs : Files} (h : Holds ls fs) :
    Consistent ls fs where
  numbered := by
    intro id
    rw [get?, ← List.getElem?_map, h.paths]
  inverse := by
    intro path id
    rw [h.id?_eq_some]
    cases fs.get? id with
    | none => simp
    | some f => simp
  sources := by
    intro path id hid
    obtain ⟨f, hf, hs⟩ := h.id?_eq_some.1 hid
    obtain ⟨text, ht, he⟩ := Option.map_eq_some_iff.1 (h.sources f (List.mem_of_getElem? hf))
    rw [lastText?_same hs] at ht
    refine ⟨text, ht, ?_⟩
    rw [hf, he]
    rfl
  loaded := fun path text => ⟨_, rfl, id?_load_self fs path text⟩
  kept := by
    intro path text id hid
    obtain rfl := Except.ok.inj hid
    exact ⟨fun p i hi => id?_load_of_some hi path text, fun i f hf hne => get?_load_of_ne hf hne⟩
  resolved := by
    intro path
    refine ⟨toOption_resolve fs path, ?_⟩
    rw [h.isSome_id?, List.any_map, List.any_eq_true]
    rfl
  failed := fun _ _ _ => rfl

/-- **The table of files stays consistent.** However texts are loaded and files are asked for, files
are numbered in the order in which their paths came first, a path and its number lead to each other,
a file has the normalized text that was loaded last under any spelling of its path, loading it again
changes nothing about the others, and asking in vain changes nothing at all. -/
theorem run_consistent (steps : List Step) : Consistent (loads steps) (empty.run steps) :=
  (Holds.empty.run steps).consistent

/-- The second file is loaded between two spellings of the first. -/
example : (empty.run [.load "in/a" "x", .load "b" "y\r\n", .resolve "c",
  .load "in//a/" "z"]).entries =
    [⟨"in/a", "in//a/", "z"⟩, ⟨"b", "b", "y\n"⟩] := by decide +kernel

end Stencil.Files
