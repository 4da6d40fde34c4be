import Stencil.Proofs.Render.Machine

/-! # What the machine executes

Whatever the machine runs for a program was written in it: in its own instructions, in content for
the blocks of a module, or in a module itself. -/

namespace Stencil

mutual
def Instruction.inner : Instruction → List Instruction
  | .text _ => []
  | .output _ _ _ => []
  | .attr _ _ _ _ => []
  | .ifElse branches otherwise => insideBranches branches ++ insideOption otherwise
  | .whileTrue _ body _ => inside body
  | .caseOf _ arms _ => insideArms arms
  | .each _ _ _ body _ => inside body
  | .block _ body => inside body
  | .extension p _ overrides _ _ => insideProgram p ++ insideOverrides overrides
  | .inclusion p _ _ _ => insideProgram p
def inside : List Instruction → List Instruction
  | [] => []
  | i :: is => i :: i.inner ++ inside is
def insideBranches : List (Guarded (List Instruction)) → List Instruction
  | [] => []
  | ⟨_, body, _⟩ :: bs => inside body ++ insideBranches bs
def insideArms : List (CaseArm (List Instruction)) → List Instruction
  | [] => []
  | ⟨_, body⟩ :: as => inside body ++ insideArms as
def insideOption : Option (List Instruction) → List Instruction
  | none => []
  | some body => inside body
def insideOverrides : List (Override (List Instruction)) → List Instruction
  | [] => []
  | ⟨_, before, replace, after⟩ :: os =>
    insideOption before ++ insideOption replace ++ insideOption after ++ insideOverrides os
def insideProgram : ProgramOf (List Instruction) → List Instruction
  | ⟨_, _, _, body, _, _⟩ => inside body
end

namespace Machine

section
variable {S : Instruction → Prop}

def contents (o : Override Closure) : List Closure :=
  o.before.toList ++ o.replace.toList ++ o.after.toList

inductive Closure.Among (S : Instruction → Prop) : Closure → Prop where
  | intro {g : Setting} {slots : List (Override Closure)} {body : List Instruction}
      (body_among : ∀ i ∈ inside body, S i)
      (slots_among : ∀ o ∈ slots, ∀ c ∈ contents o, Closure.Among S c) :
      Closure.Among S (.mk g slots body)

def SlotsAmong (S : Instruction → Prop) (slots : List (Override Closure)) : Prop :=
  ∀ o ∈ slots, ∀ c ∈ contents o, c.Among S

def Task.Among (S : Instruction → Prop) : Task → Prop
  | .run c => c.Among S
  | .loop c _ _ _ => c.Among S
  | .record _ _ => True

def Written.By (S : Instruction → Prop) : Written → Prop
  | .text s => S (.text s)
  | .output expr format line _ => S (.output expr format line)
  | .attr name expr escape line _ => S (.attr name expr escape line)
  | .used _ _ => True

structure Sound (S : Instruction → Prop) (ws : List Written) (ts : List Task) : Prop where
  written : ∀ w ∈ ws, w.By S
  tasks : ∀ t ∈ ts, t.Among S

theorem Sound.append {ws vs : List Written} {ts us : List Task} (h : Sound S ws ts)
    (h' : Sound S vs us) : Sound S (ws ++ vs) (ts ++ us) where
  written := by
    intro w hw
    rcases List.mem_append.1 hw with hw | hw
    · exact h.written w hw
    · exact h'.written w hw
  tasks := by
    intro t ht
    rcases List.mem_append.1 ht with ht | ht
    · exact h.tasks t ht
    · exact h'.tasks t ht

theorem sound_nil : Sound S [] [] where
  written := fun _ h => nomatch h
  tasks := fun _ h => nomatch h

theorem sound_written {w : Written} (h : w.By S) : Sound S [w] [] where
  written := by
    intro v hv
    rw [List.mem_singleton.1 hv]
    exact h
  tasks := fun _ h => nomatch h

theorem sound_tasks {ts : List Task} (h : ∀ t ∈ ts, t.Among S) : Sound S [] ts where
  written := fun _ h => nomatch h
  tasks := h

/-! ## The bodies that are chosen -/

theorem inside_chosenBranch {g : Setting} {bs : List (Guarded (List Instruction))}
    {body : List Instruction} (h : chosenBranch g bs = .ok (some body)) :
    ∀ i ∈ inside body, i ∈ insideBranches bs := by
  intro i hi
  induction bs with
  | nil => cases h
  | cons b bs ih =>
    obtain ⟨expr, content, line⟩ := b
    rw [insideBranches]
    rw [chosenBranch] at h
    obtain ⟨b, -, h⟩ := bind_eq_ok.1 h
    cases b with
    | true =>
      obtain rfl : content = body := Option.some.inj (Except.ok.inj h)
      exact List.mem_append_left _ hi
    | false => exact List.mem_append_right _ (ih h)

theorem inside_chosenArm {g : Setting} {line : Nat} {subject : Value}
    {as : List (CaseArm (List Instruction))} {body : List Instruction}
    (h : chosenArm g line subject as = .ok (some body)) :
    ∀ i ∈ inside body, i ∈ insideArms as := by
  intro i hi
  induction as with
  | nil => cases h
  | cons a as ih =>
    obtain ⟨expr, content⟩ := a
    rw [insideArms]
    cases expr with
    | none => exact List.mem_append_right _ (ih h)
    | some expr =>
      rw [chosenArm] at h
      obtain ⟨v, -, h⟩ := bind_eq_ok.1 h
      by_cases hv : subject.strictEq false v = true
      · rw [if_pos hv] at h
        obtain rfl : content = body := Option.some.inj (Except.ok.inj h)
        exact List.mem_append_left _ hi
      · rw [if_neg hv] at h
        exact List.mem_append_right _ (ih h)

theorem inside_defaultArm {as : List (CaseArm (List Instruction))} {body : List Instruction}
    (h : defaultArm as = some body) : ∀ i ∈ inside body, i ∈ insideArms as := by
  intro i hi
  induction as with
  | nil => cases h
  | cons a as ih =>
    obtain ⟨expr, content⟩ := a
    rw [insideArms]
    cases expr with
    | some expr => exact List.mem_append_right _ (ih h)
    | none =>
      obtain rfl : content = body := Option.some.inj h
      exact List.mem_append_left _ hi

theorem sound_chosen {g : Setting} {slots : List (Override Closure)} (hs : SlotsAmong S slots)
    {o o' : Option (List Instruction)} (h : ∀ body, o = some body → ∀ i ∈ inside body, S i)
    (h' : ∀ body, o' = some body → ∀ i ∈ inside body, S i) :
    Sound S [] ((o.or o').toList.map fun b => .run (.mk g slots b)) := by
  refine sound_tasks ?_
  intro t ht
  obtain ⟨body, hb, rfl⟩ := List.mem_map.1 ht
  have hbody : o.or o' = some body := Option.mem_toList.1 hb
  cases o with
  | none => exact .intro (h' body hbody) hs
  | some b =>
    obtain rfl : b = body := Option.some.inj hbody
    exact .intro (h b rfl) hs

/-! ## Blocks -/

theorem mem_of_slotOf {name : String} {slots : List (Override Closure)} {o : Override Closure}
    (h : slotOf name slots = some o) : o ∈ slots := by
  induction slots with
  | nil => cases h
  | cons s slots ih =>
    rw [slotOf] at h
    cases hrest : slotOf name slots with
    | some o' =>
      rw [hrest] at h ih
      exact List.mem_cons_of_mem _ (ih h)
    | none =>
      rw [hrest, Option.none_or] at h
      by_cases hb : (s.block == name) = true
      · rw [if_pos hb] at h
        obtain rfl := Option.some.inj h
        exact List.mem_cons_self ..
      · rw [if_neg hb] at h
        cases h

theorem among_blockCalls {slots : List (Override Closure)} (hs : SlotsAmong S slots) {own : Closure}
    (ho : own.Among S) (name : String) : ∀ c ∈ blockCalls own (slotOf name slots), c.Among S := by
  intro c hc
  cases h : slotOf name slots with
  | none =>
    rw [h, blockCalls, List.mem_singleton] at hc
    rw [hc]
    exact ho
  | some o =>
    have hall := hs o (mem_of_slotOf h)
    rw [h, blockCalls, List.mem_append, List.mem_append, List.mem_singleton] at hc
    rcases hc with (hc | hc) | hc
    · exact hall c (List.mem_append_left _ (List.mem_append_left _ hc))
    · cases hr : o.replace with
      | none => rw [hc, hr]; exact ho
      | some r =>
        rw [hc, hr]
        exact hall r (List.mem_append_left _ (List.mem_append_right _ (by rw [hr]; exact .head _)))
    · exact hall c (List.mem_append_right _ hc)

theorem among_closed_option {g : Setting} {slots : List (Override Closure)}
    (hs : SlotsAmong S slots) {o : Option (List Instruction)} (h : ∀ i ∈ insideOption o, S i) :
    ∀ c ∈ (o.map (Closure.mk g slots)).toList, c.Among S := by
  intro c hc
  cases o with
  | none => cases hc
  | some body =>
    rw [Option.map_some, Option.toList_some, List.mem_singleton] at hc
    rw [hc]
    exact .intro h hs

theorem slotsAmong_closed {g : Setting} {slots : List (Override Closure)} (hs : SlotsAmong S slots)
    {os : List (Override (List Instruction))} (h : ∀ i ∈ insideOverrides os, S i) :
    SlotsAmong S (os.map (closed g slots)) := by
  induction os with
  | nil => exact fun _ h => nomatch h
  | cons o os ih =>
    obtain ⟨block, before, replace, after⟩ := o
    rw [insideOverrides] at h
    have hparts := fun i hi => h i (List.mem_append_left _ hi)
    intro s hmem c hc
    rcases List.mem_cons.1 hmem with rfl | hmem
    · rcases List.mem_append.1 hc with hc | hc
      · rcases List.mem_append.1 hc with hc | hc
        · exact among_closed_option hs
            (fun i hi => hparts i (List.mem_append_left _ (List.mem_append_left _ hi))) c hc
        · exact among_closed_option hs
            (fun i hi => hparts i (List.mem_append_left _ (List.mem_append_right _ hi))) c hc
      · exact among_closed_option hs (fun i hi => hparts i (List.mem_append_right _ hi)) c hc
    · exact ih (fun i hi => h i (List.mem_append_right _ hi)) s hmem c hc

theorem among_entered {slots : List (Override Closure)} (hs : SlotsAmong S slots) (input : Value)
    {p : Program} (h : ∀ i ∈ insideProgram p, S i) : (entered slots input p).Among S := by
  obtain ⟨filename, sid, name, body, blocks, freeNames⟩ := p
  exact .intro h hs

theorem slotsAmong_nil : SlotsAmong S [] :=
  fun _ h => nomatch h

/-! ## Steps and runs -/

theorem sound_invocation {c : Closure} (h : c.Among S) (dependency : Option Dependency)
    (input : Value) : Sound S [] [.run c, .record dependency input] := by
  refine sound_tasks ?_
  intro t ht
  rcases List.mem_cons.1 ht with rfl | ht
  · exact h
  · rw [List.mem_singleton.1 ht]
    trivial

theorem sound_enter {limit : Nat} {g : Setting} {slots : List (Override Closure)} {i : Instruction}
    {ws : List Written} {ts : List Task} (h : enter limit g slots i = .ok (ws, ts)) (hi : S i)
    (hin : ∀ j ∈ i.inner, S j) (hs : SlotsAmong S slots) : Sound S ws ts := by
  cases i with
  | text s =>
    cases h
    exact sound_written hi
  | output expr format line =>
    obtain ⟨v, -, h⟩ := bind_eq_ok.1 h
    cases h
    exact sound_written hi
  | attr name expr escape line =>
    obtain ⟨v, -, h⟩ := bind_eq_ok.1 h
    cases h
    exact sound_written hi
  | ifElse branches otherwise =>
    rw [Instruction.inner] at hin
    obtain ⟨body, hbody, h⟩ := bind_eq_ok.1 h
    cases h
    refine sound_chosen hs ?_ ?_
    · rintro body rfl j hj
      exact hin j (List.mem_append_left _ (inside_chosenBranch hbody j hj))
    · rintro body rfl j hj
      exact hin j (List.mem_append_right _ hj)
  | whileTrue expr body line =>
    cases h
    refine sound_tasks ?_
    intro t ht
    rw [List.mem_singleton.1 ht]
    exact .intro hin hs
  | caseOf expr arms line =>
    rw [Instruction.inner] at hin
    obtain ⟨subject, -, h⟩ := bind_eq_ok.1 h
    obtain ⟨body, hbody, h⟩ := bind_eq_ok.1 h
    cases h
    refine sound_chosen hs ?_ ?_
    · rintro body rfl j hj
      exact hin j (inside_chosenArm hbody j hj)
    · intro body hd j hj
      exact hin j (inside_defaultArm hd j hj)
  | each value key expr body line =>
    obtain ⟨list, -, h⟩ := bind_eq_ok.1 h
    cases h
    refine sound_tasks ?_
    intro t ht
    obtain ⟨entry, -, rfl⟩ := List.mem_map.1 ht
    exact .intro hin hs
  | block name body =>
    cases h
    refine sound_tasks ?_
    intro t ht
    obtain ⟨c, hc, rfl⟩ := List.mem_map.1 ht
    exact among_blockCalls hs (.intro hin hs) name c hc
  | extension program options overrides dependency line =>
    rw [Instruction.inner] at hin
    obtain ⟨input, -, h⟩ := bind_eq_ok.1 h
    cases h
    have hslots := slotsAmong_closed (g := g) hs fun j hj => hin j (List.mem_append_right _ hj)
    exact sound_invocation
      (among_entered hslots input fun j hj => hin j (List.mem_append_left _ hj)) dependency input
  | inclusion program options dependency line =>
    rw [Instruction.inner] at hin
    obtain ⟨input, -, h⟩ := bind_eq_ok.1 h
    cases h
    exact sound_invocation (among_entered slotsAmong_nil input hin) dependency input

theorem sound_proceed {limit : Nat} {t : Task} {ws : List Written} {ts : List Task}
    (h : t.proceed limit = .ok (ws, ts)) (ht : t.Among S) : Sound S ws ts := by
  cases t with
  | run c =>
    obtain ⟨g, slots, body⟩ := c
    obtain ⟨hbody, hs⟩ := ht
    cases body with
    | nil =>
      cases h
      exact sound_nil
    | cons i is =>
      rw [inside] at hbody
      rw [Task.proceed] at h
      obtain ⟨⟨vs, calls⟩, he, h⟩ := bind_eq_ok.1 h
      cases h
      have hfirst := sound_enter he (hbody i (List.mem_cons_self ..))
        (fun j hj => hbody j (List.mem_cons_of_mem _ (List.mem_append_left _ hj))) hs
      have hrest : Sound S [] [Task.run (.mk g slots is)] := by
        refine sound_tasks ?_
        intro t ht
        rw [List.mem_singleton.1 ht]
        exact .intro (fun j hj => hbody j (List.mem_cons_of_mem _ (List.mem_append_right _ hj))) hs
      have hall := hfirst.append hrest
      rw [List.append_nil] at hall
      exact hall
  | loop c expr line times =>
    obtain ⟨g, slots, body⟩ := c
    obtain ⟨b, -, h⟩ := bind_eq_ok.1 h
    cases b with
    | false =>
      cases h
      exact sound_nil
    | true =>
      cases times with
      | zero => cases h
      | succ n =>
        cases h
        refine sound_tasks ?_
        intro t hmem
        rcases List.mem_cons.1 hmem with rfl | hmem
        · exact ht
        · rw [List.mem_singleton.1 hmem]
          exact ht
  | record dependency input =>
    cases h
    exact sound_written trivial

def State.Among (S : Instruction → Prop) : State → Prop
  | .running ws ts => Sound S ws ts
  | .halted (.ok ws) => ∀ w ∈ ws, w.By S
  | .halted (.error _) => True

theorem among_step {limit : Nat} {s : State} (h : s.Among S) : (step limit s).Among S := by
  cases s with
  | halted r => exact h
  | running ws ts =>
    cases ts with
    | nil => exact h.written
    | cons t ts =>
      rw [step]
      cases hp : t.proceed limit with
      | error e => trivial
      | ok first =>
        obtain ⟨vs, calls⟩ := first
        have hfirst := sound_proceed hp (h.tasks t (List.mem_cons_self ..))
        have hbelow := fun u hu => h.tasks u (List.mem_cons_of_mem _ hu)
        refine ⟨?_, ?_⟩
        · intro w hw
          rcases List.mem_append.1 hw with hw | hw
          · exact h.written w hw
          · exact hfirst.written w hw
        · intro u hu
          rcases List.mem_append.1 hu with hu | hu
          · exact hfirst.tasks u hu
          · exact hbelow u hu

theorem among_advance (limit n : Nat) {s : State} (h : s.Among S) :
    (advance limit n s).Among S := by
  induction n generalizing s with
  | zero => exact h
  | succ n ih => exact ih (among_step h)

/-- A successful rendering is what the instructions of the program have written, in the order in
which the machine ran them. -/
theorem written_by_program {p : Program} {input : Value} {limit : Nat} {r : Rendered}
    (h : p.render input limit = .ok r) :
    ∃ steps ws, advance limit steps (start p input) = .halted (.ok ws) ∧ rendered ws = r ∧
      ∀ w ∈ ws, w.By (· ∈ insideProgram p) := by
  obtain ⟨steps, result, hhalt, hresult⟩ := halts p input limit
  rw [h] at hresult
  obtain ⟨ws, rfl, hws⟩ := map_eq_ok.1 hresult
  have hstart : (start p input).Among (· ∈ insideProgram p) := by
    refine sound_tasks ?_
    intro t ht
    rw [List.mem_singleton.1 ht]
    exact among_entered slotsAmong_nil input fun _ hi => hi
  have hend := among_advance limit steps hstart
  have hsteps := hhalt 0
  rw [Nat.add_zero] at hsteps
  rw [hsteps] at hend
  exact ⟨steps, ws, hsteps, hws, hend⟩

end

end Machine

end Stencil
