import Stencil.Proofs.Program.Own
import Stencil.Proofs.Result

/-! # The calls of a rendering

A rendering is traced: next to what it writes, the trace has the modules that were called, each with
the calls that were made while it ran. It does not look at what the instructions say about
recording; what is recorded can be read off it, though. -/

namespace Stencil

/-- A module that was called: its program, the way it was used, what was handed to it, and the calls
made while it ran. -/
inductive Call where
  | mk (program : Program) (use : Use) (input : Value) (inner : List Call)

def ProgramOf.dependency (p : Program) (use : Use) : Dependency :=
  ⟨p.filename.getD "", p.instanceName, use⟩

namespace Call

def program : Call → Program
  | .mk p _ _ _ => p

def record : Call → Record
  | .mk p use input _ => ⟨p.dependency use, input⟩

end Call

mutual
/-- A call and those made in it, in the order in which they are completed. -/
def Call.completed : Call → List Call
  | .mk p use input inner => completedOf inner ++ [.mk p use input inner]
def completedOf : List Call → List Call
  | [] => []
  | c :: cs => c.completed ++ completedOf cs
end

theorem completedOf_append (cs ds : List Call) :
    completedOf (cs ++ ds) = completedOf cs ++ completedOf ds := by
  induction cs with
  | nil => rfl
  | cons c cs ih => rw [List.cons_append, completedOf, completedOf, ih, List.append_assoc]

structure Traced where
  pieces : List Html.Piece
  calls : List Call

namespace Traced

def empty : Traced :=
  ⟨[], []⟩

def ofPieces (ps : List Html.Piece) : Traced :=
  ⟨ps, []⟩

instance : Append Traced where
  append a b := ⟨a.pieces ++ b.pieces, a.calls ++ b.calls⟩

def called (t : Traced) (p : Program) (use : Use) (input : Value) : Traced :=
  ⟨t.pieces, [.mk p use input t.calls]⟩

end Traced

/-! ## Tracing -/

abbrev Tracing := Except RenderError Traced

namespace Tracing

def andThen (x y : Tracing) : Tracing := do
  let t ← x
  let u ← y
  return t ++ u

def forEach {α : Type} (f : α → Tracing) : List α → Tracing
  | [] => .ok .empty
  | a :: as => andThen (f a) (forEach f as)

def repeatWhile (condition : Except RenderError Bool) (body : Tracing) (limit : RenderError) :
    (times : Nat) → Tracing
  | 0 => do
    if ← condition then throw limit
    return .empty
  | n + 1 => do
    if ← condition then andThen body (repeatWhile condition body limit n) else return .empty

/-- What an extending template has for a block; of two overrides the later one counts. -/
def slotFor (name : String) : List (Override Tracing) → Option (Override Tracing)
  | [] => none
  | o :: os => (slotFor name os).or (if o.block == name then some o else none)

def fill (own : Tracing) : Option (Override Tracing) → Tracing
  | none => own
  | some o => andThen (andThen (o.before.getD (.ok .empty)) (o.replace.getD own))
      (o.after.getD (.ok .empty))

end Tracing

section
variable (limit : Nat)

mutual
def Instruction.trace (g : Setting) (slots : List (Override Tracing)) : Instruction → Tracing
  | .text s => .ok (.ofPieces [.markup s])
  | .output expr format line => do
    let v ← g.eval expr line
    return .ofPieces [.data (Html.format v format)]
  | .attr name expr escape line => do
    let v ← g.eval expr line
    return .ofPieces (Html.attr name v escape)
  | .ifElse branches otherwise => traceBranches g slots (traceOption g slots otherwise) branches
  | .whileTrue expr body line =>
    .repeatWhile (g.holds expr line) (traceAll g slots body)
      ⟨.loopLimit limit, g.filename, expr, line⟩ limit
  | .caseOf expr arms line => do
    let subject ← g.eval expr line
    traceArms g slots line subject (traceDefault g slots arms) arms
  | .each value key expr body line => do
    let list ← g.eval expr line
    Tracing.forEach (fun entry => traceAll (g.bind value key entry) slots body) list.entries
  | .block name body => .fill (traceAll g slots body) (Tracing.slotFor name slots)
  -- What the overrides call while the module runs, they call inside the call of the module.
  | .extension program options overrides _ line => do
    let input ← g.input line options
    let t ← traceProgram (traceOverrides g slots overrides) input program
    return t.called program .extension input
  | .inclusion program options _ line => do
    let input ← g.input line options
    let t ← traceProgram [] input program
    return t.called program .inclusion input
def traceAll (g : Setting) (slots : List (Override Tracing)) : List Instruction → Tracing
  | [] => .ok .empty
  | i :: is => .andThen (i.trace g slots) (traceAll g slots is)
def traceOption (g : Setting) (slots : List (Override Tracing)) :
    Option (List Instruction) → Tracing
  | some body => traceAll g slots body
  | none => .ok .empty
def traceBranches (g : Setting) (slots : List (Override Tracing)) (otherwise : Tracing) :
    List (Guarded (List Instruction)) → Tracing
  | [] => otherwise
  | ⟨expr, body, line⟩ :: bs => do
    if ← g.holds expr line then traceAll g slots body else traceBranches g slots otherwise bs
def traceArms (g : Setting) (slots : List (Override Tracing)) (line : Nat) (subject : Value)
    (default : Tracing) : List (CaseArm (List Instruction)) → Tracing
  | [] => default
  | ⟨none, _⟩ :: as => traceArms g slots line subject default as
  | ⟨some expr, body⟩ :: as => do
    let v ← g.eval expr line
    if subject.strictEq false v then traceAll g slots body
    else traceArms g slots line subject default as
def traceDefault (g : Setting) (slots : List (Override Tracing)) :
    List (CaseArm (List Instruction)) → Tracing
  | [] => .ok .empty
  | ⟨some _, _⟩ :: as => traceDefault g slots as
  | ⟨none, body⟩ :: _ => traceAll g slots body
def traceContent (g : Setting) (slots : List (Override Tracing)) :
    Option (List Instruction) → Option Tracing
  | some body => some (traceAll g slots body)
  | none => none
def traceOverrides (g : Setting) (slots : List (Override Tracing)) :
    List (Override (List Instruction)) → List (Override Tracing)
  | [] => []
  | ⟨block, before, replace, after⟩ :: os =>
    ⟨block, traceContent g slots before, traceContent g slots replace,
      traceContent g slots after⟩ :: traceOverrides g slots os
def traceProgram (slots : List (Override Tracing)) (input : Value) :
    ProgramOf (List Instruction) → Tracing
  | ⟨filename, _, _, body, _, freeNames⟩ => traceAll ⟨filename, rootScope freeNames input⟩
      slots body
end

end

def ProgramOf.trace (p : Program) (input : Value) (limit : Nat) : Tracing :=
  traceProgram limit [] input p

/-! ## Programs that record -/

section
variable (recording : Bool)

mutual
def Instruction.recorded : Instruction → Instruction
  | .text s => .text s
  | .output expr format line => .output expr format line
  | .attr name expr escape line => .attr name expr escape line
  | .ifElse branches otherwise => .ifElse (recordedBranches branches) (recordedOption otherwise)
  | .whileTrue expr body line => .whileTrue expr (recordedAll body) line
  | .caseOf expr arms line => .caseOf expr (recordedArms arms) line
  | .each value key expr body line => .each value key expr (recordedAll body) line
  | .block name body => .block name (recordedAll body)
  | .extension p options overrides _ line =>
    .extension (recordedProgram p) options (recordedOverrides overrides)
      (if recording then some (p.dependency .extension) else none) line
  | .inclusion p options _ line =>
    .inclusion (recordedProgram p) options
      (if recording then some (p.dependency .inclusion) else none) line
def recordedAll : List Instruction → List Instruction
  | [] => []
  | i :: is => i.recorded :: recordedAll is
def recordedOption : Option (List Instruction) → Option (List Instruction)
  | some body => some (recordedAll body)
  | none => none
def recordedBranches : List (Guarded (List Instruction)) → List (Guarded (List Instruction))
  | [] => []
  | ⟨expr, body, line⟩ :: bs => ⟨expr, recordedAll body, line⟩ :: recordedBranches bs
def recordedArms : List (CaseArm (List Instruction)) → List (CaseArm (List Instruction))
  | [] => []
  | ⟨expr, body⟩ :: as => ⟨expr, recordedAll body⟩ :: recordedArms as
def recordedOverrides : List (Override (List Instruction)) → List (Override (List Instruction))
  | [] => []
  | ⟨block, before, replace, after⟩ :: os =>
    ⟨block, recordedOption before, recordedOption replace, recordedOption after⟩ ::
      recordedOverrides os
def recordedProgram : ProgramOf (List Instruction) → ProgramOf (List Instruction)
  | ⟨filename, sid, name, body, blocks, free⟩ =>
    ⟨filename, sid, name, recordedAll body, blocks, free⟩
end

end

/-- A program in which all uses of modules are recorded, or none is: then all dependencies are
erased. -/
def ProgramOf.recorded (recording : Bool) (p : Program) : Program :=
  recordedProgram recording p

/-! ## What is recorded -/

section
variable {limit : Nat} {recording : Bool} {S : Program → Prop}

/-- A rendering that wrote what was traced, and recorded all calls or none. Only programs in `S`
were called. -/
structure Renders (recording : Bool) (S : Program → Prop) (r : Rendered) (t : Traced) : Prop where
  pieces : r.pieces = t.pieces
  records : r.records = if recording then (completedOf t.calls).map Call.record else []
  known : ∀ c ∈ completedOf t.calls, S c.program

theorem renders_pieces (ps : List Html.Piece) :
    Renders recording S (.ofPieces ps) (.ofPieces ps) := by
  refine ⟨rfl, ?_, nofun⟩
  cases recording <;> rfl

theorem renders_empty : Renders recording S .empty .empty :=
  renders_pieces []

theorem Renders.append {r r' : Rendered} {t t' : Traced} (h : Renders recording S r t)
    (h' : Renders recording S r' t') : Renders recording S (r ++ r') (t ++ t') where
  pieces := by
    change r.pieces ++ r'.pieces = t.pieces ++ t'.pieces
    rw [h.pieces, h'.pieces]
  records := by
    change r.records ++ r'.records =
      if recording then (completedOf (t.calls ++ t'.calls)).map _ else _
    rw [h.records, h'.records, completedOf_append, List.map_append]
    cases recording <;> rfl
  known := by
    intro c hc
    replace hc : c ∈ completedOf (t.calls ++ t'.calls) := hc
    rw [completedOf_append, List.mem_append] at hc
    exact hc.elim (h.known c) (h'.known c)

/-- The record of a call comes after those of the calls made in it. -/
theorem Renders.called {r : Rendered} {t : Traced} (h : Renders recording S r t) {p : Program}
    (hp : S p) (use : Use) (input : Value) :
    Renders recording S
      (r ++ .record (if recording then some (p.dependency use) else none) input)
      (t.called p use input) where
  pieces := by
    change r.pieces ++ [] = t.pieces
    rw [h.pieces, List.append_nil]
  records := by
    change r.records ++ _ = if recording then (completedOf [_]).map _ else _
    rw [h.records, completedOf, Call.completed, completedOf, List.append_nil, List.map_append]
    cases recording <;> rfl
  known := by
    intro c hc
    replace hc : c ∈ completedOf [.mk p use input t.calls] := hc
    rw [completedOf, Call.completed, completedOf, List.append_nil, List.mem_append,
      List.mem_singleton] at hc
    rcases hc with hc | rfl
    · exact h.known c hc
    · exact hp

abbrev Traces (recording : Bool) (S : Program → Prop) : Rendering → Tracing → Prop :=
  Parallel (Renders recording S)

theorem Traces.andThen {x y : Rendering} {u v : Tracing} (hx : Traces recording S x u)
    (hy : Traces recording S y v) :
    Traces recording S (do let r ← x; let s ← y; return r ++ s) (.andThen u v) := by
  refine hx.bind fun r t hr => ?_
  refine hy.bind fun r' t' hr' => ?_
  exact .ok (hr.append hr')

theorem traces_forEach {α : Type} {f : α → Rendering} {g : α → Tracing}
    (h : ∀ a, Traces recording S (f a) (g a)) (as : List α) :
    Traces recording S (Rendering.forEach f as) (Tracing.forEach g as) := by
  induction as with
  | nil => exact .ok renders_empty
  | cons a as ih => exact (h a).andThen ih

theorem traces_repeatWhile {condition : Except RenderError Bool} {x : Rendering} {u : Tracing}
    (h : Traces recording S x u) (e : RenderError) (times : Nat) :
    Traces recording S (Rendering.repeatWhile (fun _ => condition) (fun _ => x) e times)
      (Tracing.repeatWhile condition u e times) := by
  induction times with
  | zero =>
    refine (Parallel.same condition).bind ?_
    rintro b _ ⟨rfl, -⟩
    cases b with
    | true => exact .error e
    | false => exact .ok renders_empty
  | succ n ih =>
    refine (Parallel.same condition).bind ?_
    rintro b _ ⟨rfl, -⟩
    cases b with
    | true => exact h.andThen ih
    | false => exact .ok renders_empty

/-! ### Blocks -/

abbrev ContentTraces (recording : Bool) (S : Program → Prop) :
    Option (Unit → Rendering) → Option Tracing → Prop :=
  Option.Rel fun content u => Traces recording S (content ()) u

structure SlotTraces (recording : Bool) (S : Program → Prop) (s : Slot) (o : Override Tracing) :
    Prop where
  before : ContentTraces recording S s.before o.before
  replace : ContentTraces recording S s.replace o.replace
  after : ContentTraces recording S s.after o.after

def SlotsTrace (recording : Bool) (S : Program → Prop) (slots : String → Option Slot)
    (os : List (Override Tracing)) : Prop :=
  ∀ name, Option.Rel (SlotTraces recording S) (slots name) (Tracing.slotFor name os)

theorem slotsTrace_nil : SlotsTrace recording S noSlots [] :=
  fun _ => .none

theorem ContentTraces.run {content : Option (Unit → Rendering)} {u : Option Tracing}
    (h : ContentTraces recording S content u) :
    Traces recording S (Slot.run content) (u.getD (.ok .empty)) := by
  rw [Slot.run_eq]
  exact rel_getD h (.ok renders_empty)

theorem traces_fill {s : Option Slot} {o : Option (Override Tracing)}
    (h : Option.Rel (SlotTraces recording S) s o) {own : Unit → Rendering} {v : Tracing}
    (ho : Traces recording S (own ()) v) :
    Traces recording S (Slot.fill own s) (Tracing.fill v o) := by
  cases h with
  | none => exact ho
  | @some s o h =>
    have hcontent : Traces recording S (s.replace.getD own ()) (o.replace.getD v) :=
      rel_getD h.replace ho
    have hall := (h.before.run.andThen hcontent).andThen h.after.run
    simp only [bind_assoc, pure_bind] at hall
    exact hall

/-! ### Instructions -/

-- The induction is on instructions. Content for blocks is not a part of the block that it is run
-- for, so the frame brings along what comes of it; an extension makes that of its own overrides.
-- `S` is carried through to know in the end which programs were called.
mutual
theorem traces_run {f : Frame} {slots : List (Override Tracing)}
    (hs : SlotsTrace recording S f.slots slots) : (i : Instruction) → (∀ q ∈ i.programs, S q) →
    Traces recording S ((i.recorded recording).run rootScope limit f)
      (i.trace limit f.toSetting slots)
  | .text s, _ => .ok (renders_pieces _)
  | .output expr format line, _ => by
    rw [Instruction.recorded, Instruction.run, Instruction.trace]
    refine (Parallel.same _).bind ?_
    rintro v _ ⟨rfl, -⟩
    exact .ok (renders_pieces _)
  | .attr name expr escape line, _ => by
    rw [Instruction.recorded, Instruction.run, Instruction.trace]
    refine (Parallel.same _).bind ?_
    rintro v _ ⟨rfl, -⟩
    exact .ok (renders_pieces _)
  | .ifElse branches otherwise, hS => by
    rw [Instruction.programs, List.forall_mem_append] at hS
    rw [Instruction.recorded, Instruction.run, Instruction.trace]
    exact traces_branches hs (traces_option hs otherwise hS.2) branches hS.1
  | .whileTrue expr body line, hS => by
    rw [Instruction.recorded, Instruction.run, Instruction.trace]
    exact traces_repeatWhile (traces_runAll hs body hS) _ limit
  | .caseOf expr arms line, hS => by
    rw [Instruction.recorded, Instruction.run, Instruction.trace]
    refine (Parallel.same _).bind ?_
    rintro subject _ ⟨rfl, -⟩
    exact traces_arms hs line subject (traces_default hs arms hS) arms hS
  | .each value key expr body line, hS => by
    rw [Instruction.recorded, Instruction.run, Instruction.trace]
    refine (Parallel.same _).bind ?_
    rintro list _ ⟨rfl, -⟩
    refine traces_forEach (fun entry => ?_) list.entries
    exact traces_runAll (f := f.bind value key entry) hs body hS
  | .block name body, hS => by
    rw [Instruction.recorded, Instruction.run, Instruction.trace]
    exact traces_fill (hs name) (traces_runAll hs body hS)
  | .extension p options overrides _ line, hS => by
    rw [Instruction.programs, List.forall_mem_append] at hS
    rw [Instruction.recorded, Instruction.run, Instruction.trace]
    refine (Parallel.same _).bind ?_
    rintro input _ ⟨rfl, -⟩
    refine (traces_invoke (slotsTrace_overrides hs overrides hS.2) input p hS.1).bind ?_
    intro r t hr
    exact .ok (hr.called (hS.1 p (mem_programsFrom p)) .extension input)
  | .inclusion p options _ line, hS => by
    rw [Instruction.programs] at hS
    rw [Instruction.recorded, Instruction.run, Instruction.trace]
    refine (Parallel.same _).bind ?_
    rintro input _ ⟨rfl, -⟩
    refine (traces_invoke slotsTrace_nil input p hS).bind ?_
    intro r t hr
    exact .ok (hr.called (hS p (mem_programsFrom p)) .inclusion input)
theorem traces_runAll {f : Frame} {slots : List (Override Tracing)}
    (hs : SlotsTrace recording S f.slots slots) : (is : List Instruction) →
    (∀ q ∈ programsOf is, S q) →
    Traces recording S (runAll rootScope limit f (recordedAll recording is))
      (traceAll limit f.toSetting slots is)
  | [], _ => .ok renders_empty
  | i :: is, hS => by
    rw [programsOf, List.forall_mem_append] at hS
    rw [recordedAll, runAll, traceAll]
    exact (traces_run hs i hS.1).andThen (traces_runAll hs is hS.2)
theorem traces_option {f : Frame} {slots : List (Override Tracing)}
    (hs : SlotsTrace recording S f.slots slots) : (o : Option (List Instruction)) →
    (∀ q ∈ programsOfOption o, S q) →
    Traces recording S (runOption rootScope limit f (recordedOption recording o))
      (traceOption limit f.toSetting slots o)
  | none, _ => .ok renders_empty
  | some body, hS => by
    rw [recordedOption, runOption, traceOption]
    exact traces_runAll hs body hS
theorem traces_branches {f : Frame} {slots : List (Override Tracing)}
    (hs : SlotsTrace recording S f.slots slots) {otherwise : Unit → Rendering} {u : Tracing}
    (ho : Traces recording S (otherwise ()) u) : (bs : List (Guarded (List Instruction))) →
    (∀ q ∈ programsOfBranches bs, S q) →
    Traces recording S (runBranches rootScope limit f otherwise (recordedBranches recording bs))
      (traceBranches limit f.toSetting slots u bs)
  | [], _ => by
    rw [recordedBranches, runBranches, traceBranches]
    exact ho
  | ⟨expr, body, line⟩ :: bs, hS => by
    rw [programsOfBranches, List.forall_mem_append] at hS
    rw [recordedBranches, runBranches, traceBranches]
    refine (Parallel.same _).bind ?_
    rintro b _ ⟨rfl, -⟩
    cases b with
    | true => exact traces_runAll hs body hS.1
    | false => exact traces_branches hs ho bs hS.2
theorem traces_arms {f : Frame} {slots : List (Override Tracing)}
    (hs : SlotsTrace recording S f.slots slots) (line : Nat) (subject : Value)
    {default : Unit → Rendering} {u : Tracing} (hd : Traces recording S (default ()) u) :
    (as : List (CaseArm (List Instruction))) → (∀ q ∈ programsOfArms as, S q) →
    Traces recording S (runArms rootScope limit f line subject default (recordedArms recording as))
      (traceArms limit f.toSetting slots line subject u as)
  | [], _ => by
    rw [recordedArms, runArms, traceArms]
    exact hd
  | ⟨none, body⟩ :: as, hS => by
    rw [programsOfArms, List.forall_mem_append] at hS
    rw [recordedArms, runArms, traceArms]
    exact traces_arms hs line subject hd as hS.2
  | ⟨some expr, body⟩ :: as, hS => by
    rw [programsOfArms, List.forall_mem_append] at hS
    rw [recordedArms, runArms, traceArms]
    refine (Parallel.same _).bind ?_
    rintro v _ ⟨rfl, -⟩
    split
    · exact traces_runAll hs body hS.1
    · exact traces_arms hs line subject hd as hS.2
theorem traces_default {f : Frame} {slots : List (Override Tracing)}
    (hs : SlotsTrace recording S f.slots slots) : (as : List (CaseArm (List Instruction))) →
    (∀ q ∈ programsOfArms as, S q) →
    Traces recording S (runDefault rootScope limit f (recordedArms recording as))
      (traceDefault limit f.toSetting slots as)
  | [], _ => by
    rw [recordedArms, runDefault, traceDefault]
    exact .ok renders_empty
  | ⟨some _, body⟩ :: as, hS => by
    rw [programsOfArms, List.forall_mem_append] at hS
    rw [recordedArms, runDefault, traceDefault]
    exact traces_default hs as hS.2
  | ⟨none, body⟩ :: as, hS => by
    rw [programsOfArms, List.forall_mem_append] at hS
    rw [recordedArms, runDefault, traceDefault]
    exact traces_runAll hs body hS.1
theorem contentTraces {f : Frame} {slots : List (Override Tracing)}
    (hs : SlotsTrace recording S f.slots slots) : (o : Option (List Instruction)) →
    (∀ q ∈ programsOfOption o, S q) →
    ContentTraces recording S (content rootScope limit f (recordedOption recording o))
      (traceContent limit f.toSetting slots o)
  | none, _ => .none
  | some body, hS => by
    rw [recordedOption, content, traceContent]
    exact .some (traces_runAll hs body hS)
theorem slotsTrace_overrides {f : Frame} {slots : List (Override Tracing)}
    (hs : SlotsTrace recording S f.slots slots) : (os : List (Override (List Instruction))) →
    (∀ q ∈ programsOfOverrides os, S q) →
    SlotsTrace recording S
      (fun name => slotFor rootScope limit f name (recordedOverrides recording os))
      (traceOverrides limit f.toSetting slots os)
  | [], _ => fun _ => .none
  | ⟨block, before, replace, after⟩ :: os, hS => by
    rw [programsOfOverrides] at hS
    simp only [List.forall_mem_append] at hS
    obtain ⟨⟨⟨hbefore, hreplace⟩, hafter⟩, hrest⟩ := hS
    intro name
    dsimp only
    rw [recordedOverrides, slotFor, traceOverrides, Tracing.slotFor]
    refine rel_or (slotsTrace_overrides hs os hrest name) ?_
    dsimp only
    split
    · exact .some ⟨contentTraces hs before hbefore, contentTraces hs replace hreplace,
        contentTraces hs after hafter⟩
    · exact .none
theorem traces_invoke {slots : String → Option Slot} {os : List (Override Tracing)}
    (hs : SlotsTrace recording S slots os) (input : Value) :
    (p : ProgramOf (List Instruction)) → (∀ q ∈ programsFrom p, S q) →
    Traces recording S (invoke rootScope limit slots input (recordedProgram recording p))
      (traceProgram limit os input p)
  | ⟨filename, _, _, body, _, freeNames⟩, hS => by
    rw [programsFrom, List.forall_mem_cons] at hS
    rw [recordedProgram, invoke, traceProgram]
    exact traces_runAll (f := ⟨⟨filename, rootScope freeNames input⟩, slots⟩) hs body hS.2
end

/-- Whether a program records or not, its rendering writes what its trace has, and fails where it
fails. The calls are of programs inside it, and what is recorded are all calls, in the order in
which they are completed, or none. -/
theorem ProgramOf.traces_render (p : Program) (recording : Bool) (input : Value) (limit : Nat) :
    Traces recording (· ∈ programsOf p.instructions) ((p.recorded recording).render input limit)
      (p.trace input limit) := by
  obtain ⟨filename, sid, name, body, blocks, freeNames⟩ := p
  change Traces recording _ (invoke rootScope limit noSlots input (recordedProgram recording _))
    (traceProgram limit [] input _)
  rw [recordedProgram, invoke, traceProgram]
  exact traces_runAll (f := ⟨⟨filename, rootScope freeNames input⟩, noSlots⟩) slotsTrace_nil body
    fun q hq => hq

end

end Stencil
