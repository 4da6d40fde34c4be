import Stencil.Proofs.Result
import Stencil.Render.Run

/-! # Rendering one step at a time

A machine that renders with a stack of what is left to do. Where a frame holds finished renderings
for its blocks, the machine holds closures: a body and the frame it was written in. A block
therefore leaves the program that is being run for a body outside of it, and nothing in the machine
says that this comes to an end. That it does, with the result of rendering, is `Machine.halts`. -/

namespace Stencil

namespace Machine

/-- A body with the frame it runs in: its setting, and the closures that an extending template has
for the blocks. -/
inductive Closure where
  | mk (setting : Setting) (slots : List (Override Closure)) (body : List Instruction)

/-- What a step has written: an instruction and the value of its expression, or the use of a
module. -/
inductive Written where
  | text (literal : String)
  | output (expr : String) (format : Format) (line : Nat) (value : Value)
  | attr (name expr : String) (escape : Bool) (line : Nat) (value : Value)
  | used (dependency : Option Dependency) (input : Value)

inductive Task where
  | run (c : Closure)
  /-- Test the condition of a loop that may go on for so many more rounds. -/
  | loop (c : Closure) (expr : String) (line : Nat) (times : Nat)
  | record (dependency : Option Dependency) (input : Value)

inductive State where
  | running (written : List Written) (tasks : List Task)
  | halted (result : Except RenderError (List Written))

def Written.pieces : Written → List Html.Piece
  | .text s => [.markup s]
  | .output _ format _ v => [.data (Html.format v format)]
  | .attr name _ escape _ v => Html.attr name v escape
  | .used _ _ => []

def Written.records : Written → List Record
  | .used dependency input => dependency.toList.map fun d => ⟨d, input⟩
  | _ => []

def rendered (ws : List Written) : Rendered :=
  ⟨ws.flatMap Written.pieces, ws.flatMap Written.records⟩

theorem rendered_append (us vs : List Written) :
    rendered (us ++ vs) = rendered us ++ rendered vs := by
  simp [rendered, Rendered.append_def]

/-! ## Steps -/

def chosenBranch (g : Setting) :
    List (Guarded (List Instruction)) → Except RenderError (Option (List Instruction))
  | [] => .ok none
  | ⟨expr, body, line⟩ :: bs => do
    if ← g.holds expr line then return some body else chosenBranch g bs

def chosenArm (g : Setting) (line : Nat) (subject : Value) :
    List (CaseArm (List Instruction)) → Except RenderError (Option (List Instruction))
  | [] => .ok none
  | ⟨none, _⟩ :: as => chosenArm g line subject as
  | ⟨some expr, body⟩ :: as => do
    let v ← g.eval expr line
    if subject.strictEq false v then return some body else chosenArm g line subject as

def defaultArm : List (CaseArm (List Instruction)) → Option (List Instruction)
  | [] => none
  | ⟨some _, _⟩ :: as => defaultArm as
  | ⟨none, body⟩ :: _ => some body

def slotOf (name : String) : List (Override Closure) → Option (Override Closure)
  | [] => none
  | o :: os => (slotOf name os).or (if o.block == name then some o else none)

def blockCalls (own : Closure) : Option (Override Closure) → List Closure
  | none => [own]
  | some o => o.before.toList ++ [o.replace.getD own] ++ o.after.toList

def closed (g : Setting) (slots : List (Override Closure)) (o : Override (List Instruction)) :
    Override Closure :=
  ⟨o.block, o.before.map (.mk g slots), o.replace.map (.mk g slots), o.after.map (.mk g slots)⟩

def entered (slots : List (Override Closure)) (input : Value) : Program → Closure
  | ⟨filename, _, _, body, _, freeNames⟩ => .mk ⟨filename, rootScope freeNames input⟩ slots body

def enter (limit : Nat) (g : Setting) (slots : List (Override Closure)) :
    Instruction → Except RenderError (List Written × List Task)
  | .text s => .ok ([.text s], [])
  | .output expr format line => do
    let v ← g.eval expr line
    return ([.output expr format line v], [])
  | .attr name expr escape line => do
    let v ← g.eval expr line
    return ([.attr name expr escape line v], [])
  | .ifElse branches otherwise => do
    let body ← chosenBranch g branches
    return ([], (body.or otherwise).toList.map fun b => .run (.mk g slots b))
  | .whileTrue expr body line => .ok ([], [.loop (.mk g slots body) expr line limit])
  | .caseOf expr arms line => do
    let subject ← g.eval expr line
    let body ← chosenArm g line subject arms
    return ([], (body.or (defaultArm arms)).toList.map fun b => .run (.mk g slots b))
  | .each value key expr body line => do
    let list ← g.eval expr line
    return ([], list.entries.map fun entry => .run (.mk (g.bind value key entry) slots body))
  | .block name body => .ok ([], (blockCalls (.mk g slots body) (slotOf name slots)).map .run)
  | .extension program options overrides dependency line => do
    let input ← g.input line options
    return ([], [.run (entered (overrides.map (closed g slots)) input program),
      .record dependency input])
  | .inclusion program options dependency line => do
    let input ← g.input line options
    return ([], [.run (entered [] input program), .record dependency input])

def Task.proceed (limit : Nat) : Task → Except RenderError (List Written × List Task)
  | .run (.mk _ _ []) => .ok ([], [])
  | .run (.mk g slots (i :: is)) => do
    let (ws, calls) ← enter limit g slots i
    return (ws, calls ++ [.run (.mk g slots is)])
  | .loop (.mk g slots body) expr line times => do
    if ← g.holds expr line then
      match times with
      | 0 => throw ⟨.loopLimit limit, g.filename, expr, line⟩
      | n + 1 => return ([], [.run (.mk g slots body), .loop (.mk g slots body) expr line n])
    else return ([], [])
  | .record dependency input => .ok ([.used dependency input], [])

def step (limit : Nat) : State → State
  | .halted r => .halted r
  | .running w [] => .halted (.ok w)
  | .running w (t :: ts) => match t.proceed limit with
    | .error e => .halted (.error e)
    | .ok (ws, calls) => .running (w ++ ws) (calls ++ ts)

def advance (limit : Nat) : (steps : Nat) → State → State
  | 0, s => s
  | n + 1, s => advance limit n (step limit s)

def start (p : Program) (input : Value) : State :=
  .running [] [.run (entered [] input p)]

theorem advance_add (limit m n : Nat) (s : State) :
    advance limit (m + n) s = advance limit n (advance limit m s) := by
  induction m generalizing s with
  | zero => rw [Nat.zero_add]; rfl
  | succ m ih =>
    rw [Nat.succ_add]
    exact ih (step limit s)

theorem advance_halted (limit n : Nat) (r : Except RenderError (List Written)) :
    advance limit n (.halted r) = .halted r := by
  induction n with
  | zero => rfl
  | succ n ih => exact ih

/-! ## Tasks that come to an end -/

section
variable {limit : Nat}

/-- The state in which tasks leave the machine: what lies below them is next, or they have
failed. -/
def State.after (written : List Written) (below : List Task) :
    Except RenderError (List Written) → State
  | .ok ws => .running (written ++ ws) below
  | .error e => .halted (.error e)

/-- The tasks end, wherever they stand on the stack, and what they have written by then is the given
rendering. -/
def Ends (limit : Nat) (ts : List Task) (x : Rendering) : Prop :=
  ∃ r, r.map rendered = x ∧
    ∀ w below, ∃ n, advance limit n (.running w (ts ++ below)) = .after w below r

theorem ends_nil : Ends limit [] (.ok .empty) := by
  refine ⟨.ok [], rfl, ?_⟩
  intro w below
  refine ⟨0, ?_⟩
  simp [advance, State.after]

theorem Ends.append {ts us : List Task} {x y : Rendering} (hx : Ends limit ts x)
    (hy : Ends limit us y) : Ends limit (ts ++ us) (do let r ← x; let s ← y; return r ++ s) := by
  obtain ⟨a, rfl, ha⟩ := hx
  obtain ⟨b, rfl, hb⟩ := hy
  cases a with
  | error e =>
    refine ⟨.error e, rfl, ?_⟩
    intro w below
    rw [List.append_assoc]
    exact ha w (us ++ below)
  | ok ws =>
    refine ⟨b.map (ws ++ ·), ?_, ?_⟩
    · cases b with
      | error e => rfl
      | ok vs => exact congrArg Except.ok (rendered_append ws vs)
    · intro w below
      obtain ⟨m, hm⟩ := ha w (us ++ below)
      obtain ⟨n, hn⟩ := hb (w ++ ws) below
      refine ⟨m + n, ?_⟩
      rw [List.append_assoc, advance_add, hm]
      rw [State.after, hn]
      cases b with
      | error e => rfl
      | ok vs => simp [State.after, Except.map]

def Enters (limit : Nat) (first : Except RenderError (List Written × List Task)) (x : Rendering) :
    Prop :=
  match first with
  | .error e => x = .error e
  | .ok (ws, calls) => ∃ y, Ends limit calls y ∧ x = do let s ← y; return rendered ws ++ s

theorem Enters.writes {ws : List Written} : Enters limit (.ok (ws, [])) (.ok (rendered ws)) := by
  refine ⟨.ok .empty, ends_nil, ?_⟩
  exact congrArg Except.ok (Rendered.append_empty _).symm

theorem Enters.calls {calls : List Task} {x : Rendering} (h : Ends limit calls x) :
    Enters limit (.ok ([], calls)) x := by
  refine ⟨x, h, ?_⟩
  cases x with
  | error e => rfl
  | ok r => exact congrArg Except.ok (Rendered.empty_append r).symm

theorem Enters.bind {α : Type} {x : Except RenderError α}
    {first : α → Except RenderError (List Written × List Task)} {f : α → Rendering}
    (h : ∀ a, x = .ok a → Enters limit (first a) (f a)) : Enters limit (x >>= first) (x >>= f) := by
  cases x with
  | error e => rfl
  | ok a => exact h a rfl

theorem ends_of_proceed {t : Task} {x : Rendering} (h : Enters limit (t.proceed limit) x) :
    Ends limit [t] x := by
  cases hp : t.proceed limit with
  | error e =>
    rw [hp] at h
    refine ⟨.error e, h.symm, ?_⟩
    intro w below
    refine ⟨1, ?_⟩
    simp only [advance, step, List.singleton_append, hp]
    rfl
  | ok first =>
    obtain ⟨ws, calls⟩ := first
    rw [hp] at h
    obtain ⟨y, ⟨r, rfl, hr⟩, rfl⟩ := h
    refine ⟨r.map (ws ++ ·), ?_, ?_⟩
    · cases r with
      | error e => rfl
      | ok vs => exact congrArg Except.ok (rendered_append ws vs)
    · intro w below
      obtain ⟨n, hn⟩ := hr (w ++ ws) below
      refine ⟨n + 1, ?_⟩
      rw [advance, List.singleton_append, step, hp]
      dsimp only
      rw [hn]
      cases r with
      | error e => rfl
      | ok vs => simp [State.after, Except.map]

theorem ends_record (dependency : Option Dependency) (input : Value) :
    Ends limit [.record dependency input] (.ok (.record dependency input)) := by
  refine ends_of_proceed ?_
  have h : rendered [.used dependency input] = .record dependency input := by
    simp [rendered, Rendered.record, Written.pieces, Written.records]
  rw [← h]
  exact Enters.writes

theorem ends_forEach {α : Type} {call : α → Task} {f : α → Rendering}
    (h : ∀ a, Ends limit [call a] (f a)) (as : List α) :
    Ends limit (as.map call) (Rendering.forEach f as) := by
  induction as with
  | nil => exact ends_nil
  | cons a as ih => exact (h a).append ih

theorem ends_loop {g : Setting} {slots : List (Override Closure)} {body : List Instruction}
    {x : Rendering} (h : Ends limit [.run (.mk g slots body)] x) (expr : String)
    (line times : Nat) :
    Ends limit [.loop (.mk g slots body) expr line times]
      (Rendering.repeatWhile (fun _ => g.holds expr line) (fun _ => x)
        ⟨.loopLimit limit, g.filename, expr, line⟩ times) := by
  induction times with
  | zero =>
    refine ends_of_proceed (Enters.bind ?_)
    intro b _
    cases b with
    | true => rfl
    | false => exact Enters.calls ends_nil
  | succ n ih =>
    refine ends_of_proceed (Enters.bind ?_)
    intro b _
    cases b with
    | true => exact Enters.calls (h.append ih)
    | false => exact Enters.calls ends_nil

/-! ## Closures and the renderings they stand for -/

def ContentEnds (limit : Nat) : Option Closure → Option (Unit → Rendering) → Prop
  | none, none => True
  | some c, some content => Ends limit [.run c] (content ())
  | _, _ => False

def SlotEnds (limit : Nat) : Option (Override Closure) → Option Slot → Prop
  | none, none => True
  | some o, some s => ContentEnds limit o.before s.before ∧ ContentEnds limit o.replace s.replace ∧
      ContentEnds limit o.after s.after
  | _, _ => False

def SlotsEnd (limit : Nat) (slots : List (Override Closure)) (s : String → Option Slot) : Prop :=
  ∀ name, SlotEnds limit (slotOf name slots) (s name)

theorem slotsEnd_nil : SlotsEnd limit [] noSlots :=
  fun _ => trivial

theorem ContentEnds.run {c : Option Closure} {content : Option (Unit → Rendering)}
    (h : ContentEnds limit c content) : Ends limit (c.toList.map .run) (Slot.run content) := by
  cases c with
  | none => cases content with
    | none => exact ends_nil
    | some _ => exact h.elim
  | some c => cases content with
    | none => exact h.elim
    | some _ => exact h

theorem ContentEnds.getD {c : Option Closure} {content : Option (Unit → Rendering)}
    (h : ContentEnds limit c content) {own : Closure} {f : Unit → Rendering}
    (ho : Ends limit [.run own] (f ())) : Ends limit [.run (c.getD own)] (content.getD f ()) := by
  cases c with
  | none => cases content with
    | none => exact ho
    | some _ => exact h.elim
  | some c => cases content with
    | none => exact h.elim
    | some _ => exact h

theorem SlotEnds.fill {o : Option (Override Closure)} {s : Option Slot} (h : SlotEnds limit o s)
    {own : Closure} {f : Unit → Rendering} (ho : Ends limit [.run own] (f ())) :
    Ends limit ((blockCalls own o).map .run) (Slot.fill f s) := by
  cases o with
  | none => cases s with
    | none => exact ho
    | some _ => exact h.elim
  | some o => cases s with
    | none => exact h.elim
    | some s =>
      obtain ⟨hb, hr, ha⟩ := h
      have hall := (hb.run.append (hr.getD ho)).append ha.run
      rw [blockCalls, List.map_append, List.map_append]
      -- The three renderings are joined from the left here and one by one in `Slot.fill`.
      have hjoin : Slot.fill f (some s) = (do
          let r ← (do
            let before ← Slot.run s.before
            let content ← s.replace.getD f ()
            return before ++ content)
          let after ← Slot.run s.after
          return r ++ after) := by
        simp only [Slot.fill, bind_assoc, pure_bind]
      rw [hjoin]
      exact hall

theorem slotEnds_or {o o' : Option (Override Closure)} {s s' : Option Slot}
    (h : SlotEnds limit o s) (h' : SlotEnds limit o' s') :
    SlotEnds limit (o.or o') (s.or s') := by
  cases o with
  | none => cases s with
    | none => exact h'
    | some _ => exact h.elim
  | some o => cases s with
    | none => exact h.elim
    | some s => exact h

/-! ## Instructions -/

-- Bodies, overrides and programs are parts of the instructions that hold them, so the induction is
-- on instructions. The closures of a frame are not: that they end is what the frame brings along,
-- and an extension, whose closures are made of its own overrides, passes it on.
mutual
theorem enters_run {f : Frame} {slots : List (Override Closure)}
    (hs : SlotsEnd limit slots f.slots) :
    (i : Instruction) → Enters limit (enter limit f.toSetting slots i) (i.run rootScope limit f)
  | .text s => Enters.writes
  | .output expr format line => by
    rw [Instruction.run]
    refine Enters.bind ?_
    intro v _
    exact Enters.writes
  | .attr name expr escape line => by
    rw [Instruction.run]
    refine Enters.bind ?_
    intro v _
    have h : rendered [.attr name expr escape line v] = .ofPieces (Html.attr name v escape) := by
      simp [rendered, Rendered.ofPieces, Written.pieces, Written.records]
    exact h ▸ Enters.writes
  | .ifElse branches otherwise => by
    rw [Instruction.run]
    exact enters_branches hs (ends_otherwise hs otherwise) branches
  | .whileTrue expr body line => by
    rw [Instruction.run]
    exact Enters.calls (ends_loop (ends_runAll hs body) expr line limit)
  | .caseOf expr arms line => by
    rw [Instruction.run]
    refine Enters.bind ?_
    intro subject _
    exact enters_arms hs line subject (ends_default hs arms) arms
  | .each value key expr body line => by
    rw [Instruction.run]
    refine Enters.bind ?_
    intro list _
    refine Enters.calls (ends_forEach ?_ list.entries)
    intro entry
    exact ends_runAll (f := f.bind value key entry) hs body
  | .block name body => by
    rw [Instruction.run]
    exact Enters.calls ((hs name).fill (ends_runAll hs body))
  | .extension program options overrides dependency line => by
    rw [Instruction.run]
    refine Enters.bind ?_
    intro input _
    have hslots := slotsEnd_closed hs overrides
    exact Enters.calls ((ends_invoke hslots input program).append (ends_record dependency input))
  | .inclusion program options dependency line => by
    rw [Instruction.run]
    refine Enters.bind ?_
    intro input _
    exact Enters.calls ((ends_invoke slotsEnd_nil input program).append
      (ends_record dependency input))
theorem ends_runAll {f : Frame} {slots : List (Override Closure)}
    (hs : SlotsEnd limit slots f.slots) :
    (is : List Instruction) →
    Ends limit [.run (.mk f.toSetting slots is)] (runAll rootScope limit f is)
  | [] => by
    rw [runAll]
    exact ends_of_proceed (Enters.calls ends_nil)
  | i :: is => by
    have hi := enters_run hs i
    have his := ends_runAll hs is
    rw [runAll]
    refine ends_of_proceed ?_
    rw [Task.proceed]
    cases he : enter limit f.toSetting slots i with
    | error e =>
      rw [he] at hi
      rw [show i.run rootScope limit f = .error e from hi]
      rfl
    | ok first =>
      obtain ⟨ws, calls⟩ := first
      rw [he] at hi
      obtain ⟨y, hy, hi⟩ := hi
      refine ⟨_, hy.append his, ?_⟩
      rw [hi]
      simp only [bind_assoc, pure_bind, Rendered.append_assoc]
theorem ends_otherwise {f : Frame} {slots : List (Override Closure)}
    (hs : SlotsEnd limit slots f.slots) : (o : Option (List Instruction)) →
    Ends limit (o.toList.map fun b => .run (.mk f.toSetting slots b))
      (runOption rootScope limit f o)
  | none => by
    rw [runOption]
    exact ends_nil
  | some body => by
    rw [runOption]
    exact ends_runAll hs body
theorem enters_branches {f : Frame} {slots : List (Override Closure)}
    (hs : SlotsEnd limit slots f.slots) {o : Option (List Instruction)} {other : Unit → Rendering}
    (ho : Ends limit (o.toList.map fun b => .run (.mk f.toSetting slots b)) (other ())) :
    (bs : List (Guarded (List Instruction))) →
    Enters limit (do
        let body ← chosenBranch f.toSetting bs
        return ([], (body.or o).toList.map fun b => .run (.mk f.toSetting slots b)))
      (runBranches rootScope limit f other bs)
  | [] => by
    rw [runBranches]
    exact Enters.calls ho
  | ⟨expr, body, line⟩ :: bs => by
    rw [runBranches, chosenBranch, bind_assoc]
    refine Enters.bind ?_
    intro b _
    cases b with
    | true => exact Enters.calls (ends_runAll hs body)
    | false => exact enters_branches hs ho bs
theorem enters_arms {f : Frame} {slots : List (Override Closure)}
    (hs : SlotsEnd limit slots f.slots) (line : Nat) (subject : Value)
    {o : Option (List Instruction)} {default : Unit → Rendering}
    (hd : Ends limit (o.toList.map fun b => .run (.mk f.toSetting slots b)) (default ())) :
    (as : List (CaseArm (List Instruction))) →
    Enters limit (do
        let body ← chosenArm f.toSetting line subject as
        return ([], (body.or o).toList.map fun b => .run (.mk f.toSetting slots b)))
      (runArms rootScope limit f line subject default as)
  | [] => by
    rw [runArms]
    exact Enters.calls hd
  | ⟨none, body⟩ :: as => by
    rw [runArms, chosenArm]
    exact enters_arms hs line subject hd as
  | ⟨some expr, body⟩ :: as => by
    rw [runArms, chosenArm, bind_assoc]
    refine Enters.bind ?_
    intro v _
    by_cases hv : subject.strictEq false v = true
    · rw [if_pos hv, if_pos hv]
      exact Enters.calls (ends_runAll hs body)
    · rw [if_neg hv, if_neg hv]
      exact enters_arms hs line subject hd as
theorem ends_default {f : Frame} {slots : List (Override Closure)}
    (hs : SlotsEnd limit slots f.slots) : (as : List (CaseArm (List Instruction))) →
    Ends limit ((defaultArm as).toList.map fun b => .run (.mk f.toSetting slots b))
      (runDefault rootScope limit f as)
  | [] => by
    rw [runDefault]
    exact ends_nil
  | ⟨some _, body⟩ :: as => by
    rw [runDefault]
    exact ends_default hs as
  | ⟨none, body⟩ :: as => by
    rw [runDefault]
    exact ends_runAll hs body
theorem contentEnds_closed {f : Frame} {slots : List (Override Closure)}
    (hs : SlotsEnd limit slots f.slots) : (o : Option (List Instruction)) →
    ContentEnds limit (o.map (.mk f.toSetting slots)) (content rootScope limit f o)
  | none => trivial
  | some body => by
    rw [content]
    exact ends_runAll hs body
theorem slotsEnd_closed {f : Frame} {slots : List (Override Closure)}
    (hs : SlotsEnd limit slots f.slots) : (os : List (Override (List Instruction))) →
    SlotsEnd limit (os.map (closed f.toSetting slots))
      (fun name => slotFor rootScope limit f name os)
  | [] => fun _ => trivial
  | ⟨block, before, replace, after⟩ :: os => by
    intro name
    change SlotEnds limit _ (slotFor rootScope limit f name _)
    rw [slotFor]
    refine slotEnds_or (slotsEnd_closed hs os name) ?_
    rw [show (closed f.toSetting slots ⟨block, before, replace, after⟩).block = block from rfl]
    by_cases hb : (block == name) = true
    · rw [if_pos hb, if_pos hb]
      exact ⟨contentEnds_closed hs before, contentEnds_closed hs replace,
        contentEnds_closed hs after⟩
    · rw [if_neg hb, if_neg hb]
      exact trivial
theorem ends_invoke {slots : List (Override Closure)} {s : String → Option Slot}
    (hs : SlotsEnd limit slots s) (input : Value) : (p : ProgramOf (List Instruction)) →
    Ends limit [.run (entered slots input p)] (invoke rootScope limit s input p)
  | ⟨filename, _, _, body, _, freeNames⟩ => by
    rw [invoke]
    exact ends_runAll (f := ⟨⟨filename, rootScope freeNames input⟩, s⟩) hs body
end

end

/-- **Rendering terminates.** From the start of any program the machine comes to a halt, with the
pages that the program renders or with the error it fails with, and stays there. -/
theorem halts (p : Program) (input : Value) (limit : Nat) :
    ∃ steps r, (∀ more, advance limit (steps + more) (start p input) = .halted r) ∧
      r.map rendered = p.render input limit := by
  have hends : Ends limit [.run (entered [] input p)] (p.render input limit) :=
    ends_invoke slotsEnd_nil input p
  obtain ⟨r, hr, h⟩ := hends
  obtain ⟨n, hn⟩ := h [] []
  refine ⟨n + 1, r, ?_, hr⟩
  intro more
  have hstart : start p input = .running [] ([.run (entered [] input p)] ++ []) := rfl
  rw [advance_add, advance_add, hstart, hn]
  cases r with
  | error e => exact advance_halted limit more (.error e)
  | ok ws => exact advance_halted limit more (.ok ws)

end Machine

end Stencil
