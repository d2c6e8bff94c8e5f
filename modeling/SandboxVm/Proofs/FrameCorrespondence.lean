import SandboxVm.Proofs.CompiledSupply
import SandboxVm.Proofs.EngineTrace
import SandboxVm.Proofs.Observation
import SandboxVm.Proofs.ProgramStack

namespace SandboxVm.Proofs.FrameCorrespondence

open SandboxVm.Proofs.LoadedModule
open SandboxVm.Proofs.InterpretedInstruction
open SandboxVm.Proofs.EngineTrace
open SandboxVm.Proofs.ProgramStack
open SandboxVm.Proofs.Observation

/-- The stores agree on what both ways of running code make use of. -/
structure SameStore (s s' : Store) : Prop where
  arena : s.arena = s'.arena
  programStack : s.programStack = s'.programStack
  callLevel : s.callLevel = s'.callLevel
  trace : withoutPast s.trace = withoutPast s'.trace

/-- The operand stack holds the operands, the latest first, from slot `base` up. -/
def HoldsOperands (s : Store) (base : Nat) : List Word → Prop
  | [] => True
  | x :: rest => s.operand? (base + rest.length) = some x ∧ HoldsOperands s base rest

/-- The frame is behind an `enter`, with the operands that the depth at its index
accounts for. -/
def Sized (m : Module) (f : Native.Frame) : Prop :=
  ∃ inst, m.code[f.pc]? = some inst ∧ inst.op ≠ .enter ∧
    inst.depth = 4 * (f.operands.length : Int)

def answered (f : Native.Frame) (value : Word) : Native.Frame :=
  { f with operands := value :: f.operands }

/-- Compiled frames and interpreted ones that wait for a procedure to return to
`returnTo`, with `sp` operands on the stack and the program stack at `ps`. The
call they belong to has found `bottom` operands. -/
inductive WaitsAlike (m : Module) (s : Store) (bottom : Nat) : (sp : Nat) → (ps : Word) →
    (returnTo : Option Nat) → List Native.Frame → List Frame → Prop where
  | entry {ps : Word} : WaitsAlike m s bottom bottom ps none [] []
  | inner {sp : Nat} {ps : Word} {g : Native.Frame} {callers : List Native.Frame} {frame : Frame}
      {frames : List Frame} (hrest : WaitsAlike m s bottom sp ps frame.returnTo callers frames)
      (hprocedure : frame.procedure = g.procedure)
      (hholds : HoldsOperands s sp g.operands) (hsized : ∀ value, Sized m (answered g value))
      (hps : g.ps = ps - g.procedure.frameSize) :
      WaitsAlike m s bottom (sp + g.operands.length) g.ps (some g.pc) (g :: callers)
        (frame :: frames)

/-- The compiled frame `f` and its callers are where the interpreted code `a` is,
with the operands of `f` above slot `base`. -/
structure RunsAlike (m : Module) (s : Store) (bottom base : Nat) (ps : Word) (f : Native.Frame)
    (callers : List Native.Frame) (a : Activation) : Prop where
  pc_eq : f.pc = a.pc
  ps_eq : f.ps = a.ps
  frame_ps : f.ps = ps - f.procedure.frameSize
  sp_eq : a.sp = base + f.operands.length
  sized : Sized m f
  holds : HoldsOperands s base f.operands
  callers : ∃ frame rest, a.frames = frame :: rest ∧ frame.procedure = f.procedure ∧
    WaitsAlike m s bottom base ps frame.returnTo callers rest

/-- Compiled code and interpreted code that wait for a host service. The operand
that asked for it is still on the stack of interpreted code. -/
def ServedAlike (m : Module) (s : Store) (bottom : Nat) (b : Native.Activation)
    (a : Activation) : Prop :=
  ∃ sp, a.sp = sp + 1 ∧ WaitsAlike m s bottom sp a.ps (some (a.pc + 1)) b.frames a.frames

theorem withoutPast_eq_iff {t t' : CallTrace} : withoutPast t = withoutPast t' ↔
    t.entries = t'.entries ∧ t.capacity = t'.capacity ∧ t.depth = t'.depth := by
  simp [withoutPast]

theorem withoutPast_push {t t' : CallTrace} (h : withoutPast t = withoutPast t')
    (procedure : Nat) : withoutPast (t.push procedure) = withoutPast (t'.push procedure) := by
  obtain ⟨hentries, hcapacity, hdepth⟩ := withoutPast_eq_iff.mp h
  simp only [withoutPast, CallTrace.push, hentries, hcapacity, hdepth]

theorem withoutPast_truncate {t t' : CallTrace} (h : withoutPast t = withoutPast t')
    (depth : Nat) : withoutPast (t.truncate depth) = withoutPast (t'.truncate depth) := by
  have hdepth := (withoutPast_eq_iff.mp h).2.2
  unfold CallTrace.truncate
  rw [hdepth]
  split
  · obtain ⟨hentries, hcapacity, -⟩ := withoutPast_eq_iff.mp h
    simp only [withoutPast, hentries, hcapacity]
  · exact h

section

variable {s s' : Store} (h : SameStore s s')

include h

theorem SameStore.depth_eq : s.trace.depth = s'.trace.depth := (withoutPast_eq_iff.mp h.trace).2.2

theorem SameStore.write (width : Width) (addr value : Word) :
    SameStore (s.write width addr value) (s'.write width addr value) := by
  refine ⟨?_, ?_, ?_, ?_⟩
  · simp only [Store.write, h.arena]
  · simp only [Store.write, h.programStack]
  · simp only [Store.write, h.callLevel]
  · simp only [Store.write, h.trace]

theorem SameStore.note_left (level : LogLevel) (message : Unit → String) :
    SameStore (s.note level message) s' := by
  refine ⟨?_, ?_, ?_, ?_⟩
  · rw [note_arena, h.arena]
  · rw [note_programStack, h.programStack]
  · rw [note_callLevel, h.callLevel]
  · rw [note_trace, h.trace]

theorem SameStore.note_right (level : LogLevel) (message : Unit → String) :
    SameStore s (s'.note level message) := by
  refine ⟨?_, ?_, ?_, ?_⟩
  · rw [note_arena, h.arena]
  · rw [note_programStack, h.programStack]
  · rw [note_callLevel, h.callLevel]
  · rw [note_trace, h.trace]

theorem SameStore.setOperand (slot : Nat) (value : Word) :
    SameStore s (s'.setOperand slot value) :=
  ⟨h.arena, h.programStack, h.callLevel, h.trace⟩

theorem SameStore.publish (ps : Word) (top : Nat) :
    SameStore { s with programStack := ps } { s' with programStack := ps, operandTop := top } :=
  ⟨h.arena, rfl, h.callLevel, h.trace⟩

theorem SameStore.leaveCall : SameStore s.leaveCall s'.leaveCall := by
  refine ⟨h.arena, h.programStack, h.callLevel, ?_⟩
  simp only [Store.leaveCall, CallTrace.pop, h.depth_eq]
  exact withoutPast_truncate h.trace _

end

section

variable {s s' : Store} {base : Nat} {operands : List Word}

theorem HoldsOperands.of_same (h : HoldsOperands s base operands)
    (hsame : ∀ slot, slot < base + operands.length → s'.operand? slot = s.operand? slot) :
    HoldsOperands s' base operands := by
  induction operands with
  | nil => exact True.intro
  | cons x rest ih =>
      simp only [List.length_cons] at hsame
      refine ⟨?_, ih h.2 fun slot hslot => hsame slot (by omega)⟩
      rw [hsame _ (by omega), h.1]

theorem HoldsOperands.set (h : HoldsOperands s base operands)
    (hroom : base + operands.length < s.operands.size) (value : Word) :
    HoldsOperands (s.setOperand (base + operands.length) value) base (value :: operands) := by
  refine ⟨setOperand_operand? s hroom value, h.of_same fun slot hslot => ?_⟩
  exact setOperand_operand?_ne s (by omega) value

theorem HoldsOperands.of_append {taken : List Word} (h : HoldsOperands s base (taken ++ operands)) :
    HoldsOperands s base operands := by
  induction taken with
  | nil => exact h
  | cons x taken ih => exact ih h.2

theorem lt_size_of_operand? {slot : Nat} {x : Word} (h : s.operand? slot = some x) :
    slot < s.operands.size :=
  (Array.getElem?_eq_some_iff.mp h).1

theorem HoldsOperands.lt_size (h : HoldsOperands s base operands) {i : Nat}
    (hi : i < operands.length) : base + i < s.operands.size := by
  induction operands with
  | nil => exact absurd hi (Nat.not_lt_zero i)
  | cons x rest ih =>
      rcases Nat.lt_succ_iff_lt_or_eq.mp hi with hlt | rfl
      · exact ih h.2 hlt
      · exact lt_size_of_operand? h.1

end

section

variable {m : Module} {s s' : Store} {bottom sp : Nat} {ps : Word} {returnTo : Option Nat}
  {callers : List Native.Frame} {frames : List Frame}

theorem WaitsAlike.of_same (h : WaitsAlike m s bottom sp ps returnTo callers frames)
    (hsame : ∀ slot, slot < sp → s'.operand? slot = s.operand? slot) :
    WaitsAlike m s' bottom sp ps returnTo callers frames := by
  induction h with
  | entry => exact .entry
  | inner hrest hprocedure hholds hsized hps ih =>
      exact .inner (ih fun slot hslot => hsame slot (by omega)) hprocedure (hholds.of_same hsame)
        hsized hps

theorem ServedAlike.of_same {b : Native.Activation} {a : Activation}
    (h : ServedAlike m s bottom b a)
    (hsame : ∀ slot, slot + 1 < a.sp → s'.operand? slot = s.operand? slot) :
    ServedAlike m s' bottom b a := by
  obtain ⟨sp, hsp, hwaits⟩ := h
  exact ⟨sp, hsp, hwaits.of_same fun slot hslot => hsame slot (by omega)⟩

theorem WaitsAlike.length_eq (h : WaitsAlike m s bottom sp ps returnTo callers frames) :
    callers.length = frames.length := by
  induction h with
  | entry => rfl
  | inner hrest hprocedure hholds hsized hps ih => simp [ih]

theorem ServedAlike.length_eq {b : Native.Activation} {a : Activation}
    (h : ServedAlike m s bottom b a) : b.frames.length = a.frames.length := by
  obtain ⟨sp, -, hwaits⟩ := h
  exact hwaits.length_eq

theorem WaitsAlike.bottom_le (h : WaitsAlike m s bottom sp ps returnTo callers frames) :
    bottom ≤ sp := by
  induction h with
  | entry => exact Nat.le_refl _
  | inner hrest hprocedure hholds hsized hps ih => exact Nat.le_trans ih (Nat.le_add_right _ _)

theorem ServedAlike.bottom_lt {b : Native.Activation} {a : Activation}
    (h : ServedAlike m s bottom b a) : bottom < a.sp := by
  obtain ⟨sp, hsp, hwaits⟩ := h
  have := hwaits.bottom_le
  omega

variable {base : Nat} {f : Native.Frame} {a : Activation}

theorem RunsAlike.of_same (h : RunsAlike m s bottom base ps f callers a)
    (hsame : ∀ slot, slot < a.sp → s'.operand? slot = s.operand? slot) :
    RunsAlike m s' bottom base ps f callers a := by
  obtain ⟨frame, rest, hframes, hprocedure, hwaits⟩ := h.callers
  have hsp := h.sp_eq
  refine ⟨h.pc_eq, h.ps_eq, h.frame_ps, hsp, h.sized, h.holds.of_same fun slot hslot => ?_,
    frame, rest, hframes, hprocedure, hwaits.of_same fun slot hslot => ?_⟩
  · exact hsame slot (by omega)
  · exact hsame slot (by omega)

theorem RunsAlike.length_eq (h : RunsAlike m s bottom base ps f callers a) :
    (f :: callers).length = a.frames.length := by
  obtain ⟨frame, rest, hframes, -, hwaits⟩ := h.callers
  rw [hframes, List.length_cons, List.length_cons, hwaits.length_eq]

theorem RunsAlike.bottom_le (h : RunsAlike m s bottom base ps f callers a) : bottom ≤ base := by
  obtain ⟨frame, rest, -, -, hwaits⟩ := h.callers
  exact hwaits.bottom_le

theorem RunsAlike.waits (h : RunsAlike m s bottom base ps f callers a) {g : Native.Frame}
    (hprocedure : g.procedure = f.procedure) (hps : g.ps = f.ps)
    (hholds : HoldsOperands s base g.operands) (hsized : ∀ value, Sized m (answered g value)) :
    WaitsAlike m s bottom (base + g.operands.length) a.ps (some g.pc) (g :: callers) a.frames := by
  obtain ⟨frame, rest, hframes, hframe, hwaits⟩ := h.callers
  rw [← h.ps_eq, hframes, ← hps]
  refine .inner hwaits (hframe.trans hprocedure.symm) hholds hsized ?_
  rw [hps, hprocedure, h.frame_ps]

theorem WaitsAlike.resume {pc : Nat}
    (h : WaitsAlike m s bottom sp ps (some pc) callers frames) {value : Word}
    (hvalue : s.operand? sp = some value) :
    ∃ g rest base ps₀, callers = g :: rest ∧
      RunsAlike m s bottom base ps₀ (answered g value) rest ⟨pc, ps, sp + 1, frames⟩ := by
  cases h with
  | @inner sp ps g callers frame frames hrest hprocedure hholds hsized hps =>
      refine ⟨g, callers, sp, ps, rfl, rfl, rfl, hps, ?_, hsized value, ⟨hvalue, hholds⟩, frame,
        frames, rfl, hprocedure, hrest⟩
      simp only [answered, List.length_cons]
      omega

end

end SandboxVm.Proofs.FrameCorrespondence
