import SandboxVm.Proofs.OperandStack

namespace SandboxVm.Proofs.ControlFlow

open SandboxVm.Interpreter
open SandboxVm.Proofs.VerificationRules
open SandboxVm.Proofs.LoadedModule
open SandboxVm.Proofs.InterpretedInstruction
open SandboxVm.Proofs.ControlTransfer
open SandboxVm.Proofs.MachineRun
open SandboxVm.Proofs.FrameStack
open SandboxVm.Proofs.RunInvariant
open SandboxVm.Proofs.EntryCall
open SandboxVm.Proofs.OperandStack

variable {δ : Type}

def activations (s : State δ Activation) : List Activation :=
  innermost s :: s.outer.map (·.activation)

/-- The frames of a call whose next instruction is at `pc`. -/
structure FramesIntact (m : Module) (pc : Nat) (frames : List Frame) : Prop where
  nonempty : frames ≠ []
  procedures : ∀ frame ∈ frames, frame.procedure ∈ m.procedures
  inside : ∀ frame, frames.head? = some frame →
    frame.procedure.start ≤ pc ∧ pc ≤ frame.procedure.last ∧ pc < m.code.size
  /-- A procedure returns behind a `call` in the procedure below it. -/
  returns : ∀ (k : Nat) (frame below : Frame), frames[k]? = some frame →
    frames[k + 1]? = some below →
      ∃ site, frame.returnTo = some (site + 1) ∧ opAt? m.code site = some .call ∧
        below.procedure.start ≤ site ∧ site ≤ below.procedure.last
  entry : ∀ frame, frames.getLast? = some frame → frame.returnTo = none

/-- A jump to `target` stays in the innermost procedure, between statements and
not at the `enter`. -/
def Lands (m : Module) (a : Activation) (target : Word) : Prop :=
  0 ≤ target.toInt ∧ ∃ frame, a.frames.head? = some frame ∧
    Destination m frame.procedure target.toInt.toNat

/-- Where the next instruction `inst` goes if its target is written in the code. -/
structure TransferIntact (m : Module) (p : Program) (store : Store) (a : Activation)
    (inst : AnnotatedInstruction) : Prop where
  branch : ∀ c, inst.op = .branch c → Lands m a inst.operand ∧
    ∃ x y, store.operand? (a.sp - 2) = some x ∧ store.operand? (a.sp - 1) = some y ∧
      (step p store a).2 = .proceed { a with
        sp := a.sp - 2
        pc := if c.holds x y then inst.operand.toInt.toNat else a.pc + 1 }
  jump : ∀ c, inst.op = .jump → m.code.constantBefore? a.pc = some c → Lands m a inst.operand ∧
    (step p store a).2 = .proceed { a with sp := a.sp - 1, pc := inst.operand.toInt.toNat }
  call : ∀ n, inst.op = .call → m.code.constantBefore? a.pc = some n → 0 ≤ n.toInt →
    ∃ procedure ∈ m.procedures, procedure.start = n.toInt.toNat ∧ procedure.start ≠ 0 ∧
      (step p store a).2 =
        if store.trace.depth < p.maxCallDepth then
          .proceed ⟨procedure.start, a.ps, a.sp - 1, ⟨some (a.pc + 1), procedure⟩ :: a.frames⟩
        else .trap { a with sp := a.sp - 1 } .callStackExhausted

section

variable {m : Module} {trace : List (State δ Activation)}

theorem framesIntact_of_stacked (hm : Sound m) {outer bottom pc sp : Nat} {frames : List Frame}
    (h : Stacked m trace outer bottom pc sp frames) : FramesIntact m pc frames := by
  have hcode : ∀ {procedure : Procedure} {i : Nat}, Inside m procedure i →
      procedure.start ≤ i ∧ i ≤ procedure.last ∧ i < m.code.size := by
    intro procedure i hinside
    obtain ⟨inst, hinst⟩ := hinside.exists_inst hm
    exact ⟨hinside.start_le, hinside.le_last, (Array.getElem?_eq_some_iff.mp hinst).1⟩
  induction h with
  | @entry pc sp procedure hplaced hbase =>
      refine ⟨by simp, ?_, ?_, by simp, ?_⟩
      · simpa using hplaced.inside.mem
      · rintro frame ⟨⟩
        exact hcode hplaced.inside
      · rintro frame ⟨⟩
        rfl
  | @inner pc sp base procedure caller hcaller hcall hsp hlatest hplaced hbase ih =>
      refine ⟨by simp, ?_, ?_, ?_, ?_⟩
      · intro frame hframe
        rcases List.mem_cons.mp hframe with rfl | hrest
        · exact hplaced.inside.mem
        · exact ih.procedures frame hrest
      · rintro frame ⟨⟩
        exact hcode hplaced.inside
      · intro k frame below hframe hbelow
        rw [List.getElem?_cons_succ] at hbelow
        cases k with
        | zero =>
            obtain rfl := Option.some.inj hframe
            obtain ⟨hstart, hlast, -⟩ := ih.inside below (by rw [List.head?_eq_getElem?, hbelow])
            exact ⟨caller.pc, rfl, hcall, hstart, hlast⟩
        | succ k => exact ih.returns k frame below hframe hbelow
      · intro frame hframe
        rw [List.getLast?_cons_of_ne_nil ih.nonempty] at hframe
        exact ih.entry frame hframe

theorem framesIntact_of_suspends (hm : Sound m) {b : Bracket}
    {outer : List (Suspended δ Activation)} (h : Suspends m trace b outer) :
    ∀ w ∈ outer, FramesIntact m w.activation.pc w.activation.frames := by
  induction outer generalizing b with
  | nil => simp
  | cons w outer ih =>
      obtain ⟨hstacked, -, -, -, hrest⟩ := h
      intro w' hw'
      rcases List.mem_cons.mp hw' with rfl | hmem
      · exact framesIntact_of_stacked hm hstacked
      · exact ih hrest w' hmem

end

section

variable {m : Module} {p : Program} {past : List (State δ Activation)} {s : State δ Activation}
  {a : Activation} {inst : AnnotatedInstruction} (hm : Sound m) (himage : p.image = m)
  (h : Invariant m p past s) (hcontrol : s.control = .running a)
  (hinst : m.code[a.pc]? = some inst)

include hm h hcontrol

theorem lands_of_jumpAllowed {target : Word} (hallowed : JumpAllowed m.code a.pc target) :
    Lands m a target := by
  obtain ⟨frame, rest, hframes, hinside, -⟩ := h.exists_frame hcontrol
  exact ⟨hallowed.nonneg, frame, by rw [hframes]; rfl, hinside.jumpAllowed hm hallowed⟩

/-- An `enter` is the first instruction of its procedure, and it is executed
only when the frame of the procedure has just been pushed. -/
theorem fresh_of_enter (henter : opAt? m.code a.pc = some .enter) :
    Fresh past s ∧ ∃ frame, a.frames.head? = some frame ∧ frame.procedure.start = a.pc := by
  obtain ⟨frame, rest, hframes, hinside, -⟩ := h.exists_frame hcontrol
  refine ⟨h.fresh ((isEntering_iff hcontrol).mpr henter), frame, by rw [hframes]; rfl, ?_⟩
  have hspan := (hm.mem_procedures_iff.mp hinside.mem).span
  refine Nat.le_antisymm hinside.start_le (Nat.le_of_not_lt ?_)
  intro hlt
  exact hm.rules.unnested _ _ hspan a.pc hlt hinside.le_last henter

include himage hinst

theorem branch_intact {c : Comparison} (hop : inst.op = .branch c) : Lands m a inst.operand ∧
    ∃ x y, s.store.operand? (a.sp - 2) = some x ∧ s.store.operand? (a.sp - 1) = some y ∧
      (step p s.store a).2 = .proceed { a with
        sp := a.sp - 2
        pc := if c.holds x y then inst.operand.toInt.toNat else a.pc + 1 } := by
  obtain rfl := innermost_running hcontrol
  have hrule := hm.rules.instructions _ inst hinst
  simp only [InstructionRule, hop] at hrule
  have hnot : ¬ UnderSupplied inst := by
    simp only [UnderSupplied, hop, hrule.1, Opcode.pops]
    omega
  obtain ⟨-, x, y, hx, hy, heq⟩ :=
    (supplied_of_depth hm h hinst hnot).topTwo (by simp [hop]) (by simp [hop, Opcode.pops])
  rw [Store.operand?, logged_operands] at hx hy
  refine ⟨lands_of_jumpAllowed hm h hcontrol hrule.2, x, y, hx, hy, ?_⟩
  rw [step_eq s.store (himage ▸ hinst)]
  simp only [execute, hop, heq]
  split
  · rw [goTo_of_nonneg hrule.2.nonneg]
  · rfl

omit himage in
theorem withTop_constant {c : Word} (hleave : inst.op ≠ .leave) (hpops : inst.op.pops = 1)
    (hdepth : 4 ≤ inst.depth) (hc : m.code.constantBefore? a.pc = some c) (k : Word → Outcome) :
    withTop (logged s.store a inst) a k = k c := by
  obtain rfl := innermost_running hcontrol
  have hnot : ¬ UnderSupplied inst := by
    simp only [UnderSupplied, hpops]
    omega
  obtain ⟨-, x, hx, heq⟩ := (supplied_of_depth hm h hinst hnot).top hleave hpops
  have hconst := h.constantOnTop hcontrol (logged_operands s.store (innermost s) inst) c hc
  rw [heq, Option.some.inj (hx.symm.trans hconst)]

theorem jump_intact {c : Word} (hop : inst.op = .jump)
    (hc : m.code.constantBefore? a.pc = some c) : Lands m a inst.operand ∧
      (step p s.store a).2 =
        .proceed { a with sp := a.sp - 1, pc := inst.operand.toInt.toNat } := by
  have hrule := hm.rules.instructions a.pc inst hinst
  simp only [InstructionRule, hop] at hrule
  obtain ⟨rfl, hallowed⟩ := hm.known_jump hinst hop hc
  have hcomputed : inst.computed = false := by
    rw [← Bool.not_eq_true, hm.computed_iff a.pc inst hinst hop, hc]
    simp
  have htop := withTop_constant hm h hcontrol hinst (by simp [hop]) (by simp [hop, Opcode.pops])
    (by omega) hc
  refine ⟨lands_of_jumpAllowed hm h hcontrol hallowed, ?_⟩
  rw [step_eq s.store (himage ▸ hinst)]
  simp only [execute, hop, htop, hcomputed, Bool.false_eq_true, if_false]
  rw [goTo_of_nonneg hallowed.nonneg]

theorem call_intact {n : Word} (hop : inst.op = .call)
    (hn : m.code.constantBefore? a.pc = some n) (hnonneg : 0 ≤ n.toInt) :
    ∃ procedure ∈ m.procedures, procedure.start = n.toInt.toNat ∧ procedure.start ≠ 0 ∧
      (step p s.store a).2 =
        if s.store.trace.depth < p.maxCallDepth then
          .proceed ⟨procedure.start, a.ps, a.sp - 1, ⟨some (a.pc + 1), procedure⟩ :: a.frames⟩
        else .trap { a with sp := a.sp - 1 } .callStackExhausted := by
  have hrule := hm.rules.instructions a.pc inst hinst
  simp only [InstructionRule, hop] at hrule
  obtain ⟨hdepth, hknown⟩ := hrule
  obtain ⟨henter, hne⟩ := hknown n hn hnonneg
  obtain ⟨procedure, hprocedure⟩ := hm.exists_procedureAt? henter
  obtain ⟨hmem, hstart⟩ := hm.procedureAt?_eq_some_iff.mp hprocedure
  have htop := withTop_constant hm h hcontrol hinst (by simp [hop]) (by simp [hop, Opcode.pops])
    hdepth hn
  have hnotNeg : ¬ n < 0 := by
    rw [Int32.lt_iff_toInt_lt, Int32.toInt_zero]
    omega
  refine ⟨procedure, hmem, hstart, by omega, ?_⟩
  rw [step_eq s.store (himage ▸ hinst)]
  simp only [execute, hop, htop, call, if_neg hnotNeg]
  rcases enterProcedure_cases p
      ((logged s.store a inst).write .four a.ps (Int32.ofNat (a.pc + 1)))
      { a with sp := a.sp - 1 } n.toInt.toNat (some (a.pc + 1)) with
    ⟨hnone, -⟩ | ⟨procedure', hprocedure', ⟨hlimit, hmove⟩ | ⟨hlt, hmove⟩⟩
  · rw [himage, hprocedure] at hnone
    cases hnone
  · rw [write_trace, (logged_kept ..).trace] at hlimit
    rw [hmove, if_neg (Nat.not_lt.mpr hlimit)]
  · obtain rfl : procedure = procedure' := by
      rw [himage, hprocedure] at hprocedure'
      exact Option.some.inj hprocedure'
    rw [write_trace, (logged_kept ..).trace] at hlt
    rw [hmove, if_pos hlt, hstart]

end

/-- Control-flow integrity of loaded modules, in every state of every run. -/
theorem control_flow_integrity {name : String} {image : Image} {m : Module} {canCompile : Bool}
    {settings : Settings} {syscalls : Syscalls δ} {data : δ} {journal : Journal} {i : Instance δ}
    {past : List (State δ Activation)} {s : State δ Activation}
    (hload : Module.load name image = .ok m)
    (hcreate : Instance.create canCompile settings m syscalls data journal = .ok i)
    (hrun : Run i.program i.syscalls i.store past (.next s)) :
    (∀ a ∈ activations s, FramesIntact m a.pc a.frames) ∧
    ∀ a, s.control = .running a →
      (opAt? m.code a.pc = some .enter → Fresh past s ∧
        ∃ frame, a.frames.head? = some frame ∧ frame.procedure.start = a.pc) ∧
      ∀ inst, m.code[a.pc]? = some inst → TransferIntact m i.program s.store a inst := by
  obtain ⟨hm, himage, h⟩ := invariant_of_run hload hcreate hrun
  refine ⟨?_, fun a hcontrol => ⟨fresh_of_enter hm h hcontrol, ?_⟩⟩
  · intro a ha
    rcases List.mem_cons.mp ha with rfl | hsuspended
    · exact framesIntact_of_stacked hm h.stacked
    · obtain ⟨w, hw, rfl⟩ := List.mem_map.mp hsuspended
      exact framesIntact_of_suspends hm h.suspends w hw
  · intro inst hinst
    exact ⟨fun c hop => branch_intact hm himage h hcontrol hinst hop,
      fun c hop hc => jump_intact hm himage h hcontrol hinst hop hc,
      fun n hop hn hnonneg => call_intact hm himage h hcontrol hinst hop hn hnonneg⟩

theorem control_flow_integrity_unfedLoad :
    ∃ (i : Instance Unit) (s₀ s : State Unit Activation) (a : Activation),
      Instance.create false {} unfedLoadModule {} () {} = .ok i ∧
      Run i.program i.syscalls i.store [s₀] (.next s) ∧ s.control = .running a ∧ a.pc = 1 ∧
      FramesIntact unfedLoadModule 1 a.frames := by
  obtain ⟨i, s₀, s, ps, hcreate, hrun, -, hcontrol⟩ := unfedLoad_run
  refine ⟨i, s₀, s, _, hcreate, hrun, hcontrol, rfl, ?_⟩
  have hintact := (control_flow_integrity load_unfedLoad hcreate hrun).1 (innermost s)
    List.mem_cons_self
  rwa [innermost_running hcontrol] at hintact

end SandboxVm.Proofs.ControlFlow
