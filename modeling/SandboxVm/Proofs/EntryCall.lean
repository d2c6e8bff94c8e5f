import Mathlib
import SandboxVm.Image.Draft
import SandboxVm.Proofs.ArenaLayout

/-!
The first state of a call: in a fresh instance, the entry frame fits on the
program stack and the code at index zero is entered.
-/

namespace SandboxVm.Proofs.EntryCall

open SandboxVm.Interpreter
open SandboxVm.Proofs.LoadedModule
open SandboxVm.Proofs.InterpretedInstruction
open SandboxVm.Proofs.MachineRun
open SandboxVm.Proofs.RunInvariant
open SandboxVm.Proofs.ArenaLayout

variable {δ : Type}

/-- A call that found `store` has entered its first procedure in the state `s`. -/
structure Begins (store : Store) (outer : List (Suspended δ Activation)) (procedure : Procedure)
    (s : State δ Activation) : Prop where
  control : s.control = .running ⟨0, store.programStack - Int32.ofNat entryFrameSize,
    store.operandTop, [⟨none, procedure⟩]⟩
  operands : s.store.operands = store.operands
  trace : s.store.trace = store.trace.push 0
  bracket : s.bracket = store.bracket
  outer : s.outer = outer

section

variable {p : Program} (syscalls : Syscalls δ) {store : Store} (data : δ)
  (outer : List (Suspended δ Activation)) {args : List Word}

theorem call_eq_perform {procedure : Procedure} (hargs : args.length ≤ maxCallArgs)
    (hframe : ¬ store.programStack - Int32.ofNat entryFrameSize < p.stackBottom)
    (hprocedure : p.image.procedureAt? 0 = some procedure) :
    ∃ arena, Machine.call p syscalls store data outer args =
      if p.maxCallDepth ≤ store.trace.depth then
        Machine.perform p syscalls data store.bracket outer
          { store with callLevel := store.callLevel + 1, arena }
          (.trap ⟨0, store.programStack - Int32.ofNat entryFrameSize, store.operandTop, []⟩
            .callStackExhausted)
      else .next ⟨{ store with
          callLevel := store.callLevel + 1, arena, trace := store.trace.push 0 }, data,
        .running ⟨0, store.programStack - Int32.ofNat entryFrameSize, store.operandTop,
          [⟨none, procedure⟩]⟩, store.bracket, outer⟩ := by
  rcases call_cases p syscalls store data outer args with
    ⟨hmany, -⟩ | ⟨hshort, -⟩ | ⟨-, -, arena, store', rfl, hcall⟩
  · omega
  · exact absurd hshort hframe
  · refine ⟨arena, ?_⟩
    rw [hcall, start]
    by_cases hdepth : p.maxCallDepth ≤ store.trace.depth
    · simp only [enterProcedure, hprocedure, Store.enterCall?, if_pos hdepth]
    · simp only [enterProcedure, hprocedure, Store.enterCall?, if_neg hdepth]
      rfl

theorem call_eq_next {procedure : Procedure} (hargs : args.length ≤ maxCallArgs)
    (hframe : ¬ store.programStack - Int32.ofNat entryFrameSize < p.stackBottom)
    (hprocedure : p.image.procedureAt? 0 = some procedure)
    (hdepth : store.trace.depth < p.maxCallDepth) :
    ∃ s : State δ Activation, Machine.call p syscalls store data outer args = .next s ∧
      Begins store outer procedure s := by
  obtain ⟨arena, hcall⟩ := call_eq_perform syscalls data outer hargs hframe hprocedure
  rw [if_neg (Nat.not_le.mpr hdepth)] at hcall
  exact ⟨_, hcall, rfl, rfl, rfl, rfl, rfl⟩

theorem call_exhausted {procedure : Procedure} (hargs : args.length ≤ maxCallArgs)
    (hframe : ¬ store.programStack - Int32.ofNat entryFrameSize < p.stackBottom)
    (hprocedure : p.image.procedureAt? 0 = some procedure)
    (hdepth : p.maxCallDepth ≤ store.trace.depth) :
    ∃ store', Machine.call p syscalls store data outer args =
      Machine.deliver store' data (.error ⟨[.site ⟨p.image.name, some 0,
        store.trace.entries.toList⟩], .trap .callStackExhausted⟩) outer := by
  obtain ⟨arena, hcall⟩ := call_eq_perform syscalls data outer hargs hframe hprocedure
  rw [if_pos hdepth] at hcall
  simp only [Machine.perform, Engine.trapped, trapped, Store.site, note_trace] at hcall
  exact ⟨_, hcall⟩

end

theorem exists_create (canCompile : Bool) (settings : Settings) (m : Module)
    (syscalls : Syscalls δ) (data : δ) (journal : Journal)
    (hcapacity : 4 * settings.callTraceCapacity < 0x8000000000000000) :
    ∃ i, Instance.create canCompile settings m syscalls data journal = .ok i := by
  simp only [Instance.create, CallTrace.empty?, if_pos hcapacity]
  exact ⟨_, rfl⟩

/-! ### The first instructions -/

/-- The states belong to the same call, with the same data of the host. -/
structure StaysIn (s s' : State δ Activation) : Prop where
  data : s'.data = s.data
  bracket : s'.bracket = s.bracket
  outer : s'.outer = s.outer

theorem StaysIn.trans {s s' s'' : State δ Activation} (h : StaysIn s s') (h' : StaysIn s' s'') :
    StaysIn s s'' :=
  ⟨h'.data.trans h.data, h'.bracket.trans h.bracket, h'.outer.trans h.outer⟩

section

variable {p : Program} (syscalls : Syscalls δ) {s : State δ Activation} {pc sp : Nat} {ps : Word}
  {frames : List Frame} {inst : AnnotatedInstruction}

theorem exists_next {a a' : Activation} {store : Store} (hcontrol : s.control = .running a)
    (hstep : step p s.store a = (store, .proceed a')) :
    ∃ s', Machine.step p syscalls s = .next s' ∧ StaysIn s s' ∧ s'.control = .running a' ∧
      s'.store = store :=
  ⟨_, step_of_proceed hcontrol hstep, ⟨rfl, rfl, rfl⟩, rfl, rfl⟩

theorem step_served {syscalls : Syscalls δ} {a a' : Activation} {store : Store} {id : UInt32}
    {frame : Word} {syscall : Syscall δ} (hcontrol : s.control = .running a)
    (hstep : step p s.store a = (store, .syscall a' id frame))
    (hfound : syscalls.find? id = some syscall) :
    ∃ s' args, Machine.step p syscalls s = .next s' ∧ StaysIn s s' ∧
      s'.control = .serving a' (syscall.service args) ∧
      ∃ journal, s'.store = { store with journal } := by
  rw [step_of_running p syscalls hcontrol, hstep]
  simp only [Machine.perform, hfound]
  refine ⟨_, _, rfl, ⟨rfl, rfl, rfl⟩, rfl, ?_⟩
  dsimp only
  exact note_eq store .trace _

variable (hinst : p.image.code[pc]? = some inst)

include hinst

theorem exists_logged {a : Activation} (hpc : a.pc = pc) (store : Store) :
    ∃ store', step p store a = execute p store' a inst ∧ Kept store store' ∧
      ∀ slot, store'.operand? slot = store.operand? slot := by
  subst hpc
  exact ⟨_, step_eq store hinst, logged_kept .., fun slot => note_operand? ..⟩

theorem step_enter (hop : inst.op = .enter) (hcontrol : s.control = .running ⟨pc, ps, sp, frames⟩)
    (hframe : ¬ ps - inst.operand < p.stackBottom) :
    ∃ s', Machine.step p syscalls s = .next s' ∧ StaysIn s s' ∧
      s'.control = .running ⟨pc + 1, ps - inst.operand, sp, frames⟩ ∧ Kept s.store s'.store := by
  obtain ⟨store, hstep, hkept, -⟩ := exists_logged hinst (a := ⟨pc, ps, sp, frames⟩) rfl s.store
  simp only [execute, hop, if_neg hframe] at hstep
  obtain ⟨s', hnext, hstays, hcontrol', rfl⟩ := exists_next syscalls hcontrol hstep
  exact ⟨s', hnext, hstays, hcontrol', hkept⟩

theorem step_const (hop : inst.op = .const) (hcontrol : s.control = .running ⟨pc, ps, sp, frames⟩)
    (hslot : sp < s.store.operands.size) :
    ∃ s', Machine.step p syscalls s = .next s' ∧ StaysIn s s' ∧
      s'.control = .running ⟨pc + 1, ps, sp + 1, frames⟩ ∧ Kept s.store s'.store ∧
      s'.store.operand? sp = some inst.operand := by
  obtain ⟨store, hstep, ⟨htrace, hsize⟩, -⟩ :=
    exists_logged hinst (a := ⟨pc, ps, sp, frames⟩) rfl s.store
  rw [← hsize] at hslot
  simp only [execute, hop, push, if_pos hslot] at hstep
  obtain ⟨s', hnext, hstays, hcontrol', hstore⟩ := exists_next syscalls hcontrol hstep
  refine ⟨s', hnext, hstays, hcontrol', ⟨?_, ?_⟩, ?_⟩
  · rw [hstore, setOperand_trace, htrace]
  · rw [hstore, setOperand_size, hsize]
  · rw [hstore, setOperand_operand? _ hslot]

theorem step_call (hop : inst.op = .call)
    (hcontrol : s.control = .running ⟨pc, ps, sp + 1, frames⟩) {target : Word}
    (htop : s.store.operand? sp = some target) (htarget : ¬ target < 0) {procedure : Procedure}
    (hprocedure : p.image.procedureAt? target.toInt.toNat = some procedure)
    (hdepth : s.store.trace.depth < p.maxCallDepth) :
    ∃ s', Machine.step p syscalls s = .next s' ∧ StaysIn s s' ∧
      s'.control = .running
        ⟨target.toInt.toNat, ps, sp, ⟨some (pc + 1), procedure⟩ :: frames⟩ ∧
      s'.store.operands.size = s.store.operands.size ∧
      s'.store.trace = s.store.trace.push target.toInt.toNat := by
  obtain ⟨store, hstep, ⟨htrace, hsize⟩, hoperands⟩ :=
    exists_logged hinst (a := ⟨pc, ps, sp + 1, frames⟩) rfl s.store
  rw [← hoperands] at htop
  rw [← htrace] at hdepth
  rcases enterProcedure_cases p (store.write .four ps (Int32.ofNat (pc + 1)))
      ⟨pc, ps, sp, frames⟩ target.toInt.toNat (some (pc + 1)) with
    ⟨hnone, -⟩ | ⟨procedure', hprocedure', ⟨hlimit, -⟩ | ⟨-, heq⟩⟩
  · rw [hprocedure] at hnone
    cases hnone
  · exact absurd hdepth (Nat.not_lt.mpr hlimit)
  · obtain rfl : procedure = procedure' := Option.some.inj (hprocedure.symm.trans hprocedure')
    simp only [execute, hop, withTop, htop, call, if_neg htarget, Nat.add_sub_cancel] at hstep
    obtain ⟨s', hnext, hstays, hcontrol', hstore⟩ :=
      exists_next syscalls hcontrol (hstep.trans heq)
    refine ⟨s', hnext, hstays, hcontrol', ?_, ?_⟩
    · simp only [hstore, write_operands, hsize]
    · simp only [hstore, write_trace, htrace]

theorem step_call_service (hop : inst.op = .call) {store : Store} {target : Word}
    (htop : store.operand? sp = some target) (htarget : target < 0) (ps : Word)
    (frames : List Frame) : ∃ store', step p store ⟨pc, ps, sp + 1, frames⟩ =
        (store', .syscall ⟨pc, ps, sp + 1, frames⟩ (-1 - target).toUInt32 ps) ∧
      Kept store store' ∧ store'.operand? sp = some target ∧ store'.programStack = ps - 4 ∧
      store'.operandTop = sp + 1 := by
  obtain ⟨store', hstep, ⟨htrace, hsize⟩, hoperands⟩ :=
    exists_logged hinst (a := ⟨pc, ps, sp + 1, frames⟩) rfl store
  rw [← hoperands] at htop
  simp only [execute, hop, withTop, htop, call, if_pos htarget] at hstep
  refine ⟨_, hstep, ⟨?_, ?_⟩, ?_, rfl, rfl⟩
  · simp only [write_trace, htrace]
  · simp only [write_operands, hsize]
  · simpa only [Store.operand?, write_operands] using htop

theorem step_leave (hop : inst.op = .leave) {procedure : Procedure}
    (hcontrol : s.control = .running ⟨pc, ps, sp + 1, [⟨none, procedure⟩]⟩) {value : Word}
    (htop : s.store.operand? sp = some value) :
    ∃ store, Machine.step p syscalls s =
      Machine.conclude store s.data s.bracket s.outer (.ok value) := by
  obtain ⟨store, hstep, -, hoperands⟩ :=
    exists_logged hinst (a := ⟨pc, ps, sp + 1, [⟨none, procedure⟩]⟩) rfl s.store
  have htop' : store.leaveCall.operand? sp = some value := (hoperands sp).trans htop
  simp only [execute, hop, leave, htop'] at hstep
  rw [step_of_running p syscalls hcontrol, hstep]
  exact ⟨_, rfl⟩

end

/-- The code that began with `store` asks for a host service, with the target of its `call` in the
slot `sp` and its frame at `ps`. -/
structure Asking (store store' : Store) (ps : Word) (sp : Nat) (target : Word) : Prop
    extends Kept store store' where
  target : store'.operand? sp = some target
  programStack : store'.programStack = ps - 4
  operandTop : store'.operandTop = sp + 1

theorem enter_and_ask {p : Program} (syscalls : Syscalls δ) {s : State δ Activation} {pc sp : Nat}
    {ps : Word} {frames : List Frame} {enter const call : AnnotatedInstruction}
    (henter : p.image.code[pc]? = some enter) (hconst : p.image.code[pc + 1]? = some const)
    (hcall : p.image.code[pc + 2]? = some call) (hop : enter.op = .enter) (hop' : const.op = .const)
    (hop'' : call.op = .call) (htarget : const.operand < 0)
    (hcontrol : s.control = .running ⟨pc, ps, sp, frames⟩)
    (hslot : sp < s.store.operands.size) (hframe : ¬ ps - enter.operand < p.stackBottom) :
    ∃ s₁ s₂ store, Machine.step p syscalls s = .next s₁ ∧ StaysIn s s₁ ∧
      Machine.step p syscalls s₁ = .next s₂ ∧ StaysIn s s₂ ∧
      s₂.control = .running ⟨pc + 2, ps - enter.operand, sp + 1, frames⟩ ∧
      step p s₂.store ⟨pc + 2, ps - enter.operand, sp + 1, frames⟩ = (store, .syscall
        ⟨pc + 2, ps - enter.operand, sp + 1, frames⟩ (-1 - const.operand).toUInt32
        (ps - enter.operand)) ∧
      Asking s.store store (ps - enter.operand) sp const.operand := by
  obtain ⟨s₁, hfirst, hstays₁, hcontrol₁, hkept₁⟩ := step_enter syscalls henter hop hcontrol hframe
  rw [← hkept₁.size] at hslot
  obtain ⟨s₂, hsecond, hstays₂, hcontrol₂, hkept₂, htop⟩ :=
    step_const syscalls hconst hop' hcontrol₁ hslot
  obtain ⟨store, hask, hkept₃, htop', hps, htop''⟩ :=
    step_call_service hcall hop'' htop htarget (ps - enter.operand) frames
  refine ⟨s₁, s₂, store, hfirst, hstays₁, hsecond, hstays₁.trans hstays₂, hcontrol₂, hask,
    ⟨⟨?_, ?_⟩, htop', hps, htop''⟩⟩
  · rw [hkept₃.trace, hkept₂.trace, hkept₁.trace]
  · rw [hkept₃.size, hkept₂.size, hkept₁.size]

/-! ### New instances -/

section

variable {name : String} {image : Image} {m : Module} {canCompile : Bool} {settings : Settings}
  {syscalls : Syscalls δ} {data : δ} {journal : Journal} {i : Instance δ} {procedure : Procedure}
  (hload : Module.load name image = .ok m)
  (hcreate : Instance.create canCompile settings m syscalls data journal = .ok i)
  (hmem : procedure ∈ m.procedures) (hstart : procedure.start = 0)
  (hdepth : 0 < settings.maxCallDepth) (args : List Word) (hargs : args.length ≤ maxCallArgs)
  (data' : δ)

include hload hcreate hmem hstart hdepth hargs

theorem exists_first : ∃ (s : State δ Activation) (ps : Word),
    Machine.call i.program i.syscalls i.store data' [] args = .next s ∧
    Begins i.store [] procedure s ∧ s.control = .running ⟨0, ps, 0, [⟨none, procedure⟩]⟩ ∧
    ps.toInt = i.store.arena.size - entryFrameSize := by
  obtain ⟨hlayout, hps⟩ := layout_of_create hload hcreate
  obtain ⟨hprogram, -, -, hrest⟩ := create_eq_ok hcreate
  have hprocedure : i.program.image.procedureAt? 0 = some procedure := by
    rw [hprogram, (sound_of_load hload).procedureAt?_eq_some_iff]
    exact ⟨hmem, hstart⟩
  have hdepth' : i.store.trace.depth < i.program.maxCallDepth := by
    rw [hprogram, hrest.depth]
    exact hdepth
  have htop : i.store.programStack.toInt = i.store.arena.size - 0 := by rw [hps, Int.sub_zero]
  obtain ⟨hroom, hentry⟩ := hlayout.room (n := Int32.ofNat entryFrameSize) htop (Int.le_refl _)
    (by decide) (by decide)
  obtain ⟨s, hcall, hbegins⟩ := call_eq_next i.syscalls data' [] hargs hroom hprocedure hdepth'
  have hcontrol := hbegins.control
  rw [hrest.operandTop] at hcontrol
  exact ⟨s, _, hcall, hbegins, hcontrol, hentry⟩

variable (hframe : procedure.frameSize.toInt + entryFrameSize ≤ programStackSize)

include hframe

/-- From its first state such a call comes to the instructions of the procedure, unless the frame
of this is larger than what the entry frame leaves of the program stack. -/
theorem exists_entered : ∃ (s₀ s : State δ Activation) (ps : Word),
    Machine.call i.program i.syscalls i.store data' [] args = .next s₀ ∧
    s₀.control = .running ⟨0, ps, 0, [⟨none, procedure⟩]⟩ ∧
    Machine.step i.program i.syscalls s₀ = .next s ∧
    Run i.program i.syscalls i.store [s₀] (.next s) ∧
    s.control = .running ⟨1, ps - procedure.frameSize, 0, [⟨none, procedure⟩]⟩ := by
  obtain ⟨s₀, ps, hcall, -, hcontrol₀, hps⟩ :=
    exists_first hload hcreate hmem hstart hdepth args hargs data'
  obtain ⟨hprogram, -, -, -⟩ := create_eq_ok hcreate
  have hm := sound_of_load hload
  obtain ⟨enter, henter, hop, -⟩ := hm.exists_enter hmem
  have hoperand := (hm.mem_procedures_iff.mp hmem).frameSize enter henter
  have hinst : i.program.image.code[0]? = some enter := by rw [hprogram, ← hstart, henter]
  have hroom := (layout_of_create hload hcreate).1.room hps (Int.natCast_nonneg _)
    (hm.frameSize_bounds hmem).1 (by rwa [Int.add_comm])
  rw [hoperand] at hroom
  obtain ⟨s, hstep, -, hcontrol, -⟩ := step_enter i.syscalls hinst hop hcontrol₀ hroom.1
  have hrun : Run i.program i.syscalls i.store [] (.next s₀) := hcall ▸ .start data' args
  rw [← hoperand] at hcontrol
  exact ⟨s₀, s, ps, hcall, hcontrol₀, hstep, hstep ▸ hrun.step, hcontrol⟩

end

/-- An image whose only procedure loads from an address that it has not pushed. -/
def unfedLoad : Draft :=
  { instructions := [⟨.enter, 8⟩, ⟨.load .four, 0⟩, ⟨.push, 0⟩, ⟨.leave, 8⟩] }

def unfedLoadModule : Module where
  name := "unfed"
  header := unfedLoad.header
  code := #[
    { op := .enter, operand := 8, depth := 0 },
    { op := .load .four, depth := 0 },
    { op := .push, depth := 0 },
    { op := .leave, operand := 8, depth := 4 }]
  data := []
  jumpTable? := none
  procedures := #[{ start := 0, last := 3, frameSize := 8 }]

theorem load_unfedLoad : Module.load "unfed" unfedLoad.build = .ok unfedLoadModule := by cbv

theorem mem_unfedLoad :
    { start := 0, last := 3, frameSize := 8 } ∈ unfedLoadModule.procedures := by
  simp [unfedLoadModule]

/-- A module that asks for the host service 0 and returns its result. -/
def askingDraft : Draft where
  instructions := [⟨.enter, 8⟩, ⟨.const, -1⟩, ⟨.call, 0⟩, ⟨.leave, 8⟩, ⟨.push, 0⟩, ⟨.leave, 8⟩]

def askingModule : Module where
  name := "asking"
  header := askingDraft.header
  code := #[{ op := .enter, operand := 8 }, { op := .const, operand := -1 },
    { op := .call, depth := 4 }, { op := .leave, operand := 8, depth := 4 }, { op := .push },
    { op := .leave, operand := 8, depth := 4 }]
  data := []
  jumpTable? := none
  procedures := #[{ start := 0, last := 5, frameSize := 8 }]

theorem load_asking : Module.load "asking" askingDraft.build = .ok askingModule := by cbv

theorem mem_asking : { start := 0, last := 5, frameSize := 8 } ∈ askingModule.procedures := by
  simp [askingModule]

theorem procedureAt?_asking {p : Program} (himage : p.image = askingModule) :
    p.image.procedureAt? 0 = some { start := 0, last := 5, frameSize := 8 } := by
  rw [himage, (sound_of_load load_asking).procedureAt?_eq_some_iff]
  exact ⟨mem_asking, rfl⟩

theorem asking_asks {p : Program} (syscalls : Syscalls δ) (himage : p.image = askingModule)
    {s : State δ Activation} {ps : Word} {sp : Nat} {frames : List Frame}
    (hcontrol : s.control = .running ⟨0, ps, sp, frames⟩) (hslot : sp < s.store.operands.size)
    (hframe : ¬ ps - 8 < p.stackBottom) :
    ∃ s₁ s₂ store, Machine.step p syscalls s = .next s₁ ∧ StaysIn s s₁ ∧
      Machine.step p syscalls s₁ = .next s₂ ∧ StaysIn s s₂ ∧
      s₂.control = .running ⟨2, ps - 8, sp + 1, frames⟩ ∧
      step p s₂.store ⟨2, ps - 8, sp + 1, frames⟩ =
        (store, .syscall ⟨2, ps - 8, sp + 1, frames⟩ 0 (ps - 8)) ∧
      Asking s.store store (ps - 8) sp (-1) := by
  have henter : p.image.code[0]? = some { op := .enter, operand := 8 } := by rw [himage]; rfl
  have hconst : p.image.code[1]? = some { op := .const, operand := -1 } := by rw [himage]; rfl
  have hcall : p.image.code[2]? = some { op := .call, depth := 4 } := by rw [himage]; rfl
  have hid : (-1 - (-1 : Word)).toUInt32 = 0 := by decide
  have hasks := enter_and_ask syscalls henter hconst hcall rfl rfl rfl (by decide) hcontrol hslot
    hframe
  rwa [hid] at hasks

theorem asking_entered {canCompile : Bool} {settings : Settings} {syscalls : Syscalls δ}
    {data : δ} {journal : Journal} {i : Instance δ}
    (hcreate : Instance.create canCompile settings askingModule syscalls data journal = .ok i)
    (hdepth : 0 < settings.maxCallDepth) :
    ∃ (s : State δ Activation) (ps : Word) (frames : List Frame),
      Machine.call i.program i.syscalls i.store i.data [] [] = .next s ∧
      s.control = .running ⟨0, ps, 0, frames⟩ ∧
      s.outer = [] ∧ 0 < s.store.operands.size ∧ ¬ ps - 8 < i.program.stackBottom := by
  obtain ⟨s, ps, hcall, hbegins, hcontrol, hps⟩ := exists_first load_asking hcreate mem_asking rfl
    hdepth [] (Nat.zero_le maxCallArgs) i.data
  have hroom := (layout_of_create load_asking hcreate).1.room hps (n := 8) (by decide) (by decide)
    (by decide)
  refine ⟨s, ps, _, hcall, hcontrol, hbegins.outer, ?_, hroom.1⟩
  rw [hbegins.operands, (create_eq_ok hcreate).2.2.2.size]
  exact Nat.mul_pos (Nat.succ_pos _) (by decide)

theorem unfedLoad_run : ∃ (i : Instance Unit) (s₀ s : State Unit Activation) (ps : Word),
    Instance.create false {} unfedLoadModule {} () {} = .ok i ∧
    Run i.program i.syscalls i.store [s₀] (.next s) ∧
    s₀.control = .running ⟨0, ps, 0, [⟨none, { start := 0, last := 3, frameSize := 8 }⟩]⟩ ∧
    s.control = .running ⟨1, ps - 8, 0, [⟨none, { start := 0, last := 3, frameSize := 8 }⟩]⟩ := by
  obtain ⟨i, hcreate⟩ := exists_create false {} unfedLoadModule ({} : Syscalls Unit) () {}
    (by decide)
  obtain ⟨s₀, s, ps, -, hcontrol₀, -, hrun, hcontrol⟩ := exists_entered load_unfedLoad hcreate
    mem_unfedLoad rfl (by decide) [] (Nat.zero_le maxCallArgs) ()
    (by decide)
  exact ⟨i, s₀, s, ps, hcreate, hrun, hcontrol₀, hcontrol⟩

end SandboxVm.Proofs.EntryCall
