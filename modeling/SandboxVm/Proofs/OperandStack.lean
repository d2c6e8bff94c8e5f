import SandboxVm.Proofs.EntryCall
import SandboxVm.Proofs.OperandAccess

namespace SandboxVm.Proofs.OperandStack

open SandboxVm.Interpreter
open SandboxVm.Proofs.VerificationRules
open SandboxVm.Proofs.LoadedModule
open SandboxVm.Proofs.InterpretedInstruction
open SandboxVm.Proofs.OperandAccess
open SandboxVm.Proofs.ControlTransfer
open SandboxVm.Proofs.MachineRun
open SandboxVm.Proofs.FrameStack
open SandboxVm.Proofs.RunInvariant
open SandboxVm.Proofs.EntryCall

variable {δ : Type}

/-- The instruction takes more operands than its procedure has on the stack. -/
def UnderSupplied (inst : AnnotatedInstruction) : Prop := inst.depth < 4 * inst.op.pops

instance (inst : AnnotatedInstruction) : Decidable (UnderSupplied inst) :=
  inferInstanceAs (Decidable (_ < _))

theorem stackDelta_eq (op : Opcode) : op.stackDelta = 4 * (op.pushes : Int) - 4 * op.pops := by
  cases op <;> rfl

theorem pushes_le_one (op : Opcode) : op.pushes ≤ 1 := by
  cases op <;> simp [Opcode.pushes]

theorem touches_cases {a : Activation} {inst : AnnotatedInstruction} {slot : Int}
    (h : Touches a inst slot) :
    ((a.sp : Int) - inst.op.pops ≤ slot ∧ slot < a.sp) ∨
      (slot = a.sp ∧ inst.op.pops = 0 ∧ inst.op.pushes = 1) := by
  unfold Touches at h
  cases hop : inst.op with
  | push => exact Or.inr ⟨by simpa [hop] using h, rfl, rfl⟩
  | const => exact Or.inr ⟨by simpa [hop] using h, rfl, rfl⟩
  | localAddress => exact Or.inr ⟨by simpa [hop] using h, rfl, rfl⟩
  | leave =>
      simp only [hop] at h
      simp only [Opcode.pops]
      omega
  | _ =>
      simp only [hop] at h
      exact Or.inl h

section

variable {m : Module} {p : Program} {past : List (State δ Activation)} {s : State δ Activation}
  {inst : AnnotatedInstruction} {base : Nat} (hm : Sound m) (h : Invariant m p past s)

include hm h

/-- The depth in front of the next instruction counts the operands over the base. -/
theorem exists_base : ∃ base inst, base? m.code (level s) (s :: past) = some base ∧
    m.code[(innermost s).pc]? = some inst ∧
    4 * ((innermost s).sp : Int) = 4 * base + inst.depth ∧
    base + 29 ≤ 29 * p.maxCallDepth := by
  obtain ⟨frame, rest, base, -, hplaced, hbase, -⟩ := h.stacked.innermost
  obtain ⟨inst, hinst, hdepth⟩ := hplaced.depth
  have hlocal := h.stacked.base_le hm hbase
  have hbelow := h.suspends.operandTop_le hm
  have hcount := h.depth
  have hlimit := h.bounded.depth_le
  exact ⟨base, inst, hbase, hinst, hdepth, by omega⟩

variable (hinst : m.code[(innermost s).pc]? = some inst)

include hinst

section

variable (hbase : base? m.code (level s) (s :: past) = some base)

include hbase

theorem depth_eq :
    4 * ((innermost s).sp : Int) = 4 * base + inst.depth ∧ base + 29 ≤ 29 * p.maxCallDepth := by
  obtain ⟨base', inst', hbase', hinst', hdepth, hle⟩ := exists_base hm h
  obtain rfl : base = base' := Option.some.inj (hbase.symm.trans hbase')
  obtain rfl : inst = inst' := Option.some.inj (hinst.symm.trans hinst')
  exact ⟨hdepth, hle⟩

/-- The slots that an instruction touches lie over the base, but for the one
just below it if the instruction is under-supplied. -/
theorem touches_bounds {slot : Int} (htouches : Touches (innermost s) inst slot) :
    (base : Int) - 1 ≤ slot ∧ slot < base + 29 ∧ (slot = base - 1 → UnderSupplied inst) := by
  obtain ⟨hdepth, -⟩ := depth_eq hm h hinst hbase
  obtain ⟨hbefore, hafter⟩ := hm.rules.depths _ inst hinst
  have hdelta := stackDelta_eq inst.op
  have hpushes := pushes_le_one inst.op
  unfold UnderSupplied
  rcases touches_cases htouches with ⟨hlow, hhigh⟩ | ⟨rfl, hpops, hone⟩
  · omega
  · omega

theorem touches_below_base (hunder : UnderSupplied inst) :
    Touches (innermost s) inst ((base : Int) - 1) := by
  obtain ⟨hdepth, -⟩ := depth_eq hm h hinst hbase
  obtain ⟨hbefore, -⟩ := hm.rules.depths _ inst hinst
  have hrule := hm.rules.instructions _ inst hinst
  unfold UnderSupplied at hunder
  have hleave : inst.op ≠ .leave := by
    intro hop
    simp only [InstructionRule, hop] at hrule
    simp only [hop, Opcode.pops] at hunder
    omega
  refine (touches_iff_of_pops hleave (by omega)).mpr ?_
  omega

theorem slot_lt_size {slot : Int} (hslot : slot < base + 29) :
    slot < s.store.operands.size := by
  obtain ⟨-, hle⟩ := depth_eq hm h hinst hbase
  have hsize := h.bounded.size
  simp only [maxOperandSlots] at hsize
  omega

/-- The operands of an instruction are there unless it is under-supplied in a
procedure with nothing below it on the stack. -/
theorem supplied_iff :
    Supplied s.store (innermost s) inst ↔ ¬ (UnderSupplied inst ∧ base = 0) := by
  constructor
  · rintro hsupplied ⟨hunder, rfl⟩
    have := hsupplied _ (touches_below_base hm h hinst hbase hunder)
    omega
  · intro hnot slot htouches
    obtain ⟨hlow, hhigh, hbelow⟩ := touches_bounds hm h hinst hbase htouches
    refine ⟨?_, slot_lt_size hm h hinst hbase hhigh⟩
    rcases Nat.eq_zero_or_pos base with hzero | hpos
    · have : slot ≠ base - 1 := fun heq => hnot ⟨hbelow heq, hzero⟩
      omega
    · omega

end

theorem supplied_of_depth (hnot : ¬ UnderSupplied inst) :
    Supplied (logged s.store (innermost s) inst) (innermost s) inst := by
  obtain ⟨base, -, hbase, -⟩ := exists_base hm h
  exact supplied_logged_iff.mpr ((supplied_iff hm h hinst hbase).mpr fun hunder => hnot hunder.1)

variable (himage : p.image = m) (hcontrol : s.control = .running (innermost s))

include himage hcontrol

/-- Running code breaks down exactly at an under-supplied instruction with
nothing below it on the stack. -/
theorem step_crash_iff (hbase : base? m.code (level s) (s :: past) = some base) :
    (Interpreter.step p s.store (innermost s)).2 = .crash ↔ UnderSupplied inst ∧ base = 0 := by
  have hsupplied := supplied_iff hm h hinst hbase
  rw [← supplied_logged_iff] at hsupplied
  rw [step_eq s.store (himage ▸ hinst)]
  constructor
  · intro hcrash
    apply Decidable.byContradiction
    intro hnot
    have heffect := execute_effect (p := p) (hsupplied.mpr hnot)
    obtain ⟨frame, rest, hframes, hinside, -⟩ := h.exists_frame hcontrol
    have hconst := h.constantOnTop hcontrol (logged_operands s.store (innermost s) inst)
    exact not_crash_of_effect hm himage hinst hframes hinside hconst heffect hcrash
  · intro hunder
    exact execute_crash fun hlogged => hsupplied.mp hlogged hunder

omit hcontrol in
/-- A procedure returns with the operands that were there before its call, one of
which has become its result. -/
theorem step_return (hop : inst.op = .leave) {index : Nat} {procedure : Procedure}
    {frames : List Frame} (hframes : (innermost s).frames = ⟨some index, procedure⟩ :: frames) :
    ∃ caller ps, latest? (s.outer.length, frames.length) (s :: past) = some caller ∧
      opAt? m.code caller.pc = some .call ∧
      (Interpreter.step p s.store (innermost s)).2 =
        .proceed ⟨caller.pc + 1, ps, caller.sp, caller.frames⟩ := by
  have hstacked := h.stacked
  rw [hframes] at hstacked
  obtain ⟨caller, base, rfl, rfl, -, hcall, hsp, hlatest, hplaced⟩ := hstacked.caller
  refine ⟨caller, (innermost s).ps + inst.operand, hlatest, hcall, ?_⟩
  have hrule := hm.rules.instructions _ inst hinst
  simp only [InstructionRule, hop] at hrule
  obtain ⟨inst', hinst', hdepth⟩ := hplaced.depth
  obtain rfl : inst = inst' := Option.some.inj (hinst.symm.trans hinst')
  rw [show caller.sp = (innermost s).sp by omega, step_eq s.store (himage ▸ hinst)]
  simp only [execute, hop, leave, hframes]

end

/-- The step that follows reads or writes the operand slot. Apart from the next
instruction `inst`, only the result of a host service goes to the stack. -/
def StepTouches (s : State δ Activation) (inst : AnnotatedInstruction) (slot : Int) : Prop :=
  match s.control with
  | .running a => Touches a inst slot
  | .serving a (.result _) => slot = (a.sp : Int) - 1
  | .serving _ _ => False

/-- What the depth in front of the next instruction `inst` says about the operand
stack, over the base of the innermost procedure. -/
structure DepthExact (m : Module) (p : Program) (past : List (State δ Activation))
    (s : State δ Activation) (base : Nat) (inst : AnnotatedInstruction) : Prop where
  aligned : inst.depth % 4 = 0
  count : ((innermost s).sp : Int) = base + inst.depth / 4
  returned : ∀ a, s.control = .running a → inst.op = .leave →
    ∀ index procedure frames, a.frames = ⟨some index, procedure⟩ :: frames →
      ∃ caller ps, latest? (s.outer.length, frames.length) (s :: past) = some caller ∧
        opAt? m.code caller.pc = some .call ∧
        (Interpreter.step p s.store a).2 =
          .proceed ⟨caller.pc + 1, ps, caller.sp, caller.frames⟩
  touched : ∀ slot, StepTouches s inst slot →
    (base : Int) - 1 ≤ slot ∧ slot < base + 29 ∧ (slot = base - 1 → UnderSupplied inst) ∧
      slot < ((p.maxCallDepth + 1) * maxOperandSlots : Nat)
  outOfRange : (∃ slot, StepTouches s inst slot ∧ ¬ (0 ≤ slot ∧ slot < s.store.operands.size)) ↔
    UnderSupplied inst ∧ base = 0
  crash : ∀ a, s.control = .running a →
    ((Interpreter.step p s.store a).2 = .crash ↔ UnderSupplied inst ∧ base = 0)

section

variable {m : Module} {p : Program} {past : List (State δ Activation)} {s : State δ Activation}
  {inst : AnnotatedInstruction} {base : Nat} (hm : Sound m) (h : Invariant m p past s)
  (hinst : m.code[(innermost s).pc]? = some inst)

include h hinst

theorem call_of_serving {a : Activation} {service : Service δ Word}
    (hcontrol : s.control = .serving a service) : inst.op = .call := by
  have hready := h.ready
  rw [hcontrol] at hready
  rw [innermost_serving hcontrol] at hinst
  exact Option.some.inj ((opAt?_eq_some hinst).symm.trans hready.1)

theorem touches_of_stepTouches {slot : Int} (htouches : StepTouches s inst slot) :
    Touches (innermost s) inst slot := by
  cases hcontrol : s.control with
  | running a =>
      simp only [StepTouches, hcontrol] at htouches
      rwa [innermost_running hcontrol]
  | serving a service =>
      have hop := call_of_serving h hinst hcontrol
      rw [touches_iff_of_pops (by simp [hop]) (by simp [hop, Opcode.pops]),
        innermost_serving hcontrol]
      cases service with
      | result value =>
          simp only [StepTouches, hcontrol] at htouches
          simp only [hop, Opcode.pops]
          omega
      | _ => simp [StepTouches, hcontrol] at htouches

include hm

theorem stepTouches_below_base (hbase : base? m.code (level s) (s :: past) = some base)
    (hunder : UnderSupplied inst) : StepTouches s inst ((base : Int) - 1) := by
  cases hcontrol : s.control with
  | running a =>
      have hbelow := touches_below_base hm h hinst hbase hunder
      rw [innermost_running hcontrol] at hbelow
      simpa only [StepTouches, hcontrol] using hbelow
  | serving a service =>
      have hop := call_of_serving h hinst hcontrol
      have hrule := hm.rules.instructions _ inst hinst
      simp only [InstructionRule, hop] at hrule
      simp only [UnderSupplied, hop, Opcode.pops] at hunder
      omega

theorem outOfRange_iff (hbase : base? m.code (level s) (s :: past) = some base) :
    (∃ slot, StepTouches s inst slot ∧ ¬ (0 ≤ slot ∧ slot < s.store.operands.size)) ↔
      UnderSupplied inst ∧ base = 0 := by
  constructor
  · rintro ⟨slot, htouches, hrange⟩
    have htouches' := touches_of_stepTouches h hinst htouches
    obtain ⟨hlow, hhigh, hbelow⟩ := touches_bounds hm h hinst hbase htouches'
    have hsize := slot_lt_size hm h hinst hbase hhigh
    exact ⟨hbelow (by omega), by omega⟩
  · rintro ⟨hunder, rfl⟩
    exact ⟨_, stepTouches_below_base hm h hinst hbase hunder, by omega⟩

theorem depthExact (himage : p.image = m)
    (hbase : base? m.code (level s) (s :: past) = some base) :
    DepthExact m p past s base inst := by
  obtain ⟨hdepth, hle⟩ := depth_eq hm h hinst hbase
  refine ⟨by omega, by omega, ?_, ?_, outOfRange_iff hm h hinst hbase, ?_⟩
  · intro a hcontrol hop index procedure frames hframes
    obtain rfl := innermost_running hcontrol
    exact step_return hm h hinst himage hop hframes
  · intro slot htouches
    obtain ⟨hlow, hhigh, hbelow⟩ :=
      touches_bounds hm h hinst hbase (touches_of_stepTouches h hinst htouches)
    refine ⟨hlow, hhigh, hbelow, ?_⟩
    rw [← h.bounded.size]
    exact slot_lt_size hm h hinst hbase hhigh
  · intro a hcontrol
    obtain rfl := innermost_running hcontrol
    exact step_crash_iff hm h hinst himage hcontrol hbase

end

/-- Static depths describe every run of every instance. -/
theorem static_depths_exact {name : String} {image : Image} {m : Module} {canCompile : Bool}
    {settings : Settings} {syscalls : Syscalls δ} {data : δ} {journal : Journal} {i : Instance δ}
    {past : List (State δ Activation)} {s : State δ Activation}
    (hload : Module.load name image = .ok m)
    (hcreate : Instance.create canCompile settings m syscalls data journal = .ok i)
    (hrun : Run i.program i.syscalls i.store past (.next s)) :
    i.program.maxCallDepth = settings.maxCallDepth ∧
    ∃ base inst, base? m.code (level s) (s :: past) = some base ∧
      m.code[(innermost s).pc]? = some inst ∧ DepthExact m i.program past s base inst := by
  obtain ⟨hm, himage, h⟩ := invariant_of_run hload hcreate hrun
  obtain ⟨base, inst, hbase, hinst, -, -⟩ := exists_base hm h
  refine ⟨?_, base, inst, hbase, hinst, depthExact hm h hinst himage hbase⟩
  rw [(create_eq_ok hcreate).1]

theorem static_depths_exact_unfedLoad : ∃ (i : Instance Unit) (s₀ s : State Unit Activation),
    Instance.create false {} unfedLoadModule {} () {} = .ok i ∧
    Run i.program i.syscalls i.store [s₀] (.next s) ∧
    ∃ base inst, base? unfedLoadModule.code (level s) [s, s₀] = some base ∧
      unfedLoadModule.code[(innermost s).pc]? = some inst ∧
      DepthExact unfedLoadModule i.program [s₀] s base inst := by
  obtain ⟨i, s₀, s, ps, hcreate, hrun, -, -⟩ := unfedLoad_run
  exact ⟨i, s₀, s, hcreate, hrun, (static_depths_exact load_unfedLoad hcreate hrun).2⟩

end SandboxVm.Proofs.OperandStack
