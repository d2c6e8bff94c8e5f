import SandboxVm.Proofs.OperandStack

namespace SandboxVm.Proofs.OperandIsolation

open SandboxVm.Interpreter
open SandboxVm.Proofs.VerificationRules
open SandboxVm.Proofs.LoadedModule
open SandboxVm.Proofs.InterpretedInstruction
open SandboxVm.Proofs.OperandAccess
open SandboxVm.Proofs.MachineRun
open SandboxVm.Proofs.RunInvariant
open SandboxVm.Proofs.EntryCall
open SandboxVm.Proofs.OperandStack

variable {δ : Type}

def Crashes : Transition δ Activation → Prop
  | .crashed _ _ => True
  | _ => False

def storeAfter : Transition δ Activation → Store
  | .next s => s.store
  | .done store _ _ => store
  | .crashed store _ => store

/-- The next instruction or host service keeps off the operands below `base`: it
changes none of them, and what an instruction does is the same whatever they are. -/
structure KeepsOff (p : Program) (syscalls : Syscalls δ) (s : State δ Activation) (base : Nat) :
    Prop where
  unchanged : ∀ slot, slot < base →
    (storeAfter (Machine.step p syscalls s)).operand? slot = s.store.operand? slot
  independent : ∀ a store', s.control = .running a →
    SameOn (fun slot => (base : Int) ≤ slot) s.store store' →
      Alike (fun slot => (base : Int) ≤ slot) (step p s.store a) (step p store' a)

/-- What becomes of the operands below the base of the innermost procedure, whose
next instruction is `inst`. -/
structure Isolation (p : Program) (syscalls : Syscalls δ) (s : State δ Activation) (base : Nat)
    (inst : AnnotatedInstruction) : Prop where
  below_iff : (∃ slot, StepTouches s inst slot ∧ slot < base) ↔ UnderSupplied inst
  keepsOff : ¬ UnderSupplied inst → KeepsOff p syscalls s base
  /-- An under-supplied instruction lacks one operand, and has a result to put there. -/
  lacks : UnderSupplied inst → inst.depth + 4 = 4 * inst.op.pops ∧ inst.op.pushes = 1
  /-- Apart from host services that break down, under-supplied instructions with
  nothing below the base are what breaks the machine down. -/
  crashes_iff : Crashes (Machine.step p syscalls s) ↔
    (∃ a, s.control = .serving a .crash) ∨
      ((∃ a, s.control = .running a) ∧ UnderSupplied inst ∧ base = 0)

section

variable {p : Program} {syscalls : Syscalls δ} {store : Store} {data : δ} {bracket : Bracket}
  {outer : List (Suspended δ Activation)}

theorem not_crashes_deliver (result : Except Failure Word) :
    ¬ Crashes (Machine.deliver store data result outer) := by
  cases outer <;> exact id

theorem not_crashes_conclude (result : Except Failure Word) :
    ¬ Crashes (Machine.conclude store data bracket outer result) :=
  not_crashes_deliver result

theorem crashes_perform_iff {move : Move Activation} :
    Crashes (Machine.perform p syscalls data bracket outer store move) ↔ move = .crash := by
  cases move with
  | crash => exact iff_of_true trivial rfl
  | proceed a => exact iff_of_false id (by simp)
  | finish value => exact iff_of_false (not_crashes_conclude _) (by simp)
  | trap a t => exact iff_of_false (not_crashes_conclude _) (by simp)
  | syscall a id frame =>
      refine iff_of_false ?_ (by simp)
      intro h
      simp only [Machine.perform] at h
      split at h
      · exact not_crashes_conclude _ h
      · exact h

theorem enterProcedure_ne_crash {a : Activation} {target : Nat} {returnTo : Option Nat} :
    (enterProcedure p store a target returnTo).2 ≠ .crash := by
  rcases enterProcedure_cases p store a target returnTo with
    ⟨-, heq⟩ | ⟨procedure, -, ⟨-, heq⟩ | ⟨-, heq⟩⟩ <;> simp [heq]

theorem not_crashes_call (args : List Word) :
    ¬ Crashes (Machine.call (α := Activation) p syscalls store data outer args) := by
  rcases call_cases p syscalls store data outer args with
    ⟨-, failure, heq⟩ | ⟨-, failure, heq⟩ | ⟨-, -, arena, store', rfl, heq⟩
  · rw [heq]
    exact not_crashes_deliver _
  · rw [heq]
    exact not_crashes_conclude _
  · rw [heq, crashes_perform_iff]
    exact enterProcedure_ne_crash

theorem crashes_step_iff {s : State δ Activation} : Crashes (Machine.step p syscalls s) ↔
    (∃ a, s.control = .serving a .crash) ∨
      ∃ a, s.control = .running a ∧ (step p s.store a).2 = .crash := by
  obtain ⟨store, data, control, bracket, outer⟩ := s
  cases control with
  | running a =>
      have hperform : Crashes (Machine.step p syscalls ⟨store, data, .running a, bracket, outer⟩) ↔
          (step p store a).2 = .crash := crashes_perform_iff
      simp [hperform]
  | serving a service =>
      cases service with
      | crash => exact iff_of_true trivial (Or.inl ⟨a, rfl⟩)
      | fail failure => exact iff_of_false (not_crashes_conclude _) (by simp)
      | reenter args next => exact iff_of_false (not_crashes_call args) (by simp)
      | _ => exact iff_of_false id (by simp)

theorem deliver_store (result : Except Failure Word) :
    storeAfter (Machine.deliver store data result outer) = store := by
  cases outer <;> rfl

theorem conclude_operands (store : Store) (data : δ) (bracket : Bracket)
    (outer : List (Suspended δ Activation)) (result : Except Failure Word) :
    (storeAfter (Machine.conclude store data bracket outer result)).operands = store.operands := by
  rw [Machine.conclude, deliver_store]
  rfl

theorem perform_operands (move : Move Activation) :
    (storeAfter (Machine.perform p syscalls data bracket outer store move)).operands =
      store.operands := by
  cases move with
  | crash => rfl
  | proceed a => rfl
  | finish value => exact conclude_operands ..
  | trap a t =>
      refine (conclude_operands ..).trans ?_
      exact note_operands ..
  | syscall a id frame =>
      simp only [Machine.perform]
      split
      · rw [conclude_operands]
        exact congrArg Store.operands (rejected_store ..)
      · rw [storeAfter, note_operands]

theorem call_operands (args : List Word) :
    (storeAfter (Machine.call (α := Activation) p syscalls store data outer args)).operands =
      store.operands := by
  rcases call_cases p syscalls store data outer args with
    ⟨-, failure, heq⟩ | ⟨-, failure, heq⟩ | ⟨-, -, arena, store', rfl, heq⟩
  · rw [heq, deliver_store]
  · rw [heq, conclude_operands]
  · rw [heq, perform_operands]
    exact Array.ext_getElem? fun slot => enterProcedure_operand?

theorem serve_operand? {a : Activation} {service : Service δ Word} {slot : Nat}
    (h : a.sp - 1 ≠ slot) :
    (storeAfter (Machine.serve p syscalls store data bracket outer a service)).operand? slot =
      store.operand? slot := by
  cases service with
  | result value => exact setOperand_operand?_ne store h value
  | fail failure =>
      have hoperands := conclude_operands (rejected p store a failure).1 data bracket outer
        (.error (rejected p store a failure).2)
      exact congrArg (·[slot]?) (hoperands.trans (congrArg Store.operands (rejected_store ..)))
  | reenter args next => exact congrArg (·[slot]?) (call_operands args)
  | _ => rfl

theorem step_operand?_of_running {s : State δ Activation} {a : Activation}
    (h : s.control = .running a) (slot : Nat) :
    (storeAfter (Machine.step p syscalls s)).operand? slot =
      (step p s.store a).1.operand? slot := by
  obtain ⟨store, data, control, bracket, outer⟩ := s
  obtain rfl : control = .running a := h
  exact congrArg (·[slot]?) (perform_operands _)

theorem step_operand?_of_serving {s : State δ Activation} {a : Activation}
    {service : Service δ Word} (h : s.control = .serving a service) {slot : Nat}
    (hslot : a.sp - 1 ≠ slot) :
    (storeAfter (Machine.step p syscalls s)).operand? slot = s.store.operand? slot := by
  obtain ⟨store, data, control, bracket, outer⟩ := s
  obtain rfl : control = .serving a service := h
  exact serve_operand? hslot

end

section

variable {m : Module} {p : Program} {past : List (State δ Activation)} {s : State δ Activation}
  {inst : AnnotatedInstruction} {base : Nat} (hm : Sound m) (himage : p.image = m)
  (h : Invariant m p past s) (hinst : m.code[(innermost s).pc]? = some inst)
  (hbase : base? m.code (level s) (s :: past) = some base)

include hm h hinst

theorem lacks_one_operand (hunder : UnderSupplied inst) :
    inst.depth + 4 = 4 * inst.op.pops ∧ inst.op.pushes = 1 := by
  obtain ⟨base, inst', -, hinst', hdepth, -⟩ := exists_base hm h
  obtain rfl : inst = inst' := Option.some.inj (hinst.symm.trans hinst')
  obtain ⟨-, hafter⟩ := hm.rules.depths _ inst hinst
  have hdelta := stackDelta_eq inst.op
  have hpushes := pushes_le_one inst.op
  unfold UnderSupplied at hunder
  omega

include hbase

theorem touches_above_base (hnot : ¬ UnderSupplied inst) {slot : Int}
    (htouches : Touches (innermost s) inst slot) : (base : Int) ≤ slot := by
  obtain ⟨hlow, -, hbelow⟩ := touches_bounds hm h hinst hbase htouches
  have : slot ≠ base - 1 := fun heq => hnot (hbelow heq)
  omega

include himage

theorem keepsOff_of_supplied (syscalls : Syscalls δ) (hnot : ¬ UnderSupplied inst) :
    KeepsOff p syscalls s base := by
  constructor
  · intro slot hslot
    cases hcontrol : s.control with
    | running a =>
        obtain rfl := innermost_running hcontrol
        have hbelow : ¬ Touches (innermost s) inst slot := fun htouches => by
          have := touches_above_base hm h hinst hbase hnot htouches
          omega
        rw [step_operand?_of_running hcontrol, step_eq s.store (himage ▸ hinst),
          execute_operand? hbelow, Store.operand?, logged_operands]
        rfl
    | serving a service =>
        have hrule := hm.rules.instructions _ inst hinst
        simp only [InstructionRule, call_of_serving h hinst hcontrol] at hrule
        obtain ⟨hdepth, -⟩ := depth_eq hm h hinst hbase
        rw [innermost_serving hcontrol] at hdepth
        exact step_operand?_of_serving hcontrol (by omega)
  · intro a store' hcontrol hsame
    obtain rfl := innermost_running hcontrol
    rw [step_eq s.store (himage ▸ hinst), step_eq store' (himage ▸ hinst)]
    exact (hsame.logged (innermost s) inst).execute
      fun slot => touches_above_base hm h hinst hbase hnot

theorem isolation (syscalls : Syscalls δ) : Isolation p syscalls s base inst := by
  refine ⟨⟨?_, ?_⟩, keepsOff_of_supplied hm himage h hinst hbase syscalls,
    lacks_one_operand hm h hinst, ?_⟩
  · rintro ⟨slot, htouches, hlt⟩
    apply Decidable.byContradiction
    intro hnot
    have := touches_above_base hm h hinst hbase hnot (touches_of_stepTouches h hinst htouches)
    omega
  · intro hunder
    exact ⟨_, stepTouches_below_base hm h hinst hbase hunder, by omega⟩
  · rw [crashes_step_iff]
    refine or_congr_right ⟨?_, ?_⟩
    · rintro ⟨a, hcontrol, hcrash⟩
      obtain rfl := innermost_running hcontrol
      exact ⟨⟨_, hcontrol⟩, (step_crash_iff hm h hinst himage hcontrol hbase).mp hcrash⟩
    · rintro ⟨⟨a, hcontrol⟩, hunder⟩
      obtain rfl := innermost_running hcontrol
      exact ⟨_, hcontrol, (step_crash_iff hm h hinst himage hcontrol hbase).mpr hunder⟩

end

/-- The operands below the base of a procedure are out of its reach but for its
under-supplied instructions, and runs break down only at these or in the host. -/
theorem operand_isolation_exact {name : String} {image : Image} {m : Module} {canCompile : Bool}
    {settings : Settings} {syscalls : Syscalls δ} {data : δ} {journal : Journal} {i : Instance δ}
    (hload : Module.load name image = .ok m)
    (hcreate : Instance.create canCompile settings m syscalls data journal = .ok i) :
    (∀ past s, Run i.program i.syscalls i.store past (.next s) →
      ∃ base inst, base? m.code (level s) (s :: past) = some base ∧
        m.code[(innermost s).pc]? = some inst ∧
        Isolation i.program i.syscalls s base inst) ∧
    ∀ past t, Run i.program i.syscalls i.store past t → Crashes t →
      ∃ s earlier, past = s :: earlier ∧ Run i.program i.syscalls i.store earlier (.next s) ∧
        t = Machine.step i.program i.syscalls s := by
  constructor
  · intro past s hrun
    obtain ⟨hm, himage, h⟩ := invariant_of_run hload hcreate hrun
    obtain ⟨base, inst, hbase, hinst, -, -⟩ := exists_base hm h
    exact ⟨base, inst, hbase, hinst, isolation hm himage h hinst hbase i.syscalls⟩
  · intro past t hrun hcrashes
    cases hrun with
    | start data args => exact absurd hcrashes (not_crashes_call args)
    | again hrun data args => exact absurd hcrashes (not_crashes_call args)
    | step hrun => exact ⟨_, _, rfl, hrun, rfl⟩

theorem operand_isolation_exact_unfedLoad : ∃ (i : Instance Unit) (s₀ s : State Unit Activation),
    Instance.create false {} unfedLoadModule {} () {} = .ok i ∧
    Run i.program i.syscalls i.store [s₀] (.next s) ∧
    Crashes (Machine.step i.program i.syscalls s) := by
  obtain ⟨i, s₀, s, ps, hcreate, hrun, hcontrol₀, hcontrol⟩ := unfedLoad_run
  refine ⟨i, s₀, s, hcreate, hrun, ?_⟩
  obtain ⟨base, inst, hbase, hinst, hisolation⟩ :=
    (operand_isolation_exact load_unfedLoad hcreate).1 _ s hrun
  obtain ⟨hm, -, h⟩ := invariant_of_run load_unfedLoad hcreate hrun
  obtain ⟨hdepth, -⟩ := depth_eq hm h hinst hbase
  rw [innermost_running hcontrol] at hinst hdepth
  obtain rfl : { op := .load .four, depth := 0 } = inst := Option.some.inj hinst
  have hzero : base = 0 := by
    simp only at hdepth
    omega
  exact hisolation.crashes_iff.mpr (Or.inr ⟨⟨_, hcontrol⟩, by decide, hzero⟩)

end SandboxVm.Proofs.OperandIsolation
