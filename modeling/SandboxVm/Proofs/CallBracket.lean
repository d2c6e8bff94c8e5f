import SandboxVm.Proofs.CallNesting
import SandboxVm.Proofs.OperandIsolation

namespace SandboxVm.Proofs.CallBracket

open SandboxVm.Interpreter
open SandboxVm.Proofs.VerificationRules
open SandboxVm.Proofs.LoadedModule
open SandboxVm.Proofs.CallRecord
open SandboxVm.Proofs.EngineTrace
open SandboxVm.Proofs.CallNesting
open SandboxVm.Proofs.InterpretedInstruction
open SandboxVm.Proofs.OperandAccess
open SandboxVm.Proofs.MachineRun
open SandboxVm.Proofs.FrameStack
open SandboxVm.Proofs.RunInvariant
open SandboxVm.Proofs.ArenaLayout
open SandboxVm.Proofs.EntryCall
open SandboxVm.Proofs.OperandStack
open SandboxVm.Proofs.OperandIsolation

variable {δ α : Type}

structure Restored (store store' : Store) : Prop where
  programStack : store'.programStack = store.programStack
  operandTop : store'.operandTop = store.operandTop
  callLevel : store'.callLevel = store.callLevel
  depth : store'.trace.depth = store.trace.depth
  entries : store'.trace.entries = store.trace.entries
  operands : ∀ slot, slot + 1 < store.operandTop → store'.operand? slot = store.operand? slot

/-- What the call that found `store` and the calls `outer` comes to. -/
inductive Bracketed (store : Store) (outer : List (Suspended δ α)) : Transition δ α → Prop where
  | inProgress {s : State δ α} (inner : List (Suspended δ α)) (h : s.outer = inner ++ outer) :
      Bracketed store outer (.next s)
  | ended {store' : Store} {data : δ} {result : Except Failure Word} (h : Restored store store') :
      Bracketed store outer (Machine.deliver store' data result outer)
  | crashed {store' : Store} {data : δ} : Bracketed store outer (.crashed store' data)

/-- Every call of every run that starts with `store₀` is bracketed up to the moment
when it is over. -/
def Brackets (α : Type) [Engine α] (p : Program) (syscalls : Syscalls δ) (store₀ : Store) : Prop :=
  ∀ (store : Store) (data : δ) (outer : List (Suspended δ α)) (args : List Word)
    (seen : List (State δ α)) (t : Transition δ α),
    CallSite p syscalls store₀ store data outer args →
    Steps p syscalls (Machine.call p syscalls store data outer args) seen t →
    (∀ s ∈ seen, outer.length ≤ s.outer.length) → Bracketed store outer t

/-! ### Operands below a call -/

def storeOf : Transition δ α → Store
  | .next s => s.store
  | .done store _ _ => store
  | .crashed store _ => store

theorem storeOf_deliver (store : Store) (data : δ) (result : Except Failure Word)
    (outer : List (Suspended δ α)) : storeOf (Machine.deliver store data result outer) = store := by
  cases outer <;> rfl

theorem storeAfter_eq (t : Transition δ Activation) : storeAfter t = storeOf t := by
  cases t <;> rfl

theorem Steps.operand? [Engine α] {p : Program} {syscalls : Syscalls δ} {t t' : Transition δ α}
    {seen : List (State δ α)} {slot : Nat} (h : Steps p syscalls t seen t')
    (hseen : ∀ s ∈ seen,
      (storeOf (Machine.step p syscalls s)).operand? slot = s.store.operand? slot) :
    (storeOf t').operand? slot = (storeOf t).operand? slot := by
  induction h with
  | refl => rfl
  | @step seen s h ih =>
      rw [hseen s (List.mem_cons_self ..)]
      exact ih fun x hx => hseen x (List.mem_cons_of_mem _ hx)

theorem bracketed_of_operands [Engine α] [Traced α] {p : Program} {syscalls : Syscalls δ}
    {store₀ store : Store} {data : δ} {outer : List (Suspended δ α)} {args : List Word}
    {seen : List (State δ α)} {t : Transition δ α} {capacity : Nat}
    (hidle : Idle (δ := δ) (α := α) capacity [] store₀)
    (hsite : CallSite p syscalls store₀ store data outer args)
    (hsteps : Steps p syscalls (Machine.call p syscalls store data outer args) seen t)
    (hseen : ∀ s ∈ seen, outer.length ≤ s.outer.length)
    (hcall : (storeOf (Machine.call p syscalls store data outer args)).operands = store.operands)
    (hoperands : ∀ s ∈ seen, InCall store.bracket outer s → ∀ slot, slot + 1 < store.operandTop →
      (storeOf (Machine.step p syscalls s)).operand? slot = s.store.operand? slot) :
    Bracketed store outer t := by
  obtain ⟨hnested, hidle'⟩ := hsite.idle hidle
  -- All states but the last are within the call, so nothing below its operands has changed.
  have hin : ∀ s ∈ seen, InCall store.bracket outer s := by
    intro s hs
    obtain ⟨earlier, hearlier, hmem⟩ := hsteps.of_mem hs
    have hprogress := hearlier.progress hnested hidle' fun x hx => hseen x (hmem x hx)
    exact (hprogress.inCall_of_length (hseen s hs)).2
  have hslots : ∀ slot, slot + 1 < store.operandTop →
      (storeOf t).operand? slot = store.operand? slot := by
    intro slot hslot
    rw [Steps.operand? hsteps fun s hs => hoperands s hs (hin s hs) slot hslot, Store.operand?,
      hcall]
    rfl
  cases hsteps.progress hnested hidle' hseen with
  | inCall hrecorded h =>
      obtain ⟨inner, houter, -⟩ := h
      exact .inProgress inner houter
  | ended hidle'' hps htop =>
      refine .ended ⟨hps, htop, ?_, ?_, ?_, ?_⟩
      · rw [hidle''.callLevel, hidle'.callLevel]
      · rw [hidle''.records.depth, hidle'.records.depth]
      · exact Array.toList_inj.mp (hidle''.records.entries.trans hidle'.records.entries.symm)
      · intro slot hslot
        rw [← hslots slot hslot, storeOf_deliver]
  | crashed => exact .crashed

/-! ### Compiled code -/

section

variable {p : Program} {syscalls : Syscalls δ} {store : Store} {data : δ} {bracket : Bracket}
  {outer : List (Suspended δ Native.Activation)}

theorem native_conclude_operands (store : Store) (data : δ) (bracket : Bracket)
    (outer : List (Suspended δ Native.Activation)) (result : Except Failure Word) :
    (storeOf (Machine.conclude store data bracket outer result)).operands = store.operands := by
  rw [Machine.conclude, storeOf_deliver]
  rfl

theorem native_perform_operands (move : Move Native.Activation) :
    (storeOf (Machine.perform p syscalls data bracket outer store move)).operands =
      store.operands := by
  cases move with
  | proceed a => rfl
  | finish value => exact native_conclude_operands ..
  | crash => rfl
  | trap a t =>
      simp only [Machine.perform]
      rw [native_conclude_operands]
      exact (Compiled.rejected_kept p store a (Failure.ofTrap t)).operands
  | syscall a id frame =>
      simp only [Machine.perform]
      split
      · rw [native_conclude_operands]
        exact (Compiled.rejected_kept p store a _).operands
      · rw [storeOf, note_operands]

theorem writeWords_operands (store : Store) (addr : Word) (words : List Word) :
    (store.writeWords addr words).operands = store.operands := by
  obtain ⟨arena, heq⟩ := writeWords_eq store addr words
  rw [heq]

theorem native_call_operands (args : List Word) :
    (storeOf (Machine.call p syscalls store data outer args)).operands = store.operands := by
  unfold Machine.call
  split
  · rw [storeOf_deliver]
  · simp only
    split
    · exact native_conclude_operands ..
    · rw [native_perform_operands]
      exact (Compiled.start_operands ..).trans (writeWords_operands ..)

theorem native_step_operands (s : State δ Native.Activation) :
    (storeOf (Machine.step p syscalls s)).operands = s.store.operands := by
  obtain ⟨store, data, control, bracket, outer⟩ := s
  cases control with
  | running a => exact (native_perform_operands _).trans (Compiled.step_operands ..)
  | serving a service =>
      cases service with
      | result value =>
          simp only [Machine.step, Machine.serve, storeOf, Engine.resume, Native.resume]
          split <;> rfl
      | fail failure =>
          simp only [Machine.step, Machine.serve]
          rw [native_conclude_operands]
          exact (Compiled.rejected_kept p store a failure).operands
      | reenter args next => exact native_call_operands args
      | _ => rfl

theorem native_brackets {store₀ : Store} {capacity : Nat}
    (hidle : Idle (δ := δ) (α := Native.Activation) capacity [] store₀) :
    Brackets Native.Activation p syscalls store₀ := by
  intro store data outer args seen t hsite hsteps hseen
  refine bracketed_of_operands hidle hsite hsteps hseen (native_call_operands args) ?_
  intro s hs hin slot hslot
  exact congrArg (·[slot]?) (native_step_operands s)

end

/-! ### Interpreted code -/

theorem run_of_reached {p : Program} {syscalls : Syscalls δ} {store : Store}
    {t : Transition δ Activation} (h : Reached p syscalls store t) :
    ∃ past, Run p syscalls store past t := by
  induction h with
  | first data args => exact ⟨[], .start data args⟩
  | step h ih =>
      obtain ⟨past, hrun⟩ := ih
      exact ⟨_, hrun.step⟩
  | again h data args ih =>
      obtain ⟨past, hrun⟩ := ih
      exact ⟨[], hrun.again data args⟩

section

variable {m : Module} {trace : List (State δ Activation)} {outer bottom pc sp : Nat}
  {frames : List Frame} (hm : Sound m)

include hm

theorem call_has_target {procedure : Procedure} {base : Nat} (h : Placed m procedure base pc sp)
    (hcall : opAt? m.code pc = some .call) : base < sp := by
  obtain ⟨inst, hinst, hdepth⟩ := h.depth
  have hrule := hm.rules.instructions pc inst hinst
  have hop : inst.op = .call := Option.some.inj ((opAt?_eq_some hinst).symm.trans hcall)
  simp only [InstructionRule, hop] at hrule
  omega

theorem Stacked.bottom_le (h : Stacked m trace outer bottom pc sp frames) :
    ∃ frame rest base, frames = frame :: rest ∧ Placed m frame.procedure base pc sp ∧
      base? m.code (outer, frames.length) trace = some base ∧ bottom ≤ base := by
  induction h with
  | entry hplaced hbase => exact ⟨_, [], bottom, rfl, hplaced, hbase, Nat.le_refl _⟩
  | @inner pc sp base procedure caller hcaller hcall hsp hlatest hplaced hbase ih =>
      obtain ⟨frame, rest, callerBase, -, hplaced', -, hle⟩ := ih
      have hlt := call_has_target hm hplaced' hcall
      exact ⟨_, _, base, rfl, hplaced, hbase, by omega⟩

theorem Suspends.operandTop_mono {b : Bracket} {inner outer : List (Suspended δ Activation)}
    (h : Suspends m trace b (inner ++ outer)) :
    (bottomBracket b inner).operandTop ≤ b.operandTop ∧
      Suspends m trace (bottomBracket b inner) outer := by
  induction inner generalizing b with
  | nil => exact ⟨Nat.le_refl _, h⟩
  | cons w inner ih =>
      obtain ⟨hstacked, hcall, htop, hdepth, hrest⟩ := h
      obtain ⟨frame, rest, base, -, hplaced, -, hle⟩ := Stacked.bottom_le hm hstacked
      have hlt := call_has_target hm hplaced hcall
      obtain ⟨hmono, hbottom⟩ := ih hrest
      exact ⟨by simp only [bottomBracket]; omega, hbottom⟩

variable {p : Program} {syscalls : Syscalls δ} {past : List (State δ Activation)}
  {s : State δ Activation} (himage : p.image = m) (h : Invariant m p past s)

include himage h

theorem step_operand?_below {slot : Nat} (hslot : slot + 1 < s.bracket.operandTop) :
    (storeOf (Machine.step p syscalls s)).operand? slot = s.store.operand? slot := by
  obtain ⟨frame, rest, base, hframes, hplaced, hbase, hle⟩ := Stacked.bottom_le hm h.stacked
  obtain ⟨inst, hinst, hdepth⟩ := hplaced.depth
  rw [← storeAfter_eq]
  cases hcontrol : s.control with
  | running a =>
      obtain rfl := innermost_running hcontrol
      have hbelow : ¬ Touches (innermost s) inst slot := by
        intro htouches
        have := (touches_bounds hm h hinst hbase htouches).1
        omega
      rw [step_operand?_of_running hcontrol, step_eq s.store (himage ▸ hinst),
        execute_operand? hbelow, Store.operand?, logged_operands]
      rfl
  | serving a service =>
      have hcall : opAt? m.code (innermost s).pc = some .call := by
        rw [opAt?_eq_some hinst, call_of_serving h hinst hcontrol]
      have hlt := call_has_target hm hplaced hcall
      rw [innermost_serving hcontrol] at hlt
      exact step_operand?_of_serving hcontrol (by omega)

end

theorem interpreter_brackets {m : Module} {p : Program} {syscalls : Syscalls δ} {store₀ : Store}
    {capacity : Nat} (hm : Sound m) (himage : p.image = m) (hrest : AtRest p store₀)
    (hidle : Idle (δ := δ) (α := Activation) capacity [] store₀) :
    Brackets Activation p syscalls store₀ := by
  intro store data outer args seen t hsite hsteps hseen
  refine bracketed_of_operands hidle hsite hsteps hseen ?_ ?_
  · rw [← storeAfter_eq]
    exact call_operands args
  · intro s hs hin slot hslot
    obtain ⟨earlier, hearlier, -⟩ := hsteps.of_mem hs
    obtain ⟨past, hrun⟩ := run_of_reached (hsite.reached.steps hearlier)
    have h : Invariant m p past s := run_keeps hm himage hrest hrun
    obtain ⟨inner, houter, hbottom⟩ := hin
    have hsuspends := h.suspends
    rw [houter] at hsuspends
    have hmono := (Suspends.operandTop_mono hm hsuspends).1
    rw [hbottom] at hmono
    exact step_operand?_below hm himage h (Nat.lt_of_lt_of_le hslot hmono)

/-! ### Suspended interpreted code -/

/-- The code `a` of the call that `s` is in goes on in `s'` behind its `call`, with the
value of a host service in place of the target and nothing else changed. -/
structure GoesOnWith (s s' : State δ Activation) (a : Activation) (value : Word) : Prop where
  control : s'.control = .running { a with pc := a.pc + 1 }
  bracket : s'.bracket = s.bracket
  outer : s'.outer = s.outer
  operands : ∀ slot, slot + 1 < a.sp → s'.store.operand? slot = s.store.operand? slot
  result : s'.store.operand? (a.sp - 1) = some value

/-- Whenever code that asked for a host service runs again, it goes on with what the
service gave last. -/
def Resumes (p : Program) (syscalls : Syscalls δ) (store₀ : Store) : Prop :=
  ∀ (s s₁ s' : State δ Activation) (a a₁ a' : Activation) (service : Service δ Word)
    (seen : List (State δ Activation)), Reached p syscalls store₀ (.next s) →
    s.control = .running a → Machine.step p syscalls s = .next s₁ →
    s₁.control = .serving a₁ service → s₁.outer.length = s.outer.length →
    Steps p syscalls (.next s₁) seen (.next s') → (∀ x ∈ seen, Waits s.outer x) →
    s'.outer.length = s.outer.length → s'.control = .running a' →
    ∃ x rest value, seen = x :: rest ∧ x.control = .serving a (.result value) ∧
      GoesOnWith s s' a value

section

variable {p : Program} {syscalls : Syscalls δ} {s s' : State δ Activation} {a a' : Activation}

theorem perform_serving {store : Store} {data : δ} {bracket : Bracket}
    {outer : List (Suspended δ Activation)} {move : Move Activation} {service : Service δ Word}
    (h : Machine.perform p syscalls data bracket outer store move = .next s')
    (hcontrol : s'.control = .serving a' service) (hlength : s'.outer.length = outer.length) :
    (∃ id frame, move = .syscall a' id frame) ∧ s'.bracket = bracket ∧ s'.outer = outer := by
  have hdeliver : ∀ (store : Store) (result : Except Failure Word),
      Machine.deliver store data result outer ≠ .next s' := by
    intro store result heq
    cases outer with
    | nil => cases heq
    | cons w outer =>
        obtain rfl := Transition.next.inj heq
        simp only [List.length_cons] at hlength
        omega
  cases move with
  | proceed a =>
      obtain rfl := Transition.next.inj h
      cases hcontrol
  | finish value => exact absurd h (hdeliver _ _)
  | crash => cases h
  | trap a t => exact absurd h (hdeliver _ _)
  | syscall a id frame =>
      simp only [Machine.perform] at h
      split at h
      · exact absurd h (hdeliver _ _)
      · obtain rfl := Transition.next.inj h
        obtain ⟨rfl, -⟩ := Control.serving.inj hcontrol
        exact ⟨⟨id, frame, rfl⟩, rfl, rfl⟩

theorem step_syscall {store : Store} {id : UInt32} {frame : Word}
    (h : (step p store a).2 = .syscall a' id frame) :
    a' = a ∧ ∀ slot, slot + 1 < a.sp → (step p store a).1.operand? slot = store.operand? slot := by
  cases hinst : p.image.code[a.pc]? with
  | none =>
      simp only [step, hinst] at h
      cases h
  | some inst =>
      rw [step_eq store hinst] at h ⊢
      by_cases hsupplied : Supplied (logged store a inst) a inst
      · have heffect := execute_effect (p := p) hsupplied
        rw [h] at heffect
        obtain ⟨rfl, hop⟩ := heffect.call_of_syscall
        refine ⟨rfl, ?_⟩
        intro slot hslot
        have hbelow : ¬ Touches a' inst slot := by
          rw [touches_iff_of_pops (by simp [hop]) (by simp [hop, Opcode.pops])]
          simp only [hop, Opcode.pops]
          omega
        rw [execute_operand? hbelow, Store.operand?, logged_operands]
        rfl
      · rw [execute_crash hsupplied] at h
        cases h

variable {m : Module} {past : List (State δ Activation)} {b : Bracket}
  {outer : List (Suspended δ Activation)} (hm : Sound m) (himage : p.image = m)
  (h : Invariant m p past s)

include hm himage h

/-- While code waits, nothing changes the operands below the target of its `call`. -/
theorem step_operand?_of_holds (hholds : Holds a b outer s) {slot : Nat} (hslot : slot + 1 < a.sp) :
    (storeOf (Machine.step p syscalls s)).operand? slot = s.store.operand? slot := by
  cases hholds with
  | serving hcontrol hbracket houter =>
      rw [← storeAfter_eq]
      exact step_operand?_of_serving hcontrol (by omega)
  | inside houter =>
      have hsuspends := h.suspends
      rw [houter] at hsuspends
      obtain ⟨hmono, -, -, htop, -⟩ := Suspends.operandTop_mono hm hsuspends
      simp only at htop
      exact step_operand?_below hm himage h (by omega)

end

theorem resumes {m : Module} {p : Program} {syscalls : Syscalls δ} {store₀ : Store}
    {capacity : Nat} (hm : Sound m) (himage : p.image = m) (hrest : AtRest p store₀)
    (hidle : Idle (δ := δ) (α := Activation) capacity [] store₀) : Resumes p syscalls store₀ := by
  intro s s₁ s' a a₁ a' service seen hreached hrunning hstep hserving hlength hsteps hseen hlength'
    hrunning'
  have hinvariant : ∀ x, Reached p syscalls store₀ (.next x) → ∃ past, Invariant m p past x := by
    intro x hx
    obtain ⟨past, hrun⟩ := run_of_reached hx
    exact ⟨past, run_keeps hm himage hrest hrun⟩
  have hreached₁ : Reached p syscalls store₀ (.next s₁) := by
    rw [← hstep]
    exact hreached.step
  have hrecorded : Recorded capacity s₁ := reached_records hidle hreached₁
  have hperform := step_of_running p syscalls hrunning
  obtain ⟨⟨id, frame, hmove⟩, hbracket, houter⟩ :=
    perform_serving (hperform.symm.trans hstep) hserving hlength
  obtain ⟨rfl, hcallOperands⟩ := step_syscall hmove
  have hholds : Holds a₁ s.bracket s.outer s₁ := .serving hserving hbracket houter
  have hwaiting : ∀ x ∈ seen, Reached p syscalls store₀ (.next x) ∧ Holds a₁ s.bracket s.outer x := by
    intro x hx
    obtain ⟨earlier, hearlier, hmem⟩ := hsteps.of_mem hx
    exact ⟨hreached₁.steps hearlier, (hearlier.holds hrecorded hholds
      (fun y hy => hseen y (hmem y hy)) (hseen x hx)).2⟩
  obtain ⟨x, rest, value, rfl, hsteps', hresult, hbracket', houter', rfl⟩ :=
    hsteps.resumes hrecorded hholds hseen hlength' hrunning' ⟨a₁, service, hserving⟩
  refine ⟨x, rest, value, rfl, hresult, rfl, hbracket', houter', ?_, ?_⟩
  · intro slot hslot
    have hpath := Steps.operand? hsteps fun y hy => by
      obtain ⟨hreached', hholds'⟩ := hwaiting y hy
      obtain ⟨past, hy'⟩ := hinvariant y hreached'
      exact step_operand?_of_holds hm himage hy' hholds' hslot
    have hfirst : (storeAfter (Machine.step p syscalls s)).operand? slot =
        (step p s.store a₁).1.operand? slot := step_operand?_of_running hrunning slot
    rw [hstep] at hfirst
    exact hpath.trans (hfirst.trans (hcallOperands slot hslot))
  · obtain ⟨past, hx⟩ := hinvariant x (hwaiting x (List.mem_cons_self ..)).1
    obtain ⟨base, inst, hbase, hinst, hdepth, -⟩ := exists_base hm hx
    rw [innermost_serving hresult] at hdepth
    have hle := (hm.rules.depths _ inst hinst).1
    have hsize : ((a₁.sp - 1 : Nat) : Int) < x.store.operands.size :=
      slot_lt_size hm hx hinst hbase (by omega)
    exact setOperand_operand? x.store (by omega) value

/-! ### Instances -/

/-- The call has not been cut short, neither by a breakdown nor for want of steps. -/
def Over : CallResult → Prop
  | .returned _ => True
  | .failed _ => True
  | .crashed => False
  | .unfinished => False

/-- The host comes from the instance `i` to another state of it by calls that are over
and by changes of its data. -/
inductive Used (i : Instance δ) : Instance δ → Prop where
  | new : Used i i
  | call {i' i'' : Instance δ} {fuel : Nat} {args : List Word} {result : CallResult}
      (h : Used i i') (hcall : i'.call fuel args = (i'', result)) (hover : Over result) : Used i i''
  | edit {i' : Instance δ} (h : Used i i') (data : δ) : Used i { i' with data }

/-- The host can go on with `i'` where it came to with `i`. -/
structure Continues (α : Type) [Engine α] (i i' : Instance δ) : Prop where
  program : i'.program = i.program
  syscalls : i'.syscalls = i.syscalls
  compiled : i'.compiled = i.compiled
  site : ∀ (data : δ) (args : List Word),
    CallSite (α := α) i.program i.syscalls i.store i'.store data [] args

section

variable [Engine α] {i i' i'' : Instance δ} {fuel : Nat} {args : List Word} {result : CallResult}

theorem callWith_over (h : i'.callWith α fuel args = (i'', result)) (hover : Over result) :
    ∃ r, i'' = { i' with store := i''.store, data := i''.data } ∧
      Machine.run i'.program i'.syscalls fuel (Machine.call (α := α) i'.program i'.syscalls i'.store
        i'.data [] args) = .done i''.store i''.data r := by
  simp only [Instance.callWith] at h
  split at h
  · obtain ⟨-, rfl⟩ := Prod.mk.inj h
    exact hover.elim
  · obtain ⟨-, rfl⟩ := Prod.mk.inj h
    exact hover.elim
  · rename_i hrun
    obtain ⟨rfl, -⟩ := Prod.mk.inj h
    exact ⟨_, rfl, hrun⟩
  · rename_i hrun
    obtain ⟨rfl, -⟩ := Prod.mk.inj h
    exact ⟨_, rfl, hrun⟩

theorem Continues.callWith (hcontinues : Continues α i i')
    (h : i'.callWith α fuel args = (i'', result)) (hover : Over result) : Continues α i i'' := by
  obtain ⟨r, heq, hrun⟩ := callWith_over h hover
  obtain ⟨seen, hsteps⟩ := steps_run i'.program i'.syscalls fuel
    (Machine.call (α := α) i'.program i'.syscalls i'.store i'.data [] args)
  rw [hrun, hcontinues.program, hcontinues.syscalls] at hsteps
  rw [heq]
  refine ⟨hcontinues.program, hcontinues.syscalls, hcontinues.compiled, ?_⟩
  exact .again ((hcontinues.site i'.data args).reached.steps hsteps)

theorem Continues.restored (hcontinues : Continues α i i')
    (hbrackets : Brackets α i.program i.syscalls i.store)
    (h : i'.callWith α fuel args = (i'', result)) (hover : Over result) :
    i''.program = i'.program ∧ Restored i'.store i''.store := by
  obtain ⟨r, heq, hrun⟩ := callWith_over h hover
  obtain ⟨seen, hsteps⟩ := steps_run i'.program i'.syscalls fuel
    (Machine.call (α := α) i'.program i'.syscalls i'.store i'.data [] args)
  rw [hrun, hcontinues.program, hcontinues.syscalls] at hsteps
  have hbracketed := hbrackets _ _ _ _ _ _ (hcontinues.site i'.data args) hsteps
    fun s hs => Nat.zero_le _
  refine ⟨by rw [heq], ?_⟩
  generalize ht : Transition.done i''.store i''.data r = t at hbracketed
  cases hbracketed with
  | inProgress inner h => cases ht
  | ended h =>
      obtain ⟨rfl, rfl, rfl⟩ := Transition.done.inj ht
      exact h
  | crashed => cases ht

end

theorem Used.continues {i i' : Instance δ} (h : Used i i') :
    if i.compiled then Continues Native.Activation i i' else Continues Activation i i' := by
  induction h with
  | new =>
      split
      · exact ⟨rfl, rfl, rfl, fun data args => .first data args⟩
      · exact ⟨rfl, rfl, rfl, fun data args => .first data args⟩
  | call h hcall hover ih =>
      unfold Instance.call at hcall
      by_cases hcompiled : i.compiled
      · rw [if_pos hcompiled] at ih ⊢
        rw [if_pos (ih.compiled ▸ hcompiled)] at hcall
        exact ih.callWith hcall hover
      · rw [if_neg hcompiled] at ih ⊢
        rw [if_neg (ih.compiled ▸ hcompiled)] at hcall
        exact ih.callWith hcall hover
  | edit h data ih =>
      by_cases hcompiled : i.compiled
      · rw [if_pos hcompiled] at ih ⊢
        exact ⟨ih.program, ih.syscalls, ih.compiled, ih.site⟩
      · rw [if_neg hcompiled] at ih ⊢
        exact ⟨ih.program, ih.syscalls, ih.compiled, ih.site⟩

theorem Used.restored {i i' i'' : Instance δ} {fuel : Nat} {args : List Word} {result : CallResult}
    (h : Used i i') (hcall : i'.call fuel args = (i'', result)) (hover : Over result)
    (hinterpreted : Brackets Activation i.program i.syscalls i.store)
    (hnative : Brackets Native.Activation i.program i.syscalls i.store) :
    i''.program = i'.program ∧ Restored i'.store i''.store := by
  have hcontinues := h.continues
  unfold Instance.call at hcall
  by_cases hcompiled : i.compiled
  · rw [if_pos hcompiled] at hcontinues
    rw [if_pos (hcontinues.compiled ▸ hcompiled)] at hcall
    exact hcontinues.restored hnative hcall hover
  · rw [if_neg hcompiled] at hcontinues
    rw [if_neg (hcontinues.compiled ▸ hcompiled)] at hcall
    exact hcontinues.restored hinterpreted hcall hover

theorem create_idle [Engine α] [Traced α] {canCompile : Bool} {settings : Settings} {m : Module}
    {syscalls : Syscalls δ} {data : δ} {journal : Journal} {i : Instance δ}
    (h : Instance.create canCompile settings m syscalls data journal = .ok i) :
    Idle (δ := δ) (α := α) settings.callTraceCapacity [] i.store := by
  simp only [Instance.create] at h
  split at h
  · cases h
  · rename_i trace htrace
    obtain rfl := Except.ok.inj h
    exact ⟨records_empty htrace, rfl⟩

/-- Calls restore what they found, in every run of every instance. -/
theorem calls_bracketed {name : String} {image : Image} {m : Module} {canCompile : Bool}
    {settings : Settings} {syscalls : Syscalls δ} {data : δ} {journal : Journal} {i : Instance δ}
    (hload : Module.load name image = .ok m)
    (hcreate : Instance.create canCompile settings m syscalls data journal = .ok i) :
    Brackets Activation i.program i.syscalls i.store ∧
    Brackets Native.Activation i.program i.syscalls i.store ∧
    Resumes i.program i.syscalls i.store ∧
    ∀ (i' i'' : Instance δ) (fuel : Nat) (args : List Word) (result : CallResult),
      Used i i' → i'.call fuel args = (i'', result) → Over result →
        i''.program = i'.program ∧ Restored i'.store i''.store := by
  obtain ⟨hprogram, -, -, hrest⟩ := create_eq_ok hcreate
  have hm := sound_of_load hload
  have himage : i.program.image = m := by rw [hprogram]
  have hinterpreted : Brackets Activation i.program i.syscalls i.store :=
    interpreter_brackets hm himage hrest (create_idle hcreate)
  have hnative : Brackets Native.Activation i.program i.syscalls i.store :=
    native_brackets (create_idle hcreate)
  refine ⟨hinterpreted, hnative, resumes hm himage hrest (create_idle hcreate), ?_⟩
  intro i' i'' fuel args result hused hcall hover
  exact hused.restored hcall hover hinterpreted hnative

section

variable {p : Program} (himage : p.image = askingModule)

include himage

omit himage in
theorem asking_room {size : Nat} {bottom ps : Word} {used : Int}
    (hlayout : Layout askingModule size bottom) (hps : ps.toInt = size - used) (hused : 0 ≤ used)
    (hfits : used + 72 ≤ programStackSize) :
    ¬ ps - Int32.ofNat entryFrameSize < bottom ∧ ¬ ps - Int32.ofNat entryFrameSize - 8 < bottom ∧
      (ps - Int32.ofNat entryFrameSize - 8 - 4).toInt = size - (used + 72) := by
  have hword : (Int32.ofNat entryFrameSize).toInt = 60 := by decide
  have height : (8 : Word).toInt = 8 := by decide
  have hfour : (4 : Word).toInt = 4 := by decide
  obtain ⟨hentry, hps₁⟩ := hlayout.room hps hused (n := Int32.ofNat entryFrameSize) (by omega)
    (by omega)
  obtain ⟨hframe, hps₂⟩ := hlayout.room hps₁ (n := 8) (by omega) (by omega) (by omega)
  obtain ⟨-, hps₃⟩ := hlayout.room hps₂ (n := 4) (by omega) (by omega) (by omega)
  exact ⟨hentry, hframe, by omega⟩

theorem asking_served {syscalls : Syscalls δ} {syscall : Syscall δ}
    (hfound : syscalls.find? 0 = some syscall) {store : Store} (data : δ)
    (outer : List (Suspended δ Activation))
    (hroom : ¬ store.programStack - Int32.ofNat entryFrameSize < p.stackBottom)
    (hframe : ¬ store.programStack - Int32.ofNat entryFrameSize - 8 < p.stackBottom)
    (hdepth : store.trace.depth < p.maxCallDepth) (hslot : store.operandTop < store.operands.size) :
    ∃ (s s' : State δ Activation) (a : Activation) (seen : List (State δ Activation))
      (args : List Word),
      Steps p syscalls (Machine.call p syscalls store data outer []) seen (.next s) ∧
      (∀ x ∈ seen, x.outer = outer) ∧ s.outer = outer ∧ s.control = .running a ∧
      Machine.step p syscalls s = .next s' ∧
      a = ⟨2, store.programStack - Int32.ofNat entryFrameSize - 8, store.operandTop + 1,
        [⟨none, ⟨0, 5, 8, false⟩⟩]⟩ ∧
      s'.control = .serving a (syscall.service args) ∧ s'.outer = outer ∧
      s'.store.trace = store.trace.push 0 ∧
      s'.store.programStack = store.programStack - Int32.ofNat entryFrameSize - 8 - 4 ∧
      s'.store.operandTop = store.operandTop + 1 := by
  obtain ⟨s₀, hcall, hbegins⟩ := call_eq_next syscalls data outer
    (show ([] : List Word).length ≤ maxCallArgs from Nat.zero_le _) hroom
    (procedureAt?_asking himage) hdepth
  rw [← hbegins.operands] at hslot
  obtain ⟨s₁, s₂, store₃, hfirst, hstays₁, hsecond, hstays₂, hcontrol₂, hask, hasking⟩ :=
    asking_asks syscalls himage hbegins.control hslot hframe
  obtain ⟨s₃, args, hserved, hstays₃, hserving, journal, hstore⟩ := step_served hcontrol₂ hask hfound
  have hsteps : Steps p syscalls (Machine.call p syscalls store data outer []) [] (.next s₀) :=
    hcall ▸ .refl
  have hsteps₂ := hsecond ▸ (hfirst ▸ hsteps.step).step
  refine ⟨s₂, s₃, _, _, args, hsteps₂, ?_, hstays₂.outer.trans hbegins.outer, hcontrol₂, hserved, rfl,
    hserving, (hstays₂.trans hstays₃).outer.trans hbegins.outer, ?_, ?_, ?_⟩
  · simp [hstays₁.outer, hbegins.outer]
  · rw [hstore]
    exact hasking.trace.trans hbegins.trace
  · rw [hstore]
    exact hasking.programStack
  · rw [hstore]
    exact hasking.operandTop

theorem asking_returns (syscalls : Syscalls δ) {s : State δ Activation} {a : Activation}
    {ps value : Word} {sp : Nat} {procedure : Procedure} (ha : a = ⟨2, ps, sp + 1, [⟨none, procedure⟩]⟩)
    (hcontrol : s.control = .serving a (.result value)) (hslot : sp < s.store.operands.size) :
    ∃ (s' : State δ Activation) (store : Store),
      Machine.step p syscalls s = .next s' ∧ s'.outer = s.outer ∧
      s'.control = .running { a with pc := a.pc + 1 } ∧
      Machine.step p syscalls s' =
        Machine.conclude store s.data s.bracket s.outer (.ok value) := by
  have hleave : p.image.code[3]? = some { op := .leave, operand := 8, depth := 4 } := by
    rw [himage]
    rfl
  subst ha
  obtain ⟨store, data, control, bracket, outer⟩ := s
  obtain rfl : control = .serving ⟨2, ps, sp + 1, [⟨none, procedure⟩]⟩ (.result value) := hcontrol
  obtain ⟨store', hends⟩ := step_leave syscalls
    (s := ⟨store.setOperand sp value, data, .running ⟨3, ps, sp + 1, [⟨none, procedure⟩]⟩, bracket,
      outer⟩) hleave rfl rfl (setOperand_operand? store hslot value)
  exact ⟨_, store', rfl, rfl, rfl, hends⟩

end

def sevenIfFailed : Except Failure Word → Service Unit Word
  | .ok value => .result value
  | .error _ => .result 7

/-- A service that calls the module again and gives 7 if that fails. -/
def patientService : Service Unit Word := .reenter [] sevenIfFailed

def patientSyscalls : Syscalls Unit where
  entries := [⟨0, "patient", 0, fun _ => patientService⟩]

section

variable {i : Instance Unit} (himage : i.program.image = askingModule)
  (hsyscalls : i.syscalls = patientSyscalls) (hlimit : i.program.maxCallDepth = 2)
  (hslots : ∀ {x : State Unit Activation}, Reached i.program i.syscalls i.store (.next x) →
    x.store.operands.size = 90)

include himage hsyscalls hlimit hslots

/-- The service of a first call calls the module again, and so does the service of that call. The
third call fails for want of room on the trace, so the second one returns 7. -/
theorem asking_nested {s : State Unit Activation} {a : Activation}
    (hreached : Reached i.program i.syscalls i.store (.next s))
    (hserving : s.control = .serving a patientService) (houter : s.outer = [])
    (hdepth : s.store.trace.depth = 1) (htop : s.store.operandTop = 1) {ps : Word}
    (hps : s.store.programStack = ps)
    (hroom : ¬ ps - Int32.ofNat entryFrameSize < i.program.stackBottom ∧
      ¬ ps - Int32.ofNat entryFrameSize - 8 < i.program.stackBottom)
    (hthird : ¬ ps - Int32.ofNat entryFrameSize - 8 - 4 - Int32.ofNat entryFrameSize <
      i.program.stackBottom) :
    ∃ (store : Store) (seen : List (State Unit Activation)),
      Steps i.program i.syscalls (Machine.step i.program i.syscalls s) seen
        (.next ⟨store, (), .serving a (.result 7), s.bracket, []⟩) ∧
      (∀ x ∈ seen, x.outer.length = 1) ∧
      ∃ x ∈ seen, ∃ a, x.control = .serving a patientService := by
  subst hps
  have hfound : i.syscalls.find? 0 = some ⟨0, "patient", 0, fun _ => patientService⟩ := by
    rw [hsyscalls]
    rfl
  have hstep : Machine.step i.program i.syscalls s = _ := step_of_reenter hserving
  obtain ⟨s₁, s₂, b, seen, args, hseen, hwithin, houter₁, -, hstep₁, hb, hserving₂, houter₂,
    htrace₂, hstack₂, -⟩ := asking_served himage hfound () (⟨a, s.bracket, sevenIfFailed⟩ :: s.outer)
      hroom.1 hroom.2 (by rw [hdepth, hlimit]; decide) (by rw [htop, hslots hreached]; decide)
  have hfull : i.program.maxCallDepth ≤ s₂.store.trace.depth := by
    rw [hlimit, htrace₂]
    exact Nat.succ_le_succ hdepth.ge
  rw [← hstack₂] at hthird
  obtain ⟨store₃, hfails⟩ := call_exhausted i.syscalls ()
    (⟨b, s₂.bracket, sevenIfFailed⟩ :: s₂.outer)
    (show ([] : List Word).length ≤ maxCallArgs from Nat.zero_le _) hthird
    (procedureAt?_asking himage) hfull
  have hstep₂ : Machine.step i.program i.syscalls s₂ = _ :=
    (step_of_reenter hserving₂).trans hfails
  have hsteps₃ := hstep₂ ▸ (hstep₁ ▸ hseen.step).step
  rw [← hstep] at hsteps₃
  have hreached₃ := hreached.step.steps hsteps₃
  obtain ⟨s₄, store₅, hstep₃, houter₄, -, hstep₄⟩ := asking_returns himage i.syscalls hb
    (s := ⟨store₃, (), .serving b (.result 7), s₂.bracket, s₂.outer⟩) rfl
    (by rw [hslots hreached₃, htop]; decide)
  rw [houter₂, houter] at hstep₄
  have hsteps₅ := hstep₄ ▸ (hstep₃ ▸ Steps.step hsteps₃).step
  refine ⟨_, _, hsteps₅, ?_, s₂, by simp, b, hserving₂⟩
  intro x hx
  have hone : x.outer = ⟨a, s.bracket, sevenIfFailed⟩ :: s.outer := by
    simp only [List.mem_cons] at hx
    rcases hx with rfl | rfl | rfl | rfl | hx
    · rw [houter₄, houter₂]
    · rw [houter₂]
    · rw [houter₂]
    · rw [houter₁]
    · rw [hwithin x hx]
  rw [hone, houter]
  rfl

end

theorem asking_nests {i : Instance Unit}
    (hcreate : Instance.create false { maxCallDepth := 2 } askingModule patientSyscalls () {} =
      .ok i) :
    ∃ (s₀ s₁ s₂ s₃ : State Unit Activation) (a : Activation)
      (before seen : List (State Unit Activation)) (store : Store),
      Steps i.program i.syscalls (Machine.call i.program i.syscalls i.store () [] []) before
        (.next s₀) ∧
      s₀.control = .running a ∧ s₀.outer = [] ∧ Machine.step i.program i.syscalls s₀ = .next s₁ ∧
      s₁.control = .serving a patientService ∧ s₁.outer = [] ∧
      Steps i.program i.syscalls (Machine.step i.program i.syscalls s₁) seen (.next s₂) ∧
      (∀ x ∈ seen, x.outer.length = 1) ∧ (∃ x ∈ seen, ∃ a, x.control = .serving a patientService) ∧
      s₂.control = .serving a (.result 7) ∧ s₂.outer = [] ∧
      Machine.step i.program i.syscalls s₂ = .next s₃ ∧ s₃.outer = [] ∧
      s₃.control = .running { a with pc := a.pc + 1 } ∧
      Machine.step i.program i.syscalls s₃ = .done store () (.ok 7) := by
  obtain ⟨hprogram, hsyscalls, -, hrest⟩ := create_eq_ok hcreate
  have himage : i.program.image = askingModule := by rw [hprogram]
  have hlimit : i.program.maxCallDepth = 2 := by rw [hprogram]
  have hslots : ∀ {x : State Unit Activation}, Reached i.program i.syscalls i.store (.next x) →
      x.store.operands.size = 90 := by
    intro x hx
    obtain ⟨past, hrun⟩ := run_of_reached hx
    rw [(invariant_of_run load_asking hcreate hrun).2.2.bounded.size, hlimit]
    rfl
  have hfound : i.syscalls.find? 0 = some ⟨0, "patient", 0, fun _ => patientService⟩ := by
    rw [hsyscalls]
    rfl
  -- There is room for all three calls, one below the other.
  obtain ⟨hlayout, hps⟩ := layout_of_create load_asking hcreate
  have htop : i.store.programStack.toInt = i.store.arena.size - 0 := by rw [hps, Int.sub_zero]
  obtain ⟨hentry, hframe, hbelow⟩ := asking_room hlayout htop (by decide) (by decide)
  obtain ⟨hentry', hframe', hbelow'⟩ := asking_room hlayout hbelow (by decide) (by decide)
  have hentry'' := hlayout.room (n := Int32.ofNat entryFrameSize) hbelow' (by decide) (by decide)
    (by decide)
  have hslot : i.store.operandTop < i.store.operands.size := by
    rw [hrest.operandTop, hrest.size, hlimit]
    decide
  obtain ⟨s₀, s₁, a, before, args, hbefore, -, houter₀, hrunning₀, hstep₀, ha, hserving₁, houter₁,
    htrace₁, hstack₁, htop₁⟩ := asking_served himage hfound () [] hentry hframe
      (by rw [hrest.depth, hlimit]; decide) hslot
  have hreached₁ := hstep₀ ▸ ((Reached.first () []).steps hbefore).step
  rw [hrest.operandTop] at ha htop₁
  have hdepth₁ : s₁.store.trace.depth = 1 := by
    rw [htrace₁]
    exact congrArg (· + 1) hrest.depth
  obtain ⟨store₂, seen, hseen, hwithin, hasks⟩ := asking_nested himage hsyscalls hlimit hslots
    hreached₁ hserving₁ houter₁ hdepth₁ htop₁ hstack₁ ⟨hentry', hframe'⟩ hentry''.1
  have hreached₂ := hreached₁.step.steps hseen
  obtain ⟨s₃, store₃, hstep₂, houter₃, hrunning₃, hstep₃⟩ := asking_returns himage i.syscalls ha
    (s := ⟨store₂, (), .serving a (.result 7), s₁.bracket, []⟩) rfl
    (by rw [hslots hreached₂]; decide)
  exact ⟨s₀, s₁, _, s₃, a, before, seen, _, hbefore, hrunning₀, houter₀, hstep₀, hserving₁, houter₁,
    hseen, hwithin, hasks, rfl, rfl, hstep₂, houter₃, hrunning₃, hstep₃⟩

theorem Bracketed.restored {store : Store} {w : Suspended δ α} {outer : List (Suspended δ α)}
    {s : State δ α} (h : Bracketed store (w :: outer) (.next s)) (houter : s.outer = outer) :
    Restored store s.store := by
  obtain ⟨store', data, control, bracket, outer'⟩ := s
  obtain rfl : outer' = outer := houter
  generalize ht : Transition.next _ = t at h
  cases h with
  | inProgress inner hinner =>
      obtain rfl := Transition.next.inj ht
      have hlength := congrArg List.length hinner
      simp only [List.length_append, List.length_cons] at hlength
      omega
  | ended h =>
      obtain ⟨rfl, -⟩ := State.mk.inj (Transition.next.inj ht)
      exact h
  | crashed => cases ht

/-- The service of a call calls the module again. While it waits the code of that call asks for the
service too, and all of this is undone before the first code goes on, with what its service gave. -/
theorem calls_bracketed_asking : ∃ (i i' : Instance Unit) (s₀ s₁ s₂ s₃ : State Unit Activation)
    (a : Activation) (seen : List (State Unit Activation)) (fuel : Nat),
    Module.load "asking" askingDraft.build = .ok askingModule ∧
    Instance.create false { maxCallDepth := 2 } askingModule patientSyscalls () {} = .ok i ∧
    Reached i.program i.syscalls i.store (.next s₀) ∧ s₀.control = .running a ∧
    Machine.step i.program i.syscalls s₀ = .next s₁ ∧ s₁.control = .serving a patientService ∧
    Steps i.program i.syscalls (Machine.step i.program i.syscalls s₁) seen (.next s₂) ∧
    (∀ x ∈ seen, x.outer.length = 1) ∧ (∃ x ∈ seen, ∃ a, x.control = .serving a patientService) ∧
    s₂.control = .serving a (.result 7) ∧ Restored s₁.store s₂.store ∧
    Machine.step i.program i.syscalls s₂ = .next s₃ ∧ GoesOnWith s₀ s₃ a 7 ∧
    i.call fuel [] = (i', .returned 7) ∧ Restored i.store i'.store := by
  obtain ⟨i, hcreate⟩ := exists_create false { maxCallDepth := 2 } askingModule patientSyscalls ()
    {} (by decide)
  have hcompiled : i.compiled = false := by
    obtain rfl := Except.ok.inj hcreate
    rfl
  obtain ⟨hbrackets, -, hresumes, hrestores⟩ := calls_bracketed load_asking hcreate
  obtain ⟨s₀, s₁, s₂, s₃, a, before, seen, store, hbefore, hrunning₀, houter₀, hstep₀, hserving₁,
    houter₁, hseen, hwithin, hasks, hserving₂, houter₂, hstep₂, houter₃, hrunning₃, hends⟩ :=
    asking_nests hcreate
  have hreached₀ : Reached i.program i.syscalls i.store (.next s₀) :=
    (Reached.first () []).steps hbefore
  have hreached₁ := hstep₀ ▸ hreached₀.step
  have hcons := steps_cons hseen
  have hsteps₁ := hstep₀ ▸ hbefore.step
  have hsteps₂ := hsteps₁.trans hcons
  have hsteps := hends ▸ (hstep₂ ▸ hsteps₂.step).step
  obtain ⟨fuel, hrun⟩ : ∃ fuel, Machine.run i.program i.syscalls fuel
      (Machine.call (α := Activation) i.program i.syscalls i.store () [] []) =
        .done store () (.ok 7) := ⟨_, hsteps.run⟩
  have hcall : i.call fuel [] = ({ i with store }, .returned 7) := by
    simp only [Instance.call, hcompiled, Instance.callWith, hrun]
    rfl
  have hnested : Bracketed s₁.store (⟨a, s₁.bracket, sevenIfFailed⟩ :: s₁.outer) (.next s₂) := by
    refine hbrackets _ _ _ _ _ _ (.nested hreached₁ hserving₁) (step_of_reenter hserving₁ ▸ hseen) ?_
    intro x hx
    rw [hwithin x hx, houter₁]
    rfl
  have hwaits : ∀ x ∈ s₂ :: (seen ++ [s₁]), Waits s₀.outer x := by
    intro x hx
    simp only [List.mem_cons, List.mem_append, List.not_mem_nil, or_false] at hx
    rw [houter₀]
    rcases hx with rfl | hx | rfl
    · exact .inr ⟨congrArg _ houter₂, _, _, hserving₂⟩
    · exact .inl (Nat.lt_of_lt_of_eq Nat.zero_lt_one (hwithin x hx).symm)
    · exact .inr ⟨congrArg _ houter₁, _, _, hserving₁⟩
  have hgoes : GoesOnWith s₀ s₃ a 7 := by
    obtain ⟨x, rest, value, hrest, hresult, hgoes⟩ := hresumes s₀ s₁ s₃ a a _ patientService _
      hreached₀ hrunning₀ hstep₀ hserving₁ (by rw [houter₁, houter₀]) (hstep₂ ▸ hcons.step) hwaits
      (by rw [houter₃, houter₀]) hrunning₃
    obtain ⟨rfl, -⟩ := List.cons.inj hrest
    obtain ⟨-, hvalue⟩ := Control.serving.inj (hserving₂.symm.trans hresult)
    obtain rfl := Service.result.inj hvalue
    exact hgoes
  exact ⟨i, _, s₀, s₁, s₂, s₃, a, seen, fuel, load_asking, hcreate, hreached₀, hrunning₀, hstep₀,
    hserving₁, hseen, hwithin, hasks, hserving₂, hnested.restored (houter₂.trans houter₁.symm),
    hstep₂, hgoes, hcall, (hrestores i _ _ [] _ .new hcall True.intro).2⟩

end SandboxVm.Proofs.CallBracket
