import SandboxVm.Proofs.BackendEquivalence
import SandboxVm.Proofs.CheckedAddresses
import SandboxVm.Proofs.StoredBytes
import SandboxVm.Proofs.SyscallTable

namespace SandboxVm.Proofs.ArgumentPassing

open SandboxVm.Interpreter
open SandboxVm.Proofs.VerificationRules
open SandboxVm.Proofs.LoadedModule
open SandboxVm.Proofs.InterpretedInstruction
open SandboxVm.Proofs.ControlTransfer
open SandboxVm.Proofs.MachineRun
open SandboxVm.Proofs.RunInvariant
open SandboxVm.Proofs.CallNesting
open SandboxVm.Proofs.CallBracket
open SandboxVm.Proofs.EntryCall
open SandboxVm.Proofs.OperandIsolation
open SandboxVm.Proofs.ArenaLayout
open SandboxVm.Proofs.BlockCopy
open SandboxVm.Proofs.StackPointer
open SandboxVm.Proofs.ProgramStack
open SandboxVm.Proofs.StackConfinement
open SandboxVm.Proofs.ArenaAccess
open SandboxVm.Proofs.StoredBytes
open SandboxVm.Proofs.SyscallTable
open SandboxVm.Proofs.CheckedAddresses (run_pushed step_push)

variable {δ : Type}

/-- A call finds its arguments behind the frame of the first procedure, and zeros in place
of those that are missing. -/
def PassesEntryArguments (p : Program) (syscalls : Syscalls δ) (store₀ : Store) : Prop :=
  ∀ (store : Store) (data : δ) (outer : List (Suspended δ Activation)) (args : List Word)
    (s s' : State δ Activation) (a a' : Activation),
    CallSite p syscalls store₀ store data outer args →
    Machine.call p syscalls store data outer args = .next s → s.control = .running a →
    Machine.step p syscalls s = .next s' → s'.control = .running a' →
    ∃ procedure, p.image.procedureAt? 0 = some procedure ∧ a'.frames = [⟨none, procedure⟩] ∧
      ∀ i < maxCallArgs, wordAt s'.store.arena
        (a'.ps.toInt + procedure.frameSize.toInt + 8 + 4 * i) = args.getD i 0

/-- A procedure that is called finds behind its own frame what its caller has stored in the
frame of that, from the third word on. -/
def PassesArguments (p : Program) (syscalls : Syscalls δ) (store₀ : Store) : Prop :=
  ∀ (s s₁ s₂ : State δ Activation) (a a₁ a₂ : Activation) (inst : AnnotatedInstruction),
    Reached p syscalls store₀ (.next s) → s.control = .running a →
    p.image.code[a.pc]? = some inst → inst.op = .call →
    Machine.step p syscalls s = .next s₁ → s₁.control = .running a₁ →
    Machine.step p syscalls s₁ = .next s₂ → s₂.control = .running a₂ →
    ∃ caller callers callee, a.frames = caller :: callers ∧
      a₂.frames = ⟨some (a.pc + 1), callee⟩ :: a.frames ∧
      a₂.ps.toInt + callee.frameSize.toInt = a.ps.toInt ∧
      ∀ i : Nat, 8 + 4 * (i : Int) < caller.procedure.frameSize.toInt →
        wordAt s₂.store.arena (a₂.ps.toInt + callee.frameSize.toInt + 8 + 4 * i) =
          wordAt s.store.arena (a.ps.toInt + 8 + 4 * i) ∧
        ∀ value, LastStored p syscalls store₀ (a.ps.toInt + 8 + 4 * i) value s →
          wordAt s₂.store.arena (a₂.ps.toInt + callee.frameSize.toInt + 8 + 4 * i) = value

/-- An `arg` stores the top operand at its place in the frame. -/
def StoresArguments (p : Program) (syscalls : Syscalls δ) (store₀ : Store) : Prop :=
  ∀ (s : State δ Activation) (a : Activation) (inst : AnnotatedInstruction) (value : Word),
    Reached p syscalls store₀ (.next s) → s.control = .running a →
    p.image.code[a.pc]? = some inst → inst.op = .arg → top? s.store a = some value →
    ∀ k < 4, storedByte? p s
      (around s.store.arena.size (a.ps.toInt + inst.operand.toInt) + k) = (Word.toBytes value)[k]?

/-- Whatever has been stored stays until something else is stored in its place. -/
def KeepsBytes (p : Program) (syscalls : Syscalls δ) (store₀ : Store) : Prop :=
  ∀ (t : Transition δ Activation) (seen : List (State δ Activation)) (s : State δ Activation),
    Reached p syscalls store₀ t → Steps p syscalls t seen (.next s) → ∀ j,
      s.store.arena.byteAt j =
        (seen.findSome? (storedByte? p · j)).getD ((storeOf t).arena.byteAt j)

/-- A `call` with a negative target asks the host service of that id, with as many arguments
as it takes, and goes on with its result in place of the target. Where there is no such
service, it fails. -/
def AsksServices (p : Program) (syscalls : Syscalls δ) (store₀ : Store)
    (definitions : List (Syscall δ)) : Prop :=
  ∀ (s : State δ Activation) (a : Activation) (inst : AnnotatedInstruction) (target : Word),
    Reached p syscalls store₀ (.next s) → s.control = .running a →
    p.image.code[a.pc]? = some inst → inst.op = .call → top? s.store a = some target →
    target.toInt < 0 →
    (∀ syscall ∈ definitions, (syscall.id.toNat : Int) = -1 - target.toInt →
      ∃ s₁ args, Machine.step p syscalls s = .next s₁ ∧
        s₁.control = .serving a (syscall.service args) ∧ s₁.outer = s.outer ∧ s₁.data = s.data ∧
        args.length = syscall.arity ∧
        (∀ i < syscall.arity,
          args[i]? = some (wordAt s.store.arena (a.ps.toInt + 8 + 4 * i))) ∧
        ∀ seen x value, Steps p syscalls (.next s₁) seen (.next x) →
          (∀ y ∈ x :: seen, Waits s.outer y) → x.outer.length = s.outer.length →
          x.control = .serving a (.result value) →
          ∃ s', Machine.step p syscalls x = .next s' ∧ GoesOnWith s s' a value) ∧
    ((∀ syscall ∈ definitions, (syscall.id.toNat : Int) ≠ -1 - target.toInt) →
      ∃ store id, (id.toNat : Int) = -1 - target.toInt ∧
        Machine.step p syscalls s = Machine.conclude store s.data s.bracket s.outer
          (.error ((Failure.ofTrap (.unknownSyscall id)).addContext
            (.site (store.site p (some a.pc))))))

/-! ### Steps of code that goes on -/

section

variable {p : Program} {syscalls : Syscalls δ} {s s' : State δ Activation} {a a' : Activation}
  {data : δ} {bracket : Bracket} {outer : List (Suspended δ Activation)}

theorem deliver_not_running {store : Store} {result : Except Failure Word}
    (h : Machine.deliver store data result outer = .next s') : s'.control ≠ .running a' := by
  intro hcontrol
  cases outer with
  | nil => cases h
  | cons w outer =>
      obtain rfl := Transition.next.inj h
      cases hcontrol

theorem perform_running {store : Store} {move : Move Activation}
    (h : Machine.perform p syscalls data bracket outer store move = .next s')
    (hcontrol : s'.control = .running a') : move = .proceed a' ∧ s'.store = store := by
  cases move with
  | proceed a =>
      obtain rfl := Transition.next.inj h
      obtain rfl := Control.running.inj hcontrol
      exact ⟨rfl, rfl⟩
  | finish value => exact absurd hcontrol (deliver_not_running h)
  | crash => cases h
  | trap a t => exact absurd hcontrol (deliver_not_running h)
  | syscall a id frame =>
      simp only [Machine.perform] at h
      split at h
      · exact absurd hcontrol (deliver_not_running h)
      · obtain rfl := Transition.next.inj h
        cases hcontrol

theorem step_running (hcontrol : s.control = .running a) (h : Machine.step p syscalls s = .next s')
    (hcontrol' : s'.control = .running a') : step p s.store a = (s'.store, .proceed a') := by
  rw [step_of_running p syscalls hcontrol] at h
  obtain ⟨hmove, hstore⟩ := perform_running h hcontrol'
  exact Prod.ext hstore.symm hmove

theorem step_result {value : Word} (hcontrol : s.control = .serving a (.result value)) :
    ∃ s', Machine.step p syscalls s = .next s' ∧
      s'.control = .running { a with pc := a.pc + 1 } ∧ s'.outer.length = s.outer.length := by
  obtain ⟨store, data, control, bracket, outer⟩ := s
  obtain rfl : control = .serving a (.result value) := hcontrol
  exact ⟨_, rfl, rfl, rfl⟩

variable {store store' : Store} {inst : AnnotatedInstruction}

theorem enter_goes_on (hinst : p.image.code[a.pc]? = some inst) (hop : inst.op = .enter)
    (h : step p store a = (store', .proceed a')) :
    store'.arena = store.arena ∧ a' = { a with ps := a.ps - inst.operand, pc := a.pc + 1 } := by
  rw [step_eq store hinst] at h
  simp only [execute, hop] at h
  split at h
  · cases h
  · obtain ⟨rfl, hmove⟩ := Prod.mk.inj h
    obtain rfl := Move.proceed.inj hmove
    exact ⟨note_arena .., rfl⟩

theorem call_goes_on (hinst : p.image.code[a.pc]? = some inst) (hop : inst.op = .call)
    (h : step p store a = (store', .proceed a')) :
    ∃ target callee, p.image.procedureAt? target = some callee ∧
      a' = ⟨target, a.ps, a.sp - 1, ⟨some (a.pc + 1), callee⟩ :: a.frames⟩ ∧
      store'.arena = writeAll store.arena [(a.ps, Int32.ofNat (a.pc + 1))] := by
  rw [step_eq store hinst] at h
  simp only [execute, hop, withTop_eq_match] at h
  split at h
  · rename_i target htop
    unfold call at h
    by_cases hneg : target < 0
    · simp only [if_pos hneg] at h
      cases (Prod.mk.inj h).2
    · simp only [if_neg hneg] at h
      rcases enterProcedure_cases p ((logged store a inst).write .four a.ps (Int32.ofNat (a.pc + 1)))
          { a with sp := a.sp - 1 } target.toInt.toNat (some (a.pc + 1)) with
        ⟨-, heq⟩ | ⟨callee, hcallee, ⟨-, heq⟩ | ⟨-, heq⟩⟩
      · rw [heq] at h
        cases (Prod.mk.inj h).2
      · rw [heq] at h
        cases (Prod.mk.inj h).2
      · rw [heq] at h
        obtain ⟨hstore, hmove⟩ := Prod.mk.inj h
        obtain rfl := Move.proceed.inj hmove
        refine ⟨_, callee, hcallee, rfl, ?_⟩
        rw [← hstore]
        simp only [write_arena, writeAll, logged, note_arena]
  · cases (Prod.mk.inj h).2

theorem call_requests {target : Word} (hinst : p.image.code[a.pc]? = some inst)
    (hop : inst.op = .call) (htop : top? store a = some target) (hneg : target < 0) :
    ∃ store', step p store a = (store', .syscall a (-1 - target).toUInt32 a.ps) ∧
      store'.arena = writeAll store.arena
        [(a.ps, Int32.ofNat (a.pc + 1)), (a.ps + 4, (-1 - target).toUInt32.toInt32)] := by
  rw [step_eq store hinst]
  simp only [execute, hop, withTop_eq_match, top?_logged, htop, call, if_pos hneg]
  refine ⟨_, rfl, ?_⟩
  simp only [write_arena, writeAll, logged, note_arena]

theorem call_running {args : List Word}
    (h : Machine.call p syscalls store data outer args = .next s) (hcontrol : s.control = .running a) :
    ∃ procedure, p.image.procedureAt? 0 = some procedure ∧ args.length ≤ maxCallArgs ∧
      a.pc = 0 ∧ a.frames = [⟨none, procedure⟩] ∧
      s.store.arena = writeAll store.arena (addressed a.ps (entryFrame args)) := by
  have harena : (storeAfter (Machine.call p syscalls store data outer args)).arena =
      writeAll store.arena (entryWrites p store args) := call_arena_eq ..
  rw [h] at harena
  rcases call_cases p syscalls store data outer args with
    ⟨-, failure, heq⟩ | ⟨-, failure, heq⟩ | ⟨hargs, hroom, arena, store', -, heq⟩
  · exact absurd hcontrol (deliver_not_running (heq.symm.trans h))
  · exact absurd hcontrol (deliver_not_running (heq.symm.trans h))
  · rw [entryWrites, if_neg (not_or.mpr ⟨Nat.not_lt.mpr hargs, hroom⟩)] at harena
    obtain ⟨hmove, -⟩ := perform_running (heq.symm.trans h) hcontrol
    rcases enterProcedure_cases p store'
        ⟨0, store.programStack - Int32.ofNat entryFrameSize, store'.operandTop, []⟩ 0 none with
      ⟨-, henter⟩ | ⟨procedure, hprocedure, ⟨-, henter⟩ | ⟨-, henter⟩⟩
    · rw [start, henter] at hmove
      cases hmove
    · rw [start, henter] at hmove
      cases hmove
    · rw [start, henter] at hmove
      obtain rfl := Move.proceed.inj hmove
      exact ⟨procedure, hprocedure, hargs, rfl, rfl, harena⟩

end

/-! ### Words that are not stored to -/

theorem wordAt_writeAll {a : Arena} (ha : Sized a) {writes : List (Word × Word)} {addr : Word}
    (haligned : addr.toInt % 4 = 0)
    (h : ∀ write ∈ writes, write.1.toInt % 4 = 0 ∧ write.1.toInt < addr.toInt ∧
      addr.toInt - write.1.toInt < a.size) :
    wordAt (writeAll a writes) addr.toInt = wordAt a addr.toInt := by
  rw [← load_eq_wordAt (ha.of_size (size_writeAll ..)) haligned, ← load_eq_wordAt ha haligned]
  apply load_writeAll ha
  intro write hwrite
  obtain ⟨hwriteAligned, hbelow, hnear⟩ := h write hwrite
  apply offset_ne ha <;> omega

theorem entryFrame_argument {args : List Word} (hargs : args.length ≤ maxCallArgs) {i : Nat}
    (hi : i < maxCallArgs) : (entryFrame args)[2 + i]? = some (args.getD i 0) := by
  rw [entryFrame, Nat.add_comm, List.getElem?_cons_succ, List.getElem?_cons_succ,
    List.getD_eq_getElem?_getD]
  rcases Nat.lt_or_ge i args.length with hgiven | hmissing
  · rw [List.getElem?_append_left hgiven, List.getElem?_eq_getElem hgiven]
    rfl
  · rw [List.getElem?_append_right hmissing, List.getElem?_eq_none hmissing,
      List.getElem?_replicate, if_pos (by omega)]
    rfl

theorem toNat_syscallId {target : Word} (hneg : target.toInt < 0) :
    ((-1 - target).toUInt32.toNat : Int) = -1 - target.toInt := by
  have hone : (-1 : Word).toInt = -1 := by decide
  have hlow := Int32.le_toInt target
  have hexact : (-1 - target).toInt = -1 - target.toInt := by
    rw [toInt_sub_exact (by omega) (by omega), hone]
  have hnonneg : 0 ≤ -1 - target := by
    rw [Int32.le_iff_toInt_le, hexact, Int32.toInt_zero]
    omega
  rw [Int32.toNat_toUInt32_of_le hnonneg, ← hexact]
  exact Int.toNat_of_nonneg (by omega)

/-! ### Where arguments are -/

section

variable {m : Module} {p : Program} {syscalls : Syscalls δ} {past : List (State δ Activation)}
  {s s' : State δ Activation} {a a' : Activation} {inst : AnnotatedInstruction}
  (horder : InOrder m p past s) (hcontrol : s.control = .running a)

include horder hcontrol

theorem syscallArgs_getElem? (hinst : m.code[a.pc]? = some inst) (hop : inst.op = .call)
    (index id : Word) {i arity : Nat} (harity : arity ≤ maxSyscallArgs) (hi : i < arity) :
    (Machine.syscallArgs (writeAll s.store.arena [(a.ps, index), (a.ps + 4, id)]) a.ps arity)[i]? =
      some (wordAt s.store.arena (a.ps.toInt + 8 + 4 * i)) := by
  obtain ⟨hlow, hhigh, haligned⟩ := horder.between hcontrol
  have hexact := horder.exactAt hcontrol hinst
  simp only [ExactAt, hop] at hexact
  obtain ⟨hid, -, hargs⟩ := hexact
  have haddr := hargs i (Nat.lt_of_lt_of_le hi harity)
  have hsized := sized_of_layout horder.layout
  have hleast := hsized.least
  simp only [maxSyscallArgs] at harity
  simp only [Machine.syscallArgs, List.getElem?_map, List.getElem?_range hi, Option.map_some]
  rw [load_eq_wordAt (hsized.of_size (size_writeAll ..)) (by omega), ← haddr,
    wordAt_writeAll hsized (by omega)]
  rintro write (_ | ⟨_, _ | ⟨_, ⟨⟩⟩⟩)
  · simp only
    omega
  · simp only
    omega

/-- Behind its `enter`, a procedure has its frame below the words it found. -/
theorem entered_frame {frame : Frame} {frames : List Frame} (hframes : a.frames = frame :: frames)
    (hpc : a.pc = frame.procedure.start) (h : Machine.step p syscalls s = .next s')
    (hcontrol' : s'.control = .running a') :
    a'.ps.toInt + frame.procedure.frameSize.toInt = a.ps.toInt ∧ a'.frames = a.frames ∧
      s'.store.arena = s.store.arena := by
  obtain ⟨frame', rest, hframes', hinside, -⟩ := horder.invariant.exists_frame hcontrol
  obtain ⟨rfl, -⟩ := List.cons.inj (hframes.symm.trans hframes')
  obtain ⟨enter, henter, hop, -⟩ := horder.sound.exists_enter hinside.mem
  rw [← hpc] at henter
  have hexact := horder.exactAt hcontrol henter
  simp only [ExactAt, hop] at hexact
  have hinst : p.image.code[a.pc]? = some enter := by rw [horder.image, henter]
  obtain ⟨harena, rfl⟩ := enter_goes_on hinst hop (step_running hcontrol h hcontrol')
  rw [operand_of_enter horder.sound hinside henter hop] at hexact ⊢
  refine ⟨?_, rfl, harena⟩
  simp only
  omega

end

/-! ### The receivers -/

section

variable {m : Module} {p : Program} {syscalls : Syscalls δ} {store₀ : Store}
  (horder : ∀ s : State δ Activation, Reached p syscalls store₀ (.next s) →
    ∃ past, InOrder m p past s)

include horder

theorem passes_entry_arguments : PassesEntryArguments p syscalls store₀ := by
  intro store data outer args s s' a a' hsite hcall hcontrol hstep hcontrol'
  obtain ⟨procedure, hprocedure, hargs, hpc, hframes, harena⟩ := call_running hcall hcontrol
  obtain ⟨past, hs⟩ := horder s (hcall ▸ hsite.reached)
  obtain ⟨hlow, hhigh, haligned⟩ := hs.between hcontrol
  have hbounded := hs.layout.bounded
  obtain ⟨hmem, hstart⟩ := hs.sound.procedureAt?_eq_some_iff.mp (hs.image ▸ hprocedure)
  obtain ⟨hps, hframes', hkept⟩ :=
    entered_frame hs hcontrol hframes (hpc.trans hstart.symm) hstep hcontrol'
  refine ⟨procedure, hprocedure, hframes'.trans hframes, ?_⟩
  intro i hi
  have hsized : Sized store.arena := by
    refine (sized_of_layout hs.layout).of_size ?_
    rw [harena, size_writeAll]
  have hleast := hsized.least
  have hlength := length_entryFrame hargs
  simp only [maxCallArgs] at hlength
  have hindex : i < 13 := hi
  obtain ⟨addr, haddr⟩ := exists_word (a.ps.toInt + 8 + 4 * i) (by omega) (by omega)
  rw [hps, ← haddr, hkept, ← load_eq_wordAt (sized_of_layout hs.layout) (by omega), harena]
  refine load_addressed hsized hlow ?_ ?_ (entryFrame_argument hargs hi) ?_
  · omega
  · omega
  · rw [haddr]
    omega

theorem passes_arguments : PassesArguments p syscalls store₀ := by
  intro s s₁ s₂ a a₁ a₂ inst hreached hcontrol hinst hop hstep hcontrol₁ hstep₁ hcontrol₂
  have hreached₁ : Reached p syscalls store₀ (.next s₁) := hstep ▸ hreached.step
  obtain ⟨past, hs⟩ := horder s hreached
  obtain ⟨past₁, hs₁⟩ := horder s₁ hreached₁
  obtain ⟨target, callee, hcallee, ha₁, harena⟩ :=
    call_goes_on hinst hop (step_running hcontrol hstep hcontrol₁)
  obtain ⟨-, hstart⟩ := hs.sound.procedureAt?_eq_some_iff.mp (hs.image ▸ hcallee)
  have hps₁ : a₁.ps = a.ps := by rw [ha₁]
  have hpc₁ : a₁.pc = callee.start := by rw [ha₁, hstart]
  have hframes₁ : a₁.frames = ⟨some (a.pc + 1), callee⟩ :: a.frames := by rw [ha₁]
  obtain ⟨hps, hframes₂, hkept⟩ := entered_frame hs₁ hcontrol₁ hframes₁ hpc₁ hstep₁ hcontrol₂
  obtain ⟨caller, callers, hframes, hinside, -⟩ := hs.invariant.exists_frame hcontrol
  have hsize := hs.sound.frameSize_bounds hinside.mem
  obtain ⟨hlow, hhigh, haligned⟩ := hs.between hcontrol
  have hsized := sized_of_layout hs.layout
  have hleast := hsized.least
  have hbounded := hsized.bounded
  rw [hps₁] at hps
  have hword : ∀ i : Nat, 8 + 4 * (i : Int) < caller.procedure.frameSize.toInt →
      wordAt s₂.store.arena (a₂.ps.toInt + callee.frameSize.toInt + 8 + 4 * i) =
        wordAt s.store.arena (a.ps.toInt + 8 + 4 * i) := by
    intro i hi
    obtain ⟨addr, haddr⟩ := exists_word (a.ps.toInt + 8 + 4 * i) (by omega) (by omega)
    rw [hps, ← haddr, hkept, harena]
    apply wordAt_writeAll hsized (by omega)
    rintro write (_ | ⟨_, ⟨⟩⟩)
    simp only
    omega
  refine ⟨caller, callers, callee, hframes, hframes₂.trans hframes₁, hps, ?_⟩
  intro i hi
  refine ⟨hword i hi, ?_⟩
  intro value hlast
  rw [hword i hi]
  refine wordAt_of_lastStored ?_ hlast
  intro x hx
  obtain ⟨past', hx'⟩ := horder x hx
  exact sized_of_layout hx'.layout

theorem stores_arguments : StoresArguments p syscalls store₀ := by
  intro s a inst value hreached hcontrol hinst hop htop k hk
  obtain ⟨past, hs⟩ := horder s hreached
  have hinst' : m.code[a.pc]? = some inst := hs.image ▸ hinst
  have hexact := hs.exactAt hcontrol hinst'
  have hrule := hs.sound.rules.instructions _ inst hinst'
  simp only [ExactAt, hop] at hexact
  simp only [InstructionRule, hop] at hrule
  obtain ⟨frameSize, -, -, -, hoperand⟩ := hrule
  have haligned := (hs.between hcontrol).2.2
  simp only [storedByte?, hcontrol, hinst, byteOfInstruction?, instructionWrites, hop, htop,
    byteOfWrites?, Option.none_or]
  rw [← hexact]
  exact byteOfStore?_word (sized_of_layout hs.layout) (by omega) hk

theorem asks_services {definitions : List (Syscall δ)} (hregisters : Registers syscalls definitions)
    (hresumes : Resumes p syscalls store₀) : AsksServices p syscalls store₀ definitions := by
  intro s a inst target hreached hcontrol hinst hop htop hneg
  obtain ⟨past, hs⟩ := horder s hreached
  have hlt : target < 0 := by
    rw [Int32.lt_iff_toInt_lt, Int32.toInt_zero]
    exact hneg
  obtain ⟨store', hstep, harena⟩ := call_requests hinst hop htop hlt
  have hid := toNat_syscallId hneg
  have hperform := step_of_running p syscalls hcontrol
  rw [hstep] at hperform
  constructor
  · intro syscall hmem hsame
    have hfind : syscalls.find? (-1 - target).toUInt32 = some syscall :=
      hregisters.find?.mpr ⟨hmem, UInt32.toNat_inj.mp (by omega)⟩
    obtain ⟨store₁, hnext⟩ : ∃ store₁, Machine.step p syscalls s = .next ⟨store₁, s.data,
        .serving a (syscall.service (Machine.syscallArgs store'.arena a.ps syscall.arity)),
        s.bracket, s.outer⟩ := by
      rw [hperform]
      simp only [Machine.perform, hfind]
      exact ⟨_, rfl⟩
    refine ⟨_, _, hnext, rfl, rfl, rfl, ?_, ?_, ?_⟩
    · simp only [Machine.syscallArgs, List.length_map, List.length_range]
    · intro i hi
      rw [harena]
      exact syscallArgs_getElem? hs hcontrol (hs.image ▸ hinst) hop _ _
        (hregisters.bounded syscall hmem) hi
    · intro seen x value hsteps hwaits hlength hresult
      -- The state behind `x` is running again, and code only goes on with a result.
      obtain ⟨s', hstep', hcontrol', hlength'⟩ := step_result hresult
      have hsteps' := hsteps.step
      rw [hstep'] at hsteps'
      obtain ⟨y, rest, value', hseen, hresult', hgoesOn⟩ := hresumes s _ s' a _ _ _ _ hreached
        hcontrol hnext rfl rfl hsteps' hwaits (hlength'.trans hlength) hcontrol'
      obtain ⟨rfl, -⟩ := List.cons.inj hseen
      obtain rfl : value = value' := by
        rw [hresult] at hresult'
        exact Service.result.inj (Control.serving.inj hresult').2
      exact ⟨s', hstep', hgoesOn⟩
  · intro hnone
    have hfind : syscalls.find? (-1 - target).toUInt32 = none := by
      rw [hregisters.find?_eq_none]
      rintro syscall hmem hsame
      exact hnone syscall hmem (hsame ▸ hid)
    refine ⟨store', _, hid, ?_⟩
    rw [hperform]
    simp only [Machine.perform, hfind]
    rfl

theorem keeps_bytes : KeepsBytes p syscalls store₀ := by
  intro t seen s hreached hsteps
  apply byteAt_of_steps hsteps
  intro x hx
  obtain ⟨earlier, hearlier, -⟩ := hsteps.of_mem hx
  obtain ⟨past, hx'⟩ := horder x (hreached.steps hearlier)
  exact sized_of_layout hx'.layout

end

/-- The first procedure, procedures that are called and host services receive their arguments
unchanged, in every run of every instance. -/
theorem arguments_reach_receivers {name : String} {image : Image} {m : Module} {canCompile : Bool}
    {settings : Settings} {definitions : List (Syscall δ)} {syscalls : Syscalls δ} {data : δ}
    {journal : Journal} {i : Instance δ} (hload : Module.load name image = .ok m)
    (hdefine : Syscalls.defineAll {} definitions = .ok syscalls)
    (hcreate : Instance.create canCompile settings m syscalls data journal = .ok i) :
    PassesEntryArguments i.program i.syscalls i.store ∧
    PassesArguments i.program i.syscalls i.store ∧
    StoresArguments i.program i.syscalls i.store ∧
    KeepsBytes i.program i.syscalls i.store ∧
    AsksServices i.program i.syscalls i.store definitions := by
  obtain ⟨hprogram, hsyscalls, -, hrest⟩ := create_eq_ok hcreate
  have himage : i.program.image = m := by rw [hprogram]
  have horder : ∀ s : State δ Activation, Reached i.program i.syscalls i.store (.next s) →
      ∃ past, InOrder m i.program past s := by
    intro s hreached
    obtain ⟨past, hrun⟩ := run_of_reached hreached
    exact ⟨past, inOrder_of_run hload hcreate hrun⟩
  have hregisters : Registers i.syscalls definitions := by
    rw [hsyscalls]
    exact registers_of_defineAll hdefine
  have hresumes : Resumes i.program i.syscalls i.store :=
    resumes (sound_of_load hload) himage hrest (create_idle hcreate)
  exact ⟨passes_entry_arguments horder, passes_arguments horder, stores_arguments horder,
    keeps_bytes horder, asks_services horder hregisters hresumes⟩

def echo : Syscall Unit := ⟨0, "echo", 1, fun args => .result (args.getD 0 0)⟩

theorem arguments_reach_asking : ∃ (i : Instance Unit) (s s₁ s₂ : State Unit Activation)
    (a a₁ : Activation) (args : List Word),
    Instance.create false {} askingModule ⟨[echo]⟩ () {} = .ok i ∧ s.control = .running a ∧
    (∀ i < maxCallArgs,
      wordAt s.store.arena (a.ps.toInt + (8 : Word).toInt + 8 + 4 * i) = [5].getD i 0) ∧
    Machine.step i.program i.syscalls s₁ = .next s₂ ∧
    s₂.control = .serving a₁ (echo.service args) ∧ args.length = 1 := by
  obtain ⟨i, hcreate⟩ := exists_create false {} askingModule (⟨[echo]⟩ : Syscalls Unit) () {}
    (by decide)
  have hdefine : Syscalls.defineAll {} [echo] = .ok ⟨[echo]⟩ := rfl
  obtain ⟨hpasses, -, -, -, hasks⟩ := arguments_reach_receivers load_asking hdefine hcreate
  obtain ⟨hprogram, -, -, hrest⟩ := create_eq_ok hcreate
  have himage : i.program.image = askingModule := by rw [hprogram]
  have hcode : ∀ {j : Nat} {inst : AnnotatedInstruction}, askingModule.code[j]? = some inst →
      i.program.image.code[j]? = some inst := by
    intro j inst hinst
    rw [himage, hinst]
  obtain ⟨s₀, s, ps, hcall, hcontrol₀, hstep, hrun, hcontrol⟩ := exists_entered load_asking hcreate
    mem_asking rfl (by decide) [5] (by decide) () (by decide)
  obtain ⟨procedure, -, hframes, hwords⟩ :=
    hpasses _ _ _ _ s₀ s _ _ (.first () [5]) hcall hcontrol₀ hstep hcontrol
  obtain rfl : { start := 0, last := 5, frameSize := 8 } = procedure := by simpa using hframes
  have hslots : 0 < s.store.operands.size := by
    rw [(inOrder_of_run load_asking hcreate hrun).invariant.bounded.size, hprogram]
    decide
  obtain ⟨store₁, hpush⟩ := step_push (a := ⟨1, ps - 8, 0, [⟨none, ⟨0, 5, 8, false⟩⟩]⟩)
    (hcode rfl) rfl hslots
  have hrun₁ := hrun.proceed hcontrol hpush
  have htop := run_pushed (sound_of_load load_asking) himage hrest hrun₁ _ rfl 1 _ (-1) rfl rfl rfl
  have hreached : Reached i.program i.syscalls i.store (.next s₀) := hcall ▸ .first () [5]
  have hreached₁ : Reached i.program i.syscalls i.store (.next s) := hstep ▸ hreached.step
  have hreached₂ := step_of_proceed hcontrol hpush ▸ hreached₁.step
  obtain ⟨hserved, -⟩ := hasks _ _ _ _ hreached₂ rfl (hcode rfl) rfl htop (by decide)
  obtain ⟨s₂, args, hask, hserving, -, -, hlength, -⟩ :=
    hserved echo (List.mem_singleton_self echo) (by decide)
  exact ⟨i, s, _, s₂, _, _, args, hcreate, hcontrol, hwords, hask, hserving, hlength⟩

end SandboxVm.Proofs.ArgumentPassing
