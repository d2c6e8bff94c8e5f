import SandboxVm.Proofs.InstructionSimulation

/-!
A step of the machine with compiled code is one step with interpreted code, or
two of them where a procedure is called. Failures end both in the same way, although
compiled procedures return one by one and interpreted ones all at once.
-/

namespace SandboxVm.Proofs.MachineSimulation

open SandboxVm.Proofs.LoadedModule
open SandboxVm.Proofs.InterpretedInstruction
open SandboxVm.Proofs.ControlTransfer
open SandboxVm.Proofs.MachineRun
open SandboxVm.Proofs.RunInvariant
open SandboxVm.Proofs.OperandStack
open SandboxVm.Proofs.CompiledSupply
open SandboxVm.Proofs.ArenaLayout
open SandboxVm.Proofs.ProgramStack
open SandboxVm.Proofs.EngineTrace
open SandboxVm.Proofs.Observation
open SandboxVm.Proofs.FrameCorrespondence
open SandboxVm.Proofs.InstructionSimulation

variable {δ : Type}

structure SameBracket (b b' : Bracket) : Prop where
  programStack : b.programStack = b'.programStack
  traceDepth : b.traceDepth = b'.traceDepth

/-- The calls that wait around a call which has found `top` operands. -/
inductive OuterAlike (m : Module) (s : Store) : (top : Nat) →
    List (Suspended δ Native.Activation) → List (Suspended δ Activation) → Prop where
  | nil {top : Nat} : OuterAlike m s top [] []
  | cons {w : Suspended δ Native.Activation} {w' : Suspended δ Activation}
      {outer : List (Suspended δ Native.Activation)} {outer' : List (Suspended δ Activation)}
      (hserved : ServedAlike m s w'.bracket.operandTop w.activation w'.activation)
      (hbracket : SameBracket w.bracket w'.bracket)
      (hnext : ∀ r r', resultWithoutPc r = resultWithoutPc r' → Twin (w.next r) (w'.next r'))
      (hrest : OuterAlike m s w'.bracket.operandTop outer outer') :
      OuterAlike m s w'.activation.sp (w :: outer) (w' :: outer')

def ControlAlike (m : Module) (s : Store) (bottom : Nat) :
    Control δ Native.Activation → Control δ Activation → Prop
  | .running b, .running a => ∃ base ps f callers, b.frames = f :: callers ∧
      RunsAlike m s bottom base ps f callers a
  | .serving b service, .serving a service' => ServedAlike m s bottom b a ∧ Twin service service'
  | _, _ => False

structure StateAlike (m : Module) (s : State δ Native.Activation) (s' : State δ Activation) :
    Prop where
  store : SameStore s.store s'.store
  data : s.data = s'.data
  control : ControlAlike m s'.store s'.bracket.operandTop s.control s'.control
  bracket : SameBracket s.bracket s'.bracket
  outer : OuterAlike m s'.store s'.bracket.operandTop s.outer s'.outer

inductive TransitionAlike (m : Module) :
    Transition δ Native.Activation → Transition δ Activation → Prop where
  | next {s : State δ Native.Activation} {s' : State δ Activation} (h : StateAlike m s s') :
      TransitionAlike m (.next s) (.next s')
  | done {store store' : Store} (hstore : SameStore store store') (data : δ)
      {r r' : Except Failure Word} (hresult : resultWithoutPc r = resultWithoutPc r') :
      TransitionAlike m (.done store data r) (.done store' data r')
  | crashed {store store' : Store} (hstore : SameStore store store') (data : δ) :
      TransitionAlike m (.crashed store data) (.crashed store' data)

/-- Compiled code is where interpreted code is, or where it will be after an `enter`. -/
inductive Simulates (m : Module) (p : Program) (syscalls : Syscalls δ) :
    Transition δ Native.Activation → Transition δ Activation → Prop where
  | now {t : Transition δ Native.Activation} {t' : Transition δ Activation}
      (h : TransitionAlike m t t') : Simulates m p syscalls t t'
  | soon {t : Transition δ Native.Activation} {s : State δ Activation}
      (hquiet : dispatch? p syscalls s = none)
      (h : TransitionAlike m t (Machine.step p syscalls s)) : Simulates m p syscalls t (.next s)

/-! ### Records of calls -/

theorem withoutPast_truncate_truncate (t : CallTrace) {depth depth' : Nat} (h : depth ≤ depth') :
    withoutPast ((t.truncate depth').truncate depth) = withoutPast (t.truncate depth) := by
  by_cases houter : depth' < t.depth
  · have hinner : depth < t.depth := by omega
    by_cases heq : depth < depth'
    · simp [CallTrace.truncate, withoutPast, houter, hinner, heq, Nat.min_eq_left h]
    · obtain rfl : depth = depth' := by omega
      simp [CallTrace.truncate, withoutPast, houter]
  · simp only [CallTrace.truncate, if_neg houter]

/-- To return one by one from the procedures above a depth is to return from all at once. -/
theorem withoutPast_leaveCalls {s : Store} {depth n : Nat} (h : s.trace.depth = depth + n) :
    withoutPast ((s.leaveCalls n).trace.truncate depth) =
      withoutPast (s.trace.truncate depth) := by
  induction n generalizing s with
  | zero => rfl
  | succ n ih =>
      have hdepth : s.leaveCall.trace.depth = depth + n := by
        have := pop_depth s.trace
        simp only [Store.leaveCall]
        omega
      rw [Store.leaveCalls, ih hdepth, Store.leaveCall, CallTrace.pop,
        withoutPast_truncate_truncate _ (by omega)]

/-! ### Host accesses -/

theorem hostRange_eq {arena : Arena} {addr : Word} (hpower : ∃ k, arena.size = 2 ^ k)
    (hsize : arena.size ≤ 2 ^ 29) (haddr : addr.toUInt32.toNat < arena.size) (len : Nat) :
    arena.hostRange .checked addr len = arena.hostRange .masked addr len := by
  obtain ⟨k, hk⟩ := hpower
  have hmask : arena.mask.toNat = 2 ^ k - 1 := by
    rw [Arena.mask, UInt32.toNat_ofNat', hk]
    exact Nat.mod_eq_of_lt (by omega)
  have hstart : arena.hostStart .masked addr = arena.hostStart .checked addr := by
    simp only [Arena.hostStart, UInt32.toNat_and, hmask]
    rw [Nat.and_two_pow_sub_one_eq_mod, Nat.mod_eq_of_lt (by omega)]
  simp only [Arena.hostRange, hstart]

/-! ### Ends of calls -/

section

variable {m : Module} {p : Program} {syscalls : Syscalls δ} {data : δ} {t s : Store} {top : Nat}
  {b b' : Bracket} {outer : List (Suspended δ Native.Activation)}
  {outer' : List (Suspended δ Activation)}

theorem OuterAlike.of_same {s' : Store} (h : OuterAlike m s top outer outer')
    (hsame : ∀ slot, slot < top → s'.operand? slot = s.operand? slot) :
    OuterAlike m s' top outer outer' := by
  induction h with
  | nil => exact .nil
  | cons hserved hbracket hnext hrest ih =>
      have hbottom := hserved.bottom_lt
      refine .cons (hserved.of_same fun slot hslot => hsame slot (by omega)) hbracket hnext ?_
      exact ih fun slot hslot => hsame slot (by omega)

theorem deliver_alike (hstore : SameStore t s) (houter : OuterAlike m s top outer outer')
    {r r' : Except Failure Word} (hresult : resultWithoutPc r = resultWithoutPc r') :
    TransitionAlike m (Machine.deliver t data r outer) (Machine.deliver s data r' outer') := by
  cases houter with
  | nil => exact .done hstore data hresult
  | cons hserved hbracket hnext hrest =>
      exact .next ⟨hstore, rfl, ⟨hserved, hnext r r' hresult⟩, hbracket, hrest⟩

theorem conclude_alike (harena : t.arena = s.arena) (hlevel : t.callLevel = s.callLevel)
    (htrace : withoutPast (t.trace.truncate b.traceDepth) =
      withoutPast (s.trace.truncate b.traceDepth))
    (hbracket : SameBracket b b') (houter : OuterAlike m s top outer outer')
    {r r' : Except Failure Word} (hresult : resultWithoutPc r = resultWithoutPc r') :
    TransitionAlike m (Machine.conclude t data b outer r)
      (Machine.conclude s data b' outer' r') := by
  have hstore : SameStore (t.conclude b) (s.conclude b') := by
    refine ⟨harena, hbracket.programStack, congrArg (· - 1) hlevel, ?_⟩
    simp only [Store.conclude, ← hbracket.traceDepth, htrace]
  exact deliver_alike hstore (houter.of_same fun slot _ => rfl) hresult

theorem leaveCalls_arena (n : Nat) : (t.leaveCalls n).arena = t.arena := by
  induction n generalizing t with
  | zero => rfl
  | succ n ih => exact ih

variable {a : Native.Activation} {a' : Activation} (hstore : SameStore t s)
  (hdepth : t.trace.depth = b.traceDepth + a.frames.length) (hbracket : SameBracket b b')
  (houter : OuterAlike m s top outer outer')

include hstore hdepth hbracket houter

theorem rejected_alike {failure failure' : Failure}
    (hfailure : withoutPc failure = withoutPc failure') :
    TransitionAlike m
      (Machine.conclude (Native.rejected p t a failure).1 data b outer
        (.error (Native.rejected p t a failure).2))
      (Machine.conclude (Interpreter.rejected p s a' failure').1 data b' outer'
        (.error (Interpreter.rejected p s a' failure').2)) := by
  have hlocated : failure.isLocated = failure'.isLocated := by
    rw [← isLocated_withoutPc failure, hfailure, isLocated_withoutPc]
  have harena : (t.leaveCalls a.frames.length).arena = s.arena :=
    (leaveCalls_arena _).trans hstore.arena
  have hlevel : (t.leaveCalls a.frames.length).callLevel = s.callLevel :=
    (Compiled.leaveCalls_kept t _).callLevel.trans hstore.callLevel
  have htrace := (withoutPast_leaveCalls hdepth).trans
    (withoutPast_truncate hstore.trace b.traceDepth)
  unfold Native.rejected Interpreter.rejected
  rw [hlocated]
  split
  · exact conclude_alike harena hlevel htrace hbracket houter
      (congrArg Except.error hfailure)
  · have hentries := (withoutPast_eq_iff.mp hstore.trace).1
    refine conclude_alike ?_ ?_ ?_ hbracket houter (congrArg Except.error ?_)
    · rw [note_arena, harena]
    · rw [note_callLevel, hlevel]
    · rw [note_trace, htrace]
    · simp only [withoutPc_addContext, hfailure, contextWithoutPc, Store.site, hentries]

theorem trapped_alike (k : Trap) :
    TransitionAlike m (Machine.perform p syscalls data b outer t (.trap a k))
      (Machine.perform p syscalls data b' outer' s (.trap a' k)) := by
  let s' := s.note .debug fun _ =>
    p.image.name ++ ": " ++ k.message ++ " at instruction " ++ toString a'.pc
  have hstore' : SameStore t s' := hstore.note_right _ _
  have houter' : OuterAlike m s' top outer outer' :=
    houter.of_same fun slot _ => note_operand? _ _ _ slot
  have hgiven : TransitionAlike m
      (Machine.conclude (Native.rejected p t a (Failure.ofTrap k)).1 data b outer
        (.error (Native.rejected p t a (Failure.ofTrap k)).2))
      (Machine.conclude (Interpreter.rejected p s' a' (Failure.ofTrap k)).1 data b' outer'
        (.error (Interpreter.rejected p s' a' (Failure.ofTrap k)).2)) :=
    rejected_alike hstore' hdepth hbracket houter' rfl
  exact hgiven

end

/-! ### Steps -/

section

variable {α : Type} [Engine α] {p : Program} {syscalls : Syscalls δ} {s : State δ α} {a : α}

theorem step_running (h : s.control = .running a) : Machine.step p syscalls s =
    Machine.perform p syscalls s.data s.bracket s.outer (Engine.step p s.store a).1
      (Engine.step p s.store a).2 := by
  obtain ⟨store, data, control, bracket, outer⟩ := s
  obtain rfl : control = .running a := h
  rfl

theorem step_serving {service : Service δ Word} (h : s.control = .serving a service) :
    Machine.step p syscalls s =
      Machine.serve p syscalls s.store s.data s.bracket s.outer a service := by
  obtain ⟨store, data, control, bracket, outer⟩ := s
  obtain rfl : control = .serving a service := h
  rfl

end

section

variable {m : Module} (hm : Sound m) {p : Program} (himage : p.image = m) {syscalls : Syscalls δ}
  {data : δ} {t s : Store} {b b' : Bracket} {outer : List (Suspended δ Native.Activation)}
  {outer' : List (Suspended δ Activation)}

include hm

include himage in
theorem step_enter {procedure : Procedure} {a : Activation} (hmem : procedure ∈ m.procedures)
    (hpc : a.pc = procedure.start) : ∃ enter, Interpreter.step p s a =
      (logged s a enter,
        if a.ps - procedure.frameSize < p.stackBottom then .trap a .stackOverflow
        else .proceed { a with ps := a.ps - procedure.frameSize, pc := a.pc + 1 }) := by
  obtain ⟨enter, henter, hop, -⟩ := hm.exists_enter hmem
  refine ⟨enter, ?_⟩
  rw [step_eq s (by rw [himage, hpc]; exact henter), (hm.mem_procedures_iff.mp hmem).frameSize
    enter henter]
  simp only [Interpreter.execute, hop]
  split <;> rfl

theorem sized_entryFrameOf {procedure : Procedure} (hmem : procedure ∈ m.procedures) (ps : Word) :
    Sized m (entryFrameOf procedure ps) := by
  obtain ⟨enter, henter, hop, hzero⟩ := hm.exists_enter hmem
  have hspan := (hm.mem_procedures_iff.mp hmem).span
  have hinside : Inside m procedure procedure.start :=
    ⟨hmem, Nat.le_refl _, Nat.le_trans (Nat.le_add_right _ 2) hspan.le⟩
  obtain ⟨-, after, hafter, hne, hdepth⟩ := hinside.next hm henter (by simp [hop])
  simp only [hop, Opcode.stackDelta] at hdepth
  exact ⟨after, hafter, hne, by simp only [entryFrameOf, List.length_nil]; omega⟩

variable (hdiscreet : Discreet syscalls) (hbracket : SameBracket b b')

include himage hdiscreet hbracket

theorem perform_simulates {move : Move Native.Activation} {move' : Move Activation}
    (houter : OuterAlike m s b'.operandTop outer outer')
    (h : AnswersAlike m p b'.operandTop b.traceDepth (t, move) (s, move')) :
    Simulates m p syscalls (Machine.perform p syscalls data b outer t move)
      (Machine.perform p syscalls data b' outer' s move') := by
  cases h with
  | proceed hstore hruns =>
      exact .now (.next ⟨hstore, rfl, ⟨_, _, _, _, rfl, hruns⟩, hbracket, houter⟩)
  | finish hstore value =>
      exact .now (conclude_alike hstore.arena hstore.callLevel
        (withoutPast_truncate hstore.trace _) hbracket houter rfl)
  | trap hstore hdepth k => exact .now (trapped_alike hstore hdepth hbracket houter k)
  | @syscall _ _ waiting a id frame hstore hserved hdepth =>
      simp only [Machine.perform]
      cases hfound : syscalls.find? id with
      | none => exact .now (rejected_alike hstore hdepth hbracket houter rfl)
      | some syscall =>
          simp only [hstore.arena]
          refine .now (.next ⟨?_, rfl, ⟨?_, ?_⟩, hbracket, ?_⟩)
          · dsimp only
            exact (hstore.note_left _ _).note_right _ _
          · exact hserved.of_same fun slot _ => note_operand? _ _ _ slot
          · exact hdiscreet id syscall hfound _
          · exact houter.of_same fun slot _ => note_operand? _ _ _ slot
  | @entering _ _ callers a procedure returnTo frames hstore hmem hpc hframes hwaits hdepth =>
      -- Interpreted code is still in front of the `enter`, and one step behind.
      obtain ⟨enter, hstep⟩ := step_enter (s := s) hm himage hmem hpc
      have hstore' : SameStore t (logged s a enter) := hstore.note_right _ _
      have houter' : OuterAlike m (logged s a enter) b'.operandTop outer outer' :=
        houter.of_same fun slot _ => note_operand? _ _ _ slot
      refine .soon ?_ ?_
      · simp only [dispatch?, Engine.step, hstep]
        split <;> rfl
      · simp only [Machine.step, Engine.step, hstep]
        split
        · exact trapped_alike hstore' hdepth hbracket houter' _
        · refine .next ⟨hstore', rfl, ⟨a.sp, a.ps, _, _, rfl, ?_⟩, hbracket, houter'⟩
          refine ⟨congrArg (· + 1) hpc.symm, rfl, rfl, rfl, sized_entryFrameOf hm hmem _,
            True.intro, _, _, hframes, rfl, ?_⟩
          exact hwaits.of_same fun slot _ => note_operand? _ _ _ slot

theorem start_simulates (hstore : SameStore t s)
    (houter : OuterAlike m s b'.operandTop outer outer')
    (hdepth : t.trace.depth = b.traceDepth) (htop : s.operandTop = b'.operandTop) (frame : Word) :
    Simulates m p syscalls
      (Machine.perform p syscalls data b outer (Native.start p t frame).1
        (Native.start p t frame).2)
      (Machine.perform p syscalls data b' outer' (Interpreter.start p s frame).1
        (Interpreter.start p s frame).2) := by
  have hwaits : WaitsAlike m s b'.operandTop s.operandTop frame none [] [] := by
    rw [htop]
    exact .entry
  have hdepth' : t.trace.depth = b.traceDepth + ([] : List Native.Frame).length := hdepth
  have hanswers : AnswersAlike m p b'.operandTop b.traceDepth (Native.start p t frame)
      (Interpreter.start p s frame) :=
    enterProcedure_answers hm himage hstore (a := ⟨0, frame, s.operandTop, []⟩) hdepth' hwaits 0
  refine perform_simulates hm himage hdiscreet hbracket (houter.of_same fun slot _ => ?_) hanswers
  exact OperandAccess.enterProcedure_operand?

omit hm himage hdiscreet in
theorem resume_alike {a : Native.Activation} {a' : Activation} (hstore : SameStore t s)
    (hserved : ServedAlike m s b'.operandTop a a')
    (houter : OuterAlike m s b'.operandTop outer outer') (hroom : a'.sp ≤ s.operands.size)
    (value : Word) : StateAlike m
      { store := (Native.resume t a value).1, data, bracket := b, outer
        control := .running (Native.resume t a value).2 }
      { store := (Interpreter.resume s a' value).1, data, bracket := b', outer := outer'
        control := .running (Interpreter.resume s a' value).2 } := by
  obtain ⟨sp, hsp, hwaits⟩ := hserved
  have hbottom := hwaits.bottom_le
  have hslot : a'.sp - 1 = sp := by omega
  have hsame : ∀ slot, slot < sp → (s.setOperand sp value).operand? slot = s.operand? slot :=
    fun slot hlt => setOperand_operand?_ne s (by omega) value
  obtain ⟨g, rest, base, ps, hframes, hruns⟩ :=
    (hwaits.of_same hsame).resume (setOperand_operand? s (by omega) value)
  have hnative : Native.resume t a value = (t, ⟨answered g value :: rest⟩) := by
    simp only [Native.resume, hframes, answered]
  rw [hnative]
  simp only [Interpreter.resume, hslot]
  rw [← hsp] at hruns
  refine ⟨hstore.setOperand _ _, rfl, ⟨base, ps, _, _, rfl, hruns⟩, hbracket, ?_⟩
  exact houter.of_same fun slot hlt => hsame slot (by omega)

omit hm himage hdiscreet hbracket in
theorem writeWords_alike (hstore : SameStore t s) (addr : Word) (words : List Word) :
    SameStore (t.writeWords addr words) (s.writeWords addr words) := by
  induction words generalizing t s addr with
  | nil => exact hstore
  | cons w words ih =>
      rw [Store.writeWords, Store.writeWords]
      exact ih (hstore.write .four addr w) (addr + 4)

omit hbracket in
/-- A call into the instance, by the host or by a host service. -/
theorem call_simulates (hstore : SameStore t s) (houter : OuterAlike m s s.operandTop outer outer')
    (args : List Word) :
    Simulates m p syscalls (Machine.call p syscalls t data outer args)
      (Machine.call p syscalls s data outer' args) := by
  have hbracket : SameBracket t.bracket s.bracket := ⟨hstore.programStack, hstore.depth_eq⟩
  have hentered : SameStore
      { t with callLevel := t.callLevel + 1, programStack := s.programStack }
      { s with callLevel := s.callLevel + 1 } :=
    ⟨hstore.arena, rfl, congrArg (· + 1) hstore.callLevel, hstore.trace⟩
  have houter' : OuterAlike m { s with callLevel := s.callLevel + 1 } s.operandTop outer outer' :=
    houter.of_same fun slot _ => rfl
  unfold Machine.call
  split
  · exact .now (deliver_alike hstore houter rfl)
  · simp only [hstore.programStack]
    split
    · refine .now (conclude_alike hentered.arena hentered.callLevel
        (withoutPast_truncate hentered.trace _) hbracket houter' (congrArg Except.error ?_))
      simp only [withoutPc_addContext, contextWithoutPc, Store.site,
        (withoutPast_eq_iff.mp hstore.trace).1]
    · have hwritten := writeWords_alike hentered (s.programStack - Int32.ofNat entryFrameSize)
        (entryFrame args)
      obtain ⟨arena, heq⟩ := writeWords_eq { s with callLevel := s.callLevel + 1 }
        (s.programStack - Int32.ofNat entryFrameSize) (entryFrame args)
      obtain ⟨arena', heq'⟩ := writeWords_eq
        { t with callLevel := t.callLevel + 1, programStack := s.programStack }
        (s.programStack - Int32.ofNat entryFrameSize) (entryFrame args)
      rw [heq, heq'] at hwritten
      rw [heq, heq']
      exact start_simulates hm himage hdiscreet hbracket hwritten
        (houter.of_same fun slot _ => rfl) rfl rfl _

theorem serve_simulates {a : Native.Activation} {a' : Activation}
    {service service' : Service δ Word} (hstore : SameStore t s)
    (hserved : ServedAlike m s b'.operandTop a a') (htwin : Twin service service') (houter : OuterAlike m s b'.operandTop outer outer')
    (hdepth : t.trace.depth = b.traceDepth + a.frames.length) (htop : s.operandTop = a'.sp)
    (hroom : a'.sp ≤ s.operands.size) (hpower : ∃ k, s.arena.size = 2 ^ k)
    (hsize : s.arena.size ≤ 2 ^ 29) (hinside : InArena s.arena service') :
    Simulates m p syscalls (Machine.serve p syscalls t data b outer a service)
      (Machine.serve p syscalls s data b' outer' a' service') := by
  have hwait : ∀ {service service' : Service δ Word} (data : δ), Twin service service' →
      Simulates m p syscalls (.next ⟨t, data, .serving a service, b, outer⟩)
        (.next ⟨s, data, .serving a' service', b', outer'⟩) :=
    fun data htwin => .now (.next ⟨hstore, rfl, ⟨hserved, htwin⟩, hbracket, houter⟩)
  cases htwin with
  | result value => exact .now (.next (resume_alike hbracket hstore hserved houter hroom value))
  | fail hfailure => exact .now (rejected_alike hstore hdepth hbracket houter hfailure)
  | crash => exact .now (.crashed hstore data)
  | getData hnext => exact hwait data (hnext data)
  | modifyData f hnext => exact hwait (f data) hnext
  | arenaSize hnext =>
      simp only [Machine.serve, hstore.arena]
      exact hwait data (hnext _)
  | read addr len hnext =>
      simp only [Machine.serve, Engine.access, hstore.arena, Arena.hostRead,
        hostRange_eq hpower hsize hinside]
      exact hwait data (hnext _)
  | write addr bytes hnext =>
      simp only [Machine.serve, Engine.access, hstore.arena, Arena.hostWrite,
        hostRange_eq hpower hsize hinside]
      refine .now (.next ⟨?_, rfl, ⟨hserved.of_same fun slot _ => rfl, hnext _⟩, hbracket,
        houter.of_same fun slot _ => rfl⟩)
      exact ⟨rfl, hstore.programStack, hstore.callLevel, hstore.trace⟩
  | readCString addr hnext =>
      simp only [Machine.serve, Engine.access, hstore.arena, Arena.hostCString,
        hostRange_eq hpower hsize hinside]
      exact hwait data (hnext _)
  | moduleName hnext => exact hwait data (hnext _)
  | callTrace hnext => exact hwait data (hnext _ _ hstore.trace)
  | @reenter args next next' hnext =>
      refine call_simulates hm himage hdiscreet hstore ?_ args
      rw [htop]
      exact @OuterAlike.cons δ m s ⟨a, b, next⟩ ⟨a', b', next'⟩ outer outer' hserved hbracket
        hnext houter

end

section

variable {m : Module} (hm : Sound m) {p : Program} (himage : p.image = m)
  (hcompiles : Native.firstRefused? m = none) {syscalls : Syscalls δ}
  {past : List (State δ Activation)} {s : State δ Native.Activation} {s' : State δ Activation}
  (hinvariant : Invariant m p past s') (h : StateAlike m s s')

include hm hcompiles hinvariant

theorem exists_poised {a : Activation} (hinnermost : innermost s' = a) :
    ∃ inst, m.code[a.pc]? = some inst ∧ ¬ UnderSupplied inst ∧
      Supplied (logged s'.store a inst) a inst := by
  subst hinnermost
  obtain ⟨frame, rest, base, -, hplaced, -, -⟩ := hinvariant.stacked.innermost
  obtain ⟨inst, hinst⟩ := hplaced.inside.exists_inst hm
  have hnot := not_underSupplied hm hcompiles hplaced.inside hinst
  exact ⟨inst, hinst, hnot, supplied_of_depth hm hinvariant hinst hnot⟩

theorem sp_le_size_of_serving {a : Activation} {service : Service δ Word}
    (hcontrol : s'.control = .serving a service) : a.sp ≤ s'.store.operands.size := by
  have hinnermost := innermost_serving hcontrol
  obtain ⟨inst, hinst, -, hsupplied⟩ := exists_poised hm hcompiles hinvariant hinnermost
  have hop : inst.op = .call := call_of_serving hinvariant (hinnermost ▸ hinst) hcontrol
  have hbounds := (supplied_iff_of_pops (by simp [hop]) (by simp [hop, Opcode.pops])).mp hsupplied
  rw [logged_operands] at hbounds
  exact hbounds.2

include himage h

theorem running_answers {a : Native.Activation} {a' : Activation}
    (hcontrol : s.control = .running a) (hcontrol' : s'.control = .running a') :
    AnswersAlike m p s'.bracket.operandTop s.bracket.traceDepth (Native.step p s.store a)
        (Interpreter.step p s'.store a') ∧
      ∀ slot, slot < s'.bracket.operandTop →
        (Interpreter.step p s'.store a').1.operand? slot = s'.store.operand? slot := by
  have hinnermost := innermost_running hcontrol'
  obtain ⟨inst, hinst, hnot, hsupplied⟩ := exists_poised hm hcompiles hinvariant hinnermost
  have hruns := h.control
  rw [hcontrol, hcontrol'] at hruns
  obtain ⟨base, ps, f, callers, hframes, hruns⟩ := hruns
  have hsame : ∀ slot, (logged s'.store a' inst).operand? slot = s'.store.operand? slot :=
    fun slot => note_operand? _ _ _ slot
  have hruns' : RunsAlike m (logged s'.store a' inst) s'.bracket.operandTop base ps f callers a' :=
    hruns.of_same fun slot _ => hsame slot
  have hposed : Poised m (logged s'.store a' inst) a' inst :=
    ⟨hinst, hinvariant.exists_frame hcontrol',
      hinvariant.constantOnTop hcontrol' (logged_operands ..), hsupplied, hnot⟩
  have hdepth : s.store.trace.depth = s.bracket.traceDepth + (f :: callers).length := by
    rw [h.store.depth_eq, hinvariant.depth, hinnermost, h.bracket.traceDepth, hruns.length_eq]
  have hnative : Native.step p s.store a = Native.execute p s.store f callers inst := by
    have hat : p.image.code[f.pc]? = some inst := by rw [himage, hruns.pc_eq, hinst]
    simp only [Native.step, hframes, hat]
  rw [step_eq s'.store (himage ▸ hinst), hnative]
  refine ⟨execute_answers hposed hruns' hm himage (h.store.note_right _ _) hdepth, ?_⟩
  intro slot hslot
  rw [execute_operand?_below hposed hruns' (Nat.lt_of_lt_of_le hslot hruns.bottom_le), hsame]

theorem dispatch?_eq : dispatch? p syscalls s = dispatch? p syscalls s' := by
  have hcontrol := h.control
  cases hb : s.control with
  | serving b service =>
      cases ha : s'.control with
      | running a => simp [hb, ha, ControlAlike] at hcontrol
      | serving a service' => simp only [dispatch?, hb, ha]
  | running b =>
      cases ha : s'.control with
      | serving a service' => simp [hb, ha, ControlAlike] at hcontrol
      | running a =>
          have hanswers := (running_answers hm himage hcompiles hinvariant h hb ha).1
          simp only [dispatch?, hb, ha, Engine.step]
          exact hanswers.dispatchOf?_eq syscalls

variable (hdiscreet : Discreet syscalls) (hpower : ∃ k, s'.store.arena.size = 2 ^ k)
  (hsize : s'.store.arena.size ≤ 2 ^ 29)
  (hinside : ∀ a service, s'.control = .serving a service → InArena s'.store.arena service)

include hdiscreet hpower hsize hinside

/-- A step with compiled code is one step or two with interpreted code. -/
theorem step_simulates :
    Simulates m p syscalls (Machine.step p syscalls s) (Machine.step p syscalls s') := by
  have hcontrol := h.control
  cases hb : s.control with
  | running b =>
      cases ha : s'.control with
      | serving a service' => simp [hb, ha, ControlAlike] at hcontrol
      | running a =>
          obtain ⟨hanswers, hbelow⟩ := running_answers hm himage hcompiles hinvariant h hb ha
          rw [step_running hb, step_running ha, h.data]
          exact perform_simulates hm himage hdiscreet h.bracket (h.outer.of_same hbelow) hanswers
  | serving b service =>
      cases ha : s'.control with
      | running a => simp [hb, ha, ControlAlike] at hcontrol
      | serving a service' =>
          rw [hb, ha] at hcontrol
          obtain ⟨hserved, htwin⟩ := hcontrol
          have hinnermost := innermost_serving ha
          have hready := hinvariant.ready
          rw [ha] at hready
          have hdepth : s.store.trace.depth = s.bracket.traceDepth + b.frames.length := by
            rw [h.store.depth_eq, hinvariant.depth, hinnermost, h.bracket.traceDepth,
              hserved.length_eq]
          have hroom := sp_le_size_of_serving hm hcompiles hinvariant ha
          rw [step_serving hb, step_serving ha, h.data]
          exact serve_simulates hm himage hdiscreet h.bracket h.store hserved htwin h.outer hdepth
            hready.2 hroom hpower hsize (hinside a service' ha)

end

end SandboxVm.Proofs.MachineSimulation
