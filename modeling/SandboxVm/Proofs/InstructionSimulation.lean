import SandboxVm.Proofs.FrameCorrespondence

/-!
An instruction does the same to compiled and to interpreted code, but for a call
of a procedure: compiled code makes room on the program stack at once, and
interpreted code with the `enter` that it goes on with.
-/

namespace SandboxVm.Proofs.InstructionSimulation

open SandboxVm.Proofs.VerificationRules
open SandboxVm.Proofs.LoadedModule
open SandboxVm.Proofs.InterpretedInstruction
open SandboxVm.Proofs.OperandAccess
open SandboxVm.Proofs.ControlTransfer
open SandboxVm.Proofs.OperandStack
open SandboxVm.Proofs.ProgramStack
open SandboxVm.Proofs.Observation
open SandboxVm.Proofs.FrameCorrespondence

theorem div_neg_one (a : Word) : a / -1 = -a := by
  apply Int32.toInt_inj.mp
  have hminus : (-1 : Word).toInt = -1 := by decide
  rw [Int32.toInt_div, hminus, Int.tdiv_neg, Int.tdiv_one, Int32.toInt_neg]

theorem mod_neg_one (a : Word) : a % -1 = a % 1 := by
  apply Int32.toInt_inj.mp
  have hminus : (-1 : Word).toInt = -1 := by decide
  rw [Int32.toInt_mod, Int32.toInt_mod, hminus, Int.tmod_neg]
  rfl

/-- Compiled code divides as interpreted code does, also where it changes the divisor. -/
theorem apply?_eq_divide (op : DivisionOp) (a b : Word) :
    op.apply? a b = if b == 0 then none else some (Native.divide op a b) := by
  unfold DivisionOp.apply?
  congr 2
  by_cases hb : b = -1
  · subst hb
    cases op with
    | divSigned => exact div_neg_one a
    | remSigned => exact mod_neg_one a
    | divUnsigned => rfl
    | remUnsigned => rfl
  · have hb' : (b == -1) = false := beq_false_of_ne hb
    cases op <;> simp [Native.divide, hb']

/-- A procedure that compiled code enters from a frame at `ps`. -/
def entryFrameOf (procedure : Procedure) (ps : Word) : Native.Frame :=
  ⟨procedure, procedure.start + 1, ps - procedure.frameSize, []⟩

/-- The moves of compiled and of interpreted code, in a call that has found `bottom`
operands and `depth` procedures in progress. -/
inductive AnswersAlike (m : Module) (p : Program) (bottom depth : Nat) :
    Native.Outcome → Interpreter.Outcome → Prop where
  | proceed {t s : Store} {base : Nat} {ps : Word} {f : Native.Frame} {callers : List Native.Frame}
      {a : Activation} (hstore : SameStore t s) (h : RunsAlike m s bottom base ps f callers a) :
      AnswersAlike m p bottom depth (t, .proceed ⟨f :: callers⟩) (s, .proceed a)
  | entering {t s : Store} {callers : List Native.Frame} {a : Activation} {procedure : Procedure}
      {returnTo : Option Nat} {frames : List Frame} (hstore : SameStore t s)
      (hmem : procedure ∈ m.procedures) (hpc : a.pc = procedure.start)
      (hframes : a.frames = ⟨returnTo, procedure⟩ :: frames)
      (hwaits : WaitsAlike m s bottom a.sp a.ps returnTo callers frames)
      (hdepth : t.trace.depth = depth + (callers.length + 1)) :
      AnswersAlike m p bottom depth
        (t, if a.ps - procedure.frameSize < p.stackBottom then
            .trap ⟨entryFrameOf procedure a.ps :: callers⟩ .stackOverflow
          else .proceed ⟨entryFrameOf procedure a.ps :: callers⟩)
        (s, .proceed a)
  | syscall {t s : Store} {b : Native.Activation} {a : Activation} {id : UInt32} {frame : Word}
      (hstore : SameStore t s) (hserved : ServedAlike m s bottom b a)
      (hdepth : t.trace.depth = depth + b.frames.length) :
      AnswersAlike m p bottom depth (t, .syscall b id frame) (s, .syscall a id frame)
  | finish {t s : Store} (hstore : SameStore t s) (value : Word) :
      AnswersAlike m p bottom depth (t, .finish value) (s, .finish value)
  | trap {t s : Store} {b : Native.Activation} {a : Activation} (hstore : SameStore t s)
      (hdepth : t.trace.depth = depth + b.frames.length) (k : Trap) :
      AnswersAlike m p bottom depth (t, .trap b k) (s, .trap a k)

theorem AnswersAlike.dispatchOf?_eq {δ : Type} {m : Module} {p : Program} {bottom depth : Nat}
    {outcome : Native.Outcome} {outcome' : Interpreter.Outcome}
    (h : AnswersAlike m p bottom depth outcome outcome') (syscalls : Syscalls δ) :
    dispatchOf? syscalls outcome = dispatchOf? syscalls outcome' := by
  cases h with
  | syscall hstore hserved hdepth =>
      simp only [dispatchOf?, hstore.arena, hstore.depth_eq, hstore.callLevel]
  | entering hstore hmem hpc hframes hwaits hdepth =>
      split <;> rfl
  | _ => rfl

section

variable {m : Module} (hm : Sound m) {p : Program} (himage : p.image = m) {bottom depth : Nat}
  {t s : Store} (hstore : SameStore t s)

include hm himage hstore

theorem enterProcedure_answers {callers : List Native.Frame} {a : Activation}
    {returnTo : Option Nat} (hdepth : t.trace.depth = depth + callers.length)
    (hwaits : WaitsAlike m s bottom a.sp a.ps returnTo callers a.frames) (target : Nat) :
    AnswersAlike m p bottom depth (Native.enterProcedure p t callers target a.ps)
      (Interpreter.enterProcedure p s a target returnTo) := by
  rcases EngineTrace.Compiled.enterProcedure_cases p t callers target a.ps with
    ⟨hnone, heq⟩ | ⟨procedure, hfound, hcases⟩
  · rcases enterProcedure_cases p s a target returnTo with ⟨-, heq'⟩ | ⟨procedure', hfound', -⟩
    · rw [heq, heq']
      exact .trap hstore hdepth _
    · rw [hnone] at hfound'
      cases hfound'
  · rcases enterProcedure_cases p s a target returnTo with
      ⟨hnone, -⟩ | ⟨procedure', hfound', hcases'⟩
    · rw [hnone] at hfound
      cases hfound
    · obtain rfl : procedure = procedure' := Option.some.inj (hfound.symm.trans hfound')
      rw [himage] at hfound
      obtain ⟨hmem, rfl⟩ := hm.procedureAt?_eq_some_iff.mp hfound
      have hsame := hstore.depth_eq
      rcases hcases with ⟨hexhausted, heq⟩ | ⟨hroom, heq⟩
      · rcases hcases' with ⟨-, heq'⟩ | ⟨hroom', -⟩
        · rw [heq, heq']
          exact .trap hstore hdepth _
        · omega
      · rcases hcases' with ⟨hexhausted', -⟩ | ⟨-, heq'⟩
        · omega
        · have hpushed : SameStore { t with trace := t.trace.push procedure.start }
              { s with trace := s.trace.push procedure.start } :=
            ⟨hstore.arena, hstore.programStack, hstore.callLevel, withoutPast_push hstore.trace _⟩
          rw [heq, heq']
          refine .entering (a := ⟨procedure.start, a.ps, a.sp, ⟨returnTo, procedure⟩ :: a.frames⟩)
            hpushed hmem rfl rfl (hwaits.of_same fun slot _ => rfl) ?_
          simp only [CallTrace.push]
          omega

end

section

variable {s : Store} {a : Activation} {base : Nat} {x y : Word} {rest : List Word}

theorem withTop_of_holds (h : HoldsOperands s base (x :: rest))
    (hsp : a.sp = base + (x :: rest).length) (k : Word → Interpreter.Outcome) :
    Interpreter.withTop s a k = k x := by
  rw [List.length_cons] at hsp
  unfold Interpreter.withTop
  split
  · omega
  · rename_i sp hsp'
    obtain rfl : sp = base + rest.length := by omega
    rw [h.1]

theorem withTopTwo_of_holds (h : HoldsOperands s base (y :: x :: rest))
    (hsp : a.sp = base + (y :: x :: rest).length) (k : Word → Word → Interpreter.Outcome) :
    Interpreter.withTopTwo s a k = k x y := by
  rw [List.length_cons, List.length_cons] at hsp
  unfold Interpreter.withTopTwo
  split
  · rename_i sp hsp'
    obtain rfl : sp = base + rest.length := by omega
    rw [h.2.1, show base + rest.length + 1 = base + (x :: rest).length from rfl, h.1]
  · rename_i hnot
    exact absurd (by omega : a.sp = a.sp - 2 + 2) (hnot (a.sp - 2))

end

/-- What is known of interpreted code in front of the instruction `inst` of a
module that compiles. -/
structure Poised (m : Module) (s : Store) (a : Activation) (inst : AnnotatedInstruction) :
    Prop where
  at_inst : m.code[a.pc]? = some inst
  frames : ∃ frame rest, a.frames = frame :: rest ∧ Inside m frame.procedure a.pc ∧
    ∀ pc, frame.returnTo = some pc → ∃ site, pc = site + 1 ∧ opAt? m.code site = some .call
  constant : ConstantOnTop m s a
  supplied : Supplied s a inst
  enough : ¬ UnderSupplied inst

section

variable {m : Module} {p : Program} {bottom base depth : Nat} {t s : Store} {ps : Word}
  {f : Native.Frame} {callers : List Native.Frame} {a : Activation} {inst : AnnotatedInstruction}
  (hposed : Poised m s a inst) (h : RunsAlike m s bottom base ps f callers a)

include hposed h

theorem depth_eq_length : inst.op ≠ .enter ∧ inst.depth = 4 * (f.operands.length : Int) := by
  obtain ⟨inst', hinst', henter, hdepth⟩ := h.sized
  rw [h.pc_eq, hposed.at_inst] at hinst'
  obtain rfl := Option.some.inj hinst'
  exact ⟨henter, hdepth⟩

theorem pops_le : inst.op.pops ≤ f.operands.length := by
  have hdepth := (depth_eq_length hposed h).2
  have henough := hposed.enough
  unfold UnderSupplied at henough
  omega

theorem exists_top (hpops : inst.op.pops = 1) : ∃ x rest, f.operands = x :: rest ∧
    ∀ k, Interpreter.withTop s a k = k x := by
  have hle := pops_le hposed h
  have hholds := h.holds
  have hsp := h.sp_eq
  obtain ⟨x, rest, hoperands⟩ : ∃ x rest, f.operands = x :: rest :=
    List.exists_cons_of_length_pos (by omega)
  rw [hoperands] at hholds hsp
  exact ⟨x, rest, hoperands, withTop_of_holds hholds hsp⟩

theorem exists_topTwo (hpops : inst.op.pops = 2) : ∃ y x rest, f.operands = y :: x :: rest ∧
    ∀ k, Interpreter.withTopTwo s a k = k x y := by
  have hle := pops_le hposed h
  have hholds := h.holds
  have hsp := h.sp_eq
  obtain ⟨y, x, rest, hoperands⟩ : ∃ y x rest, f.operands = y :: x :: rest :=
    EngineTrace.Compiled.exists_topTwo_of_length (by omega)
  rw [hoperands] at hholds hsp
  exact ⟨y, x, rest, hoperands, withTopTwo_of_holds hholds hsp⟩

/-- An instruction leaves the operands of the callers alone. -/
theorem execute_operand?_below {slot : Nat} (hslot : slot < base) :
    (Interpreter.execute p s a inst).1.operand? slot = s.operand? slot := by
  refine execute_operand? fun htouches => ?_
  have hle := pops_le hposed h
  have hsp := h.sp_eq
  rcases touches_cases htouches with ⟨hlow, -⟩ | ⟨heq, -⟩
  · omega
  · omega

variable (hm : Sound m)

include hm

theorem answered_of_call (hop : inst.op = .call) {x : Word} {rest : List Word}
    (hoperands : f.operands = x :: rest) (value : Word) :
    Sized m (answered ⟨f.procedure, f.pc + 1, f.ps, rest⟩ value) := by
  obtain ⟨frame, frames, -, hinside, -⟩ := hposed.frames
  obtain ⟨-, after, hafter, henter, hdelta⟩ := hinside.next hm hposed.at_inst (by simp [hop])
  have hdepth := (depth_eq_length hposed h).2
  rw [← h.pc_eq] at hafter
  refine ⟨after, hafter, henter, ?_⟩
  simp only [hop, Opcode.stackDelta] at hdelta
  simp only [answered, hoperands, List.length_cons] at hdepth ⊢
  omega

variable (himage : p.image = m)

omit h in
include himage in
theorem within_of_execute (hop : inst.op ≠ .call ∧ inst.op ≠ .leave) {s' : Store} {a' : Activation}
    (hexecute : Interpreter.execute p s a inst = (s', .proceed a')) :
    a'.frames = a.frames ∧ ∃ inst', m.code[a'.pc]? = some inst' ∧ inst'.op ≠ .enter ∧
      4 * (a'.sp : Int) - inst'.depth = 4 * a.sp - inst.depth := by
  have heffect := execute_effect (p := p) hposed.supplied
  rw [hexecute] at heffect
  have hinst := hposed.at_inst
  have hat := opAt?_eq_some hinst
  obtain ⟨frame, frames, hframes, hinside, hreturn⟩ := hposed.frames
  cases (transfer_of_effect hm himage hinst hframes hinside hposed.constant hreturn heffect).1 with
  | @within procedure inst₀ inst' hframes' hinside' hprocedure hinst₀ hinst' henter hdepth =>
      obtain rfl : inst = inst₀ := Option.some.inj (hinst.symm.trans hinst₀)
      exact ⟨hframes', inst', hinst', henter, hdepth⟩
  | called hcall =>
      rw [hat] at hcall
      exact absurd (Option.some.inj hcall) hop.1
  | returned hleave =>
      rw [hat] at hleave
      exact absurd (Option.some.inj hleave) hop.2

omit h in
include himage in
theorem goTo_of_directed {target : Word} (hdirected : Directed p s a inst target) (sp : Nat) :
    Interpreter.goTo { a with sp } target =
      .proceed { a with sp, pc := target.toInt.toNat } := by
  obtain ⟨frame, frames, hframes, hinside, -⟩ := hposed.frames
  exact goTo_of_nonneg (directed_destination hm himage hposed.at_inst hframes hinside
    hposed.constant hdirected).1

include himage in
/-- Both go on in the procedure, with the operands that interpreted code then has
above slot `base`. -/
theorem proceed_answers {t' s' : Store} {a' : Activation} {pc : Nat} {operands : List Word}
    (hop : inst.op ≠ .call ∧ inst.op ≠ .leave)
    (hexecute : Interpreter.execute p s a inst = (s', .proceed a')) (hstore' : SameStore t' s')
    (hpc : pc = a'.pc) (hps : a'.ps = a.ps) (hsp : a'.sp = base + operands.length)
    (hholds : HoldsOperands s' base operands) :
    AnswersAlike m p bottom depth (t', .proceed ⟨⟨f.procedure, pc, f.ps, operands⟩ :: callers⟩)
      (Interpreter.execute p s a inst) := by
  obtain ⟨hframes, inst', hinst', henter, hdelta⟩ :=
    within_of_execute hposed hm himage hop hexecute
  have hbelow : ∀ slot, slot < base → s'.operand? slot = s.operand? slot := by
    intro slot hslot
    have := execute_operand?_below (p := p) hposed h hslot
    rwa [hexecute] at this
  obtain ⟨frame, rest, hcons, hprocedure, hwaits⟩ := h.callers
  have hdepth := (depth_eq_length hposed h).2
  have hsp₀ := h.sp_eq
  rw [hexecute]
  refine .proceed hstore' ⟨hpc, h.ps_eq.trans hps.symm, h.frame_ps, hsp, ?_, hholds, frame, rest,
    hframes.trans hcons, hprocedure, hwaits.of_same hbelow⟩
  exact ⟨inst', by rw [hpc]; exact hinst', henter, by simp only; omega⟩

include himage in
theorem take_answers (taken : List Word) {rest : List Word} (hoperands : f.operands = taken ++ rest)
    {t' s' : Store} {pc : Nat} (hop : inst.op ≠ .call ∧ inst.op ≠ .leave)
    (hstore' : SameStore t' s') (hkept : s'.operands = s.operands)
    (hexecute : Interpreter.execute p s a inst =
      (s', .proceed { a with pc, sp := a.sp - taken.length })) :
    AnswersAlike m p bottom depth (t', .proceed ⟨⟨f.procedure, pc, f.ps, rest⟩ :: callers⟩)
      (Interpreter.execute p s a inst) := by
  have hholds := h.holds
  have hsp := h.sp_eq
  rw [hoperands] at hholds hsp
  rw [List.length_append] at hsp
  refine proceed_answers hposed h hm himage hop hexecute hstore' rfl rfl (by simp only; omega) ?_
  exact hholds.of_append.of_same fun slot _ => by rw [Store.operand?, Store.operand?, hkept]

variable (hstore : SameStore t s)

include hstore

include himage in
theorem put_answers (taken : List Word) {rest : List Word} (hoperands : f.operands = taken ++ rest)
    {value : Word} (hop : inst.op ≠ .call ∧ inst.op ≠ .leave)
    (hroom : a.sp - taken.length < s.operands.size)
    (hexecute : Interpreter.execute p s a inst = (s.setOperand (a.sp - taken.length) value,
      .proceed { a with pc := a.pc + 1, sp := a.sp + 1 - taken.length })) :
    AnswersAlike m p bottom depth
      (t, .proceed ⟨⟨f.procedure, a.pc + 1, f.ps, value :: rest⟩ :: callers⟩)
      (Interpreter.execute p s a inst) := by
  have hholds := h.holds
  have hsp := h.sp_eq
  rw [hoperands] at hholds hsp
  rw [List.length_append] at hsp
  have hslot : a.sp - taken.length = base + rest.length := by omega
  rw [hslot] at hroom hexecute
  exact proceed_answers hposed h hm himage hop hexecute (hstore.setOperand _ _) rfl rfl
    (by simp only [List.length_cons]; omega) (hholds.of_append.set hroom value)

include himage in
theorem replace_answers (taken : List Word) {rest : List Word}
    (hoperands : f.operands = taken ++ rest) {value : Word}
    (hop : inst.op ≠ .call ∧ inst.op ≠ .leave) (htaken : 0 < taken.length)
    (hexecute : Interpreter.execute p s a inst = (s.setOperand (a.sp - taken.length) value,
      .proceed { a with pc := a.pc + 1, sp := a.sp + 1 - taken.length })) :
    AnswersAlike m p bottom depth
      (t, .proceed ⟨⟨f.procedure, a.pc + 1, f.ps, value :: rest⟩ :: callers⟩)
      (Interpreter.execute p s a inst) := by
  have hsp := h.sp_eq
  have hlength : f.operands.length = taken.length + rest.length := by
    rw [hoperands, List.length_append]
  have hslot : a.sp - taken.length = base + rest.length := by omega
  have hroom : a.sp - taken.length < s.operands.size := by
    rw [hslot]
    exact h.holds.lt_size (by omega)
  exact put_answers hposed h hm himage hstore taken hoperands hop hroom hexecute

include himage in
theorem push_answers {value : Word}
    (hop : inst.op = .push ∨ inst.op = .const ∨ inst.op = .localAddress)
    (hexecute : Interpreter.execute p s a inst = Interpreter.push s a value) :
    AnswersAlike m p bottom depth
      (t, .proceed ⟨⟨f.procedure, a.pc + 1, f.ps, value :: f.operands⟩ :: callers⟩)
      (Interpreter.execute p s a inst) := by
  have hroom := (supplied_iff_of_pushes hop).mp hposed.supplied
  have hstays : inst.op ≠ .call ∧ inst.op ≠ .leave := by
    rcases hop with hop | hop | hop <;> simp [hop]
  rw [Interpreter.push, if_pos hroom] at hexecute
  exact put_answers hposed h hm himage hstore [] rfl hstays hroom hexecute

theorem leave_answers (hop : inst.op = .leave) :
    AnswersAlike m p bottom depth (Native.execute p t f callers inst)
      (Interpreter.execute p s a inst) := by
  obtain ⟨frame, rest, hframes, hprocedure, hwaits⟩ := h.callers
  obtain ⟨frame', rest', hframes', hinside, -⟩ := hposed.frames
  obtain ⟨rfl, rfl⟩ : frame = frame' ∧ rest = rest' := by simpa [hframes] using hframes'
  obtain ⟨value, hoperands⟩ : ∃ value, f.operands = [value] := by
    have hrule := hm.rules.instructions _ inst hposed.at_inst
    simp only [InstructionRule, hop] at hrule
    have hlength := (depth_eq_length hposed h).2
    exact List.length_eq_one_iff.mp (by omega)
  have hholds := h.holds
  have hsp := h.sp_eq
  rw [hoperands] at hholds hsp
  have hvalue : s.leaveCall.operand? base = some value := hholds.1
  cases hreturn : frame.returnTo with
  | none =>
      rw [hreturn] at hwaits
      have hcallers : callers = [] := by
        cases hwaits
        rfl
      have hnative : Native.execute p t f callers inst = (t.leaveCall, .finish value) := by
        simp only [Native.execute, hop, hoperands, hcallers]
      have hinterpreted :
          Interpreter.execute p s a inst = (s.leaveCall, .finish value) := by
        obtain ⟨returnTo, procedure⟩ := frame
        obtain rfl : returnTo = none := hreturn
        simp only [Interpreter.execute, hop, Interpreter.leave, hframes]
        rw [show a.sp = base + 1 by simpa using hsp]
        simp only [hvalue]
      rw [hnative, hinterpreted]
      exact .finish hstore.leaveCall value
  | some pc =>
      rw [hreturn] at hwaits
      have hwaits' : WaitsAlike m s.leaveCall bottom base ps (some pc) callers rest :=
        hwaits.of_same fun slot _ => rfl
      obtain ⟨g, callers', base', ps', rfl, hruns⟩ := hwaits'.resume hvalue
      have hnative : Native.execute p t f (g :: callers') inst =
          (t.leaveCall, .proceed ⟨answered g value :: callers'⟩) := by
        simp only [Native.execute, hop, hoperands, answered]
      have hps : a.ps + inst.operand = ps := by
        rw [operand_of_leave hm hinside hposed.at_inst hop, ← h.ps_eq, h.frame_ps, hprocedure,
          Int32.sub_add_cancel]
      have hinterpreted : Interpreter.execute p s a inst =
          (s.leaveCall, .proceed ⟨pc, ps, base + 1, rest⟩) := by
        obtain ⟨returnTo, procedure⟩ := frame
        obtain rfl : returnTo = some pc := hreturn
        simp only [Interpreter.execute, hop, Interpreter.leave, hframes, hps]
        rw [show a.sp = base + 1 by simpa using hsp]
      rw [hnative, hinterpreted]
      exact .proceed hstore.leaveCall hruns

variable (hdepth : t.trace.depth = depth + (f :: callers).length)

include himage hdepth

theorem call_answers (hop : inst.op = .call) :
    AnswersAlike m p bottom depth (Native.execute p t f callers inst)
      (Interpreter.execute p s a inst) := by
  obtain ⟨target, rest, hoperands, htop⟩ := exists_top hposed h (by simp [hop, Opcode.pops])
  have hholds := h.holds
  have hsp := h.sp_eq
  rw [hoperands] at hholds hsp
  have hwrite := hstore.write .four a.ps (Int32.ofNat (a.pc + 1))
  have hwaits := h.waits (g := ⟨f.procedure, f.pc + 1, f.ps, rest⟩) rfl rfl hholds.2
    (answered_of_call hposed h hm hop hoperands)
  have hinterpreted : Interpreter.execute p s a inst = Interpreter.call p s a target := by
    simp only [Interpreter.execute, hop, htop]
  rw [hinterpreted]
  unfold Interpreter.call
  simp only [Native.execute, hop, hoperands, h.pc_eq, h.ps_eq]
  rw [h.pc_eq, h.ps_eq] at hwaits
  rw [List.length_cons] at hsp hdepth
  split
  · have hid := hwrite.write .four (a.ps + 4) (-1 - target).toUInt32.toInt32
    refine .syscall (hid.publish (a.ps - 4) a.sp) ⟨_, hsp, hwaits.of_same ?_⟩ ?_
    · intro slot _
      simp only [Store.operand?, write_operands]
    · simp only [write_trace, List.length_cons]
      exact hdepth
  · refine enterProcedure_answers hm himage hwrite (a := { a with sp := a.sp - 1 }) ?_ ?_ _
    · rw [write_trace, List.length_cons]
      exact hdepth
    · rw [show a.sp - 1 = base + rest.length by omega]
      refine hwaits.of_same ?_
      intro slot _
      rw [write_operand?]

theorem jump_answers (hop : inst.op = .jump) :
    AnswersAlike m p bottom depth (Native.execute p t f callers inst)
      (Interpreter.execute p s a inst) := by
  obtain ⟨target, rest, hoperands, hwithTop⟩ := exists_top hposed h (by simp [hop, Opcode.pops])
  obtain ⟨frame, frames, hframes, hprocedure, -⟩ := h.callers
  have htop : s.operand? (a.sp - 1) = some target := by
    have hholds := h.holds
    have hsp := h.sp_eq
    rw [hoperands] at hholds hsp
    rw [hsp, List.length_cons, ← Nat.add_assoc, Nat.add_sub_cancel]
    exact hholds.1
  have hgoes : ∀ target', Directed p s a inst target' →
      Interpreter.execute p s a inst = (s, Interpreter.goTo { a with sp := a.sp - 1 } target') →
      AnswersAlike m p bottom depth
        (t, .proceed ⟨⟨f.procedure, target'.toInt.toNat, f.ps, rest⟩ :: callers⟩)
        (Interpreter.execute p s a inst) := by
    intro target' hdirected heq
    rw [goTo_of_directed hposed hm himage hdirected] at heq
    exact take_answers hposed h hm himage [target] hoperands (by simp [hop]) hstore rfl heq
  cases hcomputed : inst.computed with
  | false =>
      have hdirected : Directed p s a inst target := .known hop hcomputed htop
      -- The compiled target is the constant in front of the jump, which is on the stack.
      obtain ⟨c, hc⟩ : ∃ c, m.code.constantBefore? a.pc = some c := by
        rw [← Option.ne_none_iff_exists', ne_eq, ← hm.computed_iff a.pc inst hposed.at_inst hop]
        simp [hcomputed]
      obtain rfl : target = c := Option.some.inj (htop.symm.trans (hposed.constant c hc))
      have hknown := (hm.known_jump hposed.at_inst hop hc).1
      simp only [Native.execute, hop, hoperands, hcomputed, hknown, Bool.false_eq_true, if_false]
      refine hgoes target hdirected ?_
      simp only [Interpreter.execute, hop, hwithTop, hcomputed, Bool.false_eq_true, if_false]
  | true =>
      by_cases hallowed : p.image.isJumpTarget f.procedure target = true
      · simp only [Native.execute, hop, hoperands, hcomputed, hallowed, if_true]
        rw [← hprocedure] at hallowed
        refine hgoes target (.computed hop hframes hallowed) ?_
        simp only [Interpreter.execute, hop, hwithTop, hcomputed, hframes, hallowed, if_true]
      · simp only [Native.execute, Interpreter.execute, hop, hoperands, hwithTop, hcomputed,
          hframes, hprocedure, hallowed, if_true]
        exact .trap hstore hdepth _

theorem execute_answers_of_none (hpops : inst.op.pops = 0) :
    AnswersAlike m p bottom depth (Native.execute p t f callers inst)
      (Interpreter.execute p s a inst) := by
  have hpc := h.pc_eq
  cases hop : inst.op with
  | undef =>
      simp only [Native.execute, Interpreter.execute, hop]
      exact .trap hstore hdepth _
  | enter => exact absurd hop (depth_eq_length hposed h).1
  | ignore =>
      simp only [Native.execute, hop, hpc]
      refine take_answers hposed h hm himage [] rfl (by simp [hop]) hstore rfl ?_
      simp only [Interpreter.execute, hop]
      rfl
  | breakpoint =>
      have hcounted : SameStore t { s with breakpoints := s.breakpoints + 1 } :=
        ⟨hstore.arena, hstore.programStack, hstore.callLevel, hstore.trace⟩
      simp only [Native.execute, hop, hpc]
      refine take_answers hposed h hm himage [] rfl (by simp [hop]) hcounted rfl ?_
      simp only [Interpreter.execute, hop]
      rfl
  | push =>
      simp only [Native.execute, hop, hpc]
      exact push_answers hposed h hm himage hstore (Or.inl hop)
        (by simp only [Interpreter.execute, hop])
  | const =>
      simp only [Native.execute, hop, hpc]
      exact push_answers hposed h hm himage hstore (Or.inr (Or.inl hop))
        (by simp only [Interpreter.execute, hop])
  | localAddress =>
      simp only [Native.execute, hop, hpc]
      exact push_answers hposed h hm himage hstore (Or.inr (Or.inr hop))
        (by simp only [Interpreter.execute, hop, h.ps_eq])
  | _ => exact absurd hpops (by simp [hop, Opcode.pops])

theorem execute_answers_of_one (hpops : inst.op.pops = 1) :
    AnswersAlike m p bottom depth (Native.execute p t f callers inst)
      (Interpreter.execute p s a inst) := by
  have hpc := h.pc_eq
  obtain ⟨x, rest, hoperands, htop⟩ := exists_top hposed h hpops
  cases hop : inst.op with
  | leave => exact leave_answers hposed h hm hstore hop
  | call => exact call_answers hposed h hm himage hstore hdepth hop
  | jump => exact jump_answers hposed h hm himage hstore hdepth hop
  | pop =>
      simp only [Native.execute, hop, hoperands, hpc]
      refine take_answers hposed h hm himage [x] hoperands (by simp [hop]) hstore rfl ?_
      simp only [Interpreter.execute, hop, htop]
      rfl
  | arg =>
      simp only [Native.execute, hop, hoperands, hpc]
      refine take_answers hposed h hm himage [x] hoperands (by simp [hop])
        (hstore.write .four (f.ps + inst.operand) x) (write_operands ..) ?_
      simp only [Interpreter.execute, hop, htop, h.ps_eq]
      rfl
  | load width =>
      simp only [Native.execute, hop, hoperands, hpc, hstore.arena]
      refine replace_answers hposed h hm himage hstore [x] hoperands (by simp [hop])
        Nat.one_pos ?_
      simp only [Interpreter.execute, hop, htop]
      rfl
  | unary op =>
      simp only [Native.execute, hop, hoperands, hpc]
      refine replace_answers hposed h hm himage hstore [x] hoperands (by simp [hop])
        Nat.one_pos ?_
      simp only [Interpreter.execute, hop, htop]
      rfl
  | _ => exact absurd hpops (by simp [hop, Opcode.pops])

omit hdepth in
theorem branch_answers {c : Comparison} (hop : inst.op = .branch c) :
    AnswersAlike m p bottom depth (Native.execute p t f callers inst)
      (Interpreter.execute p s a inst) := by
  obtain ⟨y, x, rest, hoperands, htwo⟩ := exists_topTwo hposed h (by simp [hop, Opcode.pops])
  by_cases htaken : c.holds x y = true
  · simp only [Native.execute, hop, hoperands, htaken, if_true]
    refine take_answers hposed h hm himage [y, x] hoperands (by simp [hop]) hstore rfl ?_
    simp only [Interpreter.execute, hop, htwo, htaken, if_true]
    rw [goTo_of_directed hposed hm himage (.branch hop rfl)]
    rfl
  · simp only [Native.execute, hop, hoperands, h.pc_eq, htaken, Bool.false_eq_true, if_false]
    refine take_answers hposed h hm himage [y, x] hoperands (by simp [hop]) hstore rfl ?_
    simp only [Interpreter.execute, hop, htwo, htaken, Bool.false_eq_true, if_false]
    rfl

theorem division_answers {op : DivisionOp} (hop : inst.op = .division op) :
    AnswersAlike m p bottom depth (Native.execute p t f callers inst)
      (Interpreter.execute p s a inst) := by
  obtain ⟨y, x, rest, hoperands, htwo⟩ := exists_topTwo hposed h (by simp [hop, Opcode.pops])
  have hvalue := apply?_eq_divide op x y
  by_cases hzero : (y == 0) = true
  · simp only [hzero, if_true] at hvalue
    simp only [Native.execute, Interpreter.execute, hop, hoperands, htwo, hvalue, hzero, if_true]
    exact .trap hstore hdepth _
  · simp only [hzero, Bool.false_eq_true, if_false] at hvalue
    simp only [Native.execute, hop, hoperands, h.pc_eq, hzero, Bool.false_eq_true, if_false]
    refine replace_answers hposed h hm himage hstore [y, x] hoperands (by simp [hop])
      Nat.two_pos ?_
    simp only [Interpreter.execute, hop, htwo, hvalue]
    rfl

theorem execute_answers_of_two (hpops : inst.op.pops = 2) :
    AnswersAlike m p bottom depth (Native.execute p t f callers inst)
      (Interpreter.execute p s a inst) := by
  have hpc := h.pc_eq
  obtain ⟨y, x, rest, hoperands, htwo⟩ := exists_topTwo hposed h hpops
  cases hop : inst.op with
  | branch c => exact branch_answers hposed h hm himage hstore hop
  | division op => exact division_answers hposed h hm himage hstore hdepth hop
  | store width =>
      simp only [Native.execute, hop, hoperands, hpc]
      refine take_answers hposed h hm himage [y, x] hoperands (by simp [hop])
        (hstore.write width x y) (write_operands ..) ?_
      simp only [Interpreter.execute, hop, htwo]
      rfl
  | blockCopy =>
      have hcopied : SameStore { t with arena := s.arena.blockCopy x y inst.operand }
          { s with arena := s.arena.blockCopy x y inst.operand } :=
        ⟨rfl, hstore.programStack, hstore.callLevel, hstore.trace⟩
      simp only [Native.execute, hop, hoperands, hpc, hstore.arena]
      refine take_answers hposed h hm himage [y, x] hoperands (by simp [hop]) hcopied rfl ?_
      simp only [Interpreter.execute, hop, htwo]
      rfl
  | binary op =>
      simp only [Native.execute, hop, hoperands, hpc]
      refine replace_answers hposed h hm himage hstore [y, x] hoperands (by simp [hop])
        Nat.two_pos ?_
      simp only [Interpreter.execute, hop, htwo]
      rfl
  | _ => exact absurd hpops (by simp [hop, Opcode.pops])

/-- An instruction does the same to compiled and to interpreted code. -/
theorem execute_answers :
    AnswersAlike m p bottom depth (Native.execute p t f callers inst)
      (Interpreter.execute p s a inst) := by
  rcases pops_cases inst.op with hpops | hpops | hpops
  · exact execute_answers_of_none hposed h hm himage hstore hdepth hpops
  · exact execute_answers_of_one hposed h hm himage hstore hdepth hpops
  · exact execute_answers_of_two hposed h hm himage hstore hdepth hpops

end

end SandboxVm.Proofs.InstructionSimulation
