import SandboxVm.Machine.Interpreter
import SandboxVm.Machine.Translation

namespace SandboxVm.Proofs.InterpretedInstruction

open SandboxVm.Interpreter

section

variable (s : Store)

theorem note_eq (level : LogLevel) (message : Unit → String) :
    ∃ journal, s.note level message = { s with journal } := by
  unfold Store.note
  split
  · exact ⟨_, rfl⟩
  · exact ⟨s.journal, rfl⟩

@[simp] theorem note_trace (level : LogLevel) (message : Unit → String) :
    (s.note level message).trace = s.trace := by
  obtain ⟨journal, h⟩ := note_eq s level message
  rw [h]

@[simp] theorem note_operands (level : LogLevel) (message : Unit → String) :
    (s.note level message).operands = s.operands := by
  obtain ⟨journal, h⟩ := note_eq s level message
  rw [h]

@[simp] theorem note_operandTop (level : LogLevel) (message : Unit → String) :
    (s.note level message).operandTop = s.operandTop := by
  obtain ⟨journal, h⟩ := note_eq s level message
  rw [h]

theorem note_callLevel (level : LogLevel) (message : Unit → String) :
    (s.note level message).callLevel = s.callLevel := by
  obtain ⟨journal, h⟩ := note_eq s level message
  rw [h]

theorem note_arena (level : LogLevel) (message : Unit → String) :
    (s.note level message).arena = s.arena := by
  obtain ⟨journal, h⟩ := note_eq s level message
  rw [h]

theorem note_programStack (level : LogLevel) (message : Unit → String) :
    (s.note level message).programStack = s.programStack := by
  obtain ⟨journal, h⟩ := note_eq s level message
  rw [h]

theorem note_operand? (level : LogLevel) (message : Unit → String) (slot : Nat) :
    (s.note level message).operand? slot = s.operand? slot := by
  simp only [Store.operand?, note_operands]

@[simp] theorem write_trace (width : Width) (addr value : Word) :
    (s.write width addr value).trace = s.trace := rfl

@[simp] theorem write_operands (width : Width) (addr value : Word) :
    (s.write width addr value).operands = s.operands := rfl

@[simp] theorem write_operand? (width : Width) (addr value : Word) (slot : Nat) :
    (s.write width addr value).operand? slot = s.operand? slot := by
  rw [Store.operand?, write_operands, Store.operand?]

@[simp] theorem setOperand_trace (slot : Nat) (value : Word) :
    (s.setOperand slot value).trace = s.trace := rfl

@[simp] theorem setOperand_size (slot : Nat) (value : Word) :
    (s.setOperand slot value).operands.size = s.operands.size := by
  simp [Store.setOperand]

theorem setOperand_operand? {slot : Nat} (h : slot < s.operands.size) (value : Word) :
    (s.setOperand slot value).operand? slot = some value := by
  simp [Store.setOperand, Store.operand?, h]

theorem setOperand_operand?_ne {slot other : Nat} (h : slot ≠ other) (value : Word) :
    (s.setOperand slot value).operand? other = s.operand? other := by
  simp [Store.setOperand, Store.operand?, Array.getElem?_setIfInBounds_ne h]

end

/-- Where the innermost procedure returns to inside the module. -/
def callerIndex? (a : Activation) : Option Nat := a.frames.head?.bind (·.returnTo)

theorem callerIndex?_eq_none {a : Activation}
    (h : ∀ pc procedure frames, a.frames = ⟨some pc, procedure⟩ :: frames → False) :
    callerIndex? a = none := by
  unfold callerIndex?
  cases hframes : a.frames with
  | nil => rfl
  | cons frame frames =>
      obtain ⟨returnTo, procedure⟩ := frame
      cases returnTo with
      | none => rfl
      | some pc => exact (h pc procedure frames hframes).elim

/-- The instruction reads or writes the slot. Slots are counted with integers:
without any operand, the top operand would be in slot `-1`. -/
def Touches (a : Activation) (inst : AnnotatedInstruction) (slot : Int) : Prop :=
  match inst.op with
  | .push | .const | .localAddress => slot = a.sp
  | .leave => callerIndex? a = none ∧ slot = (a.sp : Int) - 1
  | op => (a.sp : Int) - op.pops ≤ slot ∧ slot < a.sp

/-- The operand stack has every slot that the instruction touches. -/
def Supplied (s : Store) (a : Activation) (inst : AnnotatedInstruction) : Prop :=
  ∀ slot, Touches a inst slot → 0 ≤ slot ∧ slot < s.operands.size

/-- What instructions other than calls and returns leave alone. -/
structure Kept (s s' : Store) : Prop where
  trace : s'.trace = s.trace
  size : s'.operands.size = s.operands.size

/-- The store with the log record of an instruction that is about to be executed. -/
def logged (s : Store) (a : Activation) (inst : AnnotatedInstruction) : Store :=
  s.note .trace fun _ =>
    Text.padLeft 6 (toString a.pc) ++ " " ++ Text.padLeft 4 (toString a.sp) ++ ": " ++ inst.text

theorem step_eq {p : Program} (s : Store) {a : Activation} {inst : AnnotatedInstruction}
    (hinst : p.image.code[a.pc]? = some inst) :
    step p s a = execute p (logged s a inst) a inst := by
  simp only [step, hinst, logged]

@[simp] theorem logged_operands (s : Store) (a : Activation) (inst : AnnotatedInstruction) :
    (logged s a inst).operands = s.operands :=
  note_operands ..

theorem note_kept (s : Store) (level : LogLevel) (message : Unit → String) :
    Kept s (s.note level message) :=
  ⟨note_trace .., by rw [note_operands]⟩

theorem logged_kept (s : Store) (a : Activation) (inst : AnnotatedInstruction) :
    Kept s (logged s a inst) :=
  note_kept ..

/-- The jump or branch `inst` has been decided to go to `target`. -/
inductive Directed (p : Program) (s : Store) (a : Activation) (inst : AnnotatedInstruction)
    (target : Word) : Prop where
  | branch {c : Comparison} (hop : inst.op = .branch c) (htarget : target = inst.operand)
  | known (hop : inst.op = .jump) (hcomputed : inst.computed = false)
      (htop : s.operand? (a.sp - 1) = some target)
  | computed (hop : inst.op = .jump) {frame : Frame} {frames : List Frame}
      (hframes : a.frames = frame :: frames)
      (htarget : p.image.isJumpTarget frame.procedure target = true)

/-- What the interpretation of an instruction can lead to, provided that the
operand stack has the slots it touches. -/
inductive Effect (p : Program) (s : Store) (a : Activation) (inst : AnnotatedInstruction) :
    Store → Move Activation → Prop where
  | passed {s' : Store} {ps : Word} {sp : Nat} (hleave : inst.op ≠ .leave) (hcall : inst.op ≠ .call)
      (hjump : inst.op ≠ .jump) (hkept : Kept s s')
      (hsp : 4 * (sp : Int) = 4 * a.sp + inst.op.stackDelta)
      (hconst : inst.op = .const → s'.operand? a.sp = some inst.operand) :
      Effect p s a inst s' (.proceed ⟨a.pc + 1, ps, sp, a.frames⟩)
  | jumped {sp : Nat} {target : Word} (hdirected : Directed p s a inst target)
      (hsp : 4 * (sp : Int) = 4 * a.sp + inst.op.stackDelta) :
      Effect p s a inst s (goTo { a with sp } target)
  | entered {s' : Store} {target : Word} {procedure : Procedure} (hop : inst.op = .call)
      (htop : s.operand? (a.sp - 1) = some target) (hnonneg : ¬ target < 0)
      (hprocedure : p.image.procedureAt? target.toInt.toNat = some procedure)
      (hdepth : s.trace.depth < p.maxCallDepth) (hsp : 0 < a.sp)
      (htrace : s'.trace = s.trace.push target.toInt.toNat) (hoperands : s'.operands = s.operands) :
      Effect p s a inst s' (.proceed
        ⟨target.toInt.toNat, a.ps, a.sp - 1, ⟨some (a.pc + 1), procedure⟩ :: a.frames⟩)
  | returned {pc : Nat} {ps : Word} {procedure : Procedure} {frames : List Frame}
      (hop : inst.op = .leave) (hframes : a.frames = ⟨some pc, procedure⟩ :: frames) :
      Effect p s a inst s.leaveCall (.proceed ⟨pc, ps, a.sp, frames⟩)
  | finished {value : Word} (hop : inst.op = .leave) (hcaller : callerIndex? a = none) :
      Effect p s a inst s.leaveCall (.finish value)
  | requested {s' : Store} {id : UInt32} {frame : Word} (hop : inst.op = .call)
      (htop : ∃ target, s.operand? (a.sp - 1) = some target ∧ target < 0) (hkept : Kept s s')
      (hoperandTop : s'.operandTop = a.sp) :
      Effect p s a inst s' (.syscall a id frame)
  | trapped {s' : Store} {a' : Activation} {t : Trap} (hkept : Kept s s') :
      Effect p s a inst s' (.trap a' t)

section

variable {p : Program} {s : Store} {a : Activation} {inst : AnnotatedInstruction}

theorem touches_iff_of_pops (hleave : inst.op ≠ .leave) (hpops : 0 < inst.op.pops) {slot : Int} :
    Touches a inst slot ↔ (a.sp : Int) - inst.op.pops ≤ slot ∧ slot < a.sp := by
  unfold Touches
  cases hop : inst.op with
  | leave => exact absurd hop hleave
  | push => simp [hop, Opcode.pops] at hpops
  | const => simp [hop, Opcode.pops] at hpops
  | localAddress => simp [hop, Opcode.pops] at hpops
  | _ => exact Iff.rfl

theorem supplied_iff_of_pops (hleave : inst.op ≠ .leave) (hpops : 0 < inst.op.pops) :
    Supplied s a inst ↔ inst.op.pops ≤ a.sp ∧ a.sp ≤ s.operands.size := by
  simp only [Supplied, touches_iff_of_pops hleave hpops]
  constructor
  · intro h
    have hlow := h (a.sp - inst.op.pops) (by omega)
    have htop := h (a.sp - 1) (by omega)
    omega
  · intro h slot hslot
    omega

theorem supplied_iff_of_pushes (hop : inst.op = .push ∨ inst.op = .const ∨ inst.op = .localAddress) :
    Supplied s a inst ↔ a.sp < s.operands.size := by
  have htouches : ∀ slot, Touches a inst slot ↔ slot = a.sp := by
    intro slot
    rcases hop with hop | hop | hop <;> simp [Touches, hop]
  simp only [Supplied, htouches, forall_eq]
  omega

theorem supplied_iff_of_leave (hop : inst.op = .leave) :
    Supplied s a inst ↔ (callerIndex? a = none → 0 < a.sp ∧ a.sp ≤ s.operands.size) := by
  simp only [Supplied, Touches, hop]
  constructor
  · intro h hcaller
    have := h (a.sp - 1) ⟨hcaller, rfl⟩
    omega
  · rintro h slot ⟨hcaller, rfl⟩
    have := h hcaller
    omega

theorem supplied_logged_iff : Supplied (logged s a inst) a inst ↔ Supplied s a inst := by
  simp only [Supplied, logged_operands]

theorem exists_operand {slot : Nat} (h : slot < s.operands.size) : ∃ x, s.operand? slot = some x :=
  ⟨_, Array.getElem?_eq_getElem h⟩

theorem withTop_eq (hsp : 1 ≤ a.sp) (hsize : a.sp ≤ s.operands.size) :
    ∃ x, s.operand? (a.sp - 1) = some x ∧ ∀ k, withTop s a k = k x := by
  obtain ⟨x, hx⟩ : ∃ x, s.operand? (a.sp - 1) = some x := exists_operand (by omega)
  refine ⟨x, hx, ?_⟩
  intro k
  unfold withTop
  split
  · omega
  · rename_i sp hsp
    rw [show a.sp - 1 = sp by omega] at hx
    rw [hx]

theorem withTopTwo_eq (hsp : 2 ≤ a.sp) (hsize : a.sp ≤ s.operands.size) :
    ∃ x y, s.operand? (a.sp - 2) = some x ∧ s.operand? (a.sp - 1) = some y ∧
      ∀ k, withTopTwo s a k = k x y := by
  obtain ⟨x, hx⟩ : ∃ x, s.operand? (a.sp - 2) = some x := exists_operand (by omega)
  obtain ⟨y, hy⟩ : ∃ y, s.operand? (a.sp - 1) = some y := exists_operand (by omega)
  refine ⟨x, y, hx, hy, ?_⟩
  intro k
  unfold withTopTwo
  split
  · rename_i sp hsp
    rw [show a.sp - 2 = sp by omega] at hx
    rw [show a.sp - 1 = sp + 1 by omega] at hy
    simp only [hx, hy]
  · rename_i hnot
    exact absurd (by omega : a.sp = a.sp - 2 + 2) (hnot (a.sp - 2))

theorem withTop_crash (h : ¬ (1 ≤ a.sp ∧ a.sp ≤ s.operands.size)) (k : Word → Outcome) :
    withTop s a k = (s, .crash) := by
  unfold withTop
  split
  · rfl
  · rename_i sp hsp
    have : s.operand? sp = none := Array.getElem?_eq_none (by omega)
    rw [this]

theorem withTopTwo_crash (h : ¬ (2 ≤ a.sp ∧ a.sp ≤ s.operands.size))
    (k : Word → Word → Outcome) : withTopTwo s a k = (s, .crash) := by
  unfold withTopTwo
  split
  · rename_i sp hsp
    have : s.operand? (sp + 1) = none := Array.getElem?_eq_none (by omega)
    rw [this]
    split
    · rename_i hnone
      cases hnone
    · rfl
  · rfl

theorem push_effect {value : Word} (hop : inst.op = .push ∨ inst.op = .const ∨ inst.op = .localAddress)
    (hvalue : inst.op = .const → value = inst.operand) (h : Supplied s a inst) :
    Effect p s a inst (push s a value).1 (push s a value).2 := by
  have hlt := (supplied_iff_of_pushes hop).mp h
  rw [push, if_pos hlt]
  refine .passed ?_ ?_ ?_ ⟨rfl, setOperand_size s a.sp value⟩ ?_ ?_
  · rcases hop with hop | hop | hop <;> simp [hop]
  · rcases hop with hop | hop | hop <;> simp [hop]
  · rcases hop with hop | hop | hop <;> simp [hop]
  · rcases hop with hop | hop | hop <;> simp only [hop, Opcode.stackDelta] <;> omega
  · intro hconst
    rw [setOperand_operand? s hlt, hvalue hconst]

theorem enterProcedure_cases (p : Program) (s : Store) (a : Activation) (target : Nat)
    (returnTo : Option Nat) :
    (p.image.procedureAt? target = none ∧
      enterProcedure p s a target returnTo = (s, .trap a .badCallTarget)) ∨
    ∃ procedure, p.image.procedureAt? target = some procedure ∧
      ((p.maxCallDepth ≤ s.trace.depth ∧
        enterProcedure p s a target returnTo = (s, .trap a .callStackExhausted)) ∨
      (s.trace.depth < p.maxCallDepth ∧
        enterProcedure p s a target returnTo = ({ s with trace := s.trace.push target },
          .proceed ⟨target, a.ps, a.sp, ⟨returnTo, procedure⟩ :: a.frames⟩))) := by
  unfold enterProcedure Store.enterCall?
  cases hprocedure : p.image.procedureAt? target with
  | none => exact Or.inl ⟨rfl, rfl⟩
  | some procedure =>
      refine Or.inr ⟨procedure, rfl, ?_⟩
      by_cases hdepth : p.maxCallDepth ≤ s.trace.depth
      · exact Or.inl ⟨hdepth, by simp only [if_pos hdepth]⟩
      · exact Or.inr ⟨Nat.lt_of_not_le hdepth, by simp only [if_neg hdepth]⟩

theorem call_effect {target : Word} (hop : inst.op = .call) (hsp : 0 < a.sp)
    (htop : s.operand? (a.sp - 1) = some target) :
    Effect p s a inst (call p s a target).1 (call p s a target).2 := by
  unfold call
  by_cases hneg : target < 0
  · simp only [if_pos hneg]
    exact .requested hop ⟨target, htop, hneg⟩ ⟨by simp, by simp⟩ rfl
  · simp only [if_neg hneg]
    rcases enterProcedure_cases p (s.write .four a.ps (Int32.ofNat (a.pc + 1)))
        { a with sp := a.sp - 1 } target.toInt.toNat (some (a.pc + 1)) with
      ⟨-, heq⟩ | ⟨procedure, hprocedure, ⟨-, heq⟩ | ⟨hdepth, heq⟩⟩
    · rw [heq]
      exact .trapped ⟨write_trace .., by simp⟩
    · rw [heq]
      exact .trapped ⟨write_trace .., by simp⟩
    · rw [heq]
      rw [write_trace] at hdepth
      exact .entered hop htop hneg hprocedure hdepth hsp (by simp) (by simp)

theorem leave_effect (hop : inst.op = .leave) (h : Supplied s a inst) :
    Effect p s a inst (leave s a inst.operand).1 (leave s a inst.operand).2 := by
  have hsupplied := (supplied_iff_of_leave hop).mp h
  unfold leave
  split
  · rename_i frames pc procedure hframes
    exact .returned hop hframes
  · rename_i hnot
    have hcaller := callerIndex?_eq_none hnot
    obtain ⟨hsp, hsize⟩ := hsupplied hcaller
    split
    · omega
    · rename_i sp hsp
      obtain ⟨value, hvalue⟩ : ∃ value, s.leaveCall.operand? sp = some value :=
        exists_operand (s := s) (by omega)
      simp only [hvalue]
      exact .finished hop hcaller

theorem pops_cases (op : Opcode) : op.pops = 0 ∨ op.pops = 1 ∨ op.pops = 2 := by
  cases op <;> simp [Opcode.pops]

theorem Supplied.top (h : Supplied s a inst) (hleave : inst.op ≠ .leave) (hpops : inst.op.pops = 1) :
    1 ≤ a.sp ∧ ∃ x, s.operand? (a.sp - 1) = some x ∧ ∀ k, withTop s a k = k x := by
  obtain ⟨hsp, hsize⟩ := (supplied_iff_of_pops hleave (by omega)).mp h
  exact ⟨by omega, withTop_eq (by omega) hsize⟩

theorem Supplied.topTwo (h : Supplied s a inst) (hleave : inst.op ≠ .leave)
    (hpops : inst.op.pops = 2) :
    2 ≤ a.sp ∧ ∃ x y, s.operand? (a.sp - 2) = some x ∧ s.operand? (a.sp - 1) = some y ∧
      ∀ k, withTopTwo s a k = k x y := by
  obtain ⟨hsp, hsize⟩ := (supplied_iff_of_pops hleave (by omega)).mp h
  exact ⟨by omega, withTopTwo_eq (by omega) hsize⟩

theorem passed_effect {s' : Store} {ps : Word} {sp : Nat} {op : Opcode} (hop : inst.op = op)
    (hpasses : op ≠ .leave ∧ op ≠ .call ∧ op ≠ .jump ∧ op ≠ .const) (hkept : Kept s s')
    (hsp : 4 * (sp : Int) = 4 * a.sp + op.stackDelta) :
    Effect p s a inst s' (.proceed ⟨a.pc + 1, ps, sp, a.frames⟩) := by
  subst hop
  exact .passed hpasses.1 hpasses.2.1 hpasses.2.2.1 hkept hsp fun hconst =>
    absurd hconst hpasses.2.2.2

theorem jump_effect {target : Word} (hop : inst.op = .jump) (hsp : 1 ≤ a.sp)
    (htop : s.operand? (a.sp - 1) = some target) (heq : ∀ k, withTop s a k = k target) :
    Effect p s a inst (execute p s a inst).1 (execute p s a inst).2 := by
  have hdelta : 4 * ((a.sp - 1 : Nat) : Int) = 4 * a.sp + inst.op.stackDelta := by
    simp only [hop, Opcode.stackDelta]
    omega
  simp only [execute, hop, heq]
  cases hcomputed : inst.computed with
  | false => exact .jumped (.known hop hcomputed htop) hdelta
  | true =>
      simp only [if_true]
      split
      · rename_i frame frames hframes
        split
        · rename_i htarget
          exact .jumped (.computed hop hframes htarget) hdelta
        · exact .trapped ⟨rfl, rfl⟩
      · exact .trapped ⟨rfl, rfl⟩

theorem execute_effect_of_none (hpops : inst.op.pops = 0) (h : Supplied s a inst) :
    Effect p s a inst (execute p s a inst).1 (execute p s a inst).2 := by
  unfold execute
  cases hop : inst.op with
  | undef => exact .trapped ⟨rfl, rfl⟩
  | ignore => exact passed_effect hop (by simp) ⟨rfl, rfl⟩ (by simp [Opcode.stackDelta])
  | breakpoint => exact passed_effect hop (by simp) ⟨rfl, rfl⟩ (by simp [Opcode.stackDelta])
  | enter =>
      simp only
      split
      · exact .trapped ⟨rfl, rfl⟩
      · exact passed_effect hop (by simp) ⟨rfl, rfl⟩ (by simp [Opcode.stackDelta])
  | push => exact push_effect (Or.inl hop) (by simp [hop]) h
  | const => exact push_effect (Or.inr (Or.inl hop)) (fun _ => rfl) h
  | localAddress => exact push_effect (Or.inr (Or.inr hop)) (by simp [hop]) h
  | _ => exact absurd hpops (by simp [hop, Opcode.pops])

theorem execute_effect_of_one (hpops : inst.op.pops = 1) (hleave : inst.op ≠ .leave)
    (h : Supplied s a inst) :
    Effect p s a inst (execute p s a inst).1 (execute p s a inst).2 := by
  obtain ⟨hsp, x, htop, heq⟩ := h.top hleave hpops
  cases hop : inst.op with
  | leave => exact absurd hop hleave
  | call =>
      simp only [execute, hop, heq]
      exact call_effect hop hsp htop
  | jump => exact jump_effect hop hsp htop heq
  | pop =>
      simp only [execute, hop, heq]
      exact passed_effect hop (by simp) ⟨rfl, rfl⟩ (by simp only [Opcode.stackDelta]; omega)
  | load width =>
      simp only [execute, hop, heq]
      exact passed_effect hop (by simp) ⟨rfl, setOperand_size ..⟩ (by simp [Opcode.stackDelta])
  | arg =>
      simp only [execute, hop, heq]
      exact passed_effect hop (by simp) ⟨write_trace .., by simp⟩
        (by simp only [Opcode.stackDelta]; omega)
  | unary op =>
      simp only [execute, hop, heq]
      exact passed_effect hop (by simp) ⟨rfl, setOperand_size ..⟩ (by simp [Opcode.stackDelta])
  | _ => exact absurd hpops (by simp [hop, Opcode.pops])

theorem execute_effect_of_two (hpops : inst.op.pops = 2) (h : Supplied s a inst) :
    Effect p s a inst (execute p s a inst).1 (execute p s a inst).2 := by
  have hleave : inst.op ≠ .leave := by
    intro hop
    simp [hop, Opcode.pops] at hpops
  obtain ⟨hsp, x, y, -, -, heq⟩ := h.topTwo hleave hpops
  cases hop : inst.op with
  | branch c =>
      have hdelta : 4 * ((a.sp - 2 : Nat) : Int) = 4 * a.sp + (Opcode.branch c).stackDelta := by
        simp only [Opcode.stackDelta]
        omega
      simp only [execute, hop, heq]
      split
      · exact .jumped (.branch hop rfl) (hop ▸ hdelta)
      · exact passed_effect hop (by simp) ⟨rfl, rfl⟩ hdelta
  | store width =>
      simp only [execute, hop, heq]
      exact passed_effect hop (by simp) ⟨write_trace .., by simp⟩
        (by simp only [Opcode.stackDelta]; omega)
  | blockCopy =>
      simp only [execute, hop, heq]
      exact passed_effect hop (by simp) ⟨by simp, by simp⟩
        (by simp only [Opcode.stackDelta]; omega)
  | binary op =>
      simp only [execute, hop, heq]
      exact passed_effect hop (by simp) ⟨rfl, setOperand_size ..⟩
        (by simp only [Opcode.stackDelta]; omega)
  | division op =>
      simp only [execute, hop, heq]
      split
      · exact passed_effect hop (by simp) ⟨rfl, setOperand_size ..⟩
          (by simp only [Opcode.stackDelta]; omega)
      · exact .trapped ⟨rfl, rfl⟩
  | _ => exact absurd hpops (by simp [hop, Opcode.pops])

theorem execute_effect (h : Supplied s a inst) :
    Effect p s a inst (execute p s a inst).1 (execute p s a inst).2 := by
  by_cases hleave : inst.op = .leave
  · simp only [execute, hleave]
    exact leave_effect hleave h
  rcases pops_cases inst.op with hpops | hpops | hpops
  · exact execute_effect_of_none hpops h
  · exact execute_effect_of_one hpops hleave h
  · exact execute_effect_of_two hpops h

theorem Effect.call_of_syscall {s' : Store} {a' : Activation} {id : UInt32} {frame : Word}
    (h : Effect p s a inst s' (.syscall a' id frame)) : a' = a ∧ inst.op = .call := by
  generalize hmove : Move.syscall a' id frame = move at h
  cases h with
  | requested hop htop hkept hoperandTop => exact ⟨(Move.syscall.inj hmove).1, hop⟩
  | jumped hdirected hsp =>
      unfold goTo at hmove
      split at hmove <;> cases hmove
  | _ => cases hmove

theorem Effect.frames_of_leave {s' : Store} {a' : Activation}
    (h : Effect p s a inst s' (.proceed a')) (hop : inst.op = .leave) :
    ∃ frame, a.frames = frame :: a'.frames := by
  generalize hmove : Move.proceed a' = move at h
  cases h with
  | passed hleave => exact absurd hop hleave
  | jumped hdirected hsp =>
      cases hdirected with
      | branch hop' => simp [hop] at hop'
      | known hop' => simp [hop] at hop'
      | computed hop' => simp [hop] at hop'
  | entered hop' => simp [hop] at hop'
  | returned hop' hframes =>
      obtain rfl := Move.proceed.inj hmove
      exact ⟨_, hframes⟩
  | _ => cases hmove

theorem withTop_of_not_supplied (h : ¬ Supplied s a inst) (hleave : inst.op ≠ .leave)
    (hpops : inst.op.pops = 1) (k : Word → Outcome) : withTop s a k = (s, .crash) := by
  refine withTop_crash (fun hbounds => h ?_) k
  exact (supplied_iff_of_pops hleave (by omega)).mpr (hpops ▸ hbounds)

theorem withTopTwo_of_not_supplied (h : ¬ Supplied s a inst) (hleave : inst.op ≠ .leave)
    (hpops : inst.op.pops = 2) (k : Word → Word → Outcome) :
    withTopTwo s a k = (s, .crash) := by
  refine withTopTwo_crash (fun hbounds => h ?_) k
  exact (supplied_iff_of_pops hleave (by omega)).mpr (hpops ▸ hbounds)

theorem push_of_not_supplied (h : ¬ Supplied s a inst)
    (hop : inst.op = .push ∨ inst.op = .const ∨ inst.op = .localAddress) (value : Word) :
    push s a value = (s, .crash) :=
  if_neg fun hlt => h ((supplied_iff_of_pushes hop).mpr hlt)

theorem leave_of_not_supplied (h : ¬ Supplied s a inst) (hop : inst.op = .leave) (size : Word) :
    (leave s a size).2 = .crash := by
  rw [supplied_iff_of_leave hop] at h
  unfold leave
  split
  · rename_i frames pc procedure hframes
    exact absurd (fun hcaller => by simp [callerIndex?, hframes] at hcaller) h
  · split
    · rfl
    · rename_i sp hsp
      have hnone : s.leaveCall.operand? sp = none := by
        refine Array.getElem?_eq_none (Nat.le_of_not_lt fun hlt => h fun _ => ?_)
        exact ⟨by omega, by rw [hsp]; exact hlt⟩
      simp only [hnone]

theorem execute_crash (h : ¬ Supplied s a inst) : (execute p s a inst).2 = .crash := by
  have hnone : inst.op.pops = 0 → inst.op.pushes = 0 → False := by
    intro hpops hpushes
    apply h
    intro slot hslot
    unfold Touches at hslot
    cases hop : inst.op <;> simp [hop, Opcode.pops, Opcode.pushes] at hpops hpushes hslot <;> omega
  unfold execute
  cases hop : inst.op with
  | leave => exact leave_of_not_supplied h hop inst.operand
  | push => simp only [push_of_not_supplied h (Or.inl hop)]
  | const => simp only [push_of_not_supplied h (Or.inr (Or.inl hop))]
  | localAddress => simp only [push_of_not_supplied h (Or.inr (Or.inr hop))]
  | call => simp [withTop_of_not_supplied h (by simp [hop]) (by simp [hop, Opcode.pops])]
  | pop => simp [withTop_of_not_supplied h (by simp [hop]) (by simp [hop, Opcode.pops])]
  | jump => simp [withTop_of_not_supplied h (by simp [hop]) (by simp [hop, Opcode.pops])]
  | load width => simp [withTop_of_not_supplied h (by simp [hop]) (by simp [hop, Opcode.pops])]
  | arg => simp [withTop_of_not_supplied h (by simp [hop]) (by simp [hop, Opcode.pops])]
  | unary op => simp [withTop_of_not_supplied h (by simp [hop]) (by simp [hop, Opcode.pops])]
  | branch c => simp [withTopTwo_of_not_supplied h (by simp [hop]) (by simp [hop, Opcode.pops])]
  | store width => simp [withTopTwo_of_not_supplied h (by simp [hop]) (by simp [hop, Opcode.pops])]
  | blockCopy => simp [withTopTwo_of_not_supplied h (by simp [hop]) (by simp [hop, Opcode.pops])]
  | binary op => simp [withTopTwo_of_not_supplied h (by simp [hop]) (by simp [hop, Opcode.pops])]
  | division op => simp [withTopTwo_of_not_supplied h (by simp [hop]) (by simp [hop, Opcode.pops])]
  | _ => exact (hnone (by simp [hop, Opcode.pops]) (by simp [hop, Opcode.pushes])).elim

end

end SandboxVm.Proofs.InterpretedInstruction
