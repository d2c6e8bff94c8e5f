import SandboxVm.Proofs.InterpretedInstruction

namespace SandboxVm.Proofs.OperandAccess

open SandboxVm.Interpreter
open SandboxVm.Proofs.InterpretedInstruction

section

variable {p : Program} {s : Store} {a : Activation} {inst : AnnotatedInstruction} {slot : Nat}

theorem withTop_operand? {k : Word → Outcome}
    (hk : 1 ≤ a.sp → ∀ x, (k x).1.operand? slot = s.operand? slot) :
    (withTop s a k).1.operand? slot = s.operand? slot := by
  unfold withTop
  split
  · rfl
  · split
    · exact hk (by omega) _
    · rfl

theorem withTopTwo_operand? {k : Word → Word → Outcome}
    (hk : 2 ≤ a.sp → ∀ x y, (k x y).1.operand? slot = s.operand? slot) :
    (withTopTwo s a k).1.operand? slot = s.operand? slot := by
  unfold withTopTwo
  split
  · split
    · exact hk (by omega) _ _
    · rfl
  · rfl

theorem push_operand? {value : Word} (h : a.sp ≠ slot) :
    (push s a value).1.operand? slot = s.operand? slot := by
  unfold push
  split
  · exact setOperand_operand?_ne s h value
  · rfl

theorem enterProcedure_operand? {target : Nat} {returnTo : Option Nat} :
    (enterProcedure p s a target returnTo).1.operand? slot = s.operand? slot := by
  rcases enterProcedure_cases p s a target returnTo with
    ⟨-, heq⟩ | ⟨procedure, -, ⟨-, heq⟩ | ⟨-, heq⟩⟩
  · rw [heq]
  · rw [heq]
  · rw [heq]
    rfl

theorem call_operand? {target : Word} : (call p s a target).1.operand? slot = s.operand? slot := by
  unfold call
  by_cases hneg : target < 0
  · simp [if_pos hneg, Store.operand?]
  · simp only [if_neg hneg, enterProcedure_operand?, write_operand?]

theorem leave_operand? {size : Word} : (leave s a size).1.operand? slot = s.operand? slot := by
  unfold leave
  split
  · rfl
  · split
    · rfl
    · simp only
      split <;> rfl

theorem execute_operand? (h : ¬ Touches a inst slot) :
    (execute p s a inst).1.operand? slot = s.operand? slot := by
  unfold Touches at h
  unfold execute
  cases hop : inst.op with
  | enter =>
      simp only
      split <;> rfl
  | leave => exact leave_operand?
  | call => exact withTop_operand? fun _ target => call_operand?
  | push => exact push_operand? fun heq => h (by simp [hop, heq])
  | const => exact push_operand? fun heq => h (by simp [hop, heq])
  | localAddress => exact push_operand? fun heq => h (by simp [hop, heq])
  | pop => exact withTop_operand? fun _ _ => rfl
  | jump =>
      apply withTop_operand?
      intro _ target
      simp only
      split
      · split
        · split <;> rfl
        · rfl
      · rfl
  | branch c =>
      apply withTopTwo_operand?
      intro _ x y
      simp only
      split <;> rfl
  | load width =>
      refine withTop_operand? fun hsp addr => setOperand_operand?_ne s (fun heq => h ?_) _
      simp only [hop, Opcode.pops]
      omega
  | store width => exact withTopTwo_operand? fun _ _ _ => write_operand? ..
  | arg => exact withTop_operand? fun _ _ => write_operand? ..
  | blockCopy => exact withTopTwo_operand? fun _ _ _ => rfl
  | unary op =>
      refine withTop_operand? fun hsp x => setOperand_operand?_ne s (fun heq => h ?_) _
      simp only [hop, Opcode.pops]
      omega
  | binary op =>
      refine withTopTwo_operand? fun hsp x y => setOperand_operand?_ne s (fun heq => h ?_) _
      simp only [hop, Opcode.pops]
      omega
  | division op =>
      apply withTopTwo_operand?
      intro hsp x y
      split
      · refine setOperand_operand?_ne s (fun heq => h ?_) _
        simp only [hop, Opcode.pops]
        omega
      · rfl
  | _ => rfl

end

/-- The stores agree on the operand slots in `D` and on everything but operands. -/
structure SameOn (D : Int → Prop) (s t : Store) : Prop where
  rest : t = { s with operands := t.operands }
  size : t.operands.size = s.operands.size
  slots : ∀ slot : Nat, D slot → t.operand? slot = s.operand? slot

/-- The outcomes are the same move in stores that agree on `D`. -/
structure Alike (D : Int → Prop) (o o' : Outcome) : Prop where
  store : SameOn D o.1 o'.1
  move : o'.2 = o.2

section

variable {p : Program} {D : Int → Prop} {s t : Store} {a : Activation} (h : SameOn D s t)

include h

theorem SameOn.trace_eq : t.trace = s.trace := by
  rw [h.rest]

theorem SameOn.arena_eq : t.arena = s.arena := by
  rw [h.rest]

theorem SameOn.map {f : Store → Store}
    (hf : ∀ ops, f { s with operands := ops } = { f s with operands := ops }) :
    SameOn D (f s) (f t) := by
  have hs : (f s).operands = s.operands := by
    have := congrArg Store.operands (hf s.operands)
    exact this
  have ht : f t = { f s with operands := t.operands } := by
    rw [h.rest]
    exact hf t.operands
  refine ⟨?_, ?_, ?_⟩
  · rw [ht]
  · rw [ht, hs, h.size]
  · intro slot hslot
    simp only [Store.operand?, ht, hs]
    exact h.slots slot hslot

theorem SameOn.setOperand (slot : Nat) (value : Word) :
    SameOn D (s.setOperand slot value) (t.setOperand slot value) := by
  refine ⟨?_, by simp [h.size], ?_⟩
  · rw [Store.setOperand, h.rest]
    rfl
  · intro other hother
    by_cases heq : slot = other
    · subst heq
      simp only [Store.setOperand, Store.operand?, Array.getElem?_setIfInBounds_self, h.size]
    · rw [setOperand_operand?_ne t heq, setOperand_operand?_ne s heq, h.slots other hother]

theorem SameOn.withTop {k k' : Word → Outcome} (hD : 1 ≤ a.sp → D (a.sp - 1))
    (hk : ∀ x, Alike D (k x) (k' x)) : Alike D (withTop s a k) (withTop t a k') := by
  unfold Interpreter.withTop
  split
  · exact ⟨h, rfl⟩
  · rename_i sp hsp
    have hslot : D sp := by
      have := hD (by omega)
      rwa [show (a.sp : Int) - 1 = sp by omega] at this
    rw [h.slots sp hslot]
    split
    · exact hk _
    · exact ⟨h, rfl⟩

theorem SameOn.withTopTwo {k k' : Word → Word → Outcome}
    (hD : 2 ≤ a.sp → D (a.sp - 1) ∧ D (a.sp - 2))
    (hk : ∀ x y, Alike D (k x y) (k' x y)) : Alike D (withTopTwo s a k) (withTopTwo t a k') := by
  unfold Interpreter.withTopTwo
  split
  · rename_i sp hsp
    obtain ⟨htop, hbelow⟩ := hD (by omega)
    rw [show (a.sp : Int) - 1 = (sp + 1 : Nat) by omega] at htop
    rw [show (a.sp : Int) - 2 = sp by omega] at hbelow
    rw [h.slots sp hbelow, h.slots (sp + 1) htop]
    split
    · exact hk _ _
    · exact ⟨h, rfl⟩
  · exact ⟨h, rfl⟩

theorem SameOn.push (value : Word) : Alike D (push s a value) (push t a value) := by
  unfold Interpreter.push
  rw [h.size]
  split
  · exact ⟨h.setOperand a.sp value, rfl⟩
  · exact ⟨h, rfl⟩

theorem SameOn.write (width : Width) (addr value : Word) :
    SameOn D (s.write width addr value) (t.write width addr value) :=
  h.map (f := fun s => s.write width addr value) fun _ => rfl

theorem SameOn.logged (a : Activation) (inst : AnnotatedInstruction) :
    SameOn D (logged s a inst) (logged t a inst) := by
  refine h.map (f := fun s => InterpretedInstruction.logged s a inst) ?_
  intro operands
  unfold InterpretedInstruction.logged Store.note
  split <;> rfl

theorem SameOn.enterProcedure (target : Nat) (returnTo : Option Nat) :
    Alike D (enterProcedure p s a target returnTo) (enterProcedure p t a target returnTo) := by
  unfold Interpreter.enterProcedure Store.enterCall?
  rw [h.trace_eq]
  split
  · exact ⟨h, rfl⟩
  · by_cases hdepth : p.maxCallDepth ≤ s.trace.depth
    · simp only [if_pos hdepth]
      exact ⟨h, rfl⟩
    · simp only [if_neg hdepth]
      exact ⟨h.map (f := fun s' => { s' with trace := s.trace.push target }) fun _ => rfl, rfl⟩

theorem SameOn.call (target : Word) : Alike D (call p s a target) (call p t a target) := by
  have hwrite := h.write .four a.ps (Int32.ofNat (a.pc + 1))
  unfold Interpreter.call
  by_cases hneg : target < 0
  · simp only [if_pos hneg]
    have hid := hwrite.write .four (a.ps + 4) (-1 - target).toUInt32.toInt32
    exact ⟨hid.map (f := fun s => { s with programStack := a.ps - 4, operandTop := a.sp })
      fun _ => rfl, rfl⟩
  · simp only [if_neg hneg]
    exact hwrite.enterProcedure target.toInt.toNat (some (a.pc + 1))

theorem SameOn.leave (size : Word) (hD : callerIndex? a = none → D (a.sp - 1)) :
    Alike D (leave s a size) (leave t a size) := by
  have hleave : SameOn D s.leaveCall t.leaveCall := h.map (f := Store.leaveCall) fun _ => rfl
  unfold Interpreter.leave
  split
  · exact ⟨hleave, rfl⟩
  · rename_i hnot
    have hcaller := callerIndex?_eq_none hnot
    split
    · exact ⟨hleave, rfl⟩
    · rename_i sp hsp
      have hslot : D sp := by
        have := hD hcaller
        rwa [show (a.sp : Int) - 1 = sp by omega] at this
      simp only [hleave.slots sp hslot]
      split
      · exact ⟨hleave, rfl⟩
      · exact ⟨hleave, rfl⟩

variable {inst : AnnotatedInstruction}

/-- What an instruction does depends on no slot but those that it touches. -/
theorem SameOn.execute (hD : ∀ slot, Touches a inst slot → D slot) :
    Alike D (execute p s a inst) (execute p t a inst) := by
  have hone : inst.op ≠ .leave → inst.op.pops = 1 → 1 ≤ a.sp → D (a.sp - 1) := by
    intro hleave hpops hsp
    exact hD _ ((touches_iff_of_pops hleave (by omega)).mpr (by omega))
  have htwo : inst.op ≠ .leave → inst.op.pops = 2 → 2 ≤ a.sp → D (a.sp - 1) ∧ D (a.sp - 2) := by
    intro hleave hpops hsp
    exact ⟨hD _ ((touches_iff_of_pops hleave (by omega)).mpr (by omega)),
      hD _ ((touches_iff_of_pops hleave (by omega)).mpr (by omega))⟩
  unfold Interpreter.execute
  cases hop : inst.op with
  | undef => exact ⟨h, rfl⟩
  | ignore => exact ⟨h, rfl⟩
  | breakpoint => exact ⟨h.map (f := fun s => { s with breakpoints := s.breakpoints + 1 })
      fun _ => rfl, rfl⟩
  | enter =>
      simp only
      split
      · exact ⟨h, rfl⟩
      · exact ⟨h, rfl⟩
  | leave => exact h.leave inst.operand fun hcaller => hD _ (by simp [Touches, hop, hcaller])
  | call => exact h.withTop (hone (by simp [hop]) (by simp [hop, Opcode.pops])) fun x => h.call x
  | push => exact h.push 0
  | const => exact h.push inst.operand
  | localAddress => exact h.push (a.ps + inst.operand)
  | pop =>
      exact h.withTop (hone (by simp [hop]) (by simp [hop, Opcode.pops])) fun x => ⟨h, rfl⟩
  | jump =>
      apply h.withTop (hone (by simp [hop]) (by simp [hop, Opcode.pops]))
      intro x
      simp only
      split
      · split
        · split
          · exact ⟨h, rfl⟩
          · exact ⟨h, rfl⟩
        · exact ⟨h, rfl⟩
      · exact ⟨h, rfl⟩
  | branch c =>
      apply h.withTopTwo (htwo (by simp [hop]) (by simp [hop, Opcode.pops]))
      intro x y
      simp only
      split
      · exact ⟨h, rfl⟩
      · exact ⟨h, rfl⟩
  | load width =>
      apply h.withTop (hone (by simp [hop]) (by simp [hop, Opcode.pops]))
      intro addr
      rw [h.arena_eq]
      exact ⟨h.setOperand _ _, rfl⟩
  | store width =>
      exact h.withTopTwo (htwo (by simp [hop]) (by simp [hop, Opcode.pops]))
        fun addr value => ⟨h.write width addr value, rfl⟩
  | arg =>
      exact h.withTop (hone (by simp [hop]) (by simp [hop, Opcode.pops]))
        fun value => ⟨h.write .four (a.ps + inst.operand) value, rfl⟩
  | blockCopy =>
      refine h.withTopTwo (htwo (by simp [hop]) (by simp [hop, Opcode.pops]))
        fun dest src => ⟨?_, rfl⟩
      exact h.map (f := fun s => { s with arena := s.arena.blockCopy dest src inst.operand })
        fun _ => rfl
  | unary op =>
      exact h.withTop (hone (by simp [hop]) (by simp [hop, Opcode.pops]))
        fun x => ⟨h.setOperand _ _, rfl⟩
  | binary op =>
      exact h.withTopTwo (htwo (by simp [hop]) (by simp [hop, Opcode.pops]))
        fun x y => ⟨h.setOperand _ _, rfl⟩
  | division op =>
      apply h.withTopTwo (htwo (by simp [hop]) (by simp [hop, Opcode.pops]))
      intro x y
      split
      · exact ⟨h.setOperand _ _, rfl⟩
      · exact ⟨h, rfl⟩

end

end SandboxVm.Proofs.OperandAccess
