import SandboxVm.Proofs.InterpretedInstruction
import SandboxVm.Proofs.LoadedModule

namespace SandboxVm.Proofs.ControlTransfer

open SandboxVm.Interpreter
open SandboxVm.Proofs.VerificationRules
open SandboxVm.Proofs.LoadedModule
open SandboxVm.Proofs.InterpretedInstruction

structure Inside (m : Module) (procedure : Procedure) (i : Nat) : Prop where
  mem : procedure ∈ m.procedures
  start_le : procedure.start ≤ i
  le_last : i ≤ procedure.last

structure Destination (m : Module) (procedure : Procedure) (i : Nat) : Prop where
  inside : Inside m procedure i
  boundary : ∃ inst, m.code[i]? = some inst ∧ inst.depth = 0 ∧ inst.op ≠ .enter

/-- The constant in front of the next instruction is the top operand. -/
def ConstantOnTop (m : Module) (s : Store) (a : Activation) : Prop :=
  ∀ c, m.code.constantBefore? a.pc = some c → s.operand? (a.sp - 1) = some c

/-- One instruction takes the code of a call from `a` to `a'`. -/
inductive Transfer (m : Module) (a a' : Activation) : Prop where
  /-- Inside the innermost procedure, between instructions whose depths differ
  as the numbers of operands do. -/
  | within {procedure : Procedure} {inst inst' : AnnotatedInstruction}
      (hframes : a'.frames = a.frames) (hinside : Inside m procedure a'.pc)
      (hprocedure : a.frames.head?.map (·.procedure) = some procedure)
      (hinst : m.code[a.pc]? = some inst) (hinst' : m.code[a'.pc]? = some inst')
      (hop : inst'.op ≠ .enter)
      (hdepth : 4 * (a'.sp : Int) - inst'.depth = 4 * a.sp - inst.depth)
  | called {procedure : Procedure} (hcall : opAt? m.code a.pc = some .call)
      (hmem : procedure ∈ m.procedures) (hpc : a'.pc = procedure.start) (hsp : a'.sp + 1 = a.sp)
      (hframes : a'.frames = ⟨some (a.pc + 1), procedure⟩ :: a.frames)
  | returned {procedure : Procedure} (hleave : opAt? m.code a.pc = some .leave)
      (hframes : a.frames = ⟨some a'.pc, procedure⟩ :: a'.frames) (hsp : a'.sp = a.sp)

section

variable {m : Module} (hm : Sound m)

include hm

theorem Inside.exists_inst {procedure : Procedure} {i : Nat} (h : Inside m procedure i) :
    ∃ inst, m.code[i]? = some inst := by
  have hlt := (hm.mem_procedures_iff.mp h.mem).span.lt_size
  exact VerificationRules.exists_inst (Nat.lt_of_le_of_lt h.le_last hlt)

theorem Inside.next {procedure : Procedure} {i : Nat} {inst : AnnotatedInstruction}
    (h : Inside m procedure i) (hi : m.code[i]? = some inst) (hleave : inst.op ≠ .leave) :
    Inside m procedure (i + 1) ∧ ∃ after, m.code[i + 1]? = some after ∧ after.op ≠ .enter ∧
      after.depth = inst.depth + inst.op.stackDelta := by
  have hspan := (hm.mem_procedures_iff.mp h.mem).span
  have hne : i ≠ procedure.last := by
    rintro rfl
    have := hspan.leaves
    rw [opAt?_eq_some hi] at this
    exact hleave (Option.some.inj this)
  have hinside : Inside m procedure (i + 1) :=
    ⟨h.mem, Nat.le_succ_of_le h.start_le, Nat.lt_of_le_of_ne h.le_last hne⟩
  obtain ⟨after, hafter⟩ := hinside.exists_inst hm
  refine ⟨hinside, after, hafter, ?_, hm.follows.next i inst after hi hafter⟩
  intro hop
  exact hm.rules.unnested _ _ hspan (i + 1) (Nat.lt_succ_of_le h.start_le) hinside.le_last
    (by rw [opAt?_eq_some hafter, hop])

theorem Inside.jumpAllowed {procedure : Procedure} {i : Nat} {target : Word}
    (h : Inside m procedure i) (hallowed : JumpAllowed m.code i target) :
    Destination m procedure target.toInt.toNat := by
  have hspan := (hm.mem_procedures_iff.mp h.mem).span
  obtain ⟨hlow, hhigh⟩ := hallowed.inside _ _ hspan h.start_le h.le_last
  exact ⟨⟨h.mem, by omega, by omega⟩, hallowed.boundary⟩

variable {p : Program} {s s' : Store} {a a' : Activation} {inst : AnnotatedInstruction}
  {frame : Frame} {frames : List Frame} (himage : p.image = m)
  (hi : m.code[a.pc]? = some inst) (hframes : a.frames = frame :: frames)
  (hinside : Inside m frame.procedure a.pc) (hconst : ConstantOnTop m s a)

include himage hi hframes hinside hconst

/-- Wherever a jump has been decided to go, it may go there, and it leaves no
operand of the statement behind. -/
theorem directed_destination {target : Word} (h : Directed p s a inst target) :
    0 ≤ target.toInt ∧ Destination m frame.procedure target.toInt.toNat ∧
      inst.depth + inst.op.stackDelta = 0 := by
  have hrule := hm.rules.instructions a.pc inst hi
  cases h with
  | branch hop htarget =>
      simp only [InstructionRule, hop] at hrule
      subst htarget
      exact ⟨hrule.2.nonneg, hinside.jumpAllowed hm hrule.2,
        by simp [hop, hrule.1, Opcode.stackDelta]⟩
  | known hop hcomputed htop =>
      obtain ⟨c, hc⟩ : ∃ c, m.code.constantBefore? a.pc = some c := by
        rw [← Option.ne_none_iff_exists', ne_eq, ← hm.computed_iff a.pc inst hi hop]
        simp [hcomputed]
      obtain ⟨hoperand, hallowed⟩ := hm.known_jump hi hop hc
      obtain rfl : target = c := Option.some.inj (htop.symm.trans (hconst c hc))
      rw [hoperand] at hallowed
      simp only [InstructionRule, hop] at hrule
      exact ⟨hallowed.nonneg, hinside.jumpAllowed hm hallowed,
        by simp [hop, hrule.1, Opcode.stackDelta]⟩
  | @computed hop frame' frames' hframes' htarget =>
      obtain ⟨rfl, rfl⟩ : frame = frame' ∧ frames = frames' := by simpa [hframes] using hframes'
      simp only [InstructionRule, hop] at hrule
      simp only [Module.isJumpTarget, himage, Bool.and_eq_true, decide_eq_true_eq,
        Procedure.contains] at htarget
      obtain ⟨⟨hnonneg, hstart, hlast⟩, hdest⟩ := htarget
      rw [Int32.le_iff_toInt_le, Int32.toInt_zero] at hnonneg
      refine ⟨hnonneg, ⟨⟨hinside.mem, hstart, hlast⟩, ?_⟩, by
        simp [hop, hrule.1, Opcode.stackDelta]⟩
      split at hdest
      · rename_i dest hcode
        simp only [Bool.and_eq_true, bne_iff_ne] at hdest
        exact ⟨dest, hcode, hm.target_depth _ dest hcode hdest.1, hdest.2⟩
      · cases hdest

omit hm himage hi hframes hinside hconst in
theorem goTo_of_nonneg {target : Word} (h : 0 ≤ target.toInt) :
    goTo a target = .proceed { a with pc := target.toInt.toNat } := by
  refine if_neg ?_
  rw [Int32.lt_iff_toInt_lt, Int32.toInt_zero]
  omega

theorem not_crash_of_effect {move : Move Activation} (h : Effect p s a inst s' move) :
    move ≠ .crash := by
  cases h with
  | jumped hdirected hsp =>
      rw [goTo_of_nonneg (directed_destination hm himage hi hframes hinside hconst hdirected).1]
      simp
  | _ => simp

theorem transfer_of_effect
    (hreturn : ∀ pc, frame.returnTo = some pc → ∃ site, pc = site + 1 ∧
      opAt? m.code site = some .call)
    (h : Effect p s a inst s' (.proceed a')) :
    Transfer m a a' ∧ ConstantOnTop m s' a' := by
  have hprocedure : a.frames.head?.map (·.procedure) = some frame.procedure := by simp [hframes]
  generalize hmove : Move.proceed a' = move at h
  cases h with
  | @passed s' ps sp hleave hcall hjump hkept hsp hpushed =>
      obtain rfl := Move.proceed.inj hmove
      obtain ⟨hinside', after, hafter, hop, hdepth⟩ := hinside.next hm hi hleave
      refine ⟨.within rfl hinside' hprocedure hi hafter hop (by simp only; omega), ?_⟩
      intro c hc
      obtain ⟨j, prev, hj, hprev, hop, hoperand⟩ := constantBefore?_eq_some.mp hc
      obtain rfl : a.pc = j := Nat.succ.inj hj
      obtain rfl : inst = prev := by simpa [hi] using hprev
      simp only [hop, Opcode.stackDelta] at hsp
      rw [show sp - 1 = a.sp by omega, hpushed hop, hoperand]
  | @jumped sp target hdirected hsp =>
      obtain ⟨hnonneg, ⟨hinside', dest, hdest, hdepth, hop⟩, hzero⟩ :=
        directed_destination hm himage hi hframes hinside hconst hdirected
      rw [goTo_of_nonneg hnonneg] at hmove
      obtain rfl := Move.proceed.inj hmove
      refine ⟨.within rfl hinside' hprocedure hi hdest hop (by simp only; omega), ?_⟩
      intro c hc
      -- No constant stands in front of a place between statements.
      have := hm.depth_pos_of_constantBefore? hdest hc
      omega
  | @entered s' target procedure hop htop hnonneg hprocedure' hdepth hsp htrace hoperands =>
      obtain rfl := Move.proceed.inj hmove
      rw [himage] at hprocedure'
      obtain ⟨hmem, hstart⟩ := hm.procedureAt?_eq_some_iff.mp hprocedure'
      refine ⟨.called (by rw [opAt?_eq_some hi, hop]) hmem hstart.symm (by simp only; omega) rfl,
        fun c hc => ?_⟩
      obtain ⟨enter, henter, -, hzero⟩ := hm.exists_enter hmem
      rw [hstart] at henter
      have := hm.depth_pos_of_constantBefore? henter hc
      omega
  | @returned pc ps procedure frames' hop hframes' =>
      obtain rfl := Move.proceed.inj hmove
      refine ⟨.returned (by rw [opAt?_eq_some hi, hop]) hframes' rfl, fun c hc => ?_⟩
      obtain ⟨rfl, -⟩ : frame = ⟨some pc, procedure⟩ ∧ frames = frames' := by
        simpa [hframes] using hframes'
      obtain ⟨site, rfl, hcall⟩ := hreturn pc rfl
      obtain ⟨j, prev, hj, hprev, hconst', -⟩ := constantBefore?_eq_some.mp hc
      obtain rfl : site = j := Nat.succ.inj hj
      rw [opAt?_eq_some hprev, hconst'] at hcall
      cases hcall
  | finished => cases hmove
  | requested => cases hmove
  | trapped => cases hmove

end

end SandboxVm.Proofs.ControlTransfer
