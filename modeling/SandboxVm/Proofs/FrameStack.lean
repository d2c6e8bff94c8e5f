import SandboxVm.Proofs.ControlTransfer
import SandboxVm.Proofs.MachineRun

/-!
The procedures in progress, from the innermost one of the innermost call out to
the entry procedure of the outermost call: where each of them is in the code,
how many operands it has on the stack, and where the one around it goes on.
-/

namespace SandboxVm.Proofs.FrameStack

open SandboxVm.Proofs.VerificationRules
open SandboxVm.Proofs.LoadedModule
open SandboxVm.Proofs.ControlTransfer
open SandboxVm.Proofs.MachineRun

variable {δ : Type}

/-- A procedure is at index `pc`, and the `sp` operands on the stack are those
below its base and those that the depth at `pc` accounts for. -/
structure Placed (m : Module) (procedure : Procedure) (base pc sp : Nat) : Prop where
  inside : Inside m procedure pc
  depth : ∃ inst, m.code[pc]? = some inst ∧ 4 * (sp : Int) = 4 * base + inst.depth

/-- The frames of a call that has `outer` calls around it and found `bottom`
operands on the stack, with its innermost procedure at `pc` and `sp` operands
on the stack. The bases and the call sites are those of the states in `trace`. -/
inductive Stacked (m : Module) (trace : List (State δ Activation)) (outer bottom : Nat) :
    (pc sp : Nat) → List Frame → Prop where
  | entry {pc sp : Nat} {procedure : Procedure} (hplaced : Placed m procedure bottom pc sp)
      (hbase : base? m.code (outer, 1) trace = some bottom) :
      Stacked m trace outer bottom pc sp [⟨none, procedure⟩]
  | inner {pc sp base : Nat} {procedure : Procedure} {caller : Activation}
      (hcaller : Stacked m trace outer bottom caller.pc caller.sp caller.frames)
      (hcall : opAt? m.code caller.pc = some .call) (hsp : caller.sp = base + 1)
      (hlatest : latest? (outer, caller.frames.length) trace = some caller)
      (hplaced : Placed m procedure base pc sp)
      (hbase : base? m.code (outer, caller.frames.length + 1) trace = some base) :
      Stacked m trace outer bottom pc sp (⟨some (caller.pc + 1), procedure⟩ :: caller.frames)

/-- The calls around a call with bracket `b`. Each waits at a `call` for a host
service, and the call inside of it starts from what it has in use. -/
def Suspends (m : Module) (trace : List (State δ Activation)) :
    Bracket → List (Suspended δ Activation) → Prop
  | b, [] => b.operandTop = 0 ∧ b.traceDepth = 0
  | b, w :: outer =>
    Stacked m trace outer.length w.bracket.operandTop w.activation.pc w.activation.sp
      w.activation.frames ∧
    opAt? m.code w.activation.pc = some .call ∧
    b.operandTop = w.activation.sp ∧
    b.traceDepth = w.bracket.traceDepth + w.activation.frames.length ∧
    Suspends m trace w.bracket outer

section

variable {m : Module} {trace : List (State δ Activation)} {outer bottom pc sp : Nat}
  {frames : List Frame}

theorem Stacked.innermost (h : Stacked m trace outer bottom pc sp frames) :
    ∃ frame rest base, frames = frame :: rest ∧ Placed m frame.procedure base pc sp ∧
      base? m.code (outer, frames.length) trace = some base ∧
      ∀ pc' sp', Placed m frame.procedure base pc' sp' →
        Stacked m trace outer bottom pc' sp' frames := by
  cases h with
  | entry hplaced hbase =>
      exact ⟨_, [], bottom, rfl, hplaced, hbase, fun pc' sp' hplaced' => .entry hplaced' hbase⟩
  | inner hcaller hcall hsp hlatest hplaced hbase =>
      exact ⟨_, _, _, rfl, hplaced, hbase,
        fun pc' sp' hplaced' => .inner hcaller hcall hsp hlatest hplaced' hbase⟩

theorem Stacked.caller {index : Nat} {procedure : Procedure}
    (h : Stacked m trace outer bottom pc sp (⟨some index, procedure⟩ :: frames)) :
    ∃ (caller : Activation) (base : Nat), index = caller.pc + 1 ∧ frames = caller.frames ∧
      Stacked m trace outer bottom caller.pc caller.sp caller.frames ∧
      opAt? m.code caller.pc = some .call ∧ caller.sp = base + 1 ∧
      latest? (outer, caller.frames.length) trace = some caller ∧
      Placed m procedure base pc sp := by
  generalize hall : (⟨some index, procedure⟩ :: frames : List Frame) = all at h
  cases h with
  | entry hplaced hbase => simp at hall
  | @inner _ _ base procedure' caller hcaller hcall hsp hlatest hplaced hbase =>
      simp only [List.cons.injEq, Frame.mk.injEq, Option.some.injEq] at hall
      obtain ⟨⟨rfl, rfl⟩, rfl⟩ := hall
      exact ⟨caller, base, rfl, rfl, hcaller, hcall, hsp, hlatest, hplaced⟩

/-- Another state changes nothing if it belongs to another call or to a
procedure further in, or goes on in the innermost procedure. -/
theorem Stacked.grow {s : State δ Activation} (h : Stacked m trace outer bottom pc sp frames)
    (hlevel : (level s).1 ≠ outer ∨ frames.length ≤ (level s).2)
    (hentering : isEntering m.code s = true → (level s).1 ≠ outer ∨ frames.length < (level s).2) :
    Stacked m (s :: trace) outer bottom pc sp frames := by
  -- Down the frames the levels get less, so the new state hides no base and no call site.
  induction h with
  | entry hplaced hbase =>
      refine .entry hplaced ?_
      rw [base?_cons_of_ne, hbase]
      rintro hs heq
      have := hentering hs
      simp only [heq, List.length_cons, List.length_nil] at this
      omega
  | @inner pc sp base procedure caller hcaller hcall hsp hlatest hplaced hbase ih =>
      simp only [List.length_cons] at hlevel hentering
      refine .inner (ih (by omega) ?_) hcall hsp ?_ hplaced ?_
      · intro hs
        have := hentering hs
        omega
      · rw [latest?_cons_of_ne, hlatest]
        rintro heq
        simp only [heq] at hlevel
        omega
      · rw [base?_cons_of_ne, hbase]
        rintro hs heq
        have := hentering hs
        simp only [heq] at this
        omega

theorem Suspends.grow {s : State δ Activation} {b : Bracket}
    {suspended : List (Suspended δ Activation)} (h : Suspends m trace b suspended)
    (hlevel : suspended.length ≤ (level s).1) : Suspends m (s :: trace) b suspended := by
  induction suspended generalizing b with
  | nil => exact h
  | cons w outer ih =>
      rw [List.length_cons] at hlevel
      obtain ⟨hstacked, hcall, htop, hdepth, hrest⟩ := h
      exact ⟨hstacked.grow (Or.inl (by omega)) fun _ => Or.inl (by omega), hcall, htop, hdepth,
        ih hrest (by omega)⟩

theorem Placed.move {procedure : Procedure} {base pc' sp' : Nat} {inst inst' : AnnotatedInstruction}
    (h : Placed m procedure base pc sp) (hinside : Inside m procedure pc')
    (hinst : m.code[pc]? = some inst) (hinst' : m.code[pc']? = some inst')
    (hdepth : 4 * (sp' : Int) - inst'.depth = 4 * sp - inst.depth) :
    Placed m procedure base pc' sp' := by
  obtain ⟨inst₀, hinst₀, hsp⟩ := h.depth
  obtain rfl : inst = inst₀ := by simpa [hinst] using hinst₀
  exact ⟨hinside, inst', hinst', by omega⟩

variable (hm : Sound m)

include hm

theorem Placed.sp_le {procedure : Procedure} {base : Nat} (h : Placed m procedure base pc sp) :
    base ≤ sp ∧ sp ≤ base + 29 := by
  obtain ⟨inst, hinst, hsp⟩ := h.depth
  have := (hm.rules.depths pc inst hinst).1
  omega

/-- A call has at most 29 operands on the stack for each of its procedures. -/
theorem Stacked.sp_le (h : Stacked m trace outer bottom pc sp frames) :
    sp ≤ bottom + 29 * frames.length := by
  induction h with
  | entry hplaced hbase =>
      have := (hplaced.sp_le hm).2
      simp only [List.length_cons, List.length_nil]
      omega
  | inner hcaller hcall hsp hlatest hplaced hbase ih =>
      have := (hplaced.sp_le hm).2
      simp only [List.length_cons]
      omega

theorem Stacked.base_le {base : Nat} (h : Stacked m trace outer bottom pc sp frames)
    (hbase : base? m.code (outer, frames.length) trace = some base) :
    base + 29 ≤ bottom + 29 * frames.length := by
  cases h with
  | entry hplaced hbase' =>
      obtain rfl : bottom = base := Option.some.inj (hbase'.symm.trans hbase)
      exact Nat.le_refl _
  | @inner _ _ base' procedure caller hcaller hcall hsp hlatest hplaced hbase' =>
      obtain rfl : base' = base := Option.some.inj (hbase'.symm.trans hbase)
      have := hcaller.sp_le hm
      simp only [List.length_cons]
      omega

theorem Suspends.operandTop_le {b : Bracket} {suspended : List (Suspended δ Activation)}
    (h : Suspends m trace b suspended) : b.operandTop ≤ 29 * b.traceDepth := by
  induction suspended generalizing b with
  | nil =>
      obtain ⟨htop, hdepth⟩ := h
      omega
  | cons w outer ih =>
      obtain ⟨hstacked, hcall, htop, hdepth, hrest⟩ := h
      have := hstacked.sp_le hm
      have := ih hrest
      omega

theorem Stacked.transfer_behind {a : Activation}
    (h : Stacked m trace outer bottom a.pc a.sp a.frames)
    (hcall : opAt? m.code a.pc = some .call) : Transfer m a { a with pc := a.pc + 1 } := by
  obtain ⟨frame, rest, base, hframes, hplaced, -, -⟩ := h.innermost
  obtain ⟨call, hinst, hop⟩ := exists_of_opAt? hcall
  obtain ⟨hinside, after, hafter, hop', hdepth⟩ := hplaced.inside.next hm hinst (by simp [hop])
  simp only [hop, Opcode.stackDelta] at hdepth
  exact .within rfl hinside (by simp [hframes]) hinst hafter hop' (by simp only; omega)

/-- The frames after a control transfer, seen from the state it leads to. Only a
call goes to an `enter`. -/
theorem Stacked.transfer {s s' : State δ Activation} {a a' : Activation}
    (h : Stacked m (s :: trace) outer bottom a.pc a.sp a.frames) (ht : Transfer m a a')
    (hinnermost : MachineRun.innermost s = a) (houter : s.outer.length = outer)
    (hcontrol : s'.control = .running a') (houter' : s'.outer.length = outer) :
    Stacked m (s' :: s :: trace) outer bottom a'.pc a'.sp a'.frames ∧
      (isEntering m.code s' = true → ∃ frame, a'.frames = frame :: a.frames) := by
  have hinnermost' : MachineRun.innermost s' = a' := innermost_running hcontrol
  have hlevel : level s = (outer, a.frames.length) := by simp [level, hinnermost, houter]
  have hlevel' : level s' = (outer, a'.frames.length) := by simp [level, hinnermost', houter']
  cases ht with
  | @within procedure inst inst' hframes hinside hprocedure hinst hinst' hop hdepth =>
      obtain ⟨frame, rest, base, hcons, hplaced, -, hmove⟩ := h.innermost
      obtain rfl : frame.procedure = procedure := by simpa [hcons] using hprocedure
      have hentering : isEntering m.code s' ≠ true := by
        rw [ne_eq, isEntering_iff hcontrol, opAt?_eq_some hinst']
        exact fun henter => hop (Option.some.inj henter)
      refine ⟨?_, fun henter => absurd henter hentering⟩
      rw [hframes]
      refine (hmove a'.pc a'.sp (hplaced.move hinside hinst hinst' hdepth)).grow ?_ fun henter =>
        absurd henter hentering
      rw [hlevel', hframes]
      exact Or.inr (Nat.le_refl _)
  | @called procedure hcall hmem hpc hsp hframes =>
      obtain ⟨enter, henter, hop, hzero⟩ := hm.exists_enter hmem
      have hentering : isEntering m.code s' = true := by
        rw [isEntering_iff hcontrol, hpc, opAt?_eq_some henter, hop]
      have hlength : a'.frames.length = a.frames.length + 1 := by simp [hframes]
      have hcaller : Stacked m (s' :: s :: trace) outer bottom a.pc a.sp a.frames := by
        refine h.grow (Or.inr ?_) fun _ => Or.inr ?_
        · simp only [hlevel']
          omega
        · simp only [hlevel']
          omega
      have hlatest : latest? (outer, a.frames.length) (s' :: s :: trace) = some a := by
        rw [latest?_cons_of_ne, latest?_cons_self hlevel, hinnermost]
        simp [hlevel', hlength]
      have hbase : base? m.code (outer, a.frames.length + 1) (s' :: s :: trace) = some a'.sp := by
        rw [base?_cons_self (by rw [hlevel', hlength]) hentering, hinnermost']
      have hinside : Inside m procedure procedure.start :=
        ⟨hmem, Nat.le_refl _, Nat.le_trans (Nat.le_add_right _ 2)
          (hm.mem_procedures_iff.mp hmem).span.le⟩
      refine ⟨?_, fun _ => ⟨_, hframes⟩⟩
      rw [hframes, hpc]
      exact .inner hcaller hcall hsp.symm hlatest ⟨hinside, enter, henter, by omega⟩ hbase
  | @returned procedure hleave hframes hsp =>
      rw [hframes] at h
      obtain ⟨caller, base, hindex, hrest, hcaller, hcall, hcallerSp, -, hplaced⟩ := h.caller
      obtain ⟨leave, hinst, hdepth⟩ := hplaced.depth
      have hrule := hm.rules.instructions a.pc leave hinst
      have hop : leave.op = .leave := by
        rw [opAt?_eq_some hinst] at hleave
        exact Option.some.inj hleave
      simp only [InstructionRule, hop] at hrule
      have hsp' : a'.sp = caller.sp := by omega
      obtain ⟨frame, rest, base', -, hplaced', -, hmove⟩ := hcaller.innermost
      obtain ⟨call, hinst', hop'⟩ := exists_of_opAt? hcall
      obtain ⟨hinside, after, hafter, hop'', hdepth'⟩ :=
        hplaced'.inside.next hm hinst' (by simp [hop'])
      simp only [hop', Opcode.stackDelta] at hdepth'
      have hentering : isEntering m.code s' ≠ true := by
        rw [ne_eq, isEntering_iff hcontrol, hindex, opAt?_eq_some hafter]
        exact fun henter => hop'' (Option.some.inj henter)
      refine ⟨?_, fun henter => absurd henter hentering⟩
      rw [hindex, hrest, hsp']
      refine (hmove _ _ (hplaced'.move hinside hinst' hafter (by omega))).grow ?_ fun henter =>
        absurd henter hentering
      rw [hlevel', hrest]
      exact Or.inr (Nat.le_refl _)

end

end SandboxVm.Proofs.FrameStack
