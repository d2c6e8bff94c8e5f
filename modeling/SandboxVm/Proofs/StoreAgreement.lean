import SandboxVm.Proofs.OperandStack

/-!
Interpretation in stores that agree on the operands of the running code. They need not
agree on other operand slots, on log records or on the number of breakpoints: an
instruction makes the same move in both, and leaves stores that agree on the operands of
the code that goes on.
-/

namespace SandboxVm.Proofs.StoreAgreement

open SandboxVm.Interpreter
open SandboxVm.Proofs.InterpretedInstruction
open SandboxVm.Proofs.OperandAccess
open SandboxVm.Proofs.OperandStack

/-- The stores agree on the operand slots below `limit` and on everything but operands,
log records and the number of breakpoints, of which the second one has `extra` more. -/
structure Agrees (limit extra : Nat) (f u : Store) : Prop where
  rest : u = { f with
    operands := u.operands, breakpoints := f.breakpoints + extra, journal := u.journal }
  size : u.operands.size = f.operands.size
  slots : ∀ slot, slot < limit → u.operand? slot = f.operand? slot

section

variable {limit extra : Nat} {f u : Store} (h : Agrees limit extra f u)

include h

theorem Agrees.mono {limit' : Nat} (hle : limit' ≤ limit) : Agrees limit' extra f u :=
  ⟨h.rest, h.size, fun slot hslot => h.slots slot (Nat.lt_of_lt_of_le hslot hle)⟩

theorem Agrees.arena : u.arena = f.arena := by rw [h.rest]

theorem Agrees.trace : u.trace = f.trace := by rw [h.rest]

theorem Agrees.programStack : u.programStack = f.programStack := by rw [h.rest]

theorem Agrees.operandTop : u.operandTop = f.operandTop := by rw [h.rest]

theorem Agrees.callLevel : u.callLevel = f.callLevel := by rw [h.rest]

theorem Agrees.breakpoints : u.breakpoints = f.breakpoints + extra := by rw [h.rest]

theorem Agrees.bracket : u.bracket = f.bracket := by
  simp only [Store.bracket, h.programStack, h.trace, h.operandTop]

theorem Agrees.site (p : Program) (pc : Option Nat) : u.site p pc = f.site p pc := by
  simp only [Store.site, h.trace]

theorem Agrees.map {g : Store → Store}
    (hg : ∀ (s : Store) (operands : Array Word) (breakpoints : Nat) (journal : Journal),
      g { s with operands, breakpoints, journal } = { g s with operands, breakpoints, journal }) :
    Agrees limit extra (g f) (g u) := by
  have hkept : ∀ s : Store, (g s).operands = s.operands ∧ (g s).breakpoints = s.breakpoints ∧
      (g s).journal = s.journal := by
    intro s
    have hs := hg s s.operands s.breakpoints s.journal
    have hoperands := congrArg Store.operands hs
    have hbreakpoints := congrArg Store.breakpoints hs
    have hjournal := congrArg Store.journal hs
    exact ⟨hoperands, hbreakpoints, hjournal⟩
  have hu : g u = { g f with
      operands := u.operands, breakpoints := f.breakpoints + extra, journal := u.journal } := by
    rw [← hg, ← h.rest]
  refine ⟨?_, ?_, ?_⟩
  · rw [(hkept u).1, (hkept u).2.2, (hkept f).2.1]
    exact hu
  · rw [(hkept u).1, (hkept f).1, h.size]
  · intro slot hslot
    simp only [Store.operand?, (hkept u).1, (hkept f).1]
    exact h.slots slot hslot

theorem Agrees.write (width : Width) (addr value : Word) :
    Agrees limit extra (f.write width addr value) (u.write width addr value) := by
  refine h.map (g := fun s => s.write width addr value) ?_
  intro s operands breakpoints journal
  simp only [Store.write]

theorem Agrees.note (level : LogLevel) (message message' : Unit → String) :
    Agrees limit extra (f.note level message) (u.note level message') := by
  obtain ⟨journal, hf⟩ := note_eq f level message
  obtain ⟨journal', hu⟩ := note_eq u level message'
  rw [hf, hu]
  refine ⟨?_, h.size, h.slots⟩
  rw [h.rest]

theorem Agrees.setOperand {slot limit' : Nat} (value : Word)
    (hlimit : ∀ other, other < limit' → other < limit ∨ other = slot) :
    Agrees limit' extra (f.setOperand slot value) (u.setOperand slot value) := by
  refine ⟨?_, by simp [h.size], ?_⟩
  · rw [Store.setOperand, h.rest]
    rfl
  · intro other hother
    by_cases heq : slot = other
    · subst heq
      simp only [Store.setOperand, Store.operand?, Array.getElem?_setIfInBounds_self, h.size]
    · rw [setOperand_operand?_ne u heq, setOperand_operand?_ne f heq]
      exact h.slots other ((hlimit other hother).resolve_right (Ne.symm heq))

end

/-- A store after `extra` more breakpoints, with another journal. -/
def aside (extra : Nat) (journal : Journal) (s : Store) : Store :=
  { s with breakpoints := s.breakpoints + extra, journal }

def asideOutcome (extra : Nat) (journal : Journal) (o : Outcome) : Outcome :=
  (aside extra journal o.1, o.2)

theorem Agrees.sameOn {limit extra : Nat} {f u : Store} (h : Agrees limit extra f u) :
    SameOn (· < limit) (aside extra u.journal f) u :=
  ⟨h.rest, h.size, fun slot hslot => h.slots slot (Int.ofNat_lt.mp hslot)⟩

theorem agrees_of_sameOn {limit extra : Nat} {journal : Journal} {f u : Store}
    (h : SameOn (· < limit) (aside extra journal f) u) : Agrees limit extra f u := by
  have hjournal : u.journal = journal := by rw [h.rest]; rfl
  subst hjournal
  exact ⟨h.rest, h.size, fun slot hslot => h.slots slot (Int.ofNat_lt.mpr hslot)⟩

section

variable {p : Program} {extra : Nat} {journal : Journal} {s : Store} {a : Activation}

theorem withTop_aside {k k' : Word → Outcome} (hk : ∀ x, k' x = asideOutcome extra journal (k x)) :
    withTop (aside extra journal s) a k' = asideOutcome extra journal (withTop s a k) := by
  have hoperand : ∀ slot, (aside extra journal s).operand? slot = s.operand? slot := fun _ => rfl
  unfold withTop
  split
  · rfl
  · rw [hoperand]
    split
    · exact hk _
    · rfl

theorem withTopTwo_aside {k k' : Word → Word → Outcome}
    (hk : ∀ x y, k' x y = asideOutcome extra journal (k x y)) :
    withTopTwo (aside extra journal s) a k' = asideOutcome extra journal (withTopTwo s a k) := by
  have hoperand : ∀ slot, (aside extra journal s).operand? slot = s.operand? slot := fun _ => rfl
  unfold withTopTwo
  split
  · rw [hoperand, hoperand]
    split
    · exact hk _ _
    · rfl
  · rfl

theorem push_aside (value : Word) :
    push (aside extra journal s) a value = asideOutcome extra journal (push s a value) := by
  have hoperands : (aside extra journal s).operands = s.operands := rfl
  unfold push
  rw [hoperands]
  split <;> rfl

theorem enterProcedure_aside (target : Nat) (returnTo : Option Nat) :
    enterProcedure p (aside extra journal s) a target returnTo =
      asideOutcome extra journal (enterProcedure p s a target returnTo) := by
  have htrace : (aside extra journal s).trace = s.trace := rfl
  unfold enterProcedure Store.enterCall?
  rw [htrace]
  split
  · rfl
  · by_cases hdepth : p.maxCallDepth ≤ s.trace.depth
    · simp only [if_pos hdepth]
      rfl
    · simp only [if_neg hdepth]
      rfl

theorem write_aside (width : Width) (addr value : Word) :
    (aside extra journal s).write width addr value =
      aside extra journal (s.write width addr value) := by
  simp only [Store.write, aside]

theorem suspend_aside (s : Store) (programStack : Word) (operandTop : Nat)
    (move : Move Activation) :
    (({ aside extra journal s with programStack, operandTop }, move) : Outcome) =
      asideOutcome extra journal ({ s with programStack, operandTop }, move) := rfl

theorem call_aside (target : Word) :
    call p (aside extra journal s) a target = asideOutcome extra journal (call p s a target) := by
  unfold call
  by_cases hneg : target < 0
  · simp only [if_pos hneg, write_aside]
    exact suspend_aside _ _ _ _
  · simp only [if_neg hneg, write_aside]
    exact enterProcedure_aside ..

theorem leave_aside (size : Word) :
    leave (aside extra journal s) a size = asideOutcome extra journal (leave s a size) := by
  have hoperand : ∀ slot, (aside extra journal s).leaveCall.operand? slot =
      s.leaveCall.operand? slot := fun _ => rfl
  unfold leave
  split
  · rfl
  · split
    · rfl
    · simp only [hoperand]
      split <;> rfl

theorem execute_aside (inst : AnnotatedInstruction) :
    execute p (aside extra journal s) a inst =
      asideOutcome extra journal (execute p s a inst) := by
  unfold execute
  cases hop : inst.op with
  | breakpoint =>
      simp only [asideOutcome, aside, Nat.add_right_comm]
  | enter =>
      simp only
      split <;> rfl
  | leave => exact leave_aside inst.operand
  | call => exact withTop_aside fun target => call_aside target
  | push => exact push_aside 0
  | const => exact push_aside inst.operand
  | localAddress => exact push_aside (a.ps + inst.operand)
  | pop => exact withTop_aside fun _ => rfl
  | jump =>
      apply withTop_aside
      intro target
      simp only
      split
      · split
        · split <;> rfl
        · rfl
      · rfl
  | branch c =>
      apply withTopTwo_aside
      intro x y
      simp only
      split <;> rfl
  | load width => exact withTop_aside fun _ => rfl
  | store width =>
      apply withTopTwo_aside
      intro addr value
      simp only [write_aside, asideOutcome]
  | arg =>
      apply withTop_aside
      intro value
      simp only [write_aside, asideOutcome]
  | blockCopy =>
      apply withTopTwo_aside
      intro dest src
      simp only [asideOutcome, aside]
  | unary op => exact withTop_aside fun _ => rfl
  | binary op => exact withTopTwo_aside fun _ _ => rfl
  | division op =>
      apply withTopTwo_aside
      intro x y
      split <;> rfl
  | _ => rfl

end

/-- The code that a move goes on with, now or when a host service is done. -/
def nextOf? : Move Activation → Option Activation
  | .proceed a | .syscall a _ _ => some a
  | _ => none

/-- The outcomes are the same move in stores that agree on the slots below `limit` and on
the operands of the code that goes on. -/
structure Parallel (limit extra : Nat) (o o' : Outcome) : Prop where
  move : o'.2 = o.2
  store : Agrees limit extra o.1 o'.1
  goesOn : ∀ a, nextOf? o.2 = some a → Agrees a.sp extra o.1 o'.1

section

variable {p : Program} {extra : Nat} {f u s : Store} {a a' : Activation}
  {inst : AnnotatedInstruction}

theorem exists_push (hpops : inst.op.pops = 0) (hpushes : inst.op.pushes = 1) :
    ∃ value, ∀ s, execute p s a inst = push s a value := by
  cases hop : inst.op with
  | push => exact ⟨0, fun s => by rw [execute, hop]⟩
  | const => exact ⟨inst.operand, fun s => by rw [execute, hop]⟩
  | localAddress => exact ⟨a.ps + inst.operand, fun s => by rw [execute, hop]⟩
  | _ => simp [hop, Opcode.pops, Opcode.pushes] at hpops hpushes

theorem sp_of_execute (hpush : ¬ (inst.op.pops = 0 ∧ inst.op.pushes = 1))
    (h : nextOf? (execute p s a inst).2 = some a') : a'.sp ≤ a.sp := by
  have hdelta := stackDelta_eq inst.op
  have hpushes := pushes_le_one inst.op
  by_cases hsupplied : Supplied s a inst
  · have heffect := execute_effect (p := p) hsupplied
    generalize (execute p s a inst).1 = s', (execute p s a inst).2 = move at h heffect
    cases heffect with
    | passed hleave hcall hjump hkept hsp hconst =>
        obtain rfl := Option.some.inj h
        simp only
        omega
    | @jumped sp target hdirected hsp =>
        unfold goTo at h
        split at h
        · cases h
        · obtain rfl := Option.some.inj h
          simp only
          omega
    | entered hop htop hnonneg hprocedure hdepth hsp htrace hoperands =>
        obtain rfl := Option.some.inj h
        exact Nat.sub_le _ _
    | returned hop hframes =>
        obtain rfl := Option.some.inj h
        exact Nat.le_refl _
    | requested hop htop hkept hoperandTop =>
        obtain rfl := Option.some.inj h
        exact Nat.le_refl _
    | finished => cases h
    | trapped => cases h
  · rw [execute_crash hsupplied] at h
    cases h

theorem push_parallel (h : Agrees a.sp extra f u) (value : Word) :
    Parallel a.sp extra (push f a value) (push u a value) := by
  unfold push
  rw [h.size]
  split
  · refine ⟨rfl, h.setOperand value fun other hother => Or.inl hother, ?_⟩
    intro a' ha'
    obtain rfl := Option.some.inj ha'
    exact h.setOperand value fun other hother => by simp only at hother; omega
  · exact ⟨rfl, h, nofun⟩

/-- An instruction reads operands of the running code only, or crashes. -/
theorem execute_parallel (h : Agrees a.sp extra f u) :
    Parallel a.sp extra (execute p f a inst) (execute p u a inst) := by
  by_cases hpush : inst.op.pops = 0 ∧ inst.op.pushes = 1
  · obtain ⟨value, heq⟩ := exists_push (p := p) (a := a) hpush.1 hpush.2
    rw [heq, heq]
    exact push_parallel h value
  · have hbelow : ∀ slot, Touches a inst slot → slot < a.sp := by
      intro slot htouches
      rcases touches_cases htouches with ⟨-, hlt⟩ | ⟨-, hpops, hpushes⟩
      · exact hlt
      · exact absurd ⟨hpops, hpushes⟩ hpush
    have halike := h.sameOn.execute (p := p) hbelow
    rw [execute_aside] at halike
    have hstore := agrees_of_sameOn halike.store
    exact ⟨halike.move, hstore, fun a' ha' => hstore.mono (sp_of_execute hpush ha')⟩

theorem interpreter_parallel (h : Agrees a.sp extra f u) :
    Parallel a.sp extra (step p f a) (step p u a) := by
  unfold step
  split
  · exact ⟨rfl, h, nofun⟩
  · exact execute_parallel (h.note .trace _ _)

theorem start_parallel {limit : Nat} (h : Agrees limit extra f u) (htop : f.operandTop = limit)
    (frame : Word) : Parallel limit extra (start p f frame) (start p u frame) := by
  unfold start
  rw [h.operandTop, htop]
  unfold enterProcedure Store.enterCall?
  rw [h.trace]
  split
  · exact ⟨rfl, h, nofun⟩
  · by_cases hdepth : p.maxCallDepth ≤ f.trace.depth
    · simp only [if_pos hdepth]
      exact ⟨rfl, h, nofun⟩
    · simp only [if_neg hdepth]
      have hpush := h.map (g := fun s => { s with trace := f.trace.push 0 }) fun _ _ _ _ => rfl
      refine ⟨rfl, hpush, ?_⟩
      intro a ha
      obtain rfl := Option.some.inj ha
      exact hpush

end

end SandboxVm.Proofs.StoreAgreement
