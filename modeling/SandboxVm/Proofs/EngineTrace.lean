import SandboxVm.Machine.Native
import SandboxVm.Proofs.CallRecord
import SandboxVm.Proofs.InterpretedInstruction

namespace SandboxVm.Proofs.EngineTrace

open SandboxVm.Proofs.CallRecord
open SandboxVm.Proofs.InterpretedInstruction

/-- The code of a call has been given up or is over. Of its procedures `before`
some may still be on the trace. -/
structure GivenUp (store : Store) (before : List Nat) (store' : Store) : Prop where
  callLevel : store'.callLevel = store.callLevel
  trace : ∃ after, Follows store.trace before store'.trace after

theorem GivenUp.of_follows {s s' s'' : Store} {before after : List Nat} (h : GivenUp s' after s'')
    (hlevel : s'.callLevel = s.callLevel) (htrace : Follows s.trace before s'.trace after) :
    GivenUp s before s'' := by
  obtain ⟨hlevel', final, htrace'⟩ := h
  exact ⟨hlevel'.trans hlevel, final, htrace.trans htrace'⟩

section

variable {α : Type} [Engine α] (starts : α → List Nat) (Valid : α → Prop)

structure GoesOn (store : Store) (before : List Nat) (store' : Store) (a : α) : Prop where
  valid : Valid a
  callLevel : store'.callLevel = store.callLevel
  trace : Follows store.trace before store'.trace (starts a)

/-- The trace of `store'` is right for what the code of a call does next. -/
def Advances (p : Program) (store : Store) (before : List Nat) (store' : Store) :
    Move α → Prop
  | .proceed a => GoesOn starts Valid store before store' a
  | .syscall a _ _ => GoesOn starts Valid store before store' a
  | .finish _ => GivenUp store before store'
  | .trap a t => GivenUp store before (Engine.trapped p store' a t).1
  | .crash => True

variable {starts Valid}

theorem Advances.of_same {p : Program} {store store₀ store' : Store} {before : List Nat}
    {move : Move α} (hlevel : store₀.callLevel = store.callLevel)
    (htrace : store₀.trace = store.trace) (h : Advances starts Valid p store₀ before store' move) :
    Advances starts Valid p store before store' move := by
  cases move with
  | proceed a => exact ⟨h.valid, h.callLevel.trans hlevel, htrace ▸ h.trace⟩
  | syscall a id frame => exact ⟨h.valid, h.callLevel.trans hlevel, htrace ▸ h.trace⟩
  | finish value => exact ⟨h.callLevel.trans hlevel, htrace ▸ h.trace⟩
  | trap a t => exact ⟨h.callLevel.trans hlevel, htrace ▸ h.trace⟩
  | crash => exact True.intro

end

/-- A way to run code that keeps the trace in step with its procedures. -/
class Traced (α : Type) [Engine α] where
  /-- The start indices of the procedures in progress, outermost first. -/
  starts : α → List Nat
  Valid : α → Prop
  start : ∀ (p : Program) (store : Store) (frame : Word),
    Advances starts Valid p store [] (Engine.start (α := α) p store frame).1
      (Engine.start p store frame).2
  step : ∀ (p : Program) (store : Store) (a : α), Valid a →
    Advances starts Valid p store (starts a) (Engine.step p store a).1 (Engine.step p store a).2
  resume : ∀ (store : Store) (a : α) (value : Word), Valid a →
    GoesOn starts Valid store (starts a) (Engine.resume store a value).1
      (Engine.resume store a value).2
  rejected : ∀ (p : Program) (store : Store) (a : α) (failure : Failure), Valid a →
    GivenUp store (starts a) (Engine.rejected p store a failure).1

theorem write_callLevel (store : Store) (width : Width) (addr value : Word) :
    (store.write width addr value).callLevel = store.callLevel := rfl

theorem start_of_procedureAt? {m : Module} {i : Nat} {procedure : Procedure}
    (h : m.procedureAt? i = some procedure) : procedure.start = i := by
  simp only [Module.procedureAt?, Procedure.startingAt?, Option.filter_eq_some_iff] at h
  exact beq_iff_eq.mp h.2

/-! ### Interpreted code -/

namespace Interpreted

open SandboxVm.Interpreter

def starts (a : Activation) : List Nat := (a.frames.map (·.procedure.start)).reverse

/-- Every procedure but the outermost one returns into the module. -/
def Chained : List Frame → Prop
  | [] => False
  | [frame] => frame.returnTo = none
  | frame :: caller :: rest => frame.returnTo ≠ none ∧ Chained (caller :: rest)

section

variable {p : Program} {s : Store} {a : Activation} {inst : AnnotatedInstruction}

theorem Chained.cons {frames : List Frame} (h : Chained frames) (pc : Nat) (procedure : Procedure) :
    Chained (⟨some pc, procedure⟩ :: frames) := by
  cases frames with
  | nil => exact h.elim
  | cons frame rest => exact ⟨by simp, h⟩

theorem Chained.tail {frames : List Frame} {pc : Nat} {procedure : Procedure}
    (h : Chained (⟨some pc, procedure⟩ :: frames)) : Chained frames := by
  cases frames with
  | nil => cases h
  | cons frame rest => exact h.2

theorem Chained.entry (h : Chained a.frames) (hcaller : callerIndex? a = none) :
    ∃ procedure, a.frames = [⟨none, procedure⟩] := by
  unfold callerIndex? at hcaller
  rcases hframes : a.frames with _ | ⟨⟨returnTo, procedure⟩, rest⟩
  · rw [hframes] at h
    exact h.elim
  · rw [hframes] at h hcaller
    obtain rfl : returnTo = none := hcaller
    cases rest with
    | nil => exact ⟨procedure, rfl⟩
    | cons caller rest => exact absurd rfl h.1

theorem withTop_callLevel {k : Word → Outcome} (hk : ∀ x, (k x).1.callLevel = s.callLevel) :
    (withTop s a k).1.callLevel = s.callLevel := by
  unfold withTop
  split
  · rfl
  · split
    · exact hk _
    · rfl

theorem withTopTwo_callLevel {k : Word → Word → Outcome}
    (hk : ∀ x y, (k x y).1.callLevel = s.callLevel) :
    (withTopTwo s a k).1.callLevel = s.callLevel := by
  unfold withTopTwo
  split
  · split
    · exact hk _ _
    · rfl
  · rfl

theorem push_callLevel (value : Word) : (push s a value).1.callLevel = s.callLevel := by
  unfold push
  split <;> rfl

theorem enterProcedure_callLevel (target : Nat) (returnTo : Option Nat) :
    (enterProcedure p s a target returnTo).1.callLevel = s.callLevel := by
  rcases enterProcedure_cases p s a target returnTo with
    ⟨-, heq⟩ | ⟨procedure, -, ⟨-, heq⟩ | ⟨-, heq⟩⟩ <;> rw [heq]

theorem call_callLevel (target : Word) : (call p s a target).1.callLevel = s.callLevel := by
  unfold call
  by_cases hneg : target < 0
  · simp only [if_pos hneg, write_callLevel]
  · simp only [if_neg hneg, enterProcedure_callLevel, write_callLevel]

theorem leave_callLevel (size : Word) : (leave s a size).1.callLevel = s.callLevel := by
  unfold leave
  split
  · rfl
  · split
    · rfl
    · simp only
      split <;> rfl

theorem execute_callLevel : (execute p s a inst).1.callLevel = s.callLevel := by
  unfold execute
  cases inst.op with
  | enter =>
      simp only
      split <;> rfl
  | leave => exact leave_callLevel _
  | call => exact withTop_callLevel fun target => call_callLevel target
  | push => exact push_callLevel _
  | const => exact push_callLevel _
  | localAddress => exact push_callLevel _
  | jump =>
      apply withTop_callLevel
      intro target
      simp only
      split
      · split
        · split <;> rfl
        · rfl
      · rfl
  | branch c =>
      apply withTopTwo_callLevel
      intro x y
      simp only
      split <;> rfl
  | division op =>
      apply withTopTwo_callLevel
      intro x y
      split <;> rfl
  | pop => exact withTop_callLevel fun _ => rfl
  | load width => exact withTop_callLevel fun _ => rfl
  | arg => exact withTop_callLevel fun _ => write_callLevel ..
  | unary op => exact withTop_callLevel fun _ => rfl
  | store width => exact withTopTwo_callLevel fun _ _ => write_callLevel ..
  | blockCopy => exact withTopTwo_callLevel fun _ _ => rfl
  | binary op => exact withTopTwo_callLevel fun _ _ => rfl
  | _ => rfl

theorem starts_cons {a : Activation} {frame : Frame} {frames : List Frame}
    (h : a.frames = frame :: frames) :
    starts a = (frames.map (·.procedure.start)).reverse ++ [frame.procedure.start] := by
  simp [starts, h]

theorem starts_push (pc : Nat) (ps : Word) (sp : Nat) (frame : Frame) :
    starts ⟨pc, ps, sp, frame :: a.frames⟩ = starts a ++ [frame.procedure.start] :=
  starts_cons rfl

theorem advances_of_effect {s' : Store} {move : Move Activation} (hchained : Chained a.frames)
    (hlevel : s'.callLevel = s.callLevel) (h : Effect p s a inst s' move) :
    Advances starts (fun a => Chained a.frames) p s (starts a) s' move := by
  cases h with
  | passed hleave hcall hjump hkept hsp hconst =>
      exact ⟨hchained, hlevel, hkept.trace ▸ follows_refl _ _⟩
  | @jumped sp target hdirected hsp =>
      unfold goTo
      split
      · exact True.intro
      · exact ⟨hchained, hlevel, follows_refl _ _⟩
  | entered hop htop hnonneg hprocedure hdepth hsp htrace hoperands =>
      refine ⟨hchained.cons _ _, hlevel, ?_⟩
      rw [htrace, starts_push, start_of_procedureAt? hprocedure]
      exact follows_push _ _ _
  | returned hop hframes =>
      rw [hframes] at hchained
      refine ⟨hchained.tail, hlevel, ?_⟩
      rw [starts_cons hframes]
      exact follows_pop _ _ _
  | finished hop hcaller =>
      obtain ⟨procedure, hframes⟩ := hchained.entry hcaller
      refine ⟨hlevel, [], ?_⟩
      rw [starts_cons hframes]
      exact follows_pop _ _ _
  | requested hop htop hkept hoperandTop =>
      exact ⟨hchained, hlevel, hkept.trace ▸ follows_refl _ _⟩
  | @trapped s' a' t hkept =>
      refine ⟨(note_callLevel ..).trans hlevel, starts a, ?_⟩
      have htrace : (Interpreter.trapped p s' a' t).1.trace = s.trace :=
        (note_trace ..).trans hkept.trace
      exact htrace ▸ follows_refl _ _

theorem step_advances (hchained : Chained a.frames) :
    Advances starts (fun a => Chained a.frames) p s (starts a) (step p s a).1 (step p s a).2 := by
  cases hinst : p.image.code[a.pc]? with
  | none =>
      simp only [step, hinst]
      exact True.intro
  | some inst =>
      rw [step_eq s hinst]
      by_cases hsupplied : Supplied (logged s a inst) a inst
      · exact (advances_of_effect hchained execute_callLevel (execute_effect hsupplied)).of_same
          (note_callLevel ..) (note_trace ..)
      · rw [execute_crash hsupplied]
        exact True.intro

theorem start_advances (p : Program) (s : Store) (frame : Word) :
    Advances starts (fun a => Chained a.frames) p s [] (start p s frame).1
      (start p s frame).2 := by
  unfold start
  rcases enterProcedure_cases p s ⟨0, frame, s.operandTop, []⟩ 0 none with
    ⟨-, heq⟩ | ⟨procedure, hprocedure, ⟨-, heq⟩ | ⟨-, heq⟩⟩
  · rw [heq]
    exact ⟨note_callLevel .., [], (note_trace s _ _).symm ▸ follows_refl _ _⟩
  · rw [heq]
    exact ⟨note_callLevel .., [], (note_trace s _ _).symm ▸ follows_refl _ _⟩
  · rw [heq]
    refine ⟨rfl, rfl, ?_⟩
    rw [starts_cons rfl, start_of_procedureAt? hprocedure]
    exact follows_push _ _ _

end

end Interpreted

instance interpreterTraced : Traced Activation where
  starts := Interpreted.starts
  Valid a := Interpreted.Chained a.frames
  start := Interpreted.start_advances
  step p store a hvalid := Interpreted.step_advances hvalid
  resume store a value hvalid := ⟨hvalid, rfl, follows_refl _ _⟩
  rejected p store a failure hvalid := by
    refine ⟨?_, Interpreted.starts a, ?_⟩
    · simp only [Engine.rejected, Interpreter.rejected]
      split <;> rfl
    · simp only [Engine.rejected, Interpreter.rejected]
      split <;> exact follows_refl _ _

/-! ### Compiled code -/

namespace Compiled

open SandboxVm.Native

def starts (a : Native.Activation) : List Nat := (a.frames.map (·.procedure.start)).reverse

theorem starts_push (frame : Native.Frame) (frames : List Native.Frame) :
    starts ⟨frame :: frames⟩ = starts ⟨frames⟩ ++ [frame.procedure.start] := by
  simp [starts]

structure Kept (s s' : Store) : Prop where
  callLevel : s'.callLevel = s.callLevel
  operands : s'.operands = s.operands

theorem Kept.refl (s : Store) : Kept s s := ⟨rfl, rfl⟩

theorem write_kept (s : Store) (width : Width) (addr value : Word) :
    Kept s (s.write width addr value) :=
  ⟨write_callLevel .., write_operands ..⟩

/-- What an instruction of compiled code can lead to, in the innermost frame `f`. -/
inductive Effect (p : Program) (s : Store) (f : Native.Frame) (callers : List Native.Frame) :
    Store → Move Native.Activation → Prop where
  | passed {s' : Store} {f' : Native.Frame} (hprocedure : f'.procedure = f.procedure)
      (hkept : Kept s s') (htrace : s'.trace = s.trace) :
      Effect p s f callers s' (.proceed ⟨f' :: callers⟩)
  | entered {s' : Store} {f' callee : Native.Frame} (hprocedure : f'.procedure = f.procedure)
      (hkept : Kept s s') (htrace : s'.trace = s.trace.push callee.procedure.start) :
      Effect p s f callers s' (.proceed ⟨callee :: f' :: callers⟩)
  | returned {caller caller' : Native.Frame} {rest : List Native.Frame}
      (hcallers : callers = caller :: rest) (hprocedure : caller'.procedure = caller.procedure) :
      Effect p s f callers s.leaveCall (.proceed ⟨caller' :: rest⟩)
  | finished {value : Word} (hcallers : callers = []) :
      Effect p s f callers s.leaveCall (.finish value)
  | requested {s' : Store} {f' : Native.Frame} {id : UInt32} {frame : Word}
      (hprocedure : f'.procedure = f.procedure) (hkept : Kept s s') (htrace : s'.trace = s.trace) :
      Effect p s f callers s' (.syscall ⟨f' :: callers⟩ id frame)
  | trapped {s' : Store} {f' : Native.Frame} {t : Trap} (hprocedure : f'.procedure = f.procedure)
      (hkept : Kept s s') (htrace : s'.trace = s.trace) :
      Effect p s f callers s' (.trap ⟨f' :: callers⟩ t)
  | overflowed {s' : Store} {f' callee : Native.Frame} {t : Trap}
      (hprocedure : f'.procedure = f.procedure) (hkept : Kept s s')
      (htrace : s'.trace = s.trace.push callee.procedure.start) :
      Effect p s f callers s' (.trap ⟨callee :: f' :: callers⟩ t)
  | crashed : Effect p s f callers s .crash

theorem enterProcedure_cases (p : Program) (s : Store) (callers : List Native.Frame) (target : Nat)
    (ps : Word) :
    (p.image.procedureAt? target = none ∧
      enterProcedure p s callers target ps = (s, .trap ⟨callers⟩ .badCallTarget)) ∨
    ∃ procedure, p.image.procedureAt? target = some procedure ∧
      ((p.maxCallDepth ≤ s.trace.depth ∧
        enterProcedure p s callers target ps = (s, .trap ⟨callers⟩ .callStackExhausted)) ∨
      (s.trace.depth < p.maxCallDepth ∧
        enterProcedure p s callers target ps = ({ s with trace := s.trace.push target },
          if ps - procedure.frameSize < p.stackBottom then
            .trap ⟨⟨procedure, target + 1, ps - procedure.frameSize, []⟩ :: callers⟩ .stackOverflow
          else
            .proceed ⟨⟨procedure, target + 1, ps - procedure.frameSize, []⟩ :: callers⟩))) := by
  unfold enterProcedure Store.enterCall?
  cases hprocedure : p.image.procedureAt? target with
  | none => exact Or.inl ⟨rfl, rfl⟩
  | some procedure =>
      refine Or.inr ⟨procedure, rfl, ?_⟩
      by_cases hdepth : p.maxCallDepth ≤ s.trace.depth
      · exact Or.inl ⟨hdepth, by simp only [if_pos hdepth]⟩
      · refine Or.inr ⟨Nat.lt_of_not_le hdepth, ?_⟩
        simp only [if_neg hdepth]
        split <;> rfl

theorem call_effect (p : Program) {s s' : Store} {f : Native.Frame} (f' : Native.Frame)
    {callers : List Native.Frame} (hprocedure : f'.procedure = f.procedure) (hkept : Kept s s')
    (htrace : s'.trace = s.trace) (target : Nat) (ps : Word) :
    Effect p s f callers (enterProcedure p s' (f' :: callers) target ps).1
      (enterProcedure p s' (f' :: callers) target ps).2 := by
  rcases enterProcedure_cases p s' (f' :: callers) target ps with
    ⟨-, heq⟩ | ⟨procedure, hfound, ⟨-, heq⟩ | ⟨-, heq⟩⟩
  · rw [heq]
    exact .trapped hprocedure hkept htrace
  · rw [heq]
    exact .trapped hprocedure hkept htrace
  · have hpush : s'.trace.push target = s.trace.push procedure.start := by
      rw [htrace, start_of_procedureAt? hfound]
    rw [heq]
    simp only
    split
    · exact .overflowed hprocedure ⟨hkept.callLevel, hkept.operands⟩ hpush
    · exact .entered hprocedure ⟨hkept.callLevel, hkept.operands⟩ hpush

theorem exists_topTwo_of_length {operands : List Word} (h : 2 ≤ operands.length) :
    ∃ y x rest, operands = y :: x :: rest := by
  obtain ⟨y, below, rfl⟩ := List.exists_cons_of_length_pos (Nat.lt_of_lt_of_le Nat.two_pos h)
  obtain ⟨x, rest, rfl⟩ := List.exists_cons_of_length_pos (Nat.le_of_succ_le_succ h)
  exact ⟨y, x, rest, rfl⟩

theorem execute_of_lacking (p : Program) (s : Store) {f : Native.Frame} (callers : List Native.Frame)
    {inst : AnnotatedInstruction} (h : f.operands.length < inst.op.pops) :
    execute p s f callers inst = (s, .crash) := by
  have htwo : inst.op.pops ≤ 2 := by
    have := pops_cases inst.op
    omega
  rcases hoperands : f.operands with _ | ⟨y, _ | ⟨x, rest⟩⟩
  all_goals rw [hoperands] at h
  · cases hop : inst.op <;> simp_all [Opcode.pops, execute]
  · cases hop : inst.op <;> simp_all [Opcode.pops, execute]
  · exact absurd (Nat.lt_of_lt_of_le h htwo) (by simp)

theorem Effect.kept (p : Program) (s : Store) {f f' : Native.Frame} (callers : List Native.Frame)
    (hprocedure : f'.procedure = f.procedure) :
    Effect p s f callers s (.proceed ⟨f' :: callers⟩) :=
  .passed hprocedure (.refl s) rfl

theorem Effect.refused (p : Program) (s : Store) (f : Native.Frame) (callers : List Native.Frame)
    (t : Trap) : Effect p s f callers s (.trap ⟨f :: callers⟩ t) :=
  .trapped rfl (.refl s) rfl

section

variable (p : Program) (s : Store) {f : Native.Frame} (callers : List Native.Frame)
  {inst : AnnotatedInstruction}

theorem execute_effect_of_none (hpops : inst.op.pops = 0) :
    Effect p s f callers (execute p s f callers inst).1 (execute p s f callers inst).2 := by
  cases hop : inst.op with
  | undef =>
      simp only [execute, hop]
      exact .refused ..
  | ignore =>
      simp only [execute, hop]
      exact .kept p s callers rfl
  | breakpoint =>
      simp only [execute, hop]
      exact .kept p s callers rfl
  | enter =>
      simp only [execute, hop]
      exact .crashed
  | push =>
      simp only [execute, hop]
      exact .kept p s callers rfl
  | const =>
      simp only [execute, hop]
      exact .kept p s callers rfl
  | localAddress =>
      simp only [execute, hop]
      exact .kept p s callers rfl
  | _ => exact absurd hpops (by simp [hop, Opcode.pops])

theorem execute_effect_of_one (hpops : inst.op.pops = 1) {x : Word} {operands : List Word}
    (hoperands : f.operands = x :: operands) :
    Effect p s f callers (execute p s f callers inst).1 (execute p s f callers inst).2 := by
  cases hop : inst.op with
  | leave =>
      simp only [execute, hop, hoperands]
      split
      · exact .finished rfl
      · exact .returned rfl rfl
  | call =>
      simp only [execute, hop, hoperands]
      split
      · refine .requested (by rfl) ⟨?_, ?_⟩ ?_
        · simp only [write_callLevel]
        · simp only [write_operands]
        · simp only [write_trace]
      · exact call_effect p (f := f) { f with pc := f.pc + 1, operands } rfl
          (write_kept ..) (write_trace ..) _ _
  | jump =>
      simp only [execute, hop, hoperands]
      split
      · split
        · exact .kept p s callers rfl
        · exact .refused ..
      · exact .kept p s callers rfl
  | pop =>
      simp only [execute, hop, hoperands]
      exact .kept p s callers rfl
  | load width =>
      simp only [execute, hop, hoperands]
      exact .kept p s callers rfl
  | arg =>
      simp only [execute, hop, hoperands]
      exact .passed (by rfl) (write_kept ..) (write_trace ..)
  | unary op =>
      simp only [execute, hop, hoperands]
      exact .kept p s callers rfl
  | _ => exact absurd hpops (by simp [hop, Opcode.pops])

theorem execute_effect_of_two (hpops : inst.op.pops = 2) {y x : Word} {operands : List Word}
    (hoperands : f.operands = y :: x :: operands) :
    Effect p s f callers (execute p s f callers inst).1 (execute p s f callers inst).2 := by
  cases hop : inst.op with
  | branch c =>
      simp only [execute, hop, hoperands]
      split
      · exact .kept p s callers rfl
      · exact .kept p s callers rfl
  | store width =>
      simp only [execute, hop, hoperands]
      exact .passed (by rfl) (write_kept ..) (write_trace ..)
  | blockCopy =>
      simp only [execute, hop, hoperands]
      exact .passed (by rfl) ⟨by simp only, by simp only⟩ (by simp only)
  | binary op =>
      simp only [execute, hop, hoperands]
      exact .kept p s callers rfl
  | division op =>
      simp only [execute, hop, hoperands]
      split
      · exact .refused ..
      · exact .kept p s callers rfl
  | _ => exact absurd hpops (by simp [hop, Opcode.pops])

end

theorem execute_effect (p : Program) (s : Store) (f : Native.Frame) (callers : List Native.Frame)
    (inst : AnnotatedInstruction) :
    Effect p s f callers (execute p s f callers inst).1 (execute p s f callers inst).2 := by
  rcases Nat.lt_or_ge f.operands.length inst.op.pops with hlacking | hle
  · rw [execute_of_lacking p s callers hlacking]
    exact .crashed
  rcases pops_cases inst.op with hpops | hpops | hpops
  · exact execute_effect_of_none p s callers hpops
  · obtain ⟨x, operands, hoperands⟩ : ∃ x operands, f.operands = x :: operands :=
      List.exists_cons_of_length_pos (by omega)
    exact execute_effect_of_one p s callers hpops hoperands
  · obtain ⟨y, x, operands, hoperands⟩ := exists_topTwo_of_length (by omega : 2 ≤ f.operands.length)
    exact execute_effect_of_two p s callers hpops hoperands

theorem leaveCalls_kept (s : Store) (n : Nat) : Kept s (s.leaveCalls n) := by
  induction n generalizing s with
  | zero => exact .refl s
  | succ n ih =>
      have hrest := ih s.leaveCall
      exact ⟨hrest.callLevel, hrest.operands⟩

theorem follows_leaveCalls (s : Store) (stack : List Nat) :
    Follows s.trace stack.reverse (s.leaveCalls stack.length).trace [] := by
  induction stack generalizing s with
  | nil => exact follows_refl _ _
  | cons procedure stack ih =>
      rw [List.reverse_cons]
      exact (follows_pop s.trace stack.reverse procedure).trans (ih s.leaveCall)

theorem rejected_kept (p : Program) (s : Store) (a : Native.Activation) (failure : Failure) :
    Kept s (rejected p s a failure).1 := by
  have hleave := leaveCalls_kept s a.frames.length
  unfold rejected
  split
  · exact hleave
  · exact ⟨(note_callLevel ..).trans hleave.callLevel, (note_operands ..).trans hleave.operands⟩

theorem rejected_givenUp (p : Program) (s : Store) (a : Native.Activation) (failure : Failure) :
    GivenUp s (starts a) (rejected p s a failure).1 := by
  have htrace : (rejected p s a failure).1.trace = (s.leaveCalls a.frames.length).trace := by
    unfold rejected
    split
    · rfl
    · exact note_trace ..
  have hleave := follows_leaveCalls s (a.frames.map (·.procedure.start))
  rw [List.length_map] at hleave
  exact ⟨(rejected_kept p s a failure).callLevel, [], htrace ▸ hleave⟩

theorem advances_of_effect {p : Program} {s s' : Store} {f : Native.Frame}
    {callers : List Native.Frame} {move : Move Native.Activation}
    (h : Effect p s f callers s' move) :
    Advances starts (fun a => a.frames ≠ []) p s (starts ⟨f :: callers⟩) s' move := by
  rw [starts_push]
  cases h with
  | passed hprocedure hkept htrace =>
      refine ⟨by simp, hkept.callLevel, ?_⟩
      rw [htrace, starts_push, hprocedure]
      exact follows_refl _ _
  | entered hprocedure hkept htrace =>
      refine ⟨by simp, hkept.callLevel, ?_⟩
      rw [htrace, starts_push, starts_push, hprocedure]
      exact follows_push _ _ _
  | @returned caller caller' rest hcallers hprocedure =>
      refine ⟨by simp, rfl, ?_⟩
      rw [hcallers, starts_push, starts_push, hprocedure]
      exact follows_pop _ _ _
  | finished hcallers =>
      refine ⟨rfl, [], ?_⟩
      rw [hcallers]
      exact follows_pop _ _ _
  | requested hprocedure hkept htrace =>
      refine ⟨by simp, hkept.callLevel, ?_⟩
      rw [htrace, starts_push, hprocedure]
      exact follows_refl _ _
  | @trapped s' f' t hprocedure hkept htrace =>
      apply (rejected_givenUp p s' ⟨f' :: callers⟩ (Failure.ofTrap t)).of_follows hkept.callLevel
      rw [htrace, starts_push, hprocedure]
      exact follows_refl _ _
  | @overflowed s' f' callee t hprocedure hkept htrace =>
      apply (rejected_givenUp p s' ⟨callee :: f' :: callers⟩ (Failure.ofTrap t)).of_follows
        hkept.callLevel
      rw [htrace, starts_push, starts_push, hprocedure]
      exact follows_push _ _ _
  | crashed => exact True.intro

theorem step_advances {p : Program} {s : Store} {a : Native.Activation} (hvalid : a.frames ≠ []) :
    Advances starts (fun a => a.frames ≠ []) p s (starts a) (step p s a).1 (step p s a).2 := by
  obtain ⟨frames⟩ := a
  cases frames with
  | nil => exact absurd rfl hvalid
  | cons f callers =>
      cases hinst : p.image.code[f.pc]? with
      | none =>
          simp only [step, hinst]
          exact True.intro
      | some inst =>
          simp only [step, hinst]
          exact advances_of_effect (execute_effect p s f callers inst)

theorem start_advances (p : Program) (s : Store) (frame : Word) :
    Advances starts (fun a => a.frames ≠ []) p s [] (start p s frame).1 (start p s frame).2 := by
  unfold start
  rcases enterProcedure_cases p s [] 0 frame with
    ⟨-, heq⟩ | ⟨procedure, hfound, ⟨-, heq⟩ | ⟨-, heq⟩⟩
  · rw [heq]
    exact rejected_givenUp p s ⟨[]⟩ _
  · rw [heq]
    exact rejected_givenUp p s ⟨[]⟩ _
  · have hpush : Follows s.trace [] (s.trace.push 0) [procedure.start] := by
      rw [start_of_procedureAt? hfound]
      exact follows_push _ _ _
    rw [heq]
    simp only
    split
    · exact (rejected_givenUp p _ ⟨[_]⟩ _).of_follows rfl hpush
    · exact ⟨by simp, rfl, hpush⟩

theorem Effect.operands {p : Program} {s s' : Store} {f : Native.Frame}
    {callers : List Native.Frame} {move : Move Native.Activation}
    (h : Effect p s f callers s' move) : s'.operands = s.operands := by
  cases h with
  | passed hprocedure hkept htrace => exact hkept.operands
  | entered hprocedure hkept htrace => exact hkept.operands
  | returned hcallers hprocedure => rfl
  | finished hcallers => rfl
  | requested hprocedure hkept htrace => exact hkept.operands
  | trapped hprocedure hkept htrace => exact hkept.operands
  | overflowed hprocedure hkept htrace => exact hkept.operands
  | crashed => rfl

theorem step_operands (p : Program) (s : Store) (a : Native.Activation) :
    (step p s a).1.operands = s.operands := by
  unfold step
  split
  · rfl
  · split
    · rfl
    · exact (execute_effect ..).operands

theorem start_operands (p : Program) (s : Store) (frame : Word) :
    (start p s frame).1.operands = s.operands := by
  unfold start
  rcases enterProcedure_cases p s [] 0 frame with
    ⟨-, heq⟩ | ⟨procedure, -, ⟨-, heq⟩ | ⟨-, heq⟩⟩ <;> rw [heq]

end Compiled

instance nativeTraced : Traced Native.Activation where
  starts := Compiled.starts
  Valid a := a.frames ≠ []
  start := Compiled.start_advances
  step p store a hvalid := Compiled.step_advances hvalid
  resume store a value hvalid := by
    obtain ⟨frames⟩ := a
    cases frames with
    | nil => exact absurd rfl hvalid
    | cons f callers =>
        refine ⟨by simp [Engine.resume, Native.resume], rfl, ?_⟩
        exact follows_refl _ _
  rejected p store a failure hvalid := Compiled.rejected_givenUp p store a failure

end SandboxVm.Proofs.EngineTrace
