import SandboxVm.Proofs.FrameStack

/-!
The invariant of the interpreter: it holds in every state of every run of an
instance of a loaded module.
-/

namespace SandboxVm.Proofs.RunInvariant

open SandboxVm.Interpreter
open SandboxVm.Proofs.VerificationRules
open SandboxVm.Proofs.LoadedModule
open SandboxVm.Proofs.InterpretedInstruction
open SandboxVm.Proofs.ControlTransfer
open SandboxVm.Proofs.MachineRun
open SandboxVm.Proofs.FrameStack

variable {δ : Type}

/-- What the operand stack and the record of calls always satisfy. -/
structure Bounded (p : Program) (store : Store) : Prop where
  size : store.operands.size = (p.maxCallDepth + 1) * maxOperandSlots
  depth_le : store.trace.depth ≤ p.maxCallDepth

/-- An instance that no call is in progress in. -/
structure AtRest (p : Program) (store : Store) : Prop extends Bounded p store where
  depth : store.trace.depth = 0
  operandTop : store.operandTop = 0

/-- What the innermost call needs to go on: running code finds the constant in
front of it on the stack, and code that waits for a host service is at a `call`. -/
def Ready (m : Module) (store : Store) : Control δ Activation → Prop
  | .running a => ConstantOnTop m store a
  | .serving a _ => opAt? m.code a.pc = some .call ∧ store.operandTop = a.sp

/-- The invariant of a state reached through the states `past`. -/
structure Invariant (m : Module) (p : Program) (past : List (State δ Activation))
    (s : State δ Activation) : Prop where
  bounded : Bounded p s.store
  stacked : Stacked m (s :: past) s.outer.length s.bracket.operandTop (innermost s).pc
    (innermost s).sp (innermost s).frames
  suspends : Suspends m (s :: past) s.bracket s.outer
  depth : s.store.trace.depth = s.bracket.traceDepth + (innermost s).frames.length
  ready : Ready m s.store s.control
  fresh : isEntering m.code s = true → Fresh past s

def Keeps (m : Module) (p : Program) (past : List (State δ Activation)) :
    Transition δ Activation → Prop
  | .next s => Invariant m p past s
  | .done store _ _ => AtRest p store
  | .crashed _ _ => True

section

variable {m : Module} {p : Program} {syscalls : Syscalls δ} {past : List (State δ Activation)}
  {store : Store} {data : δ} {bracket : Bracket} {outer : List (Suspended δ Activation)}

theorem truncate_depth (t : CallTrace) (depth : Nat) :
    (t.truncate depth).depth = min depth t.depth := by
  unfold CallTrace.truncate
  split
  · simp only
    omega
  · omega

theorem pop_depth (t : CallTrace) : t.pop.depth = t.depth - 1 := by
  rw [CallTrace.pop, truncate_depth]
  omega

theorem deliver_keeps (hsuspends : Suspends m past bracket outer) (hbounded : Bounded p store)
    (htop : store.operandTop = bracket.operandTop) (hdepth : store.trace.depth = bracket.traceDepth)
    (result : Except Failure Word) : Keeps m p past (Machine.deliver store data result outer) := by
  cases outer with
  | nil =>
      obtain ⟨htop₀, hdepth₀⟩ := hsuspends
      exact ⟨hbounded, by omega, by omega⟩
  | cons w outer =>
      obtain ⟨hstacked, hcall, htop', hdepth', hrest⟩ := hsuspends
      let s : State δ Activation :=
        { store, data, control := .serving w.activation (w.next result), bracket := w.bracket,
          outer }
      have hentering : isEntering m.code s ≠ true := by simp [isEntering, s]
      have hgrown : Stacked m (s :: past) outer.length w.bracket.operandTop w.activation.pc
          w.activation.sp w.activation.frames :=
        hstacked.grow (Or.inr (Nat.le_refl _)) fun henter => absurd henter hentering
      exact ⟨hbounded, hgrown, hrest.grow (Nat.le_refl _), hdepth.trans hdepth',
        ⟨hcall, htop.trans htop'⟩, fun henter => absurd henter hentering⟩

theorem conclude_keeps (hsuspends : Suspends m past bracket outer) (hbounded : Bounded p store)
    (hdepth : bracket.traceDepth ≤ store.trace.depth) (result : Except Failure Word) :
    Keeps m p past (Machine.conclude store data bracket outer result) := by
  have htruncate : (store.conclude bracket).trace.depth = bracket.traceDepth := by
    rw [Store.conclude, truncate_depth]
    omega
  have hbounded' : Bounded p (store.conclude bracket) := by
    have := hbounded.depth_le
    exact ⟨hbounded.size, by omega⟩
  exact deliver_keeps hsuspends hbounded' rfl htruncate result

theorem Bounded.kept {store' : Store} (h : Bounded p store) (hkept : Kept store store') :
    Bounded p store' := by
  constructor
  · rw [hkept.size, h.size]
  · rw [hkept.trace]
    exact h.depth_le

theorem trapped_kept (p : Program) (store : Store) (a : Activation) (t : Trap) :
    Kept store (trapped p store a t).1 := by
  simp only [trapped]
  exact note_kept ..

theorem rejected_store (p : Program) (store : Store) (a : Activation) (failure : Failure) :
    (rejected p store a failure).1 = store := by
  unfold rejected
  split <;> rfl

theorem trap_keeps (hsuspends : Suspends m past bracket outer) (hbounded : Bounded p store)
    (hdepth : bracket.traceDepth ≤ store.trace.depth) (a : Activation) (t : Trap) :
    Keeps m p past (Machine.perform p syscalls data bracket outer store (.trap a t)) := by
  have hkept := trapped_kept p store a t
  exact conclude_keeps hsuspends (hbounded.kept hkept) (by rw [hkept.trace]; exact hdepth) _

theorem reject_keeps (hsuspends : Suspends m past bracket outer) (hbounded : Bounded p store)
    (hdepth : bracket.traceDepth ≤ store.trace.depth) (a : Activation) (failure : Failure) :
    Keeps m p past (Machine.conclude (rejected p store a failure).1 data bracket outer
      (.error (rejected p store a failure).2)) := by
  rw [rejected_store]
  exact conclude_keeps hsuspends hbounded hdepth _

variable (hm : Sound m) (himage : p.image = m)

include hm himage

theorem start_keeps (hsuspends : Suspends m past bracket outer) (hbounded : Bounded p store)
    (htop : store.operandTop = bracket.operandTop) (hdepth : store.trace.depth = bracket.traceDepth)
    (hfresh : ∀ (s : State δ Activation) (frame : Frame), s.outer = outer →
      (innermost s).frames = [frame] → Fresh past s) (frame : Word) :
    Keeps m p past (Machine.perform p syscalls data bracket outer (start p store frame).1
      (start p store frame).2) := by
  rcases enterProcedure_cases p store ⟨0, frame, store.operandTop, []⟩ 0 none with
    ⟨-, heq⟩ | ⟨procedure, hprocedure, ⟨-, heq⟩ | ⟨hlt, heq⟩⟩
  · rw [start, heq]
    exact trap_keeps hsuspends hbounded (by omega) _ _
  · rw [start, heq]
    exact trap_keeps hsuspends hbounded (by omega) _ _
  · rw [start, heq]
    rw [himage] at hprocedure
    obtain ⟨hmem, hstart⟩ := hm.procedureAt?_eq_some_iff.mp hprocedure
    obtain ⟨enter, henter, hop, hzero⟩ := hm.exists_enter hmem
    rw [hstart] at henter
    let s : State δ Activation :=
      { store := { store with trace := store.trace.push 0 }, data, bracket, outer
        control := .running ⟨0, frame, store.operandTop, [⟨none, procedure⟩]⟩ }
    have hentering : isEntering m.code s = true :=
      (isEntering_iff rfl).mpr (by rw [opAt?_eq_some henter, hop])
    have hinside : Inside m procedure 0 :=
      ⟨hmem, Nat.le_of_eq hstart, Nat.zero_le _⟩
    have hstacked : Stacked m (s :: past) outer.length bracket.operandTop 0 store.operandTop
        [⟨none, procedure⟩] := by
      rw [← htop]
      exact .entry ⟨hinside, enter, henter, by omega⟩ (base?_cons_self rfl hentering)
    refine ⟨⟨hbounded.size, hlt⟩, hstacked, hsuspends.grow (Nat.le_refl _), ?_, ?_,
      fun _ => hfresh s _ rfl rfl⟩
    · exact congrArg (· + 1) hdepth
    · intro c hc
      have := hm.depth_pos_of_constantBefore? henter hc
      omega

theorem call_keeps (hsuspends : Suspends m past store.bracket outer) (hbounded : Bounded p store)
    (hfresh : ∀ (s : State δ Activation) (frame : Frame), s.outer = outer →
      (innermost s).frames = [frame] → Fresh past s) (args : List Word) :
    Keeps m p past (Machine.call p syscalls store data outer args) := by
  rcases call_cases p syscalls store data outer args with
    ⟨-, failure, heq⟩ | ⟨-, failure, heq⟩ | ⟨-, -, arena, store', hstore, heq⟩
  · rw [heq]
    exact deliver_keeps hsuspends hbounded rfl rfl _
  · have hbounded' : Bounded p { store with callLevel := store.callLevel + 1 } :=
      ⟨hbounded.size, hbounded.depth_le⟩
    rw [heq]
    exact conclude_keeps hsuspends hbounded' (Nat.le_refl _) _
  · have hbounded' : Bounded p store' := by
      rw [hstore]
      exact ⟨hbounded.size, hbounded.depth_le⟩
    rw [heq]
    exact start_keeps hm himage hsuspends hbounded' (by rw [hstore]; rfl) (by rw [hstore]; rfl)
      hfresh _

omit hm himage in
theorem Invariant.exists_frame {s : State δ Activation} {a : Activation}
    (h : Invariant m p past s) (hcontrol : s.control = .running a) :
    ∃ frame rest, a.frames = frame :: rest ∧ Inside m frame.procedure a.pc ∧
      ∀ pc, frame.returnTo = some pc → ∃ site, pc = site + 1 ∧
        opAt? m.code site = some .call := by
  have hstacked := h.stacked
  rw [innermost_running hcontrol] at hstacked
  obtain ⟨frame, rest, base, hframes, hplaced, -, -⟩ := hstacked.innermost
  refine ⟨frame, rest, hframes, hplaced.inside, ?_⟩
  intro pc hpc
  rw [hframes] at hstacked
  obtain ⟨returnTo, procedure⟩ := frame
  obtain rfl : returnTo = some pc := hpc
  obtain ⟨caller, -, hindex, -, -, hcall, -⟩ := hstacked.caller
  exact ⟨caller.pc, hindex, hcall⟩

omit hm himage in
theorem Invariant.constantOnTop {s : State δ Activation} {a : Activation} {store₀ : Store}
    (h : Invariant m p past s) (hcontrol : s.control = .running a)
    (hoperands : store₀.operands = s.store.operands) : ConstantOnTop m store₀ a := by
  have hready := h.ready
  rw [hcontrol] at hready
  intro c hc
  rw [Store.operand?, hoperands]
  exact hready c hc

omit hm himage in
theorem depth_of_effect {s s' : Store} {a a' : Activation} {inst : AnnotatedInstruction}
    (h : Effect p s a inst s' (.proceed a')) (hbounded : Bounded p s)
    (hdepth : s.trace.depth = bracket.traceDepth + a.frames.length) :
    Bounded p s' ∧ s'.trace.depth = bracket.traceDepth + a'.frames.length := by
  generalize hmove : Move.proceed a' = move at h
  cases h with
  | passed hleave hcall hjump hkept hsp hconst =>
      obtain rfl := Move.proceed.inj hmove
      exact ⟨hbounded.kept hkept, by rw [hkept.trace, hdepth]⟩
  | @jumped sp target hdirected hsp =>
      unfold goTo at hmove
      split at hmove
      · cases hmove
      · obtain rfl := Move.proceed.inj hmove
        exact ⟨hbounded, hdepth⟩
  | entered hop htop hnonneg hprocedure hlt hsp htrace hoperands =>
      obtain rfl := Move.proceed.inj hmove
      refine ⟨⟨by rw [hoperands, hbounded.size], ?_⟩, ?_⟩
      · rw [htrace]
        exact hlt
      · rw [htrace]
        simp only [CallTrace.push, List.length_cons]
        omega
  | returned hop hframes =>
      obtain rfl := Move.proceed.inj hmove
      have hpop := pop_depth s.trace
      have hlimit := hbounded.depth_le
      simp only [hframes, List.length_cons] at hdepth
      refine ⟨⟨hbounded.size, ?_⟩, ?_⟩
      · simp only [Store.leaveCall]
        omega
      · simp only [Store.leaveCall]
        omega
  | finished => cases hmove
  | requested => cases hmove
  | trapped => cases hmove

omit hm himage in
theorem Invariant.wait {s : State δ Activation} (h : Invariant m p past s) {store' : Store}
    (hkept : Kept s.store store') (hcall : opAt? m.code (innermost s).pc = some .call)
    (htop : store'.operandTop = (innermost s).sp) (data' : δ) (service : Service δ Word) :
    Invariant m p (s :: past)
      { store := store', data := data', control := .serving (innermost s) service
        bracket := s.bracket, outer := s.outer } := by
  refine ⟨h.bounded.kept hkept, ?_, h.suspends.grow (Nat.le_refl _), ?_, ⟨hcall, htop⟩, ?_⟩
  · exact h.stacked.grow (Or.inr (Nat.le_refl _)) fun hentering =>
      absurd hentering (by simp [isEntering])
  · simp only [hkept.trace, h.depth]
    rfl
  · simp [isEntering]

omit himage in
theorem Invariant.proceed {s : State δ Activation} {store' : Store} {a' : Activation}
    (h : Invariant m p past s) (hbounded : Bounded p store')
    (hdepth : store'.trace.depth = s.bracket.traceDepth + a'.frames.length)
    (htransfer : Transfer m (innermost s) a') (hconst : ConstantOnTop m store' a') (data' : δ) :
    Invariant m p (s :: past)
      { store := store', data := data', control := .running a', bracket := s.bracket
        outer := s.outer } := by
  let s' : State δ Activation :=
    { store := store', data := data', control := .running a', bracket := s.bracket
      outer := s.outer }
  have hcontrol : s'.control = .running a' := rfl
  obtain ⟨hstacked, hentering⟩ := h.stacked.transfer hm htransfer rfl rfl hcontrol rfl
  refine ⟨hbounded, hstacked, h.suspends.grow (Nat.le_refl _), hdepth, hconst, ?_⟩
  intro henter
  obtain ⟨frame, hframes⟩ := hentering henter
  exact .call rfl hframes

theorem effect_keeps {s : State δ Activation} {a : Activation} {store₀ store' : Store}
    {inst : AnnotatedInstruction} {move : Move Activation} (h : Invariant m p past s)
    (hcontrol : s.control = .running a) (hkept₀ : Kept s.store store₀)
    (hoperands₀ : store₀.operands = s.store.operands) (hinst : m.code[a.pc]? = some inst)
    (heffect : Effect p store₀ a inst store' move) :
    Keeps m p (s :: past) (Machine.perform p syscalls s.data s.bracket s.outer store' move) := by
  have hinnermost := innermost_running hcontrol
  have hbounded₀ := h.bounded.kept hkept₀
  have hdepth₀ : store₀.trace.depth = s.bracket.traceDepth + a.frames.length := by
    rw [hkept₀.trace, h.depth, hinnermost]
  have hconst₀ := h.constantOnTop hcontrol hoperands₀
  obtain ⟨frame, rest, hframes, hinside, hreturn⟩ := h.exists_frame hcontrol
  have hproceed : ∀ {store' : Store} {a' : Activation},
      Effect p store₀ a inst store' (.proceed a') → Keeps m p (s :: past)
        (Machine.perform p syscalls s.data s.bracket s.outer store' (.proceed a')) := by
    intro store' a' heffect
    obtain ⟨htransfer, hconst⟩ := transfer_of_effect hm himage hinst hframes hinside hconst₀
      hreturn heffect
    obtain ⟨hbounded, hdepth⟩ := depth_of_effect heffect hbounded₀ hdepth₀
    rw [← hinnermost] at htransfer
    exact h.proceed hm hbounded hdepth htransfer hconst s.data
  have hlength : 0 < a.frames.length := by simp [hframes]
  have heffect' := heffect
  cases heffect with
  | passed hleave hcall hjump hkept hsp hconst => exact hproceed heffect'
  | jumped hdirected hsp =>
      have hnonneg := (directed_destination hm himage hinst hframes hinside hconst₀ hdirected).1
      rw [goTo_of_nonneg hnonneg] at heffect' ⊢
      exact hproceed heffect'
  | entered hop htop hnonneg hprocedure hlt hsp htrace hoperands => exact hproceed heffect'
  | returned hop hframes => exact hproceed heffect'
  | finished hop hcaller =>
      have hpop := pop_depth store₀.trace
      have hlimit := hbounded₀.depth_le
      have hbounded : Bounded p store₀.leaveCall := by
        refine ⟨hbounded₀.size, ?_⟩
        simp only [Store.leaveCall]
        omega
      refine conclude_keeps h.suspends hbounded ?_ _
      simp only [Store.leaveCall]
      omega
  | @requested store' id frame' hop htop hkept hoperandTop =>
      have hkept' : Kept s.store store' :=
        ⟨hkept.trace.trans hkept₀.trace, hkept.size.trans hkept₀.size⟩
      have hcall : opAt? m.code (innermost s).pc = some .call := by
        rw [hinnermost, opAt?_eq_some hinst, hop]
      simp only [Machine.perform]
      split
      · exact reject_keeps h.suspends (h.bounded.kept hkept') (by rw [hkept'.trace, h.depth]; omega) a _
      · rename_i syscall hfound
        rw [← hinnermost]
        refine h.wait ⟨?_, ?_⟩ hcall ?_ s.data _
        · rw [note_trace, hkept'.trace]
        · rw [note_operands, hkept'.size]
        · rw [note_operandTop, hoperandTop, hinnermost]
  | trapped hkept =>
      exact trap_keeps h.suspends (hbounded₀.kept hkept) (by rw [hkept.trace]; omega) _ _

theorem serve_keeps {s : State δ Activation} {a : Activation} {service : Service δ Word}
    (h : Invariant m p past s) (hcontrol : s.control = .serving a service) :
    Keeps m p (s :: past)
      (Machine.serve p syscalls s.store s.data s.bracket s.outer a service) := by
  have hready := h.ready
  rw [hcontrol] at hready
  obtain ⟨hcall, htop⟩ := hready
  obtain rfl : innermost s = a := innermost_serving hcontrol
  have hwait : ∀ (arena : Arena) (data : δ) (service : Service δ Word), Invariant m p (s :: past)
      { store := { s.store with arena }, data, control := .serving (innermost s) service
        bracket := s.bracket, outer := s.outer } := by
    intro arena data service
    have hkept : Kept s.store { s.store with arena } := ⟨rfl, rfl⟩
    exact h.wait hkept hcall htop data service
  cases service with
  | result value =>
      -- In front of the next instruction is the `call`, so no constant is claimed to be on top.
      have hconst : ConstantOnTop m (s.store.setOperand ((innermost s).sp - 1) value)
          { innermost s with pc := (innermost s).pc + 1 } := by
        intro c hc
        obtain ⟨j, prev, hj, hprev, hconst, -⟩ := constantBefore?_eq_some.mp hc
        obtain rfl : (innermost s).pc = j := Nat.succ.inj hj
        rw [opAt?_eq_some hprev, hconst] at hcall
        cases hcall
      have hkept : Kept s.store (s.store.setOperand ((innermost s).sp - 1) value) :=
        ⟨rfl, setOperand_size ..⟩
      have htransfer := h.stacked.transfer_behind hm hcall
      refine h.proceed hm (h.bounded.kept hkept) ?_ htransfer hconst s.data
      exact h.depth
  | fail failure =>
      have hdepth := h.depth
      exact reject_keeps h.suspends h.bounded (by omega) (innermost s) failure
  | crash => exact True.intro
  | getData next => exact hwait s.store.arena s.data (next s.data)
  | modifyData f next => exact hwait s.store.arena (f s.data) next
  | arenaSize next => exact hwait s.store.arena s.data (next s.store.arena.size)
  | read addr len next => exact hwait s.store.arena s.data _
  | write addr bytes next => exact hwait _ s.data _
  | readCString addr next => exact hwait s.store.arena s.data _
  | moduleName next => exact hwait s.store.arena s.data (next p.image.name)
  | callTrace next => exact hwait s.store.arena s.data (next s.store.trace)
  | reenter args next =>
      have hsuspends : Suspends m (s :: past) s.store.bracket
          (⟨innermost s, s.bracket, next⟩ :: s.outer) :=
        ⟨h.stacked, hcall, htop, h.depth, h.suspends⟩
      exact call_keeps hm himage hsuspends h.bounded
        (fun s' frame houter hframes => .nested houter rfl hframes) args

theorem step_keeps {s : State δ Activation} (h : Invariant m p past s) :
    Keeps m p (s :: past) (Machine.step p syscalls s) := by
  obtain ⟨store, data, control, bracket, outer⟩ := s
  cases control with
  | running a =>
      obtain ⟨frame, rest, base, -, hplaced, -, -⟩ := h.stacked.innermost
      obtain ⟨inst, hinst, -⟩ := hplaced.depth
      change m.code[a.pc]? = some inst at hinst
      have hstep := step_eq (p := p) store (himage ▸ hinst)
      simp only [Machine.step, Engine.step, hstep]
      by_cases hsupplied : Supplied (logged store a inst) a inst
      · exact effect_keeps hm himage h rfl (logged_kept ..) (logged_operands ..) hinst
          (execute_effect hsupplied)
      · rw [execute_crash hsupplied]
        exact True.intro
  | serving a service => exact serve_keeps hm himage h rfl

theorem run_keeps {t : Transition δ Activation} (hrest : AtRest p store)
    (hrun : Run p syscalls store past t) : Keeps m p past t := by
  have hcall : ∀ {store : Store} {data : δ} {args : List Word}, AtRest p store →
      Keeps m p [] (Machine.call p syscalls store data [] args) := by
    intro store data args hrest
    have hsuspends : Suspends (δ := δ) m [] store.bracket [] := ⟨hrest.operandTop, hrest.depth⟩
    exact call_keeps hm himage hsuspends hrest.toBounded
      (fun s frame houter hframes => ⟨houter, frame, hframes⟩) args
  induction hrun with
  | start data args => exact hcall hrest
  | step hrun ih => exact step_keeps hm himage ih
  | again hrun data args ih => exact hcall ih

end

theorem create_eq_ok {canCompile : Bool} {settings : Settings} {m : Module}
    {syscalls : Syscalls δ} {data : δ} {journal : Journal} {i : Instance δ}
    (h : Instance.create canCompile settings m syscalls data journal = .ok i) :
    i.program = ⟨m, Int32.ofNat (Arena.ofModule m).size - Int32.ofNat programStackSize,
      settings.maxCallDepth⟩ ∧
    i.syscalls = syscalls ∧ i.store.programStack = Int32.ofNat (Arena.ofModule m).size ∧
    AtRest i.program i.store := by
  simp only [Instance.create, CallTrace.empty?] at h
  split at h
  · cases h
  · rename_i trace htrace
    split at htrace
    · obtain rfl := Option.some.inj htrace
      obtain rfl := Except.ok.inj h
      exact ⟨rfl, rfl, rfl, ⟨by simp, Nat.zero_le _⟩, rfl, rfl⟩
    · cases htrace

/-- The invariant holds in every state of every run of an instance. -/
theorem invariant_of_run {name : String} {image : Image} {m : Module} {canCompile : Bool}
    {settings : Settings} {syscalls : Syscalls δ} {data : δ} {journal : Journal} {i : Instance δ}
    {past : List (State δ Activation)} {s : State δ Activation}
    (hload : Module.load name image = .ok m)
    (hcreate : Instance.create canCompile settings m syscalls data journal = .ok i)
    (hrun : Run i.program i.syscalls i.store past (.next s)) :
    Sound m ∧ i.program.image = m ∧ Invariant m i.program past s := by
  obtain ⟨hprogram, -, -, hrest⟩ := create_eq_ok hcreate
  have himage : i.program.image = m := by rw [hprogram]
  exact ⟨sound_of_load hload, himage, run_keeps (sound_of_load hload) himage hrest hrun⟩

end SandboxVm.Proofs.RunInvariant
