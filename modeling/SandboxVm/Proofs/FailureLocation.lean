import SandboxVm.Proofs.CallBracket
import SandboxVm.Proofs.FailureSites

namespace SandboxVm.Proofs.FailureLocation

open SandboxVm.Proofs.LoadedModule
open SandboxVm.Proofs.CallRecord
open SandboxVm.Proofs.EngineTrace
open SandboxVm.Proofs.CallNesting
open SandboxVm.Proofs.ControlTransfer
open SandboxVm.Proofs.MachineRun
open SandboxVm.Proofs.FrameStack
open SandboxVm.Proofs.RunInvariant
open SandboxVm.Proofs.CallBracket
open SandboxVm.Proofs.FailureSites
open SandboxVm.Proofs.ArenaLayout
open SandboxVm.Proofs.EntryCall

variable {δ : Type}

theorem site_note (s : Store) (level : LogLevel) (message : Unit → String) (p : Program)
    (pc : Option Nat) : (s.note level message).site p pc = s.site p pc := by
  rw [Store.site, InterpretedInstruction.note_trace]
  rfl

/-! ### Interpreted code -/

namespace Interpreted

open SandboxVm.Interpreter
open SandboxVm.Proofs.InterpretedInstruction
open SandboxVm.Proofs.EngineTrace.Interpreted

/-- If the code traps, it is where `a` is: at its instruction and in its procedures. -/
def TrapsIn (a : Activation) (move : Move Activation) : Prop :=
  ∀ a' t, move = .trap a' t → a'.pc = a.pc ∧ a'.frames = a.frames

section

variable {p : Program} {s : Store} {a : Activation} {inst : AnnotatedInstruction}

theorem trapsIn_self (t : Trap) : TrapsIn a (.trap a t) := by
  rintro _ _ ⟨⟩
  exact ⟨rfl, rfl⟩

theorem trapsIn_of_proceed (a' : Activation) : TrapsIn a (.proceed a') := by
  rintro _ _ ⟨⟩

theorem trapsIn_crash : TrapsIn a .crash := by
  rintro _ _ ⟨⟩

theorem withTop_trapsIn {k : Word → Outcome} (hk : ∀ x, TrapsIn a (k x).2) :
    TrapsIn a (withTop s a k).2 := by
  unfold withTop
  split
  · exact trapsIn_crash
  · split
    · exact hk _
    · exact trapsIn_crash

theorem withTopTwo_trapsIn {k : Word → Word → Outcome} (hk : ∀ x y, TrapsIn a (k x y).2) :
    TrapsIn a (withTopTwo s a k).2 := by
  unfold withTopTwo
  split
  · split
    · exact hk _ _
    · exact trapsIn_crash
  · exact trapsIn_crash

theorem push_trapsIn (value : Word) : TrapsIn a (push s a value).2 := by
  unfold push
  split
  · exact trapsIn_of_proceed _
  · exact trapsIn_crash

theorem goTo_trapsIn (a' : Activation) (target : Word) : TrapsIn a (goTo a' target) := by
  unfold goTo
  split
  · exact trapsIn_crash
  · exact trapsIn_of_proceed _

theorem call_trapsIn (target : Word) : TrapsIn a (call p s a target).2 := by
  unfold call
  by_cases hneg : target < 0
  · simp only [if_pos hneg]
    rintro _ _ ⟨⟩
  · simp only [if_neg hneg]
    rcases enterProcedure_cases p (s.write .four a.ps (Int32.ofNat (a.pc + 1)))
        { a with sp := a.sp - 1 } target.toInt.toNat (some (a.pc + 1)) with
      ⟨-, heq⟩ | ⟨procedure, -, ⟨-, heq⟩ | ⟨-, heq⟩⟩ <;> rw [heq]
    · exact trapsIn_self (a := { a with sp := a.sp - 1 }) _
    · exact trapsIn_self (a := { a with sp := a.sp - 1 }) _
    · exact trapsIn_of_proceed _

theorem leave_trapsIn (size : Word) : TrapsIn a (leave s a size).2 := by
  unfold leave
  split
  · exact trapsIn_of_proceed _
  · split
    · exact trapsIn_crash
    · simp only
      split
      · rintro _ _ ⟨⟩
      · exact trapsIn_crash

theorem execute_trapsIn : TrapsIn a (execute p s a inst).2 := by
  unfold execute
  cases inst.op with
  | undef => exact trapsIn_self _
  | enter =>
      simp only
      split
      · exact trapsIn_self _
      · exact trapsIn_of_proceed _
  | leave => exact leave_trapsIn _
  | call => exact withTop_trapsIn fun target => call_trapsIn target
  | push => exact push_trapsIn _
  | const => exact push_trapsIn _
  | localAddress => exact push_trapsIn _
  | jump =>
      apply withTop_trapsIn
      intro target
      simp only
      split
      · split
        · split
          · exact goTo_trapsIn _ _
          · exact trapsIn_self (a := { a with sp := a.sp - 1 }) _
        · exact trapsIn_self (a := { a with sp := a.sp - 1 }) _
      · exact goTo_trapsIn _ _
  | branch c =>
      apply withTopTwo_trapsIn
      intro x y
      simp only
      split
      · exact goTo_trapsIn _ _
      · exact trapsIn_of_proceed _
  | division op =>
      apply withTopTwo_trapsIn
      intro x y
      split
      · exact trapsIn_of_proceed _
      · exact trapsIn_self _
  | pop => exact withTop_trapsIn fun _ => trapsIn_of_proceed _
  | load width => exact withTop_trapsIn fun _ => trapsIn_of_proceed _
  | arg => exact withTop_trapsIn fun _ => trapsIn_of_proceed _
  | unary op => exact withTop_trapsIn fun _ => trapsIn_of_proceed _
  | store width => exact withTopTwo_trapsIn fun _ _ => trapsIn_of_proceed _
  | blockCopy => exact withTopTwo_trapsIn fun _ _ => trapsIn_of_proceed _
  | binary op => exact withTopTwo_trapsIn fun _ _ => trapsIn_of_proceed _
  | _ => exact trapsIn_of_proceed _

theorem step_halts {syscalls : Syscalls δ} {s' : Store} {a' : Activation} {move : Move Activation}
    {own f : Failure} (hstep : step p s a = (s', move))
    (hhalts : Halts p syscalls s' move a' own f) :
    a'.pc = a.pc ∧ a'.frames = a.frames ∧ s'.trace = s.trace := by
  cases hinst : p.image.code[a.pc]? with
  | none =>
      obtain ⟨-, rfl⟩ : s = s' ∧ Move.crash = move := by simpa [step, hinst] using hstep
      cases hhalts
  | some inst =>
      rw [step_eq s hinst] at hstep
      by_cases hsupplied : Supplied (logged s a inst) a inst
      · have heffect : Effect p (logged s a inst) a inst s' move := by
          simpa only [hstep] using execute_effect (p := p) hsupplied
        have htraps : TrapsIn a move := by
          have htraps : TrapsIn a (execute p (logged s a inst) a inst).2 := execute_trapsIn
          simpa only [hstep] using htraps
        have hlogged : (logged s a inst).trace = s.trace := note_trace ..
        cases hhalts with
        | @trap a' t =>
            obtain ⟨hpc, hframes⟩ := htraps a' t rfl
            refine ⟨hpc, hframes, ?_⟩
            generalize hmove : Move.trap a' t = move at heffect
            cases heffect with
            | jumped hdirected hsp =>
                unfold goTo at hmove
                split at hmove <;> cases hmove
            | trapped hkept => exact hkept.trace.trans hlogged
            | passed | entered | returned | finished | requested => cases hmove
        | @unknown a' id frame hnone =>
            generalize hmove : Move.syscall a' id frame = move at heffect
            cases heffect with
            | jumped hdirected hsp =>
                unfold goTo at hmove
                split at hmove <;> cases hmove
            | requested hop htop hkept hoperandTop =>
                cases hmove
                exact ⟨rfl, rfl, hkept.trace.trans hlogged⟩
            | passed | entered | returned | finished | trapped => cases hmove
      · have hcrash : move = .crash := by
          simpa only [hstep] using execute_crash (p := p) hsupplied
        subst hcrash
        cases hhalts

theorem start_halts {syscalls : Syscalls δ} {s' : Store} {frame : Word} {a' : Activation}
    {move : Move Activation} {own f : Failure} (hstart : start p s frame = (s', move))
    (hhalts : Halts p syscalls s' move a' own f) : a'.frames = [] ∧ s'.trace = s.trace := by
  rw [start] at hstart
  rcases enterProcedure_cases p s ⟨0, frame, s.operandTop, []⟩ 0 none with
    ⟨-, heq⟩ | ⟨procedure, -, ⟨-, heq⟩ | ⟨-, heq⟩⟩
  all_goals
    rw [heq] at hstart
    obtain ⟨rfl, rfl⟩ := Prod.mk.inj hstart
    cases hhalts
  · exact ⟨rfl, rfl⟩
  · exact ⟨rfl, rfl⟩

end

end Interpreted

instance interpreterLocated : Located Activation where
  pc a := some a.pc
  trapped p store a t :=
    congrArg (fun site => (Failure.ofTrap t).addContext (.site site)) (site_note ..)
  unlocated p store a f h := by
    simp only [Engine.rejected, Interpreter.rejected, isLocated_of_unsited h]
    rfl
  located p store a f h := by
    simp only [Engine.rejected, Interpreter.rejected, (isLocated_iff f).mpr h, if_true]
  step_pc hstep hhalts := congrArg some (Interpreted.step_halts hstep hhalts).1
  step_trace := by
    intro δ p syscalls store store' a a' move own f hvalid hstep hhalts
    obtain ⟨-, hframes, htrace⟩ := Interpreted.step_halts hstep hhalts
    have hstarts : Traced.starts a' = Traced.starts a := by
      simp only [Traced.starts, EngineTrace.Interpreted.starts, hframes]
    rw [htrace, hstarts]
    exact follows_refl _ _
  start_trace := by
    intro δ p syscalls store store' frame a move own f hstart hhalts
    obtain ⟨hframes, htrace⟩ := Interpreted.start_halts hstart hhalts
    have hstarts : Traced.starts a = [] := by
      simp only [Traced.starts, EngineTrace.Interpreted.starts, hframes, List.map_nil,
        List.reverse_nil]
    rw [htrace, hstarts]
    exact follows_refl _ _

/-! ### Compiled code -/

namespace Compiled

open SandboxVm.Native
open SandboxVm.Proofs.EngineTrace.Compiled

theorem halts_trace {p : Program} {syscalls : Syscalls δ} {s s' : Store} {f : Native.Frame}
    {callers : List Native.Frame} {a : Native.Activation} {move : Move Native.Activation}
    {own failure : Failure} (heffect : Effect p s f callers s' move)
    (hhalts : Halts p syscalls s' move a own failure) :
    Follows s.trace (starts ⟨f :: callers⟩) s'.trace (starts a) := by
  cases hhalts with
  | trap =>
      cases heffect with
      | trapped hprocedure hkept htrace =>
          rw [htrace, starts_push, starts_push, hprocedure]
          exact follows_refl _ _
      | overflowed hprocedure hkept htrace =>
          rw [htrace, starts_push, starts_push, starts_push, hprocedure]
          exact follows_push _ _ _
  | unknown hnone =>
      cases heffect with
      | requested hprocedure hkept htrace =>
          rw [htrace, starts_push, starts_push, hprocedure]
          exact follows_refl _ _

theorem step_trace {p : Program} {syscalls : Syscalls δ} {s s' : Store} {a a' : Native.Activation}
    {move : Move Native.Activation} {own failure : Failure} (hvalid : a.frames ≠ [])
    (hstep : step p s a = (s', move)) (hhalts : Halts p syscalls s' move a' own failure) :
    Follows s.trace (starts a) s'.trace (starts a') := by
  obtain ⟨frames⟩ := a
  cases frames with
  | nil => exact absurd rfl hvalid
  | cons f callers =>
      cases hinst : p.image.code[f.pc]? with
      | none =>
          simp only [step, hinst] at hstep
          obtain ⟨-, rfl⟩ := Prod.mk.inj hstep
          cases hhalts
      | some inst =>
          simp only [step, hinst] at hstep
          have heffect := execute_effect p s f callers inst
          rw [hstep] at heffect
          exact halts_trace heffect hhalts

theorem start_trace {p : Program} {syscalls : Syscalls δ} {s s' : Store} {frame : Word}
    {a : Native.Activation} {move : Move Native.Activation} {own failure : Failure}
    (hstart : start p s frame = (s', move)) (hhalts : Halts p syscalls s' move a own failure) :
    Follows s.trace [] s'.trace (starts a) := by
  rw [start] at hstart
  rcases enterProcedure_cases p s [] 0 frame with
    ⟨-, heq⟩ | ⟨procedure, hfound, ⟨-, heq⟩ | ⟨-, heq⟩⟩
  all_goals
    rw [heq] at hstart
    obtain ⟨rfl, rfl⟩ := Prod.mk.inj hstart
  · cases hhalts
    exact follows_refl _ _
  · cases hhalts
    exact follows_refl _ _
  · have hpush : Follows s.trace [] (s.trace.push 0) [procedure.start] := by
      rw [start_of_procedureAt? hfound]
      exact follows_push _ _ _
    split at hhalts
    · cases hhalts
      exact hpush
    · cases hhalts

end Compiled

instance nativeLocated : Located Native.Activation where
  pc _ := none
  trapped p store a t := by
    simp only [Engine.trapped, Native.rejected]
    rfl
  unlocated p store a f h := by
    simp only [Engine.rejected, Native.rejected, isLocated_of_unsited h]
    rfl
  located p store a f h := by
    simp only [Engine.rejected, Native.rejected, (isLocated_iff f).mpr h, if_true]
  step_pc _ _ := rfl
  step_trace := Compiled.step_trace
  start_trace := Compiled.start_trace

/-! ### Where interpreted code is -/

/-- The site of a failure of interpreted code names the instruction that the code is at, which
lies in its innermost procedure if one has been entered. It names none if and only if the entry
frame of the call did not fit. -/
structure Pinpointed (m : Module) (p : Program) (r : Report δ Activation) : Prop where
  pc_iff : (r.site p).pc = none ↔ r.code? = none
  unfit : r.code? = none → entryAddress r.moment < p.stackBottom
  pc_eq : ∀ a, r.code? = some a → (r.site p).pc = some a.pc
  inside : ∀ a frame rest, r.code? = some a → a.frames = frame :: rest →
    Inside m frame.procedure a.pc

section

variable {m : Module} {p : Program} {syscalls : Syscalls δ} {past : List (State δ Activation)}
  {s : State δ Activation} {r : Report δ Activation}

theorem pinpointed_of_code {own : Failure} {moment : Store} {pc : Nat} {a : Activation}
    {outer : List (Suspended δ Activation)} (hpc : a.pc = pc)
    (hinside : ∀ frame rest, a.frames = frame :: rest → Inside m frame.procedure a.pc) :
    Pinpointed m p ⟨own, moment, some pc, some a, outer⟩ where
  pc_iff := iff_of_false (Option.some_ne_none _) (Option.some_ne_none _)
  unfit := by simp
  pc_eq := by
    rintro _ ⟨⟩
    exact congrArg some hpc.symm
  inside := by
    rintro _ frame rest ⟨⟩ hframes
    exact hinside frame rest hframes

theorem inside_innermost (h : Invariant m p past s) {frame : Frame} {rest : List Frame}
    (hframes : (innermost s).frames = frame :: rest) :
    Inside m frame.procedure (innermost s).pc := by
  obtain ⟨frame', rest', base, hframes', hplaced, -, -⟩ := h.stacked.innermost
  obtain ⟨rfl, -⟩ := List.cons.inj (hframes.symm.trans hframes')
  exact hplaced.inside

theorem pinpointed_of_fails (h : Fails p syscalls s r) (hinvariant : Invariant m p past s) :
    Pinpointed m p r := by
  cases h with
  | @code a a' store move own f hcontrol hstep hhalts =>
      obtain ⟨hpc, hframes, -⟩ := Interpreted.step_halts hstep hhalts
      refine pinpointed_of_code hpc fun frame rest hframe => ?_
      obtain rfl := innermost_running hcontrol
      rw [hpc]
      exact inside_innermost hinvariant (hframes.symm.trans hframe)
  | @service a own hcontrol hown =>
      refine pinpointed_of_code rfl fun frame rest hframe => ?_
      obtain rfl := innermost_serving hcontrol
      exact inside_innermost hinvariant hframe

theorem pinpointed_of_failsAtOnce {store : Store} {outer : List (Suspended δ Activation)}
    {args : List Word} (h : FailsAtOnce p syscalls store outer args r) : Pinpointed m p r := by
  cases h with
  | unfit hargs hframe => exact ⟨iff_of_true rfl rfl, fun _ => hframe, by simp, by simp⟩
  | entry hargs hframe hstart hhalts =>
      obtain ⟨hframes, -⟩ := Interpreted.start_halts hstart hhalts
      refine pinpointed_of_code rfl fun frame rest hframe => ?_
      rw [hframes] at hframe
      cases hframe

end

/-! ### Instances -/

section

variable (α : Type) [Engine α] [Traced α] [Located α]

/-- The error `f` of a call that went through the states `seen` has exactly one site, that of a
failure within the call, and the cause of that failure. The site names the module and the
procedures in progress at the moment of the failure, also those of the calls around it. -/
structure LocatedBy (p : Program) (syscalls : Syscalls δ) (capacity : Nat) (store : Store)
    (outer : List (Suspended δ α)) (args : List Word) (seen : List (State δ α)) (f : Failure)
    (r : Report δ α) : Prop where
  within : Within p syscalls store outer args seen r
  own_unsited : sites r.own = []
  eq_failure : f = r.failure p
  cause_eq : f.cause = r.own.cause
  sites_eq : sites f = [r.site p]
  name_eq : (r.site p).moduleName = p.image.name
  frames_eq : (r.site p).frames = r.procedures.take capacity

/-- Every call of every run that starts with `store₀` ends with a value, with an error that it
returns or by a breakdown, unless it is refused. An error that it returns is located by a report
that `Says` holds of. If its entry frame does not fit, it is located by the call itself, which
has not come to any instruction. -/
structure LocatesErrors (p : Program) (syscalls : Syscalls δ) (store₀ : Store) (capacity : Nat)
    (Says : Report δ α → Prop) : Prop where
  comesTo : ∀ (store : Store) (data : δ) (outer : List (Suspended δ α)) (args : List Word)
    (seen : List (State δ α)) (t : Transition δ α),
    CallSite p syscalls store₀ store data outer args →
    Steps p syscalls (Machine.call p syscalls store data outer args) seen t →
    (∀ s ∈ seen, outer.length ≤ s.outer.length) →
      ComesTo p syscalls store data outer args seen t
  located : ∀ (store : Store) (data : δ) (outer : List (Suspended δ α)) (args : List Word)
    (seen : List (State δ α)) (f : Failure),
    CallSite p syscalls store₀ store data outer args →
    Returns p syscalls store data outer args seen f →
      ∃ r, LocatedBy α p syscalls capacity store outer args seen f r ∧ Says r
  unfit : ∀ (store : Store) (data : δ) (outer : List (Suspended δ α)) (args : List Word)
    (seen : List (State δ α)) (f : Failure),
    entryAddress store < p.stackBottom → Returns p syscalls store data outer args seen f →
      seen = [] ∧
        f = ⟨[.site ⟨p.image.name, none, store.trace.entries.toList⟩], .trap .stackOverflow⟩

/-- A call of the instance by the host has returned `f`, located by a report that `Says` holds
of. -/
def Explains (i : Instance δ) (capacity : Nat) (args : List Word) (f : Failure)
    (Says : Report δ α → Prop) : Prop :=
  ∃ (seen : List (State δ α)) (r : Report δ α),
    Returns i.program i.syscalls i.store i.data [] args seen f ∧
    LocatedBy α i.program i.syscalls capacity i.store [] args seen f r ∧ Says r

variable {α} {p : Program} {syscalls : Syscalls δ} {store₀ : Store} {capacity : Nat}
  {Says : Report δ α → Prop}

theorem locatedBy_of_returns {store : Store} {data : δ} {outer : List (Suspended δ α)}
    {args : List Word} {seen : List (State δ α)} {f : Failure} (hsyscalls : CandidTable syscalls)
    (hidle : Idle (δ := δ) (α := α) capacity [] store₀)
    (hsite : CallSite p syscalls store₀ store data outer args)
    (h : Returns p syscalls store data outer args seen f) :
    ∃ r, LocatedBy α p syscalls capacity store outer args seen f r := by
  obtain ⟨r, hr, hf⟩ := h.reported hsyscalls
  have hrecords := hr.records hidle hsite fun x hx => h.reached hsite hx
  refine ⟨r, hr, hr.own_unsited, hf, by rw [hf]; rfl, ?_, rfl, hrecords.entries⟩
  rw [hf, Report.failure, sites_addContext, hr.own_unsited]

theorem report_of_within {store : Store} {outer : List (Suspended δ α)} {args : List Word}
    {seen : List (State δ α)} {r : Report δ α} (h : Within p syscalls store outer args seen r)
    (hreport : ∀ s ∈ seen, ∀ r, Fails p syscalls s r → Says r)
    (honce : ∀ store outer args r, FailsAtOnce p syscalls store outer args r → Says r) :
    Says r := by
  cases h with
  | atOnce h => exact honce _ _ _ r h
  | inState hs h => exact hreport _ hs r h
  | inner hs hcontrol h => exact honce _ _ _ r h

theorem locatesErrors (hsyscalls : CandidTable syscalls)
    (hidle : Idle (δ := δ) (α := α) capacity [] store₀)
    (hreport : ∀ s, Reached p syscalls store₀ (.next s) → ∀ r, Fails p syscalls s r → Says r)
    (honce : ∀ store outer args r, FailsAtOnce p syscalls store outer args r → Says r) :
    LocatesErrors α p syscalls store₀ capacity Says where
  comesTo _ _ _ _ _ _ _ hsteps hseen := steps_comesTo hsteps hseen
  located := by
    intro store data outer args seen f hsite hreturns
    obtain ⟨r, hr⟩ := locatedBy_of_returns hsyscalls hidle hsite hreturns
    refine ⟨r, hr, report_of_within hr.within (fun s hs => ?_) honce⟩
    exact hreport s (hreturns.reached hsite hs)
  unfit _ _ _ _ _ _ hframe hreturns := hreturns.of_unfit hframe

end

section

variable {α : Type} [Engine α] {p : Program} {syscalls : Syscalls δ} {args : List Word}
  {f : Failure}

theorem returns_of_done {store store' : Store} {data data' : δ} {seen : List (State δ α)}
    (hargs : args.length ≤ maxCallArgs)
    (h : Steps p syscalls (Machine.call p syscalls store data [] args) seen
      (.done store' data' (.error f))) :
    Returns p syscalls store data [] args seen f := by
  have hcomes := steps_comesTo h fun x _ => Nat.zero_le x.outer.length
  generalize ht : Transition.done store' data' (.error f) = t at hcomes
  cases hcomes with
  | inCall inner houter => cases ht
  | value => cases ht
  | error h =>
      obtain ⟨-, -, hf⟩ := Transition.done.inj ht
      obtain rfl := Except.error.inj hf
      exact h
  | refused hmany => omega
  | crashed => cases ht

theorem callWith_failed {i i' : Instance δ} {fuel : Nat}
    (h : i.callWith α fuel args = (i', .failed f)) :
    Machine.run i.program i.syscalls fuel (Machine.call (α := α) i.program i.syscalls i.store
      i.data [] args) = .done i'.store i'.data (.error f) := by
  simp only [Instance.callWith] at h
  split at h
  · cases (Prod.mk.inj h).2
  · cases (Prod.mk.inj h).2
  · cases (Prod.mk.inj h).2
  · rename_i hrun
    obtain ⟨rfl, hresult⟩ := Prod.mk.inj h
    obtain rfl := CallResult.failed.inj hresult
    exact hrun

theorem returns_of_callWith {i i' i'' : Instance δ} {fuel : Nat}
    (hcontinues : Continues α i i') (hargs : args.length ≤ maxCallArgs)
    (hcall : i'.callWith α fuel args = (i'', .failed f)) :
    ∃ seen : List (State δ α), Returns i.program i.syscalls i'.store i'.data [] args seen f := by
  obtain ⟨seen, hsteps⟩ := steps_run i'.program i'.syscalls fuel
    (Machine.call (α := α) i'.program i'.syscalls i'.store i'.data [] args)
  rw [callWith_failed hcall, hcontinues.program, hcontinues.syscalls] at hsteps
  exact ⟨seen, returns_of_done hargs hsteps⟩

theorem LocatesErrors.explains [Traced α] [Located α] {i i' i'' : Instance δ} {fuel capacity : Nat}
    {Says : Report δ α → Prop}
    (h : LocatesErrors α i.program i.syscalls i.store capacity Says)
    (hcontinues : Continues α i i') (hargs : args.length ≤ maxCallArgs)
    (hcall : i'.callWith α fuel args = (i'', .failed f)) :
    Explains α i' capacity args f Says := by
  obtain ⟨seen, hreturns⟩ := returns_of_callWith hcontinues hargs hcall
  obtain ⟨r, hr, hreport⟩ := h.located _ _ _ _ _ _ (hcontinues.site i'.data args) hreturns
  refine ⟨seen, r, ?_, ?_, hreport⟩
  · rw [hcontinues.program, hcontinues.syscalls]
    exact hreturns
  · rw [hcontinues.program, hcontinues.syscalls]
    exact hr

end

/-- The errors of calls have exactly one site, that of the innermost failure, in every run of
every instance whose host services are candid. -/
theorem errors_located {name : String} {image : Image} {m : Module} {canCompile : Bool}
    {settings : Settings} {syscalls : Syscalls δ} {data : δ} {journal : Journal} {i : Instance δ}
    (hload : Module.load name image = .ok m)
    (hcreate : Instance.create canCompile settings m syscalls data journal = .ok i)
    (hsyscalls : CandidTable syscalls) :
    LocatesErrors Activation i.program i.syscalls i.store settings.callTraceCapacity
      (Pinpointed m i.program) ∧
    LocatesErrors Native.Activation i.program i.syscalls i.store settings.callTraceCapacity
      (fun r => (r.site i.program).pc = none) ∧
    ∀ (i' i'' : Instance δ) (fuel : Nat) (args : List Word) (f : Failure), Used i i' →
      args.length ≤ maxCallArgs → i'.call fuel args = (i'', .failed f) →
        if i.compiled then
          Explains Native.Activation i' settings.callTraceCapacity args f
            fun r => (r.site i.program).pc = none
        else Explains Activation i' settings.callTraceCapacity args f (Pinpointed m i.program) := by
  obtain ⟨hprogram, hsame, -, hrest⟩ := create_eq_ok hcreate
  have himage : i.program.image = m := by rw [hprogram]
  have hcandid : CandidTable i.syscalls := hsame.symm ▸ hsyscalls
  have hinterpreted : LocatesErrors Activation i.program i.syscalls i.store
      settings.callTraceCapacity (Pinpointed m i.program) := by
    refine locatesErrors hcandid (create_idle hcreate) (fun s hs r hr => ?_) ?_
    · obtain ⟨past, hrun⟩ := run_of_reached hs
      exact pinpointed_of_fails hr (run_keeps (sound_of_load hload) himage hrest hrun)
    · exact fun _ _ _ _ hr => pinpointed_of_failsAtOnce hr
  have hnative : LocatesErrors Native.Activation i.program i.syscalls i.store
      settings.callTraceCapacity (fun r => (r.site i.program).pc = none) := by
    refine locatesErrors hcandid (create_idle hcreate) (fun s hs r hr => ?_) ?_
    · cases hr <;> rfl
    · rintro store outer args r (hr | hr) <;> rfl
  refine ⟨hinterpreted, hnative, ?_⟩
  intro i' i'' fuel args f hused hargs hcall
  have hcontinues := hused.continues
  unfold Instance.call at hcall
  by_cases hcompiled : i.compiled
  · rw [if_pos hcompiled] at hcontinues ⊢
    rw [if_pos (hcontinues.compiled ▸ hcompiled)] at hcall
    exact hnative.explains hcontinues hargs hcall
  · rw [if_neg hcompiled] at hcontinues ⊢
    rw [if_neg (hcontinues.compiled ▸ hcompiled)] at hcall
    exact hinterpreted.explains hcontinues hargs hcall

def passOn : Except Failure Word → Service Unit Word
  | .ok value => .result value
  | .error failure => .fail failure

/-- A service that calls the module again and passes on the error if that fails. -/
def passingService : Service Unit Word := .reenter [] passOn

def passingSyscalls : Syscalls Unit where
  entries := [⟨0, "pass", 0, fun _ => passingService⟩]

theorem candid_passingSyscalls : CandidTable passingSyscalls := by
  intro id syscall hfound args
  have hmem := List.mem_of_find?_eq_some hfound
  simp only [passingSyscalls, List.mem_singleton] at hmem
  rw [hmem]
  rintro (failure | value)
  · exact .inr (.inr rfl)
  · exact True.intro

theorem asking_passes : ∃ (i i' : Instance Unit) (fuel : Nat),
    Instance.create false { maxCallDepth := 1 } askingModule passingSyscalls () {} = .ok i ∧
    i.compiled = false ∧ i.call fuel [] = (i', .failed
      ⟨[.site ⟨"asking", some 0, [0]⟩], .trap .callStackExhausted⟩) := by
  obtain ⟨i, hcreate⟩ := exists_create false { maxCallDepth := 1 } askingModule passingSyscalls ()
    {} (by decide)
  have hcompiled : i.compiled = false := by
    obtain rfl := Except.ok.inj hcreate
    rfl
  obtain ⟨hprogram, hsyscalls, -, hrest⟩ := create_eq_ok hcreate
  have himage : i.program.image = askingModule := by rw [hprogram]
  have hlimit : i.program.maxCallDepth = 1 := by rw [hprogram]
  obtain ⟨hlayout, hps⟩ := layout_of_create load_asking hcreate
  have htop : i.store.programStack.toInt = i.store.arena.size - 0 := by rw [hps, Int.sub_zero]
  obtain ⟨hentry, hframe, hbelow⟩ := asking_room hlayout htop (by decide) (by decide)
  have hentry' := hlayout.room (n := Int32.ofNat entryFrameSize) hbelow (by decide) (by decide)
    (by decide)
  have hfound : passingSyscalls.find? 0 = some ⟨0, "pass", 0, fun _ => passingService⟩ := rfl
  obtain ⟨s₀, s₁, a, seen, args, hseen, -, -, -, hstep₀, -, hserving₁, houter₁, htrace₁, hstack₁, -⟩ :=
    asking_served himage hfound () [] hentry hframe (by rw [hrest.depth, hlimit]; decide)
      (by rw [hrest.operandTop, hrest.size, hlimit]; decide)
  rw [← hstack₁] at hentry'
  have hentries : s₁.store.trace.entries.toList = [0] := by
    rw [htrace₁]
    exact ((create_idle (α := Activation) hcreate).records.push 0).entries
  have hdepth : i.program.maxCallDepth ≤ s₁.store.trace.depth := by
    rw [hlimit, htrace₁]
    exact Nat.le_add_left 1 i.store.trace.depth
  obtain ⟨store₂, hfails⟩ := call_exhausted passingSyscalls () (⟨a, s₁.bracket, passOn⟩ :: s₁.outer)
    (show ([] : List Word).length ≤ maxCallArgs from Nat.zero_le _) hentry'.1
    (procedureAt?_asking himage) hdepth
  rw [hentries, himage, houter₁] at hfails
  have hstep₁ : Machine.step i.program passingSyscalls s₁ = _ := step_of_reenter hserving₁
  rw [houter₁] at hstep₁
  have hsteps := (hstep₁.trans hfails) ▸ (hstep₀ ▸ hseen.step).step
  obtain ⟨fuel, hrun⟩ : ∃ fuel, Machine.run i.program i.syscalls fuel
      (Machine.call (α := Activation) i.program i.syscalls i.store i.data [] []) =
        .done (store₂.conclude s₁.bracket) ()
          (.error ⟨[.site ⟨"asking", some 0, [0]⟩], .trap .callStackExhausted⟩) := by
    rw [hsyscalls]
    exact ⟨_, (Steps.step hsteps).run⟩
  refine ⟨i, { i with store := store₂.conclude s₁.bracket }, fuel, hcreate, hcompiled, ?_⟩
  simp only [Instance.call, hcompiled, Instance.callWith, hrun]
  rfl

theorem errors_located_asking : ∃ (i i' : Instance Unit) (fuel : Nat) (failure : Failure),
    Module.load "asking" askingDraft.build = .ok askingModule ∧
    Instance.create false { maxCallDepth := 1 } askingModule passingSyscalls () {} = .ok i ∧
    CandidTable passingSyscalls ∧ i.call fuel [] = (i', .failed failure) ∧
    sites failure = [⟨"asking", some 0, [0]⟩] ∧
    Explains Activation i 32 [] failure (Pinpointed askingModule i.program) := by
  obtain ⟨i, i', fuel, hcreate, hcompiled, hcall⟩ := asking_passes
  have hlocated := (errors_located load_asking hcreate candid_passingSyscalls).2.2 i i' fuel [] _
    .new (Nat.zero_le _) hcall
  rw [hcompiled] at hlocated
  exact ⟨i, i', fuel, _, load_asking, hcreate, candid_passingSyscalls, hcall, rfl, hlocated⟩

end SandboxVm.Proofs.FailureLocation
