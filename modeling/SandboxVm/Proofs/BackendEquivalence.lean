import SandboxVm.Proofs.MachineSimulation
import SandboxVm.Proofs.ServiceBounds

/-!
Compiled and interpreted instances of a module cannot be told apart: whatever
calls the host makes, it sees the same of each of them.
-/

namespace SandboxVm.Proofs.BackendEquivalence

open SandboxVm.Proofs.LoadedModule
open SandboxVm.Proofs.MachineRun
open SandboxVm.Proofs.RunInvariant
open SandboxVm.Proofs.EntryCall
open SandboxVm.Proofs.CompiledSupply
open SandboxVm.Proofs.ArenaLayout
open SandboxVm.Proofs.ProgramStack
open SandboxVm.Proofs.Observation
open SandboxVm.Proofs.ServiceBounds
open SandboxVm.Proofs.FrameCorrespondence
open SandboxVm.Proofs.MachineSimulation

variable {δ : Type}

/-! ### Runs of one call -/

/-- In whatever follows, host services reach memory inside the arena only. -/
def ReachesInside (p : Program) (syscalls : Syscalls δ) (t : Transition δ Activation) : Prop :=
  ∀ fuel s a service, Machine.run p syscalls fuel t = .next s →
    s.control = .serving a service → InArena s.store.arena service

theorem ReachesInside.step {p : Program} {syscalls : Syscalls δ} {s : State δ Activation}
    (h : ReachesInside p syscalls (.next s)) :
    ReachesInside p syscalls (Machine.step p syscalls s) :=
  fun fuel => h (fuel + 1)

/-- Interpreted code comes to what compiled code does in `n` steps. -/
def Matched (m : Module) (p : Program) (syscalls : Syscalls δ) (n : Nat)
    (t : Transition δ Native.Activation) (t' : Transition δ Activation) : Prop :=
  ∃ k, TransitionAlike m (Machine.run p syscalls n t) (Machine.run p syscalls k t') ∧
    dispatches p syscalls n t = dispatches p syscalls k t'

/-- Compiled code comes to what interpreted code does in `k` steps, unless that is in
the middle of entering a procedure. -/
def Attained (m : Module) (p : Program) (syscalls : Syscalls δ) (k : Nat)
    (t : Transition δ Native.Activation) (t' : Transition δ Activation) : Prop :=
  ∃ n, dispatches p syscalls n t = dispatches p syscalls k t' ∧
    ((∀ s, Machine.run p syscalls k t' ≠ .next s) →
      TransitionAlike m (Machine.run p syscalls n t) (Machine.run p syscalls k t'))

section

variable {m : Module} (hm : Sound m) {p : Program} (himage : p.image = m)
  (hcompiles : Native.firstRefused? m = none) {syscalls : Syscalls δ}
  (hdiscreet : Discreet syscalls) {store : Store} (hrest : AtRest p store)
  (hlayout : Layout m store.arena.size p.stackBottom)
  (hps : store.programStack.toInt = store.arena.size)

include hm himage hcompiles hdiscreet hrest hlayout hps

theorem run_step_simulates {past : List (State δ Activation)} {s : State δ Native.Activation}
    {s' : State δ Activation} (hrun : Run p syscalls store past (.next s'))
    (hinside : ReachesInside p syscalls (.next s')) (h : StateAlike m s s') :
    dispatch? p syscalls s = dispatch? p syscalls s' ∧
      Simulates m p syscalls (Machine.step p syscalls s) (Machine.step p syscalls s') := by
  have hinvariant : Invariant m p past s' := run_keeps hm himage hrest hrun
  have hbalanced : Balanced m p.stackBottom store.arena.size past s' :=
    run_balanced hm himage hlayout hrest rfl hps hrun
  have hpower := hlayout.power
  have hbounded := hlayout.bounded
  rw [← hbalanced.arena] at hpower hbounded
  exact ⟨dispatch?_eq hm himage hcompiles hinvariant h,
    step_simulates hm himage hcompiles hinvariant h hdiscreet hpower hbounded
      (fun a service => hinside 0 s' a service rfl)⟩

omit hm himage hcompiles hdiscreet hrest hlayout hps in
theorem matched_of_simulates {n : Nat} {past : List (State δ Activation)}
    {t : Transition δ Native.Activation} {t' : Transition δ Activation}
    (hmatched : ∀ {past t t'}, Run p syscalls store past t' → ReachesInside p syscalls t' →
      TransitionAlike m t t' → Matched m p syscalls n t t')
    (hrun : Run p syscalls store past t') (hinside : ReachesInside p syscalls t')
    (h : Simulates m p syscalls t t') : Matched m p syscalls n t t' := by
  cases h with
  | now hnow => exact hmatched hrun hinside hnow
  | @soon s hquiet hsoon =>
      obtain ⟨k, hends, hlog⟩ := hmatched hrun.step hinside.step hsoon
      refine ⟨k + 1, hends, ?_⟩
      simp [dispatches, hquiet, hlog]

theorem run_of_compiled (n : Nat) {past : List (State δ Activation)}
    {t : Transition δ Native.Activation} {t' : Transition δ Activation}
    (hrun : Run p syscalls store past t') (hinside : ReachesInside p syscalls t')
    (h : TransitionAlike m t t') : Matched m p syscalls n t t' := by
  induction n generalizing past t t' with
  | zero => exact ⟨0, h, rfl⟩
  | succ n ih =>
      cases h with
      | done hstore data hresult => exact ⟨0, .done hstore data hresult, rfl⟩
      | crashed hstore data => exact ⟨0, .crashed hstore data, rfl⟩
      | next halike =>
          obtain ⟨hdispatch, hstep⟩ :=
            run_step_simulates hm himage hcompiles hdiscreet hrest hlayout hps hrun hinside halike
          obtain ⟨k, hends, hlog⟩ := matched_of_simulates ih hrun.step hinside.step hstep
          refine ⟨k + 1, hends, ?_⟩
          simp only [dispatches, hdispatch, hlog]

omit hm himage hcompiles hdiscreet hrest hlayout hps in
theorem attained_of_simulates {k : Nat} {past : List (State δ Activation)}
    {t : Transition δ Native.Activation} {t' : Transition δ Activation}
    (hattained : ∀ j, j ≤ k → ∀ {past t t'}, Run p syscalls store past t' →
      ReachesInside p syscalls t' → TransitionAlike m t t' → Attained m p syscalls j t t')
    (hrun : Run p syscalls store past t') (hinside : ReachesInside p syscalls t')
    (h : Simulates m p syscalls t t') : Attained m p syscalls k t t' := by
  cases h with
  | now hnow => exact hattained k (Nat.le_refl k) hrun hinside hnow
  | @soon s hquiet hsoon =>
      cases k with
      | zero => exact ⟨0, rfl, fun hover => absurd rfl (hover s)⟩
      | succ k =>
          obtain ⟨n, hlog, hends⟩ :=
            hattained k (Nat.le_succ k) hrun.step hinside.step hsoon
          refine ⟨n, ?_, hends⟩
          simp [dispatches, hquiet, hlog]

theorem run_of_interpreted (k : Nat) {past : List (State δ Activation)}
    {t : Transition δ Native.Activation} {t' : Transition δ Activation}
    (hrun : Run p syscalls store past t') (hinside : ReachesInside p syscalls t')
    (h : TransitionAlike m t t') : Attained m p syscalls k t t' := by
  -- A step of compiled code may take two of interpreted code.
  induction k using Nat.strongRecOn generalizing past t t' with
  | ind k ih =>
      cases k with
      | zero => exact ⟨0, rfl, fun _ => h⟩
      | succ k =>
          cases h with
          | done hstore data hresult => exact ⟨0, rfl, fun _ => .done hstore data hresult⟩
          | crashed hstore data => exact ⟨0, rfl, fun _ => .crashed hstore data⟩
          | next halike =>
              obtain ⟨hdispatch, hstep⟩ :=
                run_step_simulates hm himage hcompiles hdiscreet hrest hlayout hps hrun hinside
                  halike
              obtain ⟨n, hlog, hends⟩ := attained_of_simulates
                (fun j hj => ih j (Nat.lt_succ_of_le hj)) hrun.step hinside.step hstep
              refine ⟨n + 1, ?_, hends⟩
              simp only [dispatches, hdispatch, hlog]

end

/-! ### Calls of the host -/

/-- What becomes of an instance by what its machine has come to. -/
def concluded {α : Type} (i : Instance δ) : Transition δ α → Instance δ × CallResult
  | .next s => ({ i with store := s.store, data := s.data }, .unfinished)
  | .crashed store data => ({ i with store, data }, .crashed)
  | .done store data (.ok value) => ({ i with store, data }, .returned value)
  | .done store data (.error failure) => ({ i with store, data }, .failed failure)

theorem callWith_eq {α : Type} [Engine α] (i : Instance δ) (fuel : Nat) (args : List Word) :
    i.callWith α fuel args =
      concluded i (Machine.run i.program i.syscalls fuel (firstOf α i args)) := by
  obtain ⟨program, syscalls, compiled, store, data⟩ := i
  simp only [Instance.callWith, firstOf]
  generalize Machine.run (α := α) program syscalls fuel _ = t
  rcases t with s | ⟨store', data', value | failure⟩ | ⟨store', data'⟩ <;> rfl

theorem run_firstOf (i : Instance δ) (fuel : Nat) (args : List Word) :
    ∃ past, Run i.program i.syscalls i.store past
      (Machine.run i.program i.syscalls fuel (firstOf Activation i args)) := by
  have hstart : Run i.program i.syscalls i.store [] (firstOf Activation i args) :=
    .start i.data args
  exact hstart.iterate fuel

/-- An interpreted instance of the module `m` between two calls of the host. -/
structure Rested (m : Module) (i : Instance δ) : Prop where
  interpreted : i.compiled = false
  image : i.program.image = m
  rest : AtRest i.program i.store
  layout : Layout m i.store.arena.size i.program.stackBottom
  programStack : i.store.programStack.toInt = i.store.arena.size

/-- The compiled instance `i` and the interpreted instance `i'` of the module `m`
between two calls of the host. -/
structure Counterparts (m : Module) (i i' : Instance δ) : Prop extends Rested m i' where
  compiled : i.compiled = true
  program : i.program = i'.program
  syscalls : i.syscalls = i'.syscalls
  data : i.data = i'.data
  store : SameStore i.store i'.store

section

variable {m : Module} {i : Instance δ} (h : Rested m i) {args : List Word} {fuel : Nat}

include h

theorem Rested.call_eq : i.call fuel args =
    concluded i (Machine.run i.program i.syscalls fuel (firstOf Activation i args)) := by
  simp only [Instance.call, h.interpreted, Bool.false_eq_true, if_false, callWith_eq]

variable (hm : Sound m)

include hm

theorem Rested.next (hcrashed : (i.call fuel args).2 ≠ .crashed)
    (hover : (i.call fuel args).2 ≠ .unfinished) : Rested m (i.call fuel args).1 ∧
      (i.call fuel args).1.store.arena.size = i.store.arena.size := by
  obtain ⟨past, hrun⟩ := run_firstOf i fuel args
  have hkeeps := run_keeps hm h.image h.rest hrun
  have hbalanced := run_balanced hm h.image h.layout h.rest rfl h.programStack hrun
  rw [h.call_eq] at hcrashed hover ⊢
  generalize Machine.run i.program i.syscalls fuel (firstOf Activation i args) = t at *
  have hdone : ∀ {store : Store} (data : δ), AtRest i.program store →
      store.arena.size = i.store.arena.size →
      store.programStack.toInt = i.store.arena.size → Rested m { i with store, data } := by
    intro store data hrest harena hps
    exact ⟨h.interpreted, h.image, hrest, harena ▸ h.layout, harena ▸ hps⟩
  cases t with
  | next s => exact absurd rfl hover
  | crashed store data => exact absurd rfl hcrashed
  | done store data r =>
      obtain ⟨harena, hps⟩ := hbalanced
      cases r <;> exact ⟨hdone data hkeeps harena hps, harena⟩

end

section

variable {m : Module} {i i' : Instance δ} {args : List Word} {fuel fuel' : Nat}

/-- The calls have come to the same. -/
def CallsAlike (m : Module) (i i' : Instance δ) (args : List Word) (fuel fuel' : Nat) : Prop :=
  TransitionAlike m
      (Machine.run i.program i.syscalls fuel (firstOf Native.Activation i args))
      (Machine.run i'.program i'.syscalls fuel' (firstOf Activation i' args)) ∧
    dispatched i fuel args = dispatched i' fuel' args

variable (h : Counterparts m i i')

include h

theorem Counterparts.call_eq : i.call fuel args =
    concluded i (Machine.run i.program i.syscalls fuel (firstOf Native.Activation i args)) := by
  rw [Instance.call, if_pos h.compiled, callWith_eq]

theorem Counterparts.report_eq (hcalls : CallsAlike m i i' args fuel fuel') :
    report i fuel args = report i' fuel' args ∧
      ((i.call fuel args).2 = .crashed ↔ (i'.call fuel' args).2 = .crashed) ∧
      ((i.call fuel args).2 = .unfinished ↔ (i'.call fuel' args).2 = .unfinished) := by
  obtain ⟨halike, hlog⟩ := hcalls
  simp only [report, hlog, h.call_eq, h.toRested.call_eq]
  generalize Machine.run i.program i.syscalls fuel (firstOf Native.Activation i args) = t at *
  generalize Machine.run i'.program i'.syscalls fuel' (firstOf Activation i' args) = t' at *
  cases halike with
  | next hstate => simp [concluded, callResultWithoutPc, hstate.store.arena, hstate.data]
  | crashed hstore data => simp [concluded, callResultWithoutPc, hstore.arena]
  | @done store store' hstore data r r' hresult =>
      cases r with
      | ok value =>
          cases r' with
          | ok value' =>
              simp only [resultWithoutPc, Except.ok.injEq] at hresult
              simp [concluded, callResultWithoutPc, hstore.arena, hresult]
          | error failure' => simp [resultWithoutPc] at hresult
      | error failure =>
          cases r' with
          | ok value' => simp [resultWithoutPc] at hresult
          | error failure' =>
              simp only [resultWithoutPc, Except.error.injEq] at hresult
              simp [concluded, callResultWithoutPc, hstore.arena, hresult]

variable (hm : Sound m)

include hm

theorem Counterparts.next (hcalls : CallsAlike m i i' args fuel fuel')
    (hcrashed : (i'.call fuel' args).2 ≠ .crashed)
    (hover : (i'.call fuel' args).2 ≠ .unfinished) :
    Counterparts m (i.call fuel args).1 (i'.call fuel' args).1 := by
  have hrested := (h.toRested.next hm hcrashed hover).1
  obtain ⟨halike, -⟩ := hcalls
  rw [h.toRested.call_eq] at hcrashed hover hrested ⊢
  rw [h.call_eq]
  generalize Machine.run i.program i.syscalls fuel (firstOf Native.Activation i args) = t at *
  generalize Machine.run i'.program i'.syscalls fuel' (firstOf Activation i' args) = t' at *
  cases halike with
  | next hstate => exact absurd rfl hover
  | crashed hstore data => exact absurd rfl hcrashed
  | @done store store' hstore data r r' hresult =>
      cases r <;> cases r' <;> exact ⟨hrested, h.compiled, h.program, h.syscalls, rfl, hstore⟩

variable (hcompiles : Native.firstRefused? m = none) (hdiscreet : Discreet i'.syscalls)
  (hinside : ReachesInside i'.program i'.syscalls (firstOf Activation i' args))

omit hm in
theorem Counterparts.dispatched_eq : dispatched i fuel args =
    dispatches i'.program i'.syscalls fuel (firstOf Native.Activation i args) := by
  rw [dispatched, if_pos h.compiled, h.program, h.syscalls]

omit hm in
theorem Counterparts.dispatched_eq' : dispatched i' fuel args =
    dispatches i'.program i'.syscalls fuel (firstOf Activation i' args) := by
  simp only [dispatched, h.interpreted, Bool.false_eq_true, if_false]

include hdiscreet

theorem Counterparts.first_simulates : Simulates m i'.program i'.syscalls
    (firstOf Native.Activation i args) (firstOf Activation i' args) := by
  rw [firstOf, firstOf, h.program, h.syscalls, h.data]
  exact call_simulates hm h.image hdiscreet h.store .nil args

include hcompiles hinside

theorem Counterparts.exists_interpreted (fuel : Nat) :
    ∃ fuel', CallsAlike m i i' args fuel fuel' := by
  obtain ⟨fuel', halike, hlog⟩ := matched_of_simulates
    (run_of_compiled hm h.image hcompiles hdiscreet h.rest h.layout h.programStack fuel)
    (.start i'.data args) hinside (h.first_simulates hm hdiscreet)
  refine ⟨fuel', ?_, ?_⟩
  · rw [h.program, h.syscalls]
    exact halike
  · rw [h.dispatched_eq, h.dispatched_eq']
    exact hlog

theorem Counterparts.exists_compiled (fuel' : Nat) : ∃ fuel,
    dispatched i fuel args = dispatched i' fuel' args ∧
      ((i'.call fuel' args).2 ≠ .unfinished → CallsAlike m i i' args fuel fuel') := by
  obtain ⟨fuel, hlog, hends⟩ := attained_of_simulates
    (fun k _ => run_of_interpreted hm h.image hcompiles hdiscreet h.rest h.layout h.programStack k)
    (.start i'.data args) hinside (h.first_simulates hm hdiscreet)
  have hlog' : dispatched i fuel args = dispatched i' fuel' args := by
    rw [h.dispatched_eq, h.dispatched_eq']
    exact hlog
  refine ⟨fuel, hlog', fun hover => ⟨?_, hlog'⟩⟩
  rw [h.program, h.syscalls]
  refine hends fun s hnext => hover ?_
  rw [h.toRested.call_eq, firstOf, hnext]
  rfl

end

/-! ### Sessions -/

theorem call_syscalls (i : Instance δ) (fuel : Nat) (args : List Word) :
    (i.call fuel args).1.syscalls = i.syscalls := by
  have hconcluded : ∀ {α : Type} (t : Transition δ α), (concluded i t).1.syscalls = i.syscalls := by
    rintro α (s | ⟨store, data, value | failure⟩ | ⟨store, data⟩) <;> rfl
  unfold Instance.call
  split
  · rw [callWith_eq, hconcluded]
  · rw [callWith_eq, hconcluded]

section

variable {m : Module} (hm : Sound m) (hcompiles : Native.firstRefused? m = none)
  {i i' : Instance δ} {calls : List (List Word)} {reports : List (Report δ)}
  {pending : List Dispatch}

include hm hcompiles

theorem session_of_compiled (hsession : Session i calls reports pending)
    (h : Counterparts m i i') (hdiscreet : Discreet i'.syscalls)
    (hinside : StaysInArena i' calls) : Session i' calls reports pending := by
  induction hsession generalizing i' with
  | nil i => exact .nil i'
  | pending i args calls fuel =>
      obtain ⟨fuel', -, hlog⟩ := h.exists_interpreted hm hcompiles hdiscreet hinside.1 fuel
      rw [hlog]
      exact .pending i' args calls fuel'
  | @crashed i args calls fuel hcrashed =>
      obtain ⟨fuel', hcalls⟩ := h.exists_interpreted hm hcompiles hdiscreet hinside.1 fuel
      obtain ⟨hreport, hcrashed', -⟩ := h.report_eq hcalls
      rw [hreport]
      exact .crashed calls (hcrashed'.mp hcrashed)
  | @call i args calls fuel reports pending hcrashed hover hrest ih =>
      obtain ⟨fuel', hcalls⟩ := h.exists_interpreted hm hcompiles hdiscreet hinside.1 fuel
      obtain ⟨hreport, hcrashed', hover'⟩ := h.report_eq hcalls
      have hnext := h.next hm hcalls (mt hcrashed'.mpr hcrashed) (mt hover'.mpr hover)
      rw [hreport]
      refine .call (mt hcrashed'.mpr hcrashed) (mt hover'.mpr hover) (ih hnext ?_ ?_)
      · rw [call_syscalls]
        exact hdiscreet
      · exact hinside.2 fuel' (mt hcrashed'.mpr hcrashed) (mt hover'.mpr hover)

theorem session_of_interpreted (hsession : Session i' calls reports pending)
    (h : Counterparts m i i') (hdiscreet : Discreet i'.syscalls)
    (hinside : StaysInArena i' calls) : Session i calls reports pending := by
  induction hsession generalizing i with
  | nil i' => exact .nil i
  | pending i' args calls fuel' =>
      obtain ⟨fuel, hlog, -⟩ := h.exists_compiled hm hcompiles hdiscreet hinside.1 fuel'
      rw [← hlog]
      exact .pending i args calls fuel
  | @crashed i' args calls fuel' hcrashed =>
      obtain ⟨fuel, -, hcalls⟩ := h.exists_compiled hm hcompiles hdiscreet hinside.1 fuel'
      obtain ⟨hreport, hcrashed', -⟩ := h.report_eq (hcalls (by simp [hcrashed]))
      rw [← hreport]
      exact .crashed calls (hcrashed'.mpr hcrashed)
  | @call i' args calls fuel' reports pending hcrashed hover hrest ih =>
      obtain ⟨fuel, -, hcalls⟩ := h.exists_compiled hm hcompiles hdiscreet hinside.1 fuel'
      have hnext := h.next hm (hcalls hover) hcrashed hover
      obtain ⟨hreport, hcrashed', hover'⟩ := h.report_eq (hcalls hover)
      rw [← hreport]
      refine .call (mt hcrashed'.mp hcrashed) (mt hover'.mp hover) (ih hnext ?_ ?_)
      · rw [call_syscalls]
        exact hdiscreet
      · exact hinside.2 fuel' hcrashed hover

end

theorem counterparts_of_create {name : String} {image : Image} {m : Module}
    {canCompile canCompile' : Bool} (settings : Settings) (strategy strategy' : Strategy)
    {syscalls : Syscalls δ} {data : δ} {journal journal' : Journal} {i i' : Instance δ}
    (hload : Module.load name image = .ok m)
    (hcreate : Instance.create canCompile { settings with strategy } m syscalls data journal =
      .ok i)
    (hcompiled : i.compiled = true)
    (hcreate' : Instance.create canCompile' { settings with strategy := strategy' } m syscalls
      data journal' = .ok i')
    (hinterpreted : i'.compiled = false) : Counterparts m i i' := by
  obtain ⟨hprogram, hsyscalls, hps, -⟩ := create_eq_ok hcreate
  obtain ⟨hprogram', hsyscalls', hps', hrest'⟩ := create_eq_ok hcreate'
  obtain ⟨hlayout, hstack⟩ := layout_of_create hload hcreate'
  have hsame : i.data = i'.data ∧ SameStore i.store i'.store := by
    simp only [Instance.create] at hcreate hcreate'
    split at hcreate
    · cases hcreate
    · rename_i trace htrace
      simp only [htrace] at hcreate'
      obtain rfl := Except.ok.inj hcreate
      obtain rfl := Except.ok.inj hcreate'
      exact ⟨rfl, rfl, rfl, rfl, rfl⟩
  exact ⟨⟨hinterpreted, by rw [hprogram'], hrest', hlayout, hstack⟩, hcompiled,
    by rw [hprogram, hprogram'], by rw [hsyscalls, hsyscalls'], hsame.1, hsame.2⟩

/-- Compiled and interpreted instances of a module that compiles, with the same host
data, are the same to a host whose services are discreet and stay inside the arena. -/
theorem backends_equivalent {name : String} {image : Image} {m : Module}
    {canCompile canCompile' : Bool} (settings : Settings) (strategy strategy' : Strategy)
    {syscalls : Syscalls δ} {data : δ} {journal journal' : Journal} {i i' : Instance δ}
    (hload : Module.load name image = .ok m)
    (hcreate : Instance.create canCompile { settings with strategy } m syscalls data journal =
      .ok i)
    (hcompiled : i.compiled = true)
    (hcreate' : Instance.create canCompile' { settings with strategy := strategy' } m syscalls
      data journal' = .ok i')
    (hinterpreted : i'.compiled = false) (hdiscreet : Discreet syscalls)
    {calls : List (List Word)} (hinside : StaysInArena i' calls) (reports : List (Report δ))
    (pending : List Dispatch) :
    Session i calls reports pending ↔ Session i' calls reports pending := by
  have hm := sound_of_load hload
  have hcompiles := firstRefused?_of_compiled hcreate hcompiled
  have h := counterparts_of_create settings strategy strategy' hload hcreate hcompiled hcreate'
    hinterpreted
  rw [← (create_eq_ok hcreate').2.1] at hdiscreet
  constructor
  · intro hsession
    exact session_of_compiled hm hcompiles hsession h hdiscreet hinside
  · intro hsession
    exact session_of_interpreted hm hcompiles hsession h hdiscreet hinside

theorem staysInArena_of_within {m : Module} (hm : Sound m) {i : Instance δ} (h : Rested m i)
    (hsyscalls : ∀ id syscall, i.syscalls.find? id = some syscall →
      ∀ args, Within i.store.arena.size (syscall.service args))
    (calls : List (List Word)) : StaysInArena i calls := by
  induction calls generalizing i with
  | nil => exact True.intro
  | cons args calls ih =>
      constructor
      · intro fuel s a service hnext hcontrol
        obtain ⟨past, hrun⟩ := run_firstOf i fuel args
        have hbalanced := run_balanced hm h.image h.layout h.rest rfl h.programStack hrun
        have hfirst : StaysWithin i.store.arena.size (firstOf Activation i args) :=
          call_within (by simp) hsyscalls i.store args
        have hwithin : StaysWithin i.store.arena.size
            (Machine.run i.program i.syscalls fuel (firstOf Activation i args)) :=
          run_within hsyscalls hfirst fuel
        rw [hnext] at hbalanced hwithin
        refine inArena_of_within ?_
        rw [hbalanced.arena]
        exact hwithin.serving a service hcontrol
      · intro fuel hcrashed hover
        obtain ⟨hnext, hsize⟩ := h.next hm hcrashed hover
        refine ih hnext ?_
        rw [call_syscalls, hsize]
        exact hsyscalls

/-- A service that reads the first word of the arena and calls the module again if
that fails. -/
def lookupService : Service Unit Word :=
  .read 0 4 fun
    | .ok _ => .result 1
    | .error _ => .reenter [7] fun
      | .ok value => .result value
      | .error failure => .fail failure

def lookupSyscalls : Syscalls Unit where
  entries := [⟨0, "lookup", 0, fun _ => lookupService⟩]

theorem twin_lookupService : Twin lookupService lookupService := by
  refine .read 0 4 ?_
  rintro (e | bytes)
  · refine .reenter [7] ?_
    rintro (failure | value) (failure' | value') hresult
    · exact .fail (Except.error.inj hresult)
    · cases hresult
    · cases hresult
    · obtain rfl := Except.ok.inj hresult
      exact .result value
  · exact .result 1

theorem within_lookupService {size : Nat} (h : 0 < size) : Within size lookupService := by
  refine ⟨h, ?_⟩
  rintro (e | bytes)
  · rintro (failure | value) <;> exact True.intro
  · exact True.intro

theorem find?_lookupSyscalls {id : UInt32} {syscall : Syscall Unit}
    (h : lookupSyscalls.find? id = some syscall) (args : List Word) :
    syscall.service args = lookupService := by
  have hmem := List.mem_of_find?_eq_some h
  simp only [lookupSyscalls, List.mem_singleton] at hmem
  rw [hmem]

theorem backends_equivalent_asking : ∃ i i' : Instance Unit,
    Instance.create true { strategy := .native } askingModule lookupSyscalls () {} = .ok i ∧
    i.compiled = true ∧
    Instance.create true { strategy := .interpreter } askingModule lookupSyscalls () {} = .ok i' ∧
    i'.compiled = false ∧ Discreet lookupSyscalls ∧
    ∀ calls, StaysInArena i' calls ∧ ∀ reports pending,
      Session i calls reports pending ↔ Session i' calls reports pending := by
  obtain ⟨i, hcreate⟩ := exists_create true { strategy := .native } askingModule lookupSyscalls ()
    {} (by decide)
  obtain ⟨i', hcreate'⟩ := exists_create true { strategy := .interpreter } askingModule
    lookupSyscalls () {} (by decide)
  have hcompiled : i.compiled = true := by
    obtain rfl := Except.ok.inj hcreate
    rfl
  have hinterpreted : i'.compiled = false := by
    obtain rfl := Except.ok.inj hcreate'
    rfl
  have hdiscreet : Discreet lookupSyscalls := by
    intro id syscall hfound args
    rw [find?_lookupSyscalls hfound]
    exact twin_lookupService
  have h := counterparts_of_create {} .native .interpreter load_asking hcreate hcompiled hcreate'
    hinterpreted
  refine ⟨i, i', hcreate, hcompiled, hcreate', hinterpreted, hdiscreet, fun calls => ?_⟩
  have hinside : StaysInArena i' calls := by
    refine staysInArena_of_within (sound_of_load load_asking) h.toRested ?_ calls
    intro id syscall hfound args
    rw [(create_eq_ok hcreate').2.1] at hfound
    rw [find?_lookupSyscalls hfound]
    have hfits := h.layout.fits
    simp only [programStackSize] at hfits
    exact within_lookupService (by omega)
  exact ⟨hinside, backends_equivalent {} .native .interpreter load_asking hcreate hcompiled hcreate'
    hinterpreted hdiscreet hinside⟩

end SandboxVm.Proofs.BackendEquivalence
