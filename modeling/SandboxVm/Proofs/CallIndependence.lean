import SandboxVm.Proofs.BackendEquivalence
import SandboxVm.Proofs.MachineAgreement

namespace SandboxVm.Proofs.CallIndependence

open SandboxVm.Interpreter
open SandboxVm.Proofs.LoadedModule
open SandboxVm.Proofs.CallRecord
open SandboxVm.Proofs.EngineTrace
open SandboxVm.Proofs.CallNesting
open SandboxVm.Proofs.InterpretedInstruction
open SandboxVm.Proofs.MachineRun
open SandboxVm.Proofs.FrameStack
open SandboxVm.Proofs.RunInvariant
open SandboxVm.Proofs.EntryCall
open SandboxVm.Proofs.CallBracket
open SandboxVm.Proofs.Observation
open SandboxVm.Proofs.HostSights
open SandboxVm.Proofs.StoreAgreement
open SandboxVm.Proofs.MachineAgreement
open SandboxVm.Proofs.BackendEquivalence
  (concluded callWith_eq)

variable {δ : Type}

/-- A store whose record of calls has another depth before its latest change. -/
def withPast (depth : Nat) (s : Store) : Store :=
  { s with trace := { s.trace with previousDepth := depth } }

inductive EndsAlike : Transition δ Activation → Transition δ Activation → Prop where
  | same (t : Transition δ Activation) : EndsAlike t t
  | done {f u : Store} {data : δ} {result : Except Failure Word} (harena : u.arena = f.arena)
      (hbreakpoints : u.breakpoints = f.breakpoints) :
      EndsAlike (.done f data result) (.done u data result)

theorem matched_of_endsAlike {extra : Nat} {t t' t'' : Transition δ Activation}
    (h : Matched extra t t') (hends : EndsAlike t' t'') : Matched extra t t'' := by
  cases hends with
  | same => exact h
  | done harena' hbreakpoints' =>
      cases h with
      | done harena hbreakpoints =>
          exact .done (harena'.trans harena) (hbreakpoints'.trans hbreakpoints)

section

variable {p : Program} {syscalls : Syscalls δ} {data : δ} {b : Bracket}

theorem writeWords_past (depth : Nat) (s : Store) (addr : Word) (words : List Word) :
    (withPast depth s).writeWords addr words = withPast depth (s.writeWords addr words) := by
  induction words generalizing s addr with
  | nil => rfl
  | cons w words ih =>
      have hwrite : (withPast depth s).write .four addr w =
          withPast depth (s.write .four addr w) := by simp only [withPast, Store.write]
      simp only [Store.writeWords, hwrite, ih]

theorem start_past (p : Program) (depth : Nat) (s : Store) (frame : Word) :
    start p (withPast depth s) frame = start p s frame ∨
    ∃ a t, start p s frame = (s, .trap a t) ∧
      start p (withPast depth s) frame = (withPast depth s, .trap a t) := by
  have hdepth : (withPast depth s).trace.depth = s.trace.depth := rfl
  unfold start enterProcedure Store.enterCall?
  rw [hdepth]
  split
  · exact Or.inr ⟨_, _, rfl, rfl⟩
  · by_cases hlimit : p.maxCallDepth ≤ s.trace.depth
    · simp only [if_pos hlimit]
      exact Or.inr ⟨_, _, rfl, rfl⟩
    · simp only [if_neg hlimit]
      exact Or.inl rfl

theorem trap_past (depth : Nat) (s : Store) (a : Activation) (t : Trap) :
    EndsAlike (Machine.perform p syscalls data b [] s (.trap a t))
      (Machine.perform p syscalls data b [] (withPast depth s) (.trap a t)) := by
  obtain ⟨journal, hs⟩ := note_eq s .debug fun _ =>
    p.image.name ++ ": " ++ t.message ++ " at instruction " ++ toString a.pc
  obtain ⟨journal', hs'⟩ := note_eq (withPast depth s) .debug fun _ =>
    p.image.name ++ ": " ++ t.message ++ " at instruction " ++ toString a.pc
  simp only [Machine.perform, Engine.trapped, trapped, hs, hs']
  exact .done rfl rfl

theorem entry_past (depth : Nat) (s : Store) (frame : Word) :
    EndsAlike
      (Machine.perform p syscalls data b [] (start p s frame).1 (start p s frame).2)
      (Machine.perform p syscalls data b [] (start p (withPast depth s) frame).1
        (start p (withPast depth s) frame).2) := by
  rcases start_past p depth s frame with heq | ⟨a, t, heq, heq'⟩
  · rw [heq]
    exact .same _
  · rw [heq, heq']
    exact trap_past depth s a t

theorem call_past (depth : Nat) (s : Store) (args : List Word) :
    EndsAlike (Machine.call p syscalls s data [] args)
      (Machine.call p syscalls (withPast depth s) data [] args) := by
  have hentered : { withPast depth s with callLevel := (withPast depth s).callLevel + 1 } =
      withPast depth { s with callLevel := s.callLevel + 1 } := rfl
  have hbracket : (withPast depth s).bracket = s.bracket := rfl
  have hstack : ∀ s, (withPast depth s).programStack = s.programStack := fun _ => rfl
  unfold Machine.call
  split
  · exact .done rfl rfl
  · simp only [hentered]
    simp only [hbracket, hstack, writeWords_past]
    split
    · exact .done rfl rfl
    · exact entry_past ..

end

/-- The instance `i` with the memory and the host data of `i'`. -/
def withMemoryOf (i i' : Instance δ) : Instance δ :=
  { i with store := { i.store with arena := i'.store.arena }, data := i'.data }

/-- The same call of both instances cannot be told apart: the results are the same, so are
memory and host data after it, what host services are shown, and how many breakpoints
are passed. -/
structure SameCall (i i' : Instance δ) (fuel : Nat) (args : List Word) : Prop where
  result : (i'.call fuel args).2 = (i.call fuel args).2
  arena : (i'.call fuel args).1.store.arena = (i.call fuel args).1.store.arena
  data : (i'.call fuel args).1.data = (i.call fuel args).1.data
  shown : shown i' fuel args = shown i fuel args
  breakpoints : ∃ n, (i.call fuel args).1.store.breakpoints = i.store.breakpoints + n ∧
    (i'.call fuel args).1.store.breakpoints = i'.store.breakpoints + n

/-- Between the calls of the host, the store of an interpreted instance says that no call
is in progress and has its program stack where it was. -/
structure Settled (p : Program) (capacity : Nat) (programStack : Word) (store : Store) : Prop
    extends AtRest p store where
  records : Records store.trace capacity []
  callLevel : store.callLevel = 0
  programStack : store.programStack = programStack

theorem concluded_matched {extra : Nat} {t t' : Transition δ Activation} (h : Matched extra t t')
    (i i' : Instance δ) :
    (concluded i' t').2 = (concluded i t).2 ∧
      (concluded i' t').1.store.arena = (concluded i t).1.store.arena ∧
      (concluded i' t').1.data = (concluded i t).1.data ∧
      (concluded i' t').1.store.breakpoints = (concluded i t).1.store.breakpoints + extra := by
  cases h with
  | next h => exact ⟨rfl, h.arena, rfl, h.breakpoints⟩
  | @done f u data result harena hbreakpoints =>
      cases result with
      | ok value => exact ⟨rfl, harena, rfl, hbreakpoints⟩
      | error failure => exact ⟨rfl, harena, rfl, hbreakpoints⟩
  | crashed harena hbreakpoints => exact ⟨rfl, harena, rfl, hbreakpoints⟩

theorem sameCall_of_matched {i i' : Instance δ} {fuel : Nat} {args : List Word}
    (hinterpreted : i.compiled = false) (hinterpreted' : i'.compiled = false)
    (hnone : i.store.breakpoints = 0)
    (h : Matched i'.store.breakpoints
      (Machine.run i.program i.syscalls fuel (firstOf Activation i args))
      (Machine.run i'.program i'.syscalls fuel (firstOf Activation i' args)))
    (hsights : sightsIn i'.program i'.syscalls fuel (firstOf Activation i' args) =
      sightsIn i.program i.syscalls fuel (firstOf Activation i args)) :
    SameCall i i' fuel args := by
  have hcall : ∀ {i : Instance δ}, i.compiled = false → i.call fuel args =
      concluded i (Machine.run i.program i.syscalls fuel (firstOf Activation i args)) := by
    intro i hinterpreted
    simp only [Instance.call, hinterpreted, ← callWith_eq, Bool.false_eq_true, if_false]
  obtain ⟨hresult, harena, hdata, hbreakpoints⟩ := concluded_matched h i i'
  rw [← hcall hinterpreted, ← hcall hinterpreted'] at hresult harena hdata hbreakpoints
  refine ⟨hresult, harena, hdata, ?_, (i.call fuel args).1.store.breakpoints, ?_, ?_⟩
  · simp only [shown, hinterpreted, hinterpreted', Bool.false_eq_true, if_false, hsights]
  · rw [hnone, Nat.zero_add]
  · rw [hbreakpoints, Nat.add_comm]

theorem first_matched {p : Program} {capacity : Nat} {programStack : Word} {f u : Store}
    (hf : Settled p capacity programStack f) (hu : Settled p capacity programStack u)
    (harena : u.arena = f.arena) (hnone : f.breakpoints = 0) (syscalls : Syscalls δ) (data : δ)
    (args : List Word) :
    Matched u.breakpoints (Machine.call p syscalls f data [] args)
      (Machine.call p syscalls u data [] args) := by
  have hpast : u = withPast u.trace.previousDepth { u with trace := f.trace } := by
    simp only [withPast]
    rw [← hf.records.eq hu.records]
  have hagrees : Agrees f.operandTop u.breakpoints f { u with trace := f.trace } := by
    refine ⟨?_, ?_, ?_⟩
    · simp only [hnone, Nat.zero_add, harena, hf.programStack, hu.programStack, hf.callLevel,
        hu.callLevel, hf.operandTop, hu.operandTop]
    · exact hu.size.trans hf.size.symm
    · intro slot hslot
      rw [hf.operandTop] at hslot
      exact absurd hslot (Nat.not_lt_zero slot)
  have hmatched : Matched u.breakpoints (Machine.call p syscalls f data [] args)
      (Machine.call p syscalls { u with trace := f.trace } data [] args) :=
    call_matched hagrees (above_nil _) args
  have hends : EndsAlike (Machine.call p syscalls { u with trace := f.trace } data [] args)
      (Machine.call p syscalls (withPast u.trace.previousDepth { u with trace := f.trace }) data []
        args) := call_past u.trace.previousDepth { u with trace := f.trace } args
  rw [← hpast] at hends
  exact matched_of_endsAlike hmatched hends

section

variable {canCompile : Bool} {settings : Settings} {m : Module} {syscalls : Syscalls δ} {data : δ}
  {journal : Journal} {i : Instance δ}

theorem create_new (h : Instance.create canCompile settings m syscalls data journal = .ok i) :
    i.compiled = (Instance.chooseBackend canCompile settings m).compiled ∧
      i.store.breakpoints = 0 := by
  simp only [Instance.create] at h
  split at h
  · cases h
  · obtain rfl := Except.ok.inj h
    exact ⟨rfl, rfl⟩

theorem create_settled
    (h : Instance.create canCompile settings m syscalls data journal = .ok i) :
    Settled i.program settings.callTraceCapacity (Int32.ofNat (Arena.ofModule m).size) i.store := by
  obtain ⟨-, -, hstack, hrest⟩ := create_eq_ok h
  have hidle := create_idle (α := Activation) h
  exact ⟨hrest, hidle.records, hidle.callLevel, hstack⟩

theorem atRest_of_callSite {p : Program} {store₀ store : Store} {args : List Word}
    (hm : Sound m) (himage : p.image = m) (hrest : AtRest p store₀)
    (h : CallSite (α := Activation) p syscalls store₀ store data [] args) : AtRest p store := by
  generalize houter : ([] : List (Suspended δ Activation)) = outer at h
  cases h with
  | first => exact hrest
  | again h =>
      obtain ⟨past, hrun⟩ := run_of_reached h
      exact run_keeps hm himage hrest hrun
  | nested h hcontrol => cases houter

theorem Used.programStack (hm : Sound m)
    (hcreate : Instance.create canCompile settings m syscalls data journal = .ok i)
    {i' : Instance δ} (h : Used i i') : i'.store.programStack = i.store.programStack := by
  obtain ⟨hprogram, -, -, hrest⟩ := create_eq_ok hcreate
  have himage : i.program.image = m := by rw [hprogram]
  have hinterpreted : Brackets Activation i.program i.syscalls i.store :=
    interpreter_brackets hm himage hrest (create_idle hcreate)
  have hnative : Brackets Native.Activation i.program i.syscalls i.store :=
    native_brackets (create_idle hcreate)
  induction h with
  | new => rfl
  | call h hcall hover ih =>
      exact (h.restored hcall hover hinterpreted hnative).2.programStack.trans ih
  | edit h data ih => exact ih

theorem Used.settled (hm : Sound m)
    (hcreate : Instance.create canCompile settings m syscalls data journal = .ok i)
    (hcompiled : i.compiled = false) {i' : Instance δ} (h : Used i i') :
    i'.program = i.program ∧ i'.syscalls = i.syscalls ∧ i'.compiled = false ∧
      Settled i.program settings.callTraceCapacity (Int32.ofNat (Arena.ofModule m).size)
        i'.store := by
  obtain ⟨hprogram, -, hstack, hrest⟩ := create_eq_ok hcreate
  have himage : i.program.image = m := by rw [hprogram]
  have hcontinues : Continues Activation i i' := by simpa [hcompiled] using h.continues
  have hsite := hcontinues.site i'.data []
  obtain ⟨-, hidle⟩ := hsite.idle (create_idle hcreate)
  refine ⟨hcontinues.program, hcontinues.syscalls, hcontinues.compiled.trans hcompiled, ?_⟩
  exact ⟨atRest_of_callSite hm himage hrest hsite, hidle.records, hidle.callLevel,
    (Used.programStack hm hcreate h).trans hstack⟩

end

theorem asking_run {p : Program} {s : State Unit Activation} {ps : Word} {frames : List Frame}
    (himage : p.image = askingModule) (hcontrol : s.control = .running ⟨0, ps, 0, frames⟩)
    (houter : s.outer = []) (hslots : 0 < s.store.operands.size)
    (hframe : ¬ ps - 8 < p.stackBottom) :
    ∃ store failure, Machine.run p {} 3 (.next s) = .done store s.data (.error failure) ∧
      store.operand? 0 = some (-1) := by
  obtain ⟨s₁, s₂, store, hfirst, -, hsecond, hstays, hcontrol₂, hask, hasking⟩ :=
    asking_asks {} himage hcontrol hslots hframe
  obtain ⟨failure, hthird⟩ : ∃ failure : Failure, Machine.step p {} s₂ =
      .done (store.conclude s.bracket) s.data (.error failure) := by
    have hnone : ({} : Syscalls Unit).find? 0 = none := rfl
    rw [step_of_running p {} hcontrol₂, hask, hstays.data, hstays.bracket, hstays.outer, houter]
    simp only [Machine.perform, hnone]
    exact ⟨_, rfl⟩
  refine ⟨store.conclude s.bracket, failure, ?_, hasking.target⟩
  rw [Machine.run, hfirst, Machine.run, hsecond, Machine.run, hthird]
  rfl

theorem asking_fails : ∃ (i : Instance Unit) (store : Store) (failure : Failure),
    Instance.create false {} askingModule {} () {} = .ok i ∧ i.compiled = false ∧
    i.call 3 [] = ({ i with store }, .failed failure) ∧
    i.store.operand? 0 = some 0 ∧ store.operand? 0 = some (-1) := by
  obtain ⟨i, hcreate⟩ := exists_create false {} askingModule ({} : Syscalls Unit) () {} (by decide)
  have hinterpreted : i.compiled = false ∧ i.store.operand? 0 = some 0 := by
    obtain rfl := Except.ok.inj hcreate
    exact ⟨rfl, by simp [Store.operand?, maxOperandSlots]⟩
  obtain ⟨hcompiled, hzero⟩ := hinterpreted
  obtain ⟨hprogram, hsyscalls, -, -⟩ := create_eq_ok hcreate
  have himage : i.program.image = askingModule := by rw [hprogram]
  obtain ⟨s, ps, frames, hfirst, hcontrol, houter, hslots, hframe⟩ :=
    asking_entered hcreate (by decide)
  obtain ⟨store, failure, hends, htop⟩ := asking_run himage hcontrol houter hslots hframe
  rw [hsyscalls] at hfirst
  have hfails : i.call 3 [] = ({ i with store }, .failed failure) := by
    simp only [Instance.call, hcompiled, Bool.false_eq_true, if_false, callWith_eq, firstOf,
      hfirst, hsyscalls, hends, concluded]
  exact ⟨i, store, failure, hcreate, hcompiled, hfails, hzero, htop⟩

/-- A call of an interpreted instance that was used before is the same as that call of a
new instance with the memory and the host data of the old one. -/
theorem call_independent {name : String} {image : Image} {m : Module} {canCompile : Bool}
    {settings : Settings} {syscalls : Syscalls δ} {data newData : δ} {journal newJournal : Journal}
    {i i' new : Instance δ} (hload : Module.load name image = .ok m)
    (hcreate : Instance.create canCompile settings m syscalls data journal = .ok i)
    (hcompiled : i.compiled = false) (hused : Used i i')
    (hnew : Instance.create canCompile settings m syscalls newData newJournal = .ok new)
    (fuel : Nat) (args : List Word) : SameCall (withMemoryOf new i') i' fuel args := by
  have hm := sound_of_load hload
  obtain ⟨hprogram, hsyscalls, -, -⟩ := create_eq_ok hcreate
  obtain ⟨hprogram', hsyscalls', -, -⟩ := create_eq_ok hnew
  have himage : i.program.image = m := by rw [hprogram]
  have hp : (withMemoryOf new i').program = i.program := hprogram'.trans hprogram.symm
  have hs : (withMemoryOf new i').syscalls = i.syscalls := hsyscalls'.trans hsyscalls.symm
  obtain ⟨hbackend, hnone⟩ := create_new hnew
  have hinterpreted : (withMemoryOf new i').compiled = false :=
    hbackend.trans ((create_new hcreate).1.symm.trans hcompiled)
  obtain ⟨hp', hs', hinterpreted', hsettled'⟩ := Used.settled hm hcreate hcompiled hused
  have hsettled : Settled i.program settings.callTraceCapacity
      (Int32.ofNat (Arena.ofModule m).size) (withMemoryOf new i').store := by
    obtain ⟨hrest, hrecords, hlevel, hstack⟩ := create_settled hnew
    rw [show new.program = i.program from hp] at hrest
    exact ⟨⟨⟨hrest.size, hrest.depth_le⟩, hrest.depth, hrest.operandTop⟩, hrecords, hlevel, hstack⟩
  have hfirst : Matched i'.store.breakpoints (firstOf Activation (withMemoryOf new i') args)
      (firstOf Activation i' args) := by
    rw [firstOf, firstOf, hp, hs, hp', hs']
    exact first_matched hsettled hsettled' rfl hnone i.syscalls i'.data args
  have hkeeps : Keeps m i.program [] (firstOf Activation (withMemoryOf new i') args) := by
    have hrun : Run (withMemoryOf new i').program (withMemoryOf new i').syscalls
        (withMemoryOf new i').store [] (firstOf Activation (withMemoryOf new i') args) :=
      .start i'.data args
    rw [hp] at hrun
    exact run_keeps hm himage hsettled.toAtRest hrun
  obtain ⟨hends, hsights⟩ := run_matched hm himage hkeeps hfirst fuel
  refine sameCall_of_matched hinterpreted hinterpreted' hnone ?_ ?_
  · rw [hp, hs, hp', hs']
    exact hends
  · rw [hp, hs, hp', hs']
    exact hsights

theorem call_independent_asking : ∃ (i i' : Instance Unit) (failure : Failure),
    Module.load "asking" askingDraft.build = .ok askingModule ∧
    Instance.create false {} askingModule {} () {} = .ok i ∧ i.compiled = false ∧
    i.call 3 [] = (i', .failed failure) ∧ Used i i' ∧
    i.store.operand? 0 ≠ i'.store.operand? 0 ∧
    ∀ fuel args, SameCall (withMemoryOf i i') i' fuel args := by
  obtain ⟨i, store, failure, hcreate, hcompiled, hfails, hzero, htop⟩ := asking_fails
  have hused : Used i { i with store } := .call .new hfails True.intro
  refine ⟨i, _, failure, load_asking, hcreate, hcompiled, hfails, hused, ?_, ?_⟩
  · rw [hzero, htop]
    decide
  · exact call_independent load_asking hcreate hcompiled hused hcreate

end SandboxVm.Proofs.CallIndependence
