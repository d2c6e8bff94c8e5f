import SandboxVm.Proofs.CallBracket

namespace SandboxVm.Proofs.TraceImage

open SandboxVm.Proofs.LoadedModule
open SandboxVm.Proofs.CallRecord
open SandboxVm.Proofs.EngineTrace
open SandboxVm.Proofs.CallNesting
open SandboxVm.Proofs.MachineRun
open SandboxVm.Proofs.RunInvariant
open SandboxVm.Proofs.ArenaLayout
open SandboxVm.Proofs.EntryCall
open SandboxVm.Proofs.CallBracket

variable {δ α : Type}

inductive TraceChange where
  | push (procedure : Nat)
  | pop
  | truncate (depth : Nat)

namespace TraceChange

def applyTo (t : CallTrace) : TraceChange → CallTrace
  | push procedure => t.push procedure
  | pop => t.pop
  | truncate depth => t.truncate depth

/-- The same change of a stack without bound, whose innermost procedure is the last. -/
def onStack (stack : List Nat) : TraceChange → List Nat
  | push procedure => stack ++ [procedure]
  | pop => stack.dropLast
  | truncate depth => stack.take depth

end TraceChange

/-- After any changes the trace is that of the stack, and neither a return from no
procedure nor a cut that keeps the depth changes it. -/
structure FollowsStack (capacity : Nat) (t : CallTrace) (stack : List Nat) : Prop where
  records : Records t capacity stack
  pop_empty : stack = [] → t.pop = t
  truncate_ge : ∀ depth, stack.length ≤ depth → t.truncate depth = t

theorem Records.applyTo {t : CallTrace} {capacity : Nat} {stack : List Nat}
    (h : Records t capacity stack) (change : TraceChange) :
    Records (change.applyTo t) capacity (change.onStack stack) := by
  cases change with
  | push procedure => exact h.push procedure
  | pop => exact h.pop
  | truncate depth => exact h.truncate depth

theorem Records.foldl {t : CallTrace} {capacity : Nat} {stack : List Nat}
    (h : Records t capacity stack) (changes : List TraceChange) :
    Records (changes.foldl TraceChange.applyTo t) capacity
      (changes.foldl TraceChange.onStack stack) := by
  induction changes generalizing t stack with
  | nil => exact h
  | cons change changes ih => exact ih (Records.applyTo h change)

theorem truncate_eq_self {t : CallTrace} {depth : Nat} (h : t.depth ≤ depth) :
    t.truncate depth = t :=
  if_neg (Nat.not_lt.mpr h)

theorem followsStack_of_records {t : CallTrace} {capacity : Nat} {stack : List Nat}
    (h : Records t capacity stack) : FollowsStack capacity t stack := by
  refine ⟨h, ?_, ?_⟩
  · rintro rfl
    have hdepth : t.depth = 0 := h.depth
    exact truncate_eq_self (by omega)
  · intro depth hdepth
    exact truncate_eq_self (by rw [h.depth]; exact hdepth)

/-- The procedures in progress in the code of some calls, outermost first. -/
def liveProcedures (calls : List Activation) : List Procedure :=
  calls.flatMap fun a => (a.frames.map (·.procedure)).reverse

/-- The code of all calls in progress, outermost first. -/
def callsInProgress (s : State δ Activation) : List Activation :=
  (s.outer.map (·.activation)).reverse ++ [innermost s]

/-- The store says that the code of the calls in progress is `calls`: the trace counts
all their procedures and names as many as it has room for, and there are at most as
many calls as it counts, but for one that no procedure has been entered in. -/
structure Mirrors (capacity limit : Nat) (calls : List Activation) (store : Store) : Prop where
  depth : store.trace.depth = (calls.map (·.frames.length)).sum
  depth_le : store.trace.depth ≤ limit
  entries : store.trace.entries.toList =
    ((liveProcedures calls).map (·.start)).take (min store.trace.depth capacity)
  callLevel_le : store.callLevel ≤ store.trace.depth + 1

theorem length_liveProcedures (calls : List Activation) :
    (liveProcedures calls).length = (calls.map (·.frames.length)).sum := by
  simp [liveProcedures, List.length_flatMap]

theorem liveProcedures_append (calls calls' : List Activation) :
    liveProcedures (calls ++ calls') = liveProcedures calls ++ liveProcedures calls' :=
  List.flatMap_append

theorem starts_eq_map (a : Activation) :
    Traced.starts a = (liveProcedures [a]).map (·.start) := by
  simp [Traced.starts, Interpreted.starts, liveProcedures]

theorem stackOf_eq_map (outer : List (Suspended δ Activation)) :
    stackOf outer = (liveProcedures (outer.map (·.activation)).reverse).map (·.start) := by
  induction outer with
  | nil => rfl
  | cons w outer ih =>
      rw [stackOf, ih, starts_eq_map, List.map_cons, List.reverse_cons, liveProcedures_append,
        List.map_append]

theorem innermost_eq_codeOf (s : State δ Activation) : innermost s = codeOf s.control := by
  unfold innermost codeOf
  cases s.control <;> rfl

theorem starts_inProgress (s : State δ Activation) :
    (liveProcedures (callsInProgress s)).map (·.start) =
      stackOf s.outer ++ Traced.starts (codeOf s.control) := by
  rw [callsInProgress, liveProcedures_append, List.map_append, stackOf_eq_map, starts_eq_map,
    innermost_eq_codeOf]

theorem length_starts_pos {a : Activation} (h : Traced.Valid a) : 0 < (Traced.starts a).length := by
  have hchained : Interpreted.Chained a.frames := h
  rcases hframes : a.frames with _ | ⟨frame, frames⟩
  · rw [hframes] at hchained
    exact hchained.elim
  · simp [Traced.starts, Interpreted.starts, hframes]

/-- Every call that waits has a procedure in progress. -/
theorem length_le_stackOf {b : Bracket} {outer : List (Suspended δ Activation)}
    (h : Nested b outer) : outer.length ≤ (stackOf outer).length := by
  induction outer generalizing b with
  | nil => exact Nat.le_refl _
  | cons w outer ih =>
      obtain ⟨-, hvalid, hrest⟩ := h
      have := ih hrest
      have := length_starts_pos hvalid
      simp only [stackOf, List.length_append, List.length_cons]
      omega

theorem mirrors_of_records {capacity limit : Nat} {calls : List Activation} {store : Store}
    (h : Records store.trace capacity ((liveProcedures calls).map (·.start)))
    (hle : store.trace.depth ≤ limit) (hlevel : store.callLevel ≤ store.trace.depth + 1) :
    Mirrors capacity limit calls store := by
  have hdepth := h.depth
  refine ⟨?_, hle, ?_, hlevel⟩
  · rw [hdepth, List.length_map, length_liveProcedures]
  · rw [h.entries, hdepth, Nat.min_comm, ← List.take_eq_take_min]

theorem Recorded.mirrors {capacity limit : Nat} {s : State δ Activation}
    (h : Recorded capacity s) (hle : s.store.trace.depth ≤ limit) :
    Mirrors capacity limit (callsInProgress s) s.store := by
  have hrecords : Records s.store.trace capacity
      ((liveProcedures (callsInProgress s)).map (·.start)) := by
    rw [starts_inProgress]
    exact h.records
  refine mirrors_of_records hrecords hle ?_
  have houter := length_le_stackOf h.nested
  have hlevel := h.callLevel
  have hdepth := h.records.depth
  rw [List.length_append] at hdepth
  omega

theorem Idle.mirrors [Engine α] [Traced α] {capacity limit : Nat} {store : Store}
    (h : Idle (δ := δ) (α := α) capacity [] store) : Mirrors capacity limit [] store := by
  have hdepth : store.trace.depth = 0 := h.records.depth
  exact mirrors_of_records h.records (by omega) (by rw [h.callLevel]; exact Nat.zero_le _)

def TraceExact (capacity limit : Nat) : Transition δ Activation → Prop
  | .next s => Mirrors capacity limit (callsInProgress s) s.store
  | .done store _ _ => Mirrors capacity limit [] store
  | .crashed _ _ => True

theorem reached_traceExact {m : Module} {p : Program} {syscalls : Syscalls δ} {store : Store}
    {capacity : Nat} (hm : Sound m) (himage : p.image = m) (hrest : AtRest p store)
    (hidle : Idle (δ := δ) (α := Activation) capacity [] store) {t : Transition δ Activation}
    (h : Reached p syscalls store t) : TraceExact capacity p.maxCallDepth t := by
  have hrecords := reached_records hidle h
  obtain ⟨past, hrun⟩ := run_of_reached h
  have hkeeps := run_keeps hm himage hrest hrun
  cases t with
  | next s =>
      have hinvariant : Invariant m p past s := hkeeps
      exact Recorded.mirrors hrecords hinvariant.bounded.depth_le
  | done store data result => exact Idle.mirrors (α := Activation) hrecords
  | crashed store data => exact True.intro

/-- Between the calls of the host no procedure is in progress. -/
theorem Used.mirrors {canCompile : Bool} {settings : Settings} {m : Module}
    {syscalls : Syscalls δ} {data : δ} {journal : Journal} {i i' : Instance δ}
    (hcreate : Instance.create canCompile settings m syscalls data journal = .ok i)
    (h : Used i i') (limit : Nat) :
    Mirrors settings.callTraceCapacity limit [] i'.store := by
  have hcontinues := h.continues
  by_cases hcompiled : i.compiled
  · rw [if_pos hcompiled] at hcontinues
    exact Idle.mirrors ((hcontinues.site data []).idle (create_idle hcreate)).2
  · rw [if_neg hcompiled] at hcontinues
    exact Idle.mirrors ((hcontinues.site data []).idle (create_idle hcreate)).2

/-- The call trace is exact up to its capacity, in every state of every run, between
calls, and as a data structure of its own. -/
theorem call_trace_exact {name : String} {image : Image} {m : Module} {canCompile : Bool}
    {settings : Settings} {syscalls : Syscalls δ} {data : δ} {journal : Journal} {i : Instance δ}
    (hload : Module.load name image = .ok m)
    (hcreate : Instance.create canCompile settings m syscalls data journal = .ok i) :
    (∀ t, Reached i.program i.syscalls i.store t →
      TraceExact settings.callTraceCapacity settings.maxCallDepth t) ∧
    (∀ i', Used i i' → Mirrors settings.callTraceCapacity settings.maxCallDepth [] i'.store) ∧
    ∀ capacity t, CallTrace.empty? capacity = some t → ∀ changes : List TraceChange,
      FollowsStack capacity (changes.foldl TraceChange.applyTo t)
        (changes.foldl TraceChange.onStack []) := by
  obtain ⟨hprogram, -, -, hrest⟩ := create_eq_ok hcreate
  have himage : i.program.image = m := by rw [hprogram]
  have hlimit : i.program.maxCallDepth = settings.maxCallDepth := by rw [hprogram]
  refine ⟨?_, ?_, ?_⟩
  · intro t hreached
    rw [← hlimit]
    exact reached_traceExact (sound_of_load hload) himage hrest (create_idle hcreate) hreached
  · intro i' hused
    exact Used.mirrors hcreate hused settings.maxCallDepth
  · intro capacity t hempty changes
    exact followsStack_of_records (Records.foldl (records_empty hempty) changes)

/-- A module whose first procedure calls the second one, which asks for the host service 0. -/
def relayDraft : Draft where
  instructions := [⟨.enter, 8⟩, ⟨.const, 6⟩, ⟨.call, 0⟩, ⟨.leave, 8⟩, ⟨.push, 0⟩, ⟨.leave, 8⟩,
    ⟨.enter, 8⟩, ⟨.const, -1⟩, ⟨.call, 0⟩, ⟨.leave, 8⟩, ⟨.push, 0⟩, ⟨.leave, 8⟩]

def relayModule : Module where
  name := "relay"
  header := relayDraft.header
  code := #[{ op := .enter, operand := 8 }, { op := .const, operand := 6 },
    { op := .call, depth := 4 }, { op := .leave, operand := 8, depth := 4 }, { op := .push },
    { op := .leave, operand := 8, depth := 4 }, { op := .enter, operand := 8 },
    { op := .const, operand := -1 }, { op := .call, depth := 4 },
    { op := .leave, operand := 8, depth := 4 }, { op := .push },
    { op := .leave, operand := 8, depth := 4 }]
  data := []
  jumpTable? := none
  procedures := #[{ start := 0, last := 5, frameSize := 8 },
    { start := 6, last := 11, frameSize := 8 }]

theorem load_relay : Module.load "relay" relayDraft.build = .ok relayModule := by cbv

theorem mem_relay : { start := 0, last := 5, frameSize := 8 } ∈ relayModule.procedures := by
  simp [relayModule]

theorem procedureAt?_relay {p : Program} (himage : p.image = relayModule) {procedure : Procedure}
    (hmem : procedure ∈ relayModule.procedures) :
    p.image.procedureAt? procedure.start = some procedure := by
  rw [himage, (sound_of_load load_relay).procedureAt?_eq_some_iff]
  exact ⟨hmem, rfl⟩

section

variable {i : Instance Unit} (hcreate : Instance.create false { callTraceCapacity := 2 } relayModule
  patientSyscalls () {} = .ok i)

include hcreate

theorem relay_asks : ∃ (s : State Unit Activation) (a : Activation),
    Reached i.program i.syscalls i.store (.next s) ∧ s.outer = [] ∧
    s.control = .serving a patientService ∧
    a.frames = [⟨some 3, ⟨6, 11, 8, false⟩⟩, ⟨none, ⟨0, 5, 8, false⟩⟩] ∧
    s.store.trace.depth = 2 ∧
    ¬ s.store.programStack - Int32.ofNat entryFrameSize < i.program.stackBottom := by
  obtain ⟨hprogram, hsyscalls, -, hrest⟩ := create_eq_ok hcreate
  have himage : i.program.image = relayModule := by rw [hprogram]
  have hlimit : i.program.maxCallDepth = 1024 := by rw [hprogram]
  have hmem₆ : { start := 6, last := 11, frameSize := 8 } ∈ relayModule.procedures := by
    simp [relayModule]
  have hcode : ∀ {j : Nat} {inst : AnnotatedInstruction}, relayModule.code[j]? = some inst →
      i.program.image.code[j]? = some inst := by
    intro j inst hinst
    rw [himage, hinst]
  have henter₀ : i.program.image.code[0]? = some { op := .enter, operand := 8 } := hcode rfl
  have hconst₁ : i.program.image.code[1]? = some { op := .const, operand := 6 } := hcode rfl
  have hcall₂ : i.program.image.code[2]? = some { op := .call, depth := 4 } := hcode rfl
  have henter₆ : i.program.image.code[6]? = some { op := .enter, operand := 8 } := hcode rfl
  have hconst₇ : i.program.image.code[7]? = some { op := .const, operand := -1 } := hcode rfl
  have hcall₈ : i.program.image.code[8]? = some { op := .call, depth := 4 } := hcode rfl
  obtain ⟨hlayout, -⟩ := layout_of_create load_relay hcreate
  obtain ⟨s, ps, hcall, hbegins, hcontrol, hps⟩ := exists_first load_relay hcreate mem_relay rfl
    (by decide) [] (Nat.zero_le maxCallArgs) ()
  -- There is room for the frames of both procedures, and below them for another call.
  have hframe := hlayout.room (n := 8) hps (by decide) (by decide) (by decide)
  have hframe' := hlayout.room (n := 8) hframe.2 (by decide) (by decide) (by decide)
  have hbelow := hlayout.room (n := 4) hframe'.2 (by decide) (by decide) (by decide)
  have hentry := hlayout.room (n := Int32.ofNat entryFrameSize) hbelow.2 (by decide) (by decide)
    (by decide)
  have hslots : 0 < s.store.operands.size := by
    rw [hbegins.operands, hrest.size, hlimit]
    decide
  have hdepth : s.store.trace.depth = 1 := by
    rw [hbegins.trace]
    exact congrArg (· + 1) hrest.depth
  obtain ⟨s₁, hstep₀, hstays₁, hcontrol₁, hkept₁⟩ :=
    step_enter i.syscalls henter₀ rfl hcontrol hframe.1
  rw [← hkept₁.size] at hslots
  obtain ⟨s₂, hstep₁, hstays₂, hcontrol₂, hkept₂, htop⟩ :=
    step_const i.syscalls hconst₁ rfl hcontrol₁ hslots
  rw [← hkept₁.trace, ← hkept₂.trace] at hdepth
  obtain ⟨s₃, hstep₂, hstays₃, hcontrol₃, hsize₃, htrace₃⟩ := step_call i.syscalls hcall₂ rfl
    hcontrol₂ htop (by decide) (procedureAt?_relay himage hmem₆) (by rw [hdepth, hlimit]; decide)
  rw [← hkept₂.size, ← hsize₃] at hslots
  obtain ⟨s₄, s₅, store, hstep₃, -, hstep₄, hstays₅, hcontrol₅, hask, hasking⟩ := enter_and_ask
    i.syscalls henter₆ hconst₇ hcall₈ rfl rfl rfl (by decide) hcontrol₃ hslots hframe'.1
  have hfound : i.syscalls.find? 0 = some ⟨0, "patient", 0, fun _ => patientService⟩ := by
    rw [hsyscalls]
    rfl
  obtain ⟨s₆, args, hstep₅, hstays₆, hserving₆, journal, hstore⟩ := step_served hcontrol₅ hask hfound
  have hreached : Reached i.program i.syscalls i.store (.next s) := hcall ▸ .first () []
  have hreached₃ := hstep₂ ▸ (hstep₁ ▸ (hstep₀ ▸ hreached.step).step).step
  have hreached₆ := hstep₅ ▸ (hstep₄ ▸ (hstep₃ ▸ hreached₃.step).step).step
  refine ⟨s₆, _, hreached₆, ?_, hserving₆, rfl, ?_, ?_⟩
  · rw [hstays₆.outer, hstays₅.outer, hstays₃.outer, hstays₂.outer, hstays₁.outer, hbegins.outer]
  · have htrace : s₆.store.trace = s₂.store.trace.push 6 := by
      rw [hstore]
      exact hasking.trace.trans htrace₃
    rw [htrace]
    exact congrArg (· + 1) hdepth
  · have hstack : s₆.store.programStack = ps - 8 - 8 - 4 := by
      rw [hstore]
      exact hasking.programStack
    rw [hstack]
    exact hentry.1

theorem relay_calls_again :
    ∃ (s : State Unit Activation) (w : Suspended Unit Activation) (a : Activation),
      Reached i.program i.syscalls i.store (.next s) ∧ s.outer = [w] ∧ s.control = .running a ∧
      w.activation.frames = [⟨some 3, ⟨6, 11, 8, false⟩⟩, ⟨none, ⟨0, 5, 8, false⟩⟩] ∧
      a.frames = [⟨none, ⟨0, 5, 8, false⟩⟩] := by
  obtain ⟨hprogram, -⟩ := create_eq_ok hcreate
  have himage : i.program.image = relayModule := by rw [hprogram]
  have hlimit : i.program.maxCallDepth = 1024 := by rw [hprogram]
  obtain ⟨s, a, hreached, houter, hserving, hframes, hdepth, hroom⟩ := relay_asks hcreate
  have hstep : Machine.step i.program i.syscalls s = _ := step_of_reenter hserving
  obtain ⟨s', hcall, hbegins⟩ := call_eq_next i.syscalls s.data
    (⟨a, s.bracket, sevenIfFailed⟩ :: s.outer)
    (show ([] : List Word).length ≤ maxCallArgs from Nat.zero_le _) hroom
    (procedureAt?_relay himage mem_relay) (by rw [hdepth, hlimit]; decide)
  have houter' := hbegins.outer
  rw [houter] at houter'
  exact ⟨s', _, _, (hstep.trans hcall) ▸ hreached.step, houter', hbegins.control, hframes, rfl⟩

end

/-- The outermost two of the three procedures in progress are what the trace shows. -/
theorem call_trace_exact_relay : ∃ (i : Instance Unit) (s : State Unit Activation),
    Module.load "relay" relayDraft.build = .ok relayModule ∧
    Instance.create false { callTraceCapacity := 2 } relayModule patientSyscalls () {} = .ok i ∧
    Reached i.program i.syscalls i.store (.next s) ∧ s.outer.length = 1 ∧
    s.store.trace.depth = 3 ∧ s.store.trace.entries.toList = [0, 6] := by
  obtain ⟨i, hcreate⟩ := exists_create false { callTraceCapacity := 2 } relayModule patientSyscalls
    () {} (by decide)
  obtain ⟨s, w, a, hreached, houter, hcontrol, hframes, hframes'⟩ := relay_calls_again hcreate
  have hmirrors : Mirrors 2 1024 (callsInProgress s) s.store :=
    (call_trace_exact load_relay hcreate).1 _ hreached
  have hcalls : callsInProgress s = [w.activation, a] := by
    rw [callsInProgress, houter, innermost_running hcontrol]
    rfl
  rw [hcalls] at hmirrors
  have hdepth : s.store.trace.depth = 3 := by
    rw [hmirrors.depth]
    simp [hframes, hframes']
  have hentries := hmirrors.entries
  simp only [liveProcedures, List.flatMap_cons, hframes, hframes', hdepth] at hentries
  exact ⟨i, s, load_relay, hcreate, hreached, congrArg _ houter, hdepth, hentries⟩

end SandboxVm.Proofs.TraceImage
