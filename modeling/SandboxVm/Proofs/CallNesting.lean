import SandboxVm.Instance
import SandboxVm.Proofs.EngineTrace

/-!
Calls inside calls, whatever runs the code. A call is over when its result goes
to whoever made it: the host, or a host service of the call around it. Until
then the calls around it stay as they are, and when it is over the record of
procedures and the number of calls in progress are those of before the call.
-/

namespace SandboxVm.Proofs.CallNesting

open SandboxVm.Proofs.CallRecord
open SandboxVm.Proofs.EngineTrace

variable {δ α : Type} [Engine α]

def codeOf : Control δ α → α
  | .running a => a
  | .serving a _ => a

/-! ### Runs -/

/-- The machine goes from `t` to `t'` through the states `seen`, the last one first. -/
inductive Steps (p : Program) (syscalls : Syscalls δ) (t : Transition δ α) :
    List (State δ α) → Transition δ α → Prop where
  | refl : Steps p syscalls t [] t
  | step {seen : List (State δ α)} {s : State δ α} (h : Steps p syscalls t seen (.next s)) :
      Steps p syscalls t (s :: seen) (Machine.step p syscalls s)

/-- The machine of an instance that started with `store` comes to a transition, over
any number of calls by the host, which can change its data between them. -/
inductive Reached (p : Program) (syscalls : Syscalls δ) (store : Store) : Transition δ α → Prop where
  | first (data : δ) (args : List Word) :
      Reached p syscalls store (Machine.call p syscalls store data [] args)
  | step {s : State δ α} (h : Reached p syscalls store (.next s)) :
      Reached p syscalls store (Machine.step p syscalls s)
  | again {store' : Store} {data : δ} {result : Except Failure Word}
      (h : Reached p syscalls store (.done store' data result)) (data' : δ) (args : List Word) :
      Reached p syscalls store (Machine.call p syscalls store' data' [] args)

/-- A call that happens in a run, with the store and the calls it finds: the host's
first call, a later one, or one by a host service. -/
inductive CallSite (p : Program) (syscalls : Syscalls δ) (store : Store) :
    Store → δ → List (Suspended δ α) → List Word → Prop where
  | first (data : δ) (args : List Word) : CallSite p syscalls store store data [] args
  | again {store' : Store} {data : δ} {result : Except Failure Word}
      (h : Reached (α := α) p syscalls store (.done store' data result)) (data' : δ)
      (args : List Word) : CallSite p syscalls store store' data' [] args
  | nested {s : State δ α} {a : α} {args : List Word} {next : Except Failure Word → Service δ Word}
      (h : Reached p syscalls store (.next s)) (hcontrol : s.control = .serving a (.reenter args next)) :
      CallSite p syscalls store s.store s.data (⟨a, s.bracket, next⟩ :: s.outer) args

section

variable {p : Program} {syscalls : Syscalls δ} {store : Store}

theorem step_of_reenter {s : State δ α} {a : α} {args : List Word}
    {next : Except Failure Word → Service δ Word}
    (hcontrol : s.control = .serving a (.reenter args next)) :
    Machine.step p syscalls s =
      Machine.call p syscalls s.store s.data (⟨a, s.bracket, next⟩ :: s.outer) args := by
  obtain ⟨store, data, control, bracket, outer⟩ := s
  obtain rfl : control = .serving a (.reenter args next) := hcontrol
  rfl

theorem CallSite.reached {store' : Store} {data : δ} {outer : List (Suspended δ α)}
    {args : List Word} (h : CallSite p syscalls store store' data outer args) :
    Reached p syscalls store (Machine.call p syscalls store' data outer args) := by
  cases h with
  | first => exact .first data args
  | again h => exact .again h data args
  | nested h hcontrol =>
      rw [← step_of_reenter hcontrol]
      exact .step h

theorem Reached.steps {t t' : Transition δ α} {seen : List (State δ α)}
    (h : Reached p syscalls store t) (hsteps : Steps p syscalls t seen t') :
    Reached p syscalls store t' := by
  induction hsteps with
  | refl => exact h
  | step hsteps ih => exact .step ih

theorem Steps.of_mem {t t' : Transition δ α} {seen : List (State δ α)} {s : State δ α}
    (h : Steps p syscalls t seen t') (hs : s ∈ seen) :
    ∃ earlier, Steps p syscalls t earlier (.next s) ∧ ∀ x ∈ earlier, x ∈ seen := by
  induction h with
  | refl => cases hs
  | @step seen last h ih =>
      rcases List.mem_cons.mp hs with rfl | hs
      · exact ⟨seen, h, fun x hx => List.mem_cons_of_mem _ hx⟩
      · obtain ⟨earlier, hsteps, hmem⟩ := ih hs
        exact ⟨earlier, hsteps, fun x hx => List.mem_cons_of_mem _ (hmem x hx)⟩

theorem steps_cons {s : State δ α} {t : Transition δ α} {seen : List (State δ α)}
    (h : Steps p syscalls (Machine.step p syscalls s) seen t) :
    Steps p syscalls (.next s) (seen ++ [s]) t := by
  induction h with
  | refl => exact .step .refl
  | step h ih => exact .step ih

theorem Steps.trans {t t' t'' : Transition δ α} {seen seen' : List (State δ α)}
    (h : Steps p syscalls t seen t') (h' : Steps p syscalls t' seen' t'') :
    Steps p syscalls t (seen' ++ seen) t'' := by
  induction h' with
  | refl => exact h
  | step h' ih => exact .step ih

theorem run_succ (p : Program) (syscalls : Syscalls δ) {fuel : Nat} {t : Transition δ α}
    {s : State δ α} (h : Machine.run p syscalls fuel t = .next s) :
    Machine.run p syscalls (fuel + 1) t = Machine.step p syscalls s := by
  induction fuel generalizing t with
  | zero =>
      obtain rfl : t = .next s := h
      rfl
  | succ fuel ih =>
      cases t with
      | next s' => exact ih h
      | done store data result => cases h
      | crashed store data => cases h

theorem Steps.run {t t' : Transition δ α} {seen : List (State δ α)}
    (h : Steps p syscalls t seen t') : Machine.run p syscalls seen.length t = t' := by
  induction h with
  | refl => rfl
  | step h ih => exact run_succ p syscalls ih

theorem steps_run (p : Program) (syscalls : Syscalls δ) (fuel : Nat) (t : Transition δ α) :
    ∃ seen, Steps p syscalls t seen (Machine.run p syscalls fuel t) := by
  induction fuel generalizing t with
  | zero => exact ⟨[], .refl⟩
  | succ fuel ih =>
      cases t with
      | next s =>
          obtain ⟨seen, h⟩ := ih (Machine.step p syscalls s)
          exact ⟨_, steps_cons h⟩
      | done store data result => exact ⟨[], .refl⟩
      | crashed store data => exact ⟨[], .refl⟩

end

/-! ### What a step does to the calls in progress -/

variable [Traced α]

/-- The code of a call with bracket `b`, which had the procedures `before` in progress,
goes on, is over, or breaks down. -/
inductive Performed (store : Store) (before : List Nat) (b : Bracket)
    (outer : List (Suspended δ α)) : Transition δ α → Prop where
  | goesOn {store' : Store} {data : δ} {control : Control δ α}
      (h : GoesOn Traced.starts Traced.Valid store before store' (codeOf control)) :
      Performed store before b outer (.next ⟨store', data, control, b, outer⟩)
  | concluded {store' : Store} {data : δ} {result : Except Failure Word}
      (h : GivenUp store before store') :
      Performed store before b outer (Machine.conclude store' data b outer result)
  | crashed {store' : Store} {data : δ} : Performed store before b outer (.crashed store' data)

section

variable {p : Program} {syscalls : Syscalls δ} {store : Store} {before : List Nat} {b : Bracket}
  {outer : List (Suspended δ α)}

theorem perform_performed {store' : Store} {data : δ} {move : Move α}
    (h : Advances Traced.starts Traced.Valid p store before store' move) :
    Performed store before b outer (Machine.perform p syscalls data b outer store' move) := by
  cases move with
  | proceed a => exact .goesOn h
  | finish value => exact .concluded h
  | crash => exact .crashed
  | trap a t => exact .concluded h
  | syscall a id frame =>
      simp only [Machine.perform]
      split
      · have hrejected := Traced.rejected p store' a (Failure.ofTrap (.unknownSyscall id)) h.valid
        exact .concluded (hrejected.of_follows h.callLevel h.trace)
      · refine .goesOn ⟨h.valid, ?_, ?_⟩
        · rw [InterpretedInstruction.note_callLevel, h.callLevel]
        · rw [InterpretedInstruction.note_trace]
          exact h.trace

theorem writeWords_same (store : Store) (addr : Word) (words : List Word) :
    (store.writeWords addr words).callLevel = store.callLevel ∧
      (store.writeWords addr words).trace = store.trace := by
  induction words generalizing store addr with
  | nil => exact ⟨rfl, rfl⟩
  | cons w words ih =>
      obtain ⟨hlevel, htrace⟩ := ih (store.write .four addr w) (addr + 4)
      simp only [Store.writeWords]
      exact ⟨hlevel.trans (write_callLevel ..), htrace.trans (InterpretedInstruction.write_trace ..)⟩

theorem call_performed (p : Program) (syscalls : Syscalls δ) (store : Store) (data : δ)
    (outer : List (Suspended δ α)) (args : List Word) :
    (∃ failure, Machine.call p syscalls store data outer args =
      Machine.deliver store data (.error failure) outer) ∨
    Performed { store with callLevel := store.callLevel + 1 } [] store.bracket outer
      (Machine.call p syscalls store data outer args) := by
  unfold Machine.call
  split
  · exact Or.inl ⟨_, rfl⟩
  · refine Or.inr ?_
    simp only
    split
    · exact .concluded ⟨rfl, [], follows_refl _ _⟩
    · obtain ⟨hlevel, htrace⟩ := writeWords_same { store with callLevel := store.callLevel + 1 }
        (store.programStack - Int32.ofNat entryFrameSize) (entryFrame args)
      exact perform_performed ((Traced.start p _ _).of_same hlevel htrace)

theorem step_performed (p : Program) (syscalls : Syscalls δ) {s : State δ α}
    (hvalid : Traced.Valid (codeOf s.control)) :
    Performed s.store (Traced.starts (codeOf s.control)) s.bracket s.outer
      (Machine.step p syscalls s) ∨
    ∃ a args next, s.control = .serving a (.reenter args next) := by
  obtain ⟨store, data, control, b, outer⟩ := s
  cases control with
  | running a => exact Or.inl (perform_performed (Traced.step p store a hvalid))
  | serving a service =>
      have hsame : GoesOn Traced.starts Traced.Valid store (Traced.starts a) store a :=
        ⟨hvalid, rfl, follows_refl _ _⟩
      cases service with
      | result value => exact Or.inl (.goesOn (Traced.resume store a value hvalid))
      | fail failure => exact Or.inl (.concluded (Traced.rejected p store a failure hvalid))
      | crash => exact Or.inl .crashed
      | getData next => exact Or.inl (.goesOn hsame)
      | modifyData f next => exact Or.inl (.goesOn hsame)
      | arenaSize next => exact Or.inl (.goesOn hsame)
      | read addr len next => exact Or.inl (.goesOn hsame)
      | write addr bytes next => exact Or.inl (.goesOn ⟨hsame.valid, rfl, hsame.trace⟩)
      | readCString addr next => exact Or.inl (.goesOn hsame)
      | moduleName next => exact Or.inl (.goesOn hsame)
      | callTrace next => exact Or.inl (.goesOn hsame)
      | reenter args next => exact Or.inr ⟨a, args, next, rfl⟩

end

/-! ### The record of the calls in progress -/

/-- The procedures of the calls that wait, outermost first. -/
def stackOf : List (Suspended δ α) → List Nat
  | [] => []
  | w :: outer => stackOf outer ++ Traced.starts w.activation

/-- A call with bracket `b` was made with the calls `outer` around it. -/
def Nested (b : Bracket) : List (Suspended δ α) → Prop
  | [] => b.traceDepth = 0
  | w :: outer =>
    b.traceDepth = (stackOf (w :: outer)).length ∧ Traced.Valid w.activation ∧
      Nested w.bracket outer

/-- The store says that `outer` are the calls in progress. -/
structure Idle (capacity : Nat) (outer : List (Suspended δ α)) (store : Store) : Prop where
  records : Records store.trace capacity (stackOf outer)
  callLevel : store.callLevel = outer.length

/-- The store says that the calls in progress are those of the state. -/
structure Recorded (capacity : Nat) (s : State δ α) : Prop where
  valid : Traced.Valid (codeOf s.control)
  nested : Nested s.bracket s.outer
  records : Records s.store.trace capacity (stackOf s.outer ++ Traced.starts (codeOf s.control))
  callLevel : s.store.callLevel = s.outer.length + 1

def Records? (capacity : Nat) : Transition δ α → Prop
  | .next s => Recorded capacity s
  | .done store _ _ => Idle (α := α) (δ := δ) capacity [] store
  | .crashed _ _ => True

section

variable {p : Program} {syscalls : Syscalls δ} {store store' : Store} {before : List Nat}
  {b : Bracket} {outer : List (Suspended δ α)} {capacity : Nat} {data : δ}
  {result : Except Failure Word}

theorem Nested.traceDepth (h : Nested b outer) : b.traceDepth = (stackOf outer).length := by
  cases outer with
  | nil => exact h
  | cons w outer => exact h.1

theorem Idle.nested (h : Idle (δ := δ) (α := α) capacity [] store) :
    Nested (δ := δ) (α := α) store.bracket [] :=
  h.records.depth

theorem deliver_records (hnested : Nested b outer) (h : Idle capacity outer store) :
    Records? capacity (Machine.deliver store data result outer) := by
  cases outer with
  | nil => exact h
  | cons w outer =>
      obtain ⟨-, hvalid, hrest⟩ := hnested
      exact ⟨hvalid, hrest, h.records, h.callLevel⟩

theorem conclude_idle (hnested : Nested b outer)
    (hrecords : Records store.trace capacity (stackOf outer ++ before))
    (hlevel : store.callLevel = outer.length + 1) (h : GivenUp store before store') :
    Idle capacity outer (store'.conclude b) := by
  obtain ⟨hlevel', after, htrace⟩ := h
  constructor
  · simp only [Store.conclude, hnested.traceDepth]
    have htruncate := (htrace capacity _ hrecords).truncate (stackOf outer).length
    rwa [List.take_left] at htruncate
  · simp only [Store.conclude]
    omega

theorem Performed.records {t : Transition δ α} (h : Performed store before b outer t)
    (hnested : Nested b outer)
    (hrecords : Records store.trace capacity (stackOf outer ++ before))
    (hlevel : store.callLevel = outer.length + 1) : Records? capacity t := by
  cases h with
  | goesOn h =>
      exact ⟨h.valid, hnested, h.trace capacity _ hrecords, h.callLevel.trans hlevel⟩
  | concluded h => exact deliver_records hnested (conclude_idle hnested hrecords hlevel h)
  | crashed => exact True.intro

theorem call_records (p : Program) (syscalls : Syscalls δ) (data : δ)
    (hnested : Nested store.bracket outer) (h : Idle capacity outer store) (args : List Word) :
    Records? capacity (Machine.call p syscalls store data outer args) := by
  rcases call_performed p syscalls store data outer args with ⟨failure, heq⟩ | hperformed
  · rw [heq]
    exact deliver_records hnested h
  · refine hperformed.records hnested ?_ ?_
    · rw [List.append_nil]
      exact h.records
    · exact congrArg (· + 1) h.callLevel

theorem Recorded.suspend {s : State δ α} {a : α} {service : Service δ Word}
    (h : Recorded capacity s) (hcontrol : s.control = .serving a service)
    (next : Except Failure Word → Service δ Word) :
    Nested s.store.bracket (⟨a, s.bracket, next⟩ :: s.outer) ∧
      Idle capacity (⟨a, s.bracket, next⟩ :: s.outer) s.store := by
  obtain ⟨hvalid, hnested, hrecords, hlevel⟩ := h
  rw [hcontrol] at hvalid hrecords
  exact ⟨⟨hrecords.depth, hvalid, hnested⟩, hrecords, hlevel⟩

theorem step_records (p : Program) (syscalls : Syscalls δ) {s : State δ α}
    (h : Recorded capacity s) :
    Records? capacity (Machine.step p syscalls s) := by
  rcases step_performed p syscalls h.valid with
    hperformed | ⟨a, args, next, hcontrol⟩
  · exact hperformed.records h.nested h.records h.callLevel
  · obtain ⟨hnested, hidle⟩ := h.suspend hcontrol next
    rw [step_of_reenter hcontrol]
    exact call_records p syscalls s.data hnested hidle args

theorem reached_records (hidle : Idle (δ := δ) (α := α) capacity [] store) {t : Transition δ α}
    (h : Reached p syscalls store t) : Records? capacity t := by
  induction h with
  | first data args => exact call_records p syscalls data hidle.nested hidle args
  | step h ih => exact step_records p syscalls ih
  | again h data args ih => exact call_records p syscalls data (Idle.nested ih) ih args

theorem CallSite.idle (hidle : Idle (δ := δ) (α := α) capacity [] store) {args : List Word}
    (h : CallSite p syscalls store store' data outer args) :
    Nested store'.bracket outer ∧ Idle capacity outer store' := by
  cases h with
  | first => exact ⟨hidle.nested, hidle⟩
  | again h =>
      have hidle' : Idle (δ := δ) (α := α) capacity [] store' := reached_records hidle h
      exact ⟨hidle'.nested, hidle'⟩
  | nested h hcontrol => exact (reached_records hidle h : Recorded capacity _).suspend hcontrol _

end

/-! ### A call from its start to its end -/

/-- The bracket of the outermost of the calls `inner` and one with bracket `b` in them. -/
def bottomBracket (b : Bracket) : List (Suspended δ α) → Bracket
  | [] => b
  | w :: inner => bottomBracket w.bracket inner

/-- The call with bracket `b` and the calls `outer` around it is in progress. -/
def InCall (b : Bracket) (outer : List (Suspended δ α)) (s : State δ α) : Prop :=
  ∃ inner, s.outer = inner ++ outer ∧ bottomBracket s.bracket inner = b

/-- The call with bracket `b` and the calls `outer` around it is in progress or over, or
has broken down. -/
inductive Progress (capacity : Nat) (b : Bracket) (outer : List (Suspended δ α)) :
    Transition δ α → Prop where
  | inCall {s : State δ α} (hrecorded : Recorded capacity s) (h : InCall b outer s) :
      Progress capacity b outer (.next s)
  | ended {store : Store} {data : δ} {result : Except Failure Word}
      (hidle : Idle capacity outer store) (hps : store.programStack = b.programStack)
      (htop : store.operandTop = b.operandTop) :
      Progress capacity b outer (Machine.deliver store data result outer)
  | crashed {store : Store} {data : δ} : Progress capacity b outer (.crashed store data)

section

variable {p : Program} {syscalls : Syscalls δ} {store : Store} {before : List Nat}
  {b : Bracket} {outer : List (Suspended δ α)} {capacity : Nat} {data : δ}

theorem Performed.progress {t : Transition δ α} (h : Performed store before b outer t)
    (hnested : Nested b outer)
    (hrecords : Records store.trace capacity (stackOf outer ++ before))
    (hlevel : store.callLevel = outer.length + 1) : Progress capacity b outer t := by
  have hrecorded := h.records hnested hrecords hlevel
  cases h with
  | goesOn h => exact .inCall hrecorded ⟨[], rfl, rfl⟩
  | concluded h => exact .ended (conclude_idle hnested hrecords hlevel h) rfl rfl
  | crashed => exact .crashed

theorem call_progress (p : Program) (syscalls : Syscalls δ) (data : δ)
    (hnested : Nested store.bracket outer) (h : Idle capacity outer store) (args : List Word) :
    Progress capacity store.bracket outer (Machine.call p syscalls store data outer args) := by
  rcases call_performed p syscalls store data outer args with ⟨failure, heq⟩ | hperformed
  · rw [heq]
    exact .ended h rfl rfl
  · refine hperformed.progress hnested ?_ ?_
    · rw [List.append_nil]
      exact h.records
    · exact congrArg (· + 1) h.callLevel

omit [Engine α] [Traced α] in
theorem bottomBracket_append (b : Bracket) (inner : List (Suspended δ α)) (w : Suspended δ α)
    (rest : List (Suspended δ α)) :
    bottomBracket b (inner ++ w :: rest) = bottomBracket w.bracket rest := by
  induction inner generalizing b with
  | nil => rfl
  | cons v inner ih => exact ih v.bracket

theorem Progress.inner {b' : Bracket} {w : Suspended δ α} {inner : List (Suspended δ α)}
    {t : Transition δ α} (h : Progress capacity b' (w :: inner ++ outer) t)
    (ht : Records? capacity t) (hbottom : bottomBracket w.bracket inner = b) :
    Progress capacity b outer t := by
  cases h with
  | inCall hrecorded h =>
      obtain ⟨inner', houter, -⟩ := h
      refine .inCall hrecorded ⟨inner' ++ w :: inner, ?_, ?_⟩
      · rw [houter, List.append_assoc]
      · rw [bottomBracket_append, hbottom]
  | ended hidle hps htop => exact .inCall ht ⟨inner, rfl, hbottom⟩
  | crashed => exact .crashed

theorem step_progress {s : State δ α} (hrecorded : Recorded capacity s) (h : InCall b outer s) :
    Progress capacity b outer (Machine.step p syscalls s) := by
  have hrecords := step_records p syscalls hrecorded
  obtain ⟨inner, houter, hbottom⟩ := h
  rcases step_performed p syscalls hrecorded.valid with
    hperformed | ⟨a, args, next, hcontrol⟩
  · have hprogress := hperformed.progress hrecorded.nested hrecorded.records hrecorded.callLevel
    cases inner with
    | nil =>
        obtain rfl : s.bracket = b := hbottom
        rwa [houter] at hprogress
    | cons w inner =>
        rw [houter] at hprogress
        exact hprogress.inner hrecords hbottom
  · obtain ⟨hnested, hidle⟩ := hrecorded.suspend hcontrol next
    rw [step_of_reenter hcontrol] at hrecords ⊢
    have hprogress := call_progress p syscalls s.data hnested hidle args
    rw [houter] at hprogress hrecords ⊢
    exact hprogress.inner hrecords hbottom

theorem Progress.inCall_of_length {s : State δ α} (h : Progress capacity b outer (.next s))
    (hlength : outer.length ≤ s.outer.length) : Recorded capacity s ∧ InCall b outer s := by
  generalize ht : Transition.next s = t at h
  cases h with
  | inCall hrecorded h =>
      obtain rfl := Transition.next.inj ht
      exact ⟨hrecorded, h⟩
  | ended hidle hps htop =>
      cases outer with
      | nil => cases ht
      | cons w outer =>
          obtain rfl := Transition.next.inj ht
          simp only [List.length_cons] at hlength
          omega
  | crashed => cases ht

/-- A call goes on until it hands its result to whoever made it. -/
theorem Steps.progress {args : List Word} {seen : List (State δ α)} {t : Transition δ α}
    (h : Steps p syscalls (Machine.call p syscalls store data outer args) seen t)
    (hnested : Nested store.bracket outer) (hidle : Idle capacity outer store)
    (hseen : ∀ s ∈ seen, outer.length ≤ s.outer.length) :
    Progress capacity store.bracket outer t := by
  induction h with
  | refl => exact call_progress p syscalls data hnested hidle args
  | @step seen s h ih =>
      have hprogress := ih fun x hx => hseen x (List.mem_cons_of_mem _ hx)
      obtain ⟨hrecorded, hin⟩ := hprogress.inCall_of_length (hseen s (List.mem_cons_self ..))
      exact step_progress hrecorded hin

end

/-! ### A call that waits for a host service -/

/-- The call with the calls `outer` around it has not gone on since it asked for a host
service: it still waits for it, or for a call that the service makes. -/
def Waits (outer : List (Suspended δ α)) (s : State δ α) : Prop :=
  outer.length < s.outer.length ∨
    s.outer.length = outer.length ∧ ∃ a service, s.control = .serving a service

/-- The code `a` of the call with bracket `b` and the calls `outer` around it waits. -/
inductive Holds (a : α) (b : Bracket) (outer : List (Suspended δ α)) (s : State δ α) : Prop where
  | serving {service : Service δ Word} (hcontrol : s.control = .serving a service)
      (hbracket : s.bracket = b) (houter : s.outer = outer)
  | inside {inner : List (Suspended δ α)} {next : Except Failure Word → Service δ Word}
      (houter : s.outer = inner ++ ⟨a, b, next⟩ :: outer)

section

variable {p : Program} {syscalls : Syscalls δ} {store : Store} {before : List Nat} {a : α}
  {b : Bracket} {outer : List (Suspended δ α)} {capacity : Nat} {data : δ} {s s' : State δ α}

/-- A call inside of a waiting one leaves it waiting, also when it is over. -/
theorem Progress.holds {b' : Bracket} (inner : List (Suspended δ α))
    {next : Except Failure Word → Service δ Word}
    (h : Progress capacity b' (inner ++ ⟨a, b, next⟩ :: outer) (.next s')) :
    Holds a b outer s' := by
  generalize ht : Transition.next s' = t at h
  cases h with
  | inCall hrecorded h =>
      obtain rfl := Transition.next.inj ht
      obtain ⟨inner', houter, -⟩ := h
      rw [← List.append_assoc] at houter
      exact .inside houter
  | ended hidle hps htop =>
      cases inner with
      | nil =>
          obtain rfl := Transition.next.inj ht
          exact .serving rfl rfl rfl
      | cons w inner =>
          obtain rfl := Transition.next.inj ht
          exact .inside rfl
  | crashed => cases ht

/-- The state in which the code of a waiting call goes on with the result of its service. -/
def resumed (s : State δ α) (a : α) (value : Word) : State δ α :=
  { store := (Engine.resume s.store a value).1, data := s.data
    control := .running (Engine.resume s.store a value).2, bracket := s.bracket, outer := s.outer }

omit [Traced α] in
theorem serve_cases {service : Service δ Word} (hcontrol : s.control = .serving a service)
    (hstep : Machine.step p syscalls s = .next s') :
    (∃ value, service = .result value ∧ s' = resumed s a value) ∨
    (∃ service', s'.control = .serving a service' ∧ s'.bracket = s.bracket ∧
      s'.outer = s.outer) ∨
    s'.outer.length < s.outer.length ∨ ∃ args next, service = .reenter args next := by
  obtain ⟨store, data, control, b, outer⟩ := s
  obtain rfl : control = .serving a service := hcontrol
  cases service with
  | result value =>
      obtain rfl := Transition.next.inj hstep
      exact Or.inl ⟨value, rfl, rfl⟩
  | fail failure =>
      cases outer with
      | nil => cases hstep
      | cons w outer =>
          obtain rfl := Transition.next.inj hstep
          exact Or.inr (Or.inr (Or.inl (Nat.lt_succ_self _)))
  | crash => cases hstep
  | reenter args next => exact Or.inr (Or.inr (Or.inr ⟨args, next, rfl⟩))
  | _ =>
      obtain rfl := Transition.next.inj hstep
      exact Or.inr (Or.inl ⟨_, rfl, rfl, rfl⟩)

theorem step_holds (hrecorded : Recorded capacity s) (h : Holds a b outer s)
    (hstep : Machine.step p syscalls s = .next s') :
    Holds a b outer s' ∨ s'.outer.length < outer.length ∨
      ∃ value, s.control = .serving a (.result value) ∧ s.bracket = b ∧ s.outer = outer ∧
        s' = resumed s a value := by
  have hcalls : ∀ a' args next, s.control = .serving a' (.reenter args next) →
      Progress capacity s.store.bracket (⟨a', s.bracket, next⟩ :: s.outer) (.next s') := by
    intro a' args next hcontrol
    obtain ⟨hnested, hidle⟩ := hrecorded.suspend hcontrol next
    rw [← hstep, step_of_reenter hcontrol]
    exact call_progress p syscalls s.data hnested hidle args
  cases h with
  | @serving service hcontrol hbracket houter =>
      subst hbracket
      subst houter
      rcases serve_cases hcontrol hstep with
        ⟨value, rfl, heq⟩ | ⟨service', hcontrol', hbracket', houter'⟩ | hlt | ⟨args, next, rfl⟩
      · exact Or.inr (Or.inr ⟨value, hcontrol, rfl, rfl, heq⟩)
      · exact Or.inl (.serving hcontrol' hbracket' houter')
      · exact Or.inr (Or.inl hlt)
      · exact Or.inl (Progress.holds [] (hcalls a args next hcontrol))
  | @inside inner next houter =>
      refine Or.inl ?_
      rcases step_performed p syscalls hrecorded.valid with
        hperformed | ⟨a', args, next', hcontrol⟩
      · have hprogress := hperformed.progress hrecorded.nested hrecorded.records
          hrecorded.callLevel
        rw [hstep, houter] at hprogress
        exact Progress.holds inner hprogress
      · have hprogress := hcalls a' args next' hcontrol
        rw [houter, ← List.cons_append] at hprogress
        exact Progress.holds _ hprogress

theorem Steps.holds {seen : List (State δ α)} (h : Steps p syscalls (.next s) seen (.next s'))
    (hrecorded : Recorded capacity s) (hholds : Holds a b outer s)
    (hseen : ∀ x ∈ seen, Waits outer x) (hwaits : Waits outer s') :
    Recorded capacity s' ∧ Holds a b outer s' := by
  generalize ht : Transition.next s' = t at h
  induction h generalizing s' with
  | refl =>
      obtain rfl := Transition.next.inj ht
      exact ⟨hrecorded, hholds⟩
  | @step seen x h ih =>
      obtain ⟨hrecorded', hholds'⟩ := ih (fun y hy => hseen y (List.mem_cons_of_mem _ hy))
        (hseen x (List.mem_cons_self ..)) rfl
      have hrecords := step_records p syscalls hrecorded'
      rw [← ht] at hrecords
      refine ⟨hrecords, ?_⟩
      rcases step_holds hrecorded' hholds' ht.symm with hs' | hlt | ⟨value, -, -, houter, rfl⟩
      · exact hs'
      · rcases hwaits with hwaits | ⟨hwaits, -⟩ <;> omega
      · rcases hwaits with hwaits | ⟨-, a', service, hcontrol⟩
        · simp only [resumed, houter] at hwaits
          omega
        · cases hcontrol

/-- When the code of a waiting call goes on, it does so with the result of its service. -/
theorem Steps.resumes {seen : List (State δ α)} {a' : α}
    (h : Steps p syscalls (.next s) seen (.next s')) (hrecorded : Recorded capacity s)
    (hholds : Holds a b outer s) (hseen : ∀ x ∈ seen, Waits outer x)
    (hlevel : s'.outer.length = outer.length) (hcontrol : s'.control = .running a')
    (hserving : ∃ a service, s.control = .serving a service) :
    ∃ x rest value, seen = x :: rest ∧ Steps p syscalls (.next s) rest (.next x) ∧
      x.control = .serving a (.result value) ∧ x.bracket = b ∧ x.outer = outer ∧
      s' = resumed x a value := by
  generalize ht : Transition.next s' = t at h
  cases h with
  | refl =>
      obtain rfl := Transition.next.inj ht
      obtain ⟨a, service, hserving⟩ := hserving
      rw [hserving] at hcontrol
      cases hcontrol
  | @step rest x h =>
      obtain ⟨hrecorded', hholds'⟩ := h.holds hrecorded hholds
        (fun y hy => hseen y (List.mem_cons_of_mem _ hy)) (hseen x (List.mem_cons_self ..))
      rcases step_holds hrecorded' hholds' ht.symm with
        hs' | hlt | ⟨value, hresult, hbracket, houter, heq⟩
      · cases hs' with
        | serving hcontrol' => rw [hcontrol'] at hcontrol; cases hcontrol
        | inside houter =>
            rw [houter, List.length_append, List.length_cons] at hlevel
            omega
      · omega
      · exact ⟨x, rest, value, rfl, h, hresult, hbracket, houter, heq⟩

end

end SandboxVm.Proofs.CallNesting
