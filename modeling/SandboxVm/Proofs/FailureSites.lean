import SandboxVm.Proofs.CallNesting

/-!
Where a failed call says that it failed. A failure is located once, by the call
whose code failed by itself, and the calls around it hand it on as it is, if the
host services do. So the one site it has is that of the innermost failure.
-/

namespace SandboxVm.Proofs.FailureSites

open SandboxVm.Proofs.CallRecord
open SandboxVm.Proofs.EngineTrace
open SandboxVm.Proofs.CallNesting

variable {δ α : Type}

/-! ### The sites of a failure -/

/-- The sites that have been added to a failure, outermost first. -/
def sites (f : Failure) : List TrapSite :=
  f.contexts.filterMap fun
    | .site site => some site
    | .note _ => none

theorem sites_addContext (f : Failure) (site : TrapSite) :
    sites (f.addContext (.site site)) = site :: sites f := rfl

theorem sites_ofTrap (t : Trap) : sites (Failure.ofTrap t) = [] := rfl

theorem sites_ofMessage (m : String) : sites (Failure.ofMessage m) = [] := rfl

theorem isLocated_iff (f : Failure) : f.isLocated = true ↔ sites f ≠ [] := by
  simp only [Failure.isLocated, Failure.site?, List.findSome?_isSome_iff, sites, ne_eq,
    List.filterMap_eq_nil_iff, Classical.not_forall, exists_prop]
  refine exists_congr fun c => and_congr_right fun _ => ?_
  cases c <;> simp

theorem isLocated_of_unsited {f : Failure} (h : sites f = []) : f.isLocated = false := by
  rw [← Bool.not_eq_true, isLocated_iff]
  exact fun hsited => hsited h

/-! ### Host services -/

/-- A host service that has heard of some errors, from calls it made, fails only with one of
these or with an error of its own. An error of its own has no site. -/
def Candid : Service δ Word → (heard : Failure → Prop) → Prop
  | .result _, _ => True
  | .fail failure, heard => sites failure = [] ∨ heard failure
  | .crash, _ => True
  | .getData next, heard => ∀ data, Candid (next data) heard
  | .modifyData _ next, heard => Candid next heard
  | .arenaSize next, heard => ∀ size, Candid (next size) heard
  | .read _ _ next, heard => ∀ result, Candid (next result) heard
  | .write _ _ next, heard => ∀ result, Candid (next result) heard
  | .readCString _ next, heard => ∀ result, Candid (next result) heard
  | .moduleName next, heard => ∀ name, Candid (next name) heard
  | .callTrace next, heard => ∀ trace, Candid (next trace) heard
  | .reenter _ next, heard =>
    ∀ result, Candid (next result) fun failure => heard failure ∨ result = .error failure

/-- All host services of a table, which have not heard of any error when they are asked. -/
def CandidTable (syscalls : Syscalls δ) : Prop :=
  ∀ (id : UInt32) (syscall : Syscall δ), syscalls.find? id = some syscall →
    ∀ args, Candid (syscall.service args) fun _ => False

theorem Candid.mono {service : Service δ Word} {heard heard' : Failure → Prop}
    (h : Candid service heard) (hheard : ∀ f, heard f → sites f = [] ∨ heard' f) :
    Candid service heard' := by
  induction service generalizing heard heard' with
  | result value => exact True.intro
  | fail failure => exact h.elim .inl (hheard failure)
  | crash => exact True.intro
  | getData next ih => exact fun data => ih data (h data) hheard
  | modifyData f next ih => exact ih h hheard
  | arenaSize next ih => exact fun size => ih size (h size) hheard
  | read addr len next ih => exact fun result => ih result (h result) hheard
  | write addr bytes next ih => exact fun result => ih result (h result) hheard
  | readCString addr next ih => exact fun result => ih result (h result) hheard
  | moduleName next ih => exact fun name => ih name (h name) hheard
  | callTrace next ih => exact fun trace => ih trace (h trace) hheard
  | reenter args next ih =>
      refine fun result => ih result (h result) fun f hf => ?_
      rcases hf with hf | hf
      · exact (hheard f hf).imp id .inl
      · exact .inr (.inr hf)

/-! ### Calls that return an error -/

section

variable [Engine α]

/-- A move that ends its call with the failure `f`, because the code `a` has failed with `own`. -/
inductive Halts (p : Program) (syscalls : Syscalls δ) (store : Store) :
    Move α → (a : α) → (own f : Failure) → Prop where
  | trap {a : α} {t : Trap} :
      Halts p syscalls store (.trap a t) a (.ofTrap t) (Engine.trapped p store a t).2
  | unknown {a : α} {id : UInt32} {frame : Word} (h : syscalls.find? id = none) :
      Halts p syscalls store (.syscall a id frame) a (.ofTrap (.unknownSyscall id))
        (Engine.rejected p store a (.ofTrap (.unknownSyscall id))).2

def entryAddress (store : Store) : Word := store.programStack - Int32.ofNat entryFrameSize

/-- The store of a call whose entry frame has been built. -/
def enteredStore (store : Store) (args : List Word) : Store :=
  Store.writeWords { store with callLevel := store.callLevel + 1 } (entryAddress store)
    (entryFrame args)

/-- The step from `s` ends the innermost call with the error `f`. -/
inductive Ends (p : Program) (syscalls : Syscalls δ) (s : State δ α) : Failure → Prop where
  | code {a a' : α} {store : Store} {move : Move α} {own f : Failure}
      (hcontrol : s.control = .running a) (hstep : Engine.step p s.store a = (store, move))
      (hhalts : Halts p syscalls store move a' own f) : Ends p syscalls s f
  | service {a : α} {f : Failure} (hcontrol : s.control = .serving a (.fail f)) :
      Ends p syscalls s (Engine.rejected p s.store a f).2

/-- A call that is not refused ends with the error `f` before any of its code is executed. -/
inductive EndsAtOnce (α : Type) [Engine α] (p : Program) (syscalls : Syscalls δ) (store : Store)
    (args : List Word) : Failure → Prop where
  | unfit (hargs : args.length ≤ maxCallArgs) (hframe : entryAddress store < p.stackBottom) :
      EndsAtOnce α p syscalls store args ((Failure.ofTrap .stackOverflow).addContext
        (.site ⟨p.image.name, none, store.trace.entries.toList⟩))
  | entry {a : α} {store' : Store} {move : Move α} {own f : Failure}
      (hargs : args.length ≤ maxCallArgs) (hframe : ¬ entryAddress store < p.stackBottom)
      (hstart : Engine.start p (enteredStore store args) (entryAddress store) = (store', move))
      (hhalts : Halts p syscalls store' move a own f) : EndsAtOnce α p syscalls store args f

/-- The call that found `store` and the calls `outer` and that was not refused returns the
error `f`, after the states `seen`, the last one first. -/
inductive Returns (p : Program) (syscalls : Syscalls δ) (store : Store) (data : δ)
    (outer : List (Suspended δ α)) (args : List Word) : List (State δ α) → Failure → Prop where
  | atOnce {f : Failure} (h : EndsAtOnce α p syscalls store args f) :
      Returns p syscalls store data outer args [] f
  | later {seen : List (State δ α)} {s : State δ α} {f : Failure}
      (hsteps : Steps p syscalls (Machine.call p syscalls store data outer args) seen (.next s))
      (hseen : ∀ x ∈ seen, outer.length ≤ x.outer.length) (houter : s.outer = outer)
      (h : Ends p syscalls s f) : Returns p syscalls store data outer args (s :: seen) f

/-! ### What a step does -/

/-- The service that a call waits for, if it does, is candid. -/
def Served (heard : Failure → Prop) : Control δ α → Prop
  | .running _ => True
  | .serving _ service => Candid service heard

/-- What a move of the innermost call leads to. -/
inductive Performs (p : Program) (syscalls : Syscalls δ) (data : δ) (b : Bracket)
    (outer : List (Suspended δ α)) (store : Store) (move : Move α) : Transition δ α → Prop where
  | goesOn {store' : Store} {control : Control δ α}
      (h : CandidTable syscalls → ∀ heard, Served heard control) :
      Performs p syscalls data b outer store move (.next ⟨store', data, control, b, outer⟩)
  | finished {value : Word} :
      Performs p syscalls data b outer store move (Machine.conclude store data b outer (.ok value))
  | failed {store' : Store} {a : α} {own f : Failure} (h : Halts p syscalls store move a own f) :
      Performs p syscalls data b outer store move
        (Machine.conclude store' data b outer (.error f))
  | crashed : Performs p syscalls data b outer store move (.crashed store data)

theorem perform_performs (p : Program) (syscalls : Syscalls δ) (data : δ) (b : Bracket)
    (outer : List (Suspended δ α)) (store : Store) (move : Move α) :
    Performs p syscalls data b outer store move
      (Machine.perform p syscalls data b outer store move) := by
  cases move with
  | proceed a => exact .goesOn fun _ _ => True.intro
  | finish value => exact .finished
  | crash => exact .crashed
  | trap a t => exact .failed .trap
  | syscall a id frame =>
      simp only [Machine.perform]
      split
      · rename_i hnone
        exact .failed (.unknown hnone)
      · rename_i syscall hfound
        exact .goesOn fun h heard => (h id syscall hfound _).mono fun f hf => hf.elim

inductive CallTo (p : Program) (syscalls : Syscalls δ) (store : Store) (data : δ)
    (outer : List (Suspended δ α)) (args : List Word) : Transition δ α → Prop where
  | refused {f : Failure} (hargs : maxCallArgs < args.length) (h : sites f = []) :
      CallTo p syscalls store data outer args (Machine.deliver store data (.error f) outer)
  | begun {store' : Store} {control : Control δ α} {b : Bracket}
      (h : CandidTable syscalls → ∀ heard, Served heard control) :
      CallTo p syscalls store data outer args (.next ⟨store', data, control, b, outer⟩)
  | finished {store' : Store} {value : Word} :
      CallTo p syscalls store data outer args (Machine.deliver store' data (.ok value) outer)
  | failed {store' : Store} {f : Failure} (h : EndsAtOnce α p syscalls store args f) :
      CallTo p syscalls store data outer args (Machine.deliver store' data (.error f) outer)
  | crashed {store' : Store} : CallTo p syscalls store data outer args (.crashed store' data)

theorem Performs.callTo {p : Program} {syscalls : Syscalls δ} {store store' : Store} {data : δ}
    {b : Bracket} {outer : List (Suspended δ α)} {args : List Word} {move : Move α}
    {t : Transition δ α} (h : Performs p syscalls data b outer store' move t)
    (hends : ∀ a own f, Halts p syscalls store' move a own f →
      EndsAtOnce α p syscalls store args f) :
    CallTo p syscalls store data outer args t := by
  cases h with
  | goesOn h => exact .begun h
  | finished => exact .finished
  | failed h => exact .failed (hends _ _ _ h)
  | crashed => exact .crashed

theorem call_callTo (p : Program) (syscalls : Syscalls δ) (store : Store) (data : δ)
    (outer : List (Suspended δ α)) (args : List Word) :
    CallTo p syscalls store data outer args
      (Machine.call p syscalls store data outer args) := by
  unfold Machine.call
  by_cases hargs : maxCallArgs < args.length
  · rw [if_pos hargs]
    exact .refused hargs (sites_ofMessage _)
  · have hle := Nat.le_of_not_lt hargs
    rw [if_neg hargs]
    by_cases hframe : entryAddress store < p.stackBottom
    · exact if_pos hframe ▸ .failed (.unfit hle hframe)
    · obtain ⟨store', move, hstart⟩ : ∃ store' move, Engine.start (α := α) p
          (enteredStore store args) (entryAddress store) = (store', move) := ⟨_, _, rfl⟩
      change CallTo p syscalls store data outer args (if entryAddress store < p.stackBottom then _
        else Machine.perform p syscalls data store.bracket outer
          (Engine.start p (enteredStore store args) (entryAddress store)).1
          (Engine.start p (enteredStore store args) (entryAddress store)).2)
      rw [if_neg hframe, hstart]
      exact (perform_performs ..).callTo fun a own f => .entry hle hframe hstart

inductive StepTo (p : Program) (syscalls : Syscalls δ) (s : State δ α) : Transition δ α → Prop where
  | goesOn {store : Store} {data : δ} {control : Control δ α}
      (h : CandidTable syscalls → ∀ heard, Served heard s.control → Served heard control) :
      StepTo p syscalls s (.next ⟨store, data, control, s.bracket, s.outer⟩)
  | finished {store : Store} {data : δ} {value : Word} :
      StepTo p syscalls s (Machine.conclude store data s.bracket s.outer (.ok value))
  | failed {store : Store} {data : δ} {f : Failure} (h : Ends p syscalls s f) :
      StepTo p syscalls s (Machine.conclude store data s.bracket s.outer (.error f))
  | calls {a : α} {args : List Word} {next : Except Failure Word → Service δ Word}
      (hcontrol : s.control = .serving a (.reenter args next)) :
      StepTo p syscalls s
        (Machine.call p syscalls s.store s.data (⟨a, s.bracket, next⟩ :: s.outer) args)
  | crashed {store : Store} {data : δ} : StepTo p syscalls s (.crashed store data)

theorem Performs.stepTo {p : Program} {syscalls : Syscalls δ} {s : State δ α} {store : Store}
    {data : δ} {move : Move α} {t : Transition δ α}
    (h : Performs p syscalls data s.bracket s.outer store move t)
    (hends : ∀ a own f, Halts p syscalls store move a own f → Ends p syscalls s f) :
    StepTo p syscalls s t := by
  cases h with
  | goesOn h => exact .goesOn fun hsyscalls heard _ => h hsyscalls heard
  | finished => exact .finished
  | failed h => exact .failed (hends _ _ _ h)
  | crashed => exact .crashed

theorem step_stepTo (p : Program) (syscalls : Syscalls δ) (s : State δ α) :
    StepTo p syscalls s (Machine.step p syscalls s) := by
  obtain ⟨store, data, control, b, outer⟩ := s
  cases control with
  | running a =>
      obtain ⟨store', move, hstep⟩ : ∃ store' move, Engine.step p store a = (store', move) :=
        ⟨_, _, rfl⟩
      simp only [Machine.step, hstep]
      exact (perform_performs p syscalls data b outer store' move).stepTo
        (s := ⟨store, data, .running a, b, outer⟩) fun a' own f => .code rfl hstep
  | serving a service =>
      cases service with
      | result value => exact .goesOn fun _ _ _ => True.intro
      | fail failure => exact .failed (.service rfl)
      | crash => exact .crashed
      | getData next => exact .goesOn fun _ heard h => h data
      | modifyData f next => exact .goesOn fun _ heard h => h
      | arenaSize next => exact .goesOn fun _ heard h => h _
      | read addr len next => exact .goesOn fun _ heard h => h _
      | write addr bytes next => exact .goesOn fun _ heard h => h _
      | readCString addr next => exact .goesOn fun _ heard h => h _
      | moduleName next => exact .goesOn fun _ heard h => h _
      | callTrace next => exact .goesOn fun _ heard h => h _
      | reenter args next => exact .calls rfl

/-! ### Services go on with what they have heard -/

/-- The service of a waiting call goes on candidly, whatever the call it made comes to. -/
def Trusts (heard : Failure → Prop) (w : Suspended δ α) : Prop :=
  ∀ result, Candid (w.next result) fun f => heard f ∨ result = .error f

/-- A result fails with nothing but an error that has been heard of, or one without a site. -/
def Allowed (heard : Failure → Prop) (result : Except Failure Word) : Prop :=
  ∀ f, result = .error f → sites f = [] ∨ heard f

/-- What the call with the calls `outer` around it comes to if its services are candid. -/
inductive Going (heard : Failure → Prop) (outer : List (Suspended δ α)) :
    Transition δ α → Prop where
  | inCall {s : State δ α} (inner : List (Suspended δ α)) (houter : s.outer = inner ++ outer)
      (hinner : ∀ w ∈ inner, Trusts heard w) (hserved : Served heard s.control) :
      Going heard outer (.next s)
  | ended {store : Store} {data : δ} {result : Except Failure Word} (h : Allowed heard result) :
      Going heard outer (Machine.deliver store data result outer)
  | crashed {store : Store} {data : δ} : Going heard outer (.crashed store data)

section

variable {p : Program} {syscalls : Syscalls δ} {heard heard' : Failure → Prop}
  {inner outer : List (Suspended δ α)} {s : State δ α} {store : Store} {data : δ}

omit [Engine α]

theorem Served.mono {control : Control δ α} (h : Served heard control)
    (hheard : ∀ f, heard f → heard' f) : Served heard' control := by
  cases control with
  | running a => exact True.intro
  | serving a service => exact Candid.mono h fun f hf => .inr (hheard f hf)

theorem Trusts.mono {w : Suspended δ α} (h : Trusts heard w) (hheard : ∀ f, heard f → heard' f) :
    Trusts heard' w :=
  fun result => (h result).mono fun f hf => .inr (hf.imp (hheard f) id)

theorem allowed_ok (value : Word) : Allowed heard (.ok value) := by
  rintro f ⟨⟩

theorem allowed_error {f : Failure} (h : sites f = [] ∨ heard f) : Allowed heard (.error f) := by
  rintro _ ⟨⟩
  exact h

theorem deliver_going {result : Except Failure Word} (hinner : ∀ w ∈ inner, Trusts heard w)
    (h : Allowed heard result) :
    Going heard outer (Machine.deliver store data result (inner ++ outer)) := by
  cases inner with
  | nil => exact .ended h
  | cons w inner =>
      refine .inCall inner rfl (fun x hx => hinner x (List.mem_cons_of_mem _ hx)) ?_
      refine (hinner w (List.mem_cons_self ..) result).mono fun f hf => ?_
      exact hf.elim .inr (h f)

theorem deliver_ne_next {result : Except Failure Word} (hlength : outer.length ≤ s.outer.length) :
    Machine.deliver store data result outer ≠ .next s := by
  intro heq
  cases outer with
  | nil => cases heq
  | cons w outer =>
      obtain rfl := Transition.next.inj heq
      simp only [List.length_cons] at hlength
      omega

theorem Going.inCall_of_length (h : Going heard outer (.next s))
    (hlength : outer.length ≤ s.outer.length) :
    ∃ inner, s.outer = inner ++ outer ∧ (∀ w ∈ inner, Trusts heard w) ∧ Served heard s.control := by
  generalize ht : Transition.next s = t at h
  cases h with
  | inCall inner houter hinner hserved =>
      obtain rfl := Transition.next.inj ht
      exact ⟨inner, houter, hinner, hserved⟩
  | ended h => exact absurd ht.symm (deliver_ne_next hlength)
  | crashed => cases ht

end

section

variable {p : Program} {syscalls : Syscalls δ} {heard : Failure → Prop}
  {inner outer : List (Suspended δ α)} {s : State δ α} {store : Store} {data : δ}
  (hsyscalls : CandidTable syscalls)

include hsyscalls

theorem call_going {args : List Word} (hinner : ∀ w ∈ inner, Trusts heard w)
    (honce : ∀ f, EndsAtOnce α p syscalls store args f → heard f) :
    Going heard outer (Machine.call p syscalls store data (inner ++ outer) args) := by
  have hcall := call_callTo p syscalls store data (inner ++ outer) args
  generalize Machine.call p syscalls store data (inner ++ outer) args = t at hcall
  cases hcall with
  | refused hargs h => exact deliver_going hinner (allowed_error (.inl h))
  | begun h => exact .inCall inner rfl hinner (h hsyscalls heard)
  | finished => exact deliver_going hinner (allowed_ok _)
  | failed h => exact deliver_going hinner (allowed_error (.inr (honce _ h)))
  | crashed => exact .crashed

theorem step_going (houter : s.outer = inner ++ outer) (hinner : ∀ w ∈ inner, Trusts heard w)
    (hserved : Served heard s.control) (hends : ∀ f, Ends p syscalls s f → heard f)
    (honce : ∀ a args next f, s.control = .serving a (.reenter args next) →
      EndsAtOnce α p syscalls s.store args f → heard f) :
    Going heard outer (Machine.step p syscalls s) := by
  have hstep := step_stepTo p syscalls s
  generalize Machine.step p syscalls s = t at hstep
  cases hstep with
  | goesOn h => exact .inCall inner houter hinner (h hsyscalls heard hserved)
  | finished =>
      rw [houter]
      exact deliver_going hinner (allowed_ok _)
  | failed h =>
      rw [houter]
      exact deliver_going hinner (allowed_error (.inr (hends _ h)))
  | @calls a args next hcontrol =>
      rw [houter, ← List.cons_append]
      refine call_going hsyscalls ?_ fun f => honce a args next f hcontrol
      intro w hw
      rcases List.mem_cons.mp hw with rfl | hw
      · rw [hcontrol] at hserved
        exact hserved
      · exact hinner w hw
  | crashed => exact .crashed

end

/-! ### How calls end -/

inductive ComesTo (p : Program) (syscalls : Syscalls δ) (store : Store) (data : δ)
    (outer : List (Suspended δ α)) (args : List Word) (seen : List (State δ α)) :
    Transition δ α → Prop where
  | inCall {s : State δ α} (inner : List (Suspended δ α)) (houter : s.outer = inner ++ outer) :
      ComesTo p syscalls store data outer args seen (.next s)
  | value {store' : Store} {data' : δ} {value : Word} :
      ComesTo p syscalls store data outer args seen
        (Machine.deliver store' data' (.ok value) outer)
  | error {store' : Store} {data' : δ} {f : Failure}
      (h : Returns p syscalls store data outer args seen f) :
      ComesTo p syscalls store data outer args seen (Machine.deliver store' data' (.error f) outer)
  | refused {f : Failure} (hargs : maxCallArgs < args.length) :
      ComesTo p syscalls store data outer args seen (Machine.deliver store data (.error f) outer)
  | crashed {store' : Store} {data' : δ} :
      ComesTo p syscalls store data outer args seen (.crashed store' data')

section

variable {p : Program} {syscalls : Syscalls δ} {store : Store} {data : δ}
  {inner outer : List (Suspended δ α)} {args : List Word} {seen : List (State δ α)}

theorem Returns.reached {store₀ : Store} {x : State δ α}
    (hsite : CallSite p syscalls store₀ store data outer args)
    (h : Returns p syscalls store data outer args seen f) (hx : x ∈ seen) :
    Reached p syscalls store₀ (.next x) := by
  cases h with
  | atOnce h => cases hx
  | later hsteps hseen houter h =>
      rcases List.mem_cons.mp hx with rfl | hx
      · exact hsite.reached.steps hsteps
      · obtain ⟨earlier, hearlier, -⟩ := hsteps.of_mem hx
        exact hsite.reached.steps hearlier

/-- The end of a call inside of another one leaves that one in progress. -/
theorem comesTo_of_inner {store' : Store} {data' : δ} {w : Suspended δ α}
    (result : Except Failure Word) :
    ComesTo p syscalls store data outer args seen
      (Machine.deliver store' data' result (w :: inner ++ outer)) :=
  .inCall inner rfl

theorem ComesTo.inCall_of_length {s : State δ α}
    (h : ComesTo p syscalls store data outer args seen (.next s))
    (hlength : outer.length ≤ s.outer.length) : ∃ inner, s.outer = inner ++ outer := by
  generalize ht : Transition.next s = t at h
  cases h with
  | inCall inner houter =>
      obtain rfl := Transition.next.inj ht
      exact ⟨inner, houter⟩
  | value => exact absurd ht.symm (deliver_ne_next hlength)
  | error h => exact absurd ht.symm (deliver_ne_next hlength)
  | refused hargs => exact absurd ht.symm (deliver_ne_next hlength)
  | crashed => cases ht

theorem steps_comesTo {t : Transition δ α}
    (h : Steps p syscalls (Machine.call p syscalls store data outer args) seen t)
    (hseen : ∀ x ∈ seen, outer.length ≤ x.outer.length) :
    ComesTo p syscalls store data outer args seen t := by
  induction h with
  | refl =>
      have hcall := call_callTo p syscalls store data outer args
      generalize Machine.call p syscalls store data outer args = t at hcall
      cases hcall with
      | refused hargs h => exact .refused hargs
      | begun h => exact .inCall [] rfl
      | finished => exact .value
      | failed h => exact .error (.atOnce h)
      | crashed => exact .crashed
  | @step seen s h ih =>
      have hseen' : ∀ x ∈ seen, outer.length ≤ x.outer.length :=
        fun x hx => hseen x (List.mem_cons_of_mem _ hx)
      obtain ⟨inner, houter⟩ := (ih hseen').inCall_of_length (hseen s (List.mem_cons_self ..))
      have hstep := step_stepTo p syscalls s
      generalize Machine.step p syscalls s = t at hstep
      cases hstep with
      | goesOn h => exact .inCall inner houter
      | finished =>
          cases inner with
          | nil => exact houter ▸ .value
          | cons w inner =>
              rw [houter]
              exact comesTo_of_inner _
      | failed hends =>
          cases inner with
          | nil =>
              rw [Machine.conclude, houter]
              exact .error (.later h hseen' houter hends)
          | cons w inner =>
              rw [houter]
              exact comesTo_of_inner _
      | @calls a args' next hcontrol =>
          rw [houter, ← List.cons_append]
          have hcall := call_callTo p syscalls s.store s.data
            (⟨a, s.bracket, next⟩ :: inner ++ outer) args'
          generalize Machine.call p syscalls s.store s.data
            (⟨a, s.bracket, next⟩ :: inner ++ outer) args' = t at hcall
          cases hcall with
          | refused hargs h => exact comesTo_of_inner _
          | begun h => exact .inCall (⟨a, s.bracket, next⟩ :: inner) rfl
          | finished => exact comesTo_of_inner _
          | failed h => exact comesTo_of_inner _
          | crashed => exact .crashed
      | crashed => exact .crashed

theorem steps_first {t t' : Transition δ α} (h : Steps p syscalls t seen t') :
    t = t' ∨ ∃ x ∈ seen, t = .next x := by
  induction h with
  | refl => exact .inl rfl
  | @step seen s h ih =>
      refine .inr ?_
      rcases ih with rfl | ⟨x, hx, ht⟩
      · exact ⟨s, List.mem_cons_self .., rfl⟩
      · exact ⟨x, List.mem_cons_of_mem _ hx, ht⟩

theorem call_ne_next_of_unfit {x : State δ α} (hframe : entryAddress store < p.stackBottom)
    (hlength : outer.length ≤ x.outer.length) :
    Machine.call p syscalls store data outer args ≠ .next x := by
  unfold Machine.call
  split
  · exact deliver_ne_next hlength
  · rw [if_pos (show store.programStack - Int32.ofNat entryFrameSize < p.stackBottom from hframe)]
    exact deliver_ne_next hlength

theorem Returns.of_unfit (hframe : entryAddress store < p.stackBottom)
    (h : Returns p syscalls store data outer args seen f) :
    seen = [] ∧ f = (Failure.ofTrap .stackOverflow).addContext
      (.site ⟨p.image.name, none, store.trace.entries.toList⟩) := by
  cases h with
  | atOnce h =>
      cases h with
      | unfit hargs => exact ⟨rfl, rfl⟩
      | entry hargs hfits => exact absurd hframe hfits
  | later hsteps hseen houter h =>
      rcases steps_first hsteps with hcall | ⟨x, hx, hcall⟩
      · exact absurd hcall (call_ne_next_of_unfit hframe (Nat.le_of_eq (by rw [houter])))
      · exact absurd hcall (call_ne_next_of_unfit hframe (hseen x hx))

end

end

/-! ### Failing by itself -/

/-- What is said of a call that fails by itself. -/
structure Report (δ α : Type) where
  /-- The error, which has no site yet. -/
  own : Failure
  /-- The store at the moment of the failure, before anything is put back. -/
  moment : Store
  /-- The index of the instruction that the code is at, where it is known. -/
  pc : Option Nat
  /-- The code of the call at that moment; nothing if its entry frame did not fit. -/
  code? : Option α
  /-- The calls around it. -/
  outer : List (Suspended δ α)

namespace Report

def site (r : Report δ α) (p : Program) : TrapSite where
  moduleName := p.image.name
  pc := r.pc
  frames := r.moment.trace.entries.toList

def failure (r : Report δ α) (p : Program) : Failure := r.own.addContext (.site (r.site p))

/-- The procedures in progress at the moment of the failure, outermost first. -/
def procedures [Engine α] [Traced α] (r : Report δ α) : List Nat :=
  stackOf r.outer ++ r.code?.elim [] Traced.starts

end Report

/-- A way to run code that knows at which instruction the code is. -/
class Located (α : Type) [Engine α] [Traced α] where
  pc : α → Option Nat
  trapped : ∀ (p : Program) (store : Store) (a : α) (t : Trap), (Engine.trapped p store a t).2 =
    (Failure.ofTrap t).addContext (.site (store.site p (pc a)))
  unlocated : ∀ (p : Program) (store : Store) (a : α) (f : Failure), sites f = [] →
    (Engine.rejected p store a f).2 = f.addContext (.site (store.site p (pc a)))
  located : ∀ (p : Program) (store : Store) (a : α) (f : Failure), sites f ≠ [] →
    (Engine.rejected p store a f).2 = f
  /-- Code that halts is still at the instruction that made it halt. -/
  step_pc : ∀ {δ : Type} {p : Program} {syscalls : Syscalls δ} {store store' : Store} {a a' : α}
    {move : Move α} {own f : Failure}, Engine.step p store a = (store', move) →
    Halts p syscalls store' move a' own f → pc a' = pc a
  /-- The trace is right when code halts. -/
  step_trace : ∀ {δ : Type} {p : Program} {syscalls : Syscalls δ} {store store' : Store} {a a' : α}
    {move : Move α} {own f : Failure}, Traced.Valid a → Engine.step p store a = (store', move) →
    Halts p syscalls store' move a' own f →
      Follows store.trace (Traced.starts a) store'.trace (Traced.starts a')
  start_trace : ∀ {δ : Type} {p : Program} {syscalls : Syscalls δ} {store store' : Store}
    {frame : Word} {a : α} {move : Move α} {own f : Failure},
    Engine.start p store frame = (store', move) → Halts p syscalls store' move a own f →
      Follows store.trace [] store'.trace (Traced.starts a)

section

variable [Engine α] [Traced α] [Located α]

/-- The innermost call of the state `s` fails by itself. -/
inductive Fails (p : Program) (syscalls : Syscalls δ) (s : State δ α) : Report δ α → Prop where
  /-- Its code traps, or asks for a host service that does not exist. -/
  | code {a a' : α} {store : Store} {move : Move α} {own f : Failure}
      (hcontrol : s.control = .running a) (hstep : Engine.step p s.store a = (store, move))
      (hhalts : Halts p syscalls store move a' own f) :
      Fails p syscalls s ⟨own, store, Located.pc a, some a', s.outer⟩
  /-- Its host service fails with an error of its own. -/
  | service {a : α} {own : Failure} (hcontrol : s.control = .serving a (.fail own))
      (hown : sites own = []) : Fails p syscalls s ⟨own, s.store, Located.pc a, some a, s.outer⟩

/-- A call that is not refused fails by itself before any of its code is executed. -/
inductive FailsAtOnce (p : Program) (syscalls : Syscalls δ) (store : Store)
    (outer : List (Suspended δ α)) (args : List Word) : Report δ α → Prop where
  | unfit (hargs : args.length ≤ maxCallArgs) (hframe : entryAddress store < p.stackBottom) :
      FailsAtOnce p syscalls store outer args
        ⟨.ofTrap .stackOverflow, { store with callLevel := store.callLevel + 1 }, none, none, outer⟩
  | entry {a : α} {store' : Store} {move : Move α} {own f : Failure}
      (hargs : args.length ≤ maxCallArgs) (hframe : ¬ entryAddress store < p.stackBottom)
      (hstart : Engine.start p (enteredStore store args) (entryAddress store) = (store', move))
      (hhalts : Halts p syscalls store' move a own f) :
      FailsAtOnce p syscalls store outer args ⟨own, store', Located.pc a, some a, outer⟩

/-- A call fails by itself within the call that found `store` and the calls `outer` and went
through the states `seen`: that call or one inside of it. -/
inductive Within (p : Program) (syscalls : Syscalls δ) (store : Store)
    (outer : List (Suspended δ α)) (args : List Word) (seen : List (State δ α)) :
    Report δ α → Prop where
  | atOnce {r : Report δ α} (h : FailsAtOnce p syscalls store outer args r) :
      Within p syscalls store outer args seen r
  | inState {r : Report δ α} {s : State δ α} (hs : s ∈ seen) (h : Fails p syscalls s r) :
      Within p syscalls store outer args seen r
  | inner {r : Report δ α} {s : State δ α} {a : α} {args' : List Word}
      {next : Except Failure Word → Service δ Word} (hs : s ∈ seen)
      (hcontrol : s.control = .serving a (.reenter args' next))
      (h : FailsAtOnce p syscalls s.store (⟨a, s.bracket, next⟩ :: s.outer) args' r) :
      Within p syscalls store outer args seen r

section

variable {p : Program} {syscalls : Syscalls δ} {heard : Failure → Prop}
  {outer : List (Suspended δ α)} {s : State δ α} {store store' : Store} {data : δ}
  {args : List Word} {seen seen' : List (State δ α)} {r : Report δ α} {f : Failure}

theorem Within.mono (h : Within p syscalls store outer args seen r) (hseen : seen ⊆ seen') :
    Within p syscalls store outer args seen' r := by
  cases h with
  | atOnce h => exact .atOnce h
  | inState hs h => exact .inState (hseen hs) h
  | inner hs hcontrol h => exact .inner (hseen hs) hcontrol h

theorem Halts.located {move : Move α} {a : α} {own : Failure}
    (h : Halts p syscalls store move a own f) :
    sites own = [] ∧ f = own.addContext (.site (store.site p (Located.pc a))) := by
  cases h with
  | trap => exact ⟨sites_ofTrap _, Located.trapped p store a _⟩
  | unknown h => exact ⟨sites_ofTrap _, Located.unlocated p store a _ (sites_ofTrap _)⟩

theorem Fails.own_unsited (h : Fails p syscalls s r) : sites r.own = [] := by
  cases h with
  | code hcontrol hstep hhalts => exact hhalts.located.1
  | service hcontrol hown => exact hown

theorem FailsAtOnce.own_unsited (h : FailsAtOnce p syscalls store outer args r) :
    sites r.own = [] := by
  cases h with
  | unfit hargs hframe => exact sites_ofTrap _
  | entry hargs hframe hstart hhalts => exact hhalts.located.1

theorem Within.own_unsited (h : Within p syscalls store outer args seen r) : sites r.own = [] := by
  cases h with
  | atOnce h => exact h.own_unsited
  | inState hs h => exact h.own_unsited
  | inner hs hcontrol h => exact h.own_unsited

theorem EndsAtOnce.failsAtOnce (h : EndsAtOnce α p syscalls store args f)
    (outer : List (Suspended δ α)) :
    ∃ r, FailsAtOnce p syscalls store outer args r ∧ f = r.failure p := by
  cases h with
  | unfit hargs hframe => exact ⟨_, .unfit hargs hframe, rfl⟩
  | entry hargs hframe hstart hhalts =>
      exact ⟨_, .entry hargs hframe hstart hhalts, hhalts.located.2⟩

/-- A call ends with an error because it fails by itself, or with one its service has heard of. -/
theorem Ends.fails (h : Ends p syscalls s f) (hserved : Served heard s.control) :
    (∃ r, Fails p syscalls s r ∧ f = r.failure p) ∨ heard f := by
  cases h with
  | code hcontrol hstep hhalts =>
      refine .inl ⟨_, .code hcontrol hstep hhalts, ?_⟩
      rw [hhalts.located.2, Located.step_pc hstep hhalts]
      rfl
  | @service a f hcontrol =>
      by_cases hsites : sites f = []
      · exact .inl ⟨_, .service hcontrol hsites, Located.unlocated p s.store a f hsites⟩
      · rw [hcontrol] at hserved
        rw [Located.located p s.store a f hsites]
        exact .inr (hserved.resolve_left hsites)

def Reported (p : Program) (syscalls : Syscalls δ) (store : Store) (outer : List (Suspended δ α))
    (args : List Word) (seen : List (State δ α)) (f : Failure) : Prop :=
  ∃ r, Within p syscalls store outer args seen r ∧ f = r.failure p

theorem Reported.mono (h : Reported p syscalls store outer args seen f) (hseen : seen ⊆ seen') :
    Reported p syscalls store outer args seen' f := by
  obtain ⟨r, hr, hf⟩ := h
  exact ⟨r, hr.mono hseen, hf⟩

theorem Ends.reported (h : Ends p syscalls s f)
    (hserved : Served (Reported p syscalls store outer args seen) s.control) :
    Reported p syscalls store outer args (s :: seen) f := by
  rcases h.fails hserved with ⟨r, hr, hf⟩ | hf
  · exact ⟨r, .inState (List.mem_cons_self ..) hr, hf⟩
  · exact hf.mono (List.subset_cons_self ..)

/-- As long as a call goes on, its services have heard of nothing but failures within it. -/
theorem steps_going (hsyscalls : CandidTable syscalls) {t : Transition δ α}
    (h : Steps p syscalls (Machine.call p syscalls store data outer args) seen t)
    (hseen : ∀ x ∈ seen, outer.length ≤ x.outer.length) :
    Going (Reported p syscalls store outer args seen) outer t := by
  induction h with
  | refl =>
      have hnone : ∀ w ∈ ([] : List (Suspended δ α)),
          Trusts (Reported p syscalls store outer args []) w := by simp
      refine call_going hsyscalls hnone fun f hf => ?_
      obtain ⟨r, hr, hf⟩ := hf.failsAtOnce outer
      exact ⟨r, .atOnce hr, hf⟩
  | @step seen s h ih =>
      obtain ⟨inner, houter, hinner, hserved⟩ :=
        (ih fun x hx => hseen x (List.mem_cons_of_mem _ hx)).inCall_of_length
          (hseen s (List.mem_cons_self ..))
      have hmono (f : Failure) (hf : Reported p syscalls store outer args seen f) :
          Reported p syscalls store outer args (s :: seen) f :=
        hf.mono (List.subset_cons_self ..)
      refine step_going hsyscalls houter (fun w hw => (hinner w hw).mono hmono)
        (hserved.mono hmono) (fun f hf => hf.reported hserved) ?_
      intro a args' next f hcontrol hf
      obtain ⟨r, hr, hf⟩ := hf.failsAtOnce (⟨a, s.bracket, next⟩ :: s.outer)
      exact ⟨r, .inner (List.mem_cons_self ..) hcontrol hr, hf⟩

/-- An error that a call returns is the report of a failure within it. -/
theorem Returns.reported (hsyscalls : CandidTable syscalls)
    (h : Returns p syscalls store data outer args seen f) :
    Reported p syscalls store outer args seen f := by
  cases h with
  | atOnce h =>
      obtain ⟨r, hr, hf⟩ := h.failsAtOnce outer
      exact ⟨r, .atOnce hr, hf⟩
  | later hsteps hseen houter h =>
      obtain ⟨-, -, -, hserved⟩ := (steps_going hsyscalls hsteps hseen).inCall_of_length
        (Nat.le_of_eq (by rw [houter]))
      exact h.reported hserved

/-! ### The trace at the moment of a failure -/

variable {capacity : Nat}

theorem Fails.records (h : Fails p syscalls s r) (hrecorded : Recorded capacity s) :
    Records r.moment.trace capacity r.procedures := by
  have hvalid := hrecorded.valid
  have hrecords := hrecorded.records
  cases h with
  | code hcontrol hstep hhalts =>
      rw [hcontrol] at hvalid hrecords
      exact Located.step_trace hvalid hstep hhalts capacity _ hrecords
  | service hcontrol hown =>
      rw [hcontrol] at hrecords
      exact hrecords

theorem FailsAtOnce.records (h : FailsAtOnce p syscalls store outer args r)
    (hidle : Idle capacity outer store) : Records r.moment.trace capacity r.procedures := by
  have hrecords := hidle.records
  rw [← List.append_nil (stackOf outer)] at hrecords
  cases h with
  | unfit hargs hframe => exact hrecords
  | entry hargs hframe hstart hhalts =>
      have htrace := (writeWords_same { store with callLevel := store.callLevel + 1 }
        (entryAddress store) (entryFrame args)).2
      have hfollows := Located.start_trace hstart hhalts
      rw [enteredStore, htrace] at hfollows
      exact hfollows capacity _ hrecords

theorem Within.records {store₀ : Store} (hidle : Idle (δ := δ) (α := α) capacity [] store₀)
    (hsite : CallSite p syscalls store₀ store data outer args)
    (hreached : ∀ x ∈ seen, Reached p syscalls store₀ (.next x))
    (h : Within p syscalls store outer args seen r) :
    Records r.moment.trace capacity r.procedures := by
  have hrecorded (x : State δ α) (hx : x ∈ seen) : Recorded capacity x :=
    reached_records hidle (hreached x hx)
  cases h with
  | atOnce h => exact h.records (hsite.idle hidle).2
  | inState hs h => exact h.records (hrecorded _ hs)
  | inner hs hcontrol h => exact h.records ((hrecorded _ hs).suspend hcontrol _).2

end

end

end SandboxVm.Proofs.FailureSites
