import SandboxVm.Proofs.CallBracket
import SandboxVm.Proofs.HostSights
import SandboxVm.Proofs.StoreAgreement

namespace SandboxVm.Proofs.MachineAgreement

open SandboxVm.Interpreter
open SandboxVm.Proofs.LoadedModule
open SandboxVm.Proofs.MachineRun
open SandboxVm.Proofs.FrameStack
open SandboxVm.Proofs.RunInvariant
open SandboxVm.Proofs.CallBracket
open SandboxVm.Proofs.Observation
open SandboxVm.Proofs.HostSights
open SandboxVm.Proofs.StoreAgreement

variable {δ : Type}

/-- The transitions go on alike, from stores that agree on all operands in use, or they
end alike. -/
inductive Matched (extra : Nat) : Transition δ Activation → Transition δ Activation → Prop where
  | next {s : State δ Activation} {u : Store} (h : Agrees (innermost s).sp extra s.store u) :
      Matched extra (.next s) (.next { s with store := u })
  | done {f u : Store} {data : δ} {result : Except Failure Word} (harena : u.arena = f.arena)
      (hbreakpoints : u.breakpoints = f.breakpoints + extra) :
      Matched extra (.done f data result) (.done u data result)
  | crashed {f u : Store} {data : δ} (harena : u.arena = f.arena)
      (hbreakpoints : u.breakpoints = f.breakpoints + extra) :
      Matched extra (.crashed f data) (.crashed u data)

/-- The operands of the calls around a call are below the first `limit` ones. -/
def Above (limit : Nat) (outer : List (Suspended δ Activation)) : Prop :=
  ∀ w rest, outer = w :: rest → w.activation.sp ≤ limit

theorem above_nil (limit : Nat) : Above (δ := δ) limit [] := by
  intro w rest hcons
  cases hcons

section

variable {p : Program} {syscalls : Syscalls δ} {limit extra : Nat} {f u : Store} {data : δ}
  {b : Bracket} {outer : List (Suspended δ Activation)}

theorem deliver_matched (h : Agrees limit extra f u) (houter : Above limit outer)
    (result : Except Failure Word) :
    Matched extra (Machine.deliver f data result outer) (Machine.deliver u data result outer) := by
  cases outer with
  | nil => exact .done h.arena h.breakpoints
  | cons w rest => exact .next (h.mono (houter w rest rfl))

theorem conclude_matched (h : Agrees limit extra f u) (houter : Above limit outer)
    (result : Except Failure Word) :
    Matched extra (Machine.conclude f data b outer result)
      (Machine.conclude u data b outer result) :=
  deliver_matched (h.map (g := fun s => s.conclude b) fun _ _ _ _ => rfl) houter result

theorem rejected_matched (h : Agrees limit extra f u) (houter : Above limit outer)
    (a : Activation) (failure : Failure) :
    Matched extra
      (Machine.conclude (rejected p f a failure).1 data b outer (.error (rejected p f a failure).2))
      (Machine.conclude (rejected p u a failure).1 data b outer
        (.error (rejected p u a failure).2)) := by
  unfold rejected
  rw [h.site]
  split
  · exact conclude_matched h houter _
  · exact conclude_matched h houter _

theorem perform_matched {o o' : Outcome} (h : Parallel limit extra o o')
    (houter : Above limit outer) :
    Matched extra (Machine.perform p syscalls data b outer o.1 o.2)
      (Machine.perform p syscalls data b outer o'.1 o'.2) := by
  obtain ⟨f, move'⟩ := o
  obtain ⟨u, move⟩ := o'
  obtain ⟨hmove, hstore, hgoesOn⟩ := h
  obtain rfl : move = move' := hmove
  cases move with
  | proceed a => exact .next (hgoesOn a rfl)
  | finish value => exact conclude_matched hstore houter _
  | crash => exact .crashed hstore.arena hstore.breakpoints
  | trap a t =>
      have hnoted := hstore.note .debug
        (fun _ => p.image.name ++ ": " ++ t.message ++ " at instruction " ++ toString a.pc)
        (fun _ => p.image.name ++ ": " ++ t.message ++ " at instruction " ++ toString a.pc)
      simp only [Machine.perform, Engine.trapped, trapped]
      rw [hnoted.site]
      exact conclude_matched hnoted houter _
  | syscall a id frame =>
      simp only [Machine.perform]
      split
      · exact rejected_matched hstore houter a _
      · have hwaits : Agrees a.sp extra f u := hgoesOn a rfl
        rw [hwaits.arena]
        refine .next ?_
        dsimp only [innermost]
        exact hwaits.note .trace _ _

theorem writeWords_agrees (h : Agrees limit extra f u) (addr : Word) (words : List Word) :
    Agrees limit extra (f.writeWords addr words) (u.writeWords addr words) := by
  induction words generalizing f u addr with
  | nil => exact h
  | cons w words ih =>
      simp only [Store.writeWords]
      exact ih (h.write .four addr w) (addr + 4)

theorem call_matched (h : Agrees f.operandTop extra f u) (houter : Above f.operandTop outer)
    (args : List Word) :
    Matched extra (Machine.call p syscalls f data outer args)
      (Machine.call p syscalls u data outer args) := by
  have hentered : Agrees f.operandTop extra { f with callLevel := f.callLevel + 1 }
      { u with callLevel := u.callLevel + 1 } :=
    h.map (g := fun s => { s with callLevel := s.callLevel + 1 }) fun _ _ _ _ => rfl
  have hstack : u.programStack - Int32.ofNat entryFrameSize =
      f.programStack - Int32.ofNat entryFrameSize := by rw [h.programStack]
  unfold Machine.call
  simp only [h.bracket, hstack, hentered.site]
  split
  · exact deliver_matched h houter _
  · split
    · exact conclude_matched hentered houter _
    · obtain ⟨arena, hwritten⟩ := writeWords_eq { f with callLevel := f.callLevel + 1 }
        (f.programStack - Int32.ofNat entryFrameSize) (entryFrame args)
      have hframe := writeWords_agrees hentered
        (f.programStack - Int32.ofNat entryFrameSize) (entryFrame args)
      exact perform_matched (start_parallel hframe (by rw [hwritten]) _) houter

end

/-- The operands of suspended code are below those of the code inside of it, and the
running code says which ones are in use when it waits. -/
structure Leveled (s : State δ Activation) : Prop where
  outer : Above (innermost s).sp s.outer
  serving : ∀ a service, s.control = .serving a service → s.store.operandTop = a.sp

section

variable {p : Program} {syscalls : Syscalls δ} {extra : Nat} {s : State δ Activation} {u : Store}
  (hlevel : Leveled s) (h : Agrees (innermost s).sp extra s.store u)

include hlevel h

theorem step_matched : Matched extra (Machine.step p syscalls s)
    (Machine.step p syscalls { s with store := u }) := by
  obtain ⟨f, data, control, b, outer⟩ := s
  obtain ⟨houter, hserving⟩ := hlevel
  cases control with
  | running a => exact perform_matched (interpreter_parallel h) houter
  | serving a service =>
      have hwaits : Agrees a.sp extra f u := h
      have htop : f.operandTop = a.sp := hserving a service rfl
      cases service with
      | result value =>
          exact .next (hwaits.setOperand value fun other hother => Or.inl hother)
      | fail failure => exact rejected_matched hwaits houter a failure
      | crash => exact .crashed hwaits.arena hwaits.breakpoints
      | getData next => exact .next hwaits
      | modifyData f next => exact .next hwaits
      | arenaSize next =>
          simp only [Machine.step, Machine.serve, hwaits.arena]
          exact .next hwaits
      | read addr len next =>
          simp only [Machine.step, Machine.serve, hwaits.arena]
          exact .next hwaits
      | write addr bytes next =>
          simp only [Machine.step, Machine.serve, hwaits.arena]
          exact .next (hwaits.map (g := fun s => { s with arena :=
            (f.arena.hostWrite (Engine.access Activation) addr bytes).2 }) fun _ _ _ _ => rfl)
      | readCString addr next =>
          simp only [Machine.step, Machine.serve, hwaits.arena]
          exact .next hwaits
      | moduleName next => exact .next hwaits
      | callTrace next =>
          simp only [Machine.step, Machine.serve, hwaits.trace]
          exact .next hwaits
      | reenter args next =>
          have hfound : Agrees f.operandTop extra f u := htop ▸ hwaits
          refine call_matched hfound ?_ args
          rintro w rest hcons
          obtain ⟨rfl, rfl⟩ := List.cons.inj hcons
          exact Nat.le_of_eq htop.symm

end

theorem Matched.resultOf?_eq {extra : Nat} {t t' : Transition δ Activation}
    (h : Matched extra t t') : resultOf? t' = resultOf? t := by
  cases h <;> rfl

theorem dispatchOf?_eq {limit extra : Nat} {o o' : Outcome} (h : Parallel limit extra o o')
    (syscalls : Syscalls δ) : dispatchOf? syscalls o' = dispatchOf? syscalls o := by
  obtain ⟨f, move'⟩ := o
  obtain ⟨u, move⟩ := o'
  obtain ⟨hmove, hstore, -⟩ := h
  obtain rfl : move = move' := hmove
  have hagrees : Agrees limit extra f u := hstore
  cases move with
  | syscall a id frame =>
      simp only [dispatchOf?, hagrees.arena, hagrees.trace, hagrees.callLevel]
  | _ => rfl

section

variable {p : Program} {syscalls : Syscalls δ} {extra : Nat} {s : State δ Activation} {u : Store}

theorem Leveled.alone (h : Leveled s) : Leveled { s with outer := [] } :=
  ⟨above_nil _, h.serving⟩

theorem answer?_eq {a : Activation} {service : Service δ Word} (hlevel : Leveled s)
    (hcontrol : s.control = .serving a service) (h : Agrees (innermost s).sp extra s.store u) :
    answer? p syscalls { s with store := u } service = answer? p syscalls s service := by
  rw [innermost_serving hcontrol, ← hlevel.serving a service hcontrol] at h
  cases service with
  | arenaSize next => simp only [answer?, h.arena]
  | read addr len next => simp only [answer?, h.arena]
  | write addr bytes next => simp only [answer?, h.arena]
  | readCString addr next => simp only [answer?, h.arena]
  | callTrace next => simp only [answer?, h.trace]
  | reenter args next =>
      have hmatched : Matched extra (Machine.call p syscalls s.store s.data [] args)
          (Machine.call p syscalls u s.data [] args) := call_matched h (above_nil _) args
      simp only [answer?, hmatched.resultOf?_eq]
  | _ => rfl

theorem sights_eq (hlevel : Leveled s) (h : Agrees (innermost s).sp extra s.store u) :
    sights p syscalls { s with store := u } = sights p syscalls s := by
  have houtcome : outcome? p syscalls { s with store := u } = outcome? p syscalls s := by
    have hmatched : Matched extra (Machine.step p syscalls { s with outer := [] })
        (Machine.step p syscalls { s with store := u, outer := [] }) :=
      step_matched hlevel.alone h
    simp only [outcome?, hmatched.resultOf?_eq]
  simp only [sights, houtcome]
  congr 2
  cases hcontrol : s.control with
  | running a =>
      rw [innermost_running hcontrol] at h
      have hparallel : Parallel a.sp extra (step p s.store a) (step p u a) := interpreter_parallel h
      simp only [asked?, dispatch?, hcontrol]
      exact congrArg _ (dispatchOf?_eq hparallel syscalls)
  | serving a service => exact answer?_eq hlevel hcontrol h

end

section

variable {m : Module} {p : Program} {syscalls : Syscalls δ} (hm : Sound m)

include hm

theorem Invariant.leveled {past : List (State δ Activation)} {s : State δ Activation}
    (h : Invariant m p past s) : Leveled s := by
  constructor
  · obtain ⟨frame, rest, base, -, hplaced, -, hle⟩ := Stacked.bottom_le hm h.stacked
    have hbase := (hplaced.sp_le hm).1
    intro w outer houter
    have hsuspends := h.suspends
    rw [houter] at hsuspends
    obtain ⟨-, -, htop, -, -⟩ := hsuspends
    omega
  · intro a service hcontrol
    have hready := h.ready
    rw [hcontrol] at hready
    exact hready.2

theorem run_matched (himage : p.image = m) {extra : Nat} {past : List (State δ Activation)}
    {t t' : Transition δ Activation} (hkeeps : Keeps m p past t) (h : Matched extra t t')
    (fuel : Nat) :
    Matched extra (Machine.run p syscalls fuel t) (Machine.run p syscalls fuel t') ∧
      sightsIn p syscalls fuel t' = sightsIn p syscalls fuel t := by
  induction fuel generalizing past t t' with
  | zero => exact ⟨h, rfl⟩
  | succ fuel ih =>
      cases h with
      | @next s u h =>
          have hinvariant : Invariant m p past s := hkeeps
          have hlevel := Invariant.leveled hm hinvariant
          have hstep : Matched extra (Machine.step p syscalls s)
              (Machine.step p syscalls { s with store := u }) := step_matched hlevel h
          obtain ⟨hrun, hsights⟩ := ih (step_keeps hm himage hinvariant) hstep
          refine ⟨hrun, ?_⟩
          simp only [sightsIn, sights_eq hlevel h, hsights]
      | done harena hbreakpoints => exact ⟨.done harena hbreakpoints, rfl⟩
      | crashed harena hbreakpoints => exact ⟨.crashed harena hbreakpoints, rfl⟩

end

end SandboxVm.Proofs.MachineAgreement
