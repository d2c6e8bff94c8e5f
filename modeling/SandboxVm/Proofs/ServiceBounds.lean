import SandboxVm.Proofs.Observation

namespace SandboxVm.Proofs.ServiceBounds

open SandboxVm.Proofs.Observation

variable {δ α : Type}

/-- The service asks for memory at addresses below `size` only. -/
def Within (size : Nat) : Service δ Word → Prop
  | .result _ | .fail _ | .crash => True
  | .getData next => ∀ d, Within size (next d)
  | .modifyData _ next => Within size next
  | .arenaSize next => ∀ n, Within size (next n)
  | .read addr _ next => addr.toUInt32.toNat < size ∧ ∀ r, Within size (next r)
  | .write addr _ next => addr.toUInt32.toNat < size ∧ ∀ r, Within size (next r)
  | .readCString addr next => addr.toUInt32.toNat < size ∧ ∀ r, Within size (next r)
  | .moduleName next => ∀ n, Within size (next n)
  | .callTrace next => ∀ t, Within size (next t)
  | .reenter _ next => ∀ r, Within size (next r)

theorem inArena_of_within {arena : Arena} {service : Service δ Word}
    (h : Within arena.size service) : InArena arena service := by
  cases service with
  | read addr len next => exact h.1
  | write addr bytes next => exact h.1
  | readCString addr next => exact h.1
  | _ => exact True.intro

/-- Every service in progress is within `size`. -/
structure ServedWithin (size : Nat) (s : State δ α) : Prop where
  serving : ∀ a service, s.control = .serving a service → Within size service
  outer : ∀ w ∈ s.outer, ∀ r, Within size (w.next r)

def StaysWithin (size : Nat) : Transition δ α → Prop
  | .next s => ServedWithin size s
  | .done _ _ _ | .crashed _ _ => True

section

variable [Engine α] {size : Nat} {p : Program} {syscalls : Syscalls δ} {data : δ} {b : Bracket}
  {outer : List (Suspended δ α)} (houter : ∀ w ∈ outer, ∀ r, Within size (w.next r))

include houter

omit [Engine α] in
theorem deliver_within (store : Store) (r : Except Failure Word) :
    StaysWithin size (Machine.deliver store data r outer) := by
  cases outer with
  | nil => exact True.intro
  | cons w outer =>
      refine ⟨?_, fun w' hw' => houter w' (List.mem_cons_of_mem w hw')⟩
      rintro a service hcontrol
      obtain ⟨-, rfl⟩ := Control.serving.inj hcontrol
      exact houter w (List.mem_cons_self ..) r

omit [Engine α] in
theorem within_running (store : Store) (a : α) :
    StaysWithin size (.next ⟨store, data, .running a, b, outer⟩) := by
  refine ⟨?_, houter⟩
  rintro a' service ⟨⟩

omit [Engine α] in
theorem within_serving (store : Store) (a : α) {service : Service δ Word}
    (h : Within size service) :
    StaysWithin size (.next ⟨store, data, .serving a service, b, outer⟩) := by
  refine ⟨?_, houter⟩
  rintro a' service' hcontrol
  obtain ⟨-, rfl⟩ := Control.serving.inj hcontrol
  exact h

variable (hsyscalls : ∀ id syscall, syscalls.find? id = some syscall →
  ∀ args, Within size (syscall.service args))

include hsyscalls

theorem perform_within (store : Store) (move : Move α) :
    StaysWithin size (Machine.perform p syscalls data b outer store move) := by
  cases move with
  | proceed a => exact within_running houter store a
  | finish value => exact deliver_within houter _ _
  | crash => exact True.intro
  | trap a t => exact deliver_within houter _ _
  | syscall a id frame =>
      simp only [Machine.perform]
      split
      · exact deliver_within houter _ _
      · rename_i syscall hfound
        exact within_serving houter _ a (hsyscalls id syscall hfound _)

theorem call_within (store : Store) (args : List Word) :
    StaysWithin size (Machine.call p syscalls store data outer args) := by
  unfold Machine.call
  split
  · exact deliver_within houter _ _
  · simp only
    split
    · exact deliver_within houter _ _
    · exact perform_within houter hsyscalls _ _

end

section

variable [Engine α] {size : Nat} {p : Program} {syscalls : Syscalls δ}
  (hsyscalls : ∀ id syscall, syscalls.find? id = some syscall →
    ∀ args, Within size (syscall.service args))

include hsyscalls

theorem step_within {s : State δ α} (h : ServedWithin size s) :
    StaysWithin size (Machine.step p syscalls s) := by
  obtain ⟨store, data, control, b, outer⟩ := s
  obtain ⟨hserving, houter⟩ := h
  cases control with
  | running a => exact perform_within houter hsyscalls _ _
  | serving a service =>
      have hwithin := hserving a service rfl
      cases service with
      | result value => exact within_running houter _ _
      | fail failure => exact deliver_within houter _ _
      | crash => exact True.intro
      | getData next => exact within_serving houter _ a (hwithin data)
      | modifyData f next => exact within_serving houter _ a hwithin
      | arenaSize next => exact within_serving houter _ a (hwithin _)
      | read addr len next => exact within_serving houter _ a (hwithin.2 _)
      | write addr bytes next => exact within_serving houter _ a (hwithin.2 _)
      | readCString addr next => exact within_serving houter _ a (hwithin.2 _)
      | moduleName next => exact within_serving houter _ a (hwithin _)
      | callTrace next => exact within_serving houter _ a (hwithin _)
      | reenter args next =>
          refine call_within ?_ hsyscalls store args
          intro w hw
          rcases List.mem_cons.mp hw with rfl | hmem
          · exact hwithin
          · exact houter w hmem

theorem run_within {t : Transition δ α} (h : StaysWithin size t) (fuel : Nat) :
    StaysWithin size (Machine.run p syscalls fuel t) := by
  induction fuel generalizing t with
  | zero => exact h
  | succ fuel ih =>
      cases t with
      | next s => exact ih (step_within hsyscalls h)
      | done store data r => exact True.intro
      | crashed store data => exact True.intro

end

end SandboxVm.Proofs.ServiceBounds
