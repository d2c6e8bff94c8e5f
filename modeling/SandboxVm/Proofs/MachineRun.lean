import SandboxVm.Instance
import SandboxVm.Proofs.VerificationRules

namespace SandboxVm.Proofs.MachineRun

open SandboxVm.Proofs.VerificationRules

variable {δ : Type}

/-- The machine of an instance that started with `store` has come to `t`, through
the states `past` of the host's latest call, the last one first. -/
inductive Run (p : Program) (syscalls : Syscalls δ) (store : Store) :
    List (State δ Activation) → Transition δ Activation → Prop where
  | start (data : δ) (args : List Word) :
      Run p syscalls store [] (Machine.call p syscalls store data [] args)
  | step {past : List (State δ Activation)} {s : State δ Activation}
      (h : Run p syscalls store past (.next s)) :
      Run p syscalls store (s :: past) (Machine.step p syscalls s)
  /-- After a call, the host changes its data and calls again. -/
  | again {past : List (State δ Activation)} {store' : Store} {data : δ}
      {result : Except Failure Word} (h : Run p syscalls store past (.done store' data result))
      (data' : δ) (args : List Word) :
      Run p syscalls store [] (Machine.call p syscalls store' data' [] args)

theorem Run.iterate {p : Program} {syscalls : Syscalls δ} {store : Store}
    {past : List (State δ Activation)} {t : Transition δ Activation}
    (h : Run p syscalls store past t) (fuel : Nat) :
    ∃ past', Run p syscalls store past' (Machine.run p syscalls fuel t) := by
  induction fuel generalizing past t with
  | zero => exact ⟨past, h⟩
  | succ fuel ih =>
      cases t with
      | next s => exact ih h.step
      | done store' data result => exact ⟨past, h⟩
      | crashed store' data => exact ⟨past, h⟩

theorem step_of_running (p : Program) (syscalls : Syscalls δ) {s : State δ Activation}
    {a : Activation} (hcontrol : s.control = .running a) :
    Machine.step p syscalls s = Machine.perform p syscalls s.data s.bracket s.outer
      (Interpreter.step p s.store a).1 (Interpreter.step p s.store a).2 := by
  obtain ⟨store, data, control, bracket, outer⟩ := s
  obtain rfl : control = .running a := hcontrol
  rfl

theorem step_of_proceed {p : Program} {syscalls : Syscalls δ} {s : State δ Activation}
    {store : Store} {a a' : Activation} (hcontrol : s.control = .running a)
    (h : Interpreter.step p s.store a = (store, .proceed a')) :
    Machine.step p syscalls s = .next { s with store, control := .running a' } := by
  rw [step_of_running p syscalls hcontrol, h]
  rfl

theorem Run.proceed {p : Program} {syscalls : Syscalls δ} {store₀ store : Store}
    {past : List (State δ Activation)} {s : State δ Activation} {a a' : Activation}
    (h : Run p syscalls store₀ past (.next s)) (hcontrol : s.control = .running a)
    (hstep : Interpreter.step p s.store a = (store, .proceed a')) :
    Run p syscalls store₀ (s :: past) (.next { s with store, control := .running a' }) := by
  have hrun := h.step
  rwa [step_of_proceed hcontrol hstep] at hrun

theorem writeWords_eq (store : Store) (addr : Word) (words : List Word) :
    ∃ arena, store.writeWords addr words = { store with arena } := by
  induction words generalizing store addr with
  | nil => exact ⟨store.arena, rfl⟩
  | cons w ws ih =>
      obtain ⟨arena, heq⟩ := ih (store.write .four addr w) (addr + 4)
      simp only [Store.writeWords]
      refine ⟨arena, heq.trans ?_⟩
      simp only [Store.write]

/-- A call is refused, fails for want of program stack, or starts with the frame
in the arena. -/
theorem call_cases (p : Program) (syscalls : Syscalls δ) (store : Store) (data : δ)
    (outer : List (Suspended δ Activation)) (args : List Word) :
    (maxCallArgs < args.length ∧ ∃ failure,
      Machine.call p syscalls store data outer args =
        Machine.deliver store data (.error failure) outer) ∨
    (store.programStack - Int32.ofNat entryFrameSize < p.stackBottom ∧ ∃ failure,
      Machine.call p syscalls store data outer args =
        Machine.conclude { store with callLevel := store.callLevel + 1 } data store.bracket outer
          (.error failure)) ∨
    (args.length ≤ maxCallArgs ∧
      ¬ store.programStack - Int32.ofNat entryFrameSize < p.stackBottom ∧
      ∃ arena store', store' = { store with callLevel := store.callLevel + 1, arena } ∧
        Machine.call p syscalls store data outer args =
          Machine.perform p syscalls data store.bracket outer
            (Interpreter.start p store' (store.programStack - Int32.ofNat entryFrameSize)).1
            (Interpreter.start p store' (store.programStack - Int32.ofNat entryFrameSize)).2) := by
  unfold Machine.call
  by_cases hargs : maxCallArgs < args.length
  · rw [if_pos hargs]
    exact Or.inl ⟨hargs, _, rfl⟩
  · rw [if_neg hargs]
    by_cases hframe : store.programStack - Int32.ofNat entryFrameSize < p.stackBottom
    · simp only [if_pos hframe]
      exact Or.inr (Or.inl ⟨hframe, _, rfl⟩)
    · obtain ⟨arena, heq⟩ := writeWords_eq { store with callLevel := store.callLevel + 1 }
        (store.programStack - Int32.ofNat entryFrameSize) (entryFrame args)
      simp only [if_neg hframe, heq]
      exact Or.inr (Or.inr ⟨Nat.le_of_not_lt hargs, hframe, arena, _, rfl, rfl⟩)

def innermost (s : State δ Activation) : Activation :=
  match s.control with
  | .running a => a
  | .serving a _ => a

theorem innermost_running {s : State δ Activation} {a : Activation} (h : s.control = .running a) :
    innermost s = a := by
  simp [innermost, h]

theorem innermost_serving {s : State δ Activation} {a : Activation} {service : Service δ Word}
    (h : s.control = .serving a service) : innermost s = a := by
  simp [innermost, h]

/-- The number of calls around the innermost one, and the number of procedures
the innermost one has in progress. -/
def level (s : State δ Activation) : Nat × Nat :=
  (s.outer.length, (innermost s).frames.length)

def isEntering (code : Code) (s : State δ Activation) : Bool :=
  match s.control with
  | .running a => opAt? code a.pc == some .enter
  | .serving _ _ => false

/-- The step from `s` to `s'` pushes a frame, for a procedure that the code calls or
for a call that a host service makes. -/
inductive Pushes (s s' : State δ Activation) : Prop where
  | call {frame : Frame} (houter : s'.outer = s.outer)
      (hframes : (innermost s').frames = frame :: (innermost s).frames)
  | nested {frame : Frame} {w : Suspended δ Activation} (houter : s'.outer = w :: s.outer)
      (hactivation : w.activation = innermost s) (hframes : (innermost s').frames = [frame])

/-- The innermost frame of `s` has just been pushed. -/
def Fresh (past : List (State δ Activation)) (s : State δ Activation) : Prop :=
  match past with
  | [] => s.outer = [] ∧ ∃ frame, (innermost s).frames = [frame]
  | before :: _ => Pushes before s

/-- The base of the procedure in progress at a level: the number of operands
when its `enter` was the next instruction. -/
def base? (code : Code) (l : Nat × Nat) (trace : List (State δ Activation)) : Option Nat :=
  (trace.find? fun s => level s == l && isEntering code s).map fun s => (innermost s).sp

/-- The code of the innermost call when the machine was last at a level. -/
def latest? (l : Nat × Nat) (trace : List (State δ Activation)) : Option Activation :=
  (trace.find? fun s => level s == l).map innermost

section

variable {code : Code} {l : Nat × Nat} {s : State δ Activation} {trace : List (State δ Activation)}

theorem base?_cons_self (hlevel : level s = l) (hentering : isEntering code s = true) :
    base? code l (s :: trace) = some (innermost s).sp := by
  simp [base?, hlevel, hentering]

theorem base?_cons_of_ne (h : isEntering code s = true → level s ≠ l) :
    base? code l (s :: trace) = base? code l trace := by
  have : (level s == l && isEntering code s) = false := by
    cases hentering : isEntering code s with
    | false => simp
    | true => simpa using h hentering
  simp [base?, this]

theorem latest?_cons_self (hlevel : level s = l) : latest? l (s :: trace) = some (innermost s) := by
  simp [latest?, hlevel]

theorem latest?_cons_of_ne (h : level s ≠ l) : latest? l (s :: trace) = latest? l trace := by
  simp [latest?, h]

theorem isEntering_iff {a : Activation} (h : s.control = .running a) :
    isEntering code s = true ↔ opAt? code a.pc = some .enter := by
  simp [isEntering, h]

end

end SandboxVm.Proofs.MachineRun
