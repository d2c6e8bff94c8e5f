import SandboxVm.Proofs.ArenaLayout
import SandboxVm.Proofs.ControlFlow

namespace SandboxVm.Proofs.StackPointer

open SandboxVm.Interpreter
open SandboxVm.Proofs.VerificationRules
open SandboxVm.Proofs.LoadedModule
open SandboxVm.Proofs.InterpretedInstruction
open SandboxVm.Proofs.ControlTransfer
open SandboxVm.Proofs.ArenaLayout

section

variable {p : Program} {s : Store} {a : Activation} {inst : AnnotatedInstruction}

def top? (s : Store) (a : Activation) : Option Word :=
  match a.sp with
  | 0 => none
  | sp + 1 => s.operand? sp

theorem top?_logged : top? (logged s a inst) a = top? s a := by
  simp only [top?, Store.operand?, logged_operands]

theorem withTop_eq_match (k : Word → Outcome) : withTop s a k =
    match top? s a with
    | some x => k x
    | none => (s, .crash) := by
  unfold withTop top?
  cases a.sp with
  | zero => rfl
  | succ sp => cases s.operand? sp <;> rfl

theorem withTopTwo_cases (k : Word → Word → Outcome) :
    withTopTwo s a k = (s, .crash) ∨ ∃ x y, withTopTwo s a k = k x y := by
  unfold withTopTwo
  split
  · split
    · exact Or.inr ⟨_, _, rfl⟩
    · exact Or.inl rfl
  · exact Or.inl rfl

/-- What becomes of the stack pointer of `a`. -/
def Shifts (p : Program) (a : Activation) (inst : AnnotatedInstruction) (s' : Store) :
    Move Activation → Prop
  | .proceed a' =>
    match inst.op with
    | .enter => a'.ps = a.ps - inst.operand ∧ ¬ a'.ps < p.stackBottom
    | .leave => a'.ps = a.ps + inst.operand
    | _ => a'.ps = a.ps
  | .syscall _ _ frame => frame = a.ps ∧ s'.programStack = a.ps - 4
  | _ => True

theorem shifts_of_kept {a' : Activation} {s' : Store}
    (hop : inst.op ≠ .enter ∧ inst.op ≠ .leave) (hps : a'.ps = a.ps) :
    Shifts p a inst s' (.proceed a') := by
  simp only [Shifts]
  split
  · rename_i heq
    exact absurd heq hop.1
  · rename_i heq
    exact absurd heq hop.2
  · exact hps

theorem Shifts.kept {a' : Activation} {s' : Store} (h : Shifts p a inst s' (.proceed a'))
    (henter : inst.op ≠ .enter) (hleave : inst.op ≠ .leave) : a'.ps = a.ps := by
  simp only [Shifts] at h
  exact h

theorem goTo_shifts {a' : Activation} {s' : Store} (hop : inst.op ≠ .enter ∧ inst.op ≠ .leave)
    (hps : a'.ps = a.ps) (target : Word) : Shifts p a inst s' (goTo a' target) := by
  unfold goTo
  split
  · exact True.intro
  · exact shifts_of_kept hop hps

theorem push_shifts (hop : inst.op ≠ .enter ∧ inst.op ≠ .leave) (value : Word) :
    Shifts p a inst (push s a value).1 (push s a value).2 := by
  unfold push
  split
  · exact shifts_of_kept hop rfl
  · exact True.intro

theorem call_shifts (hop : inst.op = .call) (target : Word) :
    Shifts p a inst (call p s a target).1 (call p s a target).2 := by
  unfold call
  by_cases hneg : target < 0
  · simp only [if_pos hneg]
    exact ⟨rfl, rfl⟩
  · simp only [if_neg hneg]
    rcases enterProcedure_cases p (s.write .four a.ps (Int32.ofNat (a.pc + 1)))
        { a with sp := a.sp - 1 } target.toInt.toNat (some (a.pc + 1)) with
      ⟨-, heq⟩ | ⟨procedure, -, ⟨-, heq⟩ | ⟨-, heq⟩⟩
    · rw [heq]
      exact True.intro
    · rw [heq]
      exact True.intro
    · rw [heq]
      exact shifts_of_kept (by simp [hop]) rfl

theorem leave_shifts (hop : inst.op = .leave) :
    Shifts p a inst (leave s a inst.operand).1 (leave s a inst.operand).2 := by
  unfold leave
  split
  · simp only [Shifts, hop]
  · split
    · exact True.intro
    · simp only
      split <;> exact True.intro

theorem withTop_shifts {k : Word → Outcome}
    (hk : ∀ x, Shifts p a inst (k x).1 (k x).2) :
    Shifts p a inst (withTop s a k).1 (withTop s a k).2 := by
  rw [withTop_eq_match]
  split
  · exact hk _
  · exact True.intro

theorem withTopTwo_shifts {k : Word → Word → Outcome}
    (hk : ∀ x y, Shifts p a inst (k x y).1 (k x y).2) :
    Shifts p a inst (withTopTwo s a k).1 (withTopTwo s a k).2 := by
  rcases withTopTwo_cases (s := s) (a := a) k with heq | ⟨x, y, heq⟩
  · rw [heq]
    exact True.intro
  · rw [heq]
    exact hk x y

theorem execute_shifts : Shifts p a inst (execute p s a inst).1 (execute p s a inst).2 := by
  have hkept : inst.op ≠ .enter ∧ inst.op ≠ .leave → ∀ {a' : Activation} {s' : Store},
      a'.ps = a.ps → Shifts p a inst s' (.proceed a') := fun hop _ _ => shifts_of_kept hop
  unfold execute
  cases hop : inst.op with
  | undef => exact True.intro
  | ignore => exact hkept (by simp [hop]) rfl
  | breakpoint => exact hkept (by simp [hop]) rfl
  | enter =>
      simp only
      split
      · exact True.intro
      · rename_i hfits
        simp only [Shifts, hop]
        exact ⟨True.intro, hfits⟩
  | leave => exact leave_shifts hop
  | call => exact withTop_shifts fun target => call_shifts hop target
  | push => exact push_shifts (by simp [hop]) _
  | const => exact push_shifts (by simp [hop]) _
  | localAddress => exact push_shifts (by simp [hop]) _
  | pop => exact withTop_shifts fun _ => hkept (by simp [hop]) rfl
  | jump =>
      apply withTop_shifts
      intro target
      simp only
      split
      · split
        · split
          · exact goTo_shifts (by simp [hop]) rfl _
          · exact True.intro
        · exact True.intro
      · exact goTo_shifts (by simp [hop]) rfl _
  | branch c =>
      apply withTopTwo_shifts
      intro x y
      simp only
      split
      · exact goTo_shifts (by simp [hop]) rfl _
      · exact hkept (by simp [hop]) rfl
  | load width => exact withTop_shifts fun _ => hkept (by simp [hop]) rfl
  | store width => exact withTopTwo_shifts fun _ _ => hkept (by simp [hop]) rfl
  | arg => exact withTop_shifts fun _ => hkept (by simp [hop]) rfl
  | blockCopy => exact withTopTwo_shifts fun _ _ => hkept (by simp [hop]) rfl
  | unary op => exact withTop_shifts fun _ => hkept (by simp [hop]) rfl
  | binary op => exact withTopTwo_shifts fun _ _ => hkept (by simp [hop]) rfl
  | division op =>
      apply withTopTwo_shifts
      intro x y
      split
      · exact hkept (by simp [hop]) rfl
      · exact True.intro

def writeAll (arena : Arena) : List (Word × Word) → Arena
  | [] => arena
  | (addr, value) :: writes => writeAll (arena.store .four addr value) writes

/-- The addresses and words that a call or an `arg` stores. -/
def instructionWrites (s : Store) (a : Activation) (inst : AnnotatedInstruction) :
    List (Word × Word) :=
  match inst.op, top? s a with
  | .call, some target =>
    (a.ps, Int32.ofNat (a.pc + 1)) ::
      if target < 0 then [(a.ps + 4, (-1 - target).toUInt32.toInt32)] else []
  | .arg, some value => [(a.ps + inst.operand, value)]
  | _, _ => []

theorem size_writeAll (arena : Arena) (writes : List (Word × Word)) :
    (writeAll arena writes).size = arena.size := by
  induction writes generalizing arena with
  | nil => rfl
  | cons write writes ih =>
      rw [writeAll, ih]
      exact size_store ..

theorem withTop_arena {k : Word → Outcome} (hk : ∀ x, (k x).1.arena = s.arena) :
    (withTop s a k).1.arena = s.arena := by
  rw [withTop_eq_match]
  split
  · exact hk _
  · rfl

theorem withTopTwo_arena {k : Word → Word → Outcome} (hk : ∀ x y, (k x y).1.arena = s.arena) :
    (withTopTwo s a k).1.arena = s.arena := by
  rcases withTopTwo_cases (s := s) (a := a) k with heq | ⟨x, y, heq⟩
  · rw [heq]
  · rw [heq]
    exact hk x y

theorem push_arena (value : Word) : (push s a value).1.arena = s.arena := by
  unfold push
  split <;> rfl

theorem leave_arena (size : Word) : (leave s a size).1.arena = s.arena := by
  unfold leave
  split
  · rfl
  · split
    · rfl
    · simp only
      split <;> rfl

theorem write_arena (s : Store) (width : Width) (addr value : Word) :
    (s.write width addr value).arena = s.arena.store width addr value := rfl

theorem call_arena (target : Word) : (call p s a target).1.arena =
    writeAll s.arena ((a.ps, Int32.ofNat (a.pc + 1)) ::
      if target < 0 then [(a.ps + 4, (-1 - target).toUInt32.toInt32)] else []) := by
  unfold call
  by_cases hneg : target < 0
  · simp only [if_pos hneg, writeAll, write_arena]
  · simp only [if_neg hneg, writeAll]
    rcases enterProcedure_cases p (s.write .four a.ps (Int32.ofNat (a.pc + 1)))
        { a with sp := a.sp - 1 } target.toInt.toNat (some (a.pc + 1)) with
      ⟨-, heq⟩ | ⟨procedure, -, ⟨-, heq⟩ | ⟨-, heq⟩⟩ <;> simp only [heq, write_arena]

theorem execute_arena (hstore : ∀ width, inst.op ≠ .store width) (hcopy : inst.op ≠ .blockCopy) :
    (execute p s a inst).1.arena = writeAll s.arena (instructionWrites s a inst) := by
  unfold execute instructionWrites
  cases hop : inst.op with
  | enter =>
      simp only
      split <;> rfl
  | leave => exact leave_arena _
  | call =>
      simp only [withTop_eq_match]
      cases top? s a with
      | none => rfl
      | some target => exact call_arena target
  | push => exact push_arena _
  | const => exact push_arena _
  | localAddress => exact push_arena _
  | pop => exact withTop_arena fun _ => rfl
  | jump =>
      apply withTop_arena
      intro target
      simp only
      split
      · split
        · split <;> rfl
        · rfl
      · rfl
  | branch c =>
      apply withTopTwo_arena
      intro x y
      simp only
      split <;> rfl
  | load width => exact withTop_arena fun _ => rfl
  | store width => exact absurd hop (hstore width)
  | arg =>
      simp only [withTop_eq_match]
      cases top? s a with
      | none => rfl
      | some value => simp only [writeAll, write_arena]
  | blockCopy => exact absurd hop hcopy
  | unary op => exact withTop_arena fun _ => rfl
  | binary op => exact withTopTwo_arena fun _ _ => rfl
  | division op =>
      apply withTopTwo_arena
      intro x y
      split <;> rfl
  | _ => rfl

theorem execute_size : (execute p s a inst).1.arena.size = s.arena.size := by
  by_cases hstore : ∃ width, inst.op = .store width
  · obtain ⟨width, hop⟩ := hstore
    unfold execute
    simp only [hop]
    rcases withTopTwo_cases (s := s) (a := a) (fun addr value => (s.write width addr value,
      .proceed { a with pc := a.pc + 1, sp := a.sp - 2 })) with heq | ⟨x, y, heq⟩
    · rw [heq]
    · rw [heq]
      exact size_store ..
  · by_cases hcopy : inst.op = .blockCopy
    · unfold execute
      simp only [hcopy]
      rcases withTopTwo_cases (s := s) (a := a) (fun dest src =>
        ({ s with arena := s.arena.blockCopy dest src inst.operand },
          .proceed { a with pc := a.pc + 1, sp := a.sp - 2 })) with heq | ⟨x, y, heq⟩
      · rw [heq]
      · rw [heq]
        exact size_blockCopy ..
    · rw [execute_arena (fun width hop => hstore ⟨width, hop⟩) hcopy]
      exact size_writeAll ..

end

def addressed (addr : Word) : List Word → List (Word × Word)
  | [] => []
  | w :: words => (addr, w) :: addressed (addr + 4) words

theorem writeWords_eq_writeAll (store : Store) (addr : Word) (words : List Word) :
    store.writeWords addr words =
      { store with arena := writeAll store.arena (addressed addr words) } := by
  induction words generalizing store addr with
  | nil => rfl
  | cons w words ih =>
      rw [Store.writeWords, ih, addressed, writeAll]
      simp only [Store.write]

/-- The addresses and words of the entry frame that a call builds, if it gets that far. -/
def entryWrites (p : Program) (store : Store) (args : List Word) : List (Word × Word) :=
  if maxCallArgs < args.length ∨ store.programStack - Int32.ofNat entryFrameSize < p.stackBottom then
    []
  else addressed (store.programStack - Int32.ofNat entryFrameSize) (entryFrame args)

theorem call_entry_cases {δ : Type} (p : Program) (syscalls : Syscalls δ) (store : Store) (data : δ)
    (outer : List (Suspended δ Activation)) (args : List Word) :
    (entryWrites p store args = [] ∧ ∃ failure, Machine.call p syscalls store data outer args =
      Machine.deliver store data (.error failure) outer) ∨
    (entryWrites p store args = [] ∧ ∃ failure, Machine.call p syscalls store data outer args =
      Machine.conclude { store with callLevel := store.callLevel + 1 } data store.bracket outer
        (.error failure)) ∨
    (¬ store.programStack - Int32.ofNat entryFrameSize < p.stackBottom ∧
      ∃ store', store' = { store with
          callLevel := store.callLevel + 1
          arena := writeAll store.arena (entryWrites p store args) } ∧
        Machine.call p syscalls store data outer args =
          Machine.perform p syscalls data store.bracket outer
            (start p store' (store.programStack - Int32.ofNat entryFrameSize)).1
            (start p store' (store.programStack - Int32.ofNat entryFrameSize)).2) := by
  unfold Machine.call entryWrites
  by_cases hargs : maxCallArgs < args.length
  · rw [if_pos hargs, if_pos (Or.inl hargs)]
    exact Or.inl ⟨rfl, _, rfl⟩
  · rw [if_neg hargs]
    by_cases hframe : store.programStack - Int32.ofNat entryFrameSize < p.stackBottom
    · simp only [if_pos hframe, if_pos (Or.inr hframe)]
      exact Or.inr (Or.inl ⟨trivial, _, rfl⟩)
    · simp only [if_neg hframe, if_neg (not_or.mpr ⟨hargs, hframe⟩), writeWords_eq_writeAll]
      exact Or.inr (Or.inr ⟨hframe, _, rfl, rfl⟩)

end SandboxVm.Proofs.StackPointer
