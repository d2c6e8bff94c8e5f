import SandboxVm.Proofs.OperandIsolation
import SandboxVm.Proofs.ProgramStack

namespace SandboxVm.Proofs.StackConfinement

open SandboxVm.Interpreter
open SandboxVm.Proofs.VerificationRules
open SandboxVm.Proofs.LoadedModule
open SandboxVm.Proofs.InterpretedInstruction
open SandboxVm.Proofs.ControlTransfer
open SandboxVm.Proofs.MachineRun
open SandboxVm.Proofs.FrameStack
open SandboxVm.Proofs.RunInvariant
open SandboxVm.Proofs.EntryCall
open SandboxVm.Proofs.OperandStack
open SandboxVm.Proofs.OperandIsolation
open SandboxVm.Proofs.ArenaLayout
open SandboxVm.Proofs.StackPointer
open SandboxVm.Proofs.ProgramStack

variable {δ : Type}

/-- The words that the machine itself stores in the next step. -/
def ownWrites (p : Program) (s : State δ Activation) : List (Word × Word) :=
  match s.control with
  | .running a =>
    match p.image.code[a.pc]? with
    | some inst => instructionWrites s.store a inst
    | none => []
  | .serving _ (.reenter args _) => entryWrites p s.store args
  | .serving _ _ => []

/-- In the next step the code or a host service stores to the arena. -/
def StoresForOthers (p : Program) (s : State δ Activation) : Prop :=
  match s.control with
  | .running a => ∃ inst, p.image.code[a.pc]? = some inst ∧
    ((∃ width, inst.op = .store width) ∨ inst.op = .blockCopy)
  | .serving _ (.write _ _ _) => True
  | .serving _ _ => False

/-- Where the frames of some procedures and the entry frame above them start. -/
def frameStarts (entry : Int) : List Frame → List Int
  | [] => [entry]
  | frame :: frames => framePs entry (frame :: frames) :: frameStarts entry frames

/-- Where the frames in use start, but for that of the innermost procedure. -/
def otherFrames (s : State δ Activation) : List Int :=
  frameStarts (entryPs s.bracket) (innermost s).frames.tail ++
    s.outer.flatMap fun w => frameStarts (entryPs w.bracket) w.activation.frames

/-- A word stored at the address stays on the program stack, and lands there. -/
structure Confined (bottom : Word) (arena : Arena) (addr : Word) : Prop where
  aligned : addr.toInt % 4 = 0
  low : bottom.toInt ≤ addr.toInt
  high : addr.toInt + 4 ≤ arena.size
  lands : Arena.offset arena.mask addr .four = addr.toInt.toNat

/-- What is computed from the stack pointer of `a` to execute an instruction is exact. -/
def ExactAt (code : Code) (a : Activation) (inst : AnnotatedInstruction) : Prop :=
  match inst.op with
  | .enter => (a.ps - inst.operand).toInt = a.ps.toInt - inst.operand.toInt
  | .leave => (a.ps + inst.operand).toInt = a.ps.toInt + inst.operand.toInt
  | .arg => (a.ps + inst.operand).toInt = a.ps.toInt + inst.operand.toInt
  | .call => (a.ps + 4).toInt = a.ps.toInt + 4 ∧ (a.ps - 4).toInt = a.ps.toInt - 4 ∧
    ∀ i < maxSyscallArgs, (a.ps + 8 + 4 * Int32.ofNat i).toInt = a.ps.toInt + 8 + 4 * i
  | .localAddress => (∃ width, opAt? code (a.pc + 1) = some (.load width)) →
    (a.ps + inst.operand).toInt = a.ps.toInt + inst.operand.toInt
  | _ => True

/-- The entry frame of a call that finds `store`: its words follow one another from the
stack pointer down, without leaving the program stack. -/
structure EntryFits (p : Program) (store : Store) : Prop where
  exact : (store.programStack - Int32.ofNat entryFrameSize).toInt =
    store.programStack.toInt - entryFrameSize
  words : ∀ args, ∀ write ∈ entryWrites p store args, ∃ j < 2 + maxCallArgs,
    write.1.toInt = store.programStack.toInt - entryFrameSize + 4 * j
  confined : ∀ args, ∀ write ∈ entryWrites p store args,
    Confined p.stackBottom store.arena write.1

section

variable {bottom : Word} {arena : Arena} {addr : Word} {m : Module}

theorem confined_of_bounds (hlayout : Layout m arena.size bottom) (haligned : addr.toInt % 4 = 0)
    (hlow : bottom.toInt ≤ addr.toInt) (hhigh : addr.toInt + 4 ≤ arena.size) :
    Confined bottom arena addr := by
  have hstatic := hlayout.static_le
  exact ⟨haligned, hlow, hhigh,
    offset_eq hlayout.power hlayout.bounded (by omega) (by omega) haligned⟩

theorem mem_addressed {words : List Word} {write : Word × Word}
    (hlow : 0 ≤ addr.toInt) (hhigh : addr.toInt + 4 * words.length < 2 ^ 31)
    (h : write ∈ addressed addr words) :
    ∃ j < words.length, write.1.toInt = addr.toInt + 4 * j := by
  induction words generalizing addr with
  | nil => cases h
  | cons w words ih =>
      rw [List.length_cons] at hhigh
      have hfour : (4 : Word).toInt = 4 := by decide
      have hnext : (addr + 4).toInt = addr.toInt + 4 := by
        rw [toInt_add_exact (by omega) (by omega), hfour]
      rcases List.mem_cons.mp h with rfl | h
      · exact ⟨0, by simp, by simp⟩
      · obtain ⟨j, hj, heq⟩ := ih (by omega) (by omega) h
        exact ⟨j + 1, by simp only [List.length_cons]; omega, by omega⟩

theorem length_entryFrame {args : List Word} (h : args.length ≤ maxCallArgs) :
    (entryFrame args).length = 2 + maxCallArgs := by
  simp only [entryFrame, List.length_cons, List.length_append, List.length_replicate]
  omega

theorem entryFits_of_bounds {p : Program} {store : Store}
    (hlayout : Layout m store.arena.size p.stackBottom)
    (hlow : p.stackBottom.toInt - 4 ≤ store.programStack.toInt)
    (hhigh : store.programStack.toInt ≤ store.arena.size)
    (haligned : store.programStack.toInt % 4 = 0) : EntryFits p store := by
  have hstatic := hlayout.static_le
  have hbounded := hlayout.bounded
  have hsize : (Int32.ofNat entryFrameSize).toInt = 60 := by decide
  have hexact : (store.programStack - Int32.ofNat entryFrameSize).toInt =
      store.programStack.toInt - 60 := by
    rw [toInt_sub_exact (by omega) (by omega), hsize]
  have hwords : ∀ args, ∀ write ∈ entryWrites p store args,
      p.stackBottom.toInt ≤ store.programStack.toInt - 60 ∧
      ∃ j < 2 + maxCallArgs, write.1.toInt = store.programStack.toInt - 60 + 4 * j := by
    intro args write hwrite
    unfold entryWrites at hwrite
    split at hwrite
    · cases hwrite
    · rename_i hnot
      obtain ⟨hargs, hfits⟩ := not_or.mp hnot
      have hlength := length_entryFrame (Nat.le_of_not_lt hargs)
      rw [Int32.lt_iff_toInt_lt, hexact] at hfits
      simp only [maxCallArgs] at hlength
      obtain ⟨j, hj, heq⟩ := mem_addressed (by omega) (by omega) hwrite
      exact ⟨by omega, j, by simp only [maxCallArgs]; omega, by omega⟩
  refine ⟨hexact, fun args write hwrite => (hwords args write hwrite).2, ?_⟩
  intro args write hwrite
  obtain ⟨hfits, j, hj, heq⟩ := hwords args write hwrite
  simp only [maxCallArgs] at hj
  exact confined_of_bounds hlayout (by omega) (by omega) (by omega)

end

/-! ### Frames above the innermost one -/

section

variable {m : Module} {bottom : Word} {size : Nat} {trace past : List (State δ Activation)}
  {entry : Int}

theorem calls_of_suspends {b : Bracket} {outer : List (Suspended δ Activation)}
    (h : Suspends m trace b outer) : ∀ w ∈ outer, opAt? m.code w.activation.pc = some .call := by
  induction outer generalizing b with
  | nil => simp
  | cons w outer ih =>
      obtain ⟨-, hcall, -, -, hrest⟩ := h
      intro w' hw'
      rcases List.mem_cons.mp hw' with rfl | hmem
      · exact hcall
      · exact ih hrest w' hmem

theorem framePs_mem_frameStarts (entry : Int) (frames : List Frame) :
    framePs entry frames ∈ frameStarts entry frames := by
  cases frames with
  | nil => exact List.mem_singleton.mpr rfl
  | cons frame frames => exact List.mem_cons_self ..

variable (hm : Sound m)

include hm

theorem mem_frameStarts_bounds {frames : List Frame} {x : Int}
    (h : ∀ frame ∈ frames, frame.procedure ∈ m.procedures) (hx : x ∈ frameStarts entry frames) :
    framePs entry frames ≤ x ∧ x ≤ entry ∧ x % 4 = entry % 4 := by
  induction frames with
  | nil =>
      obtain rfl := List.mem_singleton.mp hx
      exact ⟨Int.le_refl _, Int.le_refl _, rfl⟩
  | cons frame frames ih =>
      rcases List.mem_cons.mp hx with rfl | hx
      · exact ⟨Int.le_refl _, framePs_bounds hm h⟩
      · have hsize := hm.frameSize_bounds (h frame (List.mem_cons_self ..))
        have hrest := ih (fun frame' hframe' => h frame' (List.mem_cons_of_mem _ hframe')) hx
        simp only [framePs]
        omega

variable (hlayout : Layout m size bottom)

include hlayout

theorem mem_waiting_bounds {b : Bracket} {outer : List (Suspended δ Activation)} {x : Int}
    (hwaiting : Waiting m bottom size trace b outer)
    (hcalls : ∀ w ∈ outer, opAt? m.code w.activation.pc = some .call)
    (hx : x ∈ outer.flatMap fun w => frameStarts (entryPs w.bracket) w.activation.frames) :
    b.programStack.toInt ≤ x ∧ x ≤ (size : Int) - 60 ∧ x % 4 = 0 := by
  induction outer generalizing b with
  | nil => cases hx
  | cons w outer ih =>
      obtain ⟨hps, hframed, -, hrest⟩ := hwaiting
      obtain ⟨inst, hinst, hop⟩ := exists_of_opAt? (hcalls w (List.mem_cons_self ..))
      have hbounds := hframed.bounds hm
      have hentry : entryPs w.bracket = w.bracket.programStack.toInt - 60 := rfl
      rw [List.flatMap_cons, List.mem_append] at hx
      rcases hx with hx | hx
      · have hframe := mem_frameStarts_bounds hm hframed.procedures hx
        have hstack := Waiting.bounds hm hlayout hrest
        have hhere := hframed.ps
        rw [entered_of_op hinst (by simp [hop])] at hhere
        omega
      · have := ih hrest (fun w' hw' => hcalls w' (List.mem_cons_of_mem _ hw')) hx
        omega

variable {p : Program} {s : State δ Activation} {inst : AnnotatedInstruction}
  (hbalanced : Balanced m bottom size past s) (h : Invariant m p past s)

include hbalanced h

theorem mem_otherFrames_bounds {x : Int} (hx : x ∈ otherFrames s) :
    framePs (entryPs s.bracket) (innermost s).frames.tail ≤ x ∧ x ≤ (size : Int) - 60 ∧
      x % 4 = 0 := by
  have htail : ∀ frame ∈ (innermost s).frames.tail, frame.procedure ∈ m.procedures :=
    fun frame hframe => hbalanced.framed.procedures frame (List.mem_of_mem_tail hframe)
  have hstack := Waiting.bounds hm hlayout hbalanced.waiting
  have hentry : entryPs s.bracket = s.bracket.programStack.toInt - 60 := rfl
  rcases List.mem_append.mp hx with hx | hx
  · have := mem_frameStarts_bounds hm htail hx
    omega
  · have hle := mem_waiting_bounds hm hlayout hbalanced.waiting (calls_of_suspends h.suspends) hx
    have hbounds : framePs (entryPs s.bracket) _ ≤ _ := (framePs_bounds hm htail).1
    omega

omit hlayout in
theorem ps_le_caller : (innermost s).ps.toInt ≤
    framePs (entryPs s.bracket) (innermost s).frames.tail := by
  obtain ⟨frame, rest, base, hframes, hplaced, -, -⟩ := h.stacked.innermost
  have hsize := hm.frameSize_bounds hplaced.inside.mem
  rw [hbalanced.framed.ps]
  unfold entered
  split
  · exact Int.le_refl _
  · rw [hframes, List.tail_cons, framePs]
    omega

end

/-! ### The discipline -/

/-- How the machine treats the program stack in a state that is reached through `past`. -/
structure Disciplined (m : Module) (p : Program) (syscalls : Syscalls δ) (size : Nat)
    (past : List (State δ Activation)) (s : State δ Activation) : Prop where
  balanced : Balanced m p.stackBottom size past s
  aligned : (innermost s).ps.toInt % 4 = 0
  within : p.stackBottom.toInt ≤ (innermost s).ps.toInt ∧ (innermost s).ps.toInt < size
  /-- The innermost frame starts its size below that of the caller, or below the entry frame. -/
  below : ∀ frame rest, entered m.code (innermost s) = frame :: rest →
    (rest = [] ∧ (innermost s).ps.toInt = entryPs s.bracket - frame.procedure.frameSize.toInt) ∨
    ∃ caller, latest? (s.outer.length, rest.length) (s :: past) = some caller ∧
      caller.frames = rest ∧
      (innermost s).ps.toInt = caller.ps.toInt - frame.procedure.frameSize.toInt
  others : ∀ x ∈ otherFrames s, p.stackBottom.toInt ≤ x ∧ x < size ∧ x % 4 = 0
  /-- A procedure returns with the stack pointer of the `call` that it returns to. -/
  returned : ∀ a inst, s.control = .running a → m.code[a.pc]? = some inst → inst.op = .leave →
    ∀ index procedure frames, a.frames = ⟨some index, procedure⟩ :: frames →
      ∃ caller, latest? (s.outer.length, frames.length) (s :: past) = some caller ∧
        opAt? m.code caller.pc = some .call ∧
        (Interpreter.step p s.store a).2 =
          .proceed ⟨caller.pc + 1, caller.ps, caller.sp, caller.frames⟩
  exact : ∀ inst, m.code[(innermost s).pc]? = some inst → ExactAt m.code (innermost s) inst
  /-- A call by a host service builds its entry frame below the code that waits. -/
  entry : ∀ a service, s.control = .serving a service → EntryFits p s.store ∧
    ∀ args, ∀ write ∈ entryWrites p s.store args, write.1.toInt + 4 ≤ a.ps.toInt
  confined : ∀ write ∈ ownWrites p s, Confined p.stackBottom s.store.arena write.1 ∧
    ∀ x ∈ otherFrames s, write.1.toInt + 4 ≤ x + 8
  /-- Nothing else is stored by the machine. -/
  complete : ¬ StoresForOthers p s →
    (storeAfter (Machine.step p syscalls s)).arena = writeAll s.store.arena (ownWrites p s)

section

variable {m : Module} {p : Program} {syscalls : Syscalls δ} {size : Nat}
  {past : List (State δ Activation)} {s : State δ Activation} {inst : AnnotatedInstruction}
  (hm : Sound m) (himage : p.image = m) (hlayout : Layout m size p.stackBottom)
  (h : Invariant m p past s) (hbalanced : Balanced m p.stackBottom size past s)

section

include hm himage hlayout h hbalanced

theorem return_restores {a : Activation} (hcontrol : s.control = .running a)
    (hinst : m.code[a.pc]? = some inst) (hop : inst.op = .leave) {index : Nat}
    {procedure : Procedure} {frames : List Frame}
    (hframes : a.frames = ⟨some index, procedure⟩ :: frames) :
    ∃ caller, latest? (s.outer.length, frames.length) (s :: past) = some caller ∧
      opAt? m.code caller.pc = some .call ∧
      (Interpreter.step p s.store a).2 =
        .proceed ⟨caller.pc + 1, caller.ps, caller.sp, caller.frames⟩ := by
  obtain rfl := innermost_running hcontrol
  obtain ⟨caller, ps, hlatest, hcall, hstep⟩ := step_return hm h hinst himage hop hframes
  refine ⟨caller, hlatest, hcall, ?_⟩
  obtain ⟨frame, rest, base, hframes', hplaced, -, -⟩ := h.stacked.innermost
  obtain ⟨rfl, rfl⟩ : frame = ⟨some index, procedure⟩ ∧ rest = frames := by
    simpa [hframes'] using hframes
  obtain ⟨hlow, -, -, hhigh⟩ := hbalanced.between hm hlayout
  obtain ⟨-, hexact⟩ :=
    leave_exact hm hbalanced.framed hframes hplaced.inside hinst hlow hhigh hop
  have hshifts : Shifts p (innermost s) inst (Interpreter.step p s.store (innermost s)).1
      (Interpreter.step p s.store (innermost s)).2 := by
    rw [step_eq s.store (himage ▸ hinst)]
    exact execute_shifts
  rw [hstep] at hshifts
  simp only [Shifts, hop] at hshifts
  have hcallers := hbalanced.callers
  have hstacked := h.stacked
  rw [hframes] at hcallers hstacked
  obtain ⟨caller₀, base₀, -, hrest, hstackedCaller, -⟩ := hstacked.caller
  obtain ⟨frame₀, rest₀, -, hnonempty, -⟩ := hstackedCaller.innermost
  obtain ⟨caller', rfl, -, hlatest', hps⟩ := hcallers.caller (by simp [hrest, hnonempty])
  obtain rfl : caller' = caller := Option.some.inj (hlatest'.symm.trans hlatest)
  obtain rfl : ps = caller'.ps := by
    rw [← Int32.toInt_inj, hshifts, hexact, hps]
  exact hstep

omit hm himage hlayout in
theorem frame_below {frame : Frame} {rest : List Frame}
    (hentered : entered m.code (innermost s) = frame :: rest) :
    (rest = [] ∧ (innermost s).ps.toInt = entryPs s.bracket - frame.procedure.frameSize.toInt) ∨
    ∃ caller, latest? (s.outer.length, rest.length) (s :: past) = some caller ∧
      caller.frames = rest ∧
      (innermost s).ps.toInt = caller.ps.toInt - frame.procedure.frameSize.toInt := by
  have hps := hbalanced.framed.ps
  rw [hentered, framePs] at hps
  have hcallers : Callers (s :: past) s.outer.length (entryPs s.bracket) (frame :: rest) := by
    have hcallers := hbalanced.callers
    unfold entered at hentered
    split at hentered
    · obtain ⟨frame₀, rest₀, -, hframes, -⟩ := h.stacked.innermost
      rw [hframes, List.tail_cons] at hentered
      rw [hframes, hentered] at hcallers
      obtain ⟨caller, hcaller, hrest, -⟩ := hcallers.caller (by simp)
      rwa [hcaller]
    · rwa [hentered] at hcallers
  by_cases hrest : rest = []
  · subst hrest
    exact Or.inl ⟨rfl, hps⟩
  · obtain ⟨caller, rfl, -, hlatest, hcaller⟩ := hcallers.caller hrest
    exact Or.inr ⟨caller, hlatest, rfl, by omega⟩

omit himage in
theorem exactAt (hinst : m.code[(innermost s).pc]? = some inst) :
    ExactAt m.code (innermost s) inst := by
  obtain ⟨frame, rest, base, hframes, hplaced, -, -⟩ := h.stacked.innermost
  obtain ⟨hlow, -, -, hhigh⟩ := hbalanced.between hm hlayout
  have hrule := hm.rules.instructions _ inst hinst
  have hsize := hm.frameSize_bounds hplaced.inside.mem
  have hframed := hbalanced.framed
  unfold ExactAt
  split
  · rename_i hop
    exact (enter_exact hm hframed hframes hplaced.inside hinst hlow hhigh hop).1
  · rename_i hop
    exact (leave_exact hm hframed hframes hplaced.inside hinst hlow hhigh hop).1
  · rename_i hop
    simp only [InstructionRule, hop] at hrule
    obtain ⟨frameSize, hinFrame, hmin, hmax, -⟩ := hrule
    rw [← frameSize_of_inFrame hm hplaced.inside hinFrame] at hmax
    exact toInt_add_exact (by omega) (by omega)
  · have hfour : (4 : Word).toInt = 4 := by decide
    have height : (8 : Word).toInt = 8 := by decide
    refine ⟨?_, ?_, ?_⟩
    · rw [toInt_add_exact (by omega) (by omega), hfour]
    · rw [toInt_sub_exact (by omega) (by omega), hfour]
    · intro i hi
      simp only [maxSyscallArgs] at hi
      have hindex : (Int32.ofNat i).toInt = i := Int32.toInt_ofNat_of_lt (by omega)
      have hbytes : (4 * Int32.ofNat i).toInt = 4 * i := by
        rw [Int32.toInt_mul, hfour, hindex]
        exact Int.bmod_eq_of_le (by omega) (by omega)
      have hargs : ((innermost s).ps + 8).toInt = (innermost s).ps.toInt + 8 := by
        rw [toInt_add_exact (by omega) (by omega), height]
      rw [toInt_add_exact (by omega) (by omega), hargs, hbytes]
  · rename_i hop
    rintro ⟨width, hload⟩
    simp only [InstructionRule, hop] at hrule
    obtain ⟨frameSize, hinFrame, hload'⟩ := hrule
    obtain ⟨hmin, hmax⟩ := hload' width hload
    rw [← frameSize_of_inFrame hm hplaced.inside hinFrame] at hmax
    exact toInt_add_exact (by omega) (by omega)
  · exact True.intro

omit himage in
theorem confined_in_frame (addr : Word) (haligned : addr.toInt % 4 = 0)
    (hlow : (innermost s).ps.toInt ≤ addr.toInt)
    (hhigh : addr.toInt + 4 ≤ framePs (entryPs s.bracket) (innermost s).frames.tail + 8) :
    Confined p.stackBottom s.store.arena addr ∧ ∀ x ∈ otherFrames s, addr.toInt + 4 ≤ x + 8 := by
  have hothers : ∀ x ∈ otherFrames s, _ ∧ _ :=
    fun x hx => mem_otherFrames_bounds hm hlayout hbalanced h hx
  have hcaller := hothers _ (List.mem_append_left _ (framePs_mem_frameStarts _ _))
  have hbottom := hbalanced.framed.low
  have harena := hbalanced.arena
  refine ⟨confined_of_bounds (harena ▸ hlayout) haligned (by omega) (by omega), ?_⟩
  intro x hx
  have := hothers x hx
  omega

omit himage in
/-- What an instruction of the code makes the machine store. -/
theorem instructionWrites_confined (hinst : m.code[(innermost s).pc]? = some inst)
    {write : Word × Word} (hwrite : write ∈ instructionWrites s.store (innermost s) inst) :
    Confined p.stackBottom s.store.arena write.1 ∧
      ∀ x ∈ otherFrames s, write.1.toInt + 4 ≤ x + 8 := by
  have haligned := (hbalanced.between hm hlayout).2.2.1
  have hcaller := ps_le_caller hm hbalanced h
  have hexact := exactAt hm hlayout h hbalanced hinst
  have hconfined : ∀ addr : Word, _ → _ → _ → _ :=
    fun addr => confined_in_frame hm hlayout h hbalanced addr
  unfold instructionWrites at hwrite
  split at hwrite
  · rename_i hop _
    simp only [ExactAt, hop] at hexact
    rcases List.mem_cons.mp hwrite with rfl | hwrite
    · exact hconfined (innermost s).ps haligned (Int.le_refl _) (by omega)
    · split at hwrite
      · obtain rfl := List.mem_singleton.mp hwrite
        obtain ⟨hid, -⟩ := hexact
        exact hconfined ((innermost s).ps + 4) (by omega) (by omega) (by omega)
      · cases hwrite
  · rename_i hop _
    simp only [ExactAt, hop] at hexact
    obtain rfl := List.mem_singleton.mp hwrite
    have hrule := hm.rules.instructions _ inst hinst
    simp only [InstructionRule, hop] at hrule
    obtain ⟨frameSize, hinFrame, hmin, hmax, hoperand⟩ := hrule
    obtain ⟨frame, rest, base, hframes, hplaced, -, -⟩ := h.stacked.innermost
    rw [← frameSize_of_inFrame hm hplaced.inside hinFrame] at hmax
    have hps := hbalanced.framed.ps
    rw [entered_of_op hinst (by simp [hop]), hframes, framePs] at hps
    rw [hframes, List.tail_cons] at hconfined
    exact hconfined ((innermost s).ps + inst.operand) (by omega) (by omega) (by omega)
  · cases hwrite

omit himage h in
theorem entry_below {a : Activation} {service : Service δ Word}
    (hcontrol : s.control = .serving a service) : EntryFits p s.store ∧
      ∀ args, ∀ write ∈ entryWrites p s.store args, write.1.toInt + 4 ≤ a.ps.toInt := by
  obtain rfl := innermost_serving hcontrol
  obtain ⟨hlow, hhigh, haligned, -⟩ := hbalanced.between hm hlayout
  have hpublished := hbalanced.published _ _ hcontrol
  have hbottom := hbalanced.framed.low
  have harena := hbalanced.arena
  have hfits : EntryFits p s.store :=
    entryFits_of_bounds (harena ▸ hlayout) (by omega) (by omega) (by omega)
  refine ⟨hfits, ?_⟩
  intro args write hwrite
  obtain ⟨j, hj, heq⟩ := hfits.words args write hwrite
  simp only [maxCallArgs, entryFrameSize] at hj heq
  omega

theorem ownWrites_confined {write : Word × Word} (hwrite : write ∈ ownWrites p s) :
    Confined p.stackBottom s.store.arena write.1 ∧
      ∀ x ∈ otherFrames s, write.1.toInt + 4 ≤ x + 8 := by
  cases hcontrol : s.control with
  | running a =>
      obtain rfl := innermost_running hcontrol
      simp only [ownWrites, hcontrol, himage] at hwrite
      split at hwrite
      · rename_i inst hinst
        exact instructionWrites_confined hm hlayout h hbalanced hinst hwrite
      · cases hwrite
  | serving a service =>
      cases service with
      | reenter args next =>
          simp only [ownWrites, hcontrol] at hwrite
          obtain ⟨hfits, hbelow⟩ := entry_below hm hlayout hbalanced hcontrol
          refine ⟨hfits.confined args write hwrite, ?_⟩
          intro x hx
          have hle := hbelow args write hwrite
          rw [← innermost_serving hcontrol] at hle
          have hcaller := ps_le_caller hm hbalanced h
          have := (mem_otherFrames_bounds hm hlayout hbalanced h hx).1
          omega
      | _ => simp [ownWrites, hcontrol] at hwrite

end

theorem conclude_arena (store : Store) (data : δ) (bracket : Bracket)
    (outer : List (Suspended δ Activation)) (result : Except Failure Word) :
    (storeAfter (Machine.conclude store data bracket outer result)).arena = store.arena := by
  rw [Machine.conclude, deliver_store]
  rfl

theorem perform_arena (data : δ) (bracket : Bracket) (outer : List (Suspended δ Activation))
    (store : Store) (move : Move Activation) :
    (storeAfter (Machine.perform p syscalls data bracket outer store move)).arena = store.arena := by
  cases move with
  | crash => rfl
  | proceed a => rfl
  | finish value => exact conclude_arena ..
  | trap a t =>
      refine (conclude_arena ..).trans ?_
      exact note_arena ..
  | syscall a id frame =>
      simp only [Machine.perform]
      split
      · rw [conclude_arena]
        exact congrArg Store.arena (rejected_store ..)
      · rw [storeAfter, note_arena]

theorem call_arena_eq (store : Store) (data : δ) (outer : List (Suspended δ Activation))
    (args : List Word) : (storeAfter (Machine.call p syscalls store data outer args)).arena =
      writeAll store.arena (entryWrites p store args) := by
  rcases call_entry_cases p syscalls store data outer args with
    ⟨hnone, failure, heq⟩ | ⟨hnone, failure, heq⟩ | ⟨-, store', rfl, heq⟩
  · rw [heq, deliver_store, hnone, writeAll]
  · rw [heq, conclude_arena, hnone, writeAll]
  · rw [heq, perform_arena, start]
    rcases enterProcedure_cases p _ ⟨0, _, store.operandTop, []⟩ 0 none with
      ⟨-, henter⟩ | ⟨procedure, -, ⟨-, henter⟩ | ⟨-, henter⟩⟩ <;> rw [henter]

theorem step_arena (hnot : ¬ StoresForOthers p s) :
    (storeAfter (Machine.step p syscalls s)).arena = writeAll s.store.arena (ownWrites p s) := by
  obtain ⟨store, data, control, bracket, outer⟩ := s
  cases control with
  | running a =>
      have hperform : (storeAfter (Machine.step p syscalls
          ⟨store, data, .running a, bracket, outer⟩)).arena = (step p store a).1.arena :=
        perform_arena ..
      rw [hperform]
      simp only [ownWrites]
      cases hinst : p.image.code[a.pc]? with
      | none => simp only [step, hinst, writeAll]
      | some inst =>
          have hop : ¬ ((∃ width, inst.op = .store width) ∨ inst.op = .blockCopy) :=
            fun hop => hnot ⟨inst, hinst, hop⟩
          have hwrites : instructionWrites (logged store a inst) a inst =
              instructionWrites store a inst := by
            unfold instructionWrites
            rw [top?_logged]
          rw [step_eq store hinst, execute_arena (fun width h => hop (Or.inl ⟨width, h⟩))
            (fun h => hop (Or.inr h)), hwrites, logged, note_arena]
  | serving a service =>
      cases service with
      | fail failure =>
          refine (conclude_arena ..).trans ?_
          exact congrArg Store.arena (rejected_store ..)
      | write addr bytes next => exact absurd True.intro hnot
      | reenter args next => exact call_arena_eq store data _ args
      | _ => rfl

include hm himage hlayout h hbalanced in
theorem disciplined : Disciplined m p syscalls size past s := by
  obtain ⟨hlow, hhigh, haligned, -⟩ := hbalanced.between hm hlayout
  refine ⟨hbalanced, haligned, ⟨hbalanced.framed.low, by omega⟩, ?_, ?_, ?_, ?_, ?_, ?_,
    step_arena⟩
  · intro frame rest hentered
    exact frame_below h hbalanced hentered
  · intro x hx
    have hbottom := hbalanced.framed.low
    have hcaller := ps_le_caller hm hbalanced h
    have := mem_otherFrames_bounds hm hlayout hbalanced h hx
    omega
  · intro a inst hcontrol hinst hop index procedure frames hframes
    exact return_restores hm himage hlayout h hbalanced hcontrol hinst hop hframes
  · intro inst hinst
    exact exactAt hm hlayout h hbalanced hinst
  · intro a service hcontrol
    exact entry_below hm hlayout hbalanced hcontrol
  · intro write hwrite
    exact ownWrites_confined hm himage hlayout h hbalanced hwrite

end

/-- The program stack is confined, aligned and balanced in every run of every instance, and
so is the entry frame of every call by the host. -/
theorem program_stack_confined {name : String} {image : Image} {m : Module} {canCompile : Bool}
    {settings : Settings} {syscalls : Syscalls δ} {data : δ} {journal : Journal} {i : Instance δ}
    (hload : Module.load name image = .ok m)
    (hcreate : Instance.create canCompile settings m syscalls data journal = .ok i) :
    Layout m i.store.arena.size i.program.stackBottom ∧
    (∀ past s, Run i.program i.syscalls i.store past (.next s) →
      Disciplined m i.program i.syscalls i.store.arena.size past s) ∧
    ∀ store, (store = i.store ∨ ∃ past data result,
        Run i.program i.syscalls i.store past (.done store data result)) →
      store.arena.size = i.store.arena.size ∧ store.programStack.toInt = store.arena.size ∧
      EntryFits i.program store ∧
      ∀ data args, (storeAfter (Machine.call i.program i.syscalls store data [] args)).arena =
        writeAll store.arena (entryWrites i.program store args) := by
  obtain ⟨hlayout, hps⟩ := layout_of_create hload hcreate
  obtain ⟨hprogram, -, -, hrest⟩ := create_eq_ok hcreate
  have hm := sound_of_load hload
  have himage : i.program.image = m := by rw [hprogram]
  have hbalanced : ∀ past t, Run i.program i.syscalls i.store past t →
      StaysBalanced m i.program.stackBottom i.store.arena.size past t :=
    fun past t hrun => run_balanced hm himage hlayout hrest rfl hps hrun
  refine ⟨hlayout, ?_, ?_⟩
  · intro past s hrun
    exact disciplined hm himage hlayout (run_keeps hm himage hrest hrun) (hbalanced _ _ hrun)
  · intro store hstore
    obtain ⟨harena, hps⟩ : store.arena.size = i.store.arena.size ∧
        store.programStack.toInt = i.store.arena.size := by
      rcases hstore with rfl | ⟨past, data, result, hrun⟩
      · exact ⟨rfl, hps⟩
      · exact hbalanced _ _ hrun
    have hmod := size_mod_four hlayout
    have hbottom := hlayout.bottom_eq
    refine ⟨harena, by omega, ?_, fun data args => call_arena_eq store data [] args⟩
    exact entryFits_of_bounds (harena ▸ hlayout) (by omega) (by omega) (by omega)

theorem program_stack_confined_unfedLoad : ∃ (i : Instance Unit) (s₀ s : State Unit Activation),
    Instance.create false {} unfedLoadModule {} () {} = .ok i ∧
    Run i.program i.syscalls i.store [s₀] (.next s) ∧
    Layout unfedLoadModule i.store.arena.size i.program.stackBottom ∧
    Disciplined unfedLoadModule i.program i.syscalls i.store.arena.size [s₀] s := by
  obtain ⟨i, s₀, s, ps, hcreate, hrun, -, -⟩ := unfedLoad_run
  obtain ⟨hlayout, hdisciplined, -⟩ := program_stack_confined load_unfedLoad hcreate
  exact ⟨i, s₀, s, hcreate, hrun, hlayout, hdisciplined _ s hrun⟩

end SandboxVm.Proofs.StackConfinement
