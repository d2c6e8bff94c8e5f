import SandboxVm.Proofs.StackPointer

namespace SandboxVm.Proofs.ProgramStack

open SandboxVm.Interpreter
open SandboxVm.Proofs.VerificationRules
open SandboxVm.Proofs.LoadedModule
open SandboxVm.Proofs.InterpretedInstruction
open SandboxVm.Proofs.ControlTransfer
open SandboxVm.Proofs.MachineRun
open SandboxVm.Proofs.FrameStack
open SandboxVm.Proofs.RunInvariant
open SandboxVm.Proofs.EntryCall
open SandboxVm.Proofs.ControlFlow
open SandboxVm.Proofs.ArenaLayout
open SandboxVm.Proofs.StackPointer

variable {δ : Type}

/-- Where the frame of the innermost one of some procedures starts, below an entry frame. -/
def framePs (entry : Int) : List Frame → Int
  | [] => entry
  | frame :: frames => framePs entry frames - frame.procedure.frameSize.toInt

def entryPs (b : Bracket) : Int := b.programStack.toInt - entryFrameSize

/-- The procedures in progress that have their frames. The innermost one gets its
frame from its `enter`. -/
def entered (code : Code) (a : Activation) : List Frame :=
  if opAt? code a.pc = some .enter then a.frames.tail else a.frames

/-- The stack pointer of `a` is that of the innermost frame. -/
structure Framed (m : Module) (bottom : Word) (entry : Int) (a : Activation) : Prop where
  procedures : ∀ frame ∈ a.frames, frame.procedure ∈ m.procedures
  ps : a.ps.toInt = framePs entry (entered m.code a)
  low : bottom.toInt ≤ a.ps.toInt

/-- The callers of the innermost one of `frames`, as they were when they were last seen,
were at their frames. -/
inductive Callers (trace : List (State δ Activation)) (outer : Nat) (entry : Int) :
    List Frame → Prop where
  | entry (frame : Frame) : Callers trace outer entry [frame]
  | inner {frame : Frame} {caller : Activation} (h : Callers trace outer entry caller.frames)
      (hlatest : latest? (outer, caller.frames.length) trace = some caller)
      (hps : caller.ps.toInt = framePs entry caller.frames) :
      Callers trace outer entry (frame :: caller.frames)

/-- The calls around a call with bracket `b`. The stack of a call starts a word below
the code that waits for it, and that of the outermost call at the end of the arena. -/
def Waiting (m : Module) (bottom : Word) (size : Nat) (trace : List (State δ Activation)) :
    Bracket → List (Suspended δ Activation) → Prop
  | b, [] => b.programStack.toInt = size
  | b, w :: outer =>
    b.programStack.toInt = w.activation.ps.toInt - 4 ∧
    Framed m bottom (entryPs w.bracket) w.activation ∧
    Callers trace outer.length (entryPs w.bracket) w.activation.frames ∧
    Waiting m bottom size trace w.bracket outer

/-- The program stack in a state that is reached through the states `past`. -/
structure Balanced (m : Module) (bottom : Word) (size : Nat) (past : List (State δ Activation))
    (s : State δ Activation) : Prop where
  arena : s.store.arena.size = size
  framed : Framed m bottom (entryPs s.bracket) (innermost s)
  callers : Callers (s :: past) s.outer.length (entryPs s.bracket) (innermost s).frames
  waiting : Waiting m bottom size (s :: past) s.bracket s.outer
  published : ∀ a service, s.control = .serving a service →
    s.store.programStack.toInt = a.ps.toInt - 4

def StaysBalanced (m : Module) (bottom : Word) (size : Nat) (past : List (State δ Activation)) :
    Transition δ Activation → Prop
  | .next s => Balanced m bottom size past s
  | .done store _ _ => store.arena.size = size ∧ store.programStack.toInt = size
  | .crashed _ _ => True

/-! ### Bounds -/

section

variable {m : Module} {bottom : Word} {size : Nat} {entry : Int} {a : Activation}
  {trace : List (State δ Activation)}

theorem size_mod_four (h : Layout m size bottom) : size % 4 = 0 := by
  obtain ⟨k, hk⟩ := h.power
  have hfits := h.fits
  simp only [programStackSize] at hfits
  have htwo : 2 ≤ k := by
    apply Decidable.byContradiction
    intro hlt
    have : 2 ^ k ≤ 2 ^ 1 := Nat.pow_le_pow_right (by omega) (by omega)
    omega
  rw [hk, ← Nat.sub_add_cancel htwo, Nat.pow_add]
  omega

variable (hm : Sound m)

include hm

theorem framePs_bounds {frames : List Frame}
    (h : ∀ frame ∈ frames, frame.procedure ∈ m.procedures) :
    framePs entry frames ≤ entry ∧ framePs entry frames % 4 = entry % 4 := by
  induction frames with
  | nil => exact ⟨Int.le_refl _, rfl⟩
  | cons frame frames ih =>
      have hsize := hm.frameSize_bounds (h frame (List.mem_cons_self ..))
      have hrest := ih fun frame' hframe' => h frame' (List.mem_cons_of_mem _ hframe')
      simp only [framePs]
      omega

theorem Framed.bounds (h : Framed m bottom entry a) :
    a.ps.toInt ≤ entry ∧ a.ps.toInt % 4 = entry % 4 := by
  have hentered : ∀ frame ∈ entered m.code a, frame.procedure ∈ m.procedures := by
    intro frame hframe
    unfold entered at hframe
    split at hframe
    · exact h.procedures frame (List.mem_of_mem_tail hframe)
    · exact h.procedures frame hframe
  rw [h.ps]
  exact framePs_bounds hm hentered

theorem Waiting.bounds (hlayout : Layout m size bottom) {b : Bracket}
    {outer : List (Suspended δ Activation)} (h : Waiting m bottom size trace b outer) :
    bottom.toInt - 4 ≤ b.programStack.toInt ∧ b.programStack.toInt ≤ size ∧
      b.programStack.toInt % 4 = 0 := by
  have hmod := size_mod_four hlayout
  have hbottom := hlayout.bottom_eq
  simp only [programStackSize] at hbottom
  induction outer generalizing b with
  | nil =>
      simp only [Waiting] at h
      omega
  | cons w outer ih =>
      obtain ⟨hps, hframed, -, hrest⟩ := h
      have hbounds := hframed.bounds hm
      have hentry : entryPs w.bracket = w.bracket.programStack.toInt - 60 := rfl
      have hlow := hframed.low
      have := ih hrest
      omega

theorem Framed.between (hlayout : Layout m size bottom) {b : Bracket}
    {outer : List (Suspended δ Activation)} (h : Framed m bottom (entryPs b) a)
    (hwaiting : Waiting m bottom size trace b outer) :
    0 ≤ a.ps.toInt ∧ a.ps.toInt ≤ (size : Int) - 60 ∧ a.ps.toInt % 4 = 0 := by
  have hbounds := h.bounds hm
  have hentry : entryPs b = b.programStack.toInt - 60 := rfl
  have hstack := Waiting.bounds hm hlayout hwaiting
  have hlow := h.low
  have hstatic := hlayout.static_le
  omega

theorem frameSize_of_inFrame {procedure : Procedure} {i : Nat} {frameSize : Word}
    (hinside : Inside m procedure i) (h : InFrame m.code i frameSize) :
    procedure.frameSize = frameSize := by
  obtain ⟨s, e, enter, hspan, hstart, hlast, henter, rfl⟩ := h
  have hprocedure := hm.mem_procedures_iff.mp hinside.mem
  have heq : procedure.start = s := by
    rcases Nat.lt_trichotomy procedure.start s with hlt | heq | hlt
    · exact absurd hspan.enters (hm.rules.unnested _ _ hprocedure.span s hlt
        (Nat.le_trans hstart hinside.le_last))
    · exact heq
    · exact absurd hprocedure.span.enters (hm.rules.unnested _ _ hspan _ hlt
        (Nat.le_trans hinside.start_le hlast))
  exact hprocedure.frameSize enter (heq ▸ henter)

end

/-! ### What a step leads to -/

section

variable {m : Module} {bottom : Word} {size : Nat} {entry : Int} {outer : Nat}
  {trace : List (State δ Activation)} {frames : List Frame}

theorem Callers.grow {s : State δ Activation} (h : Callers trace outer entry frames)
    (hlevel : (level s).1 ≠ outer ∨ frames.length ≤ (level s).2) :
    Callers (s :: trace) outer entry frames := by
  induction h with
  | entry frame => exact .entry frame
  | inner h hlatest hps ih =>
      simp only [List.length_cons] at hlevel
      refine .inner (ih (by omega)) ?_ hps
      rw [latest?_cons_of_ne, hlatest]
      rintro heq
      simp only [heq] at hlevel
      omega

theorem Callers.caller {frame : Frame} (h : Callers trace outer entry (frame :: frames))
    (hframes : frames ≠ []) :
    ∃ caller : Activation, frames = caller.frames ∧ Callers trace outer entry caller.frames ∧
      latest? (outer, caller.frames.length) trace = some caller ∧
      caller.ps.toInt = framePs entry caller.frames := by
  cases h with
  | entry frame => exact absurd rfl hframes
  | @inner frame caller h hlatest hps => exact ⟨caller, rfl, h, hlatest, hps⟩

theorem Waiting.grow {s : State δ Activation} {b : Bracket}
    {suspended : List (Suspended δ Activation)} (h : Waiting m bottom size trace b suspended)
    (hlevel : suspended.length ≤ (level s).1) : Waiting m bottom size (s :: trace) b suspended := by
  induction suspended generalizing b with
  | nil => exact h
  | cons w outer ih =>
      rw [List.length_cons] at hlevel
      obtain ⟨hps, hframed, hcallers, hrest⟩ := h
      exact ⟨hps, hframed, hcallers.grow (Or.inl (by omega)), ih hrest (by omega)⟩

end

section

variable {m : Module} {p : Program} {size : Nat} {syscalls : Syscalls δ}
  {past : List (State δ Activation)} {store : Store} {data : δ} {bracket : Bracket}
  {outer : List (Suspended δ Activation)}

theorem deliver_balanced (h : Waiting m p.stackBottom size past bracket outer)
    (harena : store.arena.size = size)
    (hps : store.programStack.toInt = bracket.programStack.toInt) (result : Except Failure Word) :
    StaysBalanced m p.stackBottom size past (Machine.deliver store data result outer) := by
  cases outer with
  | nil => exact ⟨harena, hps.trans h⟩
  | cons w outer =>
      obtain ⟨hps', hframed, hcallers, hrest⟩ := h
      refine ⟨harena, hframed, hcallers.grow (Or.inr (Nat.le_refl _)), hrest.grow (Nat.le_refl _), ?_⟩
      rintro a service ⟨⟩
      exact hps.trans hps'

theorem conclude_balanced (h : Waiting m p.stackBottom size past bracket outer)
    (harena : store.arena.size = size) (result : Except Failure Word) :
    StaysBalanced m p.stackBottom size past
      (Machine.conclude store data bracket outer result) := by
  have harena' : (store.conclude bracket).arena.size = size := harena
  exact deliver_balanced h harena' rfl result

theorem trap_balanced (h : Waiting m p.stackBottom size past bracket outer)
    (harena : store.arena.size = size) (a : Activation) (t : Trap) :
    StaysBalanced m p.stackBottom size past
      (Machine.perform p syscalls data bracket outer store (.trap a t)) := by
  refine conclude_balanced h ?_ _
  exact (congrArg Arena.size (note_arena ..)).trans harena

theorem reject_balanced (h : Waiting m p.stackBottom size past bracket outer)
    (harena : store.arena.size = size) (a : Activation) (failure : Failure) :
    StaysBalanced m p.stackBottom size past
      (Machine.conclude (rejected p store a failure).1 data bracket outer
        (.error (rejected p store a failure).2)) := by
  rw [rejected_store]
  exact conclude_balanced h harena _

variable (hm : Sound m) (himage : p.image = m)

include hm himage

theorem start_balanced (h : Waiting m p.stackBottom size past bracket outer)
    (harena : store.arena.size = size) {frame : Word} (hframe : frame.toInt = entryPs bracket)
    (hlow : ¬ frame < p.stackBottom) :
    StaysBalanced m p.stackBottom size past
      (Machine.perform p syscalls data bracket outer (start p store frame).1
        (start p store frame).2) := by
  rcases enterProcedure_cases p store ⟨0, frame, store.operandTop, []⟩ 0 none with
    ⟨-, heq⟩ | ⟨procedure, hprocedure, ⟨-, heq⟩ | ⟨hlt, heq⟩⟩
  · rw [start, heq]
    exact trap_balanced h harena _ _
  · rw [start, heq]
    exact trap_balanced h harena _ _
  · rw [start, heq]
    rw [himage] at hprocedure
    obtain ⟨hmem, hstart⟩ := hm.procedureAt?_eq_some_iff.mp hprocedure
    obtain ⟨enter, henter, hop, -⟩ := hm.exists_enter hmem
    rw [hstart] at henter
    have hentering : opAt? m.code 0 = some .enter := by rw [opAt?_eq_some henter, hop]
    rw [Int32.lt_iff_toInt_lt] at hlow
    refine ⟨harena, ⟨?_, ?_, Int.not_lt.mp hlow⟩, .entry _, h.grow (Nat.le_refl _), ?_⟩
    · simp only [innermost, List.mem_singleton, forall_eq]
      exact hmem
    · simp only [innermost, entered, hentering, if_pos, List.tail_cons, framePs]
      exact hframe
    · rintro a service ⟨⟩

variable (hlayout : Layout m size p.stackBottom)

include hlayout

theorem call_balanced (h : Waiting m p.stackBottom size past store.bracket outer)
    (harena : store.arena.size = size) (args : List Word) :
    StaysBalanced m p.stackBottom size past
      (Machine.call p syscalls store data outer args) := by
  rcases call_entry_cases p syscalls store data outer args with
    ⟨-, failure, heq⟩ | ⟨-, failure, heq⟩ | ⟨hfits, store', hstore, heq⟩
  · rw [heq]
    exact deliver_balanced h harena rfl _
  · have harena' : ({ store with callLevel := store.callLevel + 1 } : Store).arena.size = size :=
      harena
    rw [heq]
    exact conclude_balanced h harena' _
  · have harena' : store'.arena.size = size := by
      rw [hstore, size_writeAll, harena]
    have hstack := Waiting.bounds hm hlayout h
    have hframe : (store.programStack - Int32.ofNat entryFrameSize).toInt = entryPs store.bracket := by
      have hbottom := hlayout.static_le
      have hbounded := hlayout.bounded
      have hsize : (Int32.ofNat entryFrameSize).toInt = 60 := by decide
      rw [toInt_sub_exact, hsize]
      · rfl
      · simp only [Store.bracket] at hstack
        omega
      · simp only [Store.bracket] at hstack
        omega
    rw [heq]
    exact start_balanced hm himage h harena' hframe hfits

end

section

variable {m : Module} {p : Program} {bottom : Word} {size : Nat} {entry : Int} {a a' : Activation}
  {inst : AnnotatedInstruction} (hm : Sound m)

theorem entered_of_op (hinst : m.code[a.pc]? = some inst) (hop : inst.op ≠ .enter) :
    entered m.code a = a.frames := by
  unfold entered
  rw [opAt?_eq_some hinst, if_neg]
  simp [hop]

theorem entered_of_enter (hinst : m.code[a.pc]? = some inst) (hop : inst.op = .enter) :
    entered m.code a = a.frames.tail := by
  unfold entered
  rw [opAt?_eq_some hinst, hop, if_pos rfl]

include hm

theorem operand_of_enter {procedure : Procedure} {i : Nat} (hinside : Inside m procedure i)
    (hinst : m.code[i]? = some inst) (hop : inst.op = .enter) :
    inst.operand = procedure.frameSize := by
  have hprocedure := hm.mem_procedures_iff.mp hinside.mem
  obtain rfl : procedure.start = i := by
    apply Decidable.byContradiction
    intro hne
    refine hm.rules.unnested _ _ hprocedure.span i (Nat.lt_of_le_of_ne hinside.start_le hne)
      hinside.le_last ?_
    rw [opAt?_eq_some hinst, hop]
  exact (hprocedure.frameSize inst hinst).symm

theorem operand_of_leave {procedure : Procedure} {i : Nat} (hinside : Inside m procedure i)
    (hinst : m.code[i]? = some inst) (hop : inst.op = .leave) :
    inst.operand = procedure.frameSize := by
  have hrule := hm.rules.instructions i inst hinst
  simp only [InstructionRule, hop] at hrule
  exact (frameSize_of_inFrame hm hinside hrule.2).symm

variable {frame : Frame} {rest : List Frame} (h : Framed m bottom entry a)
  (hframes : a.frames = frame :: rest) (hinside : Inside m frame.procedure a.pc)
  (hinst : m.code[a.pc]? = some inst) (hlow : 0 ≤ a.ps.toInt) (hhigh : a.ps.toInt < 2 ^ 30)

include h hframes hinside hinst hlow hhigh

theorem leave_exact (hop : inst.op = .leave) :
    (a.ps + inst.operand).toInt = a.ps.toInt + inst.operand.toInt ∧
      (a.ps + inst.operand).toInt = framePs entry rest := by
  have hsize := hm.frameSize_bounds hinside.mem
  have hhere := h.ps
  rw [entered_of_op hinst (by simp [hop]), hframes, framePs] at hhere
  rw [operand_of_leave hm hinside hinst hop, toInt_add_exact (by omega) (by omega)]
  omega

theorem enter_exact (hop : inst.op = .enter) :
    (a.ps - inst.operand).toInt = a.ps.toInt - inst.operand.toInt ∧
      (a.ps - inst.operand).toInt = framePs entry a.frames := by
  have hsize := hm.frameSize_bounds hinside.mem
  have hhere := h.ps
  rw [entered_of_enter hinst hop, hframes, List.tail_cons] at hhere
  rw [operand_of_enter hm hinside hinst hop, toInt_sub_exact (by omega) (by omega), hframes,
    framePs]
  omega

end

section

variable {m : Module} {p : Program} {entry : Int} {a a' : Activation} {inst : AnnotatedInstruction}
  {store' : Store} {frame : Frame} {rest : List Frame} (hm : Sound m)
  (h : Framed m p.stackBottom entry a) (hframes : a.frames = frame :: rest)
  (hinside : Inside m frame.procedure a.pc) (hinst : m.code[a.pc]? = some inst)
  (hlow : 0 ≤ a.ps.toInt) (hhigh : a.ps.toInt < 2 ^ 30)
  (hshifts : Shifts p a inst store' (.proceed a'))

include hm h hframes hinside hinst hlow hhigh hshifts

theorem Framed.within (hop : inst.op ≠ .leave) (hframes' : a'.frames = a.frames)
    (hentered : entered m.code a' = a'.frames) : Framed m p.stackBottom entry a' := by
  have hprocedures : ∀ frame ∈ a'.frames, frame.procedure ∈ m.procedures :=
    hframes' ▸ h.procedures
  by_cases henter : inst.op = .enter
  · simp only [Shifts, henter] at hshifts
    obtain ⟨hps, hfits⟩ := hshifts
    rw [Int32.lt_iff_toInt_lt] at hfits
    refine ⟨hprocedures, ?_, Int.not_lt.mp hfits⟩
    rw [hps, hentered, hframes']
    exact (enter_exact hm h hframes hinside hinst hlow hhigh henter).2
  · have hps := hshifts.kept henter hop
    refine ⟨hprocedures, ?_, hps ▸ h.low⟩
    rw [hps, hentered, hframes', h.ps, entered_of_op hinst henter]

theorem Framed.returned (hop : inst.op = .leave) (hframes' : a'.frames = rest)
    (hentered : entered m.code a' = a'.frames) : Framed m p.stackBottom entry a' := by
  simp only [Shifts, hop] at hshifts
  obtain ⟨hexact, hrest⟩ := leave_exact hm h hframes hinside hinst hlow hhigh hop
  have hsize := hm.frameSize_bounds hinside.mem
  have hoperand := operand_of_leave hm hinside hinst hop
  have hbottom := h.low
  refine ⟨fun frame' hframe' => h.procedures frame' ?_, ?_, ?_⟩
  · rw [hframes]
    exact List.mem_cons_of_mem _ (hframes' ▸ hframe')
  · rw [hshifts, hentered, hframes', hrest]
  · rw [hshifts, hexact, hoperand]
    omega

omit hm hframes hinside hlow hhigh in
/-- The frame of a procedure that has been called is still to be made by its `enter`. -/
theorem Framed.called {callee : Frame} {enter : AnnotatedInstruction} (hop : inst.op = .call)
    (hmem : callee.procedure ∈ m.procedures) (hframes' : a'.frames = callee :: a.frames)
    (henter : m.code[a'.pc]? = some enter) (hop' : enter.op = .enter) :
    Framed m p.stackBottom entry a' := by
  have hps := hshifts.kept (by simp [hop]) (by simp [hop])
  refine ⟨?_, ?_, hps ▸ h.low⟩
  · intro frame' hframe'
    rw [hframes'] at hframe'
    rcases List.mem_cons.mp hframe' with rfl | hrest
    · exact hmem
    · exact h.procedures frame' hrest
  · rw [hps, h.ps, entered_of_op hinst (by simp [hop]), entered_of_enter henter hop', hframes',
      List.tail_cons]

end

section

variable {m : Module} {p : Program} {size : Nat} {syscalls : Syscalls δ}
  {past : List (State δ Activation)} {s : State δ Activation} (hm : Sound m)
  (hlayout : Layout m size p.stackBottom) (h : Invariant m p past s)
  (hbalanced : Balanced m p.stackBottom size past s)

include hm hlayout hbalanced

theorem Balanced.between : 0 ≤ (innermost s).ps.toInt ∧
    (innermost s).ps.toInt ≤ (size : Int) - 60 ∧ (innermost s).ps.toInt % 4 = 0 ∧
      (innermost s).ps.toInt < 2 ^ 30 := by
  have hbetween := hbalanced.framed.between hm hlayout hbalanced.waiting
  have hbounded := hlayout.bounded
  omega

include h

theorem Balanced.proceed {store' : Store} {a' : Activation} {inst : AnnotatedInstruction}
    (hinst : m.code[(innermost s).pc]? = some inst) (htransfer : Transfer m (innermost s) a')
    (hleave : inst.op = .leave → ∃ frame, (innermost s).frames = frame :: a'.frames)
    (hshifts : Shifts p (innermost s) inst store' (.proceed a'))
    (harena : store'.arena.size = size) (data' : δ) :
    Balanced m p.stackBottom size (s :: past)
      { store := store', data := data', control := .running a', bracket := s.bracket
        outer := s.outer } := by
  let s' : State δ Activation :=
    { store := store', data := data', control := .running a', bracket := s.bracket
      outer := s.outer }
  have hcontrol : s'.control = .running a' := rfl
  obtain ⟨frame, rest, base, hframes, hplaced, -, -⟩ := h.stacked.innermost
  obtain ⟨hlow, -, -, hhigh⟩ := hbalanced.between hm hlayout
  have hframed := hbalanced.framed
  obtain ⟨hstacked', hentering⟩ := h.stacked.transfer hm htransfer rfl rfl hcontrol rfl
  have hlevel : level s' = (s.outer.length, a'.frames.length) := rfl
  have hwaiting := hbalanced.waiting.grow (s := s') (Nat.le_refl _)
  have hnot : a'.frames.length ≤ (innermost s).frames.length → entered m.code a' = a'.frames := by
    intro hle
    refine if_neg fun henter => ?_
    obtain ⟨frame', hgrown⟩ := hentering ((isEntering_iff hcontrol).mpr henter)
    rw [hgrown, List.length_cons] at hle
    omega
  suffices hpart : Framed m p.stackBottom (entryPs s.bracket) a' ∧
      Callers (s' :: s :: past) s.outer.length (entryPs s.bracket) a'.frames from
    ⟨harena, hpart.1, hpart.2, hwaiting, fun a service hserving => nomatch hserving⟩
  cases htransfer with
  | within hframes' hinside' hprocedure hinst₀ hinst' hop hdepth =>
      have hop' : inst.op ≠ .leave := by
        intro hop'
        obtain ⟨frame', hshrunk⟩ := hleave hop'
        rw [hframes'] at hshrunk
        exact absurd (congrArg List.length hshrunk) (by simp)
      refine ⟨hframed.within hm hframes hplaced.inside hinst hlow hhigh hshifts hop' hframes'
        (hnot (by rw [hframes'])), ?_⟩
      rw [hframes']
      refine hbalanced.callers.grow (Or.inr ?_)
      rw [hlevel, hframes']
  | @called procedure hcall hmem hpc hsp hframes' =>
      obtain ⟨enter, henter, hop, -⟩ := hm.exists_enter hmem
      rw [← hpc] at henter
      have hcallOp : inst.op = .call := Option.some.inj ((opAt?_eq_some hinst).symm.trans hcall)
      have hcaller := hframed.ps
      rw [entered_of_op hinst (by simp [hcallOp])] at hcaller
      have hlength : a'.frames.length = (innermost s).frames.length + 1 := by simp [hframes']
      refine ⟨hframed.called hinst hshifts hcallOp hmem hframes' henter hop, ?_⟩
      rw [hframes']
      refine .inner (hbalanced.callers.grow (Or.inr ?_)) ?_ hcaller
      · rw [hlevel]
        simp only
        omega
      · rw [latest?_cons_of_ne]
        · exact latest?_cons_self rfl
        · simp [hlevel, hlength]
  | @returned procedure hleaveOp hframes' hsp =>
      have hop : inst.op = .leave := Option.some.inj ((opAt?_eq_some hinst).symm.trans hleaveOp)
      obtain ⟨rfl, rfl⟩ : frame = ⟨some a'.pc, procedure⟩ ∧ rest = a'.frames := by
        simpa [hframes] using hframes'
      refine ⟨hframed.returned hm hframes hplaced.inside hinst hlow hhigh hshifts hop rfl
        (hnot (by rw [hframes']; simp)), ?_⟩
      have hcallers := hbalanced.callers
      rw [hframes] at hcallers
      have hne := (framesIntact_of_stacked hm hstacked').nonempty
      obtain ⟨caller, hcallerFrames, hcaller, -, -⟩ := hcallers.caller hne
      rw [hcallerFrames]
      refine hcaller.grow (Or.inr ?_)
      rw [hlevel, hcallerFrames]

omit hm hlayout h in
theorem Balanced.wait {store' : Store} (harena : store'.arena.size = size)
    (hps : store'.programStack.toInt = (innermost s).ps.toInt - 4) (data' : δ)
    (service : Service δ Word) : Balanced m p.stackBottom size (s :: past)
      { store := store', data := data', control := .serving (innermost s) service
        bracket := s.bracket, outer := s.outer } := by
  refine ⟨harena, hbalanced.framed, hbalanced.callers.grow (Or.inr (Nat.le_refl _)),
    hbalanced.waiting.grow (Nat.le_refl _), ?_⟩
  rintro a service' ⟨⟩
  exact hps

variable (himage : p.image = m)

include himage

theorem effect_balanced {a : Activation} {store₀ store' : Store} {inst : AnnotatedInstruction}
    {move : Move Activation} (hcontrol : s.control = .running a)
    (hoperands₀ : store₀.operands = s.store.operands) (hinst : m.code[a.pc]? = some inst)
    (heffect : Effect p store₀ a inst store' move) (hshifts : Shifts p a inst store' move)
    (harena : store'.arena.size = size) : StaysBalanced m p.stackBottom size (s :: past)
      (Machine.perform p syscalls s.data s.bracket s.outer store' move) := by
  obtain rfl := innermost_running hcontrol
  have hconst₀ := h.constantOnTop hcontrol hoperands₀
  obtain ⟨frame, rest, hframes, hinside, hreturn⟩ := h.exists_frame hcontrol
  obtain ⟨hlow, -, -, hhigh⟩ := hbalanced.between hm hlayout
  have hwaiting : Waiting m p.stackBottom size (s :: past) s.bracket s.outer := hbalanced.waiting
  cases move with
  | proceed a' =>
      obtain ⟨htransfer, -⟩ := transfer_of_effect hm himage hinst hframes hinside hconst₀
        hreturn heffect
      exact hbalanced.proceed hm hlayout h hinst htransfer heffect.frames_of_leave hshifts harena
        s.data
  | syscall a' id frame' =>
      obtain ⟨rfl, hop⟩ := heffect.call_of_syscall
      obtain ⟨-, hps⟩ := hshifts
      have hfour : (4 : Word).toInt = 4 := by decide
      have hpublished : store'.programStack.toInt = (innermost s).ps.toInt - 4 := by
        rw [hps, toInt_sub_exact (by omega) (by omega), hfour]
      simp only [Machine.perform]
      split
      · exact reject_balanced hwaiting harena (innermost s) _
      · refine hbalanced.wait ?_ ?_ s.data _
        · rw [note_arena, harena]
        · rw [note_programStack, hpublished]
  | finish value => exact conclude_balanced hwaiting harena _
  | trap a' t => exact trap_balanced hwaiting harena a' t
  | crash => exact True.intro

theorem serve_balanced {a : Activation} {service : Service δ Word}
    (hcontrol : s.control = .serving a service) : StaysBalanced m p.stackBottom size (s :: past)
      (Machine.serve p syscalls s.store s.data s.bracket s.outer a service) := by
  have hready := h.ready
  rw [hcontrol] at hready
  obtain ⟨hcall, -⟩ := hready
  obtain rfl : innermost s = a := innermost_serving hcontrol
  have hpublished := hbalanced.published _ _ hcontrol
  have harena := hbalanced.arena
  have hwaiting : Waiting m p.stackBottom size (s :: past) s.bracket s.outer := hbalanced.waiting
  have hwait : ∀ (arena : Arena) (data : δ) (service : Service δ Word), arena.size = size →
      Balanced m p.stackBottom size (s :: past)
        { store := { s.store with arena }, data, control := .serving (innermost s) service
          bracket := s.bracket, outer := s.outer } := by
    intro arena data service hsize
    have harena' : ({ s.store with arena } : Store).arena.size = size := hsize
    exact hbalanced.wait harena' hpublished data service
  cases service with
  | result value =>
      obtain ⟨inst, hinst, hop⟩ := exists_of_opAt? hcall
      have htransfer := h.stacked.transfer_behind hm hcall
      have harena' : (s.store.setOperand ((innermost s).sp - 1) value).arena.size = size := harena
      refine hbalanced.proceed hm hlayout h hinst htransfer ?_ ?_ harena' s.data
      · simp [hop]
      · exact shifts_of_kept (by simp [hop]) rfl
  | fail failure => exact reject_balanced hwaiting harena (innermost s) failure
  | crash => exact True.intro
  | getData next => exact hwait s.store.arena s.data (next s.data) harena
  | modifyData f next => exact hwait s.store.arena (f s.data) next harena
  | arenaSize next => exact hwait s.store.arena s.data (next s.store.arena.size) harena
  | read addr len next => exact hwait s.store.arena s.data _ harena
  | write addr bytes next => exact hwait _ s.data _ ((size_hostWrite ..).trans harena)
  | readCString addr next => exact hwait s.store.arena s.data _ harena
  | moduleName next => exact hwait s.store.arena s.data (next p.image.name) harena
  | callTrace next => exact hwait s.store.arena s.data (next s.store.trace) harena
  | reenter args next =>
      have hwaiting' : Waiting m p.stackBottom size (s :: past) s.store.bracket
          (⟨innermost s, s.bracket, next⟩ :: s.outer) :=
        ⟨hpublished, hbalanced.framed, hbalanced.callers, hwaiting⟩
      exact call_balanced hm himage hlayout hwaiting' harena args

theorem step_balanced : StaysBalanced m p.stackBottom size (s :: past)
    (Machine.step p syscalls s) := by
  obtain ⟨store, data, control, bracket, outer⟩ := s
  cases control with
  | running a =>
      obtain ⟨frame, rest, base, -, hplaced, -, -⟩ := h.stacked.innermost
      obtain ⟨inst, hinst, -⟩ := hplaced.depth
      change m.code[a.pc]? = some inst at hinst
      have hstep := step_eq (p := p) store (himage ▸ hinst)
      simp only [Machine.step, Engine.step, hstep]
      by_cases hsupplied : Supplied (logged store a inst) a inst
      · refine effect_balanced hm hlayout h hbalanced himage rfl (logged_operands ..) hinst
          (execute_effect hsupplied) execute_shifts ?_
        rw [execute_size, logged, note_arena]
        exact hbalanced.arena
      · rw [execute_crash hsupplied]
        exact True.intro
  | serving a service => exact serve_balanced hm hlayout h hbalanced himage rfl

end

/-- The program stack is balanced in every state of every run. -/
theorem run_balanced {m : Module} {p : Program} {size : Nat} {syscalls : Syscalls δ}
    {past : List (State δ Activation)} {store : Store} {t : Transition δ Activation}
    (hm : Sound m) (himage : p.image = m) (hlayout : Layout m size p.stackBottom)
    (hrest : AtRest p store) (harena : store.arena.size = size)
    (hps : store.programStack.toInt = size) (hrun : Run p syscalls store past t) :
    StaysBalanced m p.stackBottom size past t := by
  have hcall : ∀ {store : Store} {data : δ} {args : List Word}, store.arena.size = size →
      store.programStack.toInt = size →
      StaysBalanced m p.stackBottom size [] (Machine.call p syscalls store data [] args) := by
    intro store data args harena hps
    have hwaiting : Waiting (δ := δ) m p.stackBottom size [] store.bracket [] := hps
    exact call_balanced hm himage hlayout hwaiting harena args
  induction hrun with
  | start data args => exact hcall harena hps
  | step hrun ih => exact step_balanced hm hlayout (run_keeps hm himage hrest hrun) ih himage
  | again hrun data args ih => exact hcall ih.1 ih.2

end SandboxVm.Proofs.ProgramStack
