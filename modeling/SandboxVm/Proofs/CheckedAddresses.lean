import SandboxVm.Proofs.ArenaAccess

namespace SandboxVm.Proofs.CheckedAddresses

open SandboxVm.Interpreter
open SandboxVm.Verification
open SandboxVm.Proofs.VerificationRules
open SandboxVm.Proofs.LoadedModule
open SandboxVm.Proofs.InterpretedInstruction
open SandboxVm.Proofs.ControlTransfer
open SandboxVm.Proofs.MachineRun
open SandboxVm.Proofs.RunInvariant
open SandboxVm.Proofs.EntryCall
open SandboxVm.Proofs.ArenaLayout
open SandboxVm.Proofs.StackPointer
open SandboxVm.Proofs.ProgramStack
open SandboxVm.Proofs.ArenaAccess

variable {δ : Type}

/-- The address that a `const` or a `local` pushes. -/
def pushed? (ps : Word) (inst : AnnotatedInstruction) : Option Word :=
  match inst.op with
  | .const => some inst.operand
  | .localAddress => some (ps + inst.operand)
  | _ => none

/-- What the instruction in front of the next one has pushed is on top. -/
def PushedOnTop (m : Module) (s : Store) (a : Activation) : Prop :=
  ∀ site prev value, a.pc = site + 1 → m.code[site]? = some prev →
    pushed? a.ps prev = some value → top? s a = some value

def ShowsPushed (m : Module) : Transition δ Activation → Prop
  | .next s => ∀ a, s.control = .running a → PushedOnTop m s.store a
  | .done _ _ _ => True
  | .crashed _ _ => True

def readOffsets (arena : Arena) (width : Width) (addr : Word) : List Nat :=
  (List.range width.bytes).map (Arena.offset arena.mask addr width + ·)

/-- The next step of `a` loads from `addr`: it puts in place of the address what it finds
at the offsets to read, and nothing else in the arena matters. -/
structure LoadsFrom (p : Program) (s : Store) (a : Activation) (width : Width) (addr : Word) :
    Prop where
  top : top? s a = some addr
  step : ∃ s', step p s a = (s', .proceed { a with pc := a.pc + 1 }) ∧ s'.arena = s.arena ∧
    top? s' a = some (s.arena.load width addr)
  reads : ∀ arena : Arena, arena.size = s.arena.size →
    (∀ j ∈ readOffsets s.arena width addr, arena.byteAt j = s.arena.byteAt j) →
    arena.load width addr = s.arena.load width addr

section

variable {p : Program} {s s' : Store} {a a' : Activation} {inst : AnnotatedInstruction}
  {width : Width} {addr value : Word}

theorem pushed?_eq_some : pushed? a.ps inst = some value ↔
    (inst.op = .const ∧ inst.operand = value) ∨
      (inst.op = .localAddress ∧ a.ps + inst.operand = value) := by
  unfold pushed?
  cases inst.op <;> simp

theorem exists_pushed {ps : Word} (h : pushed? ps inst = some value) (ps' : Word) :
    ∃ value', pushed? ps' inst = some value' := by
  unfold pushed? at h ⊢
  split at h
  · exact ⟨_, rfl⟩
  · exact ⟨_, rfl⟩
  · cases h

theorem execute_pushed (h : pushed? a.ps inst = some value) :
    execute p s a inst = push s a value := by
  unfold execute
  rcases pushed?_eq_some.mp h with ⟨hop, rfl⟩ | ⟨hop, rfl⟩ <;> rw [hop]

theorem top_of_push (h : push s a value = (s', .proceed a')) :
    a'.ps = a.ps ∧ top? s' a' = some value := by
  unfold push at h
  split at h
  · rename_i hlt
    obtain ⟨rfl, hmove⟩ := Prod.mk.inj h
    obtain rfl := Move.proceed.inj hmove
    exact ⟨rfl, setOperand_operand? s hlt value⟩
  · cases h

theorem operand_of_top? (h : top? s a = some value) :
    1 ≤ a.sp ∧ s.operand? (a.sp - 1) = some value := by
  unfold top? at h
  split at h
  · cases h
  · rename_i sp hsp
    rw [hsp]
    exact ⟨Nat.le_add_left _ _, h⟩

theorem mem_readOffsets {arena : Arena} {j : Nat} : j ∈ readOffsets arena width addr ↔
    ∃ k < width.bytes, Arena.offset arena.mask addr width + k = j := by
  simp only [readOffsets, List.mem_map, List.mem_range]

theorem loadsFrom_of_top (hinst : p.image.code[a.pc]? = some inst) (hop : inst.op = .load width)
    (htop : top? s a = some addr) : LoadsFrom p s a width addr := by
  obtain ⟨hsp, hoperand⟩ := operand_of_top? htop
  refine ⟨htop, ?_, ?_⟩
  · have harena : (logged s a inst).arena = s.arena := note_arena ..
    have hlt : a.sp - 1 < (logged s a inst).operands.size := by
      rw [logged_operands]
      exact (Array.getElem?_eq_some_iff.mp hoperand).1
    refine ⟨(logged s a inst).setOperand (a.sp - 1) (s.arena.load width addr), ?_, harena, ?_⟩
    · rw [step_eq s hinst]
      simp only [execute, hop, withTop_eq_match, top?_logged, htop, harena, advance]
    · obtain ⟨sp, hsp'⟩ : ∃ sp, a.sp = sp + 1 := ⟨a.sp - 1, by omega⟩
      simp only [top?, hsp', Nat.add_sub_cancel] at hlt ⊢
      exact setOperand_operand? _ hlt _
  · intro arena hsize hbytes
    apply load_congr
    intro k hk
    rw [mask_eq_of_size hsize]
    exact hbytes _ (mem_readOffsets.mpr ⟨k, hk, rfl⟩)

end

/-! ### The address on top -/

section

variable {m : Module} {p : Program} {syscalls : Syscalls δ} {past : List (State δ Activation)}
  {data : δ} {bracket : Bracket} {outer : List (Suspended δ Activation)}

theorem deliver_pushed (store : Store) (result : Except Failure Word) :
    ShowsPushed m (Machine.deliver store data result outer) := by
  cases outer with
  | nil => trivial
  | cons w outer => rintro a ⟨⟩

theorem conclude_pushed (store : Store) (result : Except Failure Word) :
    ShowsPushed m (Machine.conclude store data bracket outer result) :=
  deliver_pushed ..

theorem call_pushed (store : Store) (args : List Word) :
    ShowsPushed m (Machine.call p syscalls store data outer args) := by
  rcases call_cases p syscalls store data outer args with
    ⟨-, failure, heq⟩ | ⟨-, failure, heq⟩ | ⟨-, -, arena, store', -, heq⟩
  · rw [heq]
    exact deliver_pushed ..
  · rw [heq]
    exact conclude_pushed ..
  · rw [heq, start]
    rcases enterProcedure_cases p store' ⟨0, _, store'.operandTop, []⟩ 0 none with
      ⟨-, henter⟩ | ⟨procedure, -, ⟨-, henter⟩ | ⟨-, henter⟩⟩
    · rw [henter]
      exact conclude_pushed ..
    · rw [henter]
      exact conclude_pushed ..
    · rw [henter]
      rintro a ⟨⟩ site prev value hpc
      cases hpc

variable {s : State δ Activation} {a a' : Activation} {store store' : Store}
  {inst prev : AnnotatedInstruction} {site : Nat} {value ps : Word} (hm : Sound m)

include hm

theorem depth_behind_pushed (hprev : m.code[site]? = some prev)
    (hinst : m.code[site + 1]? = some inst) (hvalue : pushed? ps prev = some value) :
    inst.depth ≠ 0 := by
  have hnext := hm.follows.next site prev inst hprev hinst
  have hdepth := (hm.rules.depths site prev hprev).1
  have hdelta : prev.op.stackDelta = 4 := by
    unfold pushed? at hvalue
    split at hvalue
    · rename_i hop
      rw [hop]
      rfl
    · rename_i hop
      rw [hop]
      rfl
    · cases hvalue
  omega

theorem inside_of_behind {procedure : Procedure} (hinside : Inside m procedure (site + 1))
    (hinst : m.code[site + 1]? = some inst) (hop : inst.op ≠ .enter) : Inside m procedure site := by
  have hne : procedure.start ≠ site + 1 := by
    intro hstart
    obtain ⟨enter, henter, hop', -⟩ := hm.exists_enter hinside.mem
    rw [hstart, hinst] at henter
    exact hop (Option.some.inj henter ▸ hop')
  exact ⟨hinside.mem, Nat.lt_succ_iff.mp (Nat.lt_of_le_of_ne hinside.start_le hne),
    Nat.le_of_succ_le hinside.le_last⟩

/-- Behind a `const` or a `local`, the code is only reached from there. -/
theorem falls_through {frame : Frame} {frames : List Frame} (himage : p.image = m)
    (hinst : m.code[a.pc]? = some inst) (hframes : a.frames = frame :: frames)
    (hinside : Inside m frame.procedure a.pc) (hconst : ConstantOnTop m store a)
    (hreturn : ∀ pc, frame.returnTo = some pc → ∃ site, pc = site + 1 ∧
      opAt? m.code site = some .call)
    (heffect : Effect p store a inst store' (.proceed a')) (hpc : a'.pc = site + 1)
    (hprev : m.code[site]? = some prev) (hvalue : pushed? ps prev = some value) : a.pc = site := by
  generalize hmove : Move.proceed a' = move at heffect
  cases heffect with
  | passed hleave hcall hjump hkept hsp hconst' =>
      obtain rfl := Move.proceed.inj hmove
      exact Nat.succ.inj hpc
  | @jumped sp target hdirected hsp =>
      obtain ⟨hnonneg, ⟨-, dest, hdest, hdepth, -⟩, -⟩ :=
        directed_destination hm himage hinst hframes hinside hconst hdirected
      rw [goTo_of_nonneg hnonneg] at hmove
      obtain rfl := Move.proceed.inj hmove
      rw [show target.toInt.toNat = site + 1 from hpc] at hdest
      exact absurd hdepth (depth_behind_pushed hm hprev hdest hvalue)
  | @entered s' target procedure hop htop hnonneg hprocedure hdepth hsp htrace hoperands =>
      obtain rfl := Move.proceed.inj hmove
      rw [himage] at hprocedure
      obtain ⟨hmem, hstart⟩ := hm.procedureAt?_eq_some_iff.mp hprocedure
      obtain ⟨enter, henter, -, hzero⟩ := hm.exists_enter hmem
      rw [hstart, show target.toInt.toNat = site + 1 from hpc] at henter
      exact absurd hzero (depth_behind_pushed hm hprev henter hvalue)
  | @returned pc ps' procedure frames' hop hframes' =>
      obtain rfl := Move.proceed.inj hmove
      obtain rfl : frame = ⟨some pc, procedure⟩ := by
        rw [hframes] at hframes'
        exact (List.cons.inj hframes').1
      obtain ⟨site', rfl, hcall⟩ := hreturn pc rfl
      obtain rfl : site' = site := Nat.succ.inj hpc
      rw [opAt?_eq_some hprev] at hcall
      simp [pushed?, Option.some.inj hcall] at hvalue
  | finished => cases hmove
  | requested => cases hmove
  | trapped => cases hmove

variable (himage : p.image = m)

include himage

theorem step_pushed (h : Invariant m p past s) :
    ShowsPushed m (Machine.step p syscalls s) := by
  obtain ⟨store, data, control, bracket, outer⟩ := s
  cases control with
  | running a =>
      obtain ⟨frame, rest, hframes, hinside, hreturn⟩ := h.exists_frame rfl
      obtain ⟨inst, hinst⟩ := hinside.exists_inst hm
      have hconst := h.constantOnTop rfl (logged_operands store a inst)
      simp only [Machine.step, Engine.step, step_eq store (himage ▸ hinst)]
      by_cases hsupplied : Supplied (logged store a inst) a inst
      · have heffect := execute_effect (p := p) hsupplied
        rcases hexecute : execute p (logged store a inst) a inst with ⟨store', move⟩
        rw [hexecute] at heffect
        cases move with
        | proceed a' =>
            rintro _ ⟨⟩ site prev value hpc hprev hvalue
            -- The code comes from right in front, so the value has just been pushed.
            obtain rfl := falls_through hm himage hinst hframes hinside hconst hreturn heffect hpc
              hprev hvalue
            obtain rfl : inst = prev := Option.some.inj (hinst.symm.trans hprev)
            obtain ⟨value', hvalue'⟩ := exists_pushed hvalue a.ps
            obtain ⟨hps, htop⟩ := top_of_push ((execute_pushed hvalue').symm.trans hexecute)
            rw [hps] at hvalue
            exact htop.trans (hvalue'.symm.trans hvalue)
        | finish value => exact conclude_pushed ..
        | crash => trivial
        | trap a' t => exact conclude_pushed ..
        | syscall a' id frame' =>
            simp only [Machine.perform]
            split
            · exact conclude_pushed ..
            · rintro _ ⟨⟩
      · rw [execute_crash hsupplied]
        trivial
  | serving a service =>
      have hcall := h.ready.1
      cases service with
      | result value =>
          rintro _ ⟨⟩ site prev value' hpc hprev hvalue
          obtain rfl : a.pc = site := Nat.succ.inj hpc
          rw [opAt?_eq_some hprev] at hcall
          simp [pushed?, Option.some.inj hcall] at hvalue
      | fail failure => exact conclude_pushed ..
      | crash => trivial
      | reenter args next => exact call_pushed store args
      | _ => rintro _ ⟨⟩

theorem run_pushed {store₀ : Store} (hrest : AtRest p store₀) {t : Transition δ Activation}
    (hrun : Run p syscalls store₀ past t) : ShowsPushed m t := by
  cases hrun with
  | start data args => exact call_pushed ..
  | step hrun => exact step_pushed hm himage (run_keeps hm himage hrest hrun)
  | again hrun data args => exact call_pushed ..

end

/-! ### Where the checked loads read -/

section

variable {arena : Arena} {width : Width} {addr : Word} {j : Nat} (ha : Sized arena)
  (hj : j ∈ readOffsets arena width addr)

include ha hj

theorem read_lt_of_static {staticSize : Nat} (hsize : staticSize ≤ arena.size)
    (hlow : 0 ≤ addr.toInt) (hhigh : addr.toInt + width.bytes ≤ staticSize) : j < staticSize := by
  obtain ⟨k, hk, rfl⟩ := mem_readOffsets.mp hj
  have hoffset := offset_eq_sub ha.maskable addr width
  have hinside : addr.toInt % arena.size = addr.toInt := Int.emod_eq_of_lt hlow (by omega)
  have hrem : 0 ≤ addr.toInt % width.bytes := Int.emod_nonneg _ (by cases width <;> decide)
  omega

theorem read_mod_of_offset {place offset : Int} (hplace : place % 4 = 0)
    (haddr : addr.toInt = place + offset) (hlow : 0 ≤ offset) :
    ∃ d : Nat, (d : Int) < offset + width.bytes ∧ (j : Int) = (place + d) % arena.size := by
  obtain ⟨k, hk, rfl⟩ := mem_readOffsets.mp hj
  have hoffset := offset_eq_sub ha.maskable addr width
  have hend := offset_add_le ha.maskable addr width
  have hrem : addr.toInt % width.bytes = offset % width.bytes := by
    cases width <;> simp only [Width.bytes] <;> omega
  have hdown : 0 ≤ offset - offset % width.bytes ∧ offset - offset % width.bytes ≤ offset := by
    cases width <;> simp only [Width.bytes] <;> omega
  refine ⟨(offset - offset % width.bytes).toNat + k, by omega, ?_⟩
  have hsplit := Int.mul_ediv_add_emod addr.toInt arena.size
  have hwhole : place + ((offset - offset % width.bytes).toNat + k : Nat) =
      (Arena.offset arena.mask addr width + k : Nat) + arena.size * (addr.toInt / arena.size) := by
    omega
  rw [hwhole, Int.add_mul_emod_self_left, Int.emod_eq_of_lt (by omega) (by omega)]

end

/-- A load behind a `const` reads static data, and one behind a `local` reads what belongs to
the frame of its procedure, or to the arguments that may follow it. -/
theorem checked_loads_stay_inside {name : String} {image : Image} {m : Module} {canCompile : Bool}
    {settings : Settings} {syscalls : Syscalls δ} {data : δ} {journal : Journal} {i : Instance δ}
    {past : List (State δ Activation)} {s : State δ Activation} {a : Activation} {site : Nat}
    {prev inst : AnnotatedInstruction} {width : Width}
    (hload : Module.load name image = .ok m)
    (hcreate : Instance.create canCompile settings m syscalls data journal = .ok i)
    (hrun : Run i.program i.syscalls i.store past (.next s)) (hcontrol : s.control = .running a)
    (hpc : a.pc = site + 1) (hprev : m.code[site]? = some prev)
    (hinst : m.code[site + 1]? = some inst) (hop : inst.op = .load width) :
    (prev.op = .const →
      LoadsFrom i.program s.store a width prev.operand ∧
      ∀ j ∈ readOffsets s.store.arena width prev.operand, j < m.staticSize) ∧
    (prev.op = .localAddress →
      ∃ frame rest, a.frames = frame :: rest ∧ Inside m frame.procedure a.pc ∧
        LoadsFrom i.program s.store a width (a.ps + prev.operand) ∧
        (a.ps + prev.operand).toInt = a.ps.toInt + prev.operand.toInt ∧
        ∀ j ∈ readOffsets s.store.arena width (a.ps + prev.operand),
          ∃ d : Nat, (d : Int) < frame.procedure.frameSize.toInt + 8 + 4 * maxProcedureArgs ∧
            (j : Int) = (a.ps.toInt + d) % s.store.arena.size) := by
  have horder := inOrder_of_run hload hcreate hrun
  obtain ⟨hps, hhigh, haligned⟩ := horder.between hcontrol
  obtain ⟨hm, himage, hlayout, hinvariant, -⟩ := horder
  obtain ⟨-, -, -, hrest⟩ := create_eq_ok hcreate
  have hpushed : PushedOnTop m s.store a := run_pushed hm himage hrest hrun a hcontrol
  have ha := sized_of_layout hlayout
  have hinst' : i.program.image.code[a.pc]? = some inst := by rw [himage, hpc, hinst]
  have htop : ∀ addr, pushed? a.ps prev = some addr → LoadsFrom i.program s.store a width addr :=
    fun addr hvalue => loadsFrom_of_top hinst' hop (hpushed site prev addr hpc hprev hvalue)
  constructor
  · intro hconst
    refine ⟨htop _ (pushed?_eq_some.mpr (Or.inl ⟨hconst, rfl⟩)), ?_⟩
    intro j hj
    have hrule := hm.rules.instructions _ inst hinst
    simp only [InstructionRule, hop] at hrule
    obtain ⟨hlow, hhigh⟩ := hrule prev.operand
      (constantBefore?_eq_some.mpr ⟨site, prev, rfl, hprev, hconst, rfl⟩)
    have hfits := hlayout.fits
    exact read_lt_of_static ha hj (by omega) hlow hhigh
  · intro hlocal
    obtain ⟨frame, rest, hframes, hinside, -⟩ := hinvariant.exists_frame hcontrol
    have hbounded := hlayout.bounded
    have hrule := hm.rules.instructions _ prev hprev
    simp only [InstructionRule, hlocal] at hrule
    obtain ⟨frameSize, hinFrame, hloads⟩ := hrule
    obtain ⟨hmin, hmax⟩ := hloads width (by rw [opAt?_eq_some hinst, hop])
    have hsite := inside_of_behind hm (hpc ▸ hinside) hinst (by simp [hop])
    rw [← frameSize_of_inFrame hm hsite hinFrame] at hmax
    have hsize := hm.frameSize_bounds hinside.mem
    have hexact : (a.ps + prev.operand).toInt = a.ps.toInt + prev.operand.toInt :=
      toInt_add_exact (by omega) (by omega)
    refine ⟨frame, rest, hframes, hinside, htop _ (pushed?_eq_some.mpr (Or.inr ⟨hlocal, rfl⟩)),
      hexact, ?_⟩
    intro j hj
    obtain ⟨d, hd, hmod⟩ := read_mod_of_offset ha hj haligned hexact hmin
    simp only [maxProcedureArgs]
    exact ⟨d, by omega, hmod⟩

/-- An image that adds a word of static data to one of the frame. -/
def summing : Draft where
  instructions := [⟨.enter, 8⟩, ⟨.const, 2⟩, ⟨.load .two, 0⟩, ⟨.localAddress, 4⟩, ⟨.load .four, 0⟩,
    ⟨.binary .add, 0⟩, ⟨.leave, 8⟩, ⟨.push, 0⟩, ⟨.leave, 8⟩]
  data := [7]

def summingModule : Module where
  name := "sum"
  header := summing.header
  code := #[{ op := .enter, operand := 8 }, { op := .const, operand := 2 },
    { op := .load .two, depth := 4 }, { op := .localAddress, operand := 4, depth := 4 },
    { op := .load .four, depth := 8 }, { op := .binary .add, depth := 8 },
    { op := .leave, operand := 8, depth := 4 }, { op := .push },
    { op := .leave, operand := 8, depth := 4 }]
  data := [7, 0, 0, 0]
  jumpTable? := none
  procedures := #[{ start := 0, last := 8, frameSize := 8 }]

theorem load_summing : Module.load "sum" summing.build = .ok summingModule := by cbv

theorem step_push {p : Program} {s : Store} {a : Activation} {inst : AnnotatedInstruction}
    {value : Word} (hinst : p.image.code[a.pc]? = some inst) (hvalue : pushed? a.ps inst = some value)
    (hslot : a.sp < s.operands.size) :
    ∃ s', step p s a = (s', .proceed { a with pc := a.pc + 1, sp := a.sp + 1 }) := by
  rw [step_eq s hinst, execute_pushed hvalue, push, logged_operands, if_pos hslot]
  exact ⟨_, rfl⟩

theorem checked_loads_summing : ∃ (i : Instance Unit) (past past' : List (State Unit Activation))
    (s s' : State Unit Activation) (a a' : Activation),
    Instance.create false {} summingModule {} () {} = .ok i ∧
    Run i.program i.syscalls i.store past (.next s) ∧ s.control = .running a ∧ a.pc = 2 ∧
    LoadsFrom i.program s.store a .two 2 ∧
    (∀ j ∈ readOffsets s.store.arena .two 2, j < summingModule.staticSize) ∧
    Run i.program i.syscalls i.store past' (.next s') ∧ s'.control = .running a' ∧ a'.pc = 4 ∧
    LoadsFrom i.program s'.store a' .four (a'.ps + 4) := by
  obtain ⟨i, hcreate⟩ := exists_create false {} summingModule ({} : Syscalls Unit) () {} (by decide)
  obtain ⟨hprogram, -, -, -⟩ := create_eq_ok hcreate
  have hcode : ∀ {j : Nat} {inst : AnnotatedInstruction}, summingModule.code[j]? = some inst →
      i.program.image.code[j]? = some inst := by
    intro j inst hinst
    rw [hprogram]
    exact hinst
  have hslots : ∀ {past : List (State Unit Activation)} {s : State Unit Activation},
      Run i.program i.syscalls i.store past (.next s) → 1 < s.store.operands.size := by
    intro past s hrun
    rw [(inOrder_of_run load_summing hcreate hrun).invariant.bounded.size, hprogram]
    decide
  have hmem : { start := 0, last := 8, frameSize := 8 } ∈ summingModule.procedures := by
    simp [summingModule]
  obtain ⟨s₀, s₁, ps, -, -, -, hrun₁, hcontrol₁⟩ := exists_entered load_summing hcreate hmem rfl
    (by decide) [] (Nat.zero_le maxCallArgs) () (by decide)
  obtain ⟨store₂, hstep₂⟩ := step_push (a := ⟨1, _, 0, _⟩) (hcode rfl) rfl
    (Nat.lt_trans Nat.zero_lt_one (hslots hrun₁))
  have hrun₂ := hrun₁.proceed hcontrol₁ hstep₂
  obtain ⟨hfirst, hinside⟩ := (checked_loads_stay_inside load_summing hcreate hrun₂ rfl rfl rfl rfl
    rfl).1 rfl
  obtain ⟨store₃, hstep₃, -, -⟩ := hfirst.step
  have hrun₃ := hrun₂.proceed rfl hstep₃
  obtain ⟨store₄, hstep₄⟩ := step_push (a := ⟨3, _, 1, _⟩) (hcode rfl) rfl (hslots hrun₃)
  have hrun₄ := hrun₃.proceed rfl hstep₄
  obtain ⟨frame, rest, -, -, hsecond, -⟩ :=
    (checked_loads_stay_inside load_summing hcreate hrun₄ rfl rfl rfl rfl rfl).2 rfl
  exact ⟨i, _, _, _, _, _, _, hcreate, hrun₂, rfl, rfl, hfirst, hinside, hrun₄, rfl, rfl, hsecond⟩

end SandboxVm.Proofs.CheckedAddresses
