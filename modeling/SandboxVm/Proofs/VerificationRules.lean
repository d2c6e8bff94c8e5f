import SandboxVm.Verification

namespace SandboxVm.Proofs.VerificationRules

open SandboxVm.Verification

def opAt? (code : Code) (i : Nat) : Option Opcode := code[i]?.map (·.op)

theorem opAt?_eq_some {code : Code} {i : Nat} {inst : AnnotatedInstruction}
    (h : code[i]? = some inst) : opAt? code i = some inst.op := by
  simp [opAt?, h]

theorem exists_of_opAt? {code : Code} {i : Nat} {op : Opcode} (h : opAt? code i = some op) :
    ∃ inst, code[i]? = some inst ∧ inst.op = op := by
  simpa [opAt?, Option.map_eq_some_iff] using h

theorem lt_size_of_opAt? {code : Code} {i : Nat} {op : Opcode} (h : opAt? code i = some op) :
    i < code.size := by
  obtain ⟨inst, hinst, -⟩ := exists_of_opAt? h
  exact (Array.getElem?_eq_some_iff.mp hinst).1

theorem exists_inst {code : Code} {i : Nat} (h : i < code.size) :
    ∃ inst, code[i]? = some inst := ⟨code[i], by simp [h]⟩

/-- The instructions from an `enter` at `s` to the first `push` and `leave`
after it, which end at `e`. -/
structure Span (code : Code) (s e : Nat) : Prop where
  enters : opAt? code s = some .enter
  le : s + 2 ≤ e
  pushes : opAt? code (e - 1) = some .push
  leaves : opAt? code e = some .leave
  least : ∀ j, s + 2 ≤ j → j < e → ¬ (opAt? code (j - 1) = some .push ∧ opAt? code j = some .leave)

theorem Span.end_unique {code : Code} {s e e' : Nat} (h : Span code s e) (h' : Span code s e') :
    e = e' := by
  rcases Nat.lt_trichotomy e e' with hlt | heq | hlt
  · exact absurd ⟨h.pushes, h.leaves⟩ (h'.least e h.le hlt)
  · exact heq
  · exact absurd ⟨h'.pushes, h'.leaves⟩ (h.least e' h'.le hlt)

theorem Span.lt_size {code : Code} {s e : Nat} (h : Span code s e) : e < code.size :=
  lt_size_of_opAt? h.leaves

/-- The instruction at `i` belongs to a procedure with frames of size `frameSize`. -/
def InFrame (code : Code) (i : Nat) (frameSize : Word) : Prop :=
  ∃ s e enter, Span code s e ∧ s ≤ i ∧ i ≤ e ∧ code[s]? = some enter ∧ enter.operand = frameSize

/-- A jump at `i` may go to `t`: to an instruction between statements, other
than an `enter`, that belongs to the same procedure if the jump belongs to one. -/
structure JumpAllowed (code : Code) (i : Nat) (t : Word) : Prop where
  nonneg : 0 ≤ t.toInt
  boundary : ∃ dest, code[t.toInt.toNat]? = some dest ∧ dest.depth = 0 ∧ dest.op ≠ .enter
  inside : ∀ s e, Span code s e → s ≤ i → i ≤ e → (s : Int) ≤ t.toInt ∧ t.toInt ≤ e

/-- The jump at `i` is not preceded by a constant. -/
def IsComputedJump (code : Code) (i : Nat) : Prop :=
  opAt? code i = some .jump ∧ code.constantBefore? i = none

/-- What the instruction `inst` at `i` has to satisfy in code with `staticSize`
bytes of static data. -/
def InstructionRule (code : Code) (staticSize : Nat) (i : Nat) (inst : AnnotatedInstruction) :
    Prop :=
  match inst.op with
  | .enter =>
    inst.depth = 0 ∧ 0 ≤ inst.operand.toInt ∧ inst.operand.toInt < 0x10000 ∧
      inst.operand.toInt % 4 = 0 ∧ ∃ e, Span code i e
  | .leave => inst.depth = 4 ∧ InFrame code i inst.operand
  | .branch _ => inst.depth = 8 ∧ JumpAllowed code i inst.operand
  | .jump =>
    inst.depth = 4 ∧
      ∀ c, code.constantBefore? i = some c →
        inst.operand.toInt ≠ i ∧ JumpAllowed code i inst.operand
  | .call =>
    4 ≤ inst.depth ∧
      ∀ n, code.constantBefore? i = some n → 0 ≤ n.toInt →
        opAt? code n.toInt.toNat = some .enter ∧ n.toInt ≠ 0
  | .arg =>
    ∃ frameSize, InFrame code i frameSize ∧ 8 ≤ inst.operand.toInt ∧
      inst.operand.toInt ≤ frameSize.toInt - 4 ∧ inst.operand.toInt % 4 = 0
  | .localAddress =>
    ∃ frameSize, InFrame code i frameSize ∧
      ∀ width, opAt? code (i + 1) = some (.load width) →
        0 ≤ inst.operand.toInt ∧
          inst.operand.toInt + width.bytes ≤ frameSize.toInt + 8 + 256
  | .load width =>
    ∀ addr, code.constantBefore? i = some addr →
      0 ≤ addr.toInt ∧ addr.toInt + width.bytes ≤ staticSize
  | _ => True

structure Rules (code : Code) (staticSize : Nat) (jumpTable? : Option (List Word)) : Prop where
  finalReturn : code.size = 0 ∨ opAt? code (code.size - 1) = some .leave
  depths : ∀ (i : Nat) (inst : AnnotatedInstruction), code[i]? = some inst →
    (0 ≤ inst.depth ∧ inst.depth < 120) ∧
      0 ≤ inst.depth + inst.op.stackDelta ∧ inst.depth + inst.op.stackDelta < 120
  instructions : ∀ i inst, code[i]? = some inst → InstructionRule code staticSize i inst
  /-- No procedure has another `enter` inside. -/
  unnested : ∀ s e, Span code s e → ∀ j, s < j → j ≤ e → opAt? code j ≠ some .enter
  jumpTable : ∀ t ∈ jumpTable?.getD [],
    0 ≤ t.toInt ∧ ∃ inst, code[t.toInt.toNat]? = some inst ∧ inst.depth = 0

/-- What a procedure of the code is: its span, its frame size, and whether it
contains a jump that is not preceded by a constant. -/
structure IsProcedure (code : Code) (p : Procedure) : Prop where
  span : Span code p.start p.last
  frameSize : ∀ enter, code[p.start]? = some enter → p.frameSize = enter.operand
  computed : p.computed = true ↔ ∃ i, p.start ≤ i ∧ i ≤ p.last ∧ IsComputedJump code i

theorem IsProcedure.eq_of_start {code : Code} {p q : Procedure} (hp : IsProcedure code p)
    (hq : IsProcedure code q) (h : p.start = q.start) : p = q := by
  obtain ⟨enter, henter, -⟩ := exists_of_opAt? hp.span.enters
  have hlast : p.last = q.last := hp.span.end_unique (h ▸ hq.span)
  have hframe : p.frameSize = q.frameSize := by
    rw [hp.frameSize enter henter, hq.frameSize enter (h ▸ henter)]
  have hcomputed : p.computed = q.computed := by
    rw [Bool.eq_iff_iff, hp.computed, hq.computed, h, hlast]
  cases p
  cases q
  simp_all

/-- The procedures of the code, in code order. -/
structure ListsProcedures (code : Code) (procs : List Procedure) : Prop where
  mem_iff : ∀ p, p ∈ procs ↔ IsProcedure code p
  ordered : procs.Pairwise fun p q => p.last < q.start

theorem ListsProcedures.unique {code : Code} {procs procs' : List Procedure}
    (h : ListsProcedures code procs) (h' : ListsProcedures code procs') : procs = procs' := by
  have hnodup : ∀ {l : List Procedure}, ListsProcedures code l → l.Nodup := by
    intro l hl
    refine hl.ordered.imp_of_mem fun {p q} hp _ hlt => ?_
    rintro rfl
    have := ((hl.mem_iff p).mp hp).span.le
    omega
  refine List.Perm.eq_of_pairwise ?_ h.ordered h'.ordered
    ((List.perm_ext_iff_of_nodup (hnodup h) (hnodup h')).mpr fun p => by
      rw [h.mem_iff, h'.mem_iff])
  intro p q hp hq hpq hqp
  have := ((h.mem_iff p).mp hp).span.le
  have := ((h'.mem_iff q).mp hq).span.le
  omega

end SandboxVm.Proofs.VerificationRules
