import SandboxVm.Module
import SandboxVm.Proofs.ProcedureLookup
import SandboxVm.Proofs.VerificationScan

namespace SandboxVm.Proofs.LoadedModule

open SandboxVm.Verification
open SandboxVm.Proofs.VerificationRules
open SandboxVm.Proofs.VerificationScan
open SandboxVm.Proofs.ProcedureLookup

/-- The two codes differ at most in their jump annotations. -/
def Agree (code code' : Code) : Prop :=
  ∀ i : Nat, code'[i]?.map (fun inst => (inst.toInstruction, inst.depth)) =
    code[i]?.map fun inst => (inst.toInstruction, inst.depth)

section

variable {code code' : Code} (h : Agree code code')

include h

theorem Agree.symm : Agree code' code := fun i => (h i).symm

theorem Agree.exists_of {i : Nat} {inst : AnnotatedInstruction} (hi : code[i]? = some inst) :
    ∃ inst', code'[i]? = some inst' ∧ inst'.toInstruction = inst.toInstruction ∧
      inst'.depth = inst.depth := by
  have := h i
  rw [hi, Option.map_some, Option.map_eq_some_iff] at this
  obtain ⟨inst', hi', hpair⟩ := this
  exact ⟨inst', hi', congrArg Prod.fst hpair, congrArg Prod.snd hpair⟩

theorem Agree.opAt?_eq (i : Nat) : opAt? code' i = opAt? code i := by
  have := congrArg (Option.map fun pair => pair.1.op) (h i)
  simpa [opAt?, Option.map_map, Function.comp_def] using this

theorem Agree.constantBefore?_eq (i : Nat) : code'.constantBefore? i = code.constantBefore? i := by
  cases i with
  | zero => rfl
  | succ j =>
      have hj := h j
      rw [Code.constantBefore?, Code.constantBefore?]
      cases hcode : code[j]? with
      | none =>
          rw [hcode, Option.map_none, Option.map_eq_none_iff] at hj
          rw [hj]
      | some prev =>
          obtain ⟨prev', hcode', hinst, -⟩ := h.exists_of hcode
          rw [hcode']
          simp only [hinst]

theorem Agree.size_eq : code'.size = code.size := by
  rcases Nat.lt_trichotomy code'.size code.size with hlt | heq | hlt
  · have := h code'.size
    simp [hlt] at this
  · exact heq
  · have := h code.size
    simp [hlt] at this

theorem Agree.span {s e : Nat} (hspan : Span code s e) : Span code' s e := by
  refine ⟨?_, hspan.le, ?_, ?_, ?_⟩
  · rw [h.opAt?_eq, hspan.enters]
  · rw [h.opAt?_eq, hspan.pushes]
  · rw [h.opAt?_eq, hspan.leaves]
  · intro j hle hlt
    rw [h.opAt?_eq, h.opAt?_eq]
    exact hspan.least j hle hlt

theorem Agree.span_iff {s e : Nat} : Span code' s e ↔ Span code s e :=
  ⟨h.symm.span, h.span⟩

theorem Agree.inFrame {i : Nat} {frameSize : Word} (hframe : InFrame code i frameSize) :
    InFrame code' i frameSize := by
  obtain ⟨s, e, enter, hspan, hstart, hend, henter, hsize⟩ := hframe
  obtain ⟨enter', henter', hinst, -⟩ := h.exists_of henter
  exact ⟨s, e, enter', h.span_iff.mpr hspan, hstart, hend, henter', by rw [hinst, hsize]⟩

theorem Agree.jumpAllowed {i : Nat} {t : Word} (hallowed : JumpAllowed code i t) :
    JumpAllowed code' i t := by
  obtain ⟨dest, hdest, hdepth, hop⟩ := hallowed.boundary
  obtain ⟨dest', hdest', hinst, hdepth'⟩ := h.exists_of hdest
  exact ⟨hallowed.nonneg, ⟨dest', hdest', by rw [hdepth', hdepth], by rwa [hinst]⟩,
    fun s e hspan => hallowed.inside s e (h.span_iff.mp hspan)⟩

theorem Agree.instructionRule {staticSize i : Nat} {inst inst' : AnnotatedInstruction}
    (hinst : inst'.toInstruction = inst.toInstruction) (hdepth : inst'.depth = inst.depth)
    (hrule : InstructionRule code staticSize i inst) :
    InstructionRule code' staticSize i inst' := by
  unfold InstructionRule at hrule ⊢
  rw [hinst, hdepth]
  simp only [h.opAt?_eq, h.constantBefore?_eq, h.span_iff]
  cases hop : inst.op with
  | leave =>
      rw [hop] at hrule
      exact ⟨hrule.1, h.inFrame hrule.2⟩
  | branch c =>
      rw [hop] at hrule
      exact ⟨hrule.1, h.jumpAllowed hrule.2⟩
  | jump =>
      rw [hop] at hrule
      exact ⟨hrule.1, fun c hc => ⟨(hrule.2 c hc).1, h.jumpAllowed (hrule.2 c hc).2⟩⟩
  | arg =>
      rw [hop] at hrule
      obtain ⟨frameSize, hframe, hbounds⟩ := hrule
      exact ⟨frameSize, h.inFrame hframe, hbounds⟩
  | localAddress =>
      rw [hop] at hrule
      obtain ⟨frameSize, hframe, hbounds⟩ := hrule
      exact ⟨frameSize, h.inFrame hframe, hbounds⟩
  | _ =>
      rw [hop] at hrule
      exact hrule

/-- The rules look only at opcodes, operands and depths. -/
theorem Agree.rules {staticSize : Nat} {jumpTable? : Option (List Word)}
    (hrules : Rules code staticSize jumpTable?) : Rules code' staticSize jumpTable? := by
  refine ⟨?_, ?_, ?_, ?_, ?_⟩
  · rw [h.size_eq, h.opAt?_eq]
    exact hrules.finalReturn
  · intro i inst' hi'
    obtain ⟨inst, hi, hinst, hdepth⟩ := h.symm.exists_of hi'
    rw [← hinst, ← hdepth]
    exact hrules.depths i inst hi
  · intro i inst' hi'
    obtain ⟨inst, hi, hinst, hdepth⟩ := h.symm.exists_of hi'
    exact h.instructionRule hinst.symm hdepth.symm (hrules.instructions i inst hi)
  · intro s e hspan j hlt hle
    rw [h.opAt?_eq]
    exact hrules.unnested s e (h.span_iff.mp hspan) j hlt hle
  · intro t ht
    obtain ⟨hnonneg, inst, hinst, hzero⟩ := hrules.jumpTable t ht
    obtain ⟨inst', hinst', -, hdepth⟩ := h.exists_of hinst
    exact ⟨hnonneg, inst', hinst', by rw [hdepth, hzero]⟩

theorem Agree.isProcedure {p : Procedure} (hp : IsProcedure code p) : IsProcedure code' p where
  span := h.span_iff.mpr hp.span
  frameSize enter' henter' := by
    obtain ⟨enter, henter, hinst, -⟩ := h.symm.exists_of henter'
    rw [hp.frameSize enter henter, hinst]
  computed := by
    simp only [IsComputedJump, h.opAt?_eq, h.constantBefore?_eq]
    exact hp.computed

theorem Agree.listsProcedures {procs : List Procedure} (hprocs : ListsProcedures code procs) :
    ListsProcedures code' procs where
  mem_iff p := by
    rw [hprocs.mem_iff]
    exact ⟨h.isProcedure, h.symm.isProcedure⟩
  ordered := hprocs.ordered

end

theorem agree_annotateJumps (code : Code) (scan : Scan) (jumpTable? : Option (List Word)) :
    Agree code (annotateJumps code scan jumpTable?) := by
  intro i
  simp [annotateJumps, Array.getElem?_mapIdx, Option.map_map, Function.comp_def]

theorem getD_foldl_setIfInBounds {indices : List Nat} {marked : Array Bool} {i : Nat} :
    (indices.foldl (fun m j => m.setIfInBounds j true) marked).getD i false = true ↔
      marked.getD i false = true ∨ i ∈ indices ∧ i < marked.size := by
  induction indices generalizing marked with
  | nil => simp
  | cons j rest ih =>
      rw [List.foldl_cons, ih, Array.size_setIfInBounds, List.mem_cons]
      have hset : (marked.setIfInBounds j true).getD i false = true ↔
          marked.getD i false = true ∨ i = j ∧ i < marked.size := by
        simp only [Array.getD_eq_getD_getElem?, Array.getElem?_setIfInBounds]
        by_cases hij : j = i
        · subst hij
          by_cases hj : j < marked.size <;> simp [hj]
        · simp [hij, eq_comm (a := i)]
      rw [hset, or_assoc, ← or_and_right]

theorem mem_marks {size i : Nat} {indices : List Nat} :
    (marks size indices).getD i false = true ↔ i ∈ indices ∧ i < size := by
  rw [marks, getD_foldl_setIfInBounds, Array.size_replicate]
  by_cases hi : i < size <;> simp [hi]

theorem mem_staticTargets {code : Code} {t : Nat} :
    t ∈ staticTargets code ↔ ∃ i inst, code[i]? = some inst ∧
      (inst.op.isBranch = true ∨ code.isStaticJump i = true) ∧ inst.operand.toInt.toNat = t := by
  simp only [staticTargets, List.mem_filterMap, Prod.exists, List.mem_zipIdx_iff_getElem?]
  rw [exists_comm]
  refine exists_congr fun i => exists_congr fun inst => and_congr (by simp) ?_
  split
  · rename_i hjump
    simp only [Bool.or_eq_true] at hjump
    simp [hjump]
  · rename_i hjump
    simp only [Bool.or_eq_true] at hjump
    simp [hjump]

theorem jumpAllowed_of_known {code : Code} {staticSize i : Nat}
    {jumpTable? : Option (List Word)} {inst : AnnotatedInstruction}
    (hrules : Rules code staticSize jumpTable?) (hi : code[i]? = some inst)
    (hjump : inst.op.isBranch = true ∨ code.isStaticJump i = true) :
    JumpAllowed code i inst.operand := by
  have hrule := hrules.instructions i inst hi
  rcases hjump with hbranch | hstatic
  · cases hop : inst.op with
    | branch c =>
        simp only [InstructionRule, hop] at hrule
        exact hrule.2
    | _ => simp [hop, Opcode.isBranch] at hbranch
  · simp only [Code.isStaticJump, hi, Bool.and_eq_true, decide_eq_true_eq,
      Option.isSome_iff_exists] at hstatic
    obtain ⟨hop, c, hc⟩ := hstatic
    simp only [InstructionRule, hop] at hrule
    exact (hrule.2 c hc).2

theorem depth_of_staticTarget {code : Code} {staticSize t : Nat}
    {jumpTable? : Option (List Word)} (hrules : Rules code staticSize jumpTable?)
    (h : t ∈ staticTargets code) : ∃ inst, code[t]? = some inst ∧ inst.depth = 0 := by
  obtain ⟨i, inst, hi, hjump, rfl⟩ := mem_staticTargets.mp h
  obtain ⟨dest, hdest, hdepth, -⟩ := (jumpAllowed_of_known hrules hi hjump).boundary
  exact ⟨dest, hdest, hdepth⟩

theorem depth_of_isTarget {code : Code} {staticSize : Nat} {jumpTable? : Option (List Word)}
    {scan : Scan} (hrules : Rules code staticSize jumpTable?)
    (hfresh : ∀ (i : Nat) (inst : AnnotatedInstruction), code[i]? = some inst →
      inst.isTarget = false)
    {i : Nat} {inst : AnnotatedInstruction}
    (hi : (annotateJumps code scan jumpTable?)[i]? = some inst) (htarget : inst.isTarget = true) :
    inst.depth = 0 := by
  simp only [annotateJumps, Array.getElem?_mapIdx, Option.map_eq_some_iff] at hi
  obtain ⟨inst, hi, rfl⟩ := hi
  simp only [hfresh i inst hi, Bool.false_or, Bool.or_eq_true, Bool.and_eq_true] at htarget
  rcases htarget with hmarked | ⟨-, hboundary⟩
  · have hdepth : ∃ inst, code[i]? = some inst ∧ inst.depth = 0 := by
      rcases List.mem_append.mp (mem_marks.mp hmarked).1 with hstatic | hlisted
      · exact depth_of_staticTarget hrules hstatic
      · cases jumpTable? with
        | none => simp at hlisted
        | some targets =>
            simp only [Option.elim_some, List.mem_map] at hlisted
            obtain ⟨t, ht, rfl⟩ := hlisted
            exact (hrules.jumpTable t ht).2
    obtain ⟨inst', hi', hdepth⟩ := hdepth
    obtain rfl : inst = inst' := by simpa [hi] using hi'
    exact hdepth
  · simp only [mayBeComputedTarget, Bool.and_eq_true, beq_iff_eq] at hboundary
    exact hboundary.1

/-- The depths and the operands of the jumps are those that the code gives them
from its first instruction on. -/
structure FollowsCode (code : Code) : Prop where
  first : ∀ inst, code[0]? = some inst → inst.depth = 0
  next : ∀ (i : Nat) (inst after : AnnotatedInstruction), code[i]? = some inst →
    code[i + 1]? = some after → after.depth = inst.depth + inst.op.stackDelta
  folded : ∀ (i : Nat) (inst : AnnotatedInstruction) (c : Word), code[i]? = some inst →
    inst.op = .jump → code.constantBefore? i = some c → inst.operand = c

theorem annotate_head {depth : Int} {prev? : Option Instruction} {is : List Instruction}
    {inst : AnnotatedInstruction} (h : (annotate depth prev? is)[0]? = some inst) :
    inst.depth = depth ∧ ∀ prev, prev? = some prev → inst.op = .jump → prev.op = .const →
      inst.operand = prev.operand := by
  cases is with
  | nil => simp [annotate] at h
  | cons i rest =>
      simp only [annotate, List.getElem?_cons_zero, Option.some.injEq] at h
      subst h
      refine ⟨rfl, ?_⟩
      rintro prev rfl hjump hconst
      exact if_pos ⟨hjump, hconst⟩

theorem annotate_next {depth : Int} {prev? : Option Instruction} {is : List Instruction} {i : Nat}
    {inst after : AnnotatedInstruction} (hinst : (annotate depth prev? is)[i]? = some inst)
    (hafter : (annotate depth prev? is)[i + 1]? = some after) :
    after.depth = inst.depth + inst.op.stackDelta ∧
      (after.op = .jump → inst.op = .const → after.operand = inst.operand) := by
  induction is generalizing depth prev? i with
  | nil => simp [annotate] at hinst
  | cons head rest ih =>
      simp only [annotate, List.getElem?_cons_succ] at hafter
      cases i with
      | zero =>
          obtain ⟨hdepth, hfold⟩ := annotate_head hafter
          simp only [annotate, List.getElem?_cons_zero, Option.some.injEq] at hinst
          subst hinst
          exact ⟨hdepth, hfold _ rfl⟩
      | succ j =>
          simp only [annotate, List.getElem?_cons_succ] at hinst
          exact ih hinst hafter

theorem annotate_fresh {depth : Int} {prev? : Option Instruction} {is : List Instruction}
    {inst : AnnotatedInstruction} (h : inst ∈ annotate depth prev? is) :
    inst.isTarget = false ∧ inst.computed = false := by
  induction is generalizing depth prev? with
  | nil => simp [annotate] at h
  | cons head rest ih =>
      simp only [annotate, List.mem_cons] at h
      rcases h with rfl | hrest
      · exact ⟨rfl, rfl⟩
      · exact ih hrest

theorem constantBefore?_eq_some {code : Code} {i : Nat} {c : Word} :
    code.constantBefore? i = some c ↔
      ∃ j prev, i = j + 1 ∧ code[j]? = some prev ∧ prev.op = .const ∧ prev.operand = c := by
  cases i with
  | zero => simp [Code.constantBefore?]
  | succ j =>
      rw [Code.constantBefore?]
      cases hprev : code[j]? with
      | none => simp [hprev]
      | some prev => simp [hprev]

theorem followsCode_of_decode {bytes : List UInt8} {count : Nat} {code : Code}
    (h : decode bytes count = .ok code) : FollowsCode code := by
  obtain ⟨is, -, rfl⟩ := map_eq_ok.mp h
  refine ⟨?_, ?_, ?_⟩
  · intro inst hinst
    exact (annotate_head (by simpa using hinst)).1
  · intro i inst after hinst hafter
    exact (annotate_next (by simpa using hinst) (by simpa using hafter)).1
  · intro i inst c hi hop hc
    obtain ⟨j, prev, rfl, hprev, hconst, rfl⟩ := constantBefore?_eq_some.mp hc
    exact (annotate_next (by simpa using hprev) (by simpa using hi)).2 hop hconst

theorem fresh_of_decode {bytes : List UInt8} {count : Nat} {code : Code}
    (h : decode bytes count = .ok code) {i : Nat} {inst : AnnotatedInstruction}
    (hi : code[i]? = some inst) : inst.isTarget = false ∧ inst.computed = false := by
  obtain ⟨is, -, rfl⟩ := map_eq_ok.mp h
  exact annotate_fresh (by simpa using Array.mem_of_getElem? hi)

theorem Agree.followsCode {code code' : Code} (h : Agree code code') (hcode : FollowsCode code) :
    FollowsCode code' := by
  refine ⟨?_, ?_, ?_⟩
  · intro inst' h0'
    obtain ⟨inst, h0, -, hdepth⟩ := h.symm.exists_of h0'
    rw [← hdepth, hcode.first inst h0]
  · intro i inst' after' hi' hafter'
    obtain ⟨inst, hi, hinst, hdepth⟩ := h.symm.exists_of hi'
    obtain ⟨after, hafter, -, hdepth'⟩ := h.symm.exists_of hafter'
    rw [← hdepth', ← hdepth, ← hinst, hcode.next i inst after hi hafter]
  · intro i inst' c hi' hop hc
    obtain ⟨inst, hi, hinst, -⟩ := h.symm.exists_of hi'
    rw [h.constantBefore?_eq] at hc
    rw [← hinst] at hop ⊢
    exact hcode.folded i inst c hi hop hc

section

variable {code : Code} {procs : Array Procedure} (h : ListsProcedures code procs.toList)

include h

theorem inCodeOrder_of_lists : InCodeOrder procs := by
  intro j k p q hj hk hlt
  have hlast := List.pairwise_iff_getElem.mp h.ordered j k
    (by simpa using (Array.getElem?_eq_some_iff.mp hj).1)
    (by simpa using (Array.getElem?_eq_some_iff.mp hk).1) hlt
  simpa only [Array.getElem_toList, (Array.getElem?_eq_some_iff.mp hj).2,
    (Array.getElem?_eq_some_iff.mp hk).2] using hlast

theorem orderedByStart_of_lists : OrderedByStart procs := by
  intro j k p q hj hk hlt
  have hp := (h.mem_iff p).mp (Array.mem_toList_iff.mpr (Array.mem_of_getElem? hj))
  have hle := hp.span.le
  have hlast := inCodeOrder_of_lists h j k p q hj hk hlt
  omega

end

theorem exists_procedure_of_span {code : Code} {s e : Nat} (h : Span code s e) :
    ∃ p, IsProcedure code p ∧ p.start = s ∧ p.last = e := by
  classical
  obtain ⟨enter, henter, -⟩ := exists_of_opAt? h.enters
  let p : Procedure :=
    { start := s
      last := e
      frameSize := enter.operand
      computed := decide (∃ j, s ≤ j ∧ j ≤ e ∧ IsComputedJump code j) }
  refine ⟨p, ⟨h, fun enter' henter' => ?_, decide_eq_true_iff⟩, rfl, rfl⟩
  obtain rfl : enter = enter' := by simpa [p, henter] using henter'
  rfl

/-- What is known of a module that has been loaded. -/
structure Sound (m : Module) : Prop where
  rules : Rules m.code m.staticSize m.jumpTable?
  procedures : ListsProcedures m.code m.procedures.toList
  follows : FollowsCode m.code
  computed_iff : ∀ (i : Nat) (inst : AnnotatedInstruction), m.code[i]? = some inst →
    inst.op = .jump → (inst.computed = true ↔ m.code.constantBefore? i = none)
  target_depth : ∀ (i : Nat) (inst : AnnotatedInstruction), m.code[i]? = some inst →
    inst.isTarget = true → inst.depth = 0

theorem load_eq_ok {name : String} {image : Image} {m : Module}
    (h : Module.load name image = .ok m) :
    ∃ code v, decode (m.header.codeRegion image) m.header.instructionCount = .ok code ∧
      verify code m.staticSize m.jumpTable? = .ok v ∧
        m.code = v.code ∧ m.procedures = v.procedures := by
  simp only [Module.load, bind_eq_ok] at h
  obtain ⟨header, -, code, hcode, v, hv, hm⟩ := h
  obtain rfl := Except.ok.inj hm
  refine ⟨code, v, ?_, ?_, rfl, rfl⟩
  · cases hdecode : decode (header.codeRegion image) header.instructionCount with
    | error e => rw [hdecode] at hcode; cases hcode
    | ok code' => rw [hdecode] at hcode; cases hcode; rfl
  · cases hverify : verify code header.staticSize (Module.readJumpTable? header image) with
    | error e => rw [hverify] at hv; cases hv
    | ok v' => rw [hverify] at hv; cases hv; exact hverify

theorem sound_of_load {name : String} {image : Image} {m : Module}
    (h : Module.load name image = .ok m) : Sound m := by
  obtain ⟨code, v, hdecode, hverify, hcode, hprocedures⟩ := load_eq_ok h
  have hrules := verify_ok_iff.mp ⟨v, hverify⟩
  obtain ⟨-, -, scan, hscan, -, rfl⟩ := verify_eq_ok_iff.mp hverify
  have hagree : Agree code m.code := hcode ▸ agree_annotateJumps code scan m.jumpTable?
  refine ⟨hagree.rules hrules, ?_, hagree.followsCode (followsCode_of_decode hdecode), ?_, ?_⟩
  · rw [hprocedures]
    exact hagree.listsProcedures (listsProcedures_of_knows (knows_of_run hscan))
  · intro i inst hi hop
    rw [hagree.constantBefore?_eq]
    simp only [hcode, annotateJumps, Array.getElem?_mapIdx, Option.map_eq_some_iff] at hi
    obtain ⟨inst, hi, rfl⟩ := hi
    simp only at hop
    simp [(fresh_of_decode hdecode hi).2, hop, Code.isStaticJump, hi]
  · intro i inst hi htarget
    rw [hcode] at hi
    exact depth_of_isTarget hrules (fun j inst hj => (fresh_of_decode hdecode hj).1) hi htarget

section

variable {m : Module} (hm : Sound m)

include hm

theorem Sound.mem_procedures_iff {p : Procedure} : p ∈ m.procedures ↔ IsProcedure m.code p := by
  rw [← Array.mem_toList_iff]
  exact hm.procedures.mem_iff p

theorem Sound.orderedByStart : OrderedByStart m.procedures :=
  orderedByStart_of_lists hm.procedures

theorem Sound.procedureAt?_eq_some_iff {i : Nat} {p : Procedure} :
    m.procedureAt? i = some p ↔ p ∈ m.procedures ∧ p.start = i :=
  startingAt?_eq_some_iff hm.orderedByStart

theorem Sound.exists_procedureAt? {i : Nat} (henter : opAt? m.code i = some .enter) :
    ∃ p, m.procedureAt? i = some p := by
  obtain ⟨inst, hi, hop⟩ := exists_of_opAt? henter
  have hrule := hm.rules.instructions i inst hi
  simp only [InstructionRule, hop] at hrule
  obtain ⟨-, -, -, -, e, hspan⟩ := hrule
  obtain ⟨p, hp, hstart, -⟩ := exists_procedure_of_span hspan
  exact ⟨p, hm.procedureAt?_eq_some_iff.mpr ⟨hm.mem_procedures_iff.mpr hp, hstart⟩⟩

theorem Sound.known_jump {i : Nat} {inst : AnnotatedInstruction} {c : Word}
    (hi : m.code[i]? = some inst) (hop : inst.op = .jump) (hc : m.code.constantBefore? i = some c) :
    inst.operand = c ∧ JumpAllowed m.code i inst.operand := by
  have hrule := hm.rules.instructions i inst hi
  simp only [InstructionRule, hop] at hrule
  exact ⟨hm.follows.folded i inst c hi hop hc, (hrule.2 c hc).2⟩

theorem Sound.exists_enter {p : Procedure} (hp : p ∈ m.procedures) :
    ∃ enter, m.code[p.start]? = some enter ∧ enter.op = .enter ∧ enter.depth = 0 := by
  obtain ⟨enter, henter, hop⟩ := exists_of_opAt? (hm.mem_procedures_iff.mp hp).span.enters
  have hrule := hm.rules.instructions p.start enter henter
  simp only [InstructionRule, hop] at hrule
  exact ⟨enter, henter, hop, hrule.1⟩

theorem Sound.frameSize_bounds {p : Procedure} (hp : p ∈ m.procedures) :
    0 ≤ p.frameSize.toInt ∧ p.frameSize.toInt < 0x10000 ∧ p.frameSize.toInt % 4 = 0 := by
  obtain ⟨enter, henter, hop, -⟩ := hm.exists_enter hp
  have hrule := hm.rules.instructions _ enter henter
  simp only [InstructionRule, hop] at hrule
  rw [(hm.mem_procedures_iff.mp hp).frameSize enter henter]
  exact ⟨hrule.2.1, hrule.2.2.1, hrule.2.2.2.1⟩

theorem Sound.depth_pos_of_constantBefore? {i : Nat} {inst : AnnotatedInstruction} {c : Word}
    (hi : m.code[i]? = some inst) (hc : m.code.constantBefore? i = some c) : 0 < inst.depth := by
  obtain ⟨j, prev, rfl, hprev, hconst, -⟩ := constantBefore?_eq_some.mp hc
  have hnext := hm.follows.next j prev inst hprev hi
  have hbounds := hm.rules.depths j prev hprev
  simp only [hconst, Opcode.stackDelta] at hnext
  omega

end

end SandboxVm.Proofs.LoadedModule
