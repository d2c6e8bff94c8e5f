import Mathlib
import SandboxVm.Proofs.LoadedModule

namespace SandboxVm.Proofs.JumpMarks

open SandboxVm.Verification
open SandboxVm.Proofs.VerificationRules
open SandboxVm.Proofs.VerificationScan
open SandboxVm.Proofs.ProcedureLookup
open SandboxVm.Proofs.LoadedModule

/-- No annotation of the code is set yet. -/
def Unmarked (code : Code) : Prop :=
  ∀ (i : Nat) (inst : AnnotatedInstruction), code[i]? = some inst →
    inst.isTarget = false ∧ inst.computed = false

/-- The instruction at `i` belongs to no procedure. -/
def Outside (code : Code) (i : Nat) : Prop := ∀ s e, Span code s e → ¬ (s ≤ i ∧ i ≤ e)

/-- There is a computed jump between the indices `s` and `e`. -/
def JumpsBetween (code : Code) (s e : Nat) : Prop := ∃ j, s ≤ j ∧ j ≤ e ∧ IsComputedJump code j

/-- A branch or a jump to a constant goes to `i`. -/
def KnownTarget (code : Code) (i : Nat) : Prop :=
  ∃ (j : Nat) (jump : AnnotatedInstruction), code[j]? = some jump ∧
    (jump.op.isBranch = true ∨ jump.op = .jump ∧ code.constantBefore? j ≠ none) ∧
      jump.operand.toInt = i

/-- Where no targets are listed, a computed jump may go to `i`. The `enter` of its procedure
is not among these, but one outside of all procedures is no exception. -/
def PossibleTarget (code : Code) (i : Nat) : Prop :=
  (∃ inst, code[i]? = some inst ∧ inst.depth = 0) ∧
    ((∃ s e, Span code s e ∧ s < i ∧ i ≤ e ∧ JumpsBetween code s e) ∨
      (Outside code i ∧ ∃ j, IsComputedJump code j ∧ Outside code j))

/-- The instruction at `i` is to be marked as a jump target. -/
def MarkedTarget (code : Code) (jumpTable? : Option (List Word)) (i : Nat) : Prop :=
  KnownTarget code i ∨
    match jumpTable? with
    | some targets => ∃ t ∈ targets, t.toInt = i
    | none => PossibleTarget code i

/-- The instruction at `i` is to be marked as a computed jump, or as the `enter` of a procedure
that has one. -/
def MarkedComputed (code : Code) (i : Nat) : Prop :=
  IsComputedJump code i ∨ ∃ e, Span code i e ∧ JumpsBetween code i e

section

variable {code code' : Code} (h : Agree code code')

include h

theorem isComputedJump_congr {i : Nat} : IsComputedJump code' i ↔ IsComputedJump code i := by
  rw [IsComputedJump, IsComputedJump, h.opAt?_eq, h.constantBefore?_eq]

theorem outside_congr {i : Nat} : Outside code' i ↔ Outside code i := by
  simp only [Outside, h.span_iff]

theorem knownTarget_mono {i : Nat} (hknown : KnownTarget code i) : KnownTarget code' i := by
  obtain ⟨j, jump, hj, hop, htarget⟩ := hknown
  obtain ⟨jump', hj', hinst, -⟩ := h.exists_of hj
  exact ⟨j, jump', hj', by rwa [hinst, h.constantBefore?_eq], by rwa [hinst]⟩

theorem possibleTarget_mono {i : Nat} (hpossible : PossibleTarget code i) :
    PossibleTarget code' i := by
  obtain ⟨⟨inst, hi, hdepth⟩, hplace⟩ := hpossible
  obtain ⟨inst', hi', -, hdepth'⟩ := h.exists_of hi
  refine ⟨⟨inst', hi', by rw [hdepth', hdepth]⟩, ?_⟩
  simpa only [JumpsBetween, h.span_iff, outside_congr h, isComputedJump_congr h] using hplace

theorem markedTarget_mono {jumpTable? : Option (List Word)} {i : Nat}
    (hmarked : MarkedTarget code jumpTable? i) : MarkedTarget code' jumpTable? i := by
  refine hmarked.imp (knownTarget_mono h) fun hcomputed => ?_
  cases jumpTable? with
  | some targets => exact hcomputed
  | none => exact possibleTarget_mono h hcomputed

theorem markedTarget_congr {jumpTable? : Option (List Word)} {i : Nat} :
    MarkedTarget code' jumpTable? i ↔ MarkedTarget code jumpTable? i :=
  ⟨markedTarget_mono h.symm, markedTarget_mono h⟩

theorem markedComputed_congr {i : Nat} : MarkedComputed code' i ↔ MarkedComputed code i := by
  simp only [MarkedComputed, JumpsBetween, h.span_iff, isComputedJump_congr h]

end

section

variable {code : Code} {scan : Scan} (h : Knows code code.size scan)

include h

theorem mem_closed_iff {p : Procedure} : p ∈ scan.closed ↔ IsProcedure code p := by
  rw [← Array.mem_toList_iff]
  exact (listsProcedures_of_knows h).mem_iff p

theorem containing?_iff {i : Nat} {p : Procedure} :
    Procedure.containing? scan.closed i = some p ↔
      IsProcedure code p ∧ p.start ≤ i ∧ i ≤ p.last := by
  have hlists := listsProcedures_of_knows h
  rw [containing?_eq_some_iff (orderedByStart_of_lists hlists) (inCodeOrder_of_lists hlists),
    mem_closed_iff h]

theorem startingAt?_iff {i : Nat} {p : Procedure} :
    Procedure.startingAt? scan.closed i = some p ↔ IsProcedure code p ∧ p.start = i := by
  rw [startingAt?_eq_some_iff (orderedByStart_of_lists (listsProcedures_of_knows h)),
    mem_closed_iff h]

theorem containing?_of_span {s e i : Nat} (hspan : Span code s e) (hstart : s ≤ i)
    (hlast : i ≤ e) :
    ∃ p, Procedure.containing? scan.closed i = some p ∧ IsProcedure code p ∧ p.start = s ∧
      p.last = e := by
  obtain ⟨p, hp, rfl, rfl⟩ := exists_procedure_of_span hspan
  exact ⟨p, (containing?_iff h).mpr ⟨hp, hstart, hlast⟩, hp, rfl, rfl⟩

theorem containing?_eq_none_iff {i : Nat} :
    Procedure.containing? scan.closed i = none ↔ Outside code i := by
  constructor
  · intro hnone s e hspan ⟨hstart, hlast⟩
    obtain ⟨p, hp, -⟩ := containing?_of_span h hspan hstart hlast
    rw [hnone] at hp
    cases hp
  · intro houtside
    cases hp : Procedure.containing? scan.closed i with
    | none => rfl
    | some p =>
        obtain ⟨hp, hbounds⟩ := (containing?_iff h).mp hp
        exact absurd hbounds (houtside p.start p.last hp.span)

theorem looseJump_iff :
    scan.looseJump = true ↔ ∃ j, IsComputedJump code j ∧ Outside code j := by
  rw [h.loose]
  constructor
  · rintro ⟨j, -, hj⟩
    exact ⟨j, hj⟩
  · rintro ⟨j, hjump, houtside⟩
    exact ⟨j, lt_size_of_opAt? hjump.1, hjump, houtside⟩

theorem mayBeComputedTarget_iff {i : Nat} {inst : AnnotatedInstruction}
    (hi : code[i]? = some inst) :
    mayBeComputedTarget scan i inst = true ↔ PossibleTarget code i := by
  have hdepth : (∃ inst, code[i]? = some inst ∧ inst.depth = 0) ↔ inst.depth = 0 := by
    simp [hi]
  rw [mayBeComputedTarget, PossibleTarget, hdepth, Bool.and_eq_true, beq_iff_eq]
  refine and_congr_right fun _ => ?_
  cases hp : Procedure.containing? scan.closed i with
  | none =>
      have houtside := (containing?_eq_none_iff h).mp hp
      simp only [looseJump_iff h, houtside, true_and]
      refine ⟨Or.inr, fun hplace => hplace.resolve_left ?_⟩
      rintro ⟨s, e, hspan, hlt, hle, -⟩
      exact houtside s e hspan ⟨Nat.le_of_lt hlt, hle⟩
  | some p =>
      obtain ⟨hprocedure, hstart, hlast⟩ := (containing?_iff h).mp hp
      simp only [Bool.and_eq_true, hprocedure.computed, bne_iff_ne, ne_eq]
      constructor
      · rintro ⟨hjumps, hne⟩
        exact Or.inl ⟨p.start, p.last, hprocedure.span, by omega, hlast, hjumps⟩
      · rintro (⟨s, e, hspan, hlt, hle, hjumps⟩ | ⟨houtside, -⟩)
        · -- The procedure around `i` is the only one.
          obtain ⟨q, hq, -, rfl, rfl⟩ :=
            containing?_of_span h hspan (Nat.le_of_lt hlt) hle
          obtain rfl : p = q := Option.some.inj (hp.symm.trans hq)
          exact ⟨hjumps, by omega⟩
        · exact absurd ⟨hstart, hlast⟩ (houtside p.start p.last hprocedure.span)

theorem markedComputed_iff {i : Nat} {inst : AnnotatedInstruction} (hi : code[i]? = some inst) :
    (match inst.op with
      | .jump => !code.isStaticJump i
      | .enter => ((Procedure.startingAt? scan.closed i).map (·.computed)).getD false
      | _ => false) = true ↔ MarkedComputed code i := by
  have henters (hspan : ∃ e, Span code i e ∧ JumpsBetween code i e) : inst.op = .enter := by
    obtain ⟨e, hspan, -⟩ := hspan
    exact Option.some.inj ((opAt?_eq_some hi).symm.trans hspan.enters)
  rw [MarkedComputed, isComputedJump_iff hi]
  cases hcase : inst.op with
  | enter =>
      simp only [reduceCtorEq, false_and, false_or]
      constructor
      · intro hflag
        cases hp : Procedure.startingAt? scan.closed i with
        | none => simp [hp] at hflag
        | some p =>
            obtain ⟨hprocedure, rfl⟩ := (startingAt?_iff h).mp hp
            rw [hp, Option.map_some, Option.getD_some, hprocedure.computed] at hflag
            exact ⟨p.last, hprocedure.span, hflag⟩
      · rintro ⟨e, hspan, hjumps⟩
        obtain ⟨p, hp, rfl, rfl⟩ := exists_procedure_of_span hspan
        rw [(startingAt?_iff h).mpr ⟨hp, rfl⟩, Option.map_some, Option.getD_some, hp.computed]
        exact hjumps
  | _ =>
      have hnone : ¬ ∃ e, Span code i e ∧ JumpsBetween code i e := by
        intro hspan
        cases hcase.symm.trans (henters hspan)
      simp [hnone]

end

section

variable {code : Code} {staticSize : Nat} {jumpTable? : Option (List Word)}
  (hrules : Rules code staticSize jumpTable?)

include hrules

theorem mem_staticTargets_iff {i : Nat} : i ∈ staticTargets code ↔ KnownTarget code i := by
  have hstatic {j : Nat} {jump : AnnotatedInstruction} (hj : code[j]? = some jump) :
      code.isStaticJump j = true ↔ jump.op = .jump ∧ code.constantBefore? j ≠ none := by
    simp [Code.isStaticJump, hj, Option.isSome_iff_ne_none]
  rw [mem_staticTargets]
  constructor
  · rintro ⟨j, jump, hj, hop, rfl⟩
    have hnonneg := (jumpAllowed_of_known hrules hj hop).nonneg
    exact ⟨j, jump, hj, hop.imp id (hstatic hj).mp, by omega⟩
  · rintro ⟨j, jump, hj, hop, htarget⟩
    exact ⟨j, jump, hj, hop.imp id (hstatic hj).mpr, by omega⟩

theorem marks_iff {i : Nat} (hi : i < code.size) :
    (marks code.size (staticTargets code ++
        jumpTable?.elim [] fun ts => ts.map fun t => t.toInt.toNat)).getD i false = true ↔
      KnownTarget code i ∨ ∃ t ∈ jumpTable?.getD [], t.toInt = i := by
  rw [mem_marks, List.mem_append, mem_staticTargets_iff hrules]
  simp only [hi, and_true]
  refine or_congr_right ?_
  cases jumpTable? with
  | none => simp
  | some targets =>
      simp only [Option.elim_some, Option.getD_some, List.mem_map]
      refine exists_congr fun t => and_congr_right fun ht => ?_
      have hnonneg := (hrules.jumpTable t ht).1
      omega

/-- Annotating adds the marks that are due to those that there are. -/
theorem annotateJumps_iff {scan : Scan} (h : Knows code code.size scan) {i : Nat}
    {inst inst' : AnnotatedInstruction} (hi : code[i]? = some inst)
    (hi' : (annotateJumps code scan jumpTable?)[i]? = some inst') :
    (inst'.isTarget = true ↔ inst.isTarget = true ∨ MarkedTarget code jumpTable? i) ∧
      (inst'.computed = true ↔ inst.computed = true ∨ MarkedComputed code i) := by
  have hsize := (Array.getElem?_eq_some_iff.mp hi).1
  simp only [annotateJumps, Array.getElem?_mapIdx, hi, Option.map_some, Option.some.injEq] at hi'
  subst hi'
  constructor
  · simp only [Bool.or_eq_true, marks_iff hrules hsize, Bool.and_eq_true,
      mayBeComputedTarget_iff h hi, or_assoc, MarkedTarget]
    cases jumpTable? <;> simp
  · simp only [Bool.or_eq_true]
    exact or_congr_right (markedComputed_iff h hi)

theorem annotateJumps_eq_self {scan : Scan} (h : Knows code code.size scan)
    (htargets : ∀ (i : Nat) (inst : AnnotatedInstruction), code[i]? = some inst →
      MarkedTarget code jumpTable? i → inst.isTarget = true)
    (hcomputed : ∀ (i : Nat) (inst : AnnotatedInstruction), code[i]? = some inst →
      MarkedComputed code i → inst.computed = true) :
    annotateJumps code scan jumpTable? = code := by
  have hagree := agree_annotateJumps code scan jumpTable?
  refine Array.ext_getElem? fun i => ?_
  cases hi : code[i]? with
  | none =>
      rw [Array.getElem?_eq_none_iff] at hi ⊢
      rwa [hagree.size_eq]
  | some inst =>
      obtain ⟨inst', hi', hinst, hdepth⟩ := hagree.exists_of hi
      obtain ⟨htarget_iff, hcomputed_iff⟩ := annotateJumps_iff hrules h hi hi'
      have htarget : inst'.isTarget = inst.isTarget := by
        rw [Bool.eq_iff_iff, htarget_iff, or_iff_left_of_imp (htargets i inst hi)]
      have hcomputed : inst'.computed = inst.computed := by
        rw [Bool.eq_iff_iff, hcomputed_iff, or_iff_left_of_imp (hcomputed i inst hi)]
      rw [hi']
      cases inst
      cases inst'
      simp_all

end

/-- Verified code carries exactly the marks that are due, and is otherwise as it was. -/
structure ExactMarks (code : Code) (staticSize : Nat) (jumpTable? : Option (List Word))
    (v : Verified) : Prop where
  unchanged : Agree code v.code
  computed_iff : ∀ (i : Nat) (inst : AnnotatedInstruction), v.code[i]? = some inst →
    (inst.computed = true ↔ MarkedComputed code i)
  isTarget_iff : ∀ (i : Nat) (inst : AnnotatedInstruction), v.code[i]? = some inst →
    (inst.isTarget = true ↔ MarkedTarget code jumpTable? i)
  target_depth : ∀ (i : Nat) (inst : AnnotatedInstruction), v.code[i]? = some inst →
    inst.isTarget = true → inst.depth = 0
  /-- To verify the code again changes nothing, and finds the same procedures. -/
  again : verify v.code staticSize jumpTable? = .ok v

theorem verify_again {code : Code} {staticSize : Nat} {jumpTable? : Option (List Word)}
    {v : Verified} (h : verify code staticSize jumpTable? = .ok v) :
    verify v.code staticSize jumpTable? = .ok v := by
  have hrules := verify_ok_iff.mp ⟨v, h⟩
  obtain ⟨-, -, scan, hscan, -, rfl⟩ := verify_eq_ok_iff.mp h
  have hknows := knows_of_run hscan
  have hagree := agree_annotateJumps code scan jumpTable?
  have hrules' := hagree.rules hrules
  obtain ⟨v', hverify'⟩ := verify_ok_iff.mpr hrules'
  obtain ⟨-, -, scan', hscan', -, rfl⟩ := verify_eq_ok_iff.mp hverify'
  have hknows' := knows_of_run hscan'
  have hprocedures : scan'.closed = scan.closed :=
    Array.toList_inj.mp ((listsProcedures_of_knows hknows').unique
      (hagree.listsProcedures (listsProcedures_of_knows hknows)))
  have hcode : annotateJumps (annotateJumps code scan jumpTable?) scan' jumpTable? =
      annotateJumps code scan jumpTable? := by
    refine annotateJumps_eq_self hrules' hknows' ?_ ?_ <;> intro i inst' hi' hmarked <;>
      obtain ⟨inst, hi, -⟩ := hagree.symm.exists_of hi'
    · exact (annotateJumps_iff hrules hknows hi hi').1.mpr
        (.inr ((markedTarget_congr hagree).mp hmarked))
    · exact (annotateJumps_iff hrules hknows hi hi').2.mpr
        (.inr ((markedComputed_congr hagree).mp hmarked))
  rw [hverify', hcode, hprocedures]

/-- On code without marks, such as decoding gives, verification sets exactly those that are due. -/
theorem verify_marks_exactly {code : Code} {staticSize : Nat} {jumpTable? : Option (List Word)}
    {v : Verified} (hunmarked : Unmarked code) (h : verify code staticSize jumpTable? = .ok v) :
    ExactMarks code staticSize jumpTable? v := by
  have hrules := verify_ok_iff.mp ⟨v, h⟩
  have hagain := verify_again h
  obtain ⟨-, -, scan, hscan, -, rfl⟩ := verify_eq_ok_iff.mp h
  have hagree := agree_annotateJumps code scan jumpTable?
  have hmarks {i : Nat} {inst' : AnnotatedInstruction}
      (hi' : (annotateJumps code scan jumpTable?)[i]? = some inst') :
      (inst'.isTarget = true ↔ MarkedTarget code jumpTable? i) ∧
        (inst'.computed = true ↔ MarkedComputed code i) := by
    obtain ⟨inst, hi, -⟩ := hagree.symm.exists_of hi'
    have hiff := annotateJumps_iff hrules (knows_of_run hscan) hi hi'
    simpa only [hunmarked i inst hi, Bool.false_eq_true, false_or] using hiff
  exact ⟨hagree, fun i inst' hi' => (hmarks hi').2, fun i inst' hi' => (hmarks hi').1,
    fun i inst' hi' => depth_of_isTarget hrules (fun j inst hj => (hunmarked j inst hj).1) hi',
    hagain⟩

/-- A procedure that jumps to a computed target. -/
def jumpingCode : Code :=
  (annotate 0 none [
    ⟨.enter, 8⟩, ⟨.const, 4⟩, ⟨.unary .negate, 0⟩, ⟨.jump, 0⟩, ⟨.push, 0⟩, ⟨.leave, 8⟩]).toArray

theorem verify_marks_exactly_jumping :
    ∃ v, Unmarked jumpingCode ∧ verify jumpingCode 0 none = .ok v ∧
      ExactMarks jumpingCode 0 none v ∧
      v.code.toList.map (fun inst => (inst.isTarget, inst.computed)) =
        [(false, true), (true, false), (false, false), (false, true), (true, false),
          (false, false)] := by
  have hunmarked : Unmarked jumpingCode := by
    intro i inst hi
    have hmem := Array.mem_of_getElem? hi
    exact annotate_fresh (List.mem_toArray.mp hmem)
  have hverify : (verify jumpingCode 0 none).map
      (fun v => v.code.toList.map fun inst => (inst.isTarget, inst.computed)) =
        .ok [(false, true), (true, false), (false, false), (false, true), (true, false),
          (false, false)] := by cbv
  obtain ⟨v, hv, hflags⟩ := map_eq_ok.mp hverify
  exact ⟨v, hunmarked, hv, verify_marks_exactly hunmarked hv, hflags⟩

end SandboxVm.Proofs.JumpMarks
