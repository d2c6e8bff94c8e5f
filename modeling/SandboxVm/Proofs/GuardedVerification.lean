import Mathlib
import SandboxVm.Decoding
import SandboxVm.Proofs.VerificationScan

namespace SandboxVm.Proofs.GuardedVerification

open SandboxVm.Verification
open SandboxVm.Proofs.VerificationRules
open SandboxVm.Proofs.VerificationScan

/-- A check that may refuse the code, or break down, which is `none`. -/
abbrev Guarded (α : Type) := Option (Except VerifyError α)

def andThen {α β : Type} (x : Guarded α) (f : α → Guarded β) : Guarded β :=
  x.bind fun
    | .ok a => f a
    | .error e => some (.error e)

def granted {α : Type} (condition : Bool) (x : Guarded α) : Guarded α :=
  if condition then x else none

def fits (bits : Nat) (n : Int) : Bool := -2 ^ (bits - 1) ≤ n && n < 2 ^ (bits - 1)

def targetGranted (code : Code) (current? : Option Procedure) (target : Int) : Bool :=
  match current? with
  | some p => target < p.start || p.last < target || target.toNat < code.size
  | none => 1 ≤ code.size

/-- What the scan takes for granted at an instruction: the instructions it looks
at exist, an index is the same as a word, and sums do not overflow. -/
def scanGranted (code : Code) (s : Scan) (index : Nat) (inst : AnnotatedInstruction) : Bool :=
  index < code.size &&
    match inst.op with
    | .enter => index + 1 ≤ code.size
    | .branch _ => targetGranted code s.current? inst.operand.toInt
    | .jump =>
      index - 1 < code.size && (Int32.ofNat index).toInt == index &&
        if code.isStaticJump index then targetGranted code s.current? inst.operand.toInt
        else s.current?.all fun p => p.start < code.size
    | .arg => s.current?.all fun p => fits 32 (p.frameSize.toInt - 4)
    | .localAddress => s.current?.all fun p =>
      fits 64 (p.frameSize.toInt + 8) && fits 64 (p.frameSize.toInt + 8 + 4 * maxProcedureArgs) &&
        fits 64 (inst.operand.toInt + 4)
    | .load width => (code.constantBefore? index).all fun addr => fits 64 (addr.toInt + width.bytes)
    | _ => true

/-- Check depths; the depth after the last instruction is asserted not to be negative. -/
def guardedDepths (index : Nat) (after : Int) : List AnnotatedInstruction → Guarded Unit
  | [] => granted (0 ≤ after) (some (.ok ()))
  | inst :: rest =>
    andThen (some (checkDepth index inst.depth)) fun _ =>
      granted (fits 32 (inst.depth + inst.op.stackDelta)) <|
        andThen (some (checkDepth index (inst.depth + inst.op.stackDelta))) fun _ =>
          guardedDepths (index + 1) (inst.depth + inst.op.stackDelta) rest

/-- Scan instructions; at the end of the code no procedure is asserted to be open. -/
def guardedScan (code : Code) (staticSize : Nat) (s : Scan) (index : Nat) :
    List AnnotatedInstruction → Guarded Scan
  | [] => granted s.current?.isNone (some (.ok s))
  | inst :: rest =>
    granted (scanGranted code s index inst) <|
      andThen (some (s.advance code staticSize index inst)) fun s =>
        guardedScan code staticSize s (index + 1) rest

def gapsGranted (code : Code) (next : Nat) : List Procedure → Bool
  | [] => next ≤ code.size
  | p :: rest => next ≤ p.start && p.start ≤ code.size && gapsGranted code (p.last + 1) rest

def marksGranted (code : Code) (scan : Scan) : Bool :=
  (scan.closed.toList.all fun p => p.start ≤ p.last && p.last < code.size) &&
    gapsGranted code 0 scan.closed.toList

def guardedVerify (code : Code) (staticSize : Nat) (jumpTable? : Option (List Word)) :
    Guarded Verified :=
  granted (code.back?.isNone || 1 ≤ code.size) <|
    andThen (some (checkFinalReturn code)) fun _ =>
      andThen (guardedDepths 0 0 code.toList) fun _ =>
        andThen (guardedScan code staticSize {} 0 code.toList) fun scan =>
          andThen (some (checkJumpTable code (jumpTable?.getD []))) fun _ =>
            granted (marksGranted code scan) <|
              some (.ok { code := annotateJumps code scan jumpTable?, procedures := scan.closed })

theorem andThen_some {α β : Type} {x : Except VerifyError α} {f : α → Guarded β}
    {g : α → Except VerifyError β} (h : ∀ a, x = .ok a → f a = some (g a)) :
    andThen (some x) f = some (x >>= g) := by
  cases x with
  | error e => rfl
  | ok a => exact h a rfl

theorem granted_eq {α : Type} {condition : Bool} {x : Guarded α} (h : condition = true) :
    granted condition x = x := if_pos h

theorem fits_of_bounds {bits : Nat} {n : Int} (hlow : -2 ^ (bits - 1) ≤ n)
    (hhigh : n < 2 ^ (bits - 1)) : fits bits n = true := by
  simp [fits, hlow, hhigh]

theorem guardedDepths_eq (index : Nat) {after : Int} (hafter : 0 ≤ after)
    (insts : List AnnotatedInstruction) :
    guardedDepths index after insts = some (checkDepths index insts) := by
  induction insts generalizing index after with
  | nil => exact granted_eq (by simpa using hafter)
  | cons inst rest ih =>
      apply andThen_some
      intro _ hdepth
      have hbefore := checkDepth_ok_iff.mp hdepth
      have hdelta : -8 ≤ inst.op.stackDelta ∧ inst.op.stackDelta ≤ 4 := by
        cases inst.op <;> simp [Opcode.stackDelta]
      rw [granted_eq (fits_of_bounds (by omega) (by omega))]
      apply andThen_some
      intro _ hdepth'
      exact ih (index + 1) (checkDepth_ok_iff.mp hdepth').1

theorem targetGranted_of_knows {code : Code} {i : Nat} {s : Scan} (h : Knows code i s)
    (hi : i < code.size) (t : Int) : targetGranted code s.current? t = true := by
  unfold targetGranted
  cases hcurrent : s.current? with
  | none =>
      simp only [decide_eq_true_eq]
      omega
  | some p =>
      have hlast := (h.inside p hcurrent).span.lt_size
      simp only [Bool.or_eq_true, decide_eq_true_eq]
      omega

theorem all_of_knows {code : Code} {i : Nat} {s : Scan} (h : Knows code i s)
    {f : Procedure → Bool} (hf : ∀ p, OpenAt code i p → f p = true) : s.current?.all f = true := by
  cases hcurrent : s.current? with
  | none => rfl
  | some p => exact hf p (h.inside p hcurrent)

theorem scanGranted_of_knows {code : Code} {i : Nat} {s : Scan} {inst : AnnotatedInstruction}
    (h : Knows code i s) (hi : i < code.size) (hsize : code.size < 2 ^ 31) :
    scanGranted code s i inst = true := by
  simp only [scanGranted, Bool.and_eq_true, decide_eq_true_eq]
  refine ⟨hi, ?_⟩
  cases hop : inst.op with
  | enter =>
      simp only [decide_eq_true_eq]
      omega
  | branch c => exact targetGranted_of_knows h hi _
  | jump =>
      have hword : (Int32.ofNat i).toInt = i := Int32.toInt_ofNat_of_lt (by omega)
      simp only [hword, beq_self_eq_true, Bool.and_true, Bool.and_eq_true, decide_eq_true_eq]
      refine ⟨by omega, ?_⟩
      split
      · exact targetGranted_of_knows h hi _
      · apply all_of_knows h
        intro p hopen
        have := hopen.start_lt
        simp only [decide_eq_true_eq]
        omega
  | arg =>
      apply all_of_knows h
      intro p hopen
      have hlow := hopen.nonneg
      have hhigh := p.frameSize.toInt_lt
      exact fits_of_bounds (by omega) (by omega)
  | localAddress =>
      apply all_of_knows h
      intro p hopen
      have hlow := p.frameSize.le_toInt
      have hhigh := p.frameSize.toInt_lt
      have hlow' := inst.operand.le_toInt
      have hhigh' := inst.operand.toInt_lt
      simp only [maxProcedureArgs, Bool.and_eq_true]
      exact ⟨⟨fits_of_bounds (by omega) (by omega), fits_of_bounds (by omega) (by omega)⟩,
        fits_of_bounds (by omega) (by omega)⟩
  | load width =>
      cases hconst : code.constantBefore? i with
      | none => rfl
      | some addr =>
          have hlow := addr.le_toInt
          have hhigh := addr.toInt_lt
          have hwidth : width.bytes ≤ 4 := by cases width <;> simp [Width.bytes]
          exact fits_of_bounds (by omega) (by omega)
  | _ => rfl

theorem guardedScan_eq {code : Code} (staticSize : Nat) {i : Nat} {s : Scan}
    {rest : List AnnotatedInstruction} (h : Knows code i s) (hsize : code.size < 2 ^ 31)
    (hrest : Remains code i rest) :
    guardedScan code staticSize s i rest = some (s.run code staticSize i rest) := by
  induction rest generalizing i s with
  | nil =>
      have hnone := h.current?_eq_none hrest.size_le
      exact granted_eq (by simp [hnone])
  | cons inst rest ih =>
      obtain ⟨hi, htail⟩ := hrest.uncons
      have hlt := (Array.getElem?_eq_some_iff.mp hi).1
      rw [guardedScan, granted_eq (scanGranted_of_knows h hlt hsize)]
      apply andThen_some
      intro next hnext
      exact ih (h.advanced hi (advanced_of_ok hnext)) htail

theorem gapsGranted_of_ordered {code : Code} {next : Nat} {procs : List Procedure}
    (hnext : next ≤ code.size) (hfirst : ∀ p ∈ procs, next ≤ p.start)
    (hbounds : ∀ p ∈ procs, p.start ≤ p.last ∧ p.last < code.size)
    (hordered : procs.Pairwise fun p q => p.last < q.start) :
    gapsGranted code next procs = true := by
  induction procs generalizing next with
  | nil => simpa [gapsGranted] using hnext
  | cons p rest ih =>
      rw [List.pairwise_cons] at hordered
      rw [List.forall_mem_cons] at hfirst hbounds
      have htail : gapsGranted code (p.last + 1) rest = true :=
        ih (by omega) hordered.1 hbounds.2 hordered.2
      simp only [gapsGranted, htail, Bool.and_true, Bool.and_eq_true, decide_eq_true_eq]
      omega

theorem marksGranted_of_knows {code : Code} {scan : Scan} (h : Knows code code.size scan) :
    marksGranted code scan = true := by
  have hlists := listsProcedures_of_knows h
  have hbounds : ∀ p ∈ scan.closed.toList, p.start ≤ p.last ∧ p.last < code.size := by
    intro p hp
    have hspan := ((hlists.mem_iff p).mp hp).span
    have := hspan.le
    exact ⟨by omega, hspan.lt_size⟩
  simp only [marksGranted, Bool.and_eq_true, List.all_eq_true, decide_eq_true_eq]
  exact ⟨hbounds, gapsGranted_of_ordered (Nat.zero_le _) (fun p _ => Nat.zero_le _) hbounds
    hlists.ordered⟩

/-- Whatever verification takes for granted holds, as long as an index fits in a word. -/
theorem guardedVerify_eq {code : Code} (staticSize : Nat) (jumpTable? : Option (List Word))
    (hsize : code.size < 2 ^ 31) :
    guardedVerify code staticSize jumpTable? = some (verify code staticSize jumpTable?) := by
  have hlast : (code.back?.isNone || decide (1 ≤ code.size)) = true := by
    cases hback : code.back? with
    | none => rfl
    | some last =>
        have := (Array.getElem?_eq_some_iff.mp hback).1
        simp only [Bool.or_eq_true, decide_eq_true_eq]
        omega
  rw [guardedVerify, granted_eq hlast]
  refine andThen_some fun _ _ => ?_
  rw [guardedDepths_eq 0 (Int.le_refl 0)]
  refine andThen_some fun _ _ => ?_
  rw [guardedScan_eq staticSize (knows_start code) hsize (remains_all code)]
  apply andThen_some
  intro scan hscan
  refine andThen_some fun _ _ => ?_
  rw [granted_eq (marksGranted_of_knows (knows_of_run hscan))]
  rfl

/-- Verification never breaks down, and it accepts the code, with these
procedures, exactly if the code keeps the rules and these are its procedures. -/
theorem verify_accepts_exactly (code : Code) (staticSize : Nat) (jumpTable? : Option (List Word))
    (hsize : code.size < 2 ^ 31) :
    guardedVerify code staticSize jumpTable? = some (verify code staticSize jumpTable?) ∧
      ∀ procs : List Procedure,
        (∃ v, verify code staticSize jumpTable? = .ok v ∧ v.procedures.toList = procs) ↔
          Rules code staticSize jumpTable? ∧ ListsProcedures code procs := by
  refine ⟨guardedVerify_eq staticSize jumpTable? hsize, ?_⟩
  intro procs
  have hlists : ∀ v, verify code staticSize jumpTable? = .ok v →
      ListsProcedures code v.procedures.toList := by
    intro v hv
    obtain ⟨-, -, scan, hscan, -, rfl⟩ := verify_eq_ok_iff.mp hv
    exact listsProcedures_of_knows (knows_of_run hscan)
  constructor
  · rintro ⟨v, hv, rfl⟩
    exact ⟨verify_ok_iff.mp ⟨v, hv⟩, hlists v hv⟩
  · rintro ⟨hrules, hprocs⟩
    obtain ⟨v, hv⟩ := verify_ok_iff.mpr hrules
    exact ⟨v, hv, (hlists v hv).unique hprocs⟩

/-- Two procedures with every kind of instruction that verification looks at. -/
def switchCode : Code :=
  (annotate 0 none [
    ⟨.enter, 16⟩, ⟨.const, 5⟩, ⟨.arg, 8⟩, ⟨.localAddress, 16⟩, ⟨.load .four, 0⟩, ⟨.const, 2⟩,
    ⟨.branch .eq, 9⟩, ⟨.const, 12⟩, ⟨.jump, 0⟩, ⟨.const, 0⟩, ⟨.load .four, 0⟩, ⟨.jump, 0⟩,
    ⟨.const, 17⟩, ⟨.call, 0⟩, ⟨.leave, 16⟩, ⟨.push, 0⟩, ⟨.leave, 16⟩,
    ⟨.enter, 8⟩, ⟨.push, 0⟩, ⟨.leave, 8⟩]).toArray

theorem verify_accepts_switchCode :
    switchCode.size < 2 ^ 31 ∧ Rules switchCode 4 none ∧
      ListsProcedures switchCode [⟨0, 16, 16, true⟩, ⟨17, 19, 8, false⟩] := by
  have hsize : switchCode.size < 2 ^ 31 := by decide
  have hverify : ((verify switchCode 4 none).map fun v => v.procedures.toList) =
      .ok [⟨0, 16, 16, true⟩, ⟨17, 19, 8, false⟩] := by cbv
  exact ⟨hsize, ((verify_accepts_exactly switchCode 4 none hsize).2 _).mp (map_eq_ok.mp hverify)⟩

end SandboxVm.Proofs.GuardedVerification
