import SandboxVm.Proofs.OperandStack

namespace SandboxVm.Proofs.CompiledSupply

open SandboxVm.Native
open SandboxVm.Proofs.VerificationScan
open SandboxVm.Proofs.LoadedModule
open SandboxVm.Proofs.ControlTransfer
open SandboxVm.Proofs.OperandStack

/-- The state of the translator in front of the instruction at `i`: its height counts the
operands by the depth, and its block is closed just behind what ends one. -/
structure InFront (code : Code) (i : Nat) (t : Progress) : Prop where
  height : ∀ inst, code[i]? = some inst → inst.depth = 4 * t.height
  filled : t.filled = code[i - 1]?.any (·.op.endsBlock)

section

variable {code : Code} {p : Procedure} {i : Nat} {t t' : Progress} {inst : AnnotatedInstruction}

theorem openBlock_eq_ok (h : openBlock code p i t = .ok t') :
    t'.height = t.height ∧ (startsBlock code p i = true → t.height = 0 ∧ t'.filled = false) ∧
      (startsBlock code p i = false → t' = t) := by
  unfold openBlock at h
  split at h
  · rename_i hstarts
    split at h
    · rename_i hempty
      cases h
      exact ⟨rfl, fun _ => ⟨hempty, rfl⟩, fun hnot => by simp [hstarts] at hnot⟩
    · cases h
  · rename_i hstarts
    cases h
    exact ⟨rfl, fun hyes => absurd hyes hstarts, fun _ => rfl⟩

theorem translateInstruction_eq_ok (h : translateInstruction code p i t inst = .ok t') :
    inst.op ≠ .enter ∧ inst.op.pops ≤ t.height ∧
      t' = ⟨t.height - inst.op.pops + inst.op.pushes, t.filled || inst.op.endsBlock⟩ := by
  unfold translateInstruction at h
  split at h
  · cases h
  · rename_i henter
    split at h
    · cases h
    · rename_i hpops
      obtain ⟨-, h⟩ := bind_unit_eq_ok.mp h
      cases h
      exact ⟨henter, Nat.le_of_not_lt hpops, rfl⟩

theorem startsBlock_of_endsBlock (hlow : p.start < i) (hhigh : i ≤ p.last)
    (hends : code[i - 1]?.any (·.op.endsBlock) = true) : startsBlock code p i = true := by
  simp [startsBlock, hlow, hhigh, hends]

theorem InFront.opened (h : InFront code i t) (hlow : p.start < i) (hhigh : i ≤ p.last)
    (hopen : openBlock code p i t = .ok t') : t'.filled = false := by
  obtain ⟨-, hstarts, hsame⟩ := openBlock_eq_ok hopen
  cases hblock : startsBlock code p i with
  | true => exact (hstarts hblock).2
  | false =>
      rw [hsame hblock, h.filled]
      cases hends : code[i - 1]?.any (·.op.endsBlock) with
      | false => rfl
      | true =>
          rw [startsBlock_of_endsBlock hlow hhigh hends] at hblock
          cases hblock

theorem InFront.next {t₁ : Progress} (h : InFront code i t) (hcode : FollowsCode code)
    (hlow : p.start < i) (hhigh : i ≤ p.last) (hi : code[i]? = some inst)
    (hopen : openBlock code p i t = .ok t₁)
    (htranslate : translateInstruction code p i t₁ inst = .ok t') :
    ¬ UnderSupplied inst ∧ InFront code (i + 1) t' := by
  have hdepth := h.height inst hi
  have hheight := (openBlock_eq_ok hopen).1
  have hfilled := h.opened hlow hhigh hopen
  obtain ⟨-, hpops, rfl⟩ := translateInstruction_eq_ok htranslate
  refine ⟨?_, ?_, ?_⟩
  · unfold UnderSupplied
    omega
  · intro after hafter
    have hnext := hcode.next i inst after hi hafter
    have hdelta := stackDelta_eq inst.op
    dsimp only
    omega
  · simp [hi, hfilled]

end

def StandAt (code : Code) (i : Nat) (insts : List AnnotatedInstruction) : Prop :=
  ∀ k, k < insts.length → code[i + k]? = insts[k]?

theorem standAt_cons {code : Code} {i : Nat} {inst : AnnotatedInstruction}
    {rest : List AnnotatedInstruction} :
    StandAt code i (inst :: rest) ↔ code[i]? = some inst ∧ StandAt code (i + 1) rest := by
  constructor
  · intro h
    refine ⟨by simpa using h 0 (Nat.succ_pos _), fun k hk => ?_⟩
    have hnext := h (k + 1) (Nat.succ_lt_succ hk)
    rwa [List.getElem?_cons_succ, ← Nat.add_assoc, Nat.add_right_comm] at hnext
  · rintro ⟨hi, hrest⟩ k hk
    cases k with
    | zero => simpa using hi
    | succ k =>
        rw [List.getElem?_cons_succ, ← hrest k (Nat.lt_of_succ_lt_succ hk), ← Nat.add_assoc,
          Nat.add_right_comm]

theorem translateFrom_eq_ok {code : Code} (hcode : FollowsCode code) {p : Procedure} {i : Nat}
    {insts : List AnnotatedInstruction} {t t' : Progress} (hstand : StandAt code i insts)
    (hlow : p.start < i) (hhigh : i + insts.length ≤ p.last + 1) (hfront : InFront code i t)
    (h : translateFrom code p i t insts = .ok t') :
    (∀ inst ∈ insts, ¬ UnderSupplied inst) ∧ InFront code (i + insts.length) t' := by
  induction insts generalizing i t with
  | nil =>
      cases h
      exact ⟨by simp, hfront⟩
  | cons inst rest ih =>
      obtain ⟨hi, hstand⟩ := standAt_cons.mp hstand
      rw [List.length_cons] at hhigh
      obtain ⟨t₁, hopen, h⟩ := bind_eq_ok.mp h
      obtain ⟨t₂, htranslate, h⟩ := bind_eq_ok.mp h
      obtain ⟨hnot, hnext⟩ := hfront.next hcode hlow (by omega) hi hopen htranslate
      obtain ⟨hrest, hlast⟩ := ih hstand (by omega) (by omega) hnext h
      refine ⟨List.forall_mem_cons.mpr ⟨hnot, hrest⟩, ?_⟩
      rwa [List.length_cons, Nat.add_comm rest.length, ← Nat.add_assoc]

theorem body_getElem? {m : Module} (hm : Sound m) {procedure : Procedure}
    (hmem : procedure ∈ m.procedures) {k : Nat} (hk : k < procedure.last - procedure.start) :
    (body m.code procedure)[k]? = m.code[procedure.start + 1 + k]? := by
  have hlt := (hm.mem_procedures_iff.mp hmem).span.lt_size
  simp only [body, Array.getElem?_toList, Array.getElem?_extract]
  rw [if_pos (by omega)]

theorem body_length {m : Module} (hm : Sound m) {procedure : Procedure}
    (hmem : procedure ∈ m.procedures) :
    (body m.code procedure).length = procedure.last - procedure.start := by
  have hlt := (hm.mem_procedures_iff.mp hmem).span.lt_size
  simp only [body, Array.length_toList, Array.size_extract]
  omega

theorem inFront_first {m : Module} (hm : Sound m) {procedure : Procedure}
    (hmem : procedure ∈ m.procedures) : InFront m.code (procedure.start + 1) {} := by
  obtain ⟨enter, henter, hop, hzero⟩ := hm.exists_enter hmem
  constructor
  · intro inst hinst
    have hnext := hm.follows.next _ enter inst henter hinst
    simp only [hop, hzero, Opcode.stackDelta] at hnext
    exact hnext
  · simp [henter, hop, Opcode.endsBlock]

theorem standAt_body {m : Module} (hm : Sound m) {procedure : Procedure}
    (hmem : procedure ∈ m.procedures) :
    StandAt m.code (procedure.start + 1) (body m.code procedure) := by
  intro k hk
  rw [body_length hm hmem] at hk
  exact (body_getElem? hm hmem hk).symm

theorem mem_body {m : Module} (hm : Sound m) {procedure : Procedure} {i : Nat}
    {inst : AnnotatedInstruction} (hinside : Inside m procedure i) (hlt : procedure.start < i)
    (hinst : m.code[i]? = some inst) : inst ∈ body m.code procedure := by
  have hle := hinside.le_last
  have hget := body_getElem? hm hinside.mem (k := i - procedure.start - 1) (by omega)
  rw [show procedure.start + 1 + (i - procedure.start - 1) = i by omega, hinst] at hget
  exact List.mem_of_getElem? hget

/-- In a procedure that is translated, every instruction finds its operands there. -/
theorem not_underSupplied_of_translate {m : Module} (hm : Sound m) {procedure : Procedure} {i : Nat}
    {inst : AnnotatedInstruction} (htranslate : translate m.code procedure = .ok ())
    (hinside : Inside m procedure i) (hinst : m.code[i]? = some inst) : ¬ UnderSupplied inst := by
  obtain ⟨t, hbody, -⟩ := bind_eq_ok.mp htranslate
  have hspan := (hm.mem_procedures_iff.mp hinside.mem).span
  have hlength := body_length hm hinside.mem
  have hall := (translateFrom_eq_ok hm.follows (standAt_body hm hinside.mem) (Nat.lt_succ_self _)
    (by have := hspan.le; omega) (inFront_first hm hinside.mem) hbody).1
  rcases Nat.eq_or_lt_of_le hinside.start_le with rfl | hlt
  · obtain ⟨enter, henter, hop, hzero⟩ := hm.exists_enter hinside.mem
    obtain rfl : enter = inst := Option.some.inj (henter.symm.trans hinst)
    simp [UnderSupplied, hop, hzero, Opcode.pops]
  · exact hall inst (mem_body hm hinside hlt hinst)

theorem translate_of_firstRefused? {m : Module} (h : firstRefused? m = none) {procedure : Procedure}
    (hmem : procedure ∈ m.procedures) : translate m.code procedure = .ok () := by
  have hnone := Option.map_eq_none_iff.mp
    (List.findSome?_eq_none_iff.mp h procedure (Array.mem_toList_iff.mpr hmem))
  unfold refusal? at hnone
  split at hnone
  · assumption
  · cases hnone

theorem not_underSupplied {m : Module} (hm : Sound m) (hcompiles : firstRefused? m = none)
    {procedure : Procedure} {i : Nat} {inst : AnnotatedInstruction}
    (hinside : Inside m procedure i) (hinst : m.code[i]? = some inst) : ¬ UnderSupplied inst :=
  not_underSupplied_of_translate hm (translate_of_firstRefused? hcompiles hinside.mem) hinside hinst

theorem firstRefused?_of_compiled {δ : Type} {canCompile : Bool} {settings : Settings} {m : Module}
    {syscalls : Syscalls δ} {data : δ} {journal : Journal} {i : Instance δ}
    (h : Instance.create canCompile settings m syscalls data journal = .ok i)
    (hcompiled : i.compiled = true) : firstRefused? m = none := by
  have hbackend : (Instance.chooseBackend canCompile settings m).compiled = true := by
    simp only [Instance.create] at h
    split at h
    · cases h
    · obtain rfl := Except.ok.inj h
      exact hcompiled
  unfold Instance.chooseBackend at hbackend
  split at hbackend
  · cases hbackend
  · cases hbackend
  · cases hbackend
  · split at hbackend
    · assumption
    · cases hbackend
  · split at hbackend
    · assumption
    · cases hbackend

end SandboxVm.Proofs.CompiledSupply
