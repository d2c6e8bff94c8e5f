import SandboxVm.Proofs.CompiledSupply
import SandboxVm.Proofs.JumpMarks

namespace SandboxVm.Proofs.NativeTranslation

open SandboxVm.Native
open SandboxVm.Verification
open SandboxVm.Proofs.VerificationRules
open SandboxVm.Proofs.VerificationScan
open SandboxVm.Proofs.LoadedModule
open SandboxVm.Proofs.ControlTransfer
open SandboxVm.Proofs.JumpMarks
open SandboxVm.Proofs.OperandStack
open SandboxVm.Proofs.EntryCall
open SandboxVm.Proofs.CompiledSupply

/-- The procedure contains an instruction that takes more operands than there are. -/
def Starved (m : Module) (p : Procedure) : Prop :=
  ∃ i inst, p.start ≤ i ∧ i ≤ p.last ∧ m.code[i]? = some inst ∧ UnderSupplied inst

/-- Control may go from the instruction `inst` at `i` to `target`, otherwise than by
just falling through. -/
inductive GoesTo (m : Module) (p : Procedure) (i : Nat) (inst : AnnotatedInstruction) :
    (target : Nat) → Prop where
  | taken : inst.op.isBranch = true → GoesTo m p i inst (blockIndex inst.operand)
  | notTaken : inst.op.isBranch = true → GoesTo m p i inst (i + 1)
  | known : inst.op = .jump → inst.computed = false → GoesTo m p i inst (blockIndex inst.operand)
  | computed {target : Word} : inst.op = .jump → inst.computed = true →
      m.isJumpTarget p target = true → GoesTo m p i inst target.toInt.toNat

/-- What the translator makes of the instructions of a procedure in front of index `i`. -/
def translateUpTo (m : Module) (p : Procedure) (i : Nat) : Except TranslationError Progress :=
  translateFrom m.code p (p.start + 1) {} ((body m.code p).take (i - (p.start + 1)))

/-- Nothing but a lack of operands keeps the procedure from being translated. -/
structure Translates (m : Module) (p : Procedure) : Prop where
  fails_iff : ∀ e, translate m.code p = .error e ↔ e = .underflow ∧ Starved m p
  height : ∀ i inst t, p.start < i → m.code[i]? = some inst → i ≤ p.last →
    translateUpTo m p i = .ok t → inst.depth = 4 * t.height
  empty : ∀ i t, i ≤ p.last → startsBlock m.code p i = true → translateUpTo m p i = .ok t →
    t.height = 0
  blocks : ∀ i inst target, p.start < i → i ≤ p.last → m.code[i]? = some inst →
    GoesTo m p i inst target → startsBlock m.code p target = true
  /-- A block is open wherever an instruction is put into it. -/
  opened : ∀ i t t', p.start < i → i ≤ p.last → translateUpTo m p i = .ok t →
    openBlock m.code p i t = .ok t' → t'.filled = false
  closed : ∀ t, translateUpTo m p (p.last + 1) = .ok t → t.filled = true

theorem blockIndex_eq {operand : Word} (h : 0 ≤ operand.toInt) :
    blockIndex operand = operand.toInt.toNat := by
  have hsame : operand.toInt64.toInt = operand.toInt := Int32.toInt_toInt64 operand
  have hmod : operand.toInt64.toInt = (operand.toInt64.toUInt64.toNat : Int).bmod (2 ^ 64) :=
    BitVec.toInt_eq_toNat_bmod operand.toInt64.toBitVec
  have hlt := operand.toInt64.toUInt64.toNat_lt
  rw [blockIndex]
  rw [Int.bmod_def] at hmod
  split at hmod <;> omega

/-! ### Where blocks start -/

theorem isTarget_of_known {name : String} {image : Image} {m : Module}
    (h : Module.load name image = .ok m) {i : Nat} {inst : AnnotatedInstruction}
    (hi : m.code[i]? = some inst) (hknown : KnownTarget m.code i) : inst.isTarget = true := by
  obtain ⟨code, v, -, hverify, hcode, -⟩ := load_eq_ok h
  have hrules := verify_ok_iff.mp ⟨v, hverify⟩
  obtain ⟨-, -, scan, hscan, -, rfl⟩ := verify_eq_ok_iff.mp hverify
  have hagree := agree_annotateJumps code scan m.jumpTable?
  rw [hcode] at hi hknown
  obtain ⟨inst₀, hi₀, -⟩ := hagree.symm.exists_of hi
  have hiff := (annotateJumps_iff hrules (knows_of_run hscan) hi₀ hi).1
  exact hiff.mpr (.inr (.inl (knownTarget_mono hagree.symm hknown)))

section

variable {m : Module} (hm : Sound m)

include hm

theorem depth_of_endsBlock {i : Nat} {inst : AnnotatedInstruction} (hi : m.code[i]? = some inst)
    (hends : inst.op.endsBlock = true) : inst.depth + inst.op.stackDelta = 0 := by
  have hrule := hm.rules.instructions i inst hi
  cases hop : inst.op with
  | branch _ | jump | leave =>
      simp only [InstructionRule, hop] at hrule
      rw [hrule.1]
      rfl
  | _ => simp [hop, Opcode.endsBlock] at hends

theorem depth_of_startsBlock {p : Procedure} {i : Nat} {inst : AnnotatedInstruction}
    (hi : m.code[i]? = some inst) (hstarts : startsBlock m.code p i = true) : inst.depth = 0 := by
  simp only [startsBlock, hi, Option.any_some, Bool.and_eq_true, Bool.or_eq_true,
    decide_eq_true_eq, Option.any_eq_true] at hstarts
  obtain ⟨⟨hlow, -⟩, htarget | ⟨prev, hprev, hends⟩⟩ := hstarts
  · exact hm.target_depth i inst hi htarget
  · have hnext := hm.follows.next (i - 1) prev inst hprev
      (by rwa [Nat.sub_add_cancel (Nat.one_le_of_lt hlow)])
    rw [hnext, depth_of_endsBlock hm hprev hends]

theorem startsBlock_of_isTarget {p : Procedure} {i : Nat} {inst : AnnotatedInstruction}
    (hinside : Inside m p i) (hi : m.code[i]? = some inst) (hop : inst.op ≠ .enter)
    (htarget : inst.isTarget = true) : startsBlock m.code p i = true := by
  have hne : p.start ≠ i := by
    rintro rfl
    obtain ⟨enter, henter, hop', -⟩ := hm.exists_enter hinside.mem
    obtain rfl : enter = inst := Option.some.inj (henter.symm.trans hi)
    exact hop hop'
  have hlow := Nat.lt_of_le_of_ne hinside.start_le hne
  simp [startsBlock, hlow, hinside.le_last, hi, htarget]

theorem startsBlock_behind_branch {p : Procedure} {i : Nat} {inst : AnnotatedInstruction}
    (hinside : Inside m p i) (hi : m.code[i]? = some inst) (hop : inst.op.isBranch = true) :
    startsBlock m.code p (i + 1) = true := by
  obtain ⟨hnext, -⟩ := hinside.next hm hi (by rintro h; simp [h, Opcode.isBranch] at hop)
  apply startsBlock_of_endsBlock (Nat.lt_succ_of_le hinside.start_le) hnext.le_last
  cases hcase : inst.op with
  | branch c => simp [hi, hcase, Opcode.endsBlock]
  | _ => simp [hcase, Opcode.isBranch] at hop

theorem startsBlock_of_isJumpTarget {p : Procedure} (hp : p ∈ m.procedures) {target : Word}
    (h : m.isJumpTarget p target = true) : startsBlock m.code p target.toInt.toNat = true := by
  simp only [Module.isJumpTarget, Procedure.contains, Bool.and_eq_true, decide_eq_true_eq] at h
  obtain ⟨⟨-, hstart, hlast⟩, hdest⟩ := h
  split at hdest
  · rename_i dest hcode
    simp only [Bool.and_eq_true, bne_iff_ne] at hdest
    exact startsBlock_of_isTarget hm ⟨hp, hstart, hlast⟩ hcode hdest.2 hdest.1
  · cases hdest

end

theorem requireBlock_eq_ok {code : Code} {p : Procedure} {i : Nat}
    (h : startsBlock code p i = true) : requireBlock code p i = .ok () := if_pos h

theorem forM_requireBlock {code : Code} {p : Procedure} {targets : List Nat}
    (h : ∀ t ∈ targets, startsBlock code p t = true) :
    targets.forM (requireBlock code p) = .ok () := by
  induction targets with
  | nil => rfl
  | cons t rest ih =>
      obtain ⟨ht, hrest⟩ := List.forall_mem_cons.mp h
      rw [List.forM, requireBlock_eq_ok ht]
      exact ih hrest

section

variable {name : String} {image : Image} {m : Module} (hload : Module.load name image = .ok m)
  {p : Procedure} {i : Nat} {inst : AnnotatedInstruction}

include hload

theorem startsBlock_of_allowed (hinside : Inside m p i) (hi : m.code[i]? = some inst)
    (hjump : inst.op.isBranch = true ∨ inst.op = .jump ∧ m.code.constantBefore? i ≠ none)
    (hallowed : JumpAllowed m.code i inst.operand) :
    startsBlock m.code p (blockIndex inst.operand) = true := by
  have hm := sound_of_load hload
  obtain ⟨hdest, dest, hat, -, hop⟩ := hinside.jumpAllowed hm hallowed
  have hnonneg := hallowed.nonneg
  have hknown : KnownTarget m.code inst.operand.toInt.toNat := ⟨i, inst, hi, hjump, by omega⟩
  rw [blockIndex_eq hnonneg]
  exact startsBlock_of_isTarget hm hdest hat hop (isTarget_of_known hload hat hknown)

theorem startsBlock_of_goesTo {target : Nat} (hinside : Inside m p i)
    (hi : m.code[i]? = some inst) (h : GoesTo m p i inst target) :
    startsBlock m.code p target = true := by
  have hm := sound_of_load hload
  cases h with
  | taken hop =>
      exact startsBlock_of_allowed hload hinside hi (.inl hop)
        (jumpAllowed_of_known hm.rules hi (.inl hop))
  | notTaken hop => exact startsBlock_behind_branch hm hinside hi hop
  | known hop hcomputed =>
      have hconst : m.code.constantBefore? i ≠ none := by
        rw [ne_eq, ← hm.computed_iff i inst hi hop, hcomputed]
        exact Bool.false_ne_true
      obtain ⟨c, hc⟩ := Option.ne_none_iff_exists'.mp hconst
      exact startsBlock_of_allowed hload hinside hi (.inr ⟨hop, hconst⟩)
        (hm.known_jump hi hop hc).2
  | computed _ _ htarget => exact startsBlock_of_isJumpTarget hm hinside.mem htarget

/-! ### Failing to translate -/

theorem requireTargets_eq_ok (hinside : Inside m p i) (hi : m.code[i]? = some inst) :
    requireTargets m.code p i inst = .ok () := by
  have hblock {target : Nat} (h : GoesTo m p i inst target) :=
    requireBlock_eq_ok (startsBlock_of_goesTo hload hinside hi h)
  unfold requireTargets
  cases hop : inst.op with
  | branch c =>
      have hbranch : inst.op.isBranch = true := by rw [hop]; rfl
      simp only [hblock (.taken hbranch), hblock (.notTaken hbranch)]
      rfl
  | jump =>
      dsimp only
      split
      · apply forM_requireBlock
        intro t ht
        simp only [computedTargets, List.mem_filter, List.mem_range'_1, Option.any_eq_true,
          Bool.and_eq_true, bne_iff_ne] at ht
        obtain ⟨hrange, dest, hdest, htarget, hop'⟩ := ht
        exact startsBlock_of_isTarget (sound_of_load hload)
          ⟨hinside.mem, by omega, by omega⟩ hdest hop' htarget
      · rename_i hcomputed
        exact hblock (.known hop (by simpa using hcomputed))
  | _ => rfl

variable {t : Progress} (hfront : InFront m.code i t)

include hfront

theorem openBlock_ok (hi : m.code[i]? = some inst) :
    ∃ t', openBlock m.code p i t = .ok t' ∧ t'.height = t.height := by
  unfold openBlock
  split
  · rename_i hstarts
    have hheight := hfront.height inst hi
    rw [depth_of_startsBlock (sound_of_load hload) hi hstarts] at hheight
    rw [if_pos (by omega)]
    exact ⟨_, rfl, rfl⟩
  · exact ⟨t, rfl, rfl⟩

/-- An instruction inside a procedure fails to be translated only for want of operands. -/
theorem translateInstruction_eq_error {t' : Progress} {e : TranslationError}
    (hinside : Inside m p i) (hlow : p.start < i) (hi : m.code[i]? = some inst)
    (hheight : t'.height = t.height) (h : translateInstruction m.code p i t' inst = .error e) :
    e = .underflow ∧ UnderSupplied inst := by
  have hm := sound_of_load hload
  have hdepth := hfront.height inst hi
  unfold translateInstruction at h
  split at h
  · rename_i hop
    have hspan := (hm.mem_procedures_iff.mp hinside.mem).span
    exact absurd (by rw [opAt?_eq_some hi, hop])
      (hm.rules.unnested _ _ hspan i hlow hinside.le_last)
  · split at h
    · rename_i hpops
      cases h
      refine ⟨rfl, ?_⟩
      unfold UnderSupplied
      omega
    · rw [requireTargets_eq_ok hload hinside hi] at h
      cases h

end

theorem translateFrom_eq_error {name : String} {image : Image} {m : Module}
    (hload : Module.load name image = .ok m) {p : Procedure} (hp : p ∈ m.procedures) {i : Nat}
    {insts : List AnnotatedInstruction} {t : Progress} {e : TranslationError}
    (hstand : StandAt m.code i insts) (hlow : p.start < i) (hhigh : i + insts.length ≤ p.last + 1)
    (hfront : InFront m.code i t) (h : translateFrom m.code p i t insts = .error e) :
    e = .underflow ∧ ∃ k inst, k < insts.length ∧ m.code[i + k]? = some inst ∧
      UnderSupplied inst := by
  induction insts generalizing i t with
  | nil => cases h
  | cons inst rest ih =>
      obtain ⟨hi, hstand⟩ := standAt_cons.mp hstand
      rw [List.length_cons] at hhigh
      have hinside : Inside m p i := ⟨hp, hlow.le, by omega⟩
      obtain ⟨t₁, hopen, hheight⟩ := openBlock_ok (p := p) hload hfront hi
      obtain hfail | ⟨t₁', hopen', h⟩ := bind_eq_error.mp h
      · rw [hopen] at hfail
        cases hfail
      obtain rfl : t₁ = t₁' := Except.ok.inj (hopen.symm.trans hopen')
      obtain hstep | ⟨t₂, hstep, h⟩ := bind_eq_error.mp h
      · obtain ⟨hunderflow, hunder⟩ :=
          translateInstruction_eq_error hload hfront hinside hlow hi hheight hstep
        exact ⟨hunderflow, 0, inst, Nat.succ_pos _, hi, hunder⟩
      · have hnext := (hfront.next (sound_of_load hload).follows hlow hinside.le_last hi hopen
          hstep).2
        obtain ⟨hunderflow, k, other, hk, hother, hunder⟩ :=
          ih hstand (by omega) (by omega) hnext h
        refine ⟨hunderflow, k + 1, other, Nat.succ_lt_succ hk, ?_, hunder⟩
        rwa [← Nat.add_assoc, Nat.add_right_comm]

/-! ### Procedures and modules -/

section

variable {name : String} {image : Image} {m : Module} (hload : Module.load name image = .ok m)
  {p : Procedure} (hp : p ∈ m.procedures)

include hload hp

/-- As long as the translator has not failed, its state fits the place it has come to. -/
theorem inFront_of_translateUpTo {i : Nat} {t : Progress} (hlow : p.start < i)
    (hhigh : i ≤ p.last + 1) (h : translateUpTo m p i = .ok t) : InFront m.code i t := by
  have hm := sound_of_load hload
  have hlength := body_length hm hp
  have htaken : ((body m.code p).take (i - (p.start + 1))).length = i - (p.start + 1) := by
    rw [List.length_take, hlength]
    omega
  have hstand : StandAt m.code (p.start + 1) ((body m.code p).take (i - (p.start + 1))) := by
    intro k hk
    rw [htaken] at hk
    rw [List.getElem?_take_of_lt hk]
    exact standAt_body hm hp k (by omega)
  have hfront := (translateFrom_eq_ok hm.follows hstand (Nat.lt_succ_self _) (by omega)
    (inFront_first hm hp) h).2
  rwa [htaken, Nat.add_sub_cancel' hlow] at hfront

theorem filled_at_end {t : Progress} (h : translateUpTo m p (p.last + 1) = .ok t) :
    t.filled = true := by
  have hspan := ((sound_of_load hload).mem_procedures_iff.mp hp).span
  have hle := hspan.le
  obtain ⟨leave, hleave, hop⟩ := exists_of_opAt? hspan.leaves
  rw [(inFront_of_translateUpTo hload hp (by omega) le_rfl h).filled, Nat.add_sub_cancel, hleave,
    Option.any_some, hop]
  rfl

theorem translateUpTo_end :
    translateUpTo m p (p.last + 1) = translateFrom m.code p (p.start + 1) {} (body m.code p) := by
  rw [translateUpTo, List.take_of_length_le]
  rw [body_length (sound_of_load hload) hp]
  omega

theorem starved_of_translate {e : TranslationError} (h : translate m.code p = .error e) :
    e = .underflow ∧ Starved m p := by
  have hm := sound_of_load hload
  have hle := (hm.mem_procedures_iff.mp hp).span.le
  have hlength := body_length hm hp
  obtain hbody | ⟨t, hbody, hend⟩ := bind_eq_error.mp h
  · obtain ⟨hunderflow, k, inst, hk, hi, hunder⟩ := translateFrom_eq_error hload hp
      (standAt_body hm hp) (Nat.lt_succ_self _) (by omega) (inFront_first hm hp) hbody
    exact ⟨hunderflow, p.start + 1 + k, inst, by omega, by omega, hi, hunder⟩
  · rw [← translateUpTo_end hload hp] at hbody
    rw [if_pos (filled_at_end hload hp hbody)] at hend
    cases hend

theorem translate_eq_error_iff (e : TranslationError) :
    translate m.code p = .error e ↔ e = .underflow ∧ Starved m p := by
  refine ⟨starved_of_translate hload hp, ?_⟩
  rintro ⟨rfl, i, inst, hstart, hlast, hi, hunder⟩
  cases h : translate m.code p with
  | ok _ =>
      exact absurd hunder (not_underSupplied_of_translate (sound_of_load hload) h
        ⟨hp, hstart, hlast⟩ hi)
  | error e => rw [(starved_of_translate hload hp h).1]

theorem refusal?_eq_some_iff {e : TranslationError} :
    refusal? m.code p = some e ↔ e = .underflow ∧ Starved m p := by
  rw [← translate_eq_error_iff hload hp, refusal?]
  cases translate m.code p <;> simp

theorem translates : Translates m p where
  fails_iff := translate_eq_error_iff hload hp
  height i inst t hlow hi hhigh h :=
    (inFront_of_translateUpTo hload hp hlow (by omega) h).height inst hi
  empty i t hhigh hstarts h := by
    have hlow : p.start < i := by
      simp only [startsBlock, Bool.and_eq_true, decide_eq_true_eq] at hstarts
      exact hstarts.1.1
    have hm := sound_of_load hload
    obtain ⟨inst, hi⟩ := Inside.exists_inst hm ⟨hp, hlow.le, hhigh⟩
    have hheight := (inFront_of_translateUpTo hload hp hlow (by omega) h).height inst hi
    rw [depth_of_startsBlock hm hi hstarts] at hheight
    omega
  blocks i inst target hlow hhigh hi hgoes :=
    startsBlock_of_goesTo hload ⟨hp, hlow.le, hhigh⟩ hi hgoes
  opened i t t' hlow hhigh h hopen :=
    (inFront_of_translateUpTo hload hp hlow (by omega) h).opened hlow hhigh hopen
  closed t := filled_at_end hload hp

end

theorem firstRefused?_eq_some_iff {name : String} {image : Image} {m : Module}
    (hload : Module.load name image = .ok m) {p : Procedure} {e : TranslationError} :
    firstRefused? m = some (p, e) ↔ e = .underflow ∧ p ∈ m.procedures ∧ Starved m p ∧
      ∀ q ∈ m.procedures, Starved m q → p.start ≤ q.start := by
  have hm := sound_of_load hload
  have hspan {q : Procedure} (hq : q ∈ m.procedures) := (hm.mem_procedures_iff.mp hq).span.le
  have hordered := hm.procedures.ordered
  rw [firstRefused?, List.findSome?_eq_some_iff]
  constructor
  · rintro ⟨before, p', after, hsplit, hrefused, hbefore⟩
    obtain ⟨e', hrefused, hsame⟩ := Option.map_eq_some_iff.mp hrefused
    cases hsame
    have hp : p ∈ m.procedures := by
      rw [← Array.mem_toList_iff, hsplit]
      exact List.mem_append_right _ (List.mem_cons_self ..)
    obtain ⟨hunderflow, hstarved⟩ := (refusal?_eq_some_iff hload hp).mp hrefused
    refine ⟨hunderflow, hp, hstarved, fun q hq hstarved' => ?_⟩
    rw [hsplit, List.pairwise_append, List.pairwise_cons] at hordered
    have hplace := hq
    rw [← Array.mem_toList_iff, hsplit, List.mem_append, List.mem_cons] at hplace
    rcases hplace with hfront | rfl | hbehind
    · have hnone := Option.map_eq_none_iff.mp (hbefore q hfront)
      rw [(refusal?_eq_some_iff hload hq).mpr ⟨rfl, hstarved'⟩] at hnone
      cases hnone
    · exact le_rfl
    · have := hordered.2.1.1 q hbehind
      have := hspan hp
      omega
  · rintro ⟨rfl, hp, hstarved, hfirst⟩
    obtain ⟨before, after, hsplit⟩ := List.append_of_mem (Array.mem_toList_iff.mpr hp)
    refine ⟨before, p, after, hsplit, ?_, fun q hfront => Option.map_eq_none_iff.mpr ?_⟩
    · rw [(refusal?_eq_some_iff hload hp).mpr ⟨rfl, hstarved⟩]
      rfl
    · have hq : q ∈ m.procedures := by
        rw [← Array.mem_toList_iff, hsplit]
        exact List.mem_append_left _ hfront
      rw [hsplit, List.pairwise_append] at hordered
      have hlt := hordered.2.2 q hfront p (List.mem_cons_self ..)
      cases hrefused : refusal? m.code q with
      | none => rfl
      | some e =>
          have := hfirst q hq ((refusal?_eq_some_iff hload hq).mp hrefused).2
          have := hspan hq
          omega

theorem exists_starved_iff {name : String} {image : Image} {m : Module}
    (hload : Module.load name image = .ok m) :
    (∃ refused, firstRefused? m = some refused) ↔ ∃ p ∈ m.procedures, Starved m p := by
  constructor
  · rintro ⟨⟨p, e⟩, h⟩
    obtain ⟨-, hp, hstarved, -⟩ := (firstRefused?_eq_some_iff hload).mp h
    exact ⟨p, hp, hstarved⟩
  · rintro ⟨p, hp, hstarved⟩
    rw [← Option.isSome_iff_exists, firstRefused?, List.findSome?_isSome_iff]
    refine ⟨p, Array.mem_toList_iff.mpr hp, ?_⟩
    rw [(refusal?_eq_some_iff hload hp).mpr ⟨rfl, hstarved⟩]
    rfl

/-- A loaded module cannot be compiled just if one of its procedures takes operands that it
does not have, and the first of these is reported. Up to where the translator fails, it
knows the depths, and there are blocks wherever control may go. -/
theorem translation_fails_only_for_underflow {name : String} {image : Image} {m : Module}
    (hload : Module.load name image = .ok m) :
    ((∃ refused, firstRefused? m = some refused) ↔ ∃ p ∈ m.procedures, Starved m p) ∧
    (∀ p e, firstRefused? m = some (p, e) ↔ e = .underflow ∧ p ∈ m.procedures ∧ Starved m p ∧
      ∀ q ∈ m.procedures, Starved m q → p.start ≤ q.start) ∧
    ∀ p ∈ m.procedures, Translates m p :=
  ⟨exists_starved_iff hload, fun _ _ => firstRefused?_eq_some_iff hload,
    fun _ hp => translates hload hp⟩

theorem translation_fails_unfedLoad : ∃ p ∈ unfedLoadModule.procedures,
    Module.load "unfed" unfedLoad.build = .ok unfedLoadModule ∧
    firstRefused? unfedLoadModule = some (p, .underflow) := by
  have hfails := translation_fails_only_for_underflow load_unfedLoad
  have hstarved : Starved unfedLoadModule { start := 0, last := 3, frameSize := 8 } :=
    ⟨1, _, by decide, by decide, rfl, by decide⟩
  obtain ⟨⟨p, e⟩, hrefused⟩ := hfails.1.mpr ⟨_, by simp [unfedLoadModule], hstarved⟩
  obtain ⟨rfl, hp, -⟩ := (hfails.2.1 p e).mp hrefused
  exact ⟨p, hp, load_unfedLoad, hrefused⟩

end SandboxVm.Proofs.NativeTranslation
