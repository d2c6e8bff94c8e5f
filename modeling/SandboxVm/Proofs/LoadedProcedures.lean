import Mathlib
import SandboxVm.Image.Draft
import SandboxVm.Proofs.LoadedModule

namespace SandboxVm.Proofs.LoadedProcedures

open SandboxVm.Proofs.VerificationRules
open SandboxVm.Proofs.ProcedureLookup
open SandboxVm.Proofs.LoadedModule

def enters (code : Code) : List Nat :=
  (List.range code.size).filter fun i => opAt? code i = some .enter

theorem mem_enters {code : Code} {i : Nat} : i ∈ enters code ↔ opAt? code i = some .enter := by
  rw [enters, List.mem_filter, List.mem_range, decide_eq_true_eq]
  exact ⟨And.right, fun h => ⟨lt_size_of_opAt? h, h⟩⟩

theorem enters_pairwise (code : Code) : (enters code).Pairwise (· < ·) :=
  List.pairwise_lt_range.filter _

/-- The procedures of a module are those of its code, and looking one up is exact. -/
structure ExactLookup (m : Module) : Prop where
  /-- One procedure for each `enter`, in code order. -/
  starts : m.procedures.toList.map Procedure.start = enters m.code
  increasing : m.procedures.toList.Pairwise fun p q => p.start < q.start ∧ p.last < q.start
  nonempty : ∀ p ∈ m.procedures, p.start ≤ p.last
  /-- Code ends with a procedure. -/
  final : 0 < m.code.size → ∃ p, m.procedures.back? = some p ∧ p.last + 1 = m.code.size
  at_eq_some_iff : ∀ (i : Nat) (p : Procedure),
    m.procedureAt? i = some p ↔ p ∈ m.procedures ∧ p.start = i
  at_isSome_iff : ∀ i : Nat,
    (m.procedureAt? i).isSome = true ↔ ∃ inst, m.code[i]? = some inst ∧ inst.op = .enter
  containing_eq_some_iff : ∀ (i : Nat) (p : Procedure),
    m.procedureContaining? i = some p ↔ p ∈ m.procedures ∧ p.start ≤ i ∧ i ≤ p.last
  containing_eq_none_iff : ∀ i : Nat,
    m.procedureContaining? i = none ↔ ∀ p ∈ m.procedures, ¬ (p.start ≤ i ∧ i ≤ p.last)

section

variable {m : Module} (hm : Sound m)

include hm

theorem inCodeOrder : InCodeOrder m.procedures := inCodeOrder_of_lists hm.procedures

theorem start_add_two_le {p : Procedure} (hp : p ∈ m.procedures) : p.start + 2 ≤ p.last :=
  (hm.mem_procedures_iff.mp hp).span.le

theorem exists_procedure_iff {i : Nat} :
    (∃ p ∈ m.procedures, p.start = i) ↔ opAt? m.code i = some .enter := by
  constructor
  · rintro ⟨p, hp, rfl⟩
    exact (hm.mem_procedures_iff.mp hp).span.enters
  · intro henter
    obtain ⟨p, hp⟩ := hm.exists_procedureAt? henter
    exact ⟨p, hm.procedureAt?_eq_some_iff.mp hp⟩

theorem procedures_increasing :
    m.procedures.toList.Pairwise fun p q => p.start < q.start ∧ p.last < q.start := by
  refine hm.procedures.ordered.imp_of_mem fun {p q} hp _ hlt => ?_
  have := start_add_two_le hm (Array.mem_toList_iff.mp hp)
  omega

theorem starts_eq_enters : m.procedures.toList.map Procedure.start = enters m.code := by
  have hstarts : (m.procedures.toList.map Procedure.start).Pairwise (· < ·) :=
    List.pairwise_map.mpr ((procedures_increasing hm).imp And.left)
  have henters := enters_pairwise m.code
  refine List.Perm.eq_of_pairwise (fun a b _ _ hab hba => absurd hab (Nat.lt_asymm hba)) hstarts
    henters ?_
  refine (List.perm_ext_iff_of_nodup (hstarts.imp Nat.ne_of_lt) (henters.imp Nat.ne_of_lt)).mpr
    fun i => ?_
  rw [mem_enters, ← exists_procedure_iff hm, List.mem_map]
  simp only [Array.mem_toList_iff]

theorem exists_final (hcode : 0 < m.code.size) :
    ∃ p, m.procedures.back? = some p ∧ p.last + 1 = m.code.size := by
  have hleave : opAt? m.code (m.code.size - 1) = some .leave :=
    hm.rules.finalReturn.resolve_left (Nat.ne_of_gt hcode)
  obtain ⟨inst, hinst, hop⟩ := exists_of_opAt? hleave
  have hrule := hm.rules.instructions _ inst hinst
  simp only [InstructionRule, hop] at hrule
  obtain ⟨-, s, e, -, hspan, -, hend, -⟩ := hrule
  have hlt := hspan.lt_size
  obtain ⟨p, hp, -, hlast⟩ := exists_procedure_of_span hspan
  obtain ⟨j, hj⟩ := Array.mem_iff_getElem?.mp (hm.mem_procedures_iff.mpr hp)
  have hsize := (Array.getElem?_eq_some_iff.mp hj).1
  have hback : j = m.procedures.size - 1 := by
    -- A procedure behind this one would have to lie beyond the end of the code.
    refine Decidable.byContradiction fun hne => ?_
    obtain ⟨q, hq⟩ : ∃ q, m.procedures[j + 1]? = some q :=
      ⟨_, Array.getElem?_eq_getElem (by omega)⟩
    have hbehind := inCodeOrder hm j (j + 1) p q hj hq (Nat.lt_succ_self j)
    have hinside := (hm.mem_procedures_iff.mp (Array.mem_of_getElem? hq)).span
    have := hinside.le
    have := hinside.lt_size
    omega
  exact ⟨p, by rw [Array.back?_eq_getElem?, ← hback, hj], by omega⟩

theorem procedureContaining?_eq_some_iff {i : Nat} {p : Procedure} :
    m.procedureContaining? i = some p ↔ p ∈ m.procedures ∧ p.start ≤ i ∧ i ≤ p.last :=
  containing?_eq_some_iff hm.orderedByStart (inCodeOrder hm)

theorem procedureAt?_isSome_iff {i : Nat} :
    (m.procedureAt? i).isSome = true ↔ ∃ inst, m.code[i]? = some inst ∧ inst.op = .enter := by
  rw [Option.isSome_iff_exists]
  constructor
  · rintro ⟨p, hp⟩
    exact exists_of_opAt? ((exists_procedure_iff hm).mp ⟨p, hm.procedureAt?_eq_some_iff.mp hp⟩)
  · rintro ⟨inst, hinst, hop⟩
    exact hm.exists_procedureAt? (hop ▸ opAt?_eq_some hinst)

theorem procedureContaining?_eq_none_iff {i : Nat} :
    m.procedureContaining? i = none ↔ ∀ p ∈ m.procedures, ¬ (p.start ≤ i ∧ i ≤ p.last) := by
  rw [Option.eq_none_iff_forall_ne_some]
  constructor
  · intro h p hp hinside
    exact h p ((procedureContaining?_eq_some_iff hm).mpr ⟨hp, hinside⟩)
  · intro h p hp
    obtain ⟨hmem, hinside⟩ := (procedureContaining?_eq_some_iff hm).mp hp
    exact h p hmem hinside

end

/-- In every loaded module the procedures are those of the code, and looking one up finds
the one that starts at an index, or that contains it, if there is one. -/
theorem procedure_lookup_exact {name : String} {image : Image} {m : Module}
    (h : Module.load name image = .ok m) : ExactLookup m := by
  have hm := sound_of_load h
  exact {
    starts := starts_eq_enters hm
    increasing := procedures_increasing hm
    nonempty := fun p hp => by
      have := start_add_two_le hm hp
      omega
    final := exists_final hm
    at_eq_some_iff := fun _ _ => hm.procedureAt?_eq_some_iff
    at_isSome_iff := fun _ => procedureAt?_isSome_iff hm
    containing_eq_some_iff := fun _ _ => procedureContaining?_eq_some_iff hm
    containing_eq_none_iff := fun _ => procedureContaining?_eq_none_iff hm }

/-- Two procedures with an instruction between them that belongs to neither. -/
def apartDraft : Draft where
  instructions := [⟨.enter, 8⟩, ⟨.push, 0⟩, ⟨.leave, 8⟩, ⟨.ignore, 0⟩, ⟨.enter, 16⟩, ⟨.push, 0⟩,
    ⟨.leave, 16⟩]

def apartModule : Module where
  name := "apart"
  header := apartDraft.header
  code := #[
    { op := .enter, operand := 8, depth := 0 },
    { op := .push, depth := 0 },
    { op := .leave, operand := 8, depth := 4 },
    { op := .ignore, depth := 0 },
    { op := .enter, operand := 16, depth := 0 },
    { op := .push, depth := 0 },
    { op := .leave, operand := 16, depth := 4 }]
  data := []
  jumpTable? := none
  procedures := #[⟨0, 2, 8, false⟩, ⟨4, 6, 16, false⟩]

theorem procedure_lookup_exact_apart :
    Module.load "apart" apartDraft.build = .ok apartModule ∧ ExactLookup apartModule ∧
      apartModule.procedureAt? 4 = some ⟨4, 6, 16, false⟩ ∧
        apartModule.procedureContaining? 3 = none := by
  have hload : Module.load "apart" apartDraft.build = .ok apartModule := by cbv
  have hexact := procedure_lookup_exact hload
  refine ⟨hload, hexact, (hexact.at_eq_some_iff _ _).mpr ⟨by simp [apartModule], rfl⟩,
    (hexact.containing_eq_none_iff 3).mpr ?_⟩
  simp [apartModule]

end SandboxVm.Proofs.LoadedProcedures
