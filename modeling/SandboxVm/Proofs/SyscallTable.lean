import SandboxVm.Host.Syscalls
import SandboxVm.Proofs.VerificationScan

namespace SandboxVm.Proofs.SyscallTable

open SandboxVm.Syscalls
open SandboxVm.Proofs.VerificationScan

variable {δ : Type}

/-- The table has exactly the syscalls `defined`, under different ids. -/
structure Registers (t : Syscalls δ) (defined : List (Syscall δ)) : Prop where
  mem_iff : ∀ s, s ∈ t.entries ↔ s ∈ defined
  distinct : t.entries.Pairwise fun s s' => s.id ≠ s'.id
  bounded : ∀ s ∈ defined, s.arity ≤ maxSyscallArgs

theorem insertOrdered_perm (s : Syscall δ) (entries : List (Syscall δ)) :
    (insertOrdered s entries).Perm (s :: entries) := by
  induction entries with
  | nil => exact List.Perm.refl _
  | cons t entries ih =>
      rw [insertOrdered]
      split
      · exact List.Perm.refl _
      · exact (ih.cons t).trans (List.Perm.swap s t entries)

theorem Registers.find? {t : Syscalls δ} {defined : List (Syscall δ)} (h : Registers t defined)
    {id : UInt32} {s : Syscall δ} : t.find? id = some s ↔ s ∈ defined ∧ s.id = id := by
  rw [← h.mem_iff]
  constructor
  · intro hfind
    exact ⟨List.mem_of_find?_eq_some hfind, by simpa using List.find?_some hfind⟩
  · rintro ⟨hmem, rfl⟩
    obtain ⟨before, after, hsplit⟩ := List.append_of_mem hmem
    have hdistinct := h.distinct
    rw [hsplit, List.pairwise_append] at hdistinct
    obtain ⟨-, -, hfront⟩ := hdistinct
    rw [Syscalls.find?, List.find?_eq_some_iff_append]
    refine ⟨by simp, before, after, hsplit, ?_⟩
    intro s' hs'
    simpa using hfront s' hs' s (List.mem_cons_self ..)

theorem Registers.find?_eq_none {t : Syscalls δ} {defined : List (Syscall δ)} (h : Registers t defined)
    {id : UInt32} : t.find? id = none ↔ ∀ s ∈ defined, s.id ≠ id := by
  rw [Option.eq_none_iff_forall_ne_some]
  constructor
  · intro hnone s hs hid
    exact hnone s (h.find?.mpr ⟨hs, hid⟩)
  · intro hall s hfind
    obtain ⟨hs, hid⟩ := h.find?.mp hfind
    exact hall s hs hid

theorem Registers.define {t t' : Syscalls δ} {defined : List (Syscall δ)} {s : Syscall δ}
    (h : Registers t defined) (hdefine : t.define s = .ok t') : Registers t' (s :: defined) := by
  unfold Syscalls.define at hdefine
  split at hdefine
  · cases hdefine
  · rename_i harity
    split at hdefine
    · cases hdefine
    · rename_i hnone
      obtain rfl := Except.ok.inj hdefine
      have hperm := insertOrdered_perm s t.entries
      refine ⟨?_, ?_, ?_⟩
      · intro s'
        rw [hperm.mem_iff, List.mem_cons, List.mem_cons, h.mem_iff]
      · rw [hperm.pairwise_iff Ne.symm, List.pairwise_cons]
        refine ⟨?_, h.distinct⟩
        intro s' hs'
        exact (h.find?_eq_none.mp hnone s' ((h.mem_iff s').mp hs')).symm
      · rintro s' (_ | ⟨_, hs'⟩)
        · exact Nat.le_of_not_lt harity
        · exact h.bounded s' hs'

theorem Registers.defineAll {t t' : Syscalls δ} {defined definitions : List (Syscall δ)}
    (h : Registers t defined) (hdefine : t.defineAll definitions = .ok t') :
    Registers t' (definitions.reverse ++ defined) := by
  induction definitions generalizing t defined with
  | nil =>
      obtain rfl := Except.ok.inj hdefine
      exact h
  | cons s definitions ih =>
      obtain ⟨t₁, hfirst, hrest⟩ := bind_eq_ok.mp hdefine
      rw [List.reverse_cons, List.append_assoc]
      exact ih (h.define hfirst) hrest

theorem registers_of_defineAll {t : Syscalls δ} {definitions : List (Syscall δ)}
    (h : Syscalls.defineAll {} definitions = .ok t) : Registers t definitions := by
  have hempty : Registers ({} : Syscalls δ) [] :=
    ⟨fun s => Iff.rfl, List.Pairwise.nil, fun s hs => by cases hs⟩
  obtain ⟨hmem, hdistinct, hbounded⟩ := hempty.defineAll h
  simp only [List.append_nil, List.mem_reverse] at hmem hbounded
  exact ⟨hmem, hdistinct, hbounded⟩

end SandboxVm.Proofs.SyscallTable
