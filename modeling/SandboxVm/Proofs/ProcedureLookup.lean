import SandboxVm.Procedure

namespace SandboxVm.Proofs.ProcedureLookup

open SandboxVm.Procedure

def OrderedByStart (procs : Array Procedure) : Prop :=
  ∀ (j k : Nat) (p q : Procedure), procs[j]? = some p → procs[k]? = some q → j < k →
    p.start < q.start

/-- The position `n` splits the procedures into those that start at or before
index `i` and those that start after it. -/
structure SplitsAt (procs : Array Procedure) (i n : Nat) : Prop where
  le_size : n ≤ procs.size
  below : ∀ (j : Nat) (p : Procedure), j < n → procs[j]? = some p → p.start ≤ i
  above : ∀ (j : Nat) (p : Procedure), n ≤ j → procs[j]? = some p → i < p.start

theorem upperBound_splitsAt {procs : Array Procedure} {i lo hi : Nat}
    (hordered : OrderedByStart procs) (hlo : lo ≤ procs.size) (hhi : hi ≤ procs.size)
    (hbelow : ∀ (j : Nat) (p : Procedure), j < lo → procs[j]? = some p → p.start ≤ i)
    (habove : ∀ (j : Nat) (p : Procedure), hi ≤ j → procs[j]? = some p → i < p.start) :
    SplitsAt procs i (upperBound procs i lo hi) := by
  fun_induction upperBound procs i lo hi with
  | case1 lo hi hlt mid p hmid hstart ih =>
      refine ih (by omega) hhi ?_ habove
      intro j q hj hq
      rcases Nat.lt_or_eq_of_le (Nat.le_of_lt_succ hj) with hj | rfl
      · exact Nat.le_trans (Nat.le_of_lt (hordered j mid q p hq hmid hj)) hstart
      · obtain rfl : p = q := by simpa [hmid] using hq
        exact hstart
  | case2 lo hi hlt mid p hmid hstart ih =>
      apply ih hlo (by omega) hbelow
      intro j q hj hq
      rcases Nat.lt_or_eq_of_le hj with hj | rfl
      · have := hordered mid j p q hmid hq hj
        omega
      · obtain rfl : p = q := by simpa [hmid] using hq
        omega
  | case3 lo hi hlt mid hmid =>
      have := Array.getElem?_eq_none_iff.mp hmid
      omega
  | case4 lo hi hge => exact ⟨hlo, hbelow, fun j p hj => habove j p (by omega)⟩

theorem lastUpTo?_eq_some_iff {procs : Array Procedure} {i : Nat} {p : Procedure}
    (hordered : OrderedByStart procs) :
    lastUpTo? procs i = some p ↔ ∃ j : Nat, procs[j]? = some p ∧ p.start ≤ i ∧
      ∀ (k : Nat) (q : Procedure), j < k → procs[k]? = some q → i < q.start := by
  have hsplits : SplitsAt procs i (upperBound procs i 0 procs.size) :=
    upperBound_splitsAt hordered (Nat.zero_le _) (Nat.le_refl _)
      (fun j _ hj => absurd hj (Nat.not_lt_zero j)) fun j q hj hq => by
        have := (Array.getElem?_eq_some_iff.mp hq).1
        omega
  rw [lastUpTo?]
  cases hbound : upperBound procs i 0 procs.size with
  | zero =>
      rw [hbound] at hsplits
      refine iff_of_false (by simp) ?_
      rintro ⟨j, hj, hstart, -⟩
      have := hsplits.above j p (Nat.zero_le j) hj
      omega
  | succ n =>
      rw [hbound] at hsplits
      constructor
      · intro hp
        exact ⟨n, hp, hsplits.below n p (Nat.lt_succ_self n) hp, fun k q hk => hsplits.above k q hk⟩
      · rintro ⟨j, hj, hstart, hlast⟩
        rcases Nat.lt_trichotomy j n with hlt | rfl | hlt
        · obtain ⟨q, hq⟩ : ∃ q, procs[n]? = some q := ⟨_, Array.getElem?_eq_getElem hsplits.le_size⟩
          have := hlast n q hlt hq
          have := hsplits.below n q (Nat.lt_succ_self n) hq
          omega
        · exact hj
        · have := hsplits.above j p hlt hj
          omega

theorem startingAt?_eq_some_iff {procs : Array Procedure} {i : Nat} {p : Procedure}
    (hordered : OrderedByStart procs) :
    startingAt? procs i = some p ↔ p ∈ procs ∧ p.start = i := by
  rw [startingAt?, Option.filter_eq_some_iff, lastUpTo?_eq_some_iff hordered, beq_iff_eq]
  constructor
  · rintro ⟨⟨j, hj, -⟩, hstart⟩
    exact ⟨Array.mem_of_getElem? hj, hstart⟩
  · rintro ⟨hmem, hstart⟩
    obtain ⟨j, hj⟩ := Array.mem_iff_getElem?.mp hmem
    refine ⟨⟨j, hj, Nat.le_of_eq hstart, fun k q hk hq => ?_⟩, hstart⟩
    exact hstart ▸ hordered j k p q hj hq hk

/-- The procedures stand in code order and do not overlap. -/
def InCodeOrder (procs : Array Procedure) : Prop :=
  ∀ (j k : Nat) (p q : Procedure), procs[j]? = some p → procs[k]? = some q → j < k →
    p.last < q.start

theorem containing?_eq_some_iff {procs : Array Procedure} {i : Nat} {p : Procedure}
    (hordered : OrderedByStart procs) (horder : InCodeOrder procs) :
    containing? procs i = some p ↔ p ∈ procs ∧ p.start ≤ i ∧ i ≤ p.last := by
  have hcontains : p.contains i = true ↔ p.start ≤ i ∧ i ≤ p.last := by simp [Procedure.contains]
  rw [containing?, Option.filter_eq_some_iff, lastUpTo?_eq_some_iff hordered, hcontains]
  constructor
  · rintro ⟨⟨j, hj, -⟩, hbounds⟩
    exact ⟨Array.mem_of_getElem? hj, hbounds⟩
  · rintro ⟨hmem, hbounds⟩
    obtain ⟨j, hj⟩ := Array.mem_iff_getElem?.mp hmem
    refine ⟨⟨j, hj, hbounds.1, fun k q hk hq => ?_⟩, hbounds⟩
    exact Nat.lt_of_le_of_lt hbounds.2 (horder j k p q hj hq hk)

end SandboxVm.Proofs.ProcedureLookup
