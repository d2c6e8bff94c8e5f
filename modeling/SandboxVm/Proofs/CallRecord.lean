import SandboxVm.CallTrace

namespace SandboxVm.Proofs.CallRecord

/-- The trace is that of a stack of procedures, the outermost one first. -/
structure Records (t : CallTrace) (capacity : Nat) (stack : List Nat) : Prop where
  capacity_eq : t.capacity = capacity
  depth : t.depth = stack.length
  entries : t.entries.toList = stack.take capacity

section

variable {t t' : CallTrace} {capacity : Nat} {stack : List Nat}

theorem Records.size (h : Records t capacity stack) :
    t.entries.size = min capacity stack.length := by
  rw [← Array.length_toList, h.entries, List.length_take]

theorem records_empty {capacity : Nat} {t : CallTrace} (h : CallTrace.empty? capacity = some t) :
    Records t capacity [] := by
  unfold CallTrace.empty? at h
  split at h
  · obtain rfl := Option.some.inj h
    exact ⟨rfl, rfl, by simp⟩
  · cases h

theorem Records.push (h : Records t capacity stack) (procedure : Nat) :
    Records (t.push procedure) capacity (stack ++ [procedure]) := by
  have hsize := h.size
  refine ⟨h.capacity_eq, by simp [CallTrace.push, h.depth], ?_⟩
  simp only [CallTrace.push, h.capacity_eq]
  split
  · rename_i hroom
    rw [Array.toList_push, h.entries, List.take_append, List.take_of_length_le (l := [procedure])]
    simp only [List.length_singleton]
    omega
  · rename_i hfull
    rw [h.entries, List.take_append_of_le_length (by omega)]

theorem Records.truncate (h : Records t capacity stack) (depth : Nat) :
    Records (t.truncate depth) capacity (stack.take depth) := by
  unfold CallTrace.truncate
  split
  · rename_i hlt
    rw [h.depth] at hlt
    refine ⟨h.capacity_eq, by simp; omega, ?_⟩
    rw [Array.toList_shrink, h.entries, List.take_take, List.take_take, Nat.min_comm]
  · rename_i hle
    rw [h.depth] at hle
    rw [List.take_of_length_le (by omega)]
    exact h

theorem Records.pop (h : Records t capacity stack) : Records t.pop capacity stack.dropLast := by
  rw [List.dropLast_eq_take, CallTrace.pop, h.depth]
  exact h.truncate _

/-- Nothing but the depth before the latest change is not determined by the stack. -/
theorem Records.eq (h : Records t capacity stack) (h' : Records t' capacity stack) :
    t' = { t with previousDepth := t'.previousDepth } := by
  obtain ⟨entries, capacity₁, depth, previousDepth⟩ := t
  obtain ⟨entries', capacity₂, depth', previousDepth'⟩ := t'
  obtain rfl : capacity₁ = capacity := h.capacity_eq
  obtain rfl : capacity₂ = capacity₁ := h'.capacity_eq
  obtain rfl : depth = depth' := h.depth.trans h'.depth.symm
  obtain rfl : entries = entries' := Array.toList_inj.mp (h.entries.trans h'.entries.symm)
  rfl

end

/-- The trace follows the stack when its innermost procedures `before` become `after`. -/
def Follows (t : CallTrace) (before : List Nat) (t' : CallTrace) (after : List Nat) : Prop :=
  ∀ capacity below, Records t capacity (below ++ before) → Records t' capacity (below ++ after)

theorem follows_refl (t : CallTrace) (stack : List Nat) : Follows t stack t stack :=
  fun _ _ h => h

theorem Follows.trans {t t' t'' : CallTrace} {before between after : List Nat}
    (h : Follows t before t' between) (h' : Follows t' between t'' after) :
    Follows t before t'' after :=
  fun capacity below hrecords => h' capacity below (h capacity below hrecords)

theorem follows_push (t : CallTrace) (stack : List Nat) (procedure : Nat) :
    Follows t stack (t.push procedure) (stack ++ [procedure]) := by
  intro capacity below h
  rw [← List.append_assoc]
  exact h.push procedure

theorem follows_pop (t : CallTrace) (stack : List Nat) (procedure : Nat) :
    Follows t (stack ++ [procedure]) t.pop stack := by
  intro capacity below h
  have := h.pop
  rwa [← List.append_assoc, List.dropLast_concat] at this

end SandboxVm.Proofs.CallRecord
