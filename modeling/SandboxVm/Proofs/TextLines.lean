import Mathlib
import SandboxVm.Text.Numeral

namespace SandboxVm.Proofs.TextLines

/-- The text of some lines, a newline at the end of each. -/
def textOf (lines : List String) : String := String.join (lines.map (· ++ "\n"))

/-- What stands in front of each newline of a text, back to the newline before. -/
def linesOf (text : String) : List String :=
  (text.toList.splitOn '\n').dropLast.map String.ofList

def OneLine (s : String) : Prop := '\n' ∉ s.toList

instance (s : String) : Decidable (OneLine s) := inferInstanceAs (Decidable ('\n' ∉ s.toList))

theorem OneLine.append {s t : String} (hs : OneLine s) (ht : OneLine t) : OneLine (s ++ t) := by
  rw [OneLine, String.toList_append, List.mem_append]
  exact not_or.mpr ⟨hs, ht⟩

theorem eq_of_append_eq {s s' t t' : String} (h : s ++ t = s' ++ t')
    (hlength : s.toList.length = s'.toList.length) : s = s' ∧ t = t' := by
  have hlists := congrArg String.toList h
  rw [String.toList_append, String.toList_append] at hlists
  exact (List.append_inj hlists hlength).imp String.toList_inj.mp String.toList_inj.mp

theorem textOf_append (lines lines' : List String) :
    textOf (lines ++ lines') = textOf lines ++ textOf lines' := by
  rw [textOf, List.map_append, String.join_append]
  rfl

theorem splitOn_textOf {lines : List String} (h : ∀ line ∈ lines, OneLine line) :
    (textOf lines).toList.splitOn '\n' = lines.map String.toList ++ [[]] := by
  induction lines with
  | nil => rfl
  | cons line lines ih =>
      have hline := h line List.mem_cons_self
      have htext : (textOf (line :: lines)).toList =
          line.toList ++ '\n' :: (textOf lines).toList := by
        rw [textOf, List.map_cons, String.join_cons, String.toList_append, String.toList_append,
          List.append_assoc]
        rfl
      rw [htext, List.splitOn_append_cons_self_of_not_mem hline,
        ih fun other hother => h other (List.mem_cons_of_mem _ hother)]
      rfl

theorem linesOf_textOf {lines : List String} (h : ∀ line ∈ lines, OneLine line) :
    linesOf (textOf lines) = lines := by
  rw [linesOf, splitOn_textOf h, List.dropLast_concat, List.map_map]
  exact (List.map_congr_left fun line _ => String.ofList_toList).trans (List.map_id lines)

theorem isDigit_of_mem_nat {n : Nat} {c : Char} (h : c ∈ (toString n).toList) :
    c.isDigit = true := by
  rw [Nat.toString_eq_repr, Nat.toList_repr] at h
  exact Nat.isDigit_of_mem_toDigits (by decide) (by decide) h

theorem isDigit_or_minus_of_mem_int {n : Int} {c : Char} (h : c ∈ (toString n).toList) :
    c.isDigit = true ∨ c = '-' := by
  cases n with
  | ofNat n => exact .inl (isDigit_of_mem_nat h)
  | negSucc n =>
      have htext : toString (Int.negSucc n) = "-" ++ toString (n + 1) := rfl
      rw [htext, String.toList_append, List.mem_append] at h
      rcases h with hminus | hdigit
      · exact .inr (List.mem_singleton.mp hminus)
      · exact .inl (isDigit_of_mem_nat hdigit)

theorem oneLine_nat (n : Nat) : OneLine (toString n) := fun h =>
  absurd (isDigit_of_mem_nat h) (by decide)

theorem oneLine_int (n : Int) : OneLine (toString n) := fun h =>
  absurd (isDigit_or_minus_of_mem_int h) (by decide)

theorem int_eq_of_toString_eq {n k : Int} (h : toString n = toString k) : n = k :=
  Int.repr_inj.mp h

theorem mem_padLeft {width : Nat} {s : String} {c : Char}
    (h : c ∈ (Text.padLeft width s).toList) : c = ' ' ∨ c ∈ s.toList := by
  rw [Text.padLeft, String.toList_append, String.toList_ofList, List.mem_append] at h
  exact h.imp_left List.eq_of_mem_replicate

theorem OneLine.padLeft {s : String} (h : OneLine s) (width : Nat) :
    OneLine (Text.padLeft width s) := fun hmem =>
  (mem_padLeft hmem).elim (by decide) h

theorem length_padLeft {width : Nat} {s : String} (h : s.length ≤ width) :
    (Text.padLeft width s).toList.length = width := by
  rw [Text.padLeft, String.toList_append, String.toList_ofList, List.length_append,
    List.length_replicate, String.length_toList]
  omega

end SandboxVm.Proofs.TextLines
