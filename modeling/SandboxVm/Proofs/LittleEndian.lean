import Mathlib
import SandboxVm.Word

namespace SandboxVm.Proofs.LittleEndian

/-- The number whose digits to the base 256, from the lowest on, are the bytes. -/
def littleEndian : List UInt8 → Nat
  | [] => 0
  | b :: bytes => b.toNat + 256 * littleEndian bytes

theorem littleEndian_zeros (bytes : List UInt8) (n : Nat) :
    littleEndian (bytes ++ List.replicate n 0) = littleEndian bytes := by
  induction bytes with
  | nil =>
      rw [List.nil_append]
      induction n with
      | zero => rfl
      | succ n ih => exact congrArg (0 + 256 * ·) ih
  | cons b bytes ih => rw [List.cons_append, littleEndian, littleEndian, ih]

theorem toNat_ofBytes (b₀ b₁ b₂ b₃ : UInt8) :
    (Word.ofBytes b₀ b₁ b₂ b₃).toUInt32.toNat = littleEndian [b₀, b₁, b₂, b₃] := by
  have h₀ := b₀.toNat_lt
  have h₁ := b₁.toNat_lt
  have h₂ := b₂.toNat_lt
  have h₃ := b₃.toNat_lt
  simp only [Word.ofBytes, littleEndian, UInt32.toUInt32_toInt32, UInt32.toNat_add,
    UInt32.toNat_shiftLeft, UInt8.toNat_toUInt32, Nat.shiftLeft_eq, UInt32.reduceToNat,
    Nat.reduceMod, Nat.reducePow]
  omega

def signed (n : Nat) : Int := if n < 0x80000000 then n else n - 0x100000000

theorem toInt_eq_signed (w : Word) : w.toInt = signed w.toUInt32.toNat := by
  have hlt := w.toUInt32.toNat_lt
  have hbmod : w.toInt = (w.toUInt32.toNat : Int).bmod (2 ^ 32) :=
    BitVec.toInt_eq_toNat_bmod w.toBitVec
  rw [hbmod, Int.bmod_def, signed]
  split <;> split <;> omega

def digit (x k : Nat) : UInt8 := UInt8.ofNat (x / 256 ^ k)

theorem toBytes_eq_digits (w : Word) :
    Word.toBytes w = (List.range 4).map (digit w.toUInt32.toNat) := by
  have hdigits : (List.range 4).map (digit w.toUInt32.toNat) = [digit w.toUInt32.toNat 0,
      digit w.toUInt32.toNat 1, digit w.toUInt32.toNat 2, digit w.toUInt32.toNat 3] := rfl
  simp only [hdigits, Word.toBytes, digit, List.cons.injEq, ← UInt8.toNat_inj,
    UInt32.toNat_toUInt8, UInt32.toNat_shiftRight, UInt8.toNat_ofNat', Nat.shiftRight_eq_div_pow,
    UInt32.reduceToNat, Nat.reduceMod, Nat.reducePow, Nat.div_one, and_true]

theorem littleEndian_digits (x n : Nat) :
    littleEndian ((List.range n).map (digit x)) = x % 256 ^ n := by
  induction n generalizing x with
  | zero => exact (Nat.mod_one x).symm
  | succ n ih =>
      have hrest : (List.range n).map (digit x ∘ Nat.succ) =
          (List.range n).map (digit (x / 256)) := by
        apply List.map_congr_left
        intro k _
        rw [Function.comp_apply, digit, digit, Nat.pow_succ', Nat.div_div_eq_div_mul]
      have hlowest : (digit x 0).toNat = x % 256 := by
        rw [digit, Nat.pow_zero, Nat.div_one]
        rfl
      rw [List.range_succ_eq_map, List.map_cons, List.map_map, hrest, littleEndian, ih, hlowest,
        Nat.pow_succ', Nat.mod_mul]

end SandboxVm.Proofs.LittleEndian
