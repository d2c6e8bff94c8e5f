import SandboxVm.Image.Header
import SandboxVm.Proofs.VerificationScan

namespace SandboxVm.Proofs.HeaderBounds

open SandboxVm.Proofs.VerificationScan

structure FieldsValid (f : Header.Fields) (version : Version) (length : Int) : Prop where
  instructionCount : 0 ≤ f.instructionCount ∧ f.instructionCount ≤ f.codeLength
  codeOffset : version.headerSize ≤ f.codeOffset
  codeLength : 0 ≤ f.codeLength
  dataOffset : f.dataOffset = f.codeOffset + f.codeLength
  dataLength : 0 ≤ f.dataLength ∧ f.dataLength % 4 = 0
  litLength : 0 ≤ f.litLength ∧ f.litEnd ≤ length
  whole : version = .v1 → f.litEnd = length
  jumpTable : version = .v2 →
    0 ≤ f.jumpTableLength ∧ f.jumpTableLength % 4 = 0 ∧ f.litEnd + f.jumpTableLength = length
  bssLength : 0 ≤ f.bssLength ∧ f.dataLength + f.litLength + f.bssLength ≤ maxDataSize

theorem ite_some_eq_none {c : Prop} [Decidable c] {α : Type} {x : α} {o : Option α} :
    (if c then some x else o) = none ↔ ¬ c ∧ o = none := by
  by_cases hc : c <;> simp [hc]

theorem fault?_eq_none_iff {f : Header.Fields} {version : Version} {length : Int} :
    f.fault? version length = none ↔ FieldsValid f version length := by
  simp only [Header.Fields.fault?, ite_some_eq_none]
  constructor
  · rintro ⟨hcount, hoffset, hcode, hdense, hdata, hlength, hlit, hwhole, htable, hbss, -⟩
    refine ⟨by omega, by omega, by omega, by omega, by omega, by omega, ?_, ?_, by omega⟩
    · intro hversion
      exact Decidable.byContradiction fun hne => hwhole ⟨hversion, hne⟩
    · intro hversion
      have : ¬ (f.jumpTableLength < 0 ∨ f.jumpTableLength % 4 ≠ 0 ∨
        f.litEnd + f.jumpTableLength ≠ length) := fun h => htable ⟨hversion, h⟩
      omega
  · rintro ⟨hcount, hoffset, hcode, hdata, hlength, hlit, hwhole, htable, hbss⟩
    have hlitEnd : f.litEnd = f.dataOffset + f.dataLength + f.litLength := rfl
    refine ⟨by omega, by omega, by omega, by omega, by omega, by omega, by omega, ?_, ?_, by omega,
      True.intro⟩
    · rintro ⟨hversion, hne⟩
      exact hne (hwhole hversion)
    · rintro ⟨hversion, h⟩
      have := htable hversion
      omega

theorem parse_eq_ok {image : Image} {header : Header} (h : Header.parse image = .ok header) :
    ∃ version, Header.readVersion image = .ok version ∧
      FieldsValid (Header.readFields version image) version image.length ∧
      header = {
        version
        instructionCount := (Header.readFields version image).instructionCount.toNat
        codeOffset := (Header.readFields version image).codeOffset.toNat
        codeLength := (Header.readFields version image).codeLength.toNat
        dataOffset := (Header.readFields version image).dataOffset.toNat
        dataLength := (Header.readFields version image).dataLength.toNat
        litLength := (Header.readFields version image).litLength.toNat
        bssLength := (Header.readFields version image).bssLength.toNat
        jumpTableLength := (Header.readFields version image).jumpTableLength.toNat } := by
  simp only [Header.parse, bind_eq_ok] at h
  obtain ⟨version, hversion, h⟩ := h
  refine ⟨version, hversion, ?_⟩
  split at h
  · cases h
  · rename_i hfault
    exact ⟨fault?_eq_none_iff.mp hfault, (Except.ok.inj h).symm⟩

theorem staticSize_le {image : Image} {header : Header} (h : Header.parse image = .ok header) :
    header.staticSize ≤ maxDataSize := by
  obtain ⟨version, -, hvalid, rfl⟩ := parse_eq_ok h
  have hdata := hvalid.dataLength
  have hlit := hvalid.litLength
  have hbss := hvalid.bssLength
  simp only [Header.staticSize]
  omega

theorem sum_of_bytes (u : UInt32) :
    u.toUInt8.toUInt32 + ((u >>> 8).toUInt8.toUInt32 <<< 8) +
      ((u >>> 16).toUInt8.toUInt32 <<< 16) + ((u >>> 24).toUInt8.toUInt32 <<< 24) = u := by
  apply UInt32.toNat_inj.mp
  have := u.toNat_lt
  simp only [UInt32.toNat_add, UInt32.toNat_shiftLeft, UInt32.toNat_shiftRight,
    UInt8.toNat_toUInt32, UInt32.toNat_toUInt8, Nat.shiftLeft_eq, Nat.shiftRight_eq_div_pow,
    UInt32.reduceToNat, Nat.reduceMod, Nat.reducePow]
  omega

theorem drop_listToBytes (ws : List Word) (i : Nat) :
    (Word.listToBytes ws).drop (4 * i) = Word.listToBytes (ws.drop i) := by
  induction i generalizing ws with
  | zero => rfl
  | succ i ih =>
      cases ws with
      | nil => simp [Word.listToBytes]
      | cons w ws => exact ih ws

theorem wordAt_listToBytes {ws : List Word} {i : Nat} {w : Word} (h : ws[i]? = some w)
    (rest : List UInt8) : Header.wordAt (Word.listToBytes ws ++ rest) i = w := by
  obtain ⟨hi, rfl⟩ := List.getElem?_eq_some_iff.mp h
  have hdrop : (Word.listToBytes ws ++ rest).drop (4 * i) =
      Word.toBytes ws[i] ++ (Word.listToBytes (ws.drop (i + 1)) ++ rest) := by
    rw [List.drop_append_of_le_length (by rw [Word.length_listToBytes]; omega), drop_listToBytes,
      List.drop_eq_getElem_cons hi]
    simp only [Word.listToBytes, List.flatMap_cons, List.append_assoc]
  rw [Header.wordAt, hdrop]
  exact congrArg UInt32.toInt32 (sum_of_bytes _)

end SandboxVm.Proofs.HeaderBounds
