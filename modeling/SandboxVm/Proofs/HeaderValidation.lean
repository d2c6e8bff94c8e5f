import SandboxVm.Proofs.InstructionCodec
import SandboxVm.Proofs.LittleEndian

namespace SandboxVm.Proofs.HeaderValidation

open SandboxVm.Proofs.VerificationScan
open SandboxVm.Proofs.HeaderBounds
open SandboxVm.Proofs.GuardedLoading
open SandboxVm.Proofs.InstructionCodec
open SandboxVm.Proofs.LittleEndian

/-- The four bytes of word `i` of an image, read as a signed number. -/
def signedWord (image : Image) (i : Nat) : Int :=
  signed (littleEndian ((image.drop (4 * i)).take 4))

/-- The word for the length of the jump table; the first format has none. -/
def tableWord (version : Version) (image : Image) : Int :=
  match version with
  | .v1 => 0
  | .v2 => signedWord image 8

/-- The rules that the words of an image of a format have to keep. -/
structure WellFormed (version : Version) (image : Image) : Prop where
  long : version.headerSize ≤ image.length
  magic : littleEndian (image.take 4) = version.magic.toNat
  instructionCount : 0 ≤ signedWord image 1 ∧ signedWord image 1 ≤ signedWord image 3
  codeOffset : version.headerSize ≤ signedWord image 2
  dataOffset : signedWord image 4 = signedWord image 2 + signedWord image 3
  dataLength : 0 ≤ signedWord image 5 ∧ signedWord image 5 % 4 = 0
  litLength : 0 ≤ signedWord image 6
  bssLength : 0 ≤ signedWord image 7
  jumpTable : 0 ≤ tableWord version image ∧ tableWord version image % 4 = 0
  static : signedWord image 5 + signedWord image 6 + signedWord image 7 ≤ maxDataSize
  whole : signedWord image 4 + signedWord image 5 + signedWord image 6 +
    tableWord version image = image.length

/-- The fields of a header are the words of an image. -/
structure Stored (header : Header) (image : Image) : Prop where
  instructionCount : header.instructionCount = signedWord image 1
  codeOffset : header.codeOffset = signedWord image 2
  codeLength : header.codeLength = signedWord image 3
  dataOffset : header.dataOffset = signedWord image 4
  dataLength : header.dataLength = signedWord image 5
  litLength : header.litLength = signedWord image 6
  bssLength : header.bssLength = signedWord image 7
  jumpTableLength : header.jumpTableLength = tableWord header.version image

section

variable {image : Image} {i : Nat} (h : 4 * i + 4 ≤ image.length)

include h

theorem exists_bytes :
    ∃ b₀ b₁ b₂ b₃ rest, image.drop (4 * i) = b₀ :: b₁ :: b₂ :: b₃ :: rest := by
  have hlength : (image.drop (4 * i)).length = image.length - 4 * i := List.length_drop
  match image.drop (4 * i), hlength with
  | b₀ :: b₁ :: b₂ :: b₃ :: rest, _ => exact ⟨b₀, b₁, b₂, b₃, rest, rfl⟩
  | [], hlength | [_], hlength | [_, _], hlength | [_, _, _], hlength =>
    simp only [List.length_cons, List.length_nil] at hlength
    omega

theorem toNat_wordAt : (Header.wordAt image i).toUInt32.toNat =
    littleEndian ((image.drop (4 * i)).take 4) := by
  obtain ⟨b₀, b₁, b₂, b₃, rest, hbytes⟩ := exists_bytes h
  rw [Header.wordAt, hbytes]
  exact toNat_ofBytes b₀ b₁ b₂ b₃

theorem toInt_wordAt : (Header.wordAt image i).toInt = signedWord image i := by
  rw [toInt_eq_signed, toNat_wordAt h, signedWord]

theorem toBytes_wordAt : Word.toBytes (Header.wordAt image i) = (image.drop (4 * i)).take 4 := by
  obtain ⟨b₀, b₁, b₂, b₃, rest, hbytes⟩ := exists_bytes h
  rw [Header.wordAt, hbytes]
  exact toBytes_ofBytes b₀ b₁ b₂ b₃

theorem word_of_stored {n : Nat} (hn : n = signedWord image i) :
    (UInt32.ofNat n).toInt32 = Header.wordAt image i := by
  have hlt := Int32.toInt_lt (Header.wordAt image i)
  rw [← toInt_wordAt h] at hn
  rw [← Int32.toInt_inj, toInt_word (by omega), hn]

end

theorem listToBytes_wordAt {image : Image} {n : Nat} (h : 4 * n ≤ image.length) :
    Word.listToBytes ((List.range n).map (Header.wordAt image)) = image.take (4 * n) := by
  induction n with
  | zero => rfl
  | succ n ih =>
      have hlast : Word.listToBytes [Header.wordAt image n] = (image.drop (4 * n)).take 4 := by
        rw [← toBytes_wordAt (by omega)]
        exact List.append_nil _
      rw [List.range_succ, List.map_append, Word.listToBytes, List.flatMap_append, Nat.mul_succ,
        List.take_add]
      exact congrArg₂ (· ++ ·) (ih (by omega)) hlast

theorem ofMagic?_eq_some_iff {m : UInt32} {version : Version} :
    Version.ofMagic? m = some version ↔ m = version.magic := by
  unfold Version.ofMagic?
  constructor
  · intro h
    split at h
    · rename_i hm
      rwa [← Option.some.inj h]
    · split at h
      · rename_i hm
        rwa [← Option.some.inj h]
      · cases h
  · rintro rfl
    cases version <;> rfl

theorem headerSize_le (version : Version) : Version.v1.headerSize ≤ version.headerSize := by
  cases version <;> decide

theorem readVersion_eq_ok_iff {image : Image} {version : Version} :
    Header.readVersion image = .ok version ↔ version.headerSize ≤ image.length ∧
      littleEndian (image.take 4) = version.magic.toNat := by
  have hle := headerSize_le version
  have hfour : Version.v1.headerSize = 32 := rfl
  rw [Header.readVersion]
  split
  · refine iff_of_false ?_ fun h => by omega
    rintro ⟨⟩
  · rename_i hlong
    have hmagic : (Header.wordAt image 0).toUInt32.toNat = littleEndian (image.take 4) :=
      toNat_wordAt (i := 0) (by omega)
    rw [← hmagic, UInt32.toNat_inj, ← ofMagic?_eq_some_iff]
    simp only
    split
    · rename_i hof
      simp [hof]
    · rename_i version' hof
      rw [hof, Option.some.injEq]
      constructor
      · intro h
        split at h
        · cases h
        · rename_i hlong'
          obtain rfl := Except.ok.inj h
          exact ⟨Nat.le_of_not_lt hlong', rfl⟩
      · rintro ⟨hlong', rfl⟩
        exact if_neg (Nat.not_lt.mpr hlong')

theorem readFields_eq {version : Version} {image : Image} (h : version.headerSize ≤ image.length) :
    Header.readFields version image =
      { instructionCount := signedWord image 1
        codeOffset := signedWord image 2
        codeLength := signedWord image 3
        dataOffset := signedWord image 4
        dataLength := signedWord image 5
        litLength := signedWord image 6
        bssLength := signedWord image 7
        jumpTableLength := tableWord version image } := by
  have hsize : 32 ≤ image.length := (headerSize_le version).trans h
  have htable : (Header.readFields version image).jumpTableLength = tableWord version image := by
    cases version with
    | v1 => rfl
    | v2 => exact toInt_wordAt h
  simp only [Header.readFields, Header.Fields.mk.injEq] at htable ⊢
  exact ⟨toInt_wordAt (by omega), toInt_wordAt (by omega), toInt_wordAt (by omega),
    toInt_wordAt (by omega), toInt_wordAt (by omega), toInt_wordAt (by omega),
    toInt_wordAt (by omega), htable⟩

theorem wellFormed_iff {version : Version} {image : Image} :
    WellFormed version image ↔ Header.readVersion image = .ok version ∧
      FieldsValid (Header.readFields version image) version image.length := by
  rw [readVersion_eq_ok_iff]
  constructor
  · intro h
    refine ⟨⟨h.long, h.magic⟩, ?_⟩
    rw [readFields_eq h.long]
    have hcount := h.instructionCount
    have hdata := h.dataLength
    have hlit := h.litLength
    have htable := h.jumpTable
    have hwhole := h.whole
    exact {
      instructionCount := hcount
      codeOffset := h.codeOffset
      codeLength := hcount.1.trans hcount.2
      dataOffset := h.dataOffset
      dataLength := hdata
      -- Before the end of the literals lies all else but the table, which ends the image.
      litLength := ⟨hlit, by simp only [Header.Fields.litEnd]; omega⟩
      whole := by
        rintro rfl
        exact (Int.add_zero _).symm.trans hwhole
      jumpTable := by
        rintro rfl
        exact ⟨htable.1, htable.2, hwhole⟩
      bssLength := ⟨h.bssLength, h.static⟩ }
  · rintro ⟨⟨hlong, hmagic⟩, h⟩
    have hfills := fills_image h
    rw [readFields_eq hlong] at h hfills
    have htable : tableWord version image % 4 = 0 := by
      cases version with
      | v1 => rfl
      | v2 => exact (h.jumpTable rfl).2.1
    exact {
      long := hlong
      magic := hmagic
      instructionCount := h.instructionCount
      codeOffset := h.codeOffset
      dataOffset := h.dataOffset
      dataLength := h.dataLength
      litLength := h.litLength.1
      bssLength := h.bssLength.1
      jumpTable := ⟨hfills.1, htable⟩
      static := h.bssLength.2
      whole := hfills.2 }

/-- What is read from an image is determined by its words. -/
theorem parse_eq_ok_iff {image : Image} {header : Header} :
    Header.parse image = .ok header ↔ WellFormed header.version image ∧ Stored header image := by
  constructor
  · intro h
    obtain ⟨version, hversion, hvalid, rfl⟩ := parse_eq_ok h
    have hformed := wellFormed_iff.mpr ⟨hversion, hvalid⟩
    have hnonneg := fieldValues_nonneg hvalid
    rw [readFields_eq hformed.long] at hnonneg ⊢
    simp only [fieldValues, List.forall_mem_cons] at hnonneg
    obtain ⟨hcount, hoffset, hcode, hdata, hlength, hlit, hbss, htable, -⟩ := hnonneg
    exact ⟨hformed, Int.toNat_of_nonneg hcount, Int.toNat_of_nonneg hoffset,
      Int.toNat_of_nonneg hcode, Int.toNat_of_nonneg hdata, Int.toNat_of_nonneg hlength,
      Int.toNat_of_nonneg hlit, Int.toNat_of_nonneg hbss, Int.toNat_of_nonneg htable⟩
  · rintro ⟨hformed, hstored⟩
    obtain ⟨hversion, hvalid⟩ := wellFormed_iff.mp hformed
    rw [Header.parse, hversion]
    simp only [bind, Except.bind, fault?_eq_none_iff.mpr hvalid]
    simp only [readFields_eq hformed.long, ← hstored.instructionCount, ← hstored.codeOffset,
      ← hstored.codeLength, ← hstored.dataOffset, ← hstored.dataLength, ← hstored.litLength,
      ← hstored.bssLength, ← hstored.jumpTableLength, Int.toNat_natCast]

theorem parse_succeeds_iff {image : Image} :
    (∃ header, Header.parse image = .ok header) ↔ ∃ version, WellFormed version image := by
  constructor
  · rintro ⟨header, h⟩
    exact ⟨header.version, (parse_eq_ok_iff.mp h).1⟩
  · rintro ⟨version, hformed⟩
    obtain ⟨hversion, hvalid⟩ := wellFormed_iff.mp hformed
    rw [Header.parse, hversion]
    simp only [bind, Except.bind, fault?_eq_none_iff.mpr hvalid]
    exact ⟨_, rfl⟩

/-- The sums of fields by which the regions and the static data are found. -/
def regionSums (header : Header) : List Nat :=
  [header.dataLength + header.litLength, header.dataOffset + header.dataLength,
    header.dataOffset + header.dataLength + header.litLength, header.staticSize]

/-- Nothing of an image is lost in its header and its regions: the header can be written
back, and the regions follow one another to the end, each in the length that is declared.
None of their places needs more than 32 bits. -/
structure Lossless (header : Header) (image : Image) : Prop where
  fields : Stored header image
  words : Word.listToBytes header.toWords = image.take header.size
  regions : header.codeRegion image ++ header.dataRegion image ++ header.jumpTableRegion image =
    image.drop header.codeOffset
  lengths : (header.codeRegion image).length = header.codeLength ∧
    (header.dataRegion image).length = header.dataLength + header.litLength ∧
      (header.jumpTableRegion image).length = header.jumpTableLength
  inside : header.codeOffset + header.codeLength ≤ image.length ∧
    header.dataOffset + (header.dataLength + header.litLength) ≤ image.length ∧
      header.dataOffset + header.dataLength + header.litLength + header.jumpTableLength ≤
        image.length
  sums : ∀ n ∈ regionSums header, n < 2 ^ 32

section

variable {image : Image} {header : Header}

theorem toWords_eq (hformed : WellFormed header.version image) (hstored : Stored header image) :
    header.toWords = (List.range header.version.headerWords).map (Header.wordAt image) := by
  have hlong := hformed.long
  have hsize : 32 ≤ image.length := (headerSize_le header.version).trans hlong
  have hmagic : header.version.magic.toInt32 = Header.wordAt image 0 := by
    have hword := toNat_wordAt (i := 0) (show 4 ≤ image.length by omega)
    rw [← UInt32.toNat_inj.mp (hword.trans hformed.magic)]
    rfl
  have htable := hstored.jumpTableLength
  simp only [Header.toWords, hmagic, word_of_stored (by omega) hstored.instructionCount,
    word_of_stored (by omega) hstored.codeOffset, word_of_stored (by omega) hstored.codeLength,
    word_of_stored (by omega) hstored.dataOffset, word_of_stored (by omega) hstored.dataLength,
    word_of_stored (by omega) hstored.litLength, word_of_stored (by omega) hstored.bssLength]
  cases hversion : header.version with
  | v1 => rfl
  | v2 =>
      rw [hversion] at hlong htable
      simp only [word_of_stored hlong htable]
      rfl

theorem regions_follow (h : Header.parse image = .ok header) :
    header.size ≤ header.codeOffset ∧
      header.dataOffset = header.codeOffset + header.codeLength ∧
        header.dataOffset + header.dataLength + header.litLength + header.jumpTableLength =
          image.length := by
  obtain ⟨hformed, hstored⟩ := parse_eq_ok_iff.mp h
  have hoffset := hstored.codeOffset
  have hcode := hstored.codeLength
  have hdata := hstored.dataOffset
  have hlength := hstored.dataLength
  have hlit := hstored.litLength
  have htable := hstored.jumpTableLength
  have hsize : (header.size : Int) ≤ signedWord image 2 := hformed.codeOffset
  have hnext := hformed.dataOffset
  have hwhole := hformed.whole
  omega

theorem regions_eq_drop (h : Header.parse image = .ok header) :
    header.codeRegion image ++ header.dataRegion image ++ header.jumpTableRegion image =
      image.drop header.codeOffset := by
  obtain ⟨-, hdata, hwhole⟩ := regions_follow h
  have htable : header.jumpTableRegion image =
      image.drop (header.dataOffset + (header.dataLength + header.litLength)) := by
    rw [Header.jumpTableRegion, Nat.add_assoc]
    exact List.take_of_length_le (by rw [List.length_drop]; omega)
  calc header.codeRegion image ++ header.dataRegion image ++ header.jumpTableRegion image
      = header.codeRegion image ++ image.drop header.dataOffset := by
        rw [htable, Header.dataRegion, ← List.drop_drop, List.append_assoc,
          List.take_append_drop]
    _ = image.drop header.codeOffset := by
        rw [hdata, Header.codeRegion, ← List.drop_drop, List.take_append_drop]

theorem lossless_of_parse (h : Header.parse image = .ok header) : Lossless header image := by
  obtain ⟨hformed, hstored⟩ := parse_eq_ok_iff.mp h
  obtain ⟨-, hdata, hwhole⟩ := regions_follow h
  have hgranted := regionsGranted_of_parse h
  simp only [regionsGranted, sliceGranted, Bool.and_eq_true, decide_eq_true_eq] at hgranted
  obtain ⟨⟨⟨⟨hcodeSlice, hdataSlice⟩, htableSlice⟩, hplace⟩, hstatic⟩ := hgranted
  refine ⟨hstored, ?_, regions_eq_drop h, ⟨?_, ?_, ?_⟩, ⟨hcodeSlice, hdataSlice, htableSlice⟩, ?_⟩
  · rw [toWords_eq hformed hstored]
    exact listToBytes_wordAt hformed.long
  · rw [Header.codeRegion, List.length_take, List.length_drop]
    omega
  · rw [Header.dataRegion, List.length_take, List.length_drop]
    omega
  · rw [Header.jumpTableRegion, List.length_take, List.length_drop]
    omega
  · have hstaticSize : header.staticSize =
        header.dataLength + header.litLength + header.bssLength := rfl
    simp only [regionSums, List.forall_mem_cons]
    refine ⟨by omega, by omega, hplace, hstatic, by simp⟩

/-- An image is accepted exactly if its words keep the rules of a format, and then its
header and its regions hold all that is in it from the code on. -/
theorem header_validation_exact (image : Image) :
    ((∃ header, Header.parse image = .ok header) ↔ ∃ version, WellFormed version image) ∧
      ∀ header, Header.parse image = .ok header →
        WellFormed header.version image ∧ Lossless header image :=
  ⟨parse_succeeds_iff, fun _ h => ⟨(parse_eq_ok_iff.mp h).1, lossless_of_parse h⟩⟩

end

/-- An image of the second format with something in each of its regions, and four bytes
between the header and the code. -/
def fullImage : Image :=
  [0x45, 0x14, 0x72, 0x12, 1, 0, 0, 0, 40, 0, 0, 0, 1, 0, 0, 0, 41, 0, 0, 0, 4, 0, 0, 0, 2, 0, 0, 0,
    16, 0, 0, 0, 4, 0, 0, 0] ++ [9, 9, 9, 9] ++ [1] ++ [1, 2, 3, 4] ++ [97, 0] ++ [0, 0, 0, 0]

theorem header_validation_exact_full :
    Header.parse fullImage = .ok ⟨.v2, 1, 40, 1, 41, 4, 2, 16, 4⟩ ∧
      WellFormed .v2 fullImage ∧ Lossless ⟨.v2, 1, 40, 1, 41, 4, 2, 16, 4⟩ fullImage := by
  have hparse : Header.parse fullImage = .ok ⟨.v2, 1, 40, 1, 41, 4, 2, 16, 4⟩ := by decide
  exact ⟨hparse, (header_validation_exact fullImage).2 _ hparse⟩

end SandboxVm.Proofs.HeaderValidation
