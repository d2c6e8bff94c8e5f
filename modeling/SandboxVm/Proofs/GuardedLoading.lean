import SandboxVm.Module
import SandboxVm.Proofs.GuardedVerification
import SandboxVm.Proofs.HeaderBounds

/-!
Loading that checks on its way whatever it takes for granted: slices lie in the
image, sums and offsets fit their words, operands have a width that can be read.
Where one of these fails the guarded loading breaks down.
Main statement: it breaks down exactly if the running depth leaves its word,
which takes an image of more than 2 ^ 28 bytes.
-/

namespace SandboxVm.Proofs.GuardedLoading

open SandboxVm.Proofs.VerificationScan
open SandboxVm.Proofs.GuardedVerification (fits fits_of_bounds guardedVerify guardedVerify_eq)
open SandboxVm.Proofs.HeaderBounds

/-- A stage of loading may refuse what it reads, or break down, which is `none`. -/
abbrev Stage (ε α : Type) := Option (Except ε α)

section Stage

variable {ε ε' α β : Type}

def provided (condition : Bool) (x : Stage ε α) : Stage ε α :=
  if condition then x else none

def next (x : Stage ε α) (f : α → Stage ε β) : Stage ε β :=
  x.bind fun
    | .ok a => f a
    | .error e => some (.error e)

def refusedAs (wrap : ε → ε') (x : Stage ε α) : Stage ε' α := x.map (Except.mapError wrap)

theorem provided_eq {condition : Bool} {x : Stage ε α} (h : condition = true) :
    provided condition x = x := if_pos h

theorem provided_and (a b : Bool) (x : Stage ε α) :
    provided (a && b) x = provided a (provided b x) := by
  cases a <;> rfl

theorem next_some {x : Except ε α} {f : α → Stage ε β} {g : α → Except ε β}
    (h : ∀ a, x = .ok a → f a = some (g a)) : next (some x) f = some (x >>= g) := by
  cases x with
  | error e => rfl
  | ok a => exact h a rfl

theorem next_provided (condition : Bool) (x : Stage ε α) (f : α → Stage ε β) :
    next (provided condition x) f = provided condition (next x f) := by
  cases condition <;> rfl

theorem refusedAs_provided (condition : Bool) (wrap : ε → ε') (x : Stage ε α) :
    refusedAs wrap (provided condition x) = provided condition (refusedAs wrap x) := by
  cases condition <;> rfl

theorem mapError_eq_ok {x : Except ε α} {wrap : ε → ε'} {a : α} :
    x.mapError wrap = .ok a ↔ x = .ok a := by
  cases x <;> simp [Except.mapError]

end Stage

def fieldValues (f : Header.Fields) : List Int :=
  [f.instructionCount, f.codeOffset, f.codeLength, f.dataOffset, f.dataLength, f.litLength,
    f.bssLength, f.jumpTableLength]

/-- The sums that the checks of a header form. -/
def fieldSums (f : Header.Fields) : List Int :=
  [f.codeOffset + f.codeLength, f.dataOffset + f.dataLength, f.litEnd,
    f.litEnd + f.jumpTableLength, f.dataLength + f.litLength,
    f.dataLength + f.litLength + f.bssLength]

/-- Parse a header; its sums are taken in 64 bits, and the fields of a header
that passes its checks are narrowed to 32 bits without a sign. -/
def guardedParse (image : Image) : Stage HeaderError Header :=
  next (some (Header.readVersion image)) fun version =>
    let f := Header.readFields version image
    provided ((fieldSums f).all (fits 64)) <|
      provided ((f.fault? version image.length).isSome ||
          (fieldValues f).all fun v => 0 ≤ v && v < 2 ^ 32) <|
        some (Header.parse image)

def sliceGranted (image : Image) (start length : Nat) : Bool := start + length ≤ image.length

/-- The regions lie in the image, and their places and sizes fit in 32 bits. -/
def regionsGranted (image : Image) (h : Header) : Bool :=
  sliceGranted image h.codeOffset h.codeLength &&
    sliceGranted image h.dataOffset (h.dataLength + h.litLength) &&
    sliceGranted image (h.dataOffset + h.dataLength + h.litLength) h.jumpTableLength &&
    h.dataOffset + h.dataLength + h.litLength < 2 ^ 32 && h.staticSize < 2 ^ 32

/-- Where an instruction starts at `offset`, the place after its operand can be
addressed, and its operand is of a width that can be read. -/
def operandGranted (offset : Nat) (bytes : List UInt8) : Bool :=
  (bytes.head?.bind Opcode.ofByte?).all fun op =>
    offset + 1 + op.operandWidth < 2 ^ 64 && [0, 1, 4].contains op.operandWidth

/-- Read instructions from a region of `size` bytes with a running depth of 32 bits. -/
def guardedReadAll (size : Nat) : (count : Nat) → (bytes : List UInt8) → (index offset : Nat) →
    (depth : Int) → (done : List Instruction) → Stage DecodeError (List Instruction)
  | 0, bytes, index, offset, _, done =>
    provided (offset ≤ size) (some (Instruction.readAll 0 bytes index offset done))
  | count + 1, bytes, index, offset, depth, done =>
    provided (operandGranted offset bytes) <|
      match Instruction.read bytes with
      | .error .ended => some (.error (.truncated index offset))
      | .error (.unknown b) => some (.error (.badOpcode index offset b))
      | .ok (inst, rest) =>
        provided (fits 32 (depth + inst.op.stackDelta)) <|
          guardedReadAll size count rest (index + 1) (offset + 1 + inst.op.operandWidth)
            (depth + inst.op.stackDelta) (inst :: done)

def guardedDecode (bytes : List UInt8) (count : Nat) : Stage DecodeError Code :=
  provided (canHold count) <|
    next (guardedReadAll bytes.length count bytes 0 0 0 []) fun is =>
      some (.ok (annotate 0 none is).toArray)

def guardedLoad (name : String) (image : Image) : Stage LoadError Module :=
  next (refusedAs .header (guardedParse image)) fun header =>
    provided (regionsGranted image header) <|
      next (refusedAs .decode
          (guardedDecode (header.codeRegion image) header.instructionCount)) fun code =>
        let jumpTable? := Module.readJumpTable? header image
        next (refusedAs .verify (guardedVerify code header.staticSize jumpTable?)) fun verified =>
          some (.ok {
            name
            header
            code := verified.code
            data := header.dataRegion image
            jumpTable?
            procedures := verified.procedures })

/-- The instructions in front of the first place where none can be read. -/
def readable : Nat → List UInt8 → List Instruction
  | 0, _ => []
  | count + 1, bytes =>
    match Instruction.read bytes with
    | .error _ => []
    | .ok (inst, rest) => inst :: readable count rest

/-- The depth after an instruction fits in a word. -/
def depthFits (inst : AnnotatedInstruction) : Bool := fits 32 (inst.depth + inst.op.stackDelta)

/-- No instruction of the code region, as far as it can be read, takes the
running depth out of its word. -/
def depthsFit (image : Image) : Bool :=
  match Header.parse image with
  | .error _ => true
  | .ok h => (annotate 0 none (readable h.instructionCount (h.codeRegion image))).all depthFits

/-! ### The header and its regions -/

theorem jumpTableLength_v1 (image : Image) : (Header.readFields .v1 image).jumpTableLength = 0 := rfl

theorem fieldValues_bounds (version : Version) (image : Image) :
    ∀ v ∈ fieldValues (Header.readFields version image), -2 ^ 31 ≤ v ∧ v < 2 ^ 31 := by
  have hword (i : Nat) : -2 ^ 31 ≤ (Header.wordAt image i).toInt ∧
      (Header.wordAt image i).toInt < 2 ^ 31 := ⟨Int32.le_toInt _, Int32.toInt_lt _⟩
  have htable : -2 ^ 31 ≤ (Header.readFields version image).jumpTableLength ∧
      (Header.readFields version image).jumpTableLength < 2 ^ 31 := by
    cases version with
    | v1 =>
        rw [jumpTableLength_v1]
        decide
    | v2 => exact hword 8
  simp only [fieldValues, List.forall_mem_cons]
  exact ⟨hword 1, hword 2, hword 3, hword 4, hword 5, hword 6, hword 7, htable, by simp⟩

theorem fieldSums_fit (version : Version) (image : Image) :
    (fieldSums (Header.readFields version image)).all (fits 64) = true := by
  have hbounds := fieldValues_bounds version image
  simp only [fieldValues, List.forall_mem_cons] at hbounds
  simp only [fieldSums, Header.Fields.litEnd, List.all_eq_true, List.forall_mem_cons]
  refine ⟨?_, ?_, ?_, ?_, ?_, ?_, by simp⟩ <;> exact fits_of_bounds (by omega) (by omega)

section

variable {version : Version} {image : Image}
  (h : FieldsValid (Header.readFields version image) version image.length)

include h

theorem fills_image : 0 ≤ (Header.readFields version image).jumpTableLength ∧
    (Header.readFields version image).litEnd +
      (Header.readFields version image).jumpTableLength = image.length := by
  cases version with
  | v1 =>
      rw [jumpTableLength_v1, h.whole rfl]
      omega
  | v2 => exact ⟨(h.jumpTable rfl).1, (h.jumpTable rfl).2.2⟩

theorem fieldValues_nonneg : ∀ v ∈ fieldValues (Header.readFields version image), 0 ≤ v := by
  have hcount := h.instructionCount
  have hoffset := h.codeOffset
  have hcode := h.codeLength
  have hdata := h.dataOffset
  simp only [fieldValues, List.forall_mem_cons]
  exact ⟨hcount.1, by omega, hcode, by omega, h.dataLength.1, h.litLength.1, h.bssLength.1,
    (fills_image h).1, by simp⟩

end

theorem guardedParse_eq (image : Image) : guardedParse image = some (Header.parse image) := by
  rw [guardedParse, Header.parse]
  apply next_some
  intro version hversion
  have hnarrowed : (((Header.readFields version image).fault? version image.length).isSome ||
      (fieldValues (Header.readFields version image)).all fun v => 0 ≤ v && v < 2 ^ 32) = true := by
    cases hfault : (Header.readFields version image).fault? version image.length with
    | some e => rfl
    | none =>
        have hnonneg := fieldValues_nonneg (fault?_eq_none_iff.mp hfault)
        simp only [Option.isSome_none, Bool.false_or, List.all_eq_true, Bool.and_eq_true,
          decide_eq_true_eq]
        intro v hv
        have := fieldValues_bounds version image v hv
        exact ⟨hnonneg v hv, by omega⟩
  rw [provided_eq (fieldSums_fit version image), provided_eq hnarrowed, hversion]
  rfl

theorem regionsGranted_of_parse {image : Image} {header : Header}
    (h : Header.parse image = .ok header) : regionsGranted image header = true := by
  have hstatic := staticSize_le h
  obtain ⟨version, -, hvalid, rfl⟩ := parse_eq_ok h
  have hbounds := fieldValues_bounds version image
  have hnonneg := fieldValues_nonneg hvalid
  have hfills := (fills_image hvalid).2
  have hdata := hvalid.dataOffset
  have hsize := hvalid.bssLength.2
  simp only [fieldValues, List.forall_mem_cons] at hbounds hnonneg
  simp only [Header.Fields.litEnd] at hfills
  simp only [maxDataSize] at hsize hstatic
  simp only [regionsGranted, sliceGranted, Bool.and_eq_true, decide_eq_true_eq]
  omega

theorem instructionCount_bounds {image : Image} {header : Header}
    (h : Header.parse image = .ok header) :
    header.instructionCount < 2 ^ 31 ∧ header.instructionCount + 32 ≤ image.length := by
  obtain ⟨version, -, hvalid, rfl⟩ := parse_eq_ok h
  have hbounds := fieldValues_bounds version image
  have hnonneg := fieldValues_nonneg hvalid
  have hfills := (fills_image hvalid).2
  have hdata := hvalid.dataOffset
  have hcount := hvalid.instructionCount
  have hoffset : (32 : Int) ≤ (Header.readFields version image).codeOffset := by
    have := hvalid.codeOffset
    cases version <;> simp only [Version.headerSize, Version.headerWords] at this <;> omega
  simp only [fieldValues, List.forall_mem_cons] at hbounds hnonneg
  simp only [Header.Fields.litEnd] at hfills
  dsimp only
  omega

/-! ### The code region -/

theorem length_of_readOperand {width : Nat} {bytes rest : List UInt8} {operand : Word}
    (h : Instruction.readOperand width bytes = some (operand, rest)) :
    bytes.length = width + rest.length := by
  unfold Instruction.readOperand at h
  split at h <;> simp only [Option.some.injEq, Prod.mk.injEq, reduceCtorEq] at h
  all_goals
    obtain ⟨-, rfl⟩ := h
    grind

theorem length_of_read {bytes rest : List UInt8} {inst : Instruction}
    (h : Instruction.read bytes = .ok (inst, rest)) :
    bytes.length = 1 + inst.op.operandWidth + rest.length := by
  cases bytes with
  | nil => cases h
  | cons b tail =>
      simp only [Instruction.read] at h
      split at h
      · cases h
      · split at h
        · cases h
        · rename_i hoperand
          cases h
          have := length_of_readOperand hoperand
          simp only [List.length_cons]
          omega

theorem operandWidth_cases (op : Opcode) :
    op.operandWidth = 0 ∨ op.operandWidth = 1 ∨ op.operandWidth = 4 := by
  cases op <;> simp [Opcode.operandWidth]

theorem stackDelta_bounds (op : Opcode) : -8 ≤ op.stackDelta ∧ op.stackDelta ≤ 4 := by
  cases op <;> simp [Opcode.stackDelta]

theorem operandGranted_of_lt {offset : Nat} {bytes : List UInt8}
    (h : offset + bytes.length < 2 ^ 63) : operandGranted offset bytes = true := by
  rw [operandGranted, Option.all_eq_true]
  intro op _
  have := operandWidth_cases op
  simp only [Bool.and_eq_true, decide_eq_true_eq, List.contains_cons, List.contains_nil,
    Bool.or_eq_true, beq_iff_eq]
  omega

theorem guardedReadAll_eq {size count : Nat} {bytes : List UInt8} (index : Nat) {offset : Nat}
    (depth : Int) (prev? : Option Instruction) (done : List Instruction)
    (hoffset : offset + bytes.length = size) (hsize : size < 2 ^ 63) :
    guardedReadAll size count bytes index offset depth done =
      provided ((annotate depth prev? (readable count bytes)).all depthFits)
        (some (Instruction.readAll count bytes index offset done)) := by
  induction count generalizing bytes index offset depth prev? done with
  | zero => exact provided_eq (by simp only [decide_eq_true_eq]; omega)
  | succ count ih =>
      rw [guardedReadAll, provided_eq (operandGranted_of_lt (by omega)), readable,
        Instruction.readAll]
      cases hread : Instruction.read bytes with
      | error e => cases e <;> rfl
      | ok read =>
          obtain ⟨inst, rest⟩ := read
          have hlength := length_of_read hread
          simp only [annotate, List.all_cons, provided_and]
          exact congrArg (provided _) (ih _ _ _ _ (by omega))

theorem guardedDecode_eq {bytes : List UInt8} {count : Nat} (hbytes : bytes.length < 2 ^ 63)
    (hcount : canHold count = true) :
    guardedDecode bytes count =
      provided ((annotate 0 none (readable count bytes)).all depthFits)
        (some (decode bytes count)) := by
  rw [guardedDecode, provided_eq hcount,
    guardedReadAll_eq 0 0 none [] (Nat.zero_add _) hbytes, next_provided, decode]
  exact congrArg (provided _) (next_some fun is _ => rfl)

theorem length_of_readAll {count : Nat} {bytes : List UInt8} {index offset : Nat}
    {done is : List Instruction} (h : Instruction.readAll count bytes index offset done = .ok is) :
    is.length = done.length + count := by
  induction count generalizing bytes index offset done with
  | zero =>
      cases bytes with
      | nil =>
          cases h
          simp
      | cons b rest => cases h
  | succ count ih =>
      rw [Instruction.readAll] at h
      split at h
      · cases h
      · cases h
      · have := ih h
        simp only [List.length_cons] at this
        omega

theorem length_annotate (depth : Int) (prev? : Option Instruction) (is : List Instruction) :
    (annotate depth prev? is).length = is.length := by
  induction is generalizing depth prev? with
  | nil => rfl
  | cons inst rest ih => simp [annotate, ih]

theorem size_of_decode {bytes : List UInt8} {count : Nat} {code : Code}
    (h : decode bytes count = .ok code) : code.size = count := by
  obtain ⟨is, his, rfl⟩ := map_eq_ok.mp h
  simp [length_annotate, length_of_readAll his]

theorem guardedLoad_eq (name : String) {image : Image} (himage : image.length < 2 ^ 63) :
    guardedLoad name image = provided (depthsFit image) (some (Module.load name image)) := by
  rw [guardedLoad, guardedParse_eq, depthsFit, Module.load]
  cases hparse : Header.parse image with
  | error e => rfl
  | ok header =>
      have hcount := (instructionCount_bounds hparse).1
      have hregion : (header.codeRegion image).length < 2 ^ 63 := by
        simp only [Header.codeRegion, List.length_take, List.length_drop]
        omega
      have hcanHold : canHold header.instructionCount = true := by
        simp only [canHold, decide_eq_true_eq]
        omega
      change provided (regionsGranted image header) _ = _
      rw [provided_eq (regionsGranted_of_parse hparse), guardedDecode_eq hregion hcanHold,
        refusedAs_provided, next_provided]
      apply congrArg (provided _)
      apply next_some
      intro code hcode
      have hsize : code.size < 2 ^ 31 := by
        rw [size_of_decode (mapError_eq_ok.mp hcode)]
        exact hcount
      dsimp only
      rw [guardedVerify_eq _ _ hsize]
      exact next_some fun verified _ => rfl

/-! ### How long the code must be for the depth to leave its word -/

theorem length_readable_le (count : Nat) (bytes : List UInt8) :
    (readable count bytes).length ≤ count := by
  induction count generalizing bytes with
  | zero => exact Nat.le_refl 0
  | succ count ih =>
      rw [readable]
      split
      · exact Nat.zero_le _
      · exact Nat.succ_le_succ (ih _)

theorem depthFits_of_length {depth : Int} {prev? : Option Instruction} {is : List Instruction}
    (hlow : -2 ^ 31 ≤ depth - 8 * is.length) (hhigh : depth + 4 * is.length < 2 ^ 31) :
    (annotate depth prev? is).all depthFits = true := by
  induction is generalizing depth prev? with
  | nil => rfl
  | cons inst rest ih =>
      have hdelta := stackDelta_bounds inst.op
      rw [List.length_cons] at hlow hhigh
      simp only [annotate, List.all_cons, depthFits, Bool.and_eq_true]
      exact ⟨fits_of_bounds (by omega) (by omega), ih (by omega) (by omega)⟩

theorem depthsFit_of_length {image : Image} (h : image.length ≤ 2 ^ 28 + 32) :
    depthsFit image = true := by
  unfold depthsFit
  split
  · rfl
  · rename_i header hparse
    have hcount := (instructionCount_bounds hparse).2
    have hlength := length_readable_le header.instructionCount (header.codeRegion image)
    exact depthFits_of_length (by omega) (by omega)

/-- Loading whatever can be addressed ends with a module or an error, unless the
running depth leaves its word, which it cannot do in an image of at most
2 ^ 28 + 32 bytes. -/
theorem load_breaks_down_exactly (name : String) (image : Image) (h : image.length < 2 ^ 63) :
    guardedLoad name image = (if depthsFit image then some (Module.load name image) else none) ∧
      (image.length ≤ 2 ^ 28 + 32 → depthsFit image = true) :=
  ⟨guardedLoad_eq name h, depthsFit_of_length⟩

/-! ### Images of nothing but stores, each of which takes eight bytes off the operand stack -/

def storesHeader (count : Nat) : Header where
  version := .v1
  instructionCount := count
  codeOffset := 32
  codeLength := count
  dataOffset := 32 + count
  dataLength := 0
  litLength := 0
  bssLength := 0
  jumpTableLength := 0

def storesImage (count : Nat) : Image :=
  Word.listToBytes (storesHeader count).toWords ++
    List.replicate count (Opcode.store .four).toByte

theorem length_storesImage (count : Nat) : (storesImage count).length = 32 + count := by
  rw [storesImage, List.length_append, List.length_replicate, Word.length_listToBytes]
  rfl

theorem toInt_word {n : Nat} (h : n < 2 ^ 31) : (UInt32.ofNat n).toInt32.toInt = n :=
  Int32.toInt_ofNat_of_lt h

theorem readFields_storesImage {count : Nat} (h : 32 + count < 2 ^ 31) :
    Header.readFields .v1 (storesImage count) = ⟨count, 32, count, 32 + count, 0, 0, 0, 0⟩ := by
  have hfield (i n : Nat) (hi : (storesHeader count).toWords[i]? = some (UInt32.ofNat n).toInt32)
      (hn : n < 2 ^ 31) : (Header.wordAt (storesImage count) i).toInt = n := by
    rw [storesImage, wordAt_listToBytes hi, toInt_word hn]
  have hcount : count < 2 ^ 31 := by omega
  simp only [Header.readFields, hfield 1 count rfl hcount, hfield 2 32 rfl (by decide),
    hfield 3 count rfl hcount, hfield 4 (32 + count) rfl h, hfield 5 0 rfl (by decide),
    hfield 6 0 rfl (by decide), hfield 7 0 rfl (by decide)]
  rfl

theorem readVersion_storesImage (count : Nat) :
    Header.readVersion (storesImage count) = .ok .v1 := by
  have hmagic : Header.wordAt (storesImage count) 0 = Version.v1.magic.toInt32 :=
    wordAt_listToBytes rfl _
  have hlength : ¬ (storesImage count).length < Version.v1.headerSize := by
    rw [length_storesImage, Version.headerSize, Version.headerWords]
    omega
  rw [Header.readVersion, if_neg hlength, hmagic]
  exact if_neg hlength

theorem parse_storesImage {count : Nat} (h : 32 + count < 2 ^ 31) :
    Header.parse (storesImage count) = .ok (storesHeader count) := by
  have hvalid : FieldsValid ⟨count, 32, count, 32 + count, 0, 0, 0, 0⟩ .v1
      (storesImage count).length := by
    rw [length_storesImage]
    exact {
      instructionCount := ⟨Int.natCast_nonneg _, Int.le_refl _⟩
      codeOffset := Int.le_refl _
      codeLength := Int.natCast_nonneg _
      dataOffset := rfl
      dataLength := by simp
      litLength := by simp [Header.Fields.litEnd]
      whole := by simp [Header.Fields.litEnd]
      jumpTable := nofun
      bssLength := by simp }
  rw [Header.parse, readVersion_storesImage]
  simp only [bind, Except.bind, readFields_storesImage h, fault?_eq_none_iff.mpr hvalid]
  rfl

theorem codeRegion_storesImage (count : Nat) : (storesHeader count).codeRegion (storesImage count) =
    List.replicate count (Opcode.store .four).toByte := by
  have hlength : (Word.listToBytes (storesHeader count).toWords).length =
      (storesHeader count).codeOffset := Word.length_listToBytes _
  rw [Header.codeRegion, storesImage, List.drop_left' hlength]
  exact List.take_of_length_le (List.length_replicate ▸ Nat.le_refl count)

theorem fits_low {bits : Nat} {n : Int} (h : fits bits n = true) : -2 ^ (bits - 1) ≤ n := by
  simp only [fits, Bool.and_eq_true, decide_eq_true_eq] at h
  exact h.1

theorem readable_stores (n : Nat) :
    readable n (List.replicate n (Opcode.store .four).toByte) =
      List.replicate n ⟨.store .four, 0⟩ := by
  induction n with
  | zero => rfl
  | succ n ih =>
      rw [List.replicate_succ, List.replicate_succ, ← ih]
      rfl

theorem depth_of_stores {n : Nat} {depth : Int} {prev? : Option Instruction}
    (hdepth : -2 ^ 31 ≤ depth)
    (h : (annotate depth prev? (List.replicate n ⟨.store .four, 0⟩)).all depthFits = true) :
    -2 ^ 31 ≤ depth - 8 * n := by
  induction n generalizing depth prev? with
  | zero => simpa using hdepth
  | succ n ih =>
      simp only [List.replicate_succ, annotate, List.all_cons, Bool.and_eq_true] at h
      obtain ⟨hfits, hrest⟩ := h
      have hlow : -2 ^ 31 ≤ depth + -8 := fits_low hfits
      have := ih hlow hrest
      omega

theorem depthsFit_storesImage_iff {count : Nat} (h : 32 + count < 2 ^ 31) :
    depthsFit (storesImage count) = true ↔ count ≤ 2 ^ 28 := by
  constructor
  · intro hfit
    simp only [depthsFit, parse_storesImage h, codeRegion_storesImage] at hfit
    rw [show (storesHeader count).instructionCount = count from rfl, readable_stores] at hfit
    have := depth_of_stores (by decide) hfit
    omega
  · intro hcount
    apply depthsFit_of_length
    rw [length_storesImage]
    omega

theorem load_breaks_down_storesImage :
    (storesImage (2 ^ 28 + 1)).length < 2 ^ 63 ∧
      guardedLoad "m" (storesImage (2 ^ 28 + 1)) = none := by
  have hlength : (storesImage (2 ^ 28 + 1)).length < 2 ^ 63 := by
    rw [length_storesImage]
    decide
  have hfit : ¬ depthsFit (storesImage (2 ^ 28 + 1)) = true := by
    rw [depthsFit_storesImage_iff (by decide)]
    decide
  refine ⟨hlength, ?_⟩
  rw [(load_breaks_down_exactly "m" _ hlength).1, if_neg hfit]

end SandboxVm.Proofs.GuardedLoading
