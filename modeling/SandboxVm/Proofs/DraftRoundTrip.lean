import SandboxVm.Image.Draft
import SandboxVm.Proofs.InstructionCodec

namespace SandboxVm.Proofs.DraftRoundTrip

open SandboxVm.Proofs.HeaderBounds
open SandboxVm.Proofs.GuardedLoading
open SandboxVm.Proofs.InstructionCodec

/-! ### Additions to a draft -/

/-- A call that adds to a draft. -/
inductive Addition where
  | instructions (is : List Instruction)
  | data (ws : List Word)
  | literals (bytes : List UInt8)
  | bss (size : UInt32)
  | jumpTargets (ts : List Word)

namespace Addition

def addTo? (d : Draft) : Addition → Option Draft
  | instructions is => some (d.addInstructions is)
  | data ws => some (d.addData ws)
  | literals bytes => some (d.addLiterals bytes)
  | bss size => d.reserve? size.toNat
  | jumpTargets ts => some (d.addJumpTargets ts)

@[simp] def instructionsOf : Addition → List Instruction
  | instructions is => is
  | _ => []

@[simp] def dataOf : Addition → List Word
  | data ws => ws
  | _ => []

@[simp] def literalsOf : Addition → List UInt8
  | literals bytes => bytes
  | _ => []

@[simp] def bssOf : Addition → Nat
  | bss size => size.toNat
  | _ => 0

@[simp] def targetsOf : Addition → List Word
  | jumpTargets ts => ts
  | _ => []

@[simp] def addsTargets : Addition → Bool
  | jumpTargets _ => true
  | _ => false

end Addition

/-- Make a draft by additions, one after another. -/
def assemble? (additions : List Addition) : Option Draft :=
  additions.foldlM Addition.addTo? {}

/-- What a draft holds after some more additions, each kind of thing in its order. There
is a list of jump targets as soon as one was added, even an empty one. -/
def extended (d : Draft) (additions : List Addition) : Draft where
  instructions := d.instructions ++ additions.flatMap Addition.instructionsOf
  data := d.data ++ additions.flatMap Addition.dataOf
  literals := d.literals ++ additions.flatMap Addition.literalsOf
  bss := d.bss + (additions.map Addition.bssOf).sum
  jumpTargets :=
    if d.jumpTargets.isSome || additions.any Addition.addsTargets then
      some (d.jumpTargets.getD [] ++ additions.flatMap Addition.targetsOf)
    else none

theorem extended_nil (d : Draft) : extended d [] = d := by
  obtain ⟨instructions, data, literals, bss, jumpTargets⟩ := d
  cases jumpTargets <;> simp [extended]

theorem addTo?_eq {d : Draft} {addition : Addition} {additions : List Addition}
    (h : (extended d (addition :: additions)).bss < 2 ^ 32) :
    ∃ d', addition.addTo? d = some d' ∧
      extended d' additions = extended d (addition :: additions) := by
  cases addition with
  | instructions is => exact ⟨_, rfl, by simp [extended, Draft.addInstructions]⟩
  | data ws => exact ⟨_, rfl, by simp [extended, Draft.addData]⟩
  | literals bytes => exact ⟨_, rfl, by simp [extended, Draft.addLiterals]⟩
  | bss size =>
      have hsum : d.bss + size.toNat < 0x100000000 := by
        simp only [extended, List.map_cons, List.sum_cons, Addition.bssOf] at h
        omega
      refine ⟨{ d with bss := d.bss + size.toNat }, if_pos hsum, ?_⟩
      simp [extended, Nat.add_assoc]
  | jumpTargets ts => exact ⟨_, rfl, by simp [extended, Draft.addJumpTargets]⟩

theorem foldlM_eq {d : Draft} {additions : List Addition}
    (h : (extended d additions).bss < 2 ^ 32) :
    additions.foldlM Addition.addTo? d = some (extended d additions) := by
  induction additions generalizing d with
  | nil => rw [extended_nil]; rfl
  | cons addition additions ih =>
      obtain ⟨d', hadd, heq⟩ := addTo?_eq h
      rw [List.foldlM_cons, hadd, ← heq]
      exact ih (heq ▸ h)

/-- What a draft that is made by additions holds, each kind of thing in its order. -/
def contents (additions : List Addition) : Draft where
  instructions := additions.flatMap Addition.instructionsOf
  data := additions.flatMap Addition.dataOf
  literals := additions.flatMap Addition.literalsOf
  bss := (additions.map Addition.bssOf).sum
  jumpTargets :=
    if additions.any Addition.addsTargets then some (additions.flatMap Addition.targetsOf) else none

theorem extended_empty (additions : List Addition) : extended {} additions = contents additions := by
  simp only [extended, contents, List.nil_append, Nat.zero_add, Option.isSome_none, Bool.false_or,
    Option.getD_none]

theorem assemble?_eq {additions : List Addition} (h : (contents additions).bss < 2 ^ 32) :
    assemble? additions = some (contents additions) := by
  rw [← extended_empty] at h ⊢
  exact foldlM_eq h

theorem addsTargets_iff (additions : List Addition) :
    additions.any Addition.addsTargets = true ↔ ∃ ts, .jumpTargets ts ∈ additions := by
  rw [List.any_eq_true]
  constructor
  · rintro ⟨addition, hmem, hadds⟩
    cases addition with
    | jumpTargets ts => exact ⟨ts, hmem⟩
    | _ => cases hadds
  · rintro ⟨ts, hmem⟩
    exact ⟨_, hmem, rfl⟩

theorem version_contents_iff (additions : List Addition) :
    (contents additions).version = .v2 ↔ ∃ ts, .jumpTargets ts ∈ additions := by
  rw [← addsTargets_iff]
  cases hadds : additions.any Addition.addsTargets <;> simp [Draft.version, contents, hadds]

/-! ### The image of a draft -/

/-- Everything in the image of the draft can be counted with words, and its static data
is not too large. -/
structure Fits (d : Draft) : Prop where
  image : d.build.length < 2 ^ 31
  static : 4 * d.data.length + d.literals.length + d.bss ≤ maxDataSize

theorem length_toWords (d : Draft) : d.header.toWords.length = d.version.headerWords := by
  simp only [Header.toWords, Draft.header]
  cases d.version <;> rfl

theorem length_build (d : Draft) : d.build.length =
    d.version.headerSize + d.codeBytes.length + 4 * d.data.length + d.literals.length +
      4 * (d.jumpTargets.getD []).length := by
  simp only [Draft.build, List.length_append, Word.length_listToBytes, length_toWords,
    Version.headerSize]

theorem length_le_encodeAll (is : List Instruction) : is.length ≤ (encodeAll is).length := by
  induction is with
  | nil => exact Nat.le_refl 0
  | cons inst is ih =>
      rw [encodeAll_cons, List.length_append, Instruction.length_encode, List.length_cons]
      omega

theorem readVersion_build (d : Draft) : Header.readVersion d.build = .ok d.version := by
  have hmagic : Header.wordAt d.build 0 = d.version.magic.toInt32 := by
    rw [Draft.build, List.append_assoc, List.append_assoc, List.append_assoc]
    exact wordAt_listToBytes rfl _
  have hlength := length_build d
  have hv1 : ¬ d.build.length < Version.v1.headerSize := by
    have : Version.v1.headerSize ≤ d.version.headerSize := by cases d.version <;> decide
    omega
  have hversion : ¬ d.build.length < d.version.headerSize := by omega
  have hof : Version.ofMagic? d.version.magic = some d.version := by cases d.version <;> rfl
  rw [Header.readVersion, if_neg hv1, hmagic]
  simp only [UInt32.toUInt32_toInt32, hof, if_neg hversion]

section

variable {d : Draft} (h : Fits d)

theorem wordAt_build {i n : Nat} (hi : d.header.toWords[i]? = some (UInt32.ofNat n).toInt32)
    (hn : n < 2 ^ 31) : (Header.wordAt d.build i).toInt = n := by
  rw [Draft.build, List.append_assoc, List.append_assoc, List.append_assoc, wordAt_listToBytes hi,
    toInt_word hn]

include h

theorem readFields_build : Header.readFields d.version d.build =
    { instructionCount := d.header.instructionCount
      codeOffset := d.header.codeOffset
      codeLength := d.header.codeLength
      dataOffset := d.header.dataOffset
      dataLength := d.header.dataLength
      litLength := d.header.litLength
      bssLength := d.header.bssLength
      jumpTableLength := d.header.jumpTableLength } := by
  have hlength := length_build d
  have himage := h.image
  have hstatic := h.static
  have hcount : d.instructions.length ≤ d.codeBytes.length := length_le_encodeAll d.instructions
  have htable : (Header.readFields d.version d.build).jumpTableLength =
      d.header.jumpTableLength := by
    cases htargets : d.jumpTargets with
    | none => simp [Header.readFields, Draft.version, Draft.header, htargets]
    | some ts =>
        have hword : d.header.toWords[8]? =
            some (UInt32.ofNat d.header.jumpTableLength).toInt32 := by
          simp [Header.toWords, Draft.header, Draft.version, htargets]
        have hlt : d.header.jumpTableLength < 2 ^ 31 := by
          simp only [Draft.header]
          omega
        simpa [Header.readFields, Draft.version, htargets] using wordAt_build hword hlt
  simp only [maxDataSize] at hstatic
  simp only [Header.readFields, Header.Fields.mk.injEq]
  refine ⟨wordAt_build rfl ?_, wordAt_build rfl ?_, wordAt_build rfl ?_, wordAt_build rfl ?_,
    wordAt_build rfl ?_, wordAt_build rfl ?_, wordAt_build rfl ?_, htable⟩
  all_goals
    simp only [Draft.header]
    omega

theorem parse_build : Header.parse d.build = .ok d.header := by
  have hlength := length_build d
  have hstatic := h.static
  have hcount : d.instructions.length ≤ d.codeBytes.length := length_le_encodeAll d.instructions
  have hvalid : FieldsValid (Header.readFields d.version d.build) d.version d.build.length := by
    rw [readFields_build h]
    simp only [Draft.header]
    refine ⟨?_, ?_, ?_, ?_, ?_, ?_, ?_, ?_, ?_⟩
    all_goals simp only [Header.Fields.litEnd]
    · omega
    · omega
    · omega
    · omega
    · omega
    · omega
    · intro hversion
      have : d.jumpTargets = none := by
        simpa [Draft.version] using hversion
      simp only [this, Option.getD_none, List.length_nil] at hlength
      omega
    · intro _
      omega
    · omega
  rw [Header.parse, readVersion_build]
  simp only [bind, Except.bind, fault?_eq_none_iff.mpr hvalid]
  rw [readFields_build h]
  rfl

end

/-! ### The regions of the image -/

theorem slice_middle {before middle after : List UInt8} {start n : Nat}
    (hstart : before.length = start) (hn : middle.length = n) :
    ((before ++ middle ++ after).drop start).take n = middle := by
  rw [List.append_assoc, List.drop_left' hstart, List.take_left' hn]

theorem length_headerBytes (d : Draft) :
    (Word.listToBytes d.header.toWords).length = d.version.headerSize := by
  rw [Word.length_listToBytes, length_toWords, Version.headerSize]

theorem codeRegion_build (d : Draft) : d.header.codeRegion d.build = encodeAll d.instructions := by
  have hbuild : d.build = Word.listToBytes d.header.toWords ++ d.codeBytes ++
      (Word.listToBytes d.data ++ d.literals ++ Word.listToBytes (d.jumpTargets.getD [])) := by
    simp only [Draft.build, List.append_assoc]
  rw [hbuild]
  exact slice_middle (length_headerBytes d) rfl

theorem dataRegion_build (d : Draft) :
    d.header.dataRegion d.build = Word.listToBytes d.data ++ d.literals := by
  have hbuild : d.build = (Word.listToBytes d.header.toWords ++ d.codeBytes) ++
      (Word.listToBytes d.data ++ d.literals) ++ Word.listToBytes (d.jumpTargets.getD []) := by
    simp only [Draft.build, List.append_assoc]
  rw [hbuild]
  apply slice_middle
  · rw [List.length_append, length_headerBytes]
    rfl
  · rw [List.length_append, Word.length_listToBytes]
    rfl

theorem jumpTableRegion_build (d : Draft) :
    d.header.jumpTableRegion d.build = Word.listToBytes (d.jumpTargets.getD []) := by
  have hbuild : d.build = (Word.listToBytes d.header.toWords ++ d.codeBytes ++
      Word.listToBytes d.data ++ d.literals) ++ Word.listToBytes (d.jumpTargets.getD []) ++ [] := by
    simp only [Draft.build, List.append_nil]
  rw [hbuild]
  apply slice_middle
  · simp only [List.length_append, Word.length_listToBytes, length_toWords]
    rfl
  · exact Word.length_listToBytes _

theorem listOfBytes_listToBytes (ws : List Word) :
    Word.listOfBytes (Word.listToBytes ws) = ws := by
  induction ws with
  | nil => rfl
  | cons w ws ih =>
      simp only [Word.listToBytes, List.flatMap_cons, Word.toBytes, List.cons_append,
        List.nil_append, Word.listOfBytes, Word.ofBytes, sum_of_bytes, List.cons.injEq]
      exact ⟨rfl, ih⟩

theorem readJumpTable?_build (d : Draft) :
    Module.readJumpTable? d.header d.build = d.jumpTargets := by
  have hregion := jumpTableRegion_build d
  cases htargets : d.jumpTargets with
  | none =>
      have hversion : d.header.version = .v1 := by simp [Draft.header, Draft.version, htargets]
      simp only [Module.readJumpTable?, hversion]
  | some ts =>
      have hversion : d.header.version = .v2 := by simp [Draft.header, Draft.version, htargets]
      rw [htargets] at hregion
      simp only [Module.readJumpTable?, hversion, hregion, Option.getD_some,
        listOfBytes_listToBytes]

/-! ### Loading the image -/

/-- The module has what the draft gave its image. -/
structure LoadedFrom (d : Draft) (m : Module) : Prop where
  header : m.header = d.header
  data : m.data = Word.listToBytes d.data ++ d.literals
  jumpTable : m.jumpTable? = d.jumpTargets
  static : m.staticSize = 4 * d.data.length + d.literals.length + d.bss

section

variable {d : Draft} (h : Fits d)

include h

theorem load_build (name : String) :
    (∃ m, Module.load name d.build = .ok m ∧ m.name = name ∧ LoadedFrom d m) ∨
      ∃ e, Module.load name d.build = .error (.verify e) := by
  have hload : Module.load name d.build =
      ((SandboxVm.verify (decodedAll d.instructions) d.header.staticSize d.jumpTargets).mapError
        .verify).bind fun verified => .ok
          { name
            header := d.header
            code := verified.code
            data := Word.listToBytes d.data ++ d.literals
            jumpTable? := d.jumpTargets
            procedures := verified.procedures } := by
    rw [Module.load, parse_build h]
    simp only [bind, Except.bind, Except.mapError, codeRegion_build, dataRegion_build,
      readJumpTable?_build]
    rw [show d.header.instructionCount = d.instructions.length from rfl, decode_encodeAll]
    rfl
  rw [hload]
  cases SandboxVm.verify (decodedAll d.instructions) d.header.staticSize d.jumpTargets with
  | error e => exact .inr ⟨e, rfl⟩
  | ok verified => exact .inl ⟨_, rfl, rfl, rfl, rfl, rfl, rfl⟩

theorem guardedLoad_build (hcount : d.instructions.length < 2 ^ 28) (name : String) :
    guardedLoad name d.build = some (Module.load name d.build) := by
  have himage := h.image
  have hdepths : depthsFit d.build = true := by
    have hreadable := length_readable_le d.instructions.length (encodeAll d.instructions)
    simp only [depthsFit, parse_build h, codeRegion_build]
    exact depthFits_of_length (by simp only [Draft.header]; omega)
      (by simp only [Draft.header]; omega)
  rw [guardedLoad_eq name (by omega), provided_eq hdepths]

end

/-- Additions make a draft of all that was added, and its image gives it back: the header
has the places and sizes, the code region decodes to the instructions, and loading ends
with a module of the same data and jump targets unless verification refuses it. -/
theorem contents_read_back (additions : List Addition) (hfits : Fits (contents additions))
    (hcount : (contents additions).instructions.length < 2 ^ 28) :
    ∃ d, assemble? additions = some d ∧ d = contents additions ∧
      Header.parse d.build = .ok {
        version := d.version
        instructionCount := d.instructions.length
        codeOffset := d.version.headerSize
        codeLength := (encodeAll d.instructions).length
        dataOffset := d.version.headerSize + (encodeAll d.instructions).length
        dataLength := 4 * d.data.length
        litLength := d.literals.length
        bssLength := d.bss
        jumpTableLength := 4 * (d.jumpTargets.getD []).length } ∧
      (d.version = .v2 ↔ ∃ ts, .jumpTargets ts ∈ additions) ∧
      (∃ code,
        guardedDecode (d.header.codeRegion d.build) d.instructions.length = some (.ok code) ∧
        decode (d.header.codeRegion d.build) d.instructions.length = .ok code ∧
        code.size = d.instructions.length ∧
        ∀ i inst, d.instructions[i]? = some inst →
          code[i]? = some (decoded d.instructions i inst)) ∧
      ∀ name, guardedLoad name d.build = some (Module.load name d.build) ∧
        ((∃ m, Module.load name d.build = .ok m ∧ m.name = name ∧ LoadedFrom d m) ∨
          ∃ e, Module.load name d.build = .error (.verify e)) := by
  have hstatic := hfits.static
  simp only [maxDataSize] at hstatic
  refine ⟨contents additions, assemble?_eq (by omega), rfl, parse_build hfits,
    version_contents_iff additions, ⟨decodedAll (contents additions).instructions, ?_⟩,
    fun name => ⟨guardedLoad_build hfits hcount name, load_build hfits name⟩⟩
  rw [codeRegion_build]
  exact ⟨guardedDecode_encodeAll hcount, decode_encodeAll _, size_decodedAll _,
    fun i inst hinst => decodedAll_getElem? hinst⟩

/-- Additions of every kind, with two lists of instructions that make one procedure. -/
def procedureAdditions : List Addition :=
  [.literals [97, 98], .jumpTargets [], .instructions [⟨.enter, 8⟩, ⟨.const, 42⟩], .bss 64,
    .data [0x04030201], .instructions [⟨.leave, 8⟩, ⟨.push, 0⟩, ⟨.leave, 8⟩], .literals [0]]

theorem procedureAdditions_read_back :
    Fits (contents procedureAdditions) ∧
      (contents procedureAdditions).instructions.length < 2 ^ 28 ∧
      assemble? procedureAdditions = some (contents procedureAdditions) ∧
      Header.parse (contents procedureAdditions).build = .ok ⟨.v2, 5, 36, 21, 57, 4, 3, 64, 0⟩ ∧
      (contents procedureAdditions).version = .v2 := by
  have hfits : Fits (contents procedureAdditions) := ⟨by decide, by decide⟩
  have hcount : (contents procedureAdditions).instructions.length < 2 ^ 28 := by decide
  obtain ⟨d, hassemble, rfl, hparse, hversion, -⟩ :=
    contents_read_back procedureAdditions hfits hcount
  exact ⟨hfits, hcount, hassemble, hparse, hversion.mpr ⟨[], by simp [procedureAdditions]⟩⟩

end SandboxVm.Proofs.DraftRoundTrip
