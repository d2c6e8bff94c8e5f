import SandboxVm.Machine.Basic
import SandboxVm.Proofs.MemoryLaw

namespace SandboxVm.Proofs.HostMemory

open SandboxVm.Proofs.EntryCall
open SandboxVm.Proofs.ArenaLayout
open SandboxVm.Proofs.BlockCopy
open SandboxVm.Proofs.ArenaAccess
open SandboxVm.Proofs.LittleEndian
open SandboxVm.Proofs.MemoryLaw

/-- Where a host access starts in an arena of some size: at its address read as unsigned,
which is taken around the end of the arena where it is masked. -/
def startOf (size : Nat) (access : HostAccess) (addr : Word) : Nat :=
  match access with
  | .masked => addr.toUInt32.toNat % size
  | .checked => addr.toUInt32.toNat

/-- The error of a host access: its address, not masked, and its length as far as 32 bits
can count it. -/
def refusal (addr : Word) (len : Nat) : AccessError := ⟨addr.toUInt32, min len (2 ^ 32 - 1)⟩

/-- The bytes are those of the arena from an offset on. -/
structure StandAt (a : Arena) (start : Nat) (bytes : ByteArray) : Prop where
  inside : start + bytes.size ≤ a.size
  byteAt : ∀ k < bytes.size, bytes.data[k]? = some (a.byteAt (start + k))

/-- The second arena is the first but for the bytes from an offset on. -/
structure ReplacedAt (a b : Arena) (start : Nat) (bytes : ByteArray) : Prop where
  size : b.size = a.size
  block : StandAt b start bytes
  rest : ∀ j, ¬ (start ≤ j ∧ j < start + bytes.size) → b.byteAt j = a.byteAt j

/-- What an access comes to: a result or an error, and the arena that it leaves. -/
abbrev Answer (β : Type) := Except AccessError β × Arena

/-- An access to `len` bytes succeeds if and only if they lie inside, with what is `wanted`,
and otherwise changes nothing. -/
structure Bounded {β : Type} (a : Arena) (access : HostAccess) (addr : Word) (len : Nat)
    (answer : Answer β) (wanted : (start : Nat) → β → Arena → Prop) : Prop where
  succeeds_iff : (∃ result, answer.1 = .ok result) ↔ startOf a.size access addr + len ≤ a.size
  of_ok : ∀ result, answer.1 = .ok result → wanted (startOf a.size access addr) result answer.2
  of_error : ∀ e, answer.1 = .error e → e = refusal addr len ∧ answer.2 = a

/-- A string is what stands in front of the first zero byte. -/
structure StringLaw (a : Arena) (access : HostAccess) (addr : Word) : Prop where
  succeeds_iff : (∃ bytes, a.hostCString access addr = .ok bytes) ↔
    startOf a.size access addr ≤ a.size ∧
      ∃ j, startOf a.size access addr ≤ j ∧ j < a.size ∧ a.byteAt j = 0
  of_ok : ∀ bytes, a.hostCString access addr = .ok bytes →
    StandAt a (startOf a.size access addr) bytes ∧ 0 ∉ bytes.data ∧
      startOf a.size access addr + bytes.size < a.size ∧
        a.byteAt (startOf a.size access addr + bytes.size) = 0
  of_error : ∀ e, a.hostCString access addr = .error e →
    e = ⟨addr.toUInt32, a.size - startOf a.size access addr⟩

/-- Whenever a machine serves the service while it has the arena, it comes to the answer, and
nothing but the arena changes on the way. -/
def Answered {β : Type} (a : Arena) (access : HostAccess) (service : (δ : Type) → Service δ β)
    (answer : Answer β) : Prop :=
  ∀ {δ α : Type} [Engine α], Engine.access α = access →
    ∀ (p : Program) (syscalls : Syscalls δ) (s : State δ α) (code : α) (next : β → Service δ Word),
      s.store.arena = a → s.control = .serving code ((service δ).bind next) →
        ∃ fuel, Machine.run p syscalls fuel (.next s) = .next { s with
          store := { s.store with arena := answer.2 }
          control := .serving code ((Service.ofAccess answer.1).bind next) }

section

variable {a b : Arena} {access : HostAccess} {addr : Word}

/-! ### The range of an access -/

theorem hostStart_eq (ha : Maskable a) (access : HostAccess) (addr : Word) :
    a.hostStart access addr = startOf a.size access addr := by
  cases access with
  | masked =>
      have hmask := toNat_mask ha
      obtain ⟨k, hk, -⟩ := ha
      simp only [Arena.hostStart, startOf, UInt32.toNat_and, hmask, hk,
        Nat.and_two_pow_sub_one_eq_mod]
  | checked => rfl

theorem hostRange_eq_ite (ha : Maskable a) (access : HostAccess) (addr : Word) (len : Nat) :
    a.hostRange access addr len =
      if startOf a.size access addr + len ≤ a.size then .ok (startOf a.size access addr)
      else .error (refusal addr len) := by
  rw [Arena.hostRange, hostStart_eq ha]
  rfl

/-! ### Bytes -/

theorem size_extract {start len : Nat} (h : start + len ≤ a.size) :
    (a.bytes.extract start (start + len)).size = len := by
  rw [ByteArray.size_extract]
  simp only [Arena.size] at h
  omega

theorem standAt_extract {start len : Nat} (h : start + len ≤ a.size) :
    StandAt a start (a.bytes.extract start (start + len)) := by
  have hsize := size_extract h
  have hbytes : a.bytes.data.size = a.size := rfl
  refine ⟨hsize.symm ▸ h, fun k hk => ?_⟩
  rw [hsize] at hk
  rw [ByteArray.data_extract, Array.getElem?_extract, if_pos (by omega), byteAt_eq,
    Array.getElem?_eq_getElem (by omega)]
  rfl

theorem StandAt.toList {start : Nat} {bytes : ByteArray} (h : StandAt a start bytes) :
    bytes.data.toList = (List.range bytes.size).map fun k => a.byteAt (start + k) := by
  apply List.ext_getElem?
  intro k
  rw [Array.getElem?_toList, List.getElem?_map]
  rcases Nat.lt_or_ge k bytes.size with hlt | hge
  · rw [h.byteAt k hlt, List.getElem?_range hlt]
    rfl
  · rw [Array.getElem?_eq_none (by rwa [ByteArray.size_data]), List.getElem?_eq_none]
    · rfl
    · rwa [List.length_range]

theorem replacedAt_overwrite {start : Nat} {bytes : ByteArray} (h : start + bytes.size ≤ a.size) :
    ReplacedAt a (a.overwrite start bytes) start bytes := by
  have hsize := size_overwrite h
  have hbyteAt := byteAt_overwrite a h
  refine ⟨hsize, ⟨hsize.symm ▸ h, fun k hk => ?_⟩, fun j hj => ?_⟩
  · rw [hbyteAt, if_pos ⟨Nat.le_add_right .., Nat.add_lt_add_left hk _⟩, Nat.add_sub_cancel_left,
      Array.getElem?_eq_getElem (by rwa [ByteArray.size_data])]
    rfl
  · rw [hbyteAt, if_neg hj]

theorem eq_of_byteAt (hsize : b.size = a.size) (h : ∀ j, b.byteAt j = a.byteAt j) : b = a := by
  have hdata : b.bytes.data = a.bytes.data := by
    refine Array.ext hsize fun j hj' hj => ?_
    have hbyte := h j
    rwa [byteAt_eq, byteAt_eq, Array.getElem?_eq_getElem hj', Array.getElem?_eq_getElem hj] at hbyte
  obtain ⟨⟨bytes⟩⟩ := a
  obtain ⟨⟨bytes'⟩⟩ := b
  exact congrArg (fun data => Arena.mk ⟨data⟩) hdata

/-! ### Reading and writing -/

theorem bounded_of_cases {β : Type} {len : Nat} {answer : Answer β}
    {wanted : Nat → β → Arena → Prop}
    (hinside : startOf a.size access addr + len ≤ a.size → ∃ result b,
      answer = (.ok result, b) ∧ wanted (startOf a.size access addr) result b)
    (houtside : ¬ startOf a.size access addr + len ≤ a.size →
      answer = (.error (refusal addr len), a)) : Bounded a access addr len answer wanted := by
  by_cases hfits : startOf a.size access addr + len ≤ a.size
  · obtain ⟨result, b, rfl, hwanted⟩ := hinside hfits
    refine ⟨⟨fun _ => hfits, fun _ => ⟨result, rfl⟩⟩, ?_, ?_⟩
    · rintro _ ⟨rfl⟩
      exact hwanted
    · rintro e ⟨⟩
  · obtain rfl := houtside hfits
    refine ⟨⟨?_, fun h => absurd h hfits⟩, ?_, ?_⟩
    · rintro ⟨result, ⟨⟩⟩
    · rintro result ⟨⟩
    · rintro _ ⟨rfl⟩
      exact ⟨rfl, rfl⟩

theorem hostRead_eq_ite (ha : Maskable a) (access : HostAccess) (addr : Word) (len : Nat) :
    a.hostRead access addr len =
      if startOf a.size access addr + len ≤ a.size then
        .ok (a.bytes.extract (startOf a.size access addr) (startOf a.size access addr + len))
      else .error (refusal addr len) := by
  rw [Arena.hostRead, hostRange_eq_ite ha]
  split <;> rfl

theorem hostWrite_eq_ite (ha : Maskable a) (access : HostAccess) (addr : Word)
    (bytes : ByteArray) : a.hostWrite access addr bytes =
      if startOf a.size access addr + bytes.size ≤ a.size then
        (.ok (), a.overwrite (startOf a.size access addr) bytes)
      else (.error (refusal addr bytes.size), a) := by
  rw [Arena.hostWrite, hostRange_eq_ite ha]
  split <;> rename_i hrange <;> split at hrange <;> cases hrange
  · rw [if_pos ‹_›]
  · rw [if_neg ‹_›]

theorem bounded_read (ha : Maskable a) (access : HostAccess) (addr : Word) (len : Nat) :
    Bounded a access addr len (a.hostRead access addr len, a) fun start bytes b =>
      bytes.size = len ∧ StandAt a start bytes ∧ b = a := by
  rw [hostRead_eq_ite ha]
  refine bounded_of_cases (fun hfits => ?_) fun hfits => by rw [if_neg hfits]
  exact ⟨_, _, by rw [if_pos hfits], size_extract hfits, standAt_extract hfits, rfl⟩

theorem bounded_write (ha : Maskable a) (access : HostAccess) (addr : Word) (bytes : ByteArray) :
    Bounded a access addr bytes.size (a.hostWrite access addr bytes) fun start _ b =>
      ReplacedAt a b start bytes := by
  rw [hostWrite_eq_ite ha]
  refine bounded_of_cases (fun hfits => ?_) fun hfits => if_neg hfits
  exact ⟨_, _, if_pos hfits, replacedAt_overwrite hfits⟩

theorem bounded_update (ha : Maskable a) (access : HostAccess) (addr : Word) (len : Nat)
    (f : ByteUpdate) : Bounded a access addr len (a.hostUpdate access addr len f) fun start _ b =>
      ∃ old, old.size = len ∧ StandAt a start old ∧ ReplacedAt a b start (f.apply old) := by
  rw [Arena.hostUpdate, hostRead_eq_ite ha]
  refine bounded_of_cases (fun hfits => ?_) fun hfits => by rw [if_neg hfits]
  have hsize := size_extract hfits
  have hroom := hfits
  rw [← hsize, ← f.size_apply] at hroom
  refine ⟨(), _, ?_, _, hsize, standAt_extract hfits, replacedAt_overwrite hroom⟩
  rw [if_pos hfits]
  simp only
  rw [hostWrite_eq_ite ha, if_pos hroom]

/-! ### Words -/

theorem toNat_ofByteArray {start : Nat} {bytes : ByteArray} (hsize : bytes.size = 4)
    (h : StandAt a start bytes) :
    (Word.ofByteArray bytes).toUInt32.toNat = littleEndian (bytesFrom a.byteAt start .four) := by
  have hbytes : bytes.data.toList = [a.byteAt (start + 0), a.byteAt (start + 1),
      a.byteAt (start + 2), a.byteAt (start + 3)] := by
    rw [h.toList, hsize]
    rfl
  rw [Word.ofByteArray, hbytes]
  exact toNat_ofBytes _ _ _ _

theorem bounded_readWord (ha : Maskable a) (access : HostAccess) (addr : Word) :
    Bounded a access addr 4 (a.hostReadWord access addr, a) fun start w b =>
      w.toUInt32.toNat = littleEndian (bytesFrom a.byteAt start .four) ∧ b = a := by
  rw [Arena.hostReadWord, hostRead_eq_ite ha]
  refine bounded_of_cases (fun hfits => ?_) fun hfits => by rw [if_neg hfits]; rfl
  refine ⟨_, _, by rw [if_pos hfits]; rfl, ?_, rfl⟩
  exact toNat_ofByteArray (size_extract hfits) (standAt_extract hfits)

theorem bounded_writeWord (ha : Maskable a) (access : HostAccess) (addr value : Word) :
    Bounded a access addr 4 (a.hostWriteWord access addr value) fun start _ b =>
      ReplacedAt a b start ⟨((List.range 4).map (digit value.toUInt32.toNat)).toArray⟩ := by
  rw [← toBytes_eq_digits]
  exact bounded_write ha access addr (Word.toByteArray value)

/-! ### Strings -/

theorem of_findZero?_eq_some {i stop : Nat} (h : a.findZero? i = some stop) :
    i ≤ stop ∧ stop < a.size ∧ a.byteAt stop = 0 ∧ ∀ j, i ≤ j → j < stop → a.byteAt j ≠ 0 := by
  fun_induction Arena.findZero? a i with
  | case1 i hi hzero =>
      obtain rfl := Option.some.inj h
      exact ⟨Nat.le_refl i, hi, hzero, fun j hij hji => absurd hji (Nat.not_lt.mpr hij)⟩
  | case2 i hi hzero ih =>
      obtain ⟨hle, hlt, hstop, hfront⟩ := ih h
      refine ⟨by omega, hlt, hstop, fun j hij hj => ?_⟩
      rcases Nat.eq_or_lt_of_le hij with rfl | hlater
      · exact hzero
      · exact hfront j hlater hj
  | case3 i hi => cases h

theorem of_findZero?_eq_none {i : Nat} (h : a.findZero? i = none) (j : Nat) (hij : i ≤ j)
    (hj : j < a.size) : a.byteAt j ≠ 0 := by
  fun_induction Arena.findZero? a i with
  | case1 i hi hzero => cases h
  | case2 i hi hzero ih =>
      rcases Nat.eq_or_lt_of_le hij with rfl | hlater
      · exact hzero
      · exact ih h hlater
  | case3 i hi => omega

theorem hostCString_eq_match (ha : Maskable a) (access : HostAccess) (addr : Word) :
    a.hostCString access addr =
      match a.findZero? (startOf a.size access addr) with
      | some stop => .ok (a.bytes.extract (startOf a.size access addr) stop)
      | none => .error ⟨addr.toUInt32, a.size - startOf a.size access addr⟩ := by
  rw [Arena.hostCString, hostRange_eq_ite ha, Nat.add_zero]
  split
  · rfl
  · -- Behind the end there is nothing to find, and nothing is left of the arena.
    rename_i houtside
    have hnone : a.findZero? (startOf a.size access addr) = none := by
      rw [Arena.findZero?, if_neg (by omega)]
    rw [hnone, Nat.sub_eq_zero_of_le (by omega)]
    rfl

theorem zero_not_mem {start : Nat} {bytes : ByteArray} (h : StandAt a start bytes)
    (hfront : ∀ j, start ≤ j → j < start + bytes.size → a.byteAt j ≠ 0) : 0 ∉ bytes.data := by
  intro hzero
  obtain ⟨k, hk⟩ := Array.mem_iff_getElem?.mp hzero
  have hlt : k < bytes.size := (Array.getElem?_eq_some_iff.mp hk).1
  rw [h.byteAt k hlt] at hk
  exact hfront (start + k) (Nat.le_add_right ..) (Nat.add_lt_add_left hlt _) (Option.some.inj hk)

theorem stringLaw_of_none (hcases : a.hostCString access addr =
      .error ⟨addr.toUInt32, a.size - startOf a.size access addr⟩)
    (hnone : ∀ j, startOf a.size access addr ≤ j → j < a.size → a.byteAt j ≠ 0) :
    StringLaw a access addr where
  succeeds_iff := by
    rw [hcases]
    constructor
    · rintro ⟨bytes, ⟨⟩⟩
    · rintro ⟨-, j, hj, hlt, hzero⟩
      exact absurd hzero (hnone j hj hlt)
  of_ok bytes h := nomatch hcases.symm.trans h
  of_error e h := (Except.error.inj (hcases.symm.trans h)).symm

theorem stringLaw_of_some {len : Nat} (hcases : a.hostCString access addr =
      .ok (a.bytes.extract (startOf a.size access addr) (startOf a.size access addr + len)))
    (hlt : startOf a.size access addr + len < a.size)
    (hzero : a.byteAt (startOf a.size access addr + len) = 0)
    (hfront : ∀ j, startOf a.size access addr ≤ j → j < startOf a.size access addr + len →
      a.byteAt j ≠ 0) : StringLaw a access addr where
  succeeds_iff := by
    rw [hcases]
    exact ⟨fun _ => ⟨by omega, _, Nat.le_add_right .., hlt, hzero⟩, fun _ => ⟨_, rfl⟩⟩
  of_ok bytes h := by
    obtain rfl := Except.ok.inj (hcases.symm.trans h)
    have hstand := standAt_extract (Nat.le_of_lt hlt)
    have hsize := size_extract (Nat.le_of_lt hlt)
    exact ⟨hstand, zero_not_mem hstand (by rwa [hsize]), by rwa [hsize], by rwa [hsize]⟩
  of_error e h := nomatch hcases.symm.trans h

theorem stringLaw (ha : Maskable a) (access : HostAccess) (addr : Word) :
    StringLaw a access addr := by
  have hcases := hostCString_eq_match ha access addr
  cases hstop : a.findZero? (startOf a.size access addr) with
  | none =>
      rw [hstop] at hcases
      exact stringLaw_of_none hcases (of_findZero?_eq_none hstop)
  | some stop =>
      rw [hstop] at hcases
      obtain ⟨hle, hlt, hzero, hfront⟩ := of_findZero?_eq_some hstop
      obtain ⟨len, rfl⟩ := Nat.exists_eq_add_of_le hle
      exact stringLaw_of_some hcases hlt hzero hfront

/-! ### Both modes, and module code -/

/-- Whether an address is masked makes no difference to any access. -/
structure SameAccess (a : Arena) (addr : Word) : Prop where
  read : ∀ len, a.hostRead .masked addr len = a.hostRead .checked addr len
  write : ∀ bytes, a.hostWrite .masked addr bytes = a.hostWrite .checked addr bytes
  update : ∀ len f, a.hostUpdate .masked addr len f = a.hostUpdate .checked addr len f
  readWord : a.hostReadWord .masked addr = a.hostReadWord .checked addr
  writeWord : ∀ value, a.hostWriteWord .masked addr value = a.hostWriteWord .checked addr value
  cString : a.hostCString .masked addr = a.hostCString .checked addr

theorem sameAccess (ha : Maskable a) (haddr : addr.toUInt32.toNat < a.size) :
    SameAccess a addr := by
  have hstart : startOf a.size .masked addr = startOf a.size .checked addr :=
    Nat.mod_eq_of_lt haddr
  have hrange (len : Nat) : a.hostRange .masked addr len = a.hostRange .checked addr len := by
    rw [hostRange_eq_ite ha, hostRange_eq_ite ha, hstart]
  have hread (len : Nat) : a.hostRead .masked addr len = a.hostRead .checked addr len := by
    rw [Arena.hostRead, hrange, Arena.hostRead]
  have hwrite (bytes : ByteArray) :
      a.hostWrite .masked addr bytes = a.hostWrite .checked addr bytes := by
    rw [Arena.hostWrite, hrange, Arena.hostWrite]
  exact {
    read := hread
    write := hwrite
    update := fun len f => by simp only [Arena.hostUpdate, hread, hwrite]
    readWord := congrArg (Except.map Word.ofByteArray) (hread 4)
    writeWord := fun value => hwrite _
    cString := by rw [Arena.hostCString, hrange, Arena.hostCString] }

theorem offset_four_of_aligned (ha : Maskable a) (haligned : addr.toInt % 4 = 0) :
    Arena.offset a.mask addr .four = startOf a.size .masked addr := by
  have hoffset := offset_eq_sub ha addr .four
  obtain ⟨k, hk, -, hk32⟩ := ha
  rw [startOf, hk]
  rw [hk, toInt_emod (by omega)] at hoffset
  simp only [Width.bytes] at hoffset
  omega

theorem hostReadWord_eq_load (ha : Maskable a) (haligned : addr.toInt % 4 = 0) :
    a.hostReadWord .masked addr = .ok (a.load .four addr) := by
  have hfits := offset_add_le ha addr .four
  have hload := toNat_load a .four addr
  rw [offset_four_of_aligned ha haligned] at hfits hload
  have hread := bounded_readWord ha .masked addr
  obtain ⟨w, hw⟩ := hread.succeeds_iff.mpr hfits
  have hword : w.toUInt32 = (a.load .four addr).toUInt32 :=
    UInt32.toNat_inj.mp ((hread.of_ok w hw).1.trans hload.symm)
  exact hw.trans (congrArg (fun u => Except.ok (UInt32.toInt32 u)) hword)

theorem hostWriteWord_eq_store (ha : Maskable a) (haligned : addr.toInt % 4 = 0) (value : Word) :
    a.hostWriteWord .masked addr value = (.ok (), a.store .four addr value) := by
  have hoffset := offset_four_of_aligned ha haligned
  have hfits : startOf a.size .masked addr + (Word.toByteArray value).size ≤ a.size :=
    hoffset ▸ offset_add_le ha addr .four
  rw [Arena.hostWriteWord, hostWrite_eq_ite ha, if_pos hfits]
  have hsame : a.overwrite (startOf a.size .masked addr) (Word.toByteArray value) =
      a.store .four addr value := by
    apply eq_of_byteAt ((size_overwrite hfits).trans (size_store ..).symm)
    intro j
    rw [byteAt_overwrite a hfits, byteAt_store ha, hoffset, Word.toByteArray, List.getElem?_toArray]
    rfl
  rw [hsame]

/-! ### Services -/

/-- The requests of services for memory are answered with the accesses of the host. -/
structure Served (a : Arena) (access : HostAccess) (addr : Word) : Prop where
  read : ∀ len, Answered a access (fun δ => Service.readBytes (δ := δ) addr len)
    (a.hostRead access addr len, a)
  write : ∀ bytes, Answered a access (fun δ => Service.writeBytes (δ := δ) addr bytes)
    (a.hostWrite access addr bytes)
  update : ∀ len f, Answered a access (fun δ => Service.updateBytes (δ := δ) addr len f)
    (a.hostUpdate access addr len f)
  readWord : Answered a access (fun δ => Service.readWord (δ := δ) addr)
    (a.hostReadWord access addr, a)
  writeWord : ∀ value, Answered a access (fun δ => Service.writeWord (δ := δ) addr value)
    (a.hostWriteWord access addr value)
  cString : Answered a access (fun δ => Service.cString (δ := δ) addr)
    (a.hostCString access addr, a)

theorem answered_read (a : Arena) (access : HostAccess) (addr : Word) (len : Nat) :
    Answered a access (fun δ => Service.readBytes (δ := δ) addr len)
      (a.hostRead access addr len, a) := by
  rintro δ α _ rfl p syscalls ⟨store, data, control, bracket, outer⟩ code next rfl rfl
  exact ⟨1, rfl⟩

theorem answered_write (a : Arena) (access : HostAccess) (addr : Word) (bytes : ByteArray) :
    Answered a access (fun δ => Service.writeBytes (δ := δ) addr bytes)
      (a.hostWrite access addr bytes) := by
  rintro δ α _ rfl p syscalls ⟨store, data, control, bracket, outer⟩ code next rfl rfl
  exact ⟨1, rfl⟩

theorem answered_update (a : Arena) (access : HostAccess) (addr : Word) (len : Nat)
    (f : ByteUpdate) : Answered a access (fun δ => Service.updateBytes (δ := δ) addr len f)
      (a.hostUpdate access addr len f) := by
  rintro δ α _ rfl p syscalls ⟨store, data, control, bracket, outer⟩ code next rfl rfl
  have hask (fuel : Nat) : Machine.run p syscalls (fuel + 1) (.next ⟨store, data, .serving code
      ((Service.updateBytes addr len f).bind next), bracket, outer⟩) =
        Machine.run p syscalls fuel (.next ⟨store, data, .serving code
          (((Service.ofAccess (store.arena.hostRead (Engine.access α) addr len)).bind fun old =>
            Service.writeBytes addr (f.apply old)).bind next), bracket, outer⟩) := rfl
  cases hread : store.arena.hostRead (Engine.access α) addr len with
  | ok old =>
      refine ⟨2, ?_⟩
      rw [hask, hread, Arena.hostUpdate, hread]
      rfl
  | error e =>
      refine ⟨1, ?_⟩
      rw [hask, hread, Arena.hostUpdate, hread]
      rfl

theorem answered_readWord (a : Arena) (access : HostAccess) (addr : Word) :
    Answered a access (fun δ => Service.readWord (δ := δ) addr)
      (a.hostReadWord access addr, a) := by
  rintro δ α _ rfl p syscalls ⟨store, data, control, bracket, outer⟩ code next rfl rfl
  exact ⟨1, rfl⟩

theorem answered_cString (a : Arena) (access : HostAccess) (addr : Word) :
    Answered a access (fun δ => Service.cString (δ := δ) addr)
      (a.hostCString access addr, a) := by
  rintro δ α _ rfl p syscalls ⟨store, data, control, bracket, outer⟩ code next rfl rfl
  exact ⟨1, rfl⟩

theorem served (a : Arena) (access : HostAccess) (addr : Word) : Served a access addr where
  read := answered_read a access addr
  write := answered_write a access addr
  update := answered_update a access addr
  readWord := answered_readWord a access addr
  writeWord value := answered_write a access addr (Word.toByteArray value)
  cString := answered_cString a access addr

end

/-- What accesses of the host to an arena come to, and services with them. -/
structure HostViews (a : Arena) : Prop where
  read : ∀ access addr len, Bounded a access addr len (a.hostRead access addr len, a)
    fun start bytes b => bytes.size = len ∧ StandAt a start bytes ∧ b = a
  write : ∀ access addr bytes, Bounded a access addr bytes.size (a.hostWrite access addr bytes)
    fun start _ b => ReplacedAt a b start bytes
  update : ∀ access addr len f, Bounded a access addr len (a.hostUpdate access addr len f)
    fun start _ b =>
      ∃ old, old.size = len ∧ StandAt a start old ∧ ReplacedAt a b start (f.apply old)
  readWord : ∀ access addr, Bounded a access addr 4 (a.hostReadWord access addr, a)
    fun start w b => w.toUInt32.toNat = littleEndian (bytesFrom a.byteAt start .four) ∧ b = a
  writeWord : ∀ access addr value, Bounded a access addr 4 (a.hostWriteWord access addr value)
    fun start _ b =>
      ReplacedAt a b start ⟨((List.range 4).map (digit value.toUInt32.toNat)).toArray⟩
  cString : ∀ access addr, StringLaw a access addr
  same : ∀ addr : Word, addr.toUInt32.toNat < a.size → SameAccess a addr
  /-- The host and module code agree on the words at aligned addresses. -/
  aligned : ∀ addr : Word, addr.toInt % 4 = 0 →
    a.hostReadWord .masked addr = .ok (a.load .four addr) ∧
      ∀ value, a.hostWriteWord .masked addr value = (.ok (), a.store .four addr value)
  served : ∀ access addr, Served a access addr

/-- Whatever the address and the length, an access of the host stays inside the arena, has its
effect as a whole or not at all, and fits together with the loads and stores of module code. -/
theorem host_views_bounded {a : Arena} {k : Nat} (ha : a.size = 2 ^ k) (hleast : 4 ≤ a.size)
    (hcounted : a.size < 2 ^ 32) : HostViews a := by
  have hmask := maskable_of_size ha hleast hcounted
  exact {
    read := bounded_read hmask
    write := bounded_write hmask
    update := bounded_update hmask
    readWord := bounded_readWord hmask
    writeWord := bounded_writeWord hmask
    cString := stringLaw hmask
    same := fun _ haddr => sameAccess hmask haddr
    aligned := fun _ haligned =>
      ⟨hostReadWord_eq_load hmask haligned, hostWriteWord_eq_store hmask haligned⟩
    served := served a }

/-- An arena with a string in front and no zero byte behind it. -/
def endless : Arena := ⟨⟨#[104, 105, 0, 1, 2, 3, 4, 5]⟩⟩

theorem host_views_bounded_endless :
    endless.size = 2 ^ 3 ∧ 4 ≤ endless.size ∧ endless.size < 2 ^ 32 ∧
      endless.hostReadWord .masked (-4) = .ok (endless.load .four (-4)) ∧
      (¬ ∃ result, (endless.hostWriteWord .masked 13 7).1 = .ok result) ∧
      (∃ bytes, endless.hostRead .checked 8 0 = .ok bytes) ∧
      ¬ ∃ bytes, endless.hostCString .masked 11 = .ok bytes := by
  have hviews : HostViews endless := host_views_bounded (k := 3) rfl (by decide) (by decide)
  refine ⟨rfl, by decide, by decide, (hviews.aligned (-4) (by decide)).1,
    mt (hviews.writeWord .masked 13 7).succeeds_iff.mp (by decide),
    (hviews.read .checked 8 0).succeeds_iff.mpr (by decide),
    mt (hviews.cString .masked 11).succeeds_iff.mp ?_⟩
  have hstart : startOf endless.size .masked 11 = 3 := by decide
  have hbytes : ∀ j < endless.size, 3 ≤ j → endless.byteAt j ≠ 0 := by decide
  rintro ⟨-, j, hlow, hhigh, hzero⟩
  exact hbytes j hhigh (hstart ▸ hlow) hzero

end SandboxVm.Proofs.HostMemory
