import SandboxVm.Module
import SandboxVm.Opcode

/-!
The memory of an instance. Module code reaches it through masked and aligned
addresses only; the host through range-checked ones.
-/

namespace SandboxVm

/-- The memory of an instance: bytes whose number is a power of two. -/
structure Arena where
  bytes : ByteArray

namespace Arena

def size (a : Arena) : Nat := a.bytes.size

/-- The mask that takes an address into the arena. -/
def mask (a : Arena) : UInt32 := UInt32.ofNat (a.size - 1)

/-- The byte at an offset; zero outside the arena. -/
def byteAt (a : Arena) (i : Nat) : UInt8 :=
  if h : i < a.bytes.size then a.bytes[i] else 0

/-- Replace the byte at an offset; nothing happens outside the arena. -/
def setByte (a : Arena) (i : Nat) (b : UInt8) : Arena :=
  if h : i < a.bytes.size then ⟨a.bytes.set i b h⟩ else a

/-- A block of `2 ^ k` zero bytes. -/
def zeros : (k : Nat) → ByteArray
  | 0 => ⟨#[0]⟩
  | k + 1 => let half := zeros k; half ++ half

/-- An arena of zero bytes, if the size is a power of two. -/
def zeroed? (size : Nat) : Option Arena :=
  if size = 1 <<< size.log2 then some ⟨zeros size.log2⟩ else none

/-- The least exponent whose power of two is at least `n`. -/
def ceilLog2 (n : Nat) : Nat :=
  if n ≤ 1 then 0 else (n - 1).log2 + 1

/-- Put bytes in place of those from an offset on. What reaches beyond the arena is dropped. -/
def overwrite (a : Arena) (start : Nat) (bytes : ByteArray) : Arena :=
  ⟨bytes.copySlice 0 a.bytes start bytes.size⟩

/-- The size of the arena of a module's instances: its static data and the
program stack, rounded up to a power of two. -/
def sizeFor (m : Module) : Nat := 1 <<< ceilLog2 (m.staticSize + programStackSize)

/-- The fresh arena of an instance: the module's data, then zeros. -/
def ofModule (m : Module) : Arena :=
  overwrite ⟨zeros (ceilLog2 (m.staticSize + programStackSize))⟩ 0 ⟨m.data.toArray⟩

/-- Overwrite bytes that lie inside the arena as a whole. -/
def overwrite? (a : Arena) (start : Nat) (bytes : ByteArray) : Option Arena :=
  if start + bytes.size ≤ a.size then some (a.overwrite start bytes) else none

/-- What making the arena of a module logs. -/
def allocatedRecord (m : Module) : LogRecord :=
  ⟨.debug, m.name ++ ": allocated " ++ Text.hex (sizeFor m) ++ " bytes of memory"⟩

/-- The offset of an access: the address masked into the arena and aligned down
to the width. -/
def offset (mask : UInt32) (addr : Word) (width : Width) : Nat :=
  (addr.toUInt32 &&& mask &&& ~~~(UInt32.ofNat width.bytes - 1)).toNat

/-- The offset of an access, provided that the width fits in the arena. -/
def offset? (mask : UInt32) (addr : Word) (width : Width) : Option Nat :=
  if width.bytes ≤ (mask + 1).toNat then some (offset mask addr width) else none

/-- Load a value, extended with zeros to a word. -/
def load (a : Arena) (width : Width) (addr : Word) : Word :=
  let i := offset a.mask addr width
  match width with
  | .one => Word.ofBytes (a.byteAt i) 0 0 0
  | .two => Word.ofBytes (a.byteAt i) (a.byteAt (i + 1)) 0 0
  | .four => Word.ofBytes (a.byteAt i) (a.byteAt (i + 1)) (a.byteAt (i + 2)) (a.byteAt (i + 3))

/-- Store the low bytes of a word. -/
def store (a : Arena) (width : Width) (addr value : Word) : Arena :=
  let i := offset a.mask addr width
  let u := value.toUInt32
  match width with
  | .one => a.setByte i u.toUInt8
  | .two => (a.setByte i u.toUInt8).setByte (i + 1) (u >>> 8).toUInt8
  | .four =>
    (((a.setByte i u.toUInt8).setByte (i + 1) (u >>> 8).toUInt8).setByte (i + 2)
      (u >>> 16).toUInt8).setByte (i + 3) (u >>> 24).toUInt8

/-- Copy `n` bytes one at a time, in ascending order, around the end of the arena. -/
def copyAround (a : Arena) (dest src : Nat) : (n : Nat) → Arena
  | 0 => a
  | n + 1 =>
    let a := a.setByte (dest % a.size) (a.byteAt (src % a.size))
    copyAround a (dest + 1) (src + 1) n

/-- Copy a block of at most the size of the arena. A block that fits moves as a
whole; one that runs over the end goes around it byte by byte. -/
def blockCopy (a : Arena) (dest src len : Word) : Arena :=
  let d := offset a.mask dest .one
  let s := offset a.mask src .one
  let n := min len.toUInt32.toNat a.size
  if d + n ≤ a.size ∧ s + n ≤ a.size then a.overwrite d (a.bytes.extract s (s + n))
  else a.copyAround d s n

end Arena

/-- How the host reaches into an arena. -/
inductive HostAccess where
  /-- The start address is masked, as the module's own accesses are. -/
  | masked
  /-- The start address is taken as it is. -/
  | checked
  deriving DecidableEq

/-- A host access outside the arena. -/
structure AccessError where
  address : UInt32
  length : Nat
  deriving DecidableEq

/-- The message of a refused access, with the address as the host gave it. -/
def AccessError.message (e : AccessError) : String :=
  "out of bounds memory access of " ++ toString e.length ++ " bytes at "
    ++ Text.hex e.address.toNat

/-- A change of bytes in place: what they become depends on what they are, their number
stays. -/
structure ByteUpdate where
  apply : ByteArray → ByteArray
  size_apply : ∀ bytes, (apply bytes).size = bytes.size

/-- Set every byte to the same value. -/
def ByteUpdate.fill (b : UInt8) : ByteUpdate where
  apply bytes := ⟨Array.replicate bytes.size b⟩
  size_apply _ := Array.size_replicate

namespace Arena

/-- The offset where a host access starts, which need not lie in the arena. -/
def hostStart (a : Arena) (access : HostAccess) (addr : Word) : Nat :=
  match access with
  | .masked => (addr.toUInt32 &&& a.mask).toNat
  | .checked => addr.toUInt32.toNat

/-- The start of a host access that lies inside the arena as a whole. -/
def hostRange (a : Arena) (access : HostAccess) (addr : Word) (len : Nat) :
    Except AccessError Nat :=
  let start := a.hostStart access addr
  if start + len ≤ a.size then .ok start
  else .error ⟨addr.toUInt32, min len 0xffffffff⟩

/-- Read bytes for the host, all of them or none. -/
def hostRead (a : Arena) (access : HostAccess) (addr : Word) (len : Nat) :
    Except AccessError ByteArray :=
  (a.hostRange access addr len).map fun start => a.bytes.extract start (start + len)

/-- Write bytes for the host: all of them or none. -/
def hostWrite (a : Arena) (access : HostAccess) (addr : Word) (bytes : ByteArray) :
    Except AccessError Unit × Arena :=
  match a.hostRange access addr bytes.size with
  | .ok start => (.ok (), a.overwrite start bytes)
  | .error e => (.error e, a)

/-- Change bytes in place for the host. -/
def hostUpdate (a : Arena) (access : HostAccess) (addr : Word) (len : Nat) (f : ByteUpdate) :
    Except AccessError Unit × Arena :=
  match a.hostRead access addr len with
  | .ok old => a.hostWrite access addr (f.apply old)
  | .error e => (.error e, a)

/-- Read a word for the host. Its address need not be aligned. -/
def hostReadWord (a : Arena) (access : HostAccess) (addr : Word) : Except AccessError Word :=
  (a.hostRead access addr 4).map Word.ofByteArray

/-- Write a word for the host. Its address need not be aligned. -/
def hostWriteWord (a : Arena) (access : HostAccess) (addr value : Word) :
    Except AccessError Unit × Arena :=
  a.hostWrite access addr (Word.toByteArray value)

/-- The first zero byte at or after an offset. -/
def findZero? (a : Arena) (i : Nat) : Option Nat :=
  if i < a.size then
    if a.byteAt i = 0 then some i else findZero? a (i + 1)
  else none
termination_by a.size - i

/-- The bytes in front of the first zero byte at or after an address. -/
def hostCString (a : Arena) (access : HostAccess) (addr : Word) :
    Except AccessError ByteArray := do
  let start ← a.hostRange access addr 0
  match a.findZero? start with
  | some stop => .ok (a.bytes.extract start stop)
  | none => .error ⟨addr.toUInt32, a.size - start⟩

end Arena

end SandboxVm
