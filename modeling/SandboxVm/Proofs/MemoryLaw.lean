import SandboxVm.Proofs.ArenaAccess
import SandboxVm.Proofs.LittleEndian

namespace SandboxVm.Proofs.MemoryLaw

open SandboxVm.Proofs.ArenaLayout
open SandboxVm.Proofs.BlockCopy
open SandboxVm.Proofs.ArenaAccess
open SandboxVm.Proofs.LittleEndian

/-- A store, of any width. -/
structure StoreAccess where
  width : Width
  addr : Word
  value : Word

def storeAll (a : Arena) : List StoreAccess → Arena
  | [] => a
  | s :: stores => storeAll (a.store s.width s.addr s.value) stores

/-- The byte that a store leaves at an offset of an arena, if it reaches it. -/
def StoreAccess.byte? (size : Nat) (s : StoreAccess) (j : Nat) : Option UInt8 :=
  if slot size s.addr s.width ≤ j ∧ j < slot size s.addr s.width + s.width.bytes then
    some (digit s.value.toUInt32.toNat (j - slot size s.addr s.width))
  else none

/-- The byte that the last of the stores which reach an offset leaves there. -/
def lastByte? (size : Nat) (stores : List StoreAccess) (j : Nat) : Option UInt8 :=
  stores.reverse.findSome? fun s => s.byte? size j

/-- As many bytes from an offset on as an access has. -/
def bytesFrom (byteAt : Nat → UInt8) (start : Nat) (width : Width) : List UInt8 :=
  (List.range width.bytes).map fun k => byteAt (start + k)

/-- What loads and stores do to the bytes of an arena. -/
structure ByteLaw (a : Arena) : Prop where
  inside : ∀ addr width, slot a.size addr width + width.bytes ≤ a.size
  lands : ∀ addr width, Arena.offset? a.mask addr width = some (slot a.size addr width)
  size_store : ∀ width addr value, (a.store width addr value).size = a.size
  store : ∀ width addr value j, (a.store width addr value).byteAt j =
    if slot a.size addr width ≤ j ∧ j < slot a.size addr width + width.bytes then
      digit value.toUInt32.toNat (j - slot a.size addr width)
    else a.byteAt j
  load : ∀ width addr, (a.load width addr).toUInt32.toNat =
    littleEndian (bytesFrom a.byteAt (slot a.size addr width) width)
  load_storeAll : ∀ stores width addr, ((storeAll a stores).load width addr).toUInt32.toNat =
    littleEndian (bytesFrom (fun j => (lastByte? a.size stores j).getD (a.byteAt j))
      (slot a.size addr width) width)
  congruent : ∀ addr addr' : Word, addr.toInt % a.size = addr'.toInt % a.size → ∀ width,
    a.load width addr = a.load width addr' ∧
      ∀ value, a.store width addr value = a.store width addr' value
  load_store : ∀ (width : Width) (addr addr' value : Word),
    slot a.size addr width = slot a.size addr' width →
      (((a.store width addr value).load width addr').toUInt32.toNat : Int) =
        value.toInt % 2 ^ (8 * width.bytes)

section

variable {a : Arena}

theorem toNat_load (a : Arena) (width : Width) (addr : Word) :
    (a.load width addr).toUInt32.toNat =
      littleEndian (bytesFrom a.byteAt (Arena.offset a.mask addr width) width) := by
  cases width with
  | one => exact (toNat_ofBytes _ 0 0 0).trans (littleEndian_zeros [_] 3)
  | two => exact (toNat_ofBytes _ _ 0 0).trans (littleEndian_zeros [_, _] 2)
  | four => exact toNat_ofBytes _ _ _ _

theorem offset?_eq (ha : Maskable a) (addr : Word) (width : Width) :
    Arena.offset? a.mask addr width = some (slot a.size addr width) := by
  have hpos := ha.size_pos
  have hwidth := Nat.le_of_dvd hpos (width_dvd_size ha width)
  have hsize : (a.mask + 1).toNat = a.size := by
    rw [UInt32.toNat_add, toNat_mask ha, UInt32.toNat_one, Nat.sub_add_cancel hpos]
    exact Nat.mod_eq_of_lt ha.size_lt
  rw [Arena.offset?, hsize, if_pos hwidth, offset_eq_slot ha]

theorem offset_congr (ha : Maskable a) {addr addr' : Word}
    (h : addr.toInt % a.size = addr'.toInt % a.size) (width : Width) :
    Arena.offset a.mask addr width = Arena.offset a.mask addr' width := by
  rw [offset_eq_slot ha, offset_eq_slot ha, slot, slot, around, around, h]

theorem byteAt_store_slot (ha : Maskable a) (width : Width) (addr value : Word) (j : Nat) :
    (a.store width addr value).byteAt j =
      if slot a.size addr width ≤ j ∧ j < slot a.size addr width + width.bytes then
        digit value.toUInt32.toNat (j - slot a.size addr width)
      else a.byteAt j := by
  rw [byteAt_store ha, offset_eq_slot ha]
  split
  · rename_i hj
    have hlt : j - slot a.size addr width < width.bytes := by omega
    have hfour : width.bytes ≤ 4 := by cases width <;> decide
    rw [List.getElem?_take_of_lt hlt, toBytes_eq_digits, List.getElem?_map,
      List.getElem?_range (by omega)]
    rfl
  · rfl

theorem maskable_store (ha : Maskable a) (width : Width) (addr value : Word) :
    Maskable (a.store width addr value) := by
  unfold Maskable
  rwa [size_store]

theorem size_storeAll (a : Arena) (stores : List StoreAccess) :
    (storeAll a stores).size = a.size := by
  induction stores generalizing a with
  | nil => rfl
  | cons s stores ih => exact (ih _).trans (size_store ..)

theorem lastByte?_cons (size : Nat) (s : StoreAccess) (stores : List StoreAccess) (j : Nat) :
    lastByte? size (s :: stores) j = (lastByte? size stores j).or (s.byte? size j) := by
  rw [lastByte?, List.reverse_cons, List.findSome?_append, lastByte?]
  congr 1
  simp

theorem byteAt_storeAll (ha : Maskable a) (stores : List StoreAccess) (j : Nat) :
    (storeAll a stores).byteAt j = (lastByte? a.size stores j).getD (a.byteAt j) := by
  induction stores generalizing a with
  | nil => rfl
  | cons s stores ih =>
      have hfirst : (a.store s.width s.addr s.value).byteAt j =
          (s.byte? a.size j).getD (a.byteAt j) := by
        rw [byteAt_store_slot ha, StoreAccess.byte?]
        split <;> rfl
      rw [storeAll, ih (maskable_store ha _ _ _), size_store, lastByte?_cons, hfirst]
      cases lastByte? a.size stores j <;> rfl

theorem toNat_load_storeAll (ha : Maskable a) (stores : List StoreAccess) (width : Width)
    (addr : Word) : ((storeAll a stores).load width addr).toUInt32.toNat =
      littleEndian (bytesFrom (fun j => (lastByte? a.size stores j).getD (a.byteAt j))
        (slot a.size addr width) width) := by
  rw [toNat_load, mask_eq_of_size (size_storeAll a stores), offset_eq_slot ha,
    funext (byteAt_storeAll ha stores)]

theorem toInt_emod_bytes (w : Word) (width : Width) :
    w.toInt % 2 ^ (8 * width.bytes) = (w.toUInt32.toNat % 256 ^ width.bytes : Nat) := by
  have hlt := w.toUInt32.toNat_lt
  rw [toInt_eq_signed, signed]
  cases width <;> simp only [Width.bytes, Nat.reduceMul, Int.reducePow, Nat.reducePow] <;>
    split <;> omega

theorem toNat_load_store (ha : Maskable a) {addr addr' : Word} {width : Width} (value : Word)
    (h : slot a.size addr width = slot a.size addr' width) :
    (((a.store width addr value).load width addr').toUInt32.toNat : Int) =
      value.toInt % 2 ^ (8 * width.bytes) := by
  have hbytes : bytesFrom (a.store width addr value).byteAt (slot a.size addr' width) width =
      (List.range width.bytes).map (digit value.toUInt32.toNat) := by
    apply List.map_congr_left
    intro k hk
    have hk := List.mem_range.mp hk
    rw [byteAt_store_slot ha, h, if_pos (by omega), Nat.add_sub_cancel_left]
  rw [toNat_load, mask_store, offset_eq_slot ha, hbytes, littleEndian_digits, toInt_emod_bytes]

theorem byteLaw (ha : Maskable a) : ByteLaw a where
  inside addr width := offset_eq_slot ha addr width ▸ offset_add_le ha addr width
  lands := offset?_eq ha
  size_store := size_store a
  store := byteAt_store_slot ha
  load width addr := offset_eq_slot ha addr width ▸ toNat_load a width addr
  load_storeAll := toNat_load_storeAll ha
  congruent addr addr' h width := by
    have hoffset := offset_congr ha h width
    exact ⟨by simp only [Arena.load, hoffset], fun value => by simp only [Arena.store, hoffset]⟩
  load_store width addr addr' value h := toNat_load_store ha value h

end

/-- Every access of module code to an arena of at least a word lands inside, and loads and
stores are no more than reading and writing the bytes there. Sizes of arenas are counted in
32 bits. -/
theorem loads_and_stores_bytewise {a : Arena} {k : Nat} (ha : a.size = 2 ^ k)
    (hleast : 4 ≤ a.size) (hcounted : a.size < 2 ^ 32) : ByteLaw a :=
  byteLaw (maskable_of_size ha hleast hcounted)

/-- A word, and then two bytes over its upper half. -/
def overlapping : List StoreAccess := [⟨.four, 8, 0x04030201⟩, ⟨.two, -5, -1⟩]

theorem loads_and_stores_bytewise_overlapping :
    (Arena.mk ⟨#[9, 9, 9, 9, 9, 9, 9, 9]⟩).size = 2 ^ 3 ∧ 4 ≤ 2 ^ 3 ∧ 2 ^ 3 < 2 ^ 32 ∧
      ((storeAll ⟨⟨#[9, 9, 9, 9, 9, 9, 9, 9]⟩⟩ overlapping).load .four (-7)).toUInt32.toNat =
        0xffff0201 := by
  have hlaw : ByteLaw ⟨⟨#[9, 9, 9, 9, 9, 9, 9, 9]⟩⟩ :=
    loads_and_stores_bytewise (k := 3) rfl (by decide) (by decide)
  refine ⟨rfl, by decide, by decide, ?_⟩
  rw [hlaw.load_storeAll]
  decide

end SandboxVm.Proofs.MemoryLaw
