import SandboxVm.Proofs.ArenaLayout

namespace SandboxVm.Proofs.BlockCopy

open SandboxVm.Proofs.ArenaLayout

/-! ### The bytes of an arena -/

section

variable (a : Arena)

theorem byteAt_eq (j : Nat) : a.byteAt j = a.bytes.data[j]?.getD 0 := by
  unfold Arena.byteAt
  split
  · rename_i h
    rw [Array.getElem?_eq_getElem (by exact h)]
    rfl
  · rename_i h
    rw [Array.getElem?_eq_none (by exact Nat.le_of_not_lt h)]
    rfl

theorem data_setByte (i : Nat) (b : UInt8) :
    (a.setByte i b).bytes.data = a.bytes.data.setIfInBounds i b := by
  unfold Arena.setByte Array.setIfInBounds
  simp only [ByteArray.size_data]
  split
  · rfl
  · rfl

theorem byteAt_setByte {i : Nat} (hi : i < a.size) (b : UInt8) (j : Nat) :
    (a.setByte i b).byteAt j = if j = i then b else a.byteAt j := by
  rw [byteAt_eq, byteAt_eq, data_setByte, Array.getElem?_setIfInBounds]
  by_cases hij : i = j
  · subst hij
    have hsize : i < a.bytes.size := hi
    simp [hsize]
  · simp [hij, Ne.symm hij]

theorem data_overwrite (start : Nat) (bytes : ByteArray) :
    (a.overwrite start bytes).bytes.data = a.bytes.data.extract 0 start ++ bytes.data ++
      a.bytes.data.extract (start + bytes.size) a.size := by
  have hcopy : (a.overwrite start bytes).bytes.data = a.bytes.data.extract 0 start ++
      bytes.data.extract 0 (0 + bytes.size) ++
      a.bytes.data.extract (start + min bytes.size (bytes.data.size - 0)) a.bytes.data.size := rfl
  rw [hcopy, Nat.zero_add, Nat.sub_zero, ByteArray.size_data, ByteArray.size_data, Nat.min_self,
    ← ByteArray.size_data, Array.extract_size]
  rfl

theorem byteAt_overwrite {start : Nat} {bytes : ByteArray} (h : start + bytes.size ≤ a.size)
    (j : Nat) : (a.overwrite start bytes).byteAt j =
      if start ≤ j ∧ j < start + bytes.size then bytes.data[j - start]?.getD 0 else a.byteAt j := by
  have hsize : a.bytes.data.size = a.size := rfl
  have hblock : bytes.data.size = bytes.size := rfl
  rw [byteAt_eq, byteAt_eq, data_overwrite, Array.getElem?_append, Array.getElem?_append,
    Array.getElem?_extract, Array.getElem?_extract]
  simp only [Array.size_append, Array.size_extract, hsize, hblock]
  rcases Nat.lt_or_ge j start with hbefore | hfrom
  · rw [if_pos (by omega), if_pos (by omega), if_pos (by omega), if_neg (by omega), Nat.zero_add]
  · rcases Nat.lt_or_ge j (start + bytes.size) with hinside | hbehind
    · have hindex : j - (min start a.size - 0) = j - start := by omega
      rw [if_pos (by omega), if_neg (by omega), hindex, if_pos ⟨hfrom, hinside⟩]
    · have hindex : start + bytes.size + (j - (min start a.size - 0 + bytes.size)) = j := by omega
      rw [if_neg (by omega), hindex, if_neg (c := start ≤ j ∧ j < start + bytes.size) (by omega)]
      split
      · rfl
      · rw [Array.getElem?_eq_none (by omega)]

theorem byteAt_overwrite_extract {start origin n : Nat} (hstart : start + n ≤ a.size)
    (horigin : origin + n ≤ a.size) (j : Nat) :
    (a.overwrite start (a.bytes.extract origin (origin + n))).byteAt j =
      if start ≤ j ∧ j < start + n then a.byteAt (origin + (j - start)) else a.byteAt j := by
  have hsize : a.bytes.data.size = a.size := rfl
  have hblock : (a.bytes.extract origin (origin + n)).size = n := by
    rw [ByteArray.size_extract]
    simp only [Arena.size] at horigin
    omega
  rw [byteAt_overwrite a (hblock.symm ▸ hstart), hblock]
  split
  · rw [byteAt_eq, ByteArray.data_extract, Array.getElem?_extract, if_pos (by omega)]
  · rfl

end

/-! ### Around the end of the arena -/

theorem add_mod_inj {size x i j : Nat} (hi : i < size) (hj : j < size)
    (h : (x + i) % size = (x + j) % size) : i = j := by
  have hmod : i % size = j % size := Nat.ModEq.add_left_cancel' x h
  rwa [Nat.mod_eq_of_lt hi, Nat.mod_eq_of_lt hj] at hmod

/-- After one byte has been copied, the sources of the others are where they were, but for
the one that the copied byte has replaced. -/
theorem byteAt_next_source {a : Arena} {dest src lag : Nat} (hlag : lag < a.size)
    (hdest : (src + lag) % a.size = dest % a.size) (i : Nat) :
    (if (src + 1 + i % lag) % a.size = dest % a.size then a.byteAt (src % a.size)
      else a.byteAt ((src + 1 + i % lag) % a.size)) =
        a.byteAt ((src + (i + 1) % lag) % a.size) := by
  rcases Nat.eq_zero_or_pos lag with rfl | hpos
  · rw [Nat.add_zero] at hdest
    rw [Nat.mod_zero, Nat.mod_zero, show src + 1 + i = src + (i + 1) by omega]
    split
    · rename_i heq
      rw [heq, hdest]
    · rfl
  · have hmod : (i + 1) % lag = (i % lag + 1) % lag := (Nat.mod_add_mod i lag 1).symm
    have hlt := Nat.mod_lt i hpos
    rw [hmod, show src + 1 + i % lag = src + (i % lag + 1) by omega]
    rcases Nat.lt_or_ge (i % lag + 1) lag with hbelow | hlast
    · rw [Nat.mod_eq_of_lt hbelow, if_neg]
      intro heq
      have := add_mod_inj (by omega) hlag (heq.trans hdest.symm)
      omega
    · have hend : i % lag + 1 = lag := by omega
      rw [hend, if_pos hdest, Nat.mod_self, Nat.add_zero]

/-- Where the destination lies `lag` bytes behind the source, the copy repeats the first
`lag` bytes of the source. -/
theorem copyAround_byteAt (a : Arena) (dest src : Nat) {lag n : Nat} (hlag : lag < a.size)
    (hdest : (src + lag) % a.size = dest % a.size) (hn : n ≤ a.size) :
    (∀ i < n, (a.copyAround dest src n).byteAt ((dest + i) % a.size) =
      a.byteAt ((src + i % lag) % a.size)) ∧
    ∀ j, (∀ i < n, j ≠ (dest + i) % a.size) → (a.copyAround dest src n).byteAt j = a.byteAt j := by
  have hpos : 0 < a.size := Nat.zero_lt_of_lt hlag
  induction n generalizing a dest src with
  | zero => exact ⟨fun i hi => absurd hi (Nat.not_lt_zero i), fun j _ => rfl⟩
  | succ n ih =>
      let first := a.setByte (dest % a.size) (a.byteAt (src % a.size))
      have hsize : first.size = a.size := size_setByte ..
      have hfirst : ∀ j, first.byteAt j =
          if j = dest % a.size then a.byteAt (src % a.size) else a.byteAt j :=
        byteAt_setByte a (Nat.mod_lt _ hpos) _
      have hnext : (src + 1 + lag) % a.size = (dest + 1) % a.size := by
        rw [Nat.add_right_comm]
        exact Nat.ModEq.add_right 1 hdest
      obtain ⟨hblock, hrest⟩ := ih first (dest + 1) (src + 1)
        (hsize.symm ▸ hlag) (by rw [hsize]; exact hnext) (by omega) (hsize.symm ▸ hpos)
      rw [hsize] at hblock hrest
      have hcopy : a.copyAround dest src (n + 1) = first.copyAround (dest + 1) (src + 1) n := rfl
      rw [hcopy]
      constructor
      · intro i hi
        cases i with
        | zero =>
            simp only [Nat.zero_mod, Nat.add_zero]
            rw [hrest, hfirst, if_pos rfl]
            intro i' hi' heq
            have := add_mod_inj (x := dest) (j := 1 + i') hpos (by omega)
              (by rwa [← Nat.add_assoc])
            omega
        | succ i =>
            rw [show dest + (i + 1) = dest + 1 + i by omega, hblock i (by omega), hfirst]
            exact byteAt_next_source hlag hdest i
      · intro j hj
        rw [hrest, hfirst, if_neg]
        · exact hj 0 (by omega)
        · intro i hi
          have := hj (i + 1) (by omega)
          rwa [show dest + (i + 1) = dest + 1 + i by omega] at this

/-! ### Blocks at addresses -/

/-- Where a number of bytes from the start of an arena leads, around its end. -/
def around (size : Nat) (x : Int) : Nat := (x % size).toNat

def blockOffset (size : Nat) (addr : Word) (i : Nat) : Nat := around size (addr.toInt + i)

/-- How far the destination lies behind the source. -/
def blockLag (size : Nat) (dest src : Word) : Nat := around size (dest.toInt - src.toInt)

def blockLength (size : Nat) (len : Word) : Nat := min len.toUInt32.toNat size

def BlockFits (size : Nat) (addr : Word) (n : Nat) : Prop := blockOffset size addr 0 + n ≤ size

instance (size : Nat) (addr : Word) (n : Nat) : Decidable (BlockFits size addr n) :=
  inferInstanceAs (Decidable (_ ≤ _))

/-- Both blocks fit, or the destination does not begin inside the source behind its first byte. -/
def Movable (size : Nat) (dest src len : Word) : Prop :=
  (BlockFits size dest (blockLength size len) ∧ BlockFits size src (blockLength size len)) ∨
    blockLag size dest src = 0 ∨ blockLength size len ≤ blockLag size dest src

instance (size : Nat) (dest src len : Word) : Decidable (Movable size dest src len) :=
  inferInstanceAs (Decidable (_ ∨ _))

/-- The arena `a'` is `a` with a block of `n` bytes at `dest`: byte `i` of it is the one that
byte `source i` of the block at `src` was. -/
structure Copied (a a' : Arena) (dest src : Word) (n : Nat) (source : Nat → Nat) : Prop where
  size : a'.size = a.size
  block : ∀ i < n,
    a'.byteAt (blockOffset a.size dest i) = a.byteAt (blockOffset a.size src (source i))
  rest : ∀ j, (∀ i < n, j ≠ blockOffset a.size dest i) → a'.byteAt j = a.byteAt j

section

variable {k : Nat}

theorem toInt_emod (hk : k ≤ 31) (addr : Word) :
    addr.toInt % ((2 ^ k : Nat) : Int) = ((addr.toUInt32.toNat % 2 ^ k : Nat) : Int) := by
  have hdvd : ((2 ^ k : Nat) : Int) ∣ ((2 ^ 32 : Nat) : Int) :=
    Int.natCast_dvd_natCast.mpr (Nat.pow_dvd_pow 2 (by omega))
  have hbmod : addr.toInt = (addr.toUInt32.toNat : Int).bmod (2 ^ 32) :=
    BitVec.toInt_eq_toNat_bmod _
  rw [← Int.emod_emod_of_dvd addr.toInt hdvd, hbmod, Int.bmod_emod, Int.emod_emod_of_dvd _ hdvd,
    Int.natCast_emod]

theorem offset_one {a : Arena} (ha : a.size = 2 ^ k) (hk : k ≤ 31) (addr : Word) :
    Arena.offset a.mask addr .one = blockOffset (2 ^ k) addr 0 := by
  have hmask : a.mask.toNat = 2 ^ k - 1 := by
    have hle : 2 ^ k ≤ 2 ^ 31 := Nat.pow_le_pow_right (by omega) hk
    rw [Arena.mask, UInt32.toNat_ofNat', ha]
    exact Nat.mod_eq_of_lt (by omega)
  have hnot : (~~~(UInt32.ofNat (Width.bytes .one) - 1)).toNat = 2 ^ 32 - 1 := by decide
  have hlt : addr.toUInt32.toNat % 2 ^ k < 2 ^ 32 :=
    Nat.lt_of_le_of_lt (Nat.mod_le _ _) addr.toUInt32.toNat_lt
  rw [blockOffset, Int.natCast_zero, Int.add_zero, around, toInt_emod hk, Int.toNat_natCast,
    Arena.offset, UInt32.toNat_and, UInt32.toNat_and, hmask, hnot, Nat.and_two_pow_sub_one_eq_mod,
    Nat.and_two_pow_sub_one_eq_mod, Nat.mod_eq_of_lt hlt]

theorem around_lt {size : Nat} (hpos : 0 < size) (x : Int) : around size x < size := by
  have := Int.emod_nonneg x (Int.natCast_pos.mpr hpos).ne'
  have := Int.emod_lt_of_pos x (Int.natCast_pos.mpr hpos)
  rw [around]
  omega

theorem around_add {size : Nat} (hpos : 0 < size) (x y : Int) :
    around size (x + y) = (around size x + around size y) % size := by
  have hx := Int.toNat_of_nonneg (Int.emod_nonneg x (Int.natCast_pos.mpr hpos).ne')
  have hy := Int.toNat_of_nonneg (Int.emod_nonneg y (Int.natCast_pos.mpr hpos).ne')
  have hadd : (x + y) % (size : Int) = ((around size x + around size y) % size : Nat) := by
    rw [Int.natCast_emod, Int.natCast_add, around, around, hx, hy, ← Int.add_emod]
  rw [around, hadd, Int.toNat_natCast]

theorem blockOffset_eq {size : Nat} (hpos : 0 < size) (addr : Word) (i : Nat) :
    blockOffset size addr i = (blockOffset size addr 0 + i) % size := by
  have hi : around size (i : Int) = i % size := by
    rw [around, ← Int.natCast_emod, Int.toNat_natCast]
  rw [blockOffset, around_add hpos, hi, Nat.add_mod_mod, blockOffset, Int.natCast_zero,
    Int.add_zero]

theorem add_blockLag {size : Nat} (hpos : 0 < size) (dest src : Word) :
    (blockOffset size src 0 + blockLag size dest src) % size = blockOffset size dest 0 := by
  rw [blockOffset, blockLag, ← around_add hpos, blockOffset]
  congr 1
  omega

end

/-- Where byte `i` of the destination comes from. -/
def sourceIndex (size : Nat) (dest src len : Word) (i : Nat) : Nat :=
  if BlockFits size dest (blockLength size len) ∧ BlockFits size src (blockLength size len) then i
  else i % blockLag size dest src

section

variable {k : Nat} {a : Arena} {dest src : Word} {n : Nat}

theorem overwrite_copied (hdest : BlockFits a.size dest n) (hsrc : BlockFits a.size src n) :
    Copied a (a.overwrite (blockOffset a.size dest 0) (a.bytes.extract (blockOffset a.size src 0)
      (blockOffset a.size src 0 + n))) dest src n fun i => i := by
  have hoffset : ∀ {addr : Word} {i : Nat}, BlockFits a.size addr n → i < n →
      blockOffset a.size addr i = blockOffset a.size addr 0 + i := by
    intro addr i hfits hi
    rw [BlockFits] at hfits
    rw [blockOffset_eq (by omega), Nat.mod_eq_of_lt (by omega)]
  refine ⟨?_, ?_, ?_⟩
  · apply size_overwrite
    rw [ByteArray.size_extract]
    rw [BlockFits] at hdest
    omega
  · intro i hi
    rw [byteAt_overwrite_extract a hdest hsrc, hoffset hdest hi, hoffset hsrc hi,
      if_pos (by omega), Nat.add_sub_cancel_left]
  · intro j hj
    rw [byteAt_overwrite_extract a hdest hsrc, if_neg]
    rintro ⟨hle, hlt⟩
    refine hj (j - blockOffset a.size dest 0) (by omega) ?_
    rw [hoffset hdest (by omega)]
    omega

theorem copyAround_copied (hpos : 0 < a.size) (hn : n ≤ a.size) :
    Copied a (a.copyAround (blockOffset a.size dest 0) (blockOffset a.size src 0) n) dest src n
      fun i => i % blockLag a.size dest src := by
  have hlt : blockLag a.size dest src < a.size := around_lt hpos _
  have hlag : (blockOffset a.size src 0 + blockLag a.size dest src) % a.size =
      blockOffset a.size dest 0 % a.size := by
    rw [add_blockLag hpos]
    exact (Nat.mod_eq_of_lt (around_lt hpos _)).symm
  obtain ⟨hblock, hrest⟩ := copyAround_byteAt a _ _ hlt hlag hn
  refine ⟨size_copyAround .., ?_, ?_⟩
  · intro i hi
    rw [blockOffset_eq hpos dest i, blockOffset_eq hpos src (i % _), hblock i hi]
  · intro j hj
    exact hrest j fun i hi => blockOffset_eq hpos dest i ▸ hj i hi

theorem blockCopy_copied (hk : k ≤ 31) (ha : a.size = 2 ^ k) (dest src len : Word) :
    Copied a (a.blockCopy dest src len) dest src (blockLength (2 ^ k) len)
      (sourceIndex (2 ^ k) dest src len) := by
  have hpos : 0 < a.size := ha ▸ Nat.two_pow_pos k
  have hn : blockLength a.size len ≤ a.size := Nat.min_le_right ..
  have hcopy : a.blockCopy dest src len =
      if BlockFits a.size dest (blockLength a.size len) ∧
          BlockFits a.size src (blockLength a.size len) then
        a.overwrite (blockOffset a.size dest 0) (a.bytes.extract (blockOffset a.size src 0)
          (blockOffset a.size src 0 + blockLength a.size len))
      else a.copyAround (blockOffset a.size dest 0) (blockOffset a.size src 0)
        (blockLength a.size len) := by
    simp only [Arena.blockCopy, offset_one ha hk, ← ha]
    rfl
  rw [hcopy, ← ha]
  unfold sourceIndex
  split
  · rename_i hfits
    exact overwrite_copied hfits.1 hfits.2
  · exact copyAround_copied hpos hn

theorem sourceIndex_eq {len : Word} {i : Nat} (hi : i < blockLength (2 ^ k) len)
    (h : Movable (2 ^ k) dest src len) :
    sourceIndex (2 ^ k) dest src len i = i := by
  unfold sourceIndex
  split
  · rfl
  · rename_i hwraps
    rcases h with hfits | hzero | hlong
    · exact absurd hfits hwraps
    · rw [hzero, Nat.mod_zero]
    · exact Nat.mod_eq_of_lt (by omega)

theorem exists_arena {size i j : Nat} (hj : j < size) (hne : i ≠ j) :
    ∃ a : Arena, a.size = size ∧ a.byteAt i ≠ a.byteAt j := by
  let blank : Arena := ⟨⟨Array.replicate size 0⟩⟩
  have hblank : blank.size = size := Array.size_replicate
  refine ⟨blank.setByte j 1, (size_setByte ..).trans hblank, ?_⟩
  have hzero : blank.byteAt i = 0 := by
    rw [byteAt_eq]
    simp only [blank, Array.getElem?_replicate]
    split <;> rfl
  rw [byteAt_setByte _ (hblank.symm ▸ hj), byteAt_setByte _ (hblank.symm ▸ hj), if_neg hne,
    if_pos rfl, hzero]
  decide

/-- The copy is a move in every arena of a size exactly if the blocks are movable. -/
theorem blockCopy_moves_iff (hk : k ≤ 31) (dest src len : Word) :
    (∀ a : Arena, a.size = 2 ^ k →
      Copied a (a.blockCopy dest src len) dest src (blockLength (2 ^ k) len) fun i => i) ↔
    Movable (2 ^ k) dest src len := by
  have hpos : 0 < 2 ^ k := Nat.two_pow_pos k
  constructor
  · intro hmoves
    by_contra hnot
    obtain ⟨hwraps, hrest⟩ := not_or.mp hnot
    obtain ⟨hlag, hlong⟩ := not_or.mp hrest
    -- The byte at the start of the destination is overwritten before it is copied.
    have hlt : blockLag (2 ^ k) dest src < 2 ^ k := around_lt hpos _
    have hne : blockOffset (2 ^ k) src 0 ≠ blockOffset (2 ^ k) src (blockLag (2 ^ k) dest src) := by
      intro heq
      have hfirst := blockOffset_eq hpos src 0
      have hlater := blockOffset_eq hpos src (blockLag (2 ^ k) dest src)
      exact hlag (add_mod_inj hpos hlt (hfirst.symm.trans (heq.trans hlater))).symm
    obtain ⟨a, ha, hbytes⟩ := exists_arena (around_lt hpos _) hne
    have hmoved := (hmoves a ha).block (blockLag (2 ^ k) dest src) (by omega)
    have hcopied := (blockCopy_copied hk ha dest src len).block
      (blockLag (2 ^ k) dest src) (by omega)
    rw [sourceIndex, if_neg hwraps, Nat.mod_self, ha] at hcopied
    rw [ha] at hmoved
    exact hbytes (hcopied.symm.trans hmoved)
  · intro h a ha
    have hcopied := blockCopy_copied hk ha dest src len
    refine ⟨hcopied.size, ?_, hcopied.rest⟩
    intro i hi
    rw [hcopied.block i hi, sourceIndex_eq hi h]

/-- What a copy does to an arena, and when it is a move in all arenas of a size. -/
theorem blockCopy_exact (hk : k ≤ 31) (dest src len : Word) :
    (∀ a : Arena, a.size = 2 ^ k →
      Copied a (a.blockCopy dest src len) dest src (blockLength (2 ^ k) len)
        (sourceIndex (2 ^ k) dest src len)) ∧
    ((∀ a : Arena, a.size = 2 ^ k →
      Copied a (a.blockCopy dest src len) dest src (blockLength (2 ^ k) len) fun i => i) ↔
    Movable (2 ^ k) dest src len) :=
  ⟨fun _ ha => blockCopy_copied hk ha dest src len, blockCopy_moves_iff hk dest src len⟩

/-- Of four bytes, the last two are copied to the last place and the first, where the first of
them comes twice. -/
theorem blockCopy_exact_four : (2 ≤ 31) ∧ (Arena.mk ⟨#[1, 2, 3, 4]⟩).size = 2 ^ 2 ∧
    Copied ⟨⟨#[1, 2, 3, 4]⟩⟩ (Arena.blockCopy ⟨⟨#[1, 2, 3, 4]⟩⟩ 3 2 2) 3 2 2 (· % 1) := by
  refine ⟨by decide, rfl, ?_⟩
  have hcopied := (blockCopy_exact (k := 2) (by decide) 3 2 2).1 ⟨⟨#[1, 2, 3, 4]⟩⟩ rfl
  have hlength : blockLength (2 ^ 2) 2 = 2 := by decide
  have hsource : sourceIndex (2 ^ 2) 3 2 2 = (· % 1) := by
    funext i
    rw [sourceIndex, if_neg (by decide), show blockLag (2 ^ 2) 3 2 = 1 by decide]
  rwa [hlength, hsource] at hcopied

/-- A block of eight bytes that goes around the end, to two bytes behind its source, is not
moved. -/
theorem blockCopy_not_move : ¬ ∀ (k : Nat) (a : Arena) (dest src len : Word), k ≤ 31 →
    a.size = 2 ^ k →
      Copied a (a.blockCopy dest src len) dest src (blockLength (2 ^ k) len) fun i => i := by
  intro hmoves
  have hall := (blockCopy_moves_iff (k := 16) (by decide) 65534 65532 8).mp
    fun a ha => hmoves 16 a 65534 65532 8 (by decide) ha
  revert hall
  decide

end

end SandboxVm.Proofs.BlockCopy
