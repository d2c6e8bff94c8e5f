import Mathlib
import SandboxVm.Proofs.HeaderBounds
import SandboxVm.Proofs.RunInvariant

namespace SandboxVm.Proofs.ArenaLayout

open SandboxVm.Proofs.LoadedModule
open SandboxVm.Proofs.MachineRun
open SandboxVm.Proofs.RunInvariant
open SandboxVm.Proofs.VerificationScan
open SandboxVm.Proofs.HeaderBounds

theorem toInt_sub_exact {x y : Word} (hlow : -2 ^ 31 ≤ x.toInt - y.toInt)
    (hhigh : x.toInt - y.toInt < 2 ^ 31) : (x - y).toInt = x.toInt - y.toInt := by
  rw [Int32.toInt_sub]
  exact Int.bmod_eq_of_le (by omega) (by omega)

theorem toInt_add_exact {x y : Word} (hlow : -2 ^ 31 ≤ x.toInt + y.toInt)
    (hhigh : x.toInt + y.toInt < 2 ^ 31) : (x + y).toInt = x.toInt + y.toInt := by
  rw [Int32.toInt_add]
  exact Int.bmod_eq_of_le (by omega) (by omega)

theorem size_zeros (k : Nat) : (Arena.zeros k).size = 2 ^ k := by
  induction k with
  | zero => rfl
  | succ k ih =>
      rw [Arena.zeros, ByteArray.size_append, ih, Nat.pow_succ]
      omega

theorem size_overwrite {a : Arena} {start : Nat} {bytes : ByteArray}
    (h : start + bytes.size ≤ a.size) : (a.overwrite start bytes).size = a.size := by
  obtain ⟨⟨old⟩⟩ := a
  obtain ⟨new⟩ := bytes
  change start + new.size ≤ old.size at h
  change (ByteArray.copySlice ⟨new⟩ 0 ⟨old⟩ start new.size).data.size = old.size
  simp only [ByteArray.copySlice, Array.size_append, Array.size_extract]
  omega

theorem le_two_pow_ceilLog2 (n : Nat) : n ≤ 2 ^ Arena.ceilLog2 n := by
  unfold Arena.ceilLog2
  split
  · omega
  · have := Nat.lt_log2_self (n := n - 1)
    omega

theorem size_ofModule {m : Module} (h : m.data.length ≤ m.staticSize) :
    (Arena.ofModule m).size = Arena.sizeFor m := by
  have hle := le_two_pow_ceilLog2 (m.staticSize + programStackSize)
  rw [Arena.ofModule, size_overwrite]
  · rw [Arena.sizeFor, Nat.one_shiftLeft]
    exact size_zeros _
  · change 0 + m.data.toArray.size ≤ (Arena.zeros _).size
    rw [size_zeros, List.size_toArray]
    omega

section

variable (a : Arena)

theorem size_setByte (i : Nat) (byte : UInt8) : (a.setByte i byte).size = a.size := by
  unfold Arena.setByte
  split
  · simp only [Arena.size, ByteArray.size, ByteArray.set, Array.size_set]
  · rfl

theorem size_store (width : Width) (addr value : Word) :
    (a.store width addr value).size = a.size := by
  unfold Arena.store
  cases width <;> simp only [size_setByte]

theorem size_copyAround (dest src n : Nat) : (a.copyAround dest src n).size = a.size := by
  induction n generalizing a dest src with
  | zero => rfl
  | succ n ih =>
      rw [Arena.copyAround, ih]
      exact size_setByte ..

theorem size_blockCopy (dest src len : Word) : (a.blockCopy dest src len).size = a.size := by
  unfold Arena.blockCopy
  simp only
  split
  · rename_i hfits
    apply size_overwrite
    rw [ByteArray.size_extract]
    simp only [Arena.size] at hfits ⊢
    omega
  · exact size_copyAround ..

theorem size_hostWrite (access : HostAccess) (addr : Word) (bytes : ByteArray) :
    (a.hostWrite access addr bytes).2.size = a.size := by
  unfold Arena.hostWrite Arena.hostRange
  simp only
  split
  · rename_i hrange
    split at hrange
    · rename_i hfits
      obtain rfl := Except.ok.inj hrange
      exact size_overwrite hfits
    · cases hrange
  · rfl

end

theorem ceilLog2_le {n k : Nat} (h : n ≤ 2 ^ k) : Arena.ceilLog2 n ≤ k := by
  unfold Arena.ceilLog2
  split
  · exact Nat.zero_le _
  · have hlog : (n - 1).log2 < k := (Nat.log2_lt (by omega)).mpr (by omega)
    omega

theorem load_data {name : String} {image : Image} {m : Module}
    (h : Module.load name image = .ok m) :
    m.staticSize ≤ maxDataSize ∧ m.data.length ≤ m.staticSize := by
  simp only [Module.load, bind_eq_ok] at h
  obtain ⟨header, hheader, code, -, v, -, hm⟩ := h
  obtain rfl := Except.ok.inj hm
  constructor
  · cases hparse : Header.parse image with
    | error e =>
        rw [hparse] at hheader
        cases hheader
    | ok header' =>
        rw [hparse] at hheader
        obtain rfl := Except.ok.inj hheader
        exact staticSize_le hparse
  · simp only [Module.staticSize, Header.staticSize, Header.dataRegion, List.length_take]
    omega

/-- The size of the arena of an instance and what it leaves for static data. -/
structure Layout (m : Module) (size : Nat) (bottom : Word) : Prop where
  power : ∃ k, size = 2 ^ k
  fits : m.staticSize + programStackSize ≤ size
  least : ∀ k, m.staticSize + programStackSize ≤ 2 ^ k → size ≤ 2 ^ k
  bounded : size ≤ 2 ^ 29
  bottom_eq : bottom.toInt = (size : Int) - programStackSize
  static_le : (m.staticSize : Int) ≤ bottom.toInt

theorem Layout.room {m : Module} {size : Nat} {bottom ps n : Word} {used : Int}
    (h : Layout m size bottom) (hps : ps.toInt = size - used) (hused : 0 ≤ used)
    (hn : 0 ≤ n.toInt) (hfits : used + n.toInt ≤ programStackSize) :
    ¬ ps - n < bottom ∧ (ps - n).toInt = size - (used + n.toInt) := by
  have hbottom := h.bottom_eq
  have hstatic := h.static_le
  have hbounded := h.bounded
  have hexact : (ps - n).toInt = ps.toInt - n.toInt := toInt_sub_exact (by omega) (by omega)
  refine ⟨?_, by omega⟩
  rw [Int32.lt_iff_toInt_lt]
  omega

theorem layout_of_create {δ : Type} {name : String} {image : Image} {m : Module}
    {canCompile : Bool} {settings : Settings} {syscalls : Syscalls δ} {data : δ}
    {journal : Journal} {i : Instance δ} (hload : Module.load name image = .ok m)
    (hcreate : Instance.create canCompile settings m syscalls data journal = .ok i) :
    Layout m i.store.arena.size i.program.stackBottom ∧
      i.store.programStack.toInt = i.store.arena.size := by
  obtain ⟨hstatic, hdata⟩ := load_data hload
  obtain ⟨hprogram, -, hstack, -⟩ := create_eq_ok hcreate
  have harena : i.store.arena.size = 2 ^ Arena.ceilLog2 (m.staticSize + programStackSize) := by
    simp only [Instance.create] at hcreate
    split at hcreate
    · cases hcreate
    · obtain rfl := Except.ok.inj hcreate
      rw [size_ofModule hdata, Arena.sizeFor, Nat.one_shiftLeft]
  have hsize : (Arena.ofModule m).size = i.store.arena.size := by
    rw [size_ofModule hdata, Arena.sizeFor, Nat.one_shiftLeft, harena]
  have hfits := le_two_pow_ceilLog2 (m.staticSize + programStackSize)
  have hbounded : i.store.arena.size ≤ 2 ^ 29 := by
    rw [harena]
    refine Nat.pow_le_pow_right (by omega) (ceilLog2_le ?_)
    simp only [maxDataSize, programStackSize] at hstatic ⊢
    omega
  rw [← harena] at hfits
  have htoInt : (Int32.ofNat i.store.arena.size).toInt = i.store.arena.size :=
    Int32.toInt_ofNat_of_lt (by omega)
  have hbottom : i.program.stackBottom.toInt = (i.store.arena.size : Int) - programStackSize := by
    have hword : (Int32.ofNat programStackSize).toInt = programStackSize := by decide
    simp only [programStackSize] at hfits hword ⊢
    rw [hprogram, hsize, Int32.toInt_sub, htoInt]
    simp only [programStackSize]
    rw [hword, Int.bmod_eq_of_le (by omega) (by omega)]
  refine ⟨⟨⟨_, harena⟩, hfits, ?_, hbounded, hbottom, by omega⟩, ?_⟩
  · intro k hk
    rw [harena]
    exact Nat.pow_le_pow_right (by omega) (ceilLog2_le hk)
  · rw [hstack, hsize, htoInt]

theorem and_not_three {x : Nat} (hx : x < 2 ^ 32) (haligned : x % 4 = 0) :
    x &&& 0xfffffffc = x := by
  obtain ⟨y, rfl⟩ : ∃ y, x = y <<< 2 := ⟨x / 4, by rw [Nat.shiftLeft_eq]; omega⟩
  rw [show 0xfffffffc = (2 ^ 30 - 1) <<< 2 by decide, ← Nat.shiftLeft_and_distrib,
    Nat.and_two_pow_sub_one_eq_mod, Nat.mod_eq_of_lt]
  rw [Nat.shiftLeft_eq] at hx
  omega

theorem offset_eq {a : Arena} {addr : Word} (hpower : ∃ k, a.size = 2 ^ k) (hsize : a.size ≤ 2 ^ 29)
    (hlow : 0 ≤ addr.toInt) (hhigh : addr.toInt < a.size) (haligned : addr.toInt % 4 = 0) :
    Arena.offset a.mask addr .four = addr.toInt.toNat := by
  obtain ⟨k, hk⟩ := hpower
  have hnat : addr.toUInt32.toNat = addr.toInt.toNat := by
    rw [Int32.toNat_toUInt32_of_le (by rw [Int32.le_iff_toInt_le, Int32.toInt_zero]; exact hlow)]
    rfl
  have hmask : a.mask.toNat = 2 ^ k - 1 := by
    rw [Arena.mask, UInt32.toNat_ofNat', hk]
    exact Nat.mod_eq_of_lt (by omega)
  have hnot : (~~~(UInt32.ofNat (Width.bytes .four) - 1)).toNat = 0xfffffffc := by decide
  simp only [Arena.offset, UInt32.toNat_and, hnat, hmask, hnot]
  rw [Nat.and_two_pow_sub_one_eq_mod, Nat.mod_eq_of_lt (by omega)]
  exact and_not_three (by omega) (by omega)

end SandboxVm.Proofs.ArenaLayout
