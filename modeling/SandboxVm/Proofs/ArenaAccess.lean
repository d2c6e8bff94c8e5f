import SandboxVm.Proofs.BlockCopy
import SandboxVm.Proofs.InstructionCodec
import SandboxVm.Proofs.StackConfinement

namespace SandboxVm.Proofs.ArenaAccess

open SandboxVm.Proofs.HeaderBounds
open SandboxVm.Proofs.LoadedModule
open SandboxVm.Proofs.MachineRun
open SandboxVm.Proofs.RunInvariant
open SandboxVm.Proofs.EntryCall
open SandboxVm.Proofs.ArenaLayout
open SandboxVm.Proofs.BlockCopy
open SandboxVm.Proofs.StackPointer
open SandboxVm.Proofs.ProgramStack
open SandboxVm.Proofs.StackConfinement

/-- The arena has the size of that of an instance, or one like it. -/
structure Sized (a : Arena) : Prop where
  power : ∃ k, a.size = 2 ^ k
  least : 2 ^ 16 ≤ a.size
  bounded : a.size ≤ 2 ^ 29

theorem sized_of_layout {m : Module} {a : Arena} {bottom : Word} (h : Layout m a.size bottom) :
    Sized a := by
  refine ⟨h.power, ?_, h.bounded⟩
  have hfits := h.fits
  simp only [programStackSize] at hfits
  omega

theorem Sized.exponent {a : Arena} (ha : Sized a) : ∃ k, a.size = 2 ^ k ∧ 16 ≤ k ∧ k ≤ 29 := by
  obtain ⟨k, hk⟩ := ha.power
  have hleast : 2 ^ 16 ≤ 2 ^ k := hk ▸ ha.least
  have hbounded : 2 ^ k ≤ 2 ^ 29 := hk ▸ ha.bounded
  exact ⟨k, hk, (Nat.pow_le_pow_iff_right Nat.one_lt_two).mp hleast,
    (Nat.pow_le_pow_iff_right Nat.one_lt_two).mp hbounded⟩

/-- The mask of the arena takes every address into it: its size is a power of two, at least a
word, and counted in 32 bits. -/
def Maskable (a : Arena) : Prop := ∃ k, a.size = 2 ^ k ∧ 2 ≤ k ∧ k < 32

theorem maskable_of_size {a : Arena} {k : Nat} (ha : a.size = 2 ^ k) (hleast : 4 ≤ a.size)
    (hcounted : a.size < 2 ^ 32) : Maskable a := by
  rw [ha] at hleast hcounted
  have hlow : 2 ^ 2 ≤ 2 ^ k := hleast
  exact ⟨k, ha, (Nat.pow_le_pow_iff_right Nat.one_lt_two).mp hlow,
    (Nat.pow_lt_pow_iff_right Nat.one_lt_two).mp hcounted⟩

theorem Sized.maskable {a : Arena} (ha : Sized a) : Maskable a := by
  obtain ⟨k, hk, hlow, hhigh⟩ := ha.exponent
  exact ⟨k, hk, by omega, by omega⟩

theorem Maskable.size_pos {a : Arena} (ha : Maskable a) : 0 < a.size := by
  obtain ⟨k, hk, -⟩ := ha
  exact hk ▸ Nat.two_pow_pos k

theorem Maskable.size_lt {a : Arena} (ha : Maskable a) : a.size < 2 ^ 32 := by
  obtain ⟨k, hk, -, hk32⟩ := ha
  exact hk ▸ Nat.pow_lt_pow_right (by omega) hk32

theorem exists_width_exponent (width : Width) : ∃ j ≤ 2, width.bytes = 2 ^ j := by
  cases width with
  | one => exact ⟨0, by decide, rfl⟩
  | two => exact ⟨1, by decide, rfl⟩
  | four => exact ⟨2, by decide, rfl⟩

theorem width_dvd_size {a : Arena} (ha : Maskable a) (width : Width) : width.bytes ∣ a.size := by
  obtain ⟨k, hk, hlow, -⟩ := ha
  obtain ⟨j, hj, hwidth⟩ := exists_width_exponent width
  rw [hk, hwidth]
  exact Nat.pow_dvd_pow 2 (by omega)

/-- The address modulo the size of an arena, rounded down to a multiple of the width. -/
def slot (size : Nat) (addr : Word) (width : Width) : Nat :=
  around size addr.toInt / width.bytes * width.bytes

theorem and_high_bits {x j : Nat} (hx : x < 2 ^ 32) (hj : j ≤ 32) :
    x &&& (2 ^ 32 - 2 ^ j) = x / 2 ^ j * 2 ^ j := by
  have hmask : 2 ^ 32 - 2 ^ j = (2 ^ (32 - j) - 1) <<< j := by
    rw [Nat.shiftLeft_eq, Nat.sub_mul, ← Nat.pow_add, Nat.sub_add_cancel hj, Nat.one_mul]
  rw [hmask, ← Nat.shiftRight_eq_div_pow, ← Nat.shiftLeft_eq]
  apply Nat.eq_of_testBit_eq
  intro i
  simp only [Nat.testBit_and, Nat.testBit_shiftLeft, Nat.testBit_shiftRight,
    Nat.testBit_two_pow_sub_one]
  by_cases hij : j ≤ i
  · rw [Nat.add_sub_cancel' hij]
    by_cases hi : i < 32
    · simp [hij, show i - j < 32 - j by omega]
    · have hhigh : x.testBit i = false :=
        Nat.testBit_lt_two_pow (Nat.lt_of_lt_of_le hx (Nat.pow_le_pow_right (by omega) (by omega)))
      simp [hhigh]
  · simp [hij]

theorem toNat_mask {a : Arena} (ha : Maskable a) : a.mask.toNat = a.size - 1 := by
  have hlt := ha.size_lt
  rw [Arena.mask, UInt32.toNat_ofNat']
  exact Nat.mod_eq_of_lt (by omega)

theorem offset_eq_slot {a : Arena} (ha : Maskable a) (addr : Word) (width : Width) :
    Arena.offset a.mask addr width = slot a.size addr width := by
  have hmask := toNat_mask ha
  obtain ⟨k, hk, -, hk31⟩ := ha
  obtain ⟨j, hj, hwidth⟩ := exists_width_exponent width
  have hnot : (~~~(UInt32.ofNat width.bytes - 1)).toNat = 2 ^ 32 - width.bytes := by
    cases width <;> decide
  have hlt : addr.toUInt32.toNat % 2 ^ k < 2 ^ 32 :=
    Nat.lt_of_le_of_lt (Nat.mod_le _ _) addr.toUInt32.toNat_lt
  rw [slot, around, hk, toInt_emod (by omega), Int.toNat_natCast, Arena.offset, UInt32.toNat_and,
    UInt32.toNat_and, hmask, hk, hnot, Nat.and_two_pow_sub_one_eq_mod, hwidth,
    and_high_bits hlt (by omega)]

theorem offset_eq_sub {a : Arena} (ha : Maskable a) (addr : Word) (width : Width) :
    (Arena.offset a.mask addr width : Int) =
      addr.toInt % a.size - addr.toInt % width.bytes := by
  have hrem := Int.emod_emod_of_dvd addr.toInt
    (Int.natCast_dvd_natCast.mpr (width_dvd_size ha width))
  have hpos := ha.size_pos
  have hnonneg := Int.emod_nonneg addr.toInt (by omega : (a.size : Int) ≠ 0)
  have hdown := Nat.div_add_mod' (around a.size addr.toInt) width.bytes
  have haround : (around a.size addr.toInt : Int) = addr.toInt % a.size :=
    Int.toNat_of_nonneg hnonneg
  rw [← haround, ← Int.natCast_emod] at hrem
  rw [offset_eq_slot ha, slot]
  omega

theorem offset_emod_width {a : Arena} (ha : Maskable a) (addr : Word) (width : Width) :
    Arena.offset a.mask addr width % width.bytes = 0 := by
  rw [offset_eq_slot ha, slot, Nat.mul_mod_left]

theorem offset_add_le {a : Arena} (ha : Maskable a) (addr : Word) (width : Width) :
    Arena.offset a.mask addr width + width.bytes ≤ a.size := by
  have haligned := offset_emod_width ha addr width
  have hdvd := Nat.mod_eq_zero_of_dvd (width_dvd_size ha width)
  have hoffset := offset_eq_slot ha addr width
  have hlt := around_lt ha.size_pos addr.toInt
  have hdown := Nat.div_mul_le_self (around a.size addr.toInt) width.bytes
  rw [slot] at hoffset
  cases width <;> simp only [Width.bytes] at hoffset haligned hdvd hdown ⊢ <;> omega

theorem mask_eq_of_size {a b : Arena} (h : a.size = b.size) : a.mask = b.mask := by
  rw [Arena.mask, Arena.mask, h]

theorem Sized.of_size {a b : Arena} (ha : Sized a) (h : b.size = a.size) : Sized b :=
  ⟨h ▸ ha.power, h ▸ ha.least, h ▸ ha.bounded⟩

theorem mask_store (a : Arena) (width : Width) (addr value : Word) :
    (a.store width addr value).mask = a.mask := mask_eq_of_size (size_store ..)

def setBytes (a : Arena) (i : Nat) : List UInt8 → Arena
  | [] => a
  | b :: bytes => setBytes (a.setByte i b) (i + 1) bytes

theorem byteAt_setBytes {a : Arena} {i : Nat} {bytes : List UInt8}
    (h : i + bytes.length ≤ a.size) (j : Nat) :
    (setBytes a i bytes).byteAt j =
      if i ≤ j ∧ j < i + bytes.length then bytes[j - i]?.getD 0 else a.byteAt j := by
  induction bytes generalizing a i with
  | nil => exact (if_neg (by simp only [List.length_nil]; omega)).symm
  | cons b bytes ih =>
      rw [List.length_cons] at h
      rw [setBytes, ih (by rw [size_setByte]; omega), byteAt_setByte a (by omega), List.length_cons]
      rcases Nat.lt_trichotomy j i with hlt | rfl | hlt
      · rw [if_neg (by omega), if_neg (by omega), if_neg (by omega)]
      · rw [if_neg (by omega), if_pos rfl, if_pos (by omega), Nat.sub_self]
        rfl
      · rw [if_neg (c := j = i) (by omega), show j - i = j - (i + 1) + 1 by omega,
          List.getElem?_cons_succ]
        by_cases hend : j < i + (bytes.length + 1)
        · rw [if_pos (by omega), if_pos (by omega)]
        · rw [if_neg (by omega), if_neg (by omega)]

theorem store_eq_setBytes (a : Arena) (width : Width) (addr value : Word) :
    a.store width addr value =
      setBytes a (Arena.offset a.mask addr width) ((Word.toBytes value).take width.bytes) := by
  cases width <;> rfl

theorem length_lowBytes (value : Word) (width : Width) :
    ((Word.toBytes value).take width.bytes).length = width.bytes := by
  cases width <;> rfl

theorem byteAt_store {a : Arena} (ha : Maskable a) (width : Width) (addr value : Word) (j : Nat) :
    (a.store width addr value).byteAt j =
      if Arena.offset a.mask addr width ≤ j ∧ j < Arena.offset a.mask addr width + width.bytes then
        ((Word.toBytes value).take width.bytes)[j - Arena.offset a.mask addr width]?.getD 0
      else a.byteAt j := by
  have hend := offset_add_le ha addr width
  have hlength := length_lowBytes value width
  have hbytes := byteAt_setBytes (hlength.symm ▸ hend) j
  rwa [hlength, ← store_eq_setBytes] at hbytes

theorem load_congr {a b : Arena} {width : Width} {addr addr' : Word}
    (h : ∀ k < width.bytes, b.byteAt (Arena.offset b.mask addr' width + k) =
      a.byteAt (Arena.offset a.mask addr width + k)) :
    b.load width addr' = a.load width addr := by
  cases width with
  | one =>
      have h₀ := h 0 (by decide)
      simp only [Arena.load, Nat.add_zero] at h₀ ⊢
      rw [h₀]
  | two =>
      have h₀ := h 0 (by decide)
      have h₁ := h 1 (by decide)
      simp only [Arena.load, Nat.add_zero] at h₀ ⊢
      rw [h₀, h₁]
  | four =>
      have h₀ := h 0 (by decide)
      have h₁ := h 1 (by decide)
      have h₂ := h 2 (by decide)
      have h₃ := h 3 (by decide)
      simp only [Arena.load, Nat.add_zero] at h₀ ⊢
      rw [h₀, h₁, h₂, h₃]

theorem load_store {a : Arena} (ha : Maskable a) (addr value addr' : Word) :
    (a.store .four addr value).load .four addr' =
      if Arena.offset a.mask addr' .four = Arena.offset a.mask addr .four then value
      else a.load .four addr' := by
  have haligned := offset_emod_width ha addr .four
  have haligned' := offset_emod_width ha addr' .four
  simp only [Width.bytes] at haligned haligned'
  split
  · rename_i hsame
    have hbytes (k : Nat) (hk : k < 4) : (a.store .four addr value).byteAt
        (Arena.offset a.mask addr .four + k) = (Word.toBytes value)[k]?.getD 0 := by
      rw [byteAt_store ha, if_pos ⟨Nat.le_add_right _ _, Nat.add_lt_add_left hk _⟩,
        Nat.add_sub_cancel_left]
      rfl
    have hfirst := hbytes 0 (by decide)
    rw [Nat.add_zero] at hfirst
    simp only [Arena.load, mask_store, hsame]
    rw [hfirst, hbytes 1 (by decide), hbytes 2 (by decide), hbytes 3 (by decide)]
    exact congrArg UInt32.toInt32 (sum_of_bytes value.toUInt32)
  · rename_i hother
    apply load_congr
    intro k hk
    simp only [Width.bytes] at hk
    rw [mask_store, byteAt_store ha, if_neg]
    simp only [Width.bytes]
    omega

theorem load_writeAll {a : Arena} (ha : Sized a) {writes : List (Word × Word)} {addr : Word}
    (h : ∀ write ∈ writes,
      Arena.offset a.mask addr .four ≠ Arena.offset a.mask write.1 .four) :
    (writeAll a writes).load .four addr = a.load .four addr := by
  induction writes generalizing a with
  | nil => rfl
  | cons write writes ih =>
      obtain ⟨hfirst, hrest⟩ := List.forall_mem_cons.mp h
      have hsize := size_store a .four write.1 write.2
      rw [writeAll, ih (ha.of_size hsize) (by rwa [mask_store]), load_store ha.maskable,
        if_neg hfirst]

theorem offset_ne {a : Arena} (ha : Sized a) {addr addr' : Word}
    (haligned : addr.toInt % 4 = addr'.toInt % 4) (hne : addr.toInt ≠ addr'.toInt)
    (hlow : addr'.toInt - addr.toInt < a.size) (hhigh : addr.toInt - addr'.toInt < a.size) :
    Arena.offset a.mask addr .four ≠ Arena.offset a.mask addr' .four := by
  intro hsame
  have hoffset := offset_eq_sub ha.maskable addr .four
  have hoffset' := offset_eq_sub ha.maskable addr' .four
  simp only [Width.bytes] at hoffset hoffset'
  have hmod : addr.toInt % a.size = addr'.toInt % a.size := by omega
  have hdvd : (a.size : Int) ∣ addr.toInt - addr'.toInt :=
    Int.dvd_of_emod_eq_zero (Int.emod_eq_emod_iff_emod_sub_eq_zero.mp hmod)
  have hzero := Int.eq_zero_of_abs_lt_dvd hdvd (abs_lt.mpr ⟨by omega, by omega⟩)
  exact hne (Int.sub_eq_zero.mp hzero)

theorem load_addressed {a : Arena} (ha : Sized a) {addr : Word} {words : List Word}
    (hlow : 0 ≤ addr.toInt) (hhigh : addr.toInt + 4 * words.length < 2 ^ 31)
    (hlength : 4 * words.length ≤ a.size) {j : Nat} {w : Word} (hj : words[j]? = some w)
    {addr' : Word} (haddr : addr'.toInt = addr.toInt + 4 * j) :
    (writeAll a (addressed addr words)).load .four addr' = w := by
  induction words generalizing a addr j with
  | nil => cases hj
  | cons first words ih =>
      rw [List.length_cons] at hhigh hlength
      have hfour : (4 : Word).toInt = 4 := by decide
      have hnext : (addr + 4).toInt = addr.toInt + 4 := by
        rw [toInt_add_exact (by omega) (by omega), hfour]
      have hsize := size_store a .four addr first
      have hsized := ha.of_size hsize
      rw [addressed, writeAll]
      cases j with
      | zero =>
          obtain rfl : first = w := Option.some.inj hj
          obtain rfl : addr' = addr := Int32.toInt_inj.mp (by simpa using haddr)
          rw [load_writeAll hsized, load_store ha.maskable, if_pos rfl]
          intro write hwrite
          obtain ⟨i, hi, hplace⟩ := mem_addressed (by omega) (by omega) hwrite
          apply offset_ne hsized <;> omega
      | succ j =>
          rw [List.getElem?_cons_succ] at hj
          exact ih hsized (by omega) (by omega) (by omega) hj (by omega)

/-- What holds in every state of a run. -/
structure InOrder {δ : Type} (m : Module) (p : Program) (past : List (State δ Activation))
    (s : State δ Activation) : Prop where
  sound : Sound m
  image : p.image = m
  layout : Layout m s.store.arena.size p.stackBottom
  invariant : Invariant m p past s
  balanced : Balanced m p.stackBottom s.store.arena.size past s

theorem inOrder_of_run {δ : Type} {name : String} {image : Image} {m : Module} {canCompile : Bool}
    {settings : Settings} {syscalls : Syscalls δ} {data : δ} {journal : Journal} {i : Instance δ}
    {past : List (State δ Activation)} {s : State δ Activation}
    (hload : Module.load name image = .ok m)
    (hcreate : Instance.create canCompile settings m syscalls data journal = .ok i)
    (hrun : Run i.program i.syscalls i.store past (.next s)) : InOrder m i.program past s := by
  obtain ⟨hlayout, hps⟩ := layout_of_create hload hcreate
  obtain ⟨-, -, -, hrest⟩ := create_eq_ok hcreate
  obtain ⟨hm, himage, hinvariant⟩ := invariant_of_run hload hcreate hrun
  have hbalanced : Balanced m i.program.stackBottom i.store.arena.size past s :=
    run_balanced hm himage hlayout hrest rfl hps hrun
  have harena := hbalanced.arena
  rw [← harena] at hlayout hbalanced
  exact ⟨hm, himage, hlayout, hinvariant, hbalanced⟩

section

variable {δ : Type} {m : Module} {p : Program} {past : List (State δ Activation)}
  {s : State δ Activation} {a : Activation} (h : InOrder m p past s)
  (hcontrol : s.control = .running a)

include h hcontrol

theorem InOrder.between : 0 ≤ a.ps.toInt ∧ a.ps.toInt ≤ (s.store.arena.size : Int) - 60 ∧
    a.ps.toInt % 4 = 0 := by
  have hbetween := h.balanced.between h.sound h.layout
  rw [innermost_running hcontrol] at hbetween
  obtain ⟨hlow, hhigh, haligned, -⟩ := hbetween
  exact ⟨hlow, hhigh, haligned⟩

theorem InOrder.exactAt {inst : AnnotatedInstruction} (hinst : m.code[a.pc]? = some inst) :
    ExactAt m.code a inst := by
  obtain rfl := innermost_running hcontrol
  exact StackConfinement.exactAt h.sound h.layout h.invariant h.balanced hinst

end

end SandboxVm.Proofs.ArenaAccess
