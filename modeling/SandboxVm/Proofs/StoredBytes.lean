import SandboxVm.Proofs.ArenaAccess
import SandboxVm.Proofs.CallBracket

namespace SandboxVm.Proofs.StoredBytes

open SandboxVm.Interpreter
open SandboxVm.Proofs.HeaderBounds
open SandboxVm.Proofs.InterpretedInstruction
open SandboxVm.Proofs.RunInvariant
open SandboxVm.Proofs.CallNesting
open SandboxVm.Proofs.CallBracket
open SandboxVm.Proofs.OperandIsolation
open SandboxVm.Proofs.BlockCopy
open SandboxVm.Proofs.ArenaLayout
open SandboxVm.Proofs.StackPointer
open SandboxVm.Proofs.StackConfinement
open SandboxVm.Proofs.ArenaAccess

variable {δ : Type}

def byteOfStore? (mask : UInt32) (width : Width) (addr value : Word) (j : Nat) : Option UInt8 :=
  if Arena.offset mask addr width ≤ j ∧ j < Arena.offset mask addr width + width.bytes then
    (Word.toBytes value)[j - Arena.offset mask addr width]?
  else none

/-- The byte that stores one after another leave at offset `j`. -/
def byteOfWrites? (mask : UInt32) : List (Word × Word) → Nat → Option UInt8
  | [], _ => none
  | (addr, value) :: writes, j =>
    (byteOfWrites? mask writes j).or (byteOfStore? mask .four addr value j)

def byteOfCopy? (arena : Arena) (dest src len : Word) (j : Nat) : Option UInt8 :=
  let i := around arena.size (j - dest.toInt)
  if j < arena.size ∧ i < blockLength arena.size len then
    some (arena.byteAt (blockOffset arena.size src (sourceIndex arena.size dest src len i)))
  else none

/-- The byte that the host puts at offset `j`, if its write stays inside the arena. -/
def byteOfHost? (arena : Arena) (addr : Word) (bytes : ByteArray) (j : Nat) : Option UInt8 :=
  match arena.hostRange .masked addr bytes.size with
  | .ok start => if start ≤ j then bytes.data[j - start]? else none
  | .error _ => none

def topTwo? (s : Store) (a : Activation) : Option (Word × Word) :=
  match a.sp with
  | sp + 2 =>
    match s.operand? sp, s.operand? (sp + 1) with
    | some x, some y => some (x, y)
    | _, _ => none
  | _ => none

def byteOfInstruction? (s : Store) (a : Activation) (inst : AnnotatedInstruction) (j : Nat) :
    Option UInt8 :=
  match inst.op, topTwo? s a with
  | .store width, some (addr, value) => byteOfStore? s.arena.mask width addr value j
  | .blockCopy, some (dest, src) => byteOfCopy? s.arena dest src inst.operand j
  | _, _ => byteOfWrites? s.arena.mask (instructionWrites s a inst) j

/-- The byte that the next step puts at offset `j`. -/
def storedByte? (p : Program) (s : State δ Activation) (j : Nat) : Option UInt8 :=
  match s.control with
  | .running a =>
    match p.image.code[a.pc]? with
    | some inst => byteOfInstruction? s.store a inst j
    | none => none
  | .serving _ (.write addr bytes _) => byteOfHost? s.store.arena addr bytes j
  | .serving _ (.reenter args _) => byteOfWrites? s.store.arena.mask (entryWrites p s.store args) j
  | .serving _ _ => none

section

variable {a : Arena} {j : Nat}

theorem byteAt_store_getD (ha : Sized a) (width : Width) (addr value : Word) :
    (a.store width addr value).byteAt j =
      (byteOfStore? a.mask width addr value j).getD (a.byteAt j) := by
  rw [byteAt_store ha.maskable, byteOfStore?]
  split
  · rename_i hj
    have hlength : (Word.toBytes value).length = 4 := rfl
    have hlt : j - Arena.offset a.mask addr width < width.bytes := by omega
    have hwidth : width.bytes ≤ 4 := by cases width <;> decide
    rw [List.getElem?_take_of_lt hlt, List.getElem?_eq_getElem (by omega)]
    rfl
  · rfl

theorem byteAt_writeAll (ha : Sized a) (writes : List (Word × Word)) :
    (writeAll a writes).byteAt j = (byteOfWrites? a.mask writes j).getD (a.byteAt j) := by
  induction writes generalizing a with
  | nil => rfl
  | cons write writes ih =>
      obtain ⟨addr, value⟩ := write
      rw [writeAll, ih (ha.of_size (size_store ..)), mask_store, byteAt_store_getD ha, byteOfWrites?]
      cases byteOfWrites? a.mask writes j <;> rfl

theorem around_add_sub {size : Nat} (hj : j < size) (place : Int) :
    around size (place + around size (j - place)) = j := by
  have hnonneg := Int.emod_nonneg (j - place) (by omega : (size : Int) ≠ 0)
  have hsplit := Int.mul_ediv_add_emod (j - place) size
  have hplace : place + around size (j - place) = j + size * -((j - place) / size) := by
    rw [around, Int.toNat_of_nonneg hnonneg, Int.mul_neg]
    omega
  rw [hplace, around, Int.add_mul_emod_self_left, Int.emod_eq_of_lt (by omega) (by omega)]
  rfl

theorem around_sub_around {size i : Nat} (hi : i < size) (place : Int) :
    around size (around size (place + i) - place) = i := by
  have hnonneg := Int.emod_nonneg (place + i) (by omega : (size : Int) ≠ 0)
  have hsplit := Int.mul_ediv_add_emod (place + i) size
  have hplace : around size (place + i) - place = i + size * -((place + i) / size) := by
    rw [around, Int.toNat_of_nonneg hnonneg, Int.mul_neg]
    omega
  rw [hplace, around, Int.add_mul_emod_self_left, Int.emod_eq_of_lt (by omega) (by omega)]
  rfl

theorem byteAt_blockCopy (ha : Sized a) (dest src len : Word) :
    (a.blockCopy dest src len).byteAt j = (byteOfCopy? a dest src len j).getD (a.byteAt j) := by
  obtain ⟨k, hk, -, hbound⟩ := ha.exponent
  have hcopied := blockCopy_copied (by omega) hk dest src len
  rw [← hk] at hcopied
  have hlength : blockLength a.size len ≤ a.size := Nat.min_le_right ..
  unfold byteOfCopy?
  simp only
  split
  · rename_i hj
    have hoffset : blockOffset a.size dest (around a.size (j - dest.toInt)) = j :=
      around_add_sub hj.1 dest.toInt
    have hblock := hcopied.block _ hj.2
    rw [hoffset] at hblock
    exact hblock
  · rename_i hj
    refine hcopied.rest j fun i hi hoffset => hj ?_
    have hlt : j < a.size := hoffset ▸ around_lt (by omega) _
    have hindex : around a.size (j - dest.toInt) = i :=
      hoffset ▸ around_sub_around (by omega) dest.toInt
    exact ⟨hlt, hindex.symm ▸ hi⟩

theorem byteAt_hostWrite (addr : Word) (bytes : ByteArray) :
    (a.hostWrite .masked addr bytes).2.byteAt j =
      (byteOfHost? a addr bytes j).getD (a.byteAt j) := by
  unfold Arena.hostWrite byteOfHost?
  cases hrange : a.hostRange .masked addr bytes.size with
  | error e => rfl
  | ok start =>
      have hfits : start + bytes.size ≤ a.size := by
        simp only [Arena.hostRange] at hrange
        split at hrange
        · rename_i hfits
          rwa [Except.ok.inj hrange] at hfits
        · cases hrange
      simp only
      rw [byteAt_overwrite a hfits]
      by_cases hstart : start ≤ j
      · rw [if_pos hstart]
        by_cases hend : j < start + bytes.size
        · rw [if_pos ⟨hstart, hend⟩, Array.getElem?_eq_getElem (by
            rw [ByteArray.size_data]; omega)]
          rfl
        · rw [if_neg (fun hinside => hend hinside.2), Array.getElem?_eq_none (by
            rw [ByteArray.size_data]; omega)]
          rfl
      · rw [if_neg (fun hinside => hstart hinside.1), if_neg hstart]
        rfl

end

section

variable {s : Store} {a : Activation}

theorem withTopTwo_eq_match (k : Word → Word → Outcome) : withTopTwo s a k =
    match topTwo? s a with
    | some (x, y) => k x y
    | none => (s, .crash) := by
  unfold withTopTwo topTwo?
  rcases a.sp with _ | _ | sp
  · rfl
  · rfl
  · simp only
    cases s.operand? sp with
    | none => rfl
    | some x => cases s.operand? (sp + 1) <;> rfl

theorem byteAt_execute (p : Program) (ha : Sized s.arena) (inst : AnnotatedInstruction) (j : Nat) :
    (execute p s a inst).1.arena.byteAt j =
      (byteOfInstruction? s a inst j).getD (s.arena.byteAt j) := by
  unfold byteOfInstruction?
  split
  · rename_i width addr value hop htop
    simp only [execute, hop, withTopTwo_eq_match, htop]
    exact byteAt_store_getD ha width addr value
  · rename_i dest src hop htop
    simp only [execute, hop, withTopTwo_eq_match, htop]
    exact byteAt_blockCopy ha dest src inst.operand
  · rename_i hstore hcopy
    have harena : (execute p s a inst).1.arena =
        writeAll s.arena (instructionWrites s a inst) := by
      cases hop : inst.op with
      | store width =>
          have hnone : topTwo? s a = none := by
            rw [Option.eq_none_iff_forall_ne_some]
            rintro ⟨addr, value⟩ htop
            exact hstore width addr value hop htop
          simp only [execute, hop, withTopTwo_eq_match, hnone, instructionWrites, writeAll]
      | blockCopy =>
          have hnone : topTwo? s a = none := by
            rw [Option.eq_none_iff_forall_ne_some]
            rintro ⟨dest, src⟩ htop
            exact hcopy dest src hop htop
          simp only [execute, hop, withTopTwo_eq_match, hnone, instructionWrites, writeAll]
      | _ => exact execute_arena (by simp [hop]) (by simp [hop])
    rw [harena]
    exact byteAt_writeAll ha _

theorem byteOfInstruction?_congr {s' : Store} (harena : s'.arena = s.arena)
    (hoperands : s'.operands = s.operands) (inst : AnnotatedInstruction) (j : Nat) :
    byteOfInstruction? s' a inst j = byteOfInstruction? s a inst j := by
  unfold byteOfInstruction? topTwo? instructionWrites top? Store.operand?
  rw [harena, hoperands]

theorem byteAt_step (p : Program) (syscalls : Syscalls δ) {s : State δ Activation}
    (ha : Sized s.store.arena) (j : Nat) :
    (storeOf (Machine.step p syscalls s)).arena.byteAt j =
      (storedByte? p s j).getD (s.store.arena.byteAt j) := by
  rw [← storeAfter_eq]
  obtain ⟨store, data, control, bracket, outer⟩ := s
  cases control with
  | running a =>
      have hperform : (storeAfter (Machine.step p syscalls
          ⟨store, data, .running a, bracket, outer⟩)).arena = (step p store a).1.arena :=
        perform_arena ..
      rw [hperform]
      simp only [storedByte?]
      cases hinst : p.image.code[a.pc]? with
      | none =>
          simp only [step, hinst]
          rfl
      | some inst =>
          have harena : (logged store a inst).arena = store.arena := note_arena ..
          rw [step_eq store hinst, byteAt_execute p (harena.symm ▸ ha),
            byteOfInstruction?_congr harena (logged_operands ..), harena]
  | serving a service =>
      cases service with
      | fail failure =>
          have hrejected : (rejected p store a failure).1.arena = store.arena :=
            congrArg Store.arena (rejected_store ..)
          exact congrArg (Arena.byteAt · j) ((conclude_arena ..).trans hrejected)
      | write addr bytes next => exact byteAt_hostWrite addr bytes
      | reenter args next =>
          rw [step_of_reenter rfl, call_arena_eq]
          exact byteAt_writeAll ha _
      | _ => rfl

/-- A byte of the arena is what the latest step of those that stored it put there. -/
theorem byteAt_of_steps {p : Program} {syscalls : Syscalls δ} {t t' : Transition δ Activation}
    {seen : List (State δ Activation)} (h : Steps p syscalls t seen t')
    (ha : ∀ s ∈ seen, Sized s.store.arena) (j : Nat) :
    (storeOf t').arena.byteAt j =
      (seen.findSome? (storedByte? p · j)).getD ((storeOf t).arena.byteAt j) := by
  induction h with
  | refl => rfl
  | @step seen s h ih =>
      obtain ⟨hs, hseen⟩ := List.forall_mem_cons.mp ha
      rw [byteAt_step p syscalls hs, List.findSome?_cons]
      cases storedByte? p s j with
      | none => exact ih hseen
      | some byte => rfl

end

/-- The word at a place, around the end of the arena. -/
def wordAt (a : Arena) (place : Int) : Word :=
  let i := around a.size place
  Word.ofBytes (a.byteAt i) (a.byteAt (i + 1)) (a.byteAt (i + 2)) (a.byteAt (i + 3))

/-- The word at a place of the arena of `s` was last stored as `value`: a step put its four
bytes there, and no later step puts any byte there. -/
def LastStored (p : Program) (syscalls : Syscalls δ) (store₀ : Store) (place : Int) (value : Word)
    (s : State δ Activation) : Prop :=
  ∃ x seen, Reached p syscalls store₀ (.next x) ∧
    Steps p syscalls (Machine.step p syscalls x) seen (.next s) ∧
    ∀ k < 4, storedByte? p x (around s.store.arena.size place + k) = (Word.toBytes value)[k]? ∧
      ∀ y ∈ seen, storedByte? p y (around s.store.arena.size place + k) = none

section

variable {a : Arena} {addr value : Word}

theorem exists_word (place : Int) (hlow : -2 ^ 31 ≤ place) (hhigh : place < 2 ^ 31) :
    ∃ addr : Word, addr.toInt = place :=
  ⟨Int32.ofInt place, Int32.toInt_ofInt_of_le hlow hhigh⟩

theorem offset_eq_around (ha : Sized a) (haligned : addr.toInt % 4 = 0) :
    Arena.offset a.mask addr .four = around a.size addr.toInt := by
  have hoffset := offset_eq_sub ha.maskable addr .four
  simp only [Width.bytes] at hoffset
  rw [around]
  omega

theorem load_eq_wordAt (ha : Sized a) (haligned : addr.toInt % 4 = 0) :
    a.load .four addr = wordAt a addr.toInt := by
  simp only [Arena.load, wordAt, offset_eq_around ha haligned]

theorem wordAt_of_bytes {place : Int}
    (h : ∀ k < 4, (Word.toBytes value)[k]? = some (a.byteAt (around a.size place + k))) :
    wordAt a place = value := by
  have h₀ := h 0 (by decide)
  have h₁ := h 1 (by decide)
  have h₂ := h 2 (by decide)
  have h₃ := h 3 (by decide)
  rw [Nat.add_zero] at h₀
  rw [wordAt, ← Option.some.inj h₀, ← Option.some.inj h₁, ← Option.some.inj h₂,
    ← Option.some.inj h₃]
  exact congrArg UInt32.toInt32 (sum_of_bytes value.toUInt32)

theorem byteOfStore?_word (ha : Sized a) (haligned : addr.toInt % 4 = 0) {k : Nat} (hk : k < 4) :
    byteOfStore? a.mask .four addr value (around a.size addr.toInt + k) =
      (Word.toBytes value)[k]? := by
  rw [byteOfStore?, offset_eq_around ha haligned, Nat.add_sub_cancel_left]
  exact if_pos ⟨Nat.le_add_right _ _, Nat.add_lt_add_left hk _⟩

theorem wordAt_of_lastStored {p : Program} {syscalls : Syscalls δ} {store₀ : Store} {place : Int}
    {s : State δ Activation}
    (hsized : ∀ x : State δ Activation, Reached p syscalls store₀ (.next x) → Sized x.store.arena)
    (h : LastStored p syscalls store₀ place value s) : wordAt s.store.arena place = value := by
  obtain ⟨x, seen, hreached, hsteps, hbytes⟩ := h
  have hseen : ∀ y ∈ seen, Sized y.store.arena := by
    intro y hy
    obtain ⟨earlier, hearlier, -⟩ := hsteps.of_mem hy
    exact hsized y (hreached.step.steps hearlier)
  apply wordAt_of_bytes
  intro k hk
  obtain ⟨hstored, hnone⟩ := hbytes k hk
  have hbyte := byteAt_of_steps hsteps hseen (around s.store.arena.size place + k)
  rw [List.findSome?_eq_none_iff.mpr hnone, byteAt_step p syscalls (hsized x hreached), hstored,
    List.getElem?_eq_getElem hk] at hbyte
  rw [List.getElem?_eq_getElem hk]
  exact congrArg some hbyte.symm

end

end SandboxVm.Proofs.StoredBytes
