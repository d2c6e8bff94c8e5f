import SandboxVm.Proofs.VerificationRules

/-!
The scan of verification against its rules. In front of index `i` the scan knows
the procedure around `i` and all procedures that end before `i`; from this it
accepts the instruction at `i` exactly if the rules allow it.
-/

namespace SandboxVm.Proofs.VerificationScan

open SandboxVm.Verification
open SandboxVm.Proofs.VerificationRules

theorem bind_eq_ok {ε α β : Type} {x : Except ε α} {f : α → Except ε β} {b : β} :
    (x >>= f) = .ok b ↔ ∃ a, x = .ok a ∧ f a = .ok b := by
  cases x <;> simp [bind, Except.bind]

theorem bind_eq_error {ε α β : Type} {x : Except ε α} {f : α → Except ε β} {e : ε} :
    (x >>= f) = .error e ↔ x = .error e ∨ ∃ a, x = .ok a ∧ f a = .error e := by
  cases x <;> simp [bind, Except.bind]

theorem bind_unit_eq_ok {ε β : Type} {x : Except ε Unit} {f : Unit → Except ε β} {b : β} :
    (x >>= f) = .ok b ↔ x = .ok () ∧ f () = .ok b := by
  rw [bind_eq_ok]
  exact ⟨fun ⟨_, hx, hf⟩ => ⟨hx, hf⟩, fun ⟨hx, hf⟩ => ⟨(), hx, hf⟩⟩

theorem map_eq_ok {ε α β : Type} {x : Except ε α} {f : α → β} {b : β} :
    x.map f = .ok b ↔ ∃ a, x = .ok a ∧ f a = b := by
  cases x <;> simp [Except.map]

theorem endsAt_iff {code : Code} {e : Nat} :
    endsAt code e = true ↔ opAt? code (e - 1) = some .push ∧ opAt? code e = some .leave := by
  unfold endsAt opAt?
  cases code[e - 1]? <;> cases code[e]? <;> simp

theorem firstEnd?_eq_some_iff {code : Code} {first e : Nat} :
    firstEnd? code first = some e ↔
      first ≤ e ∧ endsAt code e = true ∧ ∀ j, first ≤ j → j < e → ¬ endsAt code j = true := by
  fun_induction firstEnd? code first with
  | case1 first hlt hend =>
      constructor
      · intro h
        obtain rfl : first = e := by simpa using h
        exact ⟨Nat.le_refl _, hend, fun j h₁ h₂ => by omega⟩
      · rintro ⟨hle, -, hleast⟩
        have hge : ¬ first < e := fun hlt => hleast first (Nat.le_refl _) hlt hend
        exact congrArg some (by omega)
  | case2 first hlt hend ih =>
      rw [ih]
      constructor
      · rintro ⟨hle, hends, hleast⟩
        refine ⟨by omega, hends, ?_⟩
        intro j h₁ h₂
        rcases Nat.eq_or_lt_of_le h₁ with rfl | h₁
        · exact hend
        · exact hleast j h₁ h₂
      · rintro ⟨hle, hends, hleast⟩
        have hne : first ≠ e := by
          rintro rfl
          exact hend hends
        exact ⟨by omega, hends, fun j h₁ h₂ => hleast j (by omega) h₂⟩
  | case3 first hge =>
      simp only [reduceCtorEq, false_iff, not_and]
      intro hle hends
      have hlt := lt_size_of_opAt? (endsAt_iff.mp hends).2
      omega

theorem procedureEnd?_eq_some_iff {code : Code} {s e : Nat} (hs : opAt? code s = some .enter) :
    procedureEnd? code s = some e ↔ Span code s e := by
  rw [procedureEnd?, firstEnd?_eq_some_iff]
  simp only [endsAt_iff]
  constructor
  · rintro ⟨hle, ⟨hpush, hleave⟩, hleast⟩
    exact ⟨hs, hle, hpush, hleave, hleast⟩
  · intro h
    exact ⟨h.le, ⟨h.pushes, h.leaves⟩, h.least⟩

def InRange (code : Code) (current? : Option Procedure) (t : Int) : Prop :=
  match current? with
  | some p => (p.start : Int) ≤ t ∧ t ≤ p.last
  | none => 0 ≤ t ∧ t < code.size

theorem unless_eq_ok_iff {b : Bool} {P : Prop} {e : VerifyError} {x : Except VerifyError Unit}
    (hb : b = true ↔ P) : (if !b then .error e else x) = .ok () ↔ P ∧ x = .ok () := by
  cases b <;> simp_all

theorem checkJumpTarget_eq_ok_iff {code : Code} {current? : Option Procedure} {i : Nat} {t : Int} :
    checkJumpTarget code current? i t = .ok () ↔
      InRange code current? t ∧
        ∃ dest, code[t.toNat]? = some dest ∧ dest.depth = 0 ∧ dest.op ≠ .enter := by
  unfold checkJumpTarget
  refine (unless_eq_ok_iff (P := InRange code current? t) ?_).trans (and_congr_right fun _ => ?_)
  · cases current? <;> simp [InRange]
  · cases hdest : code[t.toNat]? with
    | none => simp
    | some dest =>
        by_cases hbad : dest.depth ≠ 0 ∨ dest.op = .enter
        · simp only [if_pos hbad, reduceCtorEq, Option.some.injEq, false_iff]
          rintro ⟨_, rfl, hdepth, hop⟩
          exact hbad.elim (· hdepth) hop
        · simp only [if_neg hbad, true_iff]
          rw [not_or, Decidable.not_not] at hbad
          exact ⟨dest, rfl, hbad⟩

structure OpenAt (code : Code) (i : Nat) (p : Procedure) : Prop where
  span : Span code p.start p.last
  frameSize : ∀ enter, code[p.start]? = some enter → p.frameSize = enter.operand
  nonneg : 0 ≤ p.frameSize.toInt
  computed : p.computed = true ↔ ∃ j, p.start ≤ j ∧ j < i ∧ IsComputedJump code j
  start_lt : p.start < i
  le_last : i ≤ p.last
  unnested : ∀ j, p.start < j → j < i → opAt? code j ≠ some .enter
  before : ∀ s e, Span code s e → s < p.start → e < p.start

def LooseJumpAt (code : Code) (j : Nat) : Prop :=
  IsComputedJump code j ∧ ∀ start e, Span code start e → ¬ (start ≤ j ∧ j ≤ e)

/-- What the scan knows in front of index `i`. -/
structure Knows (code : Code) (i : Nat) (s : Scan) : Prop where
  inside : ∀ p, s.current? = some p → OpenAt code i p
  outside : s.current? = none → ∀ start e, Span code start e → start < i → e < i
  mem_closed : ∀ p, p ∈ s.closed ↔ IsProcedure code p ∧ p.last < i
  ordered : s.closed.toList.Pairwise fun p q => p.last < q.start
  loose : s.looseJump = true ↔ ∃ j, j < i ∧ LooseJumpAt code j

theorem knows_start (code : Code) : Knows code 0 {} where
  inside := by simp
  outside := by simp
  mem_closed := by simp
  ordered := by simp
  loose := by simp

theorem exists_unless_ok_iff {bad : Prop} [Decidable bad] {e : VerifyError}
    {x : Except VerifyError Scan} :
    (∃ s, (if bad then .error e else x) = .ok s) ↔ ¬ bad ∧ ∃ s, x = .ok s := by
  by_cases h : bad <;> simp [h]

theorem exists_map_ok_iff {x : Except VerifyError Unit} {s : Scan} :
    (∃ s', (x.map fun _ => s) = .ok s') ↔ x = .ok () := by
  cases x <;> simp [Except.map]

section

variable {code : Code} {staticSize i : Nat} {s s' : Scan} {inst : AnnotatedInstruction}

theorem Knows.eq_current (h : Knows code i s) (hop : opAt? code i ≠ some .enter) {start e : Nat}
    (hspan : Span code start e) (hstart : start ≤ i) (hend : i ≤ e) :
    ∃ p, s.current? = some p ∧ p.start = start ∧ p.last = e := by
  have hlt : start < i := by
    rcases Nat.eq_or_lt_of_le hstart with rfl | hlt
    · exact absurd hspan.enters hop
    · exact hlt
  cases hcurrent : s.current? with
  | none =>
      have := h.outside hcurrent start e hspan hlt
      omega
  | some p =>
      have hp := h.inside p hcurrent
      rcases Nat.lt_trichotomy start p.start with hbefore | heq | hafter
      · have := hp.before start e hspan hbefore
        have := hp.start_lt
        omega
      · subst heq
        exact ⟨p, rfl, rfl, hp.span.end_unique hspan⟩
      · exact absurd hspan.enters (hp.unnested start hafter hlt)

theorem Knows.inFrame_iff (h : Knows code i s) (hop : opAt? code i ≠ some .enter)
    {frameSize : Word} :
    InFrame code i frameSize ↔ ∃ p, s.current? = some p ∧ p.frameSize = frameSize := by
  constructor
  · rintro ⟨start, e, enter, hspan, hstart, hend, henter, hframe⟩
    obtain ⟨p, hp, rfl, rfl⟩ := h.eq_current hop hspan hstart hend
    exact ⟨p, hp, by rw [(h.inside p hp).frameSize enter henter, hframe]⟩
  · rintro ⟨p, hp, rfl⟩
    have hopen := h.inside p hp
    obtain ⟨enter, henter, -⟩ := exists_of_opAt? hopen.span.enters
    exact ⟨p.start, p.last, enter, hopen.span, Nat.le_of_lt hopen.start_lt, hopen.le_last, henter,
      (hopen.frameSize enter henter).symm⟩

theorem Knows.checkJumpTarget_iff (h : Knows code i s) (hop : opAt? code i ≠ some .enter)
    {t : Word} :
    checkJumpTarget code s.current? i t.toInt = .ok () ↔ JumpAllowed code i t := by
  rw [checkJumpTarget_eq_ok_iff]
  constructor
  · rintro ⟨hrange, hdest⟩
    cases hcurrent : s.current? with
    | none =>
        rw [hcurrent] at hrange
        refine ⟨hrange.1, hdest, ?_⟩
        intro start e hspan hstart hend
        obtain ⟨p, hp, -⟩ := h.eq_current hop hspan hstart hend
        simp [hcurrent] at hp
    | some p =>
        rw [hcurrent] at hrange
        refine ⟨by have := hrange.1; omega, hdest, ?_⟩
        intro start e hspan hstart hend
        obtain ⟨q, hq, rfl, rfl⟩ := h.eq_current hop hspan hstart hend
        obtain rfl : p = q := by simpa [hcurrent] using hq
        exact hrange
  · intro hallowed
    refine ⟨?_, hallowed.boundary⟩
    cases hcurrent : s.current? with
    | none =>
        obtain ⟨dest, hdest, -⟩ := hallowed.boundary
        have hlt := (Array.getElem?_eq_some_iff.mp hdest).1
        have := hallowed.nonneg
        exact ⟨this, by omega⟩
    | some p =>
        have hopen := h.inside p hcurrent
        exact hallowed.inside p.start p.last hopen.span (Nat.le_of_lt hopen.start_lt)
          hopen.le_last

/-- What an accepted instruction does to the scan. -/
inductive Advanced (code : Code) (i : Nat) (inst : AnnotatedInstruction) (s : Scan) : Scan → Prop
  | opened {last : Nat} (hop : inst.op = .enter) (hcurrent : s.current? = none)
      (hlast : procedureEnd? code i = some last) (hnonneg : 0 ≤ inst.operand.toInt) :
      Advanced code i inst s
        { s with current? := some { start := i, last, frameSize := inst.operand } }
  | closed {p : Procedure} (hop : inst.op = .leave) (hcurrent : s.current? = some p)
      (hlast : i = p.last) :
      Advanced code i inst s { s with current? := none, closed := s.closed.push p }
  | marked {p : Procedure} (hop : inst.op = .jump) (hcomputed : code.isStaticJump i = false)
      (hcurrent : s.current? = some p) :
      Advanced code i inst s { s with current? := some { p with computed := true } }
  | loosened (hop : inst.op = .jump) (hcomputed : code.isStaticJump i = false)
      (hcurrent : s.current? = none) :
      Advanced code i inst s { s with looseJump := true }
  | passed (henter : inst.op ≠ .enter)
      (hleave : inst.op = .leave → ∀ p, s.current? = some p → i ≠ p.last)
      (hjump : inst.op = .jump → code.isStaticJump i = true) :
      Advanced code i inst s s

theorem advanced_of_ok (h : s.advance code staticSize i inst = .ok s') :
    Advanced code i inst s s' := by
  cases hop : inst.op with
  | enter =>
      simp only [Scan.advance, hop] at h
      split at h
      · cases h
      · cases h
      · rename_i last hcurrent hlast
        split at h
        · cases h
        · rename_i hframe
          cases h
          exact .opened hop hcurrent hlast (by omega)
  | leave =>
      simp only [Scan.advance, hop] at h
      split at h
      · cases h
      · rename_i p hcurrent
        split at h
        · cases h
        split at h
        · cases h
        split at h
        · cases h
          exact .closed hop hcurrent (by assumption)
        · cases h
          refine .passed (by simp [hop]) ?_ (by simp [hop])
          intro _ q hq
          obtain rfl : p = q := by simpa [hcurrent] using hq
          assumption
  | jump =>
      simp only [Scan.advance, hop] at h
      split at h
      · rename_i hstatic
        have hsame : s' = s := by
          split at h
          · cases h
          split at h
          · cases h
          obtain ⟨-, -, rfl⟩ := map_eq_ok.mp h
          rfl
        subst hsame
        exact .passed (by simp [hop]) (by simp [hop]) fun _ => hstatic
      · rename_i hcomputed
        rw [Bool.not_eq_true] at hcomputed
        split at h
        · cases h
        split at h
        · rename_i p hcurrent
          cases h
          exact .marked hop hcomputed hcurrent
        · rename_i hcurrent
          cases h
          exact .loosened hop hcomputed hcurrent
  | _ =>
      have hsame : s' = s := by
        simp only [Scan.advance, hop] at h
        repeat' split at h
        all_goals first
          | cases h; rfl
          | cases h
          | (obtain ⟨-, -, rfl⟩ := map_eq_ok.mp h; rfl)
      subst hsame
      exact .passed (by simp [hop]) (by simp [hop]) (by simp [hop])

theorem isComputedJump_iff (hi : code[i]? = some inst) :
    IsComputedJump code i ↔ inst.op = .jump ∧ code.isStaticJump i = false := by
  simp only [IsComputedJump, opAt?, Code.isStaticJump, hi, Option.map_some, Option.some.injEq,
    Bool.and_eq_false_iff, decide_eq_false_iff_not]
  constructor
  · rintro ⟨hop, hconst⟩
    exact ⟨hop, Or.inr (by simp [hconst])⟩
  · rintro ⟨hop, hstatic⟩
    exact ⟨hop, by simpa [hop] using hstatic⟩

theorem Knows.not_ends (h : Knows code i s) (hclose : ∀ p, s.current? = some p → i ≠ p.last)
    {start : Nat} (hspan : Span code start i) : False := by
  have hop : opAt? code i ≠ some .enter := by simp [hspan.leaves]
  obtain ⟨p, hp, -, hlast⟩ :=
    h.eq_current hop hspan (Nat.le_trans (Nat.le_add_right _ 2) hspan.le) (Nat.le_refl i)
  exact hclose p hp hlast.symm

theorem Knows.mem_closed_succ (h : Knows code i s)
    (hclose : opAt? code i = some .leave → ∀ p, s.current? = some p → i ≠ p.last) (p : Procedure) :
    p ∈ s.closed ↔ IsProcedure code p ∧ p.last < i + 1 := by
  rw [h.mem_closed p]
  constructor
  · rintro ⟨hp, hlt⟩
    exact ⟨hp, by omega⟩
  · rintro ⟨hp, hlt⟩
    refine ⟨hp, ?_⟩
    rcases Nat.lt_or_eq_of_le (Nat.le_of_lt_succ hlt) with hlt | heq
    · exact hlt
    · have hspan : Span code p.start i := heq ▸ hp.span
      exact (h.not_ends (hclose hspan.leaves) hspan).elim

theorem exists_lt_succ_iff {P : Nat → Prop} {n : Nat} (hn : ¬ P n) :
    (∃ j, j < n + 1 ∧ P j) ↔ ∃ j, j < n ∧ P j := by
  constructor
  · rintro ⟨j, hlt, hj⟩
    rcases Nat.lt_or_eq_of_le (Nat.le_of_lt_succ hlt) with hlt | rfl
    · exact ⟨j, hlt, hj⟩
    · exact absurd hj hn
  · rintro ⟨j, hlt, hj⟩
    exact ⟨j, by omega, hj⟩

theorem OpenAt.succ {p : Procedure} (h : OpenAt code i p) (hi : code[i]? = some inst)
    (henter : inst.op ≠ .enter) (hlast : i ≠ p.last) (marked : Bool)
    (hmarked : marked = true ↔ p.computed = true ∨ IsComputedJump code i) :
    OpenAt code (i + 1) { p with computed := marked } where
  span := h.span
  frameSize := h.frameSize
  nonneg := h.nonneg
  computed := by
    simp only [hmarked, h.computed]
    constructor
    · rintro (⟨j, hstart, hlt, hj⟩ | hj)
      · exact ⟨j, hstart, by omega, hj⟩
      · exact ⟨i, Nat.le_of_lt h.start_lt, Nat.lt_succ_self i, hj⟩
    · rintro ⟨j, hstart, hlt, hj⟩
      rcases Nat.lt_or_eq_of_le (Nat.le_of_lt_succ hlt) with hlt | rfl
      · exact Or.inl ⟨j, hstart, hlt, hj⟩
      · exact Or.inr hj
  start_lt := Nat.lt_succ_of_lt h.start_lt
  le_last := Nat.lt_of_le_of_ne h.le_last hlast
  unnested := by
    intro j hstart hlt
    rcases Nat.lt_or_eq_of_le (Nat.le_of_lt_succ hlt) with hlt | rfl
    · exact h.unnested j hstart hlt
    · simpa [opAt?, hi] using henter
  before := h.before

theorem Knows.outside_succ (h : Knows code i s) (hcurrent : s.current? = none)
    (hi : code[i]? = some inst) (henter : inst.op ≠ .enter) {start e : Nat}
    (hspan : Span code start e) (hstart : start < i + 1) : e < i + 1 := by
  rcases Nat.lt_or_eq_of_le (Nat.le_of_lt_succ hstart) with hlt | rfl
  · exact Nat.lt_succ_of_lt (h.outside hcurrent start e hspan hlt)
  · have := hspan.enters
    simp [opAt?, hi, henter] at this

theorem Knows.opened (h : Knows code i s) (hi : code[i]? = some inst) (hop : inst.op = .enter)
    (hcurrent : s.current? = none) {last : Nat} (hlast : procedureEnd? code i = some last)
    (hnonneg : 0 ≤ inst.operand.toInt) :
    Knows code (i + 1) { s with current? := some { start := i, last, frameSize := inst.operand } } := by
  have henters : opAt? code i = some .enter := by rw [opAt?_eq_some hi, hop]
  have hspan : Span code i last := (procedureEnd?_eq_some_iff henters).mp hlast
  have hjump : ¬ IsComputedJump code i := by simp [IsComputedJump, henters]
  constructor
  case inside =>
    rintro _ ⟨⟩
    refine ⟨hspan, ?_, hnonneg, ?_, Nat.lt_succ_self i, by have := hspan.le; simp only; omega, ?_,
      h.outside hcurrent⟩
    · intro enter henter
      obtain rfl : inst = enter := by simpa [hi] using henter
      rfl
    · simp only [Bool.false_eq_true, false_iff]
      rintro ⟨j, hstart, hlt, hj⟩
      obtain rfl : i = j := by omega
      exact hjump hj
    · intro j (hstart : i < j) hlt
      omega
  case outside => simp
  case mem_closed => exact h.mem_closed_succ (by simp [henters])
  case ordered => exact h.ordered
  case loose => exact h.loose.trans (exists_lt_succ_iff fun hj => hjump hj.1).symm

theorem Knows.closed (h : Knows code i s) (hi : code[i]? = some inst) (hop : inst.op = .leave)
    {p : Procedure} (hcurrent : s.current? = some p) (hlast : i = p.last) :
    Knows code (i + 1) { s with current? := none, closed := s.closed.push p } := by
  have hopen := h.inside p hcurrent
  have henter : opAt? code i ≠ some .enter := by simp [opAt?_eq_some hi, hop]
  have hjump : ¬ IsComputedJump code i := by simp [IsComputedJump, opAt?_eq_some hi, hop]
  have hproc : IsProcedure code p := by
    refine ⟨hopen.span, hopen.frameSize, hopen.computed.trans ⟨?_, ?_⟩⟩
    · rintro ⟨j, hstart, hlt, hj⟩
      exact ⟨j, hstart, by omega, hj⟩
    · rintro ⟨j, hstart, hle, hj⟩
      refine ⟨j, hstart, Nat.lt_of_le_of_ne (by omega) ?_, hj⟩
      rintro rfl
      exact hjump hj
  -- A procedure that has been passed cannot start inside the open one.
  have hbefore : ∀ q ∈ s.closed, q.last < p.start := by
    intro q hq
    obtain ⟨hqproc, hqlast⟩ := (h.mem_closed q).mp hq
    rcases Nat.lt_trichotomy q.start p.start with hlt | heq | hgt
    · exact hopen.before q.start q.last hqproc.span hlt
    · have := hopen.span.end_unique (heq ▸ hqproc.span)
      omega
    · have := hqproc.span.le
      exact absurd hqproc.span.enters (hopen.unnested q.start hgt (by omega))
  constructor
  case inside => simp
  case outside =>
    intro _ start e hspan hstart
    rcases Nat.lt_or_ge e (i + 1) with hlt | hge
    · exact hlt
    · obtain ⟨q, hq, -, hqlast⟩ := h.eq_current henter hspan (by omega) (by omega)
      obtain rfl : p = q := by simpa [hcurrent] using hq
      omega
  case mem_closed =>
    intro q
    rw [Array.mem_push, h.mem_closed q]
    constructor
    · rintro (⟨hq, hlt⟩ | rfl)
      · exact ⟨hq, by omega⟩
      · exact ⟨hproc, by omega⟩
    · rintro ⟨hq, hlt⟩
      rcases Nat.lt_or_eq_of_le (Nat.le_of_lt_succ hlt) with hlt | heq
      · exact Or.inl ⟨hq, hlt⟩
      · have hle := hq.span.le
        obtain ⟨p', hp', hstart, -⟩ := h.eq_current henter hq.span (by omega) (by omega)
        obtain rfl : p = p' := by simpa [hcurrent] using hp'
        exact Or.inr (hq.eq_of_start hproc hstart.symm)
  case ordered =>
    rw [Array.toList_push, List.pairwise_append]
    exact ⟨h.ordered, by simp, fun q hq r hr => by
      obtain rfl : r = p := by simpa using hr
      exact hbefore q (by simpa using hq)⟩
  case loose => exact h.loose.trans (exists_lt_succ_iff fun hj => hjump hj.1).symm

theorem Knows.marked (h : Knows code i s) (hi : code[i]? = some inst) (hop : inst.op = .jump)
    (hcomputed : code.isStaticJump i = false) {p : Procedure} (hcurrent : s.current? = some p) :
    Knows code (i + 1) { s with current? := some { p with computed := true } } := by
  have hopen := h.inside p hcurrent
  have hlast : i ≠ p.last := by
    rintro rfl
    have := hopen.span.leaves
    simp [opAt?, hi, hop] at this
  constructor
  case inside =>
    rintro _ ⟨⟩
    exact hopen.succ hi (by simp [hop]) hlast true
      (by simp [(isComputedJump_iff hi).mpr ⟨hop, hcomputed⟩])
  case outside => simp
  case mem_closed => exact h.mem_closed_succ (by simp [opAt?, hi, hop])
  case ordered => exact h.ordered
  case loose =>
    refine h.loose.trans (exists_lt_succ_iff ?_).symm
    intro hj
    exact hj.2 p.start p.last hopen.span ⟨Nat.le_of_lt hopen.start_lt, hopen.le_last⟩

theorem Knows.loosened (h : Knows code i s) (hi : code[i]? = some inst) (hop : inst.op = .jump)
    (hcomputed : code.isStaticJump i = false) (hcurrent : s.current? = none) :
    Knows code (i + 1) { s with looseJump := true } := by
  constructor
  case inside => simp [hcurrent]
  case outside =>
    intro _ start e hspan hstart
    exact h.outside_succ hcurrent hi (by simp [hop]) hspan hstart
  case mem_closed => exact h.mem_closed_succ (by simp [opAt?, hi, hop])
  case ordered => exact h.ordered
  case loose =>
    simp only [true_iff]
    refine ⟨i, Nat.lt_succ_self i, (isComputedJump_iff hi).mpr ⟨hop, hcomputed⟩, ?_⟩
    rintro start e hspan ⟨hstart, hend⟩
    obtain ⟨p, hp, -⟩ := h.eq_current (by simp [opAt?, hi, hop]) hspan hstart hend
    simp [hcurrent] at hp

theorem Knows.passed (h : Knows code i s) (hi : code[i]? = some inst) (henter : inst.op ≠ .enter)
    (hleave : inst.op = .leave → ∀ p, s.current? = some p → i ≠ p.last)
    (hjump : inst.op = .jump → code.isStaticJump i = true) : Knows code (i + 1) s := by
  have hcomputed : ¬ IsComputedJump code i := by
    rw [isComputedJump_iff hi]
    rintro ⟨hop, hfalse⟩
    simp [hjump hop] at hfalse
  have hclose : ∀ p, s.current? = some p → i ≠ p.last := by
    rintro p hp rfl
    have hop := (h.inside p hp).span.leaves
    exact hleave (by simpa [opAt?, hi] using hop) p hp rfl
  constructor
  case inside =>
    intro p hp
    exact (h.inside p hp).succ hi henter (hclose p hp) p.computed (by simp [hcomputed])
  case outside =>
    intro hcurrent start e hspan hstart
    exact h.outside_succ hcurrent hi henter hspan hstart
  case mem_closed => exact h.mem_closed_succ fun _ => hclose
  case ordered => exact h.ordered
  case loose => exact h.loose.trans (exists_lt_succ_iff fun hj => hcomputed hj.1).symm

theorem Knows.advanced (h : Knows code i s) (hi : code[i]? = some inst)
    (hadvanced : Advanced code i inst s s') : Knows code (i + 1) s' := by
  cases hadvanced with
  | opened hop hcurrent hlast hnonneg => exact h.opened hi hop hcurrent hlast hnonneg
  | closed hop hcurrent hlast => exact h.closed hi hop hcurrent hlast
  | marked hop hcomputed hcurrent => exact h.marked hi hop hcomputed hcurrent
  | loosened hop hcomputed hcurrent => exact h.loosened hi hop hcomputed hcurrent
  | passed henter hleave hjump => exact h.passed hi henter hleave hjump

/-- An `enter` does not stand inside a procedure that was entered before. -/
def Apart (code : Code) (i : Nat) (inst : AnnotatedInstruction) : Prop :=
  inst.op = .enter → ∀ start e, Span code start e → start < i → e < i

theorem Knows.enter_ok_iff (h : Knows code i s) (hi : code[i]? = some inst)
    (hop : inst.op = .enter) :
    (∃ s', s.advance code staticSize i inst = .ok s') ↔
      InstructionRule code staticSize i inst ∧ Apart code i inst := by
  have henters : opAt? code i = some .enter := by rw [opAt?_eq_some hi, hop]
  simp only [Scan.advance, InstructionRule, Apart, hop, forall_const]
  constructor
  · rintro ⟨s', h'⟩
    split at h'
    · cases h'
    · cases h'
    · rename_i last hcurrent hlast
      split at h'
      · cases h'
      · rename_i hframe
        simp only [not_or, Int.not_lt, Int.not_le, Decidable.not_not, ne_eq] at hframe
        obtain ⟨hdepth, hnonneg, hbound, hmod⟩ := hframe
        exact ⟨⟨hdepth, hnonneg, hbound, hmod, last, (procedureEnd?_eq_some_iff henters).mp hlast⟩,
          h.outside hcurrent⟩
  · rintro ⟨⟨hdepth, hnonneg, hbound, hmod, last, hspan⟩, hapart⟩
    have hcurrent : s.current? = none := by
      cases hcurrent : s.current? with
      | none => rfl
      | some p =>
          have hopen := h.inside p hcurrent
          have := hapart p.start p.last hopen.span hopen.start_lt
          have := hopen.le_last
          omega
    have hframe : ¬ (inst.depth ≠ 0 ∨ inst.operand.toInt < 0 ∨
        (programStackSize : Int) ≤ inst.operand.toInt ∨ inst.operand.toInt % 4 ≠ 0) := by
      simp only [programStackSize]
      omega
    rw [hcurrent, (procedureEnd?_eq_some_iff henters).mpr hspan]
    simp only [if_neg hframe]
    exact ⟨_, rfl⟩

theorem Knows.leave_ok_iff (h : Knows code i s) (hi : code[i]? = some inst)
    (hop : inst.op = .leave) :
    (∃ s', s.advance code staticSize i inst = .ok s') ↔ InstructionRule code staticSize i inst := by
  have henter : opAt? code i ≠ some .enter := by simp [opAt?, hi, hop]
  simp only [InstructionRule, hop]
  rw [h.inFrame_iff henter]
  cases hcurrent : s.current? with
  | none => simp [Scan.advance, hop, hcurrent]
  | some p =>
      have hdone : ∃ s', (if i = p.last then .ok { s with current? := none, closed := s.closed.push p }
          else .ok s : Except VerifyError Scan) = .ok s' := by
        split <;> exact ⟨_, rfl⟩
      simp only [Scan.advance, hop, hcurrent, exists_unless_ok_iff, hdone, ne_eq, Decidable.not_not,
        and_true, Option.some.injEq, exists_eq_left', eq_comm (a := p.frameSize)]
      exact and_comm

theorem Knows.branch_ok_iff (h : Knows code i s) (hi : code[i]? = some inst) {c : Comparison}
    (hop : inst.op = .branch c) :
    (∃ s', s.advance code staticSize i inst = .ok s') ↔ InstructionRule code staticSize i inst := by
  have henter : opAt? code i ≠ some .enter := by simp [opAt?, hi, hop]
  simp only [Scan.advance, InstructionRule, hop, ← h.checkJumpTarget_iff henter,
    exists_unless_ok_iff, exists_map_ok_iff, ne_eq, Decidable.not_not]

theorem Knows.jump_ok_iff (h : Knows code i s) (hi : code[i]? = some inst) (hop : inst.op = .jump) :
    (∃ s', s.advance code staticSize i inst = .ok s') ↔ InstructionRule code staticSize i inst := by
  have henter : opAt? code i ≠ some .enter := by simp [opAt?, hi, hop]
  simp only [Scan.advance, InstructionRule, hop, ← h.checkJumpTarget_iff henter]
  cases hconst : code.constantBefore? i with
  | none =>
      have hstatic : code.isStaticJump i = false := by simp [Code.isStaticJump, hi, hconst]
      cases hcurrent : s.current? <;>
        simp only [hstatic, Bool.false_eq_true, if_false, exists_unless_ok_iff] <;> simp
  | some target =>
      have hstatic : code.isStaticJump i = true := by simp [Code.isStaticJump, hi, hop, hconst]
      simp only [hstatic, if_true, exists_unless_ok_iff, exists_map_ok_iff, ne_eq,
        Decidable.not_not, Option.some.injEq, forall_eq']
      exact and_left_comm

theorem call_ok_iff (hop : inst.op = .call) :
    (∃ s', s.advance code staticSize i inst = .ok s') ↔ InstructionRule code staticSize i inst := by
  simp only [Scan.advance, InstructionRule, hop, exists_unless_ok_iff, Int.not_lt]
  refine and_congr_right fun _ => ?_
  cases hconst : code.constantBefore? i with
  | none => simp
  | some target =>
      have hzero : target = 0 ↔ target.toInt = 0 := by rw [← Int32.toInt_inj, Int32.toInt_zero]
      simp only [Option.some.injEq, forall_eq', Int32.lt_iff_toInt_lt, Int32.toInt_zero, hzero]
      by_cases hneg : target.toInt < 0
      · have hfalse : ¬ 0 ≤ target.toInt := Int.not_le.mpr hneg
        simp [hneg, hfalse]
      · rw [if_neg hneg]
        simp only [Int.not_lt.mp hneg, forall_const, opAt?]
        cases hcallee : code[target.toInt.toNat]? with
        | none => simp
        | some callee =>
            simp only [exists_unless_ok_iff]
            simp

theorem Knows.arg_ok_iff (h : Knows code i s) (hi : code[i]? = some inst) (hop : inst.op = .arg) :
    (∃ s', s.advance code staticSize i inst = .ok s') ↔ InstructionRule code staticSize i inst := by
  have henter : opAt? code i ≠ some .enter := by simp [opAt?, hi, hop]
  simp only [Scan.advance, InstructionRule, hop, h.inFrame_iff henter]
  cases hcurrent : s.current? with
  | none => simp
  | some p => simp [exists_unless_ok_iff]

theorem loadWidthAfter_iff {width : Width} :
    (code[i + 1]?.bind fun next => next.op.loadWidth?) = some width ↔
      opAt? code (i + 1) = some (.load width) := by
  rw [opAt?]
  cases code[i + 1]? with
  | none => simp
  | some next => cases hop : next.op <;> simp [hop, Opcode.loadWidth?]

theorem Knows.localAddress_ok_iff (h : Knows code i s) (hi : code[i]? = some inst)
    (hop : inst.op = .localAddress) :
    (∃ s', s.advance code staticSize i inst = .ok s') ↔ InstructionRule code staticSize i inst := by
  have henter : opAt? code i ≠ some .enter := by simp [opAt?, hi, hop]
  simp only [Scan.advance, InstructionRule, hop, h.inFrame_iff henter, ← loadWidthAfter_iff]
  cases hcurrent : s.current? with
  | none => simp
  | some p =>
      cases hwidth : (code[i + 1]?.bind fun next => next.op.loadWidth?) with
      | none => simp
      | some width =>
          refine exists_unless_ok_iff.trans ?_
          simp [maxProcedureArgs]

theorem load_ok_iff {width : Width} (hop : inst.op = .load width) :
    (∃ s', s.advance code staticSize i inst = .ok s') ↔ InstructionRule code staticSize i inst := by
  simp only [Scan.advance, InstructionRule, hop]
  cases hconst : code.constantBefore? i with
  | none => simp
  | some addr => simp [exists_unless_ok_iff, Int32.lt_iff_toInt_lt]

/-- The scan accepts the instruction at its index exactly if the rules allow it. -/
theorem Knows.advance_ok_iff (h : Knows code i s) (hi : code[i]? = some inst) :
    (∃ s', s.advance code staticSize i inst = .ok s') ↔
      InstructionRule code staticSize i inst ∧ Apart code i inst := by
  by_cases henter : inst.op = .enter
  · exact h.enter_ok_iff hi henter
  · have hapart : Apart code i inst := fun hop => absurd hop henter
    simp only [hapart, and_true]
    cases hop : inst.op with
    | enter => exact absurd hop henter
    | leave => exact h.leave_ok_iff hi hop
    | branch c => exact h.branch_ok_iff hi hop
    | jump => exact h.jump_ok_iff hi hop
    | call => exact call_ok_iff hop
    | arg => exact h.arg_ok_iff hi hop
    | localAddress => exact h.localAddress_ok_iff hi hop
    | load width => exact load_ok_iff hop
    | _ => simp [Scan.advance, InstructionRule, hop]

def Remains (code : Code) (i : Nat) (rest : List AnnotatedInstruction) : Prop :=
  ∀ k, rest[k]? = code[i + k]?

theorem remains_all (code : Code) : Remains code 0 code.toList := by
  intro k
  simp

theorem Remains.size_le (h : Remains code i []) : code.size ≤ i := by
  simpa using (h 0).symm

theorem Remains.uncons {rest : List AnnotatedInstruction} (h : Remains code i (inst :: rest)) :
    code[i]? = some inst ∧ Remains code (i + 1) rest := by
  refine ⟨by simpa using (h 0).symm, ?_⟩
  intro k
  have hnext := h (k + 1)
  rwa [List.getElem?_cons_succ, Nat.add_comm k 1, ← Nat.add_assoc] at hnext

theorem Knows.run {rest : List AnnotatedInstruction} (h : Knows code i s)
    (hrest : Remains code i rest) (hrun : s.run code staticSize i rest = .ok s') :
    Knows code (i + rest.length) s' := by
  induction rest generalizing i s with
  | nil =>
      obtain rfl : s = s' := by simpa [Scan.run] using hrun
      exact h
  | cons inst rest ih =>
      obtain ⟨hi, htail⟩ := hrest.uncons
      obtain ⟨next, hnext, hrun⟩ := bind_eq_ok.mp hrun
      have hfinal := ih (h.advanced hi (advanced_of_ok hnext)) htail hrun
      rwa [Nat.add_assoc, Nat.add_comm 1] at hfinal

theorem Knows.run_ok_iff {rest : List AnnotatedInstruction} (h : Knows code i s)
    (hrest : Remains code i rest) :
    (∃ s', s.run code staticSize i rest = .ok s') ↔
      ∀ j inst, i ≤ j → code[j]? = some inst →
        InstructionRule code staticSize j inst ∧ Apart code j inst := by
  induction rest generalizing i s with
  | nil =>
      simp only [Scan.run, Except.ok.injEq, exists_eq', true_iff]
      intro j inst hle hj
      have hsize := hrest.size_le
      have hlt := (Array.getElem?_eq_some_iff.mp hj).1
      omega
  | cons head rest ih =>
      obtain ⟨hi, htail⟩ := hrest.uncons
      simp only [Scan.run, bind_eq_ok]
      constructor
      · rintro ⟨s', next, hnext, hrun⟩ j inst hle hj
        rcases Nat.eq_or_lt_of_le hle with rfl | hlt
        · obtain rfl : head = inst := by simpa [hi] using hj
          exact (h.advance_ok_iff hi).mp ⟨next, hnext⟩
        · exact (ih (h.advanced hi (advanced_of_ok hnext)) htail).mp ⟨s', hrun⟩ j inst hlt hj
      · intro hall
        obtain ⟨next, hnext⟩ := (h.advance_ok_iff hi).mpr (hall i head (Nat.le_refl i) hi)
        obtain ⟨s', hrun⟩ := (ih (h.advanced hi (advanced_of_ok hnext)) htail).mpr
          fun j inst hlt hj => hall j inst (by omega) hj
        exact ⟨s', next, hnext, hrun⟩

theorem Knows.current?_eq_none (h : Knows code i s) (hend : code.size ≤ i) : s.current? = none := by
  cases hcurrent : s.current? with
  | none => rfl
  | some p =>
      have hopen := h.inside p hcurrent
      have hle := hopen.le_last
      have hlt := hopen.span.lt_size
      omega

end

theorem checkFinalReturn_ok_iff {code : Code} :
    checkFinalReturn code = .ok () ↔
      code.size = 0 ∨ opAt? code (code.size - 1) = some .leave := by
  rw [checkFinalReturn, opAt?, Array.back?]
  cases hlast : code[code.size - 1]? with
  | none =>
      have hsize := Array.getElem?_eq_none_iff.mp hlast
      exact iff_of_true rfl (Or.inl (by omega))
  | some last =>
      have hlt := (Array.getElem?_eq_some_iff.mp hlast).1
      by_cases hop : last.op = .leave
      · exact iff_of_true (if_pos hop) (Or.inr (by simp [hop]))
      · refine iff_of_false (by simp [hop]) ?_
        rintro (hsize | hleave)
        · omega
        · exact hop (by simpa using hleave)

theorem checkDepth_ok_iff {i : Nat} {depth : Int} :
    checkDepth i depth = .ok () ↔ 0 ≤ depth ∧ depth < 120 := by
  rw [checkDepth]
  by_cases hneg : depth < 0
  · rw [if_pos hneg]
    exact iff_of_false (by simp) (by omega)
  · rw [if_neg hneg]
    by_cases hbig : (4 * maxOperandSlots : Nat) ≤ depth
    · rw [if_pos hbig]
      simp only [maxOperandSlots] at hbig
      exact iff_of_false (by simp) (by omega)
    · rw [if_neg hbig]
      simp only [maxOperandSlots] at hbig
      exact iff_of_true rfl (by omega)

theorem checkDepths_ok_iff {i : Nat} {insts : List AnnotatedInstruction} :
    checkDepths i insts = .ok () ↔ ∀ inst ∈ insts,
      (0 ≤ inst.depth ∧ inst.depth < 120) ∧
        0 ≤ inst.depth + inst.op.stackDelta ∧ inst.depth + inst.op.stackDelta < 120 := by
  induction insts generalizing i with
  | nil => simp [checkDepths]
  | cons inst rest ih =>
      rw [checkDepths, bind_unit_eq_ok, bind_unit_eq_ok, checkDepth_ok_iff, checkDepth_ok_iff, ih,
        List.forall_mem_cons, ← and_assoc]

theorem checkJumpTable_ok_iff {code : Code} {targets : List Word} :
    checkJumpTable code targets = .ok () ↔ ∀ t ∈ targets,
      0 ≤ t.toInt ∧ ∃ inst, code[t.toInt.toNat]? = some inst ∧ inst.depth = 0 := by
  induction targets with
  | nil => simp [checkJumpTable]
  | cons target rest ih =>
      rw [checkJumpTable, List.forall_mem_cons, ← ih]
      by_cases hrange : 0 ≤ target.toInt ∧ target.toInt < code.size
      · obtain ⟨inst, hinst⟩ : ∃ inst, code[target.toInt.toNat]? = some inst := exists_inst (by omega)
        simp only [if_pos hrange, hinst]
        by_cases hdepth : inst.depth = 0 <;> simp [hdepth, hrange.1]
      · simp only [if_neg hrange, reduceCtorEq, false_iff]
        rintro ⟨⟨hnonneg, inst, hinst, -⟩, -⟩
        have := (Array.getElem?_eq_some_iff.mp hinst).1
        omega

theorem verify_eq_ok_iff {code : Code} {staticSize : Nat} {jumpTable? : Option (List Word)}
    {v : Verified} :
    verify code staticSize jumpTable? = .ok v ↔
      checkFinalReturn code = .ok () ∧ checkDepths 0 code.toList = .ok () ∧
        ∃ scan, Scan.run code staticSize {} 0 code.toList = .ok scan ∧
          checkJumpTable code (jumpTable?.getD []) = .ok () ∧
            v = { code := annotateJumps code scan jumpTable?, procedures := scan.closed } := by
  rw [verify, bind_unit_eq_ok, bind_unit_eq_ok, bind_eq_ok]
  simp only [bind_unit_eq_ok, pure, Except.pure, Except.ok.injEq, eq_comm (a := v)]

theorem knows_of_run {code : Code} {staticSize : Nat} {scan : Scan}
    (h : Scan.run code staticSize {} 0 code.toList = .ok scan) : Knows code code.size scan := by
  have hfinal := (knows_start code).run (remains_all code) h
  simpa using hfinal

theorem listsProcedures_of_knows {code : Code} {scan : Scan} (h : Knows code code.size scan) :
    ListsProcedures code scan.closed.toList where
  mem_iff p := by
    rw [Array.mem_toList_iff, h.mem_closed p]
    exact ⟨fun hp => hp.1, fun hp => ⟨hp, hp.span.lt_size⟩⟩
  ordered := h.ordered

/-- Verification succeeds exactly if the code keeps the rules. -/
theorem verify_ok_iff {code : Code} {staticSize : Nat} {jumpTable? : Option (List Word)} :
    (∃ v, verify code staticSize jumpTable? = .ok v) ↔ Rules code staticSize jumpTable? := by
  have hrun : (∃ scan, Scan.run code staticSize {} 0 code.toList = .ok scan) ↔ _ :=
    (knows_start code).run_ok_iff (remains_all code)
  constructor
  · rintro ⟨v, hv⟩
    obtain ⟨hreturn, hdepths, scan, hscan, htable, -⟩ := verify_eq_ok_iff.mp hv
    have hall := hrun.mp ⟨scan, hscan⟩
    refine ⟨checkFinalReturn_ok_iff.mp hreturn, ?_,
      fun i inst hi => (hall i inst (Nat.zero_le i) hi).1, ?_,
      checkJumpTable_ok_iff.mp htable⟩
    · intro i inst hi
      exact checkDepths_ok_iff.mp hdepths inst (by simpa using Array.mem_of_getElem? hi)
    · intro s e hspan j hlt hle hj
      obtain ⟨inst, hinst, hop⟩ := exists_of_opAt? hj
      have := (hall j inst (Nat.zero_le j) hinst).2 hop s e hspan hlt
      omega
  · intro h
    obtain ⟨scan, hscan⟩ := hrun.mpr fun j inst _ hj =>
      ⟨h.instructions j inst hj, fun hop s e hspan hlt => by
        rcases Nat.lt_or_ge e j with hend | hend
        · exact hend
        · exact absurd (opAt?_eq_some hj ▸ congrArg some hop) (h.unnested s e hspan j hlt hend)⟩
    refine ⟨_, verify_eq_ok_iff.mpr ⟨checkFinalReturn_ok_iff.mpr h.finalReturn,
      checkDepths_ok_iff.mpr ?_, scan, hscan,
      checkJumpTable_ok_iff.mpr h.jumpTable, rfl⟩⟩
    intro inst hinst
    obtain ⟨i, hi⟩ := List.mem_iff_getElem?.mp hinst
    exact h.depths i inst (by simpa using hi)

end SandboxVm.Proofs.VerificationScan
