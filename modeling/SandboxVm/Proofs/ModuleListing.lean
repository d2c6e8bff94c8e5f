import SandboxVm.Image.Draft
import SandboxVm.Listing
import SandboxVm.Proofs.InstructionText
import SandboxVm.Proofs.InstructionCodec
import SandboxVm.Proofs.LoadedProcedures

namespace SandboxVm.Proofs.ModuleListing

open SandboxVm.Proofs.VerificationRules
open SandboxVm.Proofs.VerificationScan
open SandboxVm.Proofs.GuardedLoading
open SandboxVm.Proofs.InstructionCodec
open SandboxVm.Proofs.LoadedModule
open SandboxVm.Proofs.LoadedProcedures
open SandboxVm.Proofs.TextLines
open SandboxVm.Proofs.InstructionText

/-- The text of the instructions and labels of a module. -/
def bodyText (options : ListingOptions) (m : Module) : String :=
  listing { options with header := false } m

def startingAt (procs : List Procedure) (i : Nat) : List Procedure :=
  procs.filter fun p => p.start = i

/-- A text at the right end of a column, which is as wide as the text if that is too long. -/
def column (width : Nat) (text : String) : String :=
  String.ofList (List.replicate (width - text.length) ' ') ++ text

/-- What a line shows in front of the instruction and the mark of a jump target: its index, and its
depth if that is asked for. -/
def margin (options : ListingOptions) (i : Nat) (depth : Int) : String :=
  column 8 (toString i) ++ " "
    ++ (if options.depths then column 4 (toString depth) ++ " " else "")

def targetMark (inst : AnnotatedInstruction) : String := if inst.isTarget then "> " else "  "

def lineOf (options : ListingOptions) (i : Nat) (inst : AnnotatedInstruction) : String :=
  margin options i inst.depth ++ targetMark inst
    ++ (inst.op.mnemonic ++ operandText inst.toInstruction)

/-- The comments in front of the code: what the module is, its static data, and how many jump
targets it lists if it does. -/
def headerOf (m : Module) : List String :=
  ["; module `" ++ m.name ++ "`: version " ++ toString m.header.version.number ++ ", "
      ++ toString m.code.size ++ " instructions, " ++ toString m.procedures.size ++ " procedures",
    "; data " ++ toString m.header.dataLength ++ " bytes, literals "
      ++ toString m.header.litLength ++ " bytes, bss " ++ toString m.header.bssLength
      ++ " bytes"] ++
    (m.jumpTable?.map fun targets =>
      "; " ++ toString targets.length ++ " jump table targets").toList

/-- The label of a procedure with the empty line in front of it. -/
def labelOf (p : Procedure) : List String :=
  ["", "proc_" ++ toString p.start ++ ": ; frame " ++ toString p.frameSize.toInt
    ++ (if p.computed then ", computed jumps" else "")]

/-- The lines of the instruction at an index, with the labels of the procedures that start
there in front. -/
def blockAt (options : ListingOptions) (procs : List Procedure) (i : Nat)
    (inst : AnnotatedInstruction) : List String :=
  (startingAt procs i).flatMap labelOf ++ [lineOf options i inst]

def codeLines (options : ListingOptions) (m : Module) : List String :=
  m.code.toList.zipIdx.flatMap fun x => blockAt options m.procedures.toList x.2 x.1

/-- Whether a line belongs to a label: the empty line, and the one that names the procedure. -/
def isLabelLine (line : String) : Bool := line = "" || "proc_".toList.isPrefixOf line.toList

/-- The listing shows the whole module: every instruction and every procedure once. -/
structure Complete (options : ListingOptions) (m : Module) : Prop where
  header : listing options m =
    textOf (if options.header then headerOf m else []) ++ bodyText options m
  comments : ∀ line ∈ headerOf m, line.toList.head? = some ';'
  ended : textOf (linesOf (bodyText options m)) = bodyText options m
  /-- A label stands right in front of the instruction it is for. -/
  lines : linesOf (bodyText options m) = codeLines options m
  instructions : (linesOf (bodyText options m)).filter (!isLabelLine ·) =
    m.code.toList.zipIdx.map fun x => lineOf options x.2 x.1
  labels : (linesOf (bodyText options m)).filter isLabelLine =
    m.procedures.toList.flatMap labelOf
  distinct : (m.procedures.toList.map Procedure.start).Pairwise (· < ·)
  enters : ∀ p ∈ m.procedures, opAt? m.code p.start = some .enter

/-- The codes have the same opcodes, operands and jump targets. -/
def SameInstructions (code code' : Code) : Prop :=
  ∀ i : Nat, code[i]?.map (fun inst => (inst.toInstruction, inst.isTarget)) =
    code'[i]?.map fun inst => (inst.toInstruction, inst.isTarget)

/-! ### The lines of an instruction -/

theorem instructionLine_eq (options : ListingOptions) (i : Nat) (inst : AnnotatedInstruction) :
    Listing.instructionLine options i inst = lineOf options i inst := by
  rw [lineOf, ← text_eq_append]
  rfl

theorem blank_or_digit_of_mem_column {width n : Nat} {c : Char}
    (h : c ∈ (column width (toString n)).toList) : c = ' ' ∨ c.isDigit = true :=
  (mem_padLeft h).imp_right isDigit_of_mem_nat

theorem oneLine_lineOf (options : ListingOptions) (i : Nat) (inst : AnnotatedInstruction) :
    OneLine (lineOf options i inst) := by
  have hindex : OneLine (column 8 (toString i) ++ " ") :=
    ((oneLine_nat i).padLeft 8).append (by decide)
  have hdepth : OneLine (column 4 (toString inst.depth) ++ " ") :=
    ((oneLine_int inst.depth).padLeft 4).append (by decide)
  rw [lineOf, ← text_eq_append]
  refine OneLine.append (.append (.append hindex ?_) ?_) (oneLine_text inst.toInstruction)
  · split
    · exact hdepth
    · decide
  · unfold targetMark
    split <;> decide

theorem oneLine_of_mem_labelOf {p : Procedure} {line : String} (h : line ∈ labelOf p) :
    OneLine line := by
  rcases List.mem_cons.mp h with rfl | hlabel
  · decide
  · obtain rfl := List.mem_singleton.mp hlabel
    refine .append (.append (.append (.append (by decide) (oneLine_nat _)) (by decide))
      (oneLine_int _)) ?_
    split <;> decide

theorem not_isLabelLine_of_toList {line : String} {c : Char} {chars : List Char}
    (h : line.toList = c :: chars) (hc : c ≠ 'p') : isLabelLine line = false := by
  rw [isLabelLine, Bool.or_eq_false_iff, decide_eq_false_iff_not, Bool.eq_false_iff]
  constructor
  · rintro rfl
    cases h
  · intro hprefix
    obtain ⟨behind, hbehind⟩ := List.isPrefixOf_iff_prefix.mp hprefix
    rw [h] at hbehind
    exact hc (List.cons.inj hbehind).1.symm

theorem not_isLabelLine_lineOf (options : ListingOptions) (i : Nat)
    (inst : AnnotatedInstruction) : isLabelLine (lineOf options i inst) = false := by
  obtain ⟨rest, hrest⟩ : ∃ rest, (lineOf options i inst).toList =
      (column 8 (toString i)).toList ++ ' ' :: rest :=
    ⟨_, by
      simp only [lineOf, margin, String.toList_append, List.append_assoc]
      rfl⟩
  cases hcolumn : (column 8 (toString i)).toList with
  | nil =>
      rw [hcolumn, List.nil_append] at hrest
      exact not_isLabelLine_of_toList hrest (by decide)
  | cons c chars =>
      have hc : c ∈ (column 8 (toString i)).toList := hcolumn ▸ List.mem_cons_self
      rw [hcolumn, List.cons_append] at hrest
      refine not_isLabelLine_of_toList hrest ?_
      rintro rfl
      exact absurd (blank_or_digit_of_mem_column hc) (by decide)

theorem isLabelLine_of_mem_labelOf {p : Procedure} {line : String} (h : line ∈ labelOf p) :
    isLabelLine line = true := by
  rcases List.mem_cons.mp h with rfl | hlabel
  · rfl
  · obtain rfl := List.mem_singleton.mp hlabel
    rw [isLabelLine, Bool.or_eq_true]
    right
    rw [List.isPrefixOf_iff_prefix]
    simp only [String.append_assoc, String.toList_append]
    exact List.prefix_append ..

/-! ### Procedures in front of their instructions -/

section

variable {p : Procedure} {procs : List Procedure} {i : Nat}

theorem startingAt_eq_nil (h : ∀ q ∈ procs, i < q.start) : startingAt procs i = [] :=
  List.filter_eq_nil_iff.mpr fun q hq hstart =>
    absurd (of_decide_eq_true hstart) (Nat.ne_of_gt (h q hq))

theorem startingAt_head (h : ∀ q ∈ procs, p.start < q.start) :
    startingAt (p :: procs) p.start = [p] := by
  simp only [startingAt, List.filter_cons, decide_true, if_true]
  exact congrArg (p :: ·) (startingAt_eq_nil h)

theorem startingAt_behind (h : p.start < i) : startingAt (p :: procs) i = startingAt procs i :=
  List.filter_cons_of_neg fun hstart => absurd (of_decide_eq_true hstart) (Nat.ne_of_lt h)

theorem flatMap_startingAt_behind {α β : Type} (p : Procedure) (procs : List Procedure)
    (insts : List α) (f : List Procedure → α × Nat → List β) :
    (insts.zipIdx (p.start + 1)).flatMap (fun x => f (startingAt (p :: procs) x.2) x) =
      (insts.zipIdx (p.start + 1)).flatMap fun x => f (startingAt procs x.2) x := by
  apply List.flatMap_congr
  intro x hx
  rw [startingAt_behind (List.le_snd_of_mem_zipIdx hx)]

theorem start_lt_of_ne (hordered : (p :: procs).Pairwise fun p q => p.start < q.start)
    (hfrom : i ≤ p.start) (hstart : p.start ≠ i) : ∀ q ∈ p :: procs, i < q.start := by
  have hfirst : i < p.start := Nat.lt_of_le_of_ne hfrom (Ne.symm hstart)
  refine List.forall_mem_cons.mpr ⟨hfirst, fun q hq => ?_⟩
  exact Nat.lt_trans hfirst ((List.pairwise_cons.mp hordered).1 q hq)

theorem flatMap_startingAt {α : Type} {insts : List α}
    (hordered : procs.Pairwise fun p q => p.start < q.start)
    (hfrom : ∀ q ∈ procs, i ≤ q.start) (hto : ∀ q ∈ procs, q.start < i + insts.length) :
    (insts.zipIdx i).flatMap (fun x => startingAt procs x.2) = procs := by
  induction insts generalizing i procs with
  | nil =>
      refine (List.eq_nil_iff_forall_not_mem.mpr fun q hq => ?_).symm
      exact absurd (hto q hq) (Nat.not_lt.mpr (hfrom q hq))
  | cons inst rest ih =>
      rw [List.length_cons, Nat.add_comm rest.length, ← Nat.add_assoc] at hto
      rw [List.zipIdx_cons, List.flatMap_cons]
      cases procs with
      | nil => exact ih .nil (List.forall_mem_nil _) (List.forall_mem_nil _)
      | cons p procs =>
          by_cases hstart : p.start = i
          · subst hstart
            obtain ⟨hbehind, hrest⟩ := List.pairwise_cons.mp hordered
            have hlater := flatMap_startingAt_behind p procs rest fun procs _ => procs
            rw [startingAt_head hbehind, hlater, ih hrest hbehind (List.forall_mem_cons.mp hto).2]
            rfl
          · have hlt := start_lt_of_ne hordered (hfrom p List.mem_cons_self) hstart
            rw [startingAt_eq_nil hlt, ih hordered hlt hto]
            rfl

end

/-! ### The lines of the code -/

section

variable {options : ListingOptions} {insts : List AnnotatedInstruction} {procs : List Procedure}
  {i : Nat}

theorem bodyLines_eq_flatMap (hordered : procs.Pairwise fun p q => p.start < q.start)
    (hfrom : ∀ q ∈ procs, i ≤ q.start) : Listing.bodyLines options i insts procs =
      (insts.zipIdx i).flatMap fun x => blockAt options procs x.2 x.1 := by
  fun_induction Listing.bodyLines options i insts procs with
  | case1 i procs => rfl
  | case2 i inst rest ih =>
      rw [ih .nil (List.forall_mem_nil _), instructionLine_eq]
      rfl
  | case3 inst rest p procs ih =>
      obtain ⟨hbehind, hrest⟩ := List.pairwise_cons.mp hordered
      have hlater := flatMap_startingAt_behind p procs rest fun procs x =>
        procs.flatMap labelOf ++ [lineOf options x.2 x.1]
      rw [ih hrest hbehind, List.zipIdx_cons, List.flatMap_cons, instructionLine_eq]
      simp only [blockAt]
      rw [hlater, startingAt_head hbehind, List.flatMap_singleton, List.append_assoc]
      rfl
  | case4 i inst rest p procs hstart ih =>
      have hlt := start_lt_of_ne hordered (hfrom p List.mem_cons_self) hstart
      rw [ih hordered hlt, List.zipIdx_cons, List.flatMap_cons, blockAt, startingAt_eq_nil hlt,
        instructionLine_eq]
      rfl

theorem filter_labelOf (procs : List Procedure) :
    (procs.flatMap labelOf).filter isLabelLine = procs.flatMap labelOf ∧
      (procs.flatMap labelOf).filter (!isLabelLine ·) = [] := by
  have hlabel (line : String) (hline : line ∈ procs.flatMap labelOf) :
      isLabelLine line = true := by
    obtain ⟨p, -, hp⟩ := List.mem_flatMap.mp hline
    exact isLabelLine_of_mem_labelOf hp
  refine ⟨List.filter_eq_self.mpr hlabel, List.filter_eq_nil_iff.mpr fun line hline => ?_⟩
  simp [hlabel line hline]

theorem filter_instructions (options : ListingOptions) (m : Module) :
    (codeLines options m).filter (!isLabelLine ·) =
      m.code.toList.zipIdx.map fun x => lineOf options x.2 x.1 := by
  rw [codeLines, List.filter_flatMap, List.map_eq_flatMap]
  apply List.flatMap_congr
  intro x _
  rw [blockAt, List.filter_append, (filter_labelOf _).2, List.nil_append]
  simp [not_isLabelLine_lineOf]

theorem filter_labels (options : ListingOptions) (m : Module) :
    (codeLines options m).filter isLabelLine =
      (m.code.toList.zipIdx.flatMap fun x => startingAt m.procedures.toList x.2).flatMap
        labelOf := by
  rw [codeLines, List.filter_flatMap, List.flatMap_assoc]
  apply List.flatMap_congr
  intro x _
  rw [blockAt, List.filter_append, (filter_labelOf _).1]
  simp [not_isLabelLine_lineOf]

theorem oneLine_of_mem_codeLines {m : Module} {line : String}
    (h : line ∈ codeLines options m) : OneLine line := by
  obtain ⟨x, -, hline⟩ := List.mem_flatMap.mp h
  rcases List.mem_append.mp hline with hlabel | hinst
  · obtain ⟨p, -, hp⟩ := List.mem_flatMap.mp hlabel
    exact oneLine_of_mem_labelOf hp
  · rw [List.mem_singleton.mp hinst]
    exact oneLine_lineOf options x.2 x.1

end

/-! ### The listing of a loaded module -/

section

variable {m : Module} (hm : Sound m)

include hm

theorem starts_increasing :
    m.procedures.toList.Pairwise fun p q => p.start < q.start :=
  (procedures_increasing hm).imp And.left

theorem start_lt_size : ∀ p ∈ m.procedures.toList, p.start < 0 + m.code.toList.length := by
  intro p hp
  have hspan := (hm.mem_procedures_iff.mp (Array.mem_toList_iff.mp hp)).span
  have hle := hspan.le
  have hlt := hspan.lt_size
  rw [Nat.zero_add, Array.length_toList]
  omega

theorem bodyLines_eq_codeLines (options : ListingOptions) :
    Listing.bodyLines options 0 m.code.toList m.procedures.toList = codeLines options m :=
  bodyLines_eq_flatMap (starts_increasing hm) fun _ _ => Nat.zero_le _

theorem bodyText_eq (options : ListingOptions) :
    bodyText options m = textOf (codeLines options m) :=
  congrArg textOf (bodyLines_eq_codeLines hm { options with header := false })

omit hm in
theorem headerLines_eq (m : Module) : Listing.headerLines m = headerOf m := by
  unfold Listing.headerLines headerOf
  cases m.jumpTable? with
  | none => rfl
  | some targets => rfl

theorem listing_eq (options : ListingOptions) : listing options m =
    textOf (if options.header then headerOf m else []) ++ bodyText options m := by
  rw [bodyText_eq hm, ← bodyLines_eq_codeLines hm, ← headerLines_eq, ← textOf_append]
  rfl

omit hm in
theorem head?_headerOf {line : String} (h : line ∈ headerOf m) : line.toList.head? = some ';' := by
  rw [headerOf, List.mem_append, List.mem_pair] at h
  rcases h with (rfl | rfl) | h
  · simp only [String.toList_append, List.append_assoc]
    rfl
  · simp only [String.toList_append, List.append_assoc]
    rfl
  · obtain ⟨targets, -, rfl⟩ := Option.map_eq_some_iff.mp (Option.mem_toList.mp h)
    simp only [String.toList_append, List.append_assoc]
    rfl

theorem complete (options : ListingOptions) : Complete options m := by
  have hlines : linesOf (bodyText options m) = codeLines options m := by
    rw [bodyText_eq hm, linesOf_textOf fun _ => oneLine_of_mem_codeLines]
  have hordered := starts_increasing hm
  exact {
    header := listing_eq hm options
    comments := fun _ => head?_headerOf
    ended := by rw [hlines, bodyText_eq hm]
    lines := hlines
    instructions := hlines ▸ filter_instructions options m
    labels := by
      rw [hlines, filter_labels,
        flatMap_startingAt hordered (fun _ _ => Nat.zero_le _) (start_lt_size hm)]
    distinct := List.pairwise_map.mpr hordered
    enters := fun p hp => (exists_procedure_iff hm).mp ⟨p, hp, rfl⟩ }

end

/-! ### The code from its listing -/

theorem map_toInstruction_eq {β : Type} {code code' : Code} {f : AnnotatedInstruction → β}
    (h : ∀ i : Nat, code[i]?.map (fun inst => (inst.toInstruction, f inst)) =
      code'[i]?.map fun inst => (inst.toInstruction, f inst)) :
    code.toList.map (·.toInstruction) = code'.toList.map (·.toInstruction) := by
  apply List.ext_getElem?
  intro i
  have hi := congrArg (Option.map Prod.fst) (h i)
  rw [Option.map_map, Option.map_map] at hi
  rw [List.getElem?_map, List.getElem?_map, Array.getElem?_toList, Array.getElem?_toList]
  exact hi

theorem length_depthColumn {depth : Int} (h : 0 ≤ depth ∧ depth < 120) :
    (column 4 (toString depth)).toList.length = 4 := by
  obtain ⟨n, rfl⟩ := Int.eq_ofNat_of_zero_le h.1
  exact length_padLeft (Nat.repr_length n 4 (by decide) (by omega))

theorem length_margin (options : ListingOptions) (i : Nat) {depth depth' : Int}
    (h : 0 ≤ depth ∧ depth < 120) (h' : 0 ≤ depth' ∧ depth' < 120) :
    (margin options i depth).toList.length = (margin options i depth').toList.length := by
  have hcolumn := (length_depthColumn h).trans (length_depthColumn h').symm
  simp only [margin, String.toList_append, List.length_append]
  split
  · simp only [String.toList_append, List.length_append, hcolumn]
  · rfl

theorem length_targetMark (inst : AnnotatedInstruction) : (targetMark inst).toList.length = 2 := by
  unfold targetMark
  split <;> rfl

theorem isTarget_eq_of_targetMark_eq {inst inst' : AnnotatedInstruction}
    (h : targetMark inst = targetMark inst') : inst.isTarget = inst'.isTarget := by
  unfold targetMark at h
  cases hinst : inst.isTarget <;> cases hinst' : inst'.isTarget <;> simp [hinst, hinst'] at h ⊢

theorem shown_of_instructionLine_eq {options : ListingOptions} {i : Nat}
    {inst inst' : AnnotatedInstruction} (hdepth : 0 ≤ inst.depth ∧ inst.depth < 120)
    (hdepth' : 0 ≤ inst'.depth ∧ inst'.depth < 120) (hplain : Plain inst.toInstruction)
    (hplain' : Plain inst'.toInstruction)
    (h : lineOf options i inst = lineOf options i inst') :
    inst.toInstruction = inst'.toInstruction ∧ inst.isTarget = inst'.isTarget := by
  have hmargin := length_margin options i hdepth hdepth'
  rw [lineOf, lineOf, ← text_eq_append, ← text_eq_append] at h
  obtain ⟨hfront, htext⟩ := eq_of_append_eq h
    (by rw [String.toList_append, String.toList_append, List.length_append, List.length_append,
      hmargin, length_targetMark, length_targetMark])
  exact ⟨text_injective hplain hplain' htext,
    isTarget_eq_of_targetMark_eq (eq_of_append_eq hfront hmargin).2⟩

theorem encodeAll_of_decode {bytes : List UInt8} {count : Nat} {code : Code}
    (h : decode bytes count = .ok code) :
    encodeAll (code.toList.map (·.toInstruction)) = bytes := by
  obtain ⟨is, his, rfl⟩ := map_eq_ok.mp h
  obtain ⟨read, rfl, hread⟩ := encodeAll_of_readAll his
  rw [encodeAll_annotate]
  exact hread

theorem plain_of_decode {bytes : List UInt8} {count : Nat} {code : Code}
    (h : decode bytes count = .ok code) {i : Nat} {inst : AnnotatedInstruction}
    (hi : code[i]? = some inst) : Plain inst.toInstruction := by
  intro hwidth hjump
  have hbytes := encodeAll_of_decode h
  have hcode := decode_encodeAll (code.toList.map (·.toInstruction))
  rw [hbytes, List.length_map, Array.length_toList, size_of_decode h, h] at hcode
  have hinst : (code.toList.map (·.toInstruction))[i]? = some inst.toInstruction := by
    rw [List.getElem?_map, Array.getElem?_toList, hi]
    rfl
  have hdecoded := decodedAll_getElem? hinst
  rw [← Except.ok.inj hcode, hi] at hdecoded
  have hoperand : inst.operand =
      (decoded (code.toList.map (·.toInstruction)) i inst.toInstruction).operand :=
    congrArg (·.operand) (Option.some.inj hdecoded)
  rw [hoperand]
  simp [decoded, hwidth, hjump]

/-- What is known of the code of a loaded module beside its rules. -/
structure Stored (m : Module) (image : Image) : Prop where
  encoded : encodeAll (m.code.toList.map (·.toInstruction)) = m.header.codeRegion image
  plain : ∀ (i : Nat) (inst : AnnotatedInstruction), m.code[i]? = some inst →
    Plain inst.toInstruction

theorem stored_of_load {name : String} {image : Image} {m : Module}
    (h : Module.load name image = .ok m) : Stored m image := by
  obtain ⟨code, v, hdecode, hverify, hcode, -⟩ := load_eq_ok h
  obtain ⟨-, -, scan, -, -, rfl⟩ := verify_eq_ok_iff.mp hverify
  have hagree : Agree code m.code := hcode ▸ agree_annotateJumps code scan m.jumpTable?
  refine ⟨map_toInstruction_eq hagree ▸ encodeAll_of_decode hdecode, fun i inst' hi' => ?_⟩
  obtain ⟨inst, hi, hinst, -⟩ := hagree.symm.exists_of hi'
  exact hinst ▸ plain_of_decode hdecode hi

theorem sameInstructions_of_bodyText_eq {options : ListingOptions} {m m' : Module}
    {image image' : Image} (hm : Sound m) (hm' : Sound m') (hstored : Stored m image)
    (hstored' : Stored m' image') (h : bodyText options m = bodyText options m') :
    SameInstructions m.code m'.code := by
  have hlines := (complete hm options).instructions
  rw [h, (complete hm' options).instructions] at hlines
  intro i
  have hline := congrArg (·[i]?) hlines
  simp only [List.getElem?_map, List.getElem?_zipIdx, Array.getElem?_toList] at hline
  cases hi : m.code[i]? with
  | none =>
      cases hi' : m'.code[i]? with
      | none => rfl
      | some inst' => simp [hi, hi'] at hline
  | some inst =>
      cases hi' : m'.code[i]? with
      | none => simp [hi, hi'] at hline
      | some inst' =>
          simp only [hi, hi', Option.map_some, Option.some.injEq] at hline
          obtain ⟨hinst, htarget⟩ := shown_of_instructionLine_eq (hm.rules.depths i inst hi).1
            (hm'.rules.depths i inst' hi').1 (hstored.plain i inst hi) (hstored'.plain i inst' hi')
            hline.symm
          rw [Option.map_some, Option.map_some, hinst, htarget]

theorem codeRegion_eq {m m' : Module} {image image' : Image} (hstored : Stored m image)
    (hstored' : Stored m' image') (h : SameInstructions m.code m'.code) :
    m.header.codeRegion image = m'.header.codeRegion image' := by
  rw [← hstored.encoded, ← hstored'.encoded, map_toInstruction_eq h]

/-- The listing of a loaded module shows every instruction and every procedure once, in code
order, and two modules whose instructions and labels read the same have the same code. -/
theorem listing_complete_and_faithful {name : String} {image : Image} {m : Module}
    (h : Module.load name image = .ok m) (options : ListingOptions) :
    Complete options m ∧
      ∀ (name' : String) (image' : Image) (m' : Module), Module.load name' image' = .ok m' →
        bodyText options m = bodyText options m' →
          SameInstructions m.code m'.code ∧
            m.header.codeRegion image = m'.header.codeRegion image' := by
  have hm := sound_of_load h
  have hstored := stored_of_load h
  refine ⟨complete hm options, fun name' image' m' h' htext => ?_⟩
  have hstored' := stored_of_load h'
  have hsame := sameInstructions_of_bodyText_eq hm (sound_of_load h') hstored hstored' htext
  exact ⟨hsame, codeRegion_eq hstored hstored' hsame⟩

/-- A jump to a constant, in images that differ in their zeroed bytes. -/
def jumpDraft (bss : Nat) : Draft where
  instructions := [⟨.enter, 8⟩, ⟨.const, 3⟩, ⟨.jump, 0⟩, ⟨.push, 0⟩, ⟨.leave, 8⟩]
  bss := bss

def jumpModule (bss : Nat) : Module where
  name := "jump"
  header := (jumpDraft bss).header
  code := #[
    { op := .enter, operand := 8, depth := 0 },
    { op := .const, operand := 3, depth := 0 },
    { op := .jump, operand := 3, depth := 4 },
    { op := .push, depth := 0, isTarget := true },
    { op := .leave, operand := 8, depth := 4 }]
  data := []
  jumpTable? := none
  procedures := #[⟨0, 4, 8, false⟩]

theorem listing_complete_and_faithful_jump :
    Module.load "jump" (jumpDraft 0).build = .ok (jumpModule 0) ∧
      Module.load "jump" (jumpDraft 4).build = .ok (jumpModule 4) ∧
      linesOf (bodyText {} (jumpModule 0)) = ["", "proc_0: ; frame 8",
        "       0    0   enter 8",
        "       1    0   const 3",
        "       2    4   jump ; -> 3",
        "       3    0 > push",
        "       4    4   leave 8"] ∧
      (jumpModule 0).header.codeRegion (jumpDraft 0).build =
        (jumpModule 4).header.codeRegion (jumpDraft 4).build := by
  have hload : Module.load "jump" (jumpDraft 0).build = .ok (jumpModule 0) := by cbv
  have hload' : Module.load "jump" (jumpDraft 4).build = .ok (jumpModule 4) := by cbv
  obtain ⟨hcomplete, hfaithful⟩ := listing_complete_and_faithful hload {}
  refine ⟨hload, hload', hcomplete.lines.trans (by cbv), ?_⟩
  exact (hfaithful "jump" _ (jumpModule 4) hload' rfl).2

end SandboxVm.Proofs.ModuleListing
