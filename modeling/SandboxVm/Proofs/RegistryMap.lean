import Mathlib.Data.String.Basic
import SandboxVm.Registry
import SandboxVm.Proofs.EntryCall

namespace SandboxVm.Proofs.RegistryMap

open SandboxVm.Proofs.EntryCall
open SandboxVm.Proofs.VerificationScan

variable {δ : Type}

/-! ### Loading apart from the log -/

def loaded (source : ImageSource) (name : String) : Except LoadError Module := do
  let image ← (source.read name).mapError (.unreadable (source.path name))
  Module.load name image

theorem load_eq (source : ImageSource) (name : String) (journal : Journal) :
    ∃ journal', source.load name journal = (loaded source name, journal') := by
  unfold ImageSource.load ImageSource.fetch loaded
  cases source.read name with
  | error reason => exact ⟨_, rfl⟩
  | ok image => exact ⟨_, rfl⟩

theorem name_of_load {name : String} {image : Image} {m : Module}
    (h : Module.load name image = .ok m) : m.name = name := by
  simp only [Module.load, bind_eq_ok] at h
  obtain ⟨header, -, code, -, v, -, hm⟩ := h
  obtain rfl := Except.ok.inj hm
  rfl

theorem name_of_loaded {source : ImageSource} {name : String} {m : Module}
    (h : loaded source name = .ok m) : m.name = name := by
  simp only [loaded, bind_eq_ok] at h
  obtain ⟨image, -, hload⟩ := h
  exact name_of_load hload

/-! ### Fresh instances -/

/-- An instance is the one a registry makes of a module, with nothing logged. -/
def Fresh (r : Registry δ) (m : Module) (syscalls : Syscalls δ) (data : δ) (i : Instance δ) :
    Prop :=
  Instance.create r.canCompile r.settings m syscalls data {} = .ok i

/-- A new instance of a module: it has the services and the host data that it is given, the memory
of the module, and no call in progress. -/
structure NewOf (m : Module) (syscalls : Syscalls δ) (data : δ) (i : Instance δ) : Prop where
  image : i.program.image = m
  syscalls : i.syscalls = syscalls
  data : i.data = data
  arena : i.store.arena = Arena.ofModule m
  programStack : i.store.programStack = Int32.ofNat (Arena.ofModule m).size
  callLevel : i.store.callLevel = 0
  depth : i.store.trace.depth = 0
  entries : i.store.trace.entries.toList = []
  operandTop : i.store.operandTop = 0
  breakpoints : i.store.breakpoints = 0

def Spacious (r : Registry δ) : Prop := CallTrace.empty? r.settings.callTraceCapacity ≠ none

theorem noteAll_quiet (records : List LogRecord) :
    ({} : Journal).noteAll records = {} := by
  induction records with
  | nil => rfl
  | cons record records ih => exact ih

theorem create_journal (canCompile : Bool) (settings : Settings) (m : Module)
    (syscalls : Syscalls δ) (data : δ) (journal : Journal) :
    (∃ i journal', Instance.create canCompile settings m syscalls data {} = .ok i ∧
      Instance.create canCompile settings m syscalls data journal =
        .ok { i with store := { i.store with journal := journal' } } ∧ i.store.journal = {}) ∨
    CallTrace.empty? settings.callTraceCapacity = none ∧
      ∃ journal', Instance.create canCompile settings m syscalls data journal =
        .error journal' := by
  unfold Instance.create
  cases CallTrace.empty? settings.callTraceCapacity with
  | none => exact .inr ⟨rfl, _, rfl⟩
  | some trace => exact .inl ⟨_, _, rfl, rfl, noteAll_quiet _⟩

theorem Fresh.spacious {r : Registry δ} {m : Module} {syscalls : Syscalls δ} {data : δ}
    {i : Instance δ} (h : Fresh r m syscalls data i) : Spacious r := by
  intro hnone
  simp only [Fresh, Instance.create, hnone] at h
  cases h

theorem Fresh.newOf {r : Registry δ} {m : Module} {syscalls : Syscalls δ} {data : δ}
    {i : Instance δ} (h : Fresh r m syscalls data i) : NewOf m syscalls data i := by
  simp only [Fresh, Instance.create, CallTrace.empty?] at h
  split at h
  · cases h
  · rename_i htrace
    split at htrace
    · obtain rfl := Option.some.inj htrace
      obtain rfl := Except.ok.inj h
      exact ⟨rfl, rfl, rfl, rfl, rfl, rfl, rfl, rfl, rfl, rfl⟩
    · cases htrace

/-! ### What a request does to the map -/

/-- A registry is another with the entry of one name set. -/
structure Sets (r : Registry δ) (name : String) (entry : Option (Instance δ))
    (r' : Registry δ) : Prop where
  settings : r'.settings = r.settings
  canCompile : r'.canCompile = r.canCompile
  get? : ∀ other, r'.get? other = if other = name then entry else r.get? other

/-- A fresh instance of a module is put under a name. -/
def Installs (r : Registry δ) (name : String) (m : Module) (syscalls : Syscalls δ) (data : δ)
    (r' : Registry δ) : Prop :=
  ∃ i, Fresh r m syscalls data i ∧ NewOf m syscalls data i ∧ Sets r name (some i) r'

theorem sets_kept (r : Registry δ) (name : String) (journal : Journal) :
    Sets r name (r.get? name) { r with journal } := by
  refine ⟨rfl, rfl, fun other => ?_⟩
  by_cases hother : other = name
  · rw [if_pos hother, hother]
    rfl
  · rw [if_neg hother]
    rfl

theorem get?_insert (instances : Std.ExtTreeMap String (Instance δ)) (name : String)
    (i : Instance δ) (other : String) :
    (instances.insert name i)[other]? = if other = name then some i else instances[other]? := by
  simp only [Std.ExtTreeMap.getElem?_insert, Std.LawfulEqCmp.compare_eq_iff_eq, eq_comm (a := other)]

theorem get?_erase (instances : Std.ExtTreeMap String (Instance δ)) (name other : String) :
    (instances.erase name)[other]? = if other = name then none else instances[other]? := by
  simp only [Std.ExtTreeMap.getElem?_erase, Std.LawfulEqCmp.compare_eq_iff_eq, eq_comm (a := other)]

theorem contains_of_running {r : Registry δ} {name : String} {i : Instance δ}
    (h : r.get? name = some i) : r.instances.contains name = true := by
  rw [Std.ExtTreeMap.contains_eq_isSome_getElem?]
  exact Option.isSome_of_eq_some h

theorem contains_of_free {r : Registry δ} {name : String} (h : r.get? name = none) :
    r.instances.contains name = false := by
  rw [Std.ExtTreeMap.contains_eq_isSome_getElem?]
  exact Option.isSome_eq_false_iff.mpr (Option.isNone_iff_eq_none.mpr h)

theorem install_cases (r : Registry δ) (name : String) (m : Module) (syscalls : Syscalls δ)
    (data : δ) (message : Instance δ → String) :
    (∃ r', r.install name m syscalls data message = (r', true) ∧
      Installs r name m syscalls data r') ∨
    ¬ Spacious r ∧
      ∃ journal, r.install name m syscalls data message = ({ r with journal }, false) := by
  rcases create_journal r.canCompile r.settings m syscalls data r.journal with
    ⟨i, journal, hfresh, hcreate, hquiet⟩ | ⟨hfull, journal, hcreate⟩
  · refine .inl ⟨_, by simp only [Registry.install, hcreate]; rfl, i, hfresh, Fresh.newOf hfresh, ?_⟩
    simp only [← hquiet]
    exact ⟨rfl, rfl, get?_insert r.instances name i⟩
  · exact .inr ⟨fun h => h hfull, journal, by simp only [Registry.install, hcreate]⟩

/-! ### Creating and restarting -/

/-- Create the instance of a name that has to be there, or of one that may be missing. -/
def createBy (optional : Bool) (r : Registry δ) (source : ImageSource) (name : String)
    (syscalls : Syscalls δ) (data : δ) : Registry δ × CreateOutcome :=
  if optional then r.createOptional source name syscalls data
  else r.create source name syscalls data

theorem createBy_of_not_failed {r r' : Registry δ} {source : ImageSource} {name : String}
    {syscalls : Syscalls δ} {data : δ} {outcome : CreateOutcome}
    (h : r.create source name syscalls data = (r', outcome)) (hok : ∀ e, outcome ≠ .failed e)
    (optional : Bool) : createBy optional r source name syscalls data = (r', outcome) := by
  cases optional with
  | false => exact h
  | true =>
      simp only [createBy, if_true, Registry.createOptional, h]
      cases outcome with
      | failed e => exact absurd rfl (hok e)
      | running => rfl
      | crashed => rfl

/-- The instance of a name that is running is kept, whatever else is asked for. -/
theorem createBy_running {r : Registry δ} {name : String} {i : Instance δ}
    (h : r.get? name = some i) :
    ∃ journal, ∀ optional source syscalls data,
      createBy optional r source name syscalls data = ({ r with journal }, .running) :=
  ⟨_, fun optional _ _ _ => createBy_of_not_failed (if_pos (contains_of_running h))
    (fun _ h => CreateOutcome.noConfusion h) optional⟩

theorem createBy_failed {r : Registry δ} {source : ImageSource} {name : String} {e : LoadError}
    (hfree : r.get? name = none) (h : loaded source name = .error e) (optional : Bool)
    (syscalls : Syscalls δ) (data : δ) :
    ∃ journal, createBy optional r source name syscalls data =
      ({ r with journal }, .failed e) := by
  obtain ⟨journal, hload⟩ := load_eq source name r.journal
  have hcreate : r.create source name syscalls data = ({ r with journal }, .failed e) := by
    simp only [Registry.create, contains_of_free hfree, hload, h]
    rfl
  cases optional with
  | false => exact ⟨journal, hcreate⟩
  | true =>
      simp only [createBy, if_true, Registry.createOptional, hcreate]
      exact ⟨_, rfl⟩

theorem createBy_loaded {r : Registry δ} {source : ImageSource} {name : String} {m : Module}
    (hfree : r.get? name = none) (h : loaded source name = .ok m) (optional : Bool)
    (syscalls : Syscalls δ) (data : δ) :
    (∃ r', createBy optional r source name syscalls data = (r', .running) ∧
      Installs r name m syscalls data r') ∨
    ¬ Spacious r ∧ ∃ journal,
      createBy optional r source name syscalls data = ({ r with journal }, .crashed) := by
  obtain ⟨journal, hload⟩ := load_eq source name r.journal
  rcases install_cases { r with journal } name m syscalls data fun i =>
      "`" ++ name ++ "` loaded (" ++ (if i.compiled then "compiled" else "interpreted") ++ ")" with
    ⟨r', hinstall, i, hfresh, hnew, hsets⟩ | ⟨hfull, journal', hinstall⟩
  · have hcreate : r.create source name syscalls data = (r', .running) := by
      simp [Registry.create, contains_of_free hfree, hload, h, hinstall]
    exact .inl ⟨r', createBy_of_not_failed hcreate (fun _ h => CreateOutcome.noConfusion h)
      optional, i, hfresh, hnew, hsets.settings, hsets.canCompile, hsets.get?⟩
  · have hcreate : r.create source name syscalls data =
        ({ r with journal := journal' }, .crashed) := by
      simp [Registry.create, contains_of_free hfree, hload, h, hinstall]
    exact .inr ⟨hfull, journal', createBy_of_not_failed hcreate
      (fun _ h => CreateOutcome.noConfusion h) optional⟩

theorem restart_missing {r : Registry δ} {name : String} (h : r.get? name = none)
    (source : ImageSource) : r.restart source name = (r, .notRunning) := by
  simp only [Registry.restart, h]

theorem insert_erase {instances : Std.ExtTreeMap String (Instance δ)} {name : String}
    {old : Instance δ} (h : instances[name]? = some old) :
    (instances.erase name).insert name old = instances := by
  apply Std.ExtTreeMap.ext_getElem?
  intro other
  rw [get?_insert, get?_erase]
  by_cases hother : other = name
  · rw [if_pos hother, hother, h]
  · rw [if_neg hother, if_neg hother]

theorem restart_failed {r : Registry δ} {source : ImageSource} {name : String} {e : LoadError}
    {old : Instance δ} (hold : r.get? name = some old) (h : loaded source name = .error e) :
    ∃ journal, r.restart source name = ({ r with journal }, .failed e) := by
  obtain ⟨journal, hload⟩ := load_eq source name r.journal
  exact ⟨journal, by simp only [Registry.restart, hold, hload, h, insert_erase hold]⟩

theorem restart_loaded {r : Registry δ} {source : ImageSource} {name : String} {m : Module}
    {old : Instance δ} (hold : r.get? name = some old) (h : loaded source name = .ok m) :
    (∃ r', r.restart source name = (r', .restarted) ∧
      Installs r name m old.syscalls old.data r') ∨
    ¬ Spacious r ∧ ∃ r', r.restart source name = (r', .crashed) ∧ Sets r name none r' := by
  obtain ⟨journal, hload⟩ := load_eq source name r.journal
  have herased := get?_erase r.instances name
  rcases install_cases { r with journal, instances := r.instances.erase name } name m old.syscalls
      old.data fun _ => "`" ++ name ++ "` restarted" with
    ⟨r', hinstall, i, hfresh, hnew, hsets⟩ | ⟨hfull, journal', hinstall⟩
  · refine .inl ⟨r', by simp only [Registry.restart, hold, hload, h, hinstall], i, hfresh, hnew,
      hsets.settings, hsets.canCompile, fun other => ?_⟩
    rw [hsets.get?, Registry.get?, herased]
    split <;> rfl
  · refine .inr ⟨hfull, { r with journal := journal', instances := r.instances.erase name }, ?_,
      rfl, rfl, herased⟩
    simp only [Registry.restart, hold, hload, h, hinstall]

/-! ### Freeing and using -/

theorem free_spec (r : Registry δ) (name : String) :
    (r.free name).2 = (r.get? name).map (·.data) ∧ Sets r name none (r.free name).1 := by
  unfold Registry.free
  cases h : r.get? name with
  | none =>
      have hkept := sets_kept r name r.journal
      rw [h] at hkept
      exact ⟨rfl, hkept⟩
  | some i => exact ⟨rfl, rfl, rfl, get?_erase r.instances name⟩

theorem get?_foldl_free (names : List String) (r : Registry δ) (other : String) :
    (names.foldl (fun r name => (r.free name).1) r).get? other =
      if other ∈ names then none else r.get? other := by
  induction names generalizing r with
  | nil => rfl
  | cons name names ih =>
      rw [List.foldl_cons, ih, (free_spec r name).2.get?]
      by_cases hname : other = name <;> by_cases hnames : other ∈ names <;>
        simp [hname, hnames]

theorem mem_names_iff (r : Registry δ) (name : String) :
    name ∈ r.names ↔ ∃ i, r.get? name = some i := by
  rw [Registry.names, Std.ExtTreeMap.mem_keys, Std.ExtTreeMap.mem_iff_isSome_getElem?,
    Option.isSome_iff_exists]
  rfl

theorem get?_freeAll (r : Registry δ) (name : String) : r.freeAll.get? name = none := by
  rw [Registry.freeAll, get?_foldl_free]
  split
  · rfl
  case isFalse hname =>
      cases h : r.get? name with
      | none => rfl
      | some i => exact absurd ((mem_names_iff r name).mpr ⟨i, h⟩) hname

theorem callWith_program (α : Type) [Engine α] (i : Instance δ) (fuel : Nat)
    (args : List Word) : (i.callWith α fuel args).1.program = i.program := by
  obtain ⟨program, syscalls, compiled, store, data⟩ := i
  simp only [Instance.callWith]
  split <;> rfl

theorem call_program (i : Instance δ) (fuel : Nat) (args : List Word) :
    (i.call fuel args).1.program = i.program := by
  unfold Instance.call
  split
  · exact callWith_program Native.Activation i fuel args
  · exact callWith_program Activation i fuel args

/-! ### Requests -/

/-- A request to a registry. One that may load comes with the images there are at the time. -/
inductive Request (δ : Type) where
  | create (optional : Bool) (source : ImageSource) (name : String) (syscalls : Syscalls δ)
    (data : δ)
  | restart (source : ImageSource) (name : String)
  | free (name : String)
  | freeAll
  | call (name : String) (fuel : Nat) (args : List Word)
  | lookup (name : String)
  /-- Look an instance up and change its host data. -/
  | edit (name : String) (change : δ → δ)

namespace Request

def name? : Request δ → Option String
  | create _ _ name _ _ | restart _ name | free name | call name _ _ | lookup name
  | edit name _ => some name
  | freeAll => none

def apply (r : Registry δ) : Request δ → Registry δ
  | create optional source name syscalls data => (createBy optional r source name syscalls data).1
  | restart source name => (r.restart source name).1
  | free name => (r.free name).1
  | freeAll => r.freeAll
  | call name fuel args => (r.call fuel name args).1
  | lookup _ => r
  | edit name change => r.modifyData name change

end Request

/-- What a request may leave under the name it is given. -/
inductive MayHold (r : Registry δ) (name : String) : Option (Instance δ) → Prop where
  | kept : MayHold r name (r.get? name)
  | fresh {m : Module} {syscalls : Syscalls δ} {data : δ} {i : Instance δ} (hname : m.name = name)
    (hfresh : Fresh r m syscalls data i) : MayHold r name (some i)
  | used {old i : Instance δ} (hold : r.get? name = some old) (hprogram : i.program = old.program) :
    MayHold r name (some i)
  | removed : MayHold r name none

/-- All that a request does which is given a name. -/
def Acts (r : Registry δ) (name : String) (r' : Registry δ) : Prop :=
  ∃ entry, MayHold r name entry ∧ Sets r name entry r'

theorem acts_kept (r : Registry δ) (name : String) (journal : Journal) :
    Acts r name { r with journal } :=
  ⟨_, .kept, sets_kept r name journal⟩

theorem Installs.acts {r r' : Registry δ} {name : String} {m : Module} {syscalls : Syscalls δ}
    {data : δ} (h : Installs r name m syscalls data r') (hname : m.name = name) :
    Acts r name r' := by
  obtain ⟨i, hfresh, -, hsets⟩ := h
  exact ⟨some i, .fresh hname hfresh, hsets⟩

theorem createBy_acts (optional : Bool) (r : Registry δ) (source : ImageSource) (name : String)
    (syscalls : Syscalls δ) (data : δ) :
    Acts r name (createBy optional r source name syscalls data).1 := by
  cases hentry : r.get? name with
  | some i =>
      obtain ⟨journal, hrunning⟩ := createBy_running hentry
      rw [hrunning]
      exact acts_kept r name journal
  | none =>
      cases hload : loaded source name with
      | error e =>
          obtain ⟨journal, hfailed⟩ := createBy_failed hentry hload optional syscalls data
          rw [hfailed]
          exact acts_kept r name journal
      | ok m =>
          rcases createBy_loaded hentry hload optional syscalls data with
            ⟨r', hcreate, hinstalls⟩ | ⟨-, journal, hcrashed⟩
          · rw [hcreate]
            exact hinstalls.acts (name_of_loaded hload)
          · rw [hcrashed]
            exact acts_kept r name journal

theorem restart_acts (r : Registry δ) (source : ImageSource) (name : String) :
    Acts r name (r.restart source name).1 := by
  cases hentry : r.get? name with
  | none =>
      rw [restart_missing hentry source]
      exact acts_kept r name r.journal
  | some old =>
      cases hload : loaded source name with
      | error e =>
          obtain ⟨journal, hfailed⟩ := restart_failed hentry hload
          rw [hfailed]
          exact acts_kept r name journal
      | ok m =>
          rcases restart_loaded hentry hload with
            ⟨r', hrestart, hinstalls⟩ | ⟨-, r', hcrashed, hsets⟩
          · rw [hrestart]
            exact hinstalls.acts (name_of_loaded hload)
          · rw [hcrashed]
            exact ⟨none, .removed, hsets⟩

theorem call_acts (r : Registry δ) (fuel : Nat) (name : String) (args : List Word) :
    Acts r name (r.call fuel name args).1 := by
  unfold Registry.call
  cases hentry : r.get? name with
  | none => exact acts_kept r name r.journal
  | some i =>
      let after := (Instance.call { i with store := { i.store with journal := r.journal } }
        fuel args).1
      refine ⟨_, .used (i := { after with store := { after.store with journal := {} } }) hentry
        (call_program _ fuel args), rfl, rfl, fun other => ?_⟩
      simp only [Registry.get?, get?_insert, get?_erase]
      split <;> rfl

theorem modifyData_acts (r : Registry δ) (name : String) (change : δ → δ) :
    Acts r name (r.modifyData name change) := by
  unfold Registry.modifyData
  cases hentry : r.get? name with
  | none => exact acts_kept r name r.journal
  | some i =>
      exact ⟨_, .used (i := { i with data := change i.data }) hentry rfl, rfl, rfl,
        get?_insert r.instances name _⟩

theorem apply_acts (r : Registry δ) {q : Request δ} {name : String} (h : q.name? = some name) :
    Acts r name (q.apply r) := by
  cases q with
  | freeAll => cases h
  | create optional source _ syscalls data =>
      obtain rfl := Option.some.inj h
      exact createBy_acts optional r source _ syscalls data
  | restart source _ =>
      obtain rfl := Option.some.inj h
      exact restart_acts r source _
  | free _ =>
      obtain rfl := Option.some.inj h
      exact ⟨none, .removed, (free_spec r _).2⟩
  | call _ fuel args =>
      obtain rfl := Option.some.inj h
      exact call_acts r fuel _ args
  | lookup _ =>
      obtain rfl := Option.some.inj h
      exact acts_kept r _ r.journal
  | edit _ change =>
      obtain rfl := Option.some.inj h
      exact modifyData_acts r _ change

/-! ### What holds at any time -/

/-- Every instance runs a module of its name, and there is room for another like it. -/
structure Invariant (r : Registry δ) : Prop where
  named : ∀ name i, r.get? name = some i → i.name = name
  spacious : ∀ name i, r.get? name = some i → Spacious r

theorem Acts.invariant {r r' : Registry δ} {name : String} (h : Acts r name r')
    (hr : Invariant r) : Invariant r' := by
  obtain ⟨entry, hentry, hsets⟩ := h
  have hspacious (hs : Spacious r) : Spacious r' := by
    unfold Spacious
    rw [hsets.settings]
    exact hs
  have hnew (i : Instance δ) (hi : entry = some i) : i.name = name ∧ Spacious r := by
    cases hentry with
    | kept => exact ⟨hr.named name i hi, hr.spacious name i hi⟩
    | fresh hname hfresh =>
        obtain rfl := Option.some.inj hi
        exact ⟨by rw [Instance.name, hfresh.newOf.image, hname], hfresh.spacious⟩
    | used hold hprogram =>
        obtain rfl := Option.some.inj hi
        refine ⟨?_, hr.spacious name _ hold⟩
        rw [Instance.name, hprogram]
        exact hr.named name _ hold
    | removed => cases hi
  refine ⟨fun other i hi => ?_, fun other i hi => hspacious ?_⟩ <;>
    rw [hsets.get?] at hi <;> split at hi
  · rename_i hother
    rw [hother]
    exact (hnew i hi).1
  · exact hr.named other i hi
  · exact (hnew i hi).2
  · exact hr.spacious other i hi

theorem invariant_of_vacant {r : Registry δ} (h : ∀ name, r.get? name = none) : Invariant r := by
  have hnone (name : String) (i : Instance δ) (hi : r.get? name = some i) : False := by
    rw [h] at hi
    cases hi
  exact ⟨fun name i hi => (hnone name i hi).elim, fun name i hi => (hnone name i hi).elim⟩

theorem apply_invariant (q : Request δ) {r : Registry δ} (hr : Invariant r) :
    Invariant (q.apply r) := by
  cases hname : q.name? with
  | some name => exact (apply_acts r hname).invariant hr
  | none =>
      cases q with
      | freeAll => exact invariant_of_vacant (get?_freeAll r)
      | create | restart | free | call | lookup | edit => cases hname

def run (r : Registry δ) (requests : List (Request δ)) : Registry δ :=
  requests.foldl Request.apply r

theorem run_invariant (requests : List (Request δ)) {r : Registry δ} (hr : Invariant r) :
    Invariant (run r requests) := by
  induction requests generalizing r with
  | nil => exact hr
  | cons q requests ih => exact ih (apply_invariant q hr)

theorem invariant_empty (settings : Settings) (canCompile : Bool) (journal : Journal) :
    Invariant ({ settings, canCompile, journal } : Registry δ) :=
  invariant_of_vacant fun name => Std.ExtTreeMap.getElem?_empty (a := name)

/-- The laws of a map of instances with atomic requests. Where only the log may have changed,
the new registry is spelled out. -/
structure Lawful (r : Registry δ) : Prop where
  /-- The names are listed in ascending order, without repetition. -/
  ascending : r.names.Pairwise (· < ·)
  mem_names : ∀ name, name ∈ r.names ↔ ∃ i, r.get? name = some i
  named : ∀ name i, r.get? name = some i → i.name = name
  /-- A request changes at most the entry of the name it is given. -/
  frame : ∀ (q : Request δ) name, q.name? = some name → ∃ entry, Sets r name entry (q.apply r)
  /-- The instance of a running name is kept. Nothing is loaded, and the new syscalls and data
  are ignored. -/
  create_running : ∀ name i, r.get? name = some i →
    ∃ journal, ∀ optional source syscalls data,
      createBy optional r source name syscalls data = ({ r with journal }, .running)
  create_loaded : ∀ optional source name syscalls data m, r.get? name = none →
    loaded source name = .ok m → Spacious r →
      ∃ r', createBy optional r source name syscalls data = (r', .running) ∧
        Installs r name m syscalls data r'
  create_failed : ∀ optional source name syscalls data e, r.get? name = none →
    loaded source name = .error e →
      ∃ journal, createBy optional r source name syscalls data = ({ r with journal }, .failed e)
  restart_missing : ∀ source name, r.get? name = none → r.restart source name = (r, .notRunning)
  restart_failed : ∀ source name old e, r.get? name = some old → loaded source name = .error e →
    ∃ journal, r.restart source name = ({ r with journal }, .failed e)
  restart_loaded : ∀ source name old m, r.get? name = some old → loaded source name = .ok m →
    ∃ r', r.restart source name = (r', .restarted) ∧ Installs r name m old.syscalls old.data r'
  free : ∀ name, (r.free name).2 = (r.get? name).map (·.data) ∧ Sets r name none (r.free name).1
  freeAll : ∀ name, r.freeAll.get? name = none

theorem Invariant.lawful {r : Registry δ} (hr : Invariant r) : Lawful r where
  ascending := Std.ExtTreeMap.ordered_keys.imp compare_lt_iff_lt.mp
  mem_names := mem_names_iff r
  named := hr.named
  frame := by
    intro q name h
    obtain ⟨entry, -, hsets⟩ := apply_acts r h
    exact ⟨entry, hsets⟩
  create_running := fun _ _ h => createBy_running h
  create_loaded := by
    intro optional source name syscalls data m hfree hload hspacious
    rcases createBy_loaded hfree hload optional syscalls data with h | ⟨hfull, -⟩
    · exact h
    · exact absurd hspacious hfull
  create_failed := fun optional _ _ syscalls data _ hfree hload =>
    createBy_failed hfree hload optional syscalls data
  restart_missing := fun source _ h => restart_missing h source
  restart_failed := fun _ _ _ _ hold hload => restart_failed hold hload
  restart_loaded := by
    intro source name old m hold hload
    rcases restart_loaded hold hload with h | ⟨hfull, -⟩
    · exact h
    · exact absurd (hr.spacious name old hold) hfull
  free := free_spec r
  freeAll := get?_freeAll r

/-- A registry that starts empty obeys the laws after any requests, whatever images each of
them finds. -/
theorem registry_lawful (settings : Settings) (canCompile : Bool) (journal : Journal)
    (requests : List (Request δ)) :
    Lawful (run { settings, canCompile, journal } requests) :=
  (run_invariant requests (invariant_empty settings canCompile journal)).lawful

/-- A place where there is one image, for any name, or none. -/
def place (image? : Option Image) : ImageSource where
  path := id
  read := fun _ => match image? with
    | some image => .ok image
    | none => .error "not found"
  announces := false

/-- An instance that runs survives a restart without an image and is replaced by one with it, which
has its host data. -/
theorem registry_lawful_unfed :
    ∃ (r r' : Registry Nat) (old fresh : Instance Nat),
    r = run {} [.create false (place (some unfedLoad.build)) "unfed" {} 5] ∧
    Lawful r ∧ r.get? "unfed" = some old ∧
    (∃ journal, r.restart (place none) "unfed" =
      ({ r with journal }, .failed (.unreadable "unfed" "not found"))) ∧
    r.restart (place (some unfedLoad.build)) "unfed" = (r', .restarted) ∧
    Fresh r unfedLoadModule old.syscalls old.data fresh ∧ fresh.data = 5 ∧
    r'.get? "unfed" = some fresh := by
  have hgood : loaded (place (some unfedLoad.build)) "unfed" = .ok unfedLoadModule :=
    load_unfedLoad
  have hbad : loaded (place none) "unfed" = .error (.unreadable "unfed" "not found") := rfl
  have hspacious : CallTrace.empty? ({} : Settings).callTraceCapacity ≠ none := by decide
  have hempty := (registry_lawful {} false {} [] : Lawful ({} : Registry Nat))
  obtain ⟨r, hcreate, old, -, hnew, hsets⟩ := hempty.create_loaded false _ "unfed" {} 5
    unfedLoadModule rfl hgood hspacious
  have hr : r = run {} [.create false (place (some unfedLoad.build)) "unfed" {} 5] :=
    (congrArg Prod.fst hcreate).symm
  have hlawful : Lawful r := hr ▸ registry_lawful {} false {} _
  have hold : r.get? "unfed" = some old := by rw [hsets.get?, if_pos rfl]
  obtain ⟨r', hrestart, fresh, hfresh, hnew', hsets'⟩ := hlawful.restart_loaded _ "unfed" old
    unfedLoadModule hold hgood
  exact ⟨r, r', old, fresh, hr, hlawful, hold, hlawful.restart_failed _ "unfed" old _ hold hbad,
    hrestart, hfresh, hnew'.data.trans hnew.data, by rw [hsets'.get?, if_pos rfl]⟩

end SandboxVm.Proofs.RegistryMap
