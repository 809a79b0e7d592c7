import Mathlib.Data.List.Perm.Basic
import Riescue.LibAssembly
import Riescue.VariableAmo

/-! The index of the test that a scheduler dispatches, `runtime/schedulers`: the tables that the schedulers emit, and the
dispatch code that looks a position up in `dtest_index_map` and in `os_test_sequence`. -/

namespace Riescue.TestIndex
open Machine (Reg readBytes)
open Assembly
open Variables (Variable VariableFault)

abbrev t0 : Reg := 5
abbrev t1 : Reg := 6
abbrev t2 : Reg := 7
abbrev a0 : Reg := 10
abbrev s10 : Reg := 26
abbrev s11 : Reg := 27
abbrev t3 : Reg := 28
abbrev t4 : Reg := 29
abbrev t6 : Reg := 31

abbrev Instr := Assembly.Instr String String

/-- The schedulers that store the index. -/
inductive Scheduler where
  | default | simultaneous | parallel
  deriving DecidableEq, Repr

/-- The data directives. -/
inductive Datum where
  | word (value : ℕ)
  | dword (value : ℤ)
  | pointer (label : String)
  | asciz (text : String)
  deriving DecidableEq, Repr

/-- The data behind a label. -/
structure Table where
  label : String
  entries : List Datum
  deriving DecidableEq, Repr

/-! ### Tables -/

/-- `dtests_sequence` in front of the shuffle. -/
def dtestsSequence (dtests : List String) (repeatTimes : ℤ) (mpParallel : Bool) : List String :=
  if repeatTimes = -1 ∨ mpParallel then dtests else dtests.flatMap fun test => List.replicate repeatTimes.toNat test

/-- The special index of `test_cleanup`. -/
def cleanupIndex : ℕ := 0xFFFFFFFF

/-- `label_to_index.get(test, 0xFFFFFFFF)`: of equal labels the last one has the index. -/
def labelToIndex (dtests : List String) (test : String) : ℕ :=
  match dtests.zipIdx.reverse.find? fun entry => entry.1 = test with
  | some (_, i) => i
  | none => cleanupIndex

/-- `_generate_test_descriptor_table` -/
def generateTestDescriptorTable (rvcpPrintEnabled : Bool) (dtests sequence : List String) : List Table :=
  if rvcpPrintEnabled then
    { label := "dtest_descriptor_table", entries := (List.range dtests.length).map fun i => .pointer s!"dtest_name_{i}" } ::
      dtests.mapIdx (fun i test => { label := s!"dtest_name_{i}", entries := [.asciz test] }) ++
      [{ label := "dtest_index_map", entries := .word cleanupIndex :: sequence.map fun test => .word (labelToIndex dtests test) }]
  else []

/-- `Scheduler.scheduler_variables` -/
def baseVariables (rvcpPrintEnabled : Bool) (dtests sequence : List String) : List Table :=
  { label := "num_runs", entries := [.dword (sequence.length + 1)] } ::
    { label := "os_test_sequence", entries := .pointer "test_cleanup" :: sequence.map .pointer } ::
    generateTestDescriptorTable rvcpPrintEnabled dtests sequence

/-- `ParallelScheduler.scheduler_variables`, without the seeds of the harts and their words. -/
def parallelVariables (repeatTimes : ℤ) (dtests : List String) : List Table :=
  { label := "test_select_lock", entries := [.dword 0] } ::
    { label := "pending_num_runs", entries := [.dword (dtests.length * repeatTimes)] } ::
    { label := "num_runs", entries := [] } ::
    dtests.map (fun test => { label := s!"{test}_num_runs", entries := [.dword repeatTimes] }) ++
    { label := "test_mutexes", entries := [] } ::
    dtests.map (fun test => { label := s!"{test}_mutex", entries := [.dword 0] }) ++
    [{ label := "os_test_sequence", entries := dtests.map .pointer ++ [.pointer "test_cleanup"] }]

def schedulerVariables (scheduler : Scheduler) (rvcpPrintEnabled : Bool) (repeatTimes : ℤ) (dtests sequence : List String) :
    List Table :=
  match scheduler with
  | .default => baseVariables rvcpPrintEnabled dtests sequence
  | .simultaneous => baseVariables rvcpPrintEnabled dtests sequence
  | .parallel => parallelVariables repeatTimes dtests

/-! ### Dispatch -/

def la (rd : Reg) (label : String) : Instr := .core (.li rd (.symbol label 0))

def lw (rd : Reg) (offset : ℤ) (rs1 : Reg) : Instr := .core (.load 4 rd offset rs1)

/-- The part of `scheduler_dispatch` behind the choice of a position, which is in `t2`, in `s10`, or eight times in `a0`: the
index is stored and the address of the test loaded. `storeIndex` is the code that stores `t3` to `current_test_index`. -/
def lookupCode (scheduler : Scheduler) (storeIndex : List Instr) : List Instr :=
  match scheduler with
  | .default =>
      [la t3 "dtest_index_map", .alui .slli t4 t2 2, .add t3 t3 t4, lw t3 0 t3] ++ storeIndex ++
        [.alui .slli t0 t2 3, la t1 "os_test_sequence", .add t0 t0 t1, .ld t1 0 t0]
  | .simultaneous =>
      [.alui .slli s11 s10 3, la t3 "dtest_index_map", .alui .slli t4 s10 2, .add t3 t3 t4, lw t3 0 t3] ++ storeIndex ++
        [la t0 "os_test_sequence", .add s11 s11 t0, .ld t1 0 s11]
  | .parallel =>
      [.alui .srli t3 a0 1, la t4 "dtest_index_map", .add t3 t4 t3, lw t3 0 t3] ++ storeIndex ++
        [la t1 "os_test_sequence", .add t0 a0 t1, .ld t1 0 t0]

/-- The code with the variable `current_test_index`. -/
def dispatchLookup (scheduler : Scheduler) (currentTestIndex : Variable) : Except VariableFault (List Instr) := do
  let storeIndex ← currentTestIndex.store t3 t6 0
  pure (lookupCode scheduler (storeIndex.map .core))

/-- The symbols that the code refers to. -/
def symbolsOf (code : List Instr) : List String :=
  code.filterMap fun
    | .core (.li _ (.symbol name _)) => some name
    | _ => none

/-! ### Tables in memory -/

def Datum.size : Datum → ℕ
  | .word _ => 4
  | .dword _ => 8
  | .pointer _ => 8
  | .asciz text => text.utf8ByteSize + 1

/-- What the memory holds at the address of a datum; no text is read here. -/
def Datum.Holds (symbols : String → BitVec 64) (mem : BitVec 64 → BitVec 8) (addr : BitVec 64) : Datum → Prop
  | .word value => readBytes mem 4 addr = BitVec.ofNat (8 * 4) value
  | .dword value => readBytes mem 8 addr = BitVec.ofInt (8 * 8) value
  | .pointer label => readBytes mem 8 addr = symbols label
  | .asciz _ => True

/-- The data lie one behind the other. -/
def Placed (symbols : String → BitVec 64) (mem : BitVec 64 → BitVec 8) : BitVec 64 → List Datum → Prop
  | _, [] => True
  | addr, datum :: data => datum.Holds symbols mem addr ∧ Placed symbols mem (addr + BitVec.ofNat 64 datum.size) data

/-- The first table with the label. -/
def entriesOf (tables : List Table) (label : String) : List Datum :=
  ((tables.find? fun table => table.label = label).map Table.entries).getD []

/-- A hart that has chosen the position `p`, with the tables in memory. The variable is no part of the test sequence. -/
structure AtPosition (scheduler : Scheduler) (tables : List Table) (v : Variable) (symbols : String → BitVec 64) {σ : Type}
    (h : Hart 64 σ) (p : ℕ) : Prop where
  placed : ∀ label, Placed symbols h.core.mem (symbols label) (entriesOf tables label)
  position : match scheduler with
    | .default => h.get t2 = BitVec.ofNat 64 p
    | .simultaneous => h.get s10 = BitVec.ofNat 64 p
    | .parallel => h.get a0 = BitVec.ofNat 64 (8 * p)
  apart : ∀ i < 8, v.size ≤ (symbols "os_test_sequence" + BitVec.ofNat 64 (8 * p) + BitVec.ofNat 64 i -
    Variables.elementAddress symbols h.core v 0 true).toNat

/-- The index names the test. -/
structure Names (dtests : List String) (label : String) (index : ℕ) : Prop where
  cleanup : index = cleanupIndex ↔ label = "test_cleanup"
  test : label ≠ "test_cleanup" → dtests[index]? = some label

/-- The number that the dictionary gives to the test. -/
structure IsLastIndex (dtests : List String) (test : String) (i : ℕ) : Prop where
  entry : dtests[i]? = some test
  later : test ∉ dtests.drop (i + 1)

/-- The variable of a hart. -/
structure IsHartWord (v : Variable) : Prop where
  hart : v.hartVariable = true
  size : v.size = 8
  index : v.IsIndex 0

/-- The code can be assembled with the tables, and at every position the index that it stores names the test that it is going
to jump to. -/
structure RecordsIndex (scheduler : Scheduler) (tables : List Table) (dtests : List String) (v : Variable) (code : List Instr) :
    Prop where
  defined : ∀ name ∈ symbolsOf code, name ∈ tables.map Table.label
  fits : ∀ table ∈ tables, ∀ value, .word value ∈ table.entries → value < 2 ^ 32
  names : ∀ p label, (entriesOf tables "os_test_sequence")[p]? = some (.pointer label) →
    ∃ index, (entriesOf tables "dtest_index_map")[p]? = some (.word index) ∧ Names dtests label index ∧
      ∀ (σ : Type) (file : CsrFile σ String 64) (symbols : String → BitVec 64) (h : Hart 64 σ),
        AtPosition scheduler tables v symbols h p → ∃ h', runStraight file symbols code h = some h' ∧
          h'.get t1 = symbols label ∧
          readBytes h'.core.mem v.size (Variables.elementAddress symbols h.core v 0 true) =
            ((BitVec.ofNat 32 index).signExtend 64).setWidth (8 * v.size)

theorem placed_getElem {symbols : String → BitVec 64} {mem : BitVec 64 → BitVec 8} {size : ℕ} {data : List Datum}
    (hsize : ∀ datum ∈ data, datum.size = size) {addr : BitVec 64} (hplaced : Placed symbols mem addr data) {k : ℕ}
    {datum : Datum} (hdatum : data[k]? = some datum) : datum.Holds symbols mem (addr + BitVec.ofNat 64 (size * k)) := by
  induction data generalizing addr k with
  | nil => cases hdatum
  | cons first data ih =>
      obtain ⟨hfirst, hrest⟩ := hplaced
      obtain ⟨hfirstSize, hrestSize⟩ := List.forall_mem_cons.mp hsize
      cases k with
      | zero =>
          obtain rfl := Option.some.inj hdatum
          rwa [Nat.mul_zero, BitVec.add_zero]
      | succ k =>
          have h := ih hrestSize hrest hdatum
          rwa [hfirstSize, BitVec.add_assoc, ← BitVec.ofNat_add, Nat.add_comm, ← Nat.mul_succ] at h

/-! ### Runs -/

section Runs
variable {σ : Type} {file : CsrFile σ String 64} {symbols : String → BitVec 64} {h : Hart 64 σ} {p : ℕ}

/-- The code only sets the registers of a list and leaves the memory alone. -/
structure SetsOnly (regs : List Reg) (h h' : Hart 64 σ) : Prop where
  mem : h'.core.mem = h.core.mem
  reg : ∀ r, r ∉ regs → h'.get r = h.get r

theorem SetsOnly.trans {regs : List Reg} {h₁ h₂ h₃ : Hart 64 σ} (h₁₂ : SetsOnly regs h₁ h₂) (h₂₃ : SetsOnly regs h₂ h₃) :
    SetsOnly regs h₁ h₃ := ⟨h₂₃.mem.trans h₁₂.mem, fun r hr => (h₂₃.reg r hr).trans (h₁₂.reg r hr)⟩

theorem setsOnly_set {regs : List Reg} {r : Reg} (hr : r ∈ regs) (h : Hart 64 σ) (value : BitVec 64) :
    SetsOnly regs h (h.set r value) :=
  ⟨Hart.mem_set h r value, fun r' hr' => Hart.get_set_of_ne h (fun heq : r' = r => hr' (heq ▸ hr)) value⟩

/-- The lookup in `dtest_index_map`, from the position in a register. -/
theorem run_loadIndex (file : CsrFile σ String 64) {pos : Reg} (h3 : pos ≠ t3) (hpos : h.get pos = BitVec.ofNat 64 p)
    {index : ℕ} (hindex : readBytes h.core.mem 4 (symbols "dtest_index_map" + BitVec.ofNat 64 (4 * p)) = BitVec.ofNat 32 index) :
    ∃ h', runStraight file symbols [la t3 "dtest_index_map", .alui .slli t4 pos 2, .add t3 t3 t4, lw t3 0 t3] h = some h' ∧
      h'.get t3 = (BitVec.ofNat 32 index).signExtend 64 ∧ SetsOnly [t3, t4] h h' := by
  let h₁ := h.set t3 (symbols "dtest_index_map" + BitVec.ofInt 64 0)
  let h₂ := h₁.set t4 (h₁.get pos <<< 2)
  let h₃ := h₂.set t3 (h₂.get t3 + h₂.get t4)
  have hsets : SetsOnly [t3, t4] h h₃ :=
    ((setsOnly_set (by decide) h _).trans (setsOnly_set (by decide) h₁ _)).trans (setsOnly_set (by decide) h₂ _)
  have haddr : h₃.get t3 + BitVec.ofInt 64 0 = symbols "dtest_index_map" + BitVec.ofNat 64 (4 * p) := by
    have ht3 : h₂.get t3 = symbols "dtest_index_map" := by
      rw [Hart.get_set_of_ne h₁ (by decide), Hart.get_set_self h (by decide), Variables.add_ofInt_zero]
    have ht4 : h₂.get t4 = BitVec.ofNat 64 (4 * p) := by
      rw [Hart.get_set_self h₁ (by decide), Hart.get_set_of_ne h h3, hpos]
      exact ofNat_shiftLeft p 2
    rw [Variables.add_ofInt_zero, Hart.get_set_self h₂ (by decide), ht3, ht4]
  obtain ⟨h', hstep, hget, hmem, -, hother⟩ := step_load file symbols h₃ (by decide : 8 * 4 ≤ 64) (by decide : t3 ≠ 0) 0 t3
  have hlast : SetsOnly [t3, t4] h₃ h' := ⟨hmem, fun r hr => hother r (fun heq => hr (heq ▸ List.mem_cons_self))⟩
  refine ⟨h', ?_, ?_, hsets.trans hlast⟩
  · have hla : step file symbols h (la t3 "dtest_index_map") = some h₁ := rfl
    have hslli : step file symbols h₁ (.alui .slli t4 pos 2) = some h₂ := rfl
    have hadd : step file symbols h₂ (.add t3 t3 t4) = some h₃ := rfl
    have hlw : step file symbols h₃ (lw t3 0 t3) = some h' := hstep
    rw [runStraight_cons hla, runStraight_cons hslli, runStraight_cons hadd, runStraight_cons hlw, runStraight_nil]
  · rw [hget, haddr, hsets.mem, hindex]

/-- The index is stored to the variable, which leaves the test sequence. -/
theorem run_storeIndex (file : CsrFile σ String 64) (symbols : String → BitVec 64) {v : Variable} (hv : IsHartWord v)
    {storeIndex : Variables.Code} (hstore : v.store t3 t6 0 = .ok storeIndex) (h : Hart 64 σ) :
    ∃ h', runStraight file symbols (storeIndex.map .core) h = some h' ∧
      h'.core.mem = Machine.writeBytes h.core.mem v.size (Variables.elementAddress symbols h.core v 0 true)
        ((h.get t3).setWidth (8 * v.size)) ∧ ∀ r, r ≠ t6 → h'.get r = h.get r := by
  have hsize : v.size ∈ [1, 2, 4, 8] := by rw [hv.size]; decide
  obtain ⟨code, hcode, hrun⟩ := @Variables.run_store 64 _ _ hv.index hsize t3 (by decide) true
  obtain rfl := Except.ok.inj (hcode.symm.trans hstore)
  obtain ⟨core, hcore, hmem, -, hother, -⟩ := hrun symbols h.core
  refine ⟨{ h with core }, ?_, hmem, hother⟩
  rw [runStraight_core, hcore, if_pos (by rw [hv.size])]
  rfl

/-- Index and address, once the position is known: the code stores the index that it has loaded, and loads the address from a
register that points to the entry. -/
theorem run_storeAndLoad (file : CsrFile σ String 64) {v : Variable} (hv : IsHartWord v) {storeIndex : Variables.Code}
    (hstore : v.store t3 t6 0 = .ok storeIndex) {label : String} {addr : BitVec 64}
    (hpointer : readBytes h.core.mem 8 addr = symbols label)
    (hapart : ∀ i < 8, v.size ≤ (addr + BitVec.ofNat 64 i - Variables.elementAddress symbols h.core v 0 true).toNat)
    {loadTest : List Instr} {ptr : Reg} (hload : ∀ h₁ : Hart 64 σ, (∀ r, r ≠ t6 → h₁.get r = h.get r) →
      ∃ h₂, runStraight file symbols loadTest h₁ = some h₂ ∧ h₂.get ptr = addr ∧ h₂.core.mem = h₁.core.mem) :
    ∃ h', runStraight file symbols (storeIndex.map .core ++ (loadTest ++ [.ld t1 0 ptr])) h = some h' ∧
      h'.get t1 = symbols label ∧
      readBytes h'.core.mem v.size (Variables.elementAddress symbols h.core v 0 true) = (h.get t3).setWidth (8 * v.size) := by
  obtain ⟨h₁, hrun₁, hmem₁, hother₁⟩ := run_storeIndex file symbols hv hstore h
  obtain ⟨h₂, hrun₂, hptr, hmem₂⟩ := hload h₁ hother₁
  obtain ⟨h₃, hstep₃, hget₃, hmem₃, -, -⟩ := step_ld file symbols h₂ (by decide : t1 ≠ 0) 0 ptr
  refine ⟨h₃, ?_, ?_, ?_⟩
  · rw [runStraight_append hrun₁, runStraight_append hrun₂, runStraight_cons hstep₃]
    rfl
  · rw [hget₃, hptr, Variables.add_ofInt_zero, hmem₂, hmem₁, Machine.readBytes_writeBytes_apart _ _ hapart, hpointer]
  · have hsize : v.size ≤ 2 ^ 64 := by rw [hv.size]; decide
    rw [hmem₃, hmem₂, hmem₁, Machine.readBytes_writeBytes _ hsize]

/-- Both schedulers look the index and the test up at the same position. -/
theorem run_dispatchLookup (file : CsrFile σ String 64) {scheduler : Scheduler} (hscheduler : scheduler ≠ .parallel)
    {tables : List Table} {v : Variable} (hv : IsHartWord v) {code : List Instr} (hcode : dispatchLookup scheduler v = .ok code)
    (hposition : AtPosition scheduler tables v symbols h p) {index : ℕ} {label : String}
    (hindex : readBytes h.core.mem 4 (symbols "dtest_index_map" + BitVec.ofNat 64 (4 * p)) = BitVec.ofNat 32 index)
    (hpointer : readBytes h.core.mem 8 (symbols "os_test_sequence" + BitVec.ofNat 64 (8 * p)) = symbols label) :
    ∃ h', runStraight file symbols code h = some h' ∧ h'.get t1 = symbols label ∧
      readBytes h'.core.mem v.size (Variables.elementAddress symbols h.core v 0 true) =
        ((BitVec.ofNat 32 index).signExtend 64).setWidth (8 * v.size) := by
  obtain ⟨storeIndex, hstore, hcode⟩ := Fallible.bind_ok hcode
  obtain rfl := Except.ok.inj hcode
  have hshift : BitVec.ofNat 64 p <<< 3 = BitVec.ofNat 64 (8 * p) := ofNat_shiftLeft p 3
  have haddr : BitVec.ofNat 64 (8 * p) + (symbols "os_test_sequence" + BitVec.ofInt 64 0) =
      symbols "os_test_sequence" + BitVec.ofNat 64 (8 * p) := by rw [Variables.add_ofInt_zero, BitVec.add_comm]
  cases scheduler with
  | parallel => exact absurd rfl hscheduler
  | default =>
      obtain ⟨h₁, hrun₁, ht3, hsets⟩ := run_loadIndex file (by decide) hposition.position hindex
      have helement : Variables.elementAddress symbols h₁.core v 0 true = Variables.elementAddress symbols h.core v 0 true :=
        Variables.elementAddress_congr (hsets.reg Variables.tp (by decide))
      have hload : ∀ h₂ : Hart 64 σ, (∀ r, r ≠ t6 → h₂.get r = h₁.get r) → ∃ h₃,
          runStraight file symbols [.alui .slli t0 t2 3, la t1 "os_test_sequence", .add t0 t0 t1] h₂ = some h₃ ∧
            h₃.get t0 = symbols "os_test_sequence" + BitVec.ofNat 64 (8 * p) ∧ h₃.core.mem = h₂.core.mem := by
        intro h₂ hother
        let h₃ := h₂.set t0 (h₂.get t2 <<< 3)
        let h₄ := h₃.set t1 (symbols "os_test_sequence" + BitVec.ofInt 64 0)
        refine ⟨h₄.set t0 (h₄.get t0 + h₄.get t1), rfl, ?_, by simp only [h₄, h₃, Hart.mem_set]⟩
        rw [Hart.get_set_self h₄ (by decide), Hart.get_set_of_ne h₃ (by decide), Hart.get_set_self h₂ (by decide),
          Hart.get_set_self h₃ (by decide), hother t2 (by decide), hsets.reg t2 (by decide), hposition.position,
          hshift, haddr]
      obtain ⟨h', hrun', ht1, hstored⟩ := run_storeAndLoad file hv hstore (hsets.mem ▸ hpointer)
        (helement ▸ hposition.apart) hload
      rw [helement, ht3] at hstored
      refine ⟨h', ?_, ht1, hstored⟩
      rw [lookupCode, List.append_assoc, runStraight_append hrun₁]
      exact hrun'
  | simultaneous =>
      let h₀ := h.set s11 (h.get s10 <<< 3)
      have hstep₀ : step file symbols h (.alui .slli s11 s10 3) = some h₀ := rfl
      have hmem₀ : h₀.core.mem = h.core.mem := Hart.mem_set h s11 _
      obtain ⟨h₁, hrun₁, ht3, hsets⟩ := run_loadIndex file (by decide)
        ((Hart.get_set_of_ne h (by decide) _).trans hposition.position : h₀.get s10 = BitVec.ofNat 64 p) (hmem₀ ▸ hindex)
      have hmem₁ : h₁.core.mem = h.core.mem := hsets.mem.trans hmem₀
      have helement : Variables.elementAddress symbols h₁.core v 0 true = Variables.elementAddress symbols h.core v 0 true :=
        Variables.elementAddress_congr ((hsets.reg Variables.tp (by decide)).trans (Hart.get_set_of_ne h (by decide) _))
      have hload : ∀ h₂ : Hart 64 σ, (∀ r, r ≠ t6 → h₂.get r = h₁.get r) → ∃ h₃,
          runStraight file symbols [la t0 "os_test_sequence", .add s11 s11 t0] h₂ = some h₃ ∧
            h₃.get s11 = symbols "os_test_sequence" + BitVec.ofNat 64 (8 * p) ∧ h₃.core.mem = h₂.core.mem := by
        intro h₂ hother
        let h₃ := h₂.set t0 (symbols "os_test_sequence" + BitVec.ofInt 64 0)
        refine ⟨h₃.set s11 (h₃.get s11 + h₃.get t0), rfl, ?_, by simp only [h₃, Hart.mem_set]⟩
        rw [Hart.get_set_self h₃ (by decide), Hart.get_set_of_ne h₂ (by decide), Hart.get_set_self h₂ (by decide),
          hother s11 (by decide), hsets.reg s11 (by decide), Hart.get_set_self h (by decide), hposition.position,
          hshift, haddr]
      obtain ⟨h', hrun', ht1, hstored⟩ := run_storeAndLoad file hv hstore (hmem₁ ▸ hpointer)
        (helement ▸ hposition.apart) hload
      rw [helement, ht3] at hstored
      refine ⟨h', ?_, ht1, hstored⟩
      rw [lookupCode, List.cons_append, List.cons_append, runStraight_cons hstep₀, List.append_assoc]
      exact (runStraight_append hrun₁ _).trans hrun'

end Runs

/-! ### Scheduler Theorems -/

theorem labelToIndex_eq {dtests : List String} {test : String} {i : ℕ} (hlast : IsLastIndex dtests test i) :
    labelToIndex dtests test = i := by
  obtain ⟨hi, htest⟩ := List.getElem?_eq_some_iff.mp hlast.entry
  have hsplit : dtests.zipIdx = (dtests.take i).zipIdx ++ (test, i) :: (dtests.drop (i + 1)).zipIdx (i + 1) := by
    conv_lhs => rw [← List.take_append_drop i dtests, List.drop_eq_getElem_cons hi, htest]
    rw [List.zipIdx_append, List.zipIdx_cons, List.length_take, Nat.min_eq_left hi.le, Nat.zero_add]
  have hnone : ((dtests.drop (i + 1)).zipIdx (i + 1)).reverse.find? (fun entry => entry.1 = test) = none := by
    rw [List.find?_eq_none]
    rintro ⟨label, k⟩ hentry hlabel
    have hmem := List.fst_mem_of_mem_zipIdx (List.mem_reverse.mp hentry)
    exact hlast.later (of_decide_eq_true hlabel ▸ hmem)
  rw [labelToIndex, hsplit, List.reverse_append, List.reverse_cons, List.append_assoc, List.find?_append, hnone]
  simp

theorem exists_isLastIndex {dtests : List String} {test : String} (htest : test ∈ dtests) :
    ∃ i, IsLastIndex dtests test i := by
  induction dtests with
  | nil => cases htest
  | cons first dtests ih =>
      by_cases hrest : test ∈ dtests
      · obtain ⟨i, hi⟩ := ih hrest
        exact ⟨i + 1, hi.entry, hi.later⟩
      · obtain rfl := (List.mem_cons.mp htest).resolve_right hrest
        exact ⟨0, rfl, hrest⟩

theorem mem_of_mem_dtestsSequence {dtests : List String} {repeatTimes : ℤ} {mpParallel : Bool} {test : String}
    (htest : test ∈ dtestsSequence dtests repeatTimes mpParallel) : test ∈ dtests := by
  unfold dtestsSequence at htest
  split at htest
  · exact htest
  · obtain ⟨test', htest', hreplicate⟩ := List.mem_flatMap.mp htest
    exact List.eq_of_mem_replicate hreplicate ▸ htest'

theorem entriesOf_sequence (dtests sequence : List String) :
    entriesOf (baseVariables true dtests sequence) "os_test_sequence" =
      .pointer "test_cleanup" :: sequence.map .pointer := by
  simp [entriesOf, baseVariables]

theorem dtestName_ne (i : ℕ) : s!"dtest_name_{i}" ≠ "dtest_index_map" := by
  intro heq
  have hchars := congrArg String.toList heq
  simp [toString, String.toList_append] at hchars

theorem entriesOf_indexMap (dtests sequence : List String) :
    entriesOf (baseVariables true dtests sequence) "dtest_index_map" =
      .word cleanupIndex :: sequence.map fun test => .word (labelToIndex dtests test) := by
  have hnames : (dtests.mapIdx fun i test => Table.mk s!"dtest_name_{i}" [.asciz test]).find?
      (fun table => table.label = "dtest_index_map") = none := by
    rw [List.find?_eq_none]
    intro table htable
    obtain ⟨i, hi, rfl⟩ := List.mem_mapIdx.mp htable
    simp only [decide_eq_true_eq]
    exact dtestName_ne i
  unfold entriesOf baseVariables generateTestDescriptorTable
  rw [if_pos rfl, List.find?_cons_of_neg (by simp), List.find?_cons_of_neg (by simp), List.cons_append,
    List.find?_cons_of_neg (by simp), List.find?_append, hnames]
  simp

theorem word_mem_baseVariables {dtests sequence : List String} {value : ℕ} {table : Table}
    (htable : table ∈ baseVariables true dtests sequence) (hvalue : .word value ∈ table.entries) :
    value = cleanupIndex ∨ ∃ test ∈ sequence, labelToIndex dtests test = value := by
  unfold baseVariables generateTestDescriptorTable at htable
  simp only [if_true, List.mem_cons, List.mem_append, List.mem_mapIdx, List.not_mem_nil, or_false] at htable
  rcases htable with rfl | rfl | (rfl | ⟨i, hi, rfl⟩) | rfl
  all_goals simp at hvalue
  exact hvalue

theorem append_ne_indexMap (test : String) {suffix : String} {c : Char} (hsuffix : suffix.toList.getLast? = some c)
    (hc : c ≠ 'p') : test ++ suffix ≠ "dtest_index_map" := by
  intro heq
  have hchars := congrArg (fun text => text.toList.getLast?) heq
  simp [String.toList_append, hsuffix, hc] at hchars

theorem indexMap_not_mem_parallel (repeatTimes : ℤ) (dtests : List String) :
    "dtest_index_map" ∉ (parallelVariables repeatTimes dtests).map Table.label := by
  intro hmem
  obtain ⟨table, htable, hlabel⟩ := List.mem_map.mp hmem
  unfold parallelVariables at htable
  simp only [List.mem_cons, List.mem_append, List.mem_map, List.not_mem_nil, or_false] at htable
  obtain ((rfl | rfl | rfl | ⟨test, -, rfl⟩) | rfl | ⟨test, -, rfl⟩) | rfl := htable
  · simp at hlabel
  · simp at hlabel
  · simp at hlabel
  · exact append_ne_indexMap test (by decide : "_num_runs".toList.getLast? = some 's') (by decide) hlabel
  · simp at hlabel
  · exact append_ne_indexMap test (by decide : "_mutex".toList.getLast? = some 'x') (by decide) hlabel
  · simp at hlabel

theorem indexMap_mem_symbolsOf (scheduler : Scheduler) (storeIndex : List Instr) :
    "dtest_index_map" ∈ symbolsOf (lookupCode scheduler storeIndex) := by
  cases scheduler <;> simp [symbolsOf, lookupCode, la, lw]

/-- The numbers of the tests of the sequence stay below the special index, and only a test with the name of the cleanup could
have it. -/
def HasNumbers (dtests sequence : List String) : Prop :=
  ∀ test ∈ sequence, ∀ i, IsLastIndex dtests test i → i < 2 ^ 32 ∧ (i = cleanupIndex ↔ test = "test_cleanup")

theorem hasNumbers_of_length {dtests sequence : List String} (hlength : dtests.length ≤ cleanupIndex)
    (hcleanup : "test_cleanup" ∉ sequence) : HasNumbers dtests sequence := by
  intro test htest i hi
  obtain ⟨hlt, -⟩ := List.getElem?_eq_some_iff.mp hi.entry
  have hbelow : i < cleanupIndex := Nat.lt_of_lt_of_le hlt hlength
  exact ⟨hbelow.trans (by decide), iff_of_false hbelow.ne fun heq => hcleanup (heq ▸ htest)⟩

theorem symbolsOf_store {v : Variable} (hv : IsHartWord v) {storeIndex : Variables.Code}
    (hstore : v.store t3 t6 0 = .ok storeIndex) : symbolsOf (storeIndex.map .core) = [] := by
  have hsize : v.size ∈ [1, 2, 4, 8] := by rw [hv.size]; decide
  cases hfits : Variable.offsetFits12bit (v.offset + 0 * v.size) with
  | true =>
      obtain rfl := Except.ok.inj ((Variable.store_near hv.index hv.hart hsize hfits t3 t6 true).symm.trans hstore)
      rfl
  | false =>
      obtain rfl := Except.ok.inj ((Variable.store_far hv.index hv.hart hsize hfits t3 t6 true).symm.trans hstore)
      rfl

theorem symbolsOf_append (code₁ code₂ : List Instr) : symbolsOf (code₁ ++ code₂) = symbolsOf code₁ ++ symbolsOf code₂ :=
  List.filterMap_append

theorem mem_symbolsOf_base {scheduler : Scheduler} (hscheduler : scheduler ≠ .parallel) {storeIndex : List Instr}
    (hstore : symbolsOf storeIndex = []) {name : String} (hname : name ∈ symbolsOf (lookupCode scheduler storeIndex)) :
    name = "dtest_index_map" ∨ name = "os_test_sequence" := by
  have hnames : name ∈ ["dtest_index_map", "os_test_sequence"] := by
    cases scheduler with
    | parallel => exact absurd rfl hscheduler
    | default =>
        rw [lookupCode, symbolsOf_append, symbolsOf_append, hstore] at hname
        exact hname
    | simultaneous =>
        rw [lookupCode, symbolsOf_append, symbolsOf_append, hstore] at hname
        exact hname
  simpa using hnames

theorem baseVariables_defined (dtests sequence : List String) {name : String}
    (hname : name = "dtest_index_map" ∨ name = "os_test_sequence") :
    name ∈ (baseVariables true dtests sequence).map Table.label := by
  rcases hname with rfl | rfl <;> simp [baseVariables, generateTestDescriptorTable]

theorem names_of_hasNumbers {dtests sequence : List String} (htests : ∀ test ∈ sequence, test ∈ dtests)
    (hnumbers : HasNumbers dtests sequence) {test : String} (htest : test ∈ sequence) :
    Names dtests test (labelToIndex dtests test) := by
  obtain ⟨i, hi⟩ := exists_isLastIndex (htests test htest)
  rw [labelToIndex_eq hi]
  exact ⟨(hnumbers test htest i hi).2, fun _ => hi.entry⟩

/-- Every position of the sequence, with its index. -/
theorem base_position {dtests sequence : List String} {p : ℕ} {label : String}
    (hlabel : (entriesOf (baseVariables true dtests sequence) "os_test_sequence")[p]? = some (.pointer label)) :
    p = 0 ∧ label = "test_cleanup" ∨ label ∈ sequence ∧
      (entriesOf (baseVariables true dtests sequence) "dtest_index_map")[p]? = some (.word (labelToIndex dtests label)) := by
  rw [entriesOf_sequence] at hlabel
  rw [entriesOf_indexMap]
  cases p with
  | zero => exact .inl ⟨rfl, (Datum.pointer.inj (Option.some.inj hlabel)).symm⟩
  | succ p =>
      rw [List.getElem?_cons_succ, List.getElem?_map] at hlabel
      obtain ⟨test, htest, hpointer⟩ := Option.map_eq_some_iff.mp hlabel
      obtain rfl := Datum.pointer.inj hpointer
      refine .inr ⟨List.mem_of_getElem? htest, ?_⟩
      rw [List.getElem?_cons_succ, List.getElem?_map, htest]
      rfl

theorem mem_of_mem_entriesOf {tables : List Table} {label : String} {datum : Datum}
    (hdatum : datum ∈ entriesOf tables label) : ∃ table ∈ tables, datum ∈ table.entries := by
  unfold entriesOf at hdatum
  cases hfind : tables.find? fun table => table.label = label with
  | none =>
      rw [hfind] at hdatum
      cases hdatum
  | some table =>
      rw [hfind] at hdatum
      exact ⟨table, List.mem_of_find?_eq_some hfind, hdatum⟩

theorem recordsIndex_base {scheduler : Scheduler} (hscheduler : scheduler ≠ .parallel) {dtests sequence : List String}
    (htests : ∀ test ∈ sequence, test ∈ dtests) (hnumbers : HasNumbers dtests sequence) {v : Variable} (hv : IsHartWord v)
    {code : List Instr} (hcode : dispatchLookup scheduler v = .ok code) :
    RecordsIndex scheduler (baseVariables true dtests sequence) dtests v code where
  defined := by
    intro name hname
    obtain ⟨storeIndex, hstore, hlookup⟩ := Fallible.bind_ok hcode
    obtain rfl := Except.ok.inj hlookup
    exact baseVariables_defined dtests sequence (mem_symbolsOf_base hscheduler (symbolsOf_store hv hstore) hname)
  fits := by
    intro table htable value hvalue
    obtain rfl | ⟨test, htest, rfl⟩ := word_mem_baseVariables htable hvalue
    · decide
    · obtain ⟨i, hi⟩ := exists_isLastIndex (htests test htest)
      rw [labelToIndex_eq hi]
      exact (hnumbers test htest i hi).1
  names := by
    intro p label hlabel
    have hindex : ∃ index, (entriesOf (baseVariables true dtests sequence) "dtest_index_map")[p]? = some (.word index) ∧
        Names dtests label index := by
      obtain ⟨rfl, rfl⟩ | ⟨htest, hword⟩ := base_position hlabel
      · refine ⟨cleanupIndex, ?_, ⟨fun _ => rfl, fun _ => rfl⟩, fun hne => absurd rfl hne⟩
        rw [entriesOf_indexMap]
        rfl
      · exact ⟨_, hword, names_of_hasNumbers htests hnumbers htest⟩
    obtain ⟨index, hword, hnames⟩ := hindex
    refine ⟨index, hword, hnames, fun σ file symbols h hposition => ?_⟩
    have hwordSize : ∀ datum ∈ entriesOf (baseVariables true dtests sequence) "dtest_index_map", datum.size = 4 := by
      rw [entriesOf_indexMap]
      simp [Datum.size]
    have hpointerSize : ∀ datum ∈ entriesOf (baseVariables true dtests sequence) "os_test_sequence", datum.size = 8 := by
      rw [entriesOf_sequence]
      simp [Datum.size]
    exact run_dispatchLookup file hscheduler hv hcode hposition
      (placed_getElem hwordSize (hposition.placed "dtest_index_map") hword)
      (placed_getElem hpointerSize (hposition.placed "os_test_sequence") hlabel)

theorem hasNumbers_of_recordsIndex {scheduler : Scheduler} {dtests sequence : List String} {v : Variable} {code : List Instr}
    (hrecords : RecordsIndex scheduler (baseVariables true dtests sequence) dtests v code) : HasNumbers dtests sequence := by
  intro test htest i hi
  obtain ⟨p, hp⟩ := List.mem_iff_getElem?.mp htest
  have hlabel : (entriesOf (baseVariables true dtests sequence) "os_test_sequence")[p + 1]? = some (.pointer test) := by
    rw [entriesOf_sequence, List.getElem?_cons_succ, List.getElem?_map, hp]
    rfl
  have hword : (entriesOf (baseVariables true dtests sequence) "dtest_index_map")[p + 1]? = some (.word i) := by
    rw [entriesOf_indexMap, List.getElem?_cons_succ, List.getElem?_map, hp, ← labelToIndex_eq hi]
    rfl
  obtain ⟨index, hindex, hnames, -⟩ := hrecords.names (p + 1) test hlabel
  obtain rfl : i = index := Datum.word.inj (Option.some.inj (hword.symm.trans hindex))
  obtain ⟨table, htable, hentry⟩ := mem_of_mem_entriesOf (List.mem_of_getElem? hword)
  exact ⟨hrecords.fits table htable i hentry, hnames.cleanup⟩

theorem not_recordsIndex_parallel (repeatTimes : ℤ) (dtests dtests' : List String) {v : Variable} {code : List Instr}
    (hcode : dispatchLookup .parallel v = .ok code) :
    ¬ RecordsIndex .parallel (parallelVariables repeatTimes dtests) dtests' v code := by
  intro hrecords
  obtain ⟨storeIndex, -, hlookup⟩ := Fallible.bind_ok hcode
  obtain rfl := Except.ok.inj hlookup
  exact indexMap_not_mem_parallel repeatTimes dtests (hrecords.defined _ (indexMap_mem_symbolsOf .parallel _))

/-- The table of the indices belongs to the layout of the base class, which the parallel scheduler replaces; its dispatch refers
to the table all the same. -/
theorem recordsIndex_iff {scheduler : Scheduler} {repeatTimes : ℤ} {mpParallel : Bool} {dtests sequence : List String}
    (hsequence : sequence.Perm (dtestsSequence dtests repeatTimes mpParallel)) {v : Variable} (hv : IsHartWord v)
    {code : List Instr} (hcode : dispatchLookup scheduler v = .ok code) :
    RecordsIndex scheduler (schedulerVariables scheduler true repeatTimes dtests sequence) dtests v code ↔
      scheduler ≠ .parallel ∧ HasNumbers dtests sequence := by
  have htests : ∀ test ∈ sequence, test ∈ dtests :=
    fun test htest => mem_of_mem_dtestsSequence (hsequence.mem_iff.mp htest)
  cases scheduler with
  | parallel => exact iff_of_false (not_recordsIndex_parallel repeatTimes dtests dtests hcode) fun h => h.1 rfl
  | default =>
      exact ⟨fun h => ⟨nofun, hasNumbers_of_recordsIndex h⟩, fun h => recordsIndex_base h.1 htests h.2 hv hcode⟩
  | simultaneous =>
      exact ⟨fun h => ⟨nofun, hasNumbers_of_recordsIndex h⟩, fun h => recordsIndex_base h.1 htests h.2 hv hcode⟩

/-- `register_hart_variable("current_test_index", value=0xFFFFFFFF)`, here at offset 0 of the context. -/
def currentTestIndex : Variable :=
  { name := "current_test_index", value := 0xFFFFFFFF, size := 8, offset := 0, hartVariable := true }

theorem currentTestIndex_isHartWord : IsHartWord currentTestIndex := ⟨rfl, rfl, le_refl 0, Int.zero_lt_one⟩

theorem recordsIndex_iff_two :
    RecordsIndex .default (schedulerVariables .default true 2 ["test01", "test02"] ["test02", "test01", "test01", "test02"])
      ["test01", "test02"] currentTestIndex (lookupCode .default [.core (.store 8 t3 0 Variables.tp)]) :=
  (recordsIndex_iff (by decide : List.Perm _ (dtestsSequence ["test01", "test02"] 2 false)) currentTestIndex_isHartWord
    rfl).mpr ⟨nofun, hasNumbers_of_length (by decide) (by decide)⟩

theorem not_recordsIndex_parallel_one :
    ∃ code, dispatchLookup .parallel currentTestIndex = .ok code ∧
      ¬ RecordsIndex .parallel (schedulerVariables .parallel true 1 ["test01"] ["test01"]) ["test01"] currentTestIndex code :=
  ⟨lookupCode .parallel [.core (.store 8 t3 0 Variables.tp)], rfl, not_recordsIndex_parallel 1 ["test01"] ["test01"] rfl⟩

end Riescue.TestIndex
