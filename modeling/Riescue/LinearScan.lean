import Riescue.LibExcept
import Riescue.LibOrderedDict
import Riescue.LibStableSort
import Riescue.PrivilegeBlocks
import Riescue.RandNum

/-! The register allocator, `allocator/linear_scan.py` and `allocator/register_pool.py`: the live intervals of the
values are visited by their start, each gets a free register, or a value is spilled. The instruction classes and the
list of registers come from the package `coretp`; the list is a parameter. -/

namespace Riescue.LinearScan
open StableSort (sortBy)
open PrivilegeBlocks (PrivilegeBlockMarkerInstruction)
variable {Ty : Type} [DecidableEq Ty]

/-- A register; `special` are the classes that the pool ignores. -/
structure Register (Ty : Type) where
  name : String
  special : Bool
  regType : Ty
  deriving DecidableEq, Repr

inductive OperandVal (Ty : Type) where
  | none
  | str (val : String)
  | int (val : ℤ)
  | register (register : Register Ty)
  deriving DecidableEq, Repr

structure Operand (Ty : Type) where
  type : Ty
  val : OperandVal Ty
  isRegister : Bool
  deriving DecidableEq, Repr

structure Instruction (Ty : Type) where
  name : String
  instructionId : String
  destination : Option (Operand Ty)
  source : List (Operand Ty)
  clobbers : List String
  /-- The values of `rs1()` and `immediate_operand()`, which are looked up by name and by type. -/
  rs1 : Option (OperandVal Ty)
  immediateOperand : Option (OperandVal Ty)
  marker : Option PrivilegeBlockMarkerInstruction
  deriving DecidableEq, Repr

structure Interval (Ty : Type) where
  start : ℕ
  stop : ℕ
  regName : String
  regType : Ty
  deriving DecidableEq, Repr

inductive Slot (Ty : Type) where
  | register (register : Register Ty)
  | stack (offset : ℕ)
  deriving DecidableEq, Repr

structure VariableRecord (Ty : Type) where
  start : ℕ
  stop : ℕ
  slot : Slot Ty
  deriving DecidableEq, Repr

inductive AllocFault where
  | badDestination (instructionId : String)
  | badJalr (instructionId : String)
  | keyError (key : String)
  | alreadyAllocated (tempRegName : String)
  | noRegistersLeft
  | hardCodedNotFound (name : String)
  | stopIteration
  | spillInPrivilegeBlock (regName : String)
  deriving DecidableEq, Repr

/-! ### Live intervals -/

/-- `_is_literal_register` -/
def isLiteralRegister (val : String) : Bool :=
  match val.toList with
  | first :: second :: rest =>
      let digits := (second :: rest).all Char.isDigit
      if first = 'r' ∧ digits then false
      else if first ∈ ['x', 'f', 'v'] ∧ digits then true
      else decide (val ∈ ["zero", "ra", "sp", "gp", "tp", "t0", "t1", "t2", "t3", "t4", "t5", "t6",
        "s0", "s1", "s2", "s3", "s4", "s5", "s6", "s7", "s8", "s9", "s10", "s11",
        "a0", "a1", "a2", "a3", "a4", "a5", "a6", "a7"])
  | _ => false

/-- The register that the destination hard-codes. -/
def Instruction.hardCoded (instr : Instruction Ty) : Option (Register Ty) :=
  match instr.destination with
  | some ⟨_, .register register, true⟩ => some register
  | _ => none

/-- The name of the value that an instruction defines. -/
def Instruction.definedName (instr : Instruction Ty) : Option String :=
  match instr.destination with
  | some ⟨_, .register _, true⟩ => some instr.instructionId
  | some ⟨_, .str name, true⟩ => some name
  | _ => none

/-- The value that a source reads, literal registers aside. -/
def Operand.usedName (src : Operand Ty) : Option String :=
  match src with
  | ⟨_, .str name, true⟩ => if isLiteralRegister name then none else some name
  | _ => none

/-- The dictionary of the live intervals. -/
abbrev LiveIntervals (Ty : Type) := List (String × Interval Ty)

/-- The first loop of `_analyze` for one instruction. -/
def analyzeDestination (instr : Instruction Ty) (i : ℕ) (intervals : LiveIntervals Ty) :
    Except AllocFault (LiveIntervals Ty) :=
  match instr.destination with
  | none => .ok intervals
  | some dest =>
      if !dest.isRegister then .ok intervals
      else
        match instr.definedName with
        | none => .error (.badDestination instr.instructionId)
        | some name =>
            match OrderedDict.get? intervals name with
            | none => .ok (OrderedDict.insert intervals name ⟨i, i, name, dest.type⟩)
            | some interval =>
                .ok (OrderedDict.insert intervals name { interval with start := min interval.start i })

/-- The second loop of `_analyze` for one operand. -/
def analyzeSource (i : ℕ) (intervals : LiveIntervals Ty) (src : Operand Ty) : LiveIntervals Ty :=
  match src.usedName with
  | none => intervals
  | some name =>
      let interval := (OrderedDict.get? intervals name).getD ⟨i, i, name, src.type⟩
      OrderedDict.insert intervals name { interval with stop := max interval.stop i }

/-- `_analyze` -/
def analyze (instructions : List (Instruction Ty)) : Except AllocFault (LiveIntervals Ty) := do
  let intervals ← instructions.zipIdx.foldlM (fun intervals entry => analyzeDestination entry.1 entry.2 intervals) []
  pure (instructions.zipIdx.foldl (fun intervals entry => entry.1.source.foldl (analyzeSource entry.2) intervals) intervals)

/-! ### Clobbers, hard-coded registers and privilege blocks -/

/-- `instr_map[instruction_id]`, the last instruction of an id. -/
def instrMap (instructions : List (Instruction Ty)) (instructionId : String) : Option (Instruction Ty) :=
  instructions.reverse.find? fun instr => instr.instructionId = instructionId

/-- The registers that one instruction clobbers, none for an instruction without an entry. -/
def clobberedBy (instructions : List (Instruction Ty)) (globalFunctionClobbers : List (String × List (Register Ty)))
    (instr : Instruction Ty) : Except AllocFault (Option (List String)) :=
  if instr.name = "jalr_ra" then
    match instr.rs1 with
    | some (.str rs1) =>
        match instrMap instructions rs1 with
        | none => .error (.keyError rs1)
        | some li =>
            match li.immediateOperand with
            | some (.str callLabel) =>
                .ok ((OrderedDict.get? globalFunctionClobbers callLabel).map (List.map Register.name))
            | _ => .ok none
    | _ => .error (.badJalr instr.instructionId)
  else .ok (if instr.clobbers = [] then none else some instr.clobbers)

/-- `_clobber_map` -/
def clobberMap (instructions : List (Instruction Ty)) (globalFunctionClobbers : List (String × List (Register Ty))) :
    Except AllocFault (List (ℕ × List String)) :=
  instructions.zipIdx.foldlM
    (fun clobbered entry => do
      match ← clobberedBy instructions globalFunctionClobbers entry.1 with
      | none => pure clobbered
      | some names => pure (clobbered ++ [(entry.2, names)])) []

/-- The last instruction that uses a value, from the one that defines it. -/
def lastUse (instructions : List (Instruction Ty)) (instructionId : String) (i : ℕ) : ℕ :=
  instructions.zipIdx.foldl
    (fun last entry =>
      if i < entry.2 ∧ entry.1.source.any (fun src => decide (src.isRegister = true ∧ src.val = .str instructionId)) then
        entry.2
      else last) i

/-- `_analyze_hardcoded` -/
def analyzeHardcoded (instructions : List (Instruction Ty)) : List (String × VariableRecord Ty) :=
  instructions.zipIdx.foldl
    (fun hardcoded entry =>
      match entry.1.hardCoded with
      | none => hardcoded
      | some register =>
          OrderedDict.insert hardcoded entry.1.instructionId
            ⟨entry.2, lastUse instructions entry.1.instructionId entry.2, .register register⟩) []

/-- `_build_privilege_block_ranges`: the start of the current block, and the indices inside blocks. -/
def privilegeBlockStep (state : Option ℕ × List ℕ) (entry : Instruction Ty × ℕ) : Option ℕ × List ℕ :=
  match entry.1.marker with
  | none => state
  | some ⟨.start, _, _⟩ => (some entry.2, state.2)
  | some ⟨.finish, _, _⟩ =>
      match state.1 with
      | none => state
      | some blockStart => (none, state.2 ++ List.range' (blockStart + 1) (entry.2 - (blockStart + 1)))

def privilegeBlockRanges (instructions : List (Instruction Ty)) : List ℕ :=
  (instructions.zipIdx.foldl privilegeBlockStep (none, [])).2

/-! ### The register pool -/

structure RegisterPool (Ty : Type) where
  freeRegs : List (Register Ty)
  allocated : String → Option (Register Ty)

namespace RegisterPool

/-- The pool of the allocator: no special registers and no register with the name of the spill register in its own. -/
def init (riscvRegisters : List (Register Ty)) : RegisterPool Ty where
  freeRegs := riscvRegisters.filter fun r => !r.special && !decide ("t0".toList <:+: r.name.toList)
  allocated := fun _ => none

def candidateRegisters (pool : RegisterPool Ty) (regType : Ty) (excludeRegisters : List String) : List (Register Ty) :=
  pool.freeRegs.filter fun r => decide (r.regType = regType) && !excludeRegisters.contains r.name

/-- The register that `allocate` takes: the candidate with the hard-coded name, or a random one. -/
def chooseRegister (candidates : List (Register Ty)) (hardCodedRegister : Option (Register Ty)) (rng : RandNum) :
    Except AllocFault (Register Ty × RandNum) :=
  match hardCodedRegister with
  | some hardCoded =>
      match candidates.find? fun candidate => candidate.name = hardCoded.name with
      | none => .error (if candidates = [] then .noRegistersLeft else .hardCodedNotFound hardCoded.name)
      | some reg => .ok (reg, rng)
  | none =>
      match rng.randomEntryIn candidates with
      | (none, _) => .error .noRegistersLeft
      | (some reg, rng) => .ok (reg, rng)

/-- The pool without a free register that a value gets. -/
def take (pool : RegisterPool Ty) (tempRegName : String) (reg : Register Ty) : RegisterPool Ty where
  freeRegs := pool.freeRegs.erase reg
  allocated := Function.update pool.allocated tempRegName (some reg)

def allocate (pool : RegisterPool Ty) (regType : Ty) (tempRegName : String) (excludeRegisters : List String)
    (hardCodedRegister : Option (Register Ty)) (rng : RandNum) :
    Except AllocFault (Register Ty × RegisterPool Ty × RandNum) := do
  if (pool.allocated tempRegName).isSome then .error (.alreadyAllocated tempRegName)
  else
    let (reg, rng) ← chooseRegister (pool.candidateRegisters regType excludeRegisters) hardCodedRegister rng
    pure (reg, pool.take tempRegName reg, rng)

/-- The pool with the register of a value back at the end of the free ones. -/
def giveBack (pool : RegisterPool Ty) (tempRegName : String) (reg : Register Ty) : RegisterPool Ty where
  freeRegs := pool.freeRegs ++ [reg]
  allocated := Function.update pool.allocated tempRegName none

def free (pool : RegisterPool Ty) (tempRegName : String) : Except AllocFault (RegisterPool Ty) :=
  match pool.allocated tempRegName with
  | none => .error (.keyError tempRegName)
  | some reg => .ok (pool.giveBack tempRegName reg)

omit [DecidableEq Ty] in
theorem chooseRegister_ok {candidates : List (Register Ty)} {hardCodedRegister : Option (Register Ty)}
    {rng rng' : RandNum} {reg : Register Ty} (h : chooseRegister candidates hardCodedRegister rng = .ok (reg, rng')) :
    reg ∈ candidates ∧ ∀ hardCoded, hardCodedRegister = some hardCoded → reg.name = hardCoded.name := by
  unfold chooseRegister at h
  cases hardCodedRegister with
  | none =>
      refine ⟨?_, fun _ hnone => (nomatch hnone)⟩
      rcases hentry : rng.randomEntryIn candidates with ⟨_ | entry, rng₁⟩
      · rw [hentry] at h
        cases h
      · rw [hentry] at h
        obtain ⟨rfl, rfl⟩ := Prod.mk.inj (Except.ok.inj h)
        exact RandNum.randomEntryIn_mem (congrArg Prod.fst hentry)
  | some hardCoded =>
      dsimp only at h
      split at h
      · cases h
      · next candidate hfind =>
          obtain ⟨rfl, rfl⟩ := Prod.mk.inj (Except.ok.inj h)
          have hname := List.find?_some hfind
          refine ⟨List.mem_of_find?_eq_some hfind, ?_⟩
          rintro _ ⟨⟩
          exact of_decide_eq_true hname

/-- What an allocation takes from the pool. -/
theorem allocate_ok {pool pool' : RegisterPool Ty} {regType : Ty} {tempRegName : String} {excludeRegisters : List String}
    {hardCodedRegister : Option (Register Ty)} {rng rng' : RandNum} {reg : Register Ty}
    (h : pool.allocate regType tempRegName excludeRegisters hardCodedRegister rng = .ok (reg, pool', rng')) :
    pool.allocated tempRegName = none ∧ reg ∈ pool.candidateRegisters regType excludeRegisters ∧
      (∀ hardCoded, hardCodedRegister = some hardCoded → reg.name = hardCoded.name) ∧
      pool' = pool.take tempRegName reg := by
  unfold allocate at h
  split_ifs at h with hallocated
  obtain ⟨⟨reg', rng''⟩, hchoice, h⟩ := Fallible.bind_ok h
  obtain ⟨rfl, hrest⟩ := Prod.mk.inj (Except.ok.inj h)
  obtain ⟨rfl, rfl⟩ := Prod.mk.inj hrest
  obtain ⟨hmem, hname⟩ := chooseRegister_ok hchoice
  exact ⟨Option.not_isSome_iff_eq_none.mp hallocated, hmem, hname, rfl⟩

theorem mem_freeRegs_of_candidate {pool : RegisterPool Ty} {regType : Ty} {excludeRegisters : List String}
    {reg : Register Ty} (h : reg ∈ pool.candidateRegisters regType excludeRegisters) :
    reg ∈ pool.freeRegs ∧ reg.name ∉ excludeRegisters := by
  obtain ⟨hfree, h⟩ := List.mem_filter.mp h
  obtain ⟨-, hexclude⟩ := (Bool.and_eq_true _ _).mp h
  refine ⟨hfree, fun hmem => ?_⟩
  rw [List.contains_iff_mem.mpr hmem] at hexclude
  exact nomatch hexclude

omit [DecidableEq Ty]

theorem free_ok {pool pool' : RegisterPool Ty} {tempRegName : String} (h : pool.free tempRegName = .ok pool') :
    ∃ reg, pool.allocated tempRegName = some reg ∧ pool' = pool.giveBack tempRegName reg := by
  unfold free at h
  split at h
  · cases h
  · next reg hreg => exact ⟨reg, hreg, (Except.ok.inj h).symm⟩

/-- Every register is free or allocated to one value. -/
structure WellFormed (pool : RegisterPool Ty) : Prop where
  free_nodup : (pool.freeRegs.map Register.name).Nodup
  allocated_notMem : ∀ tempRegName reg, pool.allocated tempRegName = some reg →
    reg.name ∉ pool.freeRegs.map Register.name
  allocated_injective : ∀ tempRegName tempRegName' reg reg', pool.allocated tempRegName = some reg →
    pool.allocated tempRegName' = some reg' → reg.name = reg'.name → tempRegName = tempRegName'

theorem wellFormed_init {riscvRegisters : List (Register Ty)} (hnodup : (riscvRegisters.map Register.name).Nodup) :
    (init riscvRegisters).WellFormed where
  free_nodup := hnodup.sublist (List.filter_sublist.map _)
  allocated_notMem := fun _ _ h => (nomatch h)
  allocated_injective := fun _ _ _ _ h => (nomatch h)

theorem allocated_giveBack {pool : RegisterPool Ty} {tempRegName name : String} {reg reg' : Register Ty} :
    (pool.giveBack tempRegName reg).allocated name = some reg' ↔ name ≠ tempRegName ∧ pool.allocated name = some reg' := by
  change Function.update pool.allocated tempRegName none name = some reg' ↔ _
  by_cases hname : name = tempRegName
  · rw [hname, Function.update_self]
    exact ⟨fun h => (nomatch h), fun h => absurd rfl h.1⟩
  · rw [Function.update_of_ne hname]
    exact (and_iff_right hname).symm

theorem WellFormed.giveBack {pool : RegisterPool Ty} (hpool : pool.WellFormed) {reg : Register Ty} {tempRegName : String}
    (hreg : pool.allocated tempRegName = some reg) : (pool.giveBack tempRegName reg).WellFormed where
  free_nodup := by
    rw [RegisterPool.giveBack, List.map_append]
    refine hpool.free_nodup.append (List.nodup_singleton _) ?_
    rw [List.map_singleton, List.disjoint_singleton]
    exact hpool.allocated_notMem _ _ hreg
  allocated_notMem := by
    intro name reg' h
    obtain ⟨hname, h⟩ := allocated_giveBack.mp h
    rw [RegisterPool.giveBack, List.map_append, List.mem_append, not_or]
    refine ⟨hpool.allocated_notMem _ _ h, fun hmem => ?_⟩
    exact hname (hpool.allocated_injective _ _ _ _ h hreg (List.mem_singleton.mp hmem))
  allocated_injective := by
    intro name₁ name₂ reg₁ reg₂ h₁ h₂ heq
    exact hpool.allocated_injective _ _ _ _ (allocated_giveBack.mp h₁).2 (allocated_giveBack.mp h₂).2 heq

variable [DecidableEq Ty]

theorem allocated_take {pool : RegisterPool Ty} {tempRegName name : String} {reg reg' : Register Ty} :
    (pool.take tempRegName reg).allocated name = some reg' ↔
      (name = tempRegName ∧ reg = reg') ∨ (name ≠ tempRegName ∧ pool.allocated name = some reg') := by
  change Function.update pool.allocated tempRegName (some reg) name = some reg' ↔ _
  by_cases hname : name = tempRegName
  · rw [hname, Function.update_self, Option.some_inj]
    exact ⟨fun h => .inl ⟨rfl, h⟩, fun h => h.elim And.right fun h => absurd rfl h.1⟩
  · rw [Function.update_of_ne hname]
    exact ⟨fun h => .inr ⟨hname, h⟩, fun h => h.elim (fun h => absurd h.1 hname) And.right⟩

theorem notMem_take {pool : RegisterPool Ty} (hpool : pool.WellFormed) {reg : Register Ty} (hfree : reg ∈ pool.freeRegs)
    (tempRegName : String) : reg.name ∉ (pool.take tempRegName reg).freeRegs.map Register.name := by
  intro hmem
  have hperm := (List.perm_cons_erase hfree).map Register.name
  have hnodup := hperm.nodup_iff.mp hpool.free_nodup
  exact (List.nodup_cons.mp hnodup).1 hmem

theorem freeRegs_take (pool : RegisterPool Ty) (tempRegName : String) (reg : Register Ty) :
    (pool.take tempRegName reg).freeRegs.map Register.name ⊆ pool.freeRegs.map Register.name :=
  (List.erase_sublist.map _).subset

theorem WellFormed.take {pool : RegisterPool Ty} (hpool : pool.WellFormed) {reg : Register Ty}
    (hfree : reg ∈ pool.freeRegs) (tempRegName : String) : (pool.take tempRegName reg).WellFormed where
  free_nodup := hpool.free_nodup.sublist (List.erase_sublist.map _)
  allocated_notMem := by
    intro name reg' h
    rcases allocated_take.mp h with ⟨rfl, rfl⟩ | ⟨hname, h⟩
    · exact notMem_take hpool hfree name
    · exact fun hmem => hpool.allocated_notMem _ _ h (freeRegs_take _ _ _ hmem)
  allocated_injective := by
    have hother : ∀ {name : String} {reg' : Register Ty}, pool.allocated name = some reg' → reg'.name ≠ reg.name :=
      fun h heq => hpool.allocated_notMem _ _ h (heq ▸ List.mem_map_of_mem hfree)
    intro name₁ name₂ reg₁ reg₂ h₁ h₂ heq
    rcases allocated_take.mp h₁ with ⟨hname₁, rfl⟩ | ⟨-, hold₁⟩
    · rcases allocated_take.mp h₂ with ⟨hname₂, rfl⟩ | ⟨-, hold₂⟩
      · exact hname₁.trans hname₂.symm
      · exact absurd heq.symm (hother hold₂)
    · rcases allocated_take.mp h₂ with ⟨hname₂, rfl⟩ | ⟨-, hold₂⟩
      · exact absurd heq (hother hold₁)
      · exact hpool.allocated_injective _ _ _ _ hold₁ hold₂ heq

end RegisterPool

/-! ### The scan -/

structure ScanState (Ty : Type) where
  active : List (Interval Ty)
  registerMap : List (String × VariableRecord Ty)
  regPool : RegisterPool Ty
  /-- `var_to_slot`: the offset of an interval is its place. -/
  spilled : List (Interval Ty)
  rng : RandNum

/-- What the scan reads of the instructions. -/
structure ScanInput (Ty : Type) where
  hardcodedMap : List (String × VariableRecord Ty)
  clobbered : List (ℕ × List String)
  privilegeBlocks : List ℕ

namespace ScanState

/-- The intervals that end are taken out of `active`, which is sorted by end. -/
def expire (s : ScanState Ty) (start : ℕ) : Except AllocFault (ScanState Ty) := do
  let active := sortBy Interval.stop s.active
  let regPool ← (active.filter fun a => decide (a.stop ≤ start)).foldlM (fun pool a => pool.free a.regName) s.regPool
  pure { s with active := active.filter fun a => !decide (a.stop ≤ start), regPool }

/-- The slot of `get_slot`, and the slots afterwards. -/
def getSlot (s : ScanState Ty) (interval : Interval Ty) : ℕ × List (Interval Ty) :=
  if interval ∈ s.spilled then (s.spilled.idxOf interval, s.spilled)
  else (s.spilled.length, s.spilled ++ [interval])

end ScanState

/-- The clobbered registers that a value must not be in. -/
def ScanInput.excludeRegisters (input : ScanInput Ty) (interval : Interval Ty) : List String :=
  (input.clobbered.filter fun entry => decide (interval.start < entry.1 ∧ entry.1 < interval.stop)).flatMap Prod.snd

/-- `_check_privilege_block_spill` -/
def checkPrivilegeBlockSpill (input : ScanInput Ty) (interval : Interval Ty) : Except AllocFault Unit :=
  if input.privilegeBlocks.any fun idx => decide (interval.start ≤ idx ∧ idx ≤ interval.stop) then
    .error (.spillInPrivilegeBlock interval.regName)
  else .ok ()

/-- The last active interval of the type. -/
def ScanState.lastActive (s : ScanState Ty) (regType : Ty) : Option (Interval Ty) :=
  s.active.reverse.find? fun a => a.regType = regType

/-- No more free registers than active intervals. -/
def ScanState.underPressure (input : ScanInput Ty) (s : ScanState Ty) (interval : Interval Ty) : Bool :=
  decide ((s.regPool.candidateRegisters interval.regType (input.excludeRegisters interval)).length ≤ s.active.length)

/-- Under pressure a value is spilled: the last active one, whose register the interval takes, or the interval. -/
def spill (input : ScanInput Ty) (s : ScanState Ty) (interval : Interval Ty) : Except AllocFault (ScanState Ty) :=
  match s.lastActive interval.regType with
  | none => .error .stopIteration
  | some last => do
      checkPrivilegeBlockSpill input (if interval.stop < last.stop then last else interval)
      let (offset, spilled) := s.getSlot interval
      if interval.stop < last.stop then
        match OrderedDict.get? s.registerMap last.regName with
        | none => .error (.keyError last.regName)
        | some record =>
            pure { s with
              registerMap := OrderedDict.insert (OrderedDict.insert s.registerMap interval.regName record) last.regName
                ⟨last.start, last.stop, .stack offset⟩
              active := s.active.erase last
              spilled }
      else
        pure { s with
          registerMap := OrderedDict.insert s.registerMap interval.regName
            ⟨interval.start, interval.stop, .stack offset⟩
          spilled }

/-- A value gets a free register, the hard-coded one if there is one. -/
def place (input : ScanInput Ty) (s : ScanState Ty) (interval : Interval Ty) : Except AllocFault (ScanState Ty) :=
  let excludeRegisters := input.excludeRegisters interval
  match OrderedDict.get? input.hardcodedMap interval.regName with
  | some record => do
      let hardCoded := match record.slot with
        | .register register => some register
        | .stack _ => none
      let (_, regPool, rng) ← s.regPool.allocate interval.regType interval.regName excludeRegisters hardCoded s.rng
      pure { s with
        registerMap := OrderedDict.insert s.registerMap interval.regName record
        active := s.active ++ [interval], regPool, rng }
  | none => do
      let (reg, regPool, rng) ← s.regPool.allocate interval.regType interval.regName excludeRegisters none s.rng
      pure { s with
        registerMap := OrderedDict.insert s.registerMap interval.regName ⟨interval.start, interval.stop, .register reg⟩
        active := s.active ++ [interval], regPool, rng }

/-- The body of the loop behind the expiry. -/
def assign (input : ScanInput Ty) (s : ScanState Ty) (interval : Interval Ty) : Except AllocFault (ScanState Ty) :=
  if s.underPressure input interval then spill input s interval else place input s interval

/-- The body of the loop. -/
def scanStep (input : ScanInput Ty) (s : ScanState Ty) (interval : Interval Ty) : Except AllocFault (ScanState Ty) := do
  let s ← s.expire interval.start
  assign input s interval

/-- The loop over intervals. -/
def scan (input : ScanInput Ty) (s : ScanState Ty) (intervals : List (Interval Ty)) : Except AllocFault (ScanState Ty) :=
  intervals.foldlM (scanStep input) s

/-- The live intervals in the order of the loop. -/
def liveIntervalList (intervals : LiveIntervals Ty) : List (Interval Ty) :=
  sortBy Interval.start (intervals.map Prod.snd)

/-- The state before the loop. -/
def ScanState.init (riscvRegisters : List (Register Ty)) (input : ScanInput Ty) (rng : RandNum) : ScanState Ty where
  active := []
  registerMap := input.hardcodedMap
  regPool := .init riscvRegisters
  spilled := []
  rng := rng

/-- What is computed from the instructions before the loop. -/
def scanInput (instructions : List (Instruction Ty)) (globalFunctionClobbers : List (String × List (Register Ty))) :
    Except AllocFault (ScanInput Ty) := do
  let clobbered ← clobberMap instructions globalFunctionClobbers
  pure ⟨analyzeHardcoded instructions, clobbered, privilegeBlockRanges instructions⟩

/-- `_linear_scan`: the final state, whose `registerMap` is returned. -/
def linearScan (riscvRegisters : List (Register Ty)) (globalFunctionClobbers : List (String × List (Register Ty)))
    (instructions : List (Instruction Ty)) (rng : RandNum) : Except AllocFault (ScanState Ty) := do
  let intervals ← analyze instructions
  let input ← scanInput instructions globalFunctionClobbers
  scan input (.init riscvRegisters input rng) (liveIntervalList intervals)

/-! ### What the analyses find -/

section
omit [DecidableEq Ty]

/-- A dictionary of intervals under their own names. -/
def Named (intervals : LiveIntervals Ty) : Prop :=
  (intervals.map Prod.fst).Nodup ∧ ∀ entry ∈ intervals, entry.2.regName = entry.1

theorem Named.insert {intervals : LiveIntervals Ty} (h : Named intervals) {name : String} {interval : Interval Ty}
    (hname : interval.regName = name) : Named (OrderedDict.insert intervals name interval) := by
  refine ⟨OrderedDict.nodup_keys_insert h.1 _ _, fun entry hentry => ?_⟩
  rcases OrderedDict.eq_or_mem_of_mem_insert hentry with hold | rfl
  · exact h.2 entry hold
  · exact hname

theorem Named.regName_of_get? {intervals : LiveIntervals Ty} (h : Named intervals) {name : String}
    {interval : Interval Ty} (hget : OrderedDict.get? intervals name = some interval) : interval.regName = name :=
  h.2 _ (OrderedDict.mem_of_get? hget)

theorem analyzeDestination_ok {instr : Instruction Ty} {i : ℕ} {intervals intervals' : LiveIntervals Ty}
    (h : analyzeDestination instr i intervals = .ok intervals') (hnamed : Named intervals) :
    Named intervals' ∧ intervals.map Prod.fst ⊆ intervals'.map Prod.fst ∧
      ∀ name, instr.definedName = some name → name ∈ intervals'.map Prod.fst := by
  unfold analyzeDestination at h
  split at h
  · next hdest =>
      obtain rfl := Except.ok.inj h
      refine ⟨hnamed, List.Subset.refl _, fun name hname => ?_⟩
      rw [Instruction.definedName, hdest] at hname
      cases hname
  · next dest hdest =>
      split_ifs at h with hregister
      · obtain rfl := Except.ok.inj h
        refine ⟨hnamed, List.Subset.refl _, fun name hname => ?_⟩
        rw [Instruction.definedName, hdest] at hname
        obtain ⟨type, val, isRegister⟩ := dest
        obtain rfl : isRegister = false := by simpa using hregister
        cases val <;> cases hname
      · split at h
        · cases h
        · next name hname =>
            rw [hname]
            have hkeys : ∀ interval : Interval Ty, intervals.map Prod.fst ⊆
                (OrderedDict.insert intervals name interval).map Prod.fst :=
              fun interval key hkey => OrderedDict.mem_keys_insert.mpr (.inr hkey)
            have hself : ∀ (interval : Interval Ty) (name' : String), some name = some name' →
                name' ∈ (OrderedDict.insert intervals name interval).map Prod.fst := by
              rintro interval _ ⟨⟩
              exact OrderedDict.mem_keys_insert.mpr (.inl rfl)
            split at h
            · obtain rfl := Except.ok.inj h
              exact ⟨hnamed.insert rfl, hkeys _, hself _⟩
            · next interval hget =>
                obtain rfl := Except.ok.inj h
                have hregName : interval.regName = name := hnamed.regName_of_get? hget
                exact ⟨hnamed.insert hregName, hkeys _, hself _⟩

theorem analyzeSource_named {i : ℕ} {intervals : LiveIntervals Ty} (src : Operand Ty) (h : Named intervals) :
    Named (analyzeSource i intervals src) ∧
      intervals.map Prod.fst ⊆ (analyzeSource i intervals src).map Prod.fst := by
  unfold analyzeSource
  split
  · exact ⟨h, List.Subset.refl _⟩
  · next name hname =>
      refine ⟨h.insert ?_, fun key hkey => OrderedDict.mem_keys_insert.mpr (.inr hkey)⟩
      cases hget : OrderedDict.get? intervals name with
      | none => rfl
      | some interval =>
          have hregName : interval.regName = name := h.regName_of_get? hget
          exact hregName

theorem analyzeSources_named {i : ℕ} {intervals : LiveIntervals Ty} (source : List (Operand Ty)) (h : Named intervals) :
    Named (source.foldl (analyzeSource i) intervals) ∧
      intervals.map Prod.fst ⊆ (source.foldl (analyzeSource i) intervals).map Prod.fst := by
  induction source generalizing intervals with
  | nil => exact ⟨h, List.Subset.refl _⟩
  | cons src rest ih =>
      obtain ⟨hnamed, hkeys⟩ := analyzeSource_named (i := i) src h
      obtain ⟨hnamed', hkeys'⟩ := ih hnamed
      exact ⟨hnamed', List.Subset.trans hkeys hkeys'⟩

/-- Every value that is defined has an interval under its name. -/
theorem analyze_ok {instructions : List (Instruction Ty)} {intervals : LiveIntervals Ty}
    (h : analyze instructions = .ok intervals) :
    Named intervals ∧
      ∀ instr ∈ instructions, ∀ name, instr.definedName = some name → name ∈ intervals.map Prod.fst := by
  obtain ⟨defined, hdefined, h⟩ := Fallible.bind_ok h
  obtain rfl := Except.ok.inj h
  have hfirst : ∀ (entries : List (Instruction Ty × ℕ)) (start : LiveIntervals Ty), Named start →
      entries.foldlM (fun intervals entry => analyzeDestination entry.1 entry.2 intervals) start = .ok defined →
        Named defined ∧ start.map Prod.fst ⊆ defined.map Prod.fst ∧
          ∀ entry ∈ entries, ∀ name, entry.1.definedName = some name → name ∈ defined.map Prod.fst := by
    intro entries
    induction entries with
    | nil =>
        intro start hstart h
        obtain rfl := Except.ok.inj h
        exact ⟨hstart, List.Subset.refl _, fun _ h => (nomatch h)⟩
    | cons entry rest ih =>
        intro start hstart h
        rw [List.foldlM_cons] at h
        obtain ⟨next, hnext, h⟩ := Fallible.bind_ok h
        obtain ⟨hnamed, hkeys, hself⟩ := analyzeDestination_ok hnext hstart
        obtain ⟨hnamed', hkeys', hrest⟩ := ih next hnamed h
        refine ⟨hnamed', List.Subset.trans hkeys hkeys', List.forall_mem_cons.mpr ⟨fun name hname => ?_, hrest⟩⟩
        exact hkeys' (hself name hname)
  have hsecond : ∀ (entries : List (Instruction Ty × ℕ)) (start : LiveIntervals Ty), Named start →
      Named (entries.foldl (fun intervals entry => entry.1.source.foldl (analyzeSource entry.2) intervals) start) ∧
        start.map Prod.fst ⊆ (entries.foldl (fun intervals entry => entry.1.source.foldl (analyzeSource entry.2)
          intervals) start).map Prod.fst := by
    intro entries
    induction entries with
    | nil => exact fun start hstart => ⟨hstart, List.Subset.refl _⟩
    | cons entry rest ih =>
        intro start hstart
        obtain ⟨hnamed, hkeys⟩ := analyzeSources_named (i := entry.2) entry.1.source hstart
        obtain ⟨hnamed', hkeys'⟩ := ih _ hnamed
        exact ⟨hnamed', List.Subset.trans hkeys hkeys'⟩
  have hempty : Named ([] : LiveIntervals Ty) := ⟨List.nodup_nil, fun _ h => (nomatch h)⟩
  obtain ⟨hnamed, -, hdefines⟩ := hfirst _ _ hempty hdefined
  obtain ⟨hnamed', hkeys⟩ := hsecond instructions.zipIdx defined hnamed
  refine ⟨hnamed', fun instr hinstr name hname => hkeys ?_⟩
  obtain ⟨i, hi, rfl⟩ := List.getElem_of_mem hinstr
  exact hdefines (instructions[i], i) (List.mk_mem_zipIdx_iff_getElem?.mpr (List.getElem?_eq_getElem hi)) name hname

/-- The names of the values in the order of the loop. -/
theorem Named.nodup_liveIntervalList {intervals : LiveIntervals Ty} (h : Named intervals) :
    ((liveIntervalList intervals).map Interval.regName).Nodup := by
  have hmap : (intervals.map Prod.snd).map Interval.regName = intervals.map Prod.fst := by
    rw [List.map_map]
    exact List.map_congr_left h.2
  have hperm := (StableSort.sortBy_perm Interval.start (intervals.map Prod.snd)).map Interval.regName
  rw [hmap] at hperm
  exact hperm.nodup_iff.mpr h.1

theorem exists_mem_liveIntervalList {intervals : LiveIntervals Ty} (h : Named intervals) {name : String}
    (hname : name ∈ intervals.map Prod.fst) : ∃ x ∈ liveIntervalList intervals, x.regName = name := by
  obtain ⟨entry, hentry, rfl⟩ := List.mem_map.mp hname
  exact ⟨entry.2, StableSort.mem_sortBy.mpr (List.mem_map_of_mem hentry), h.2 entry hentry⟩

end

/-- Every entry of the map is of an instruction with a hard-coded register, and each of these has one. -/
theorem analyzeHardcoded_entries (instructions : List (Instruction Ty)) :
    (∀ regName record, OrderedDict.get? (analyzeHardcoded instructions) regName = some record →
      ∃ instr ∈ instructions, ∃ register, instr.hardCoded = some register ∧ record.slot = .register register ∧
        instr.instructionId = regName) ∧
    ∀ instr ∈ instructions, instr.hardCoded ≠ none →
      ∃ record, OrderedDict.get? (analyzeHardcoded instructions) instr.instructionId = some record := by
  have hfold : ∀ (entries : List (Instruction Ty × ℕ)) (start : List (String × VariableRecord Ty)),
      (start.map Prod.fst).Nodup →
      let final := entries.foldl (fun hardcoded entry =>
        match entry.1.hardCoded with
        | none => hardcoded
        | some register => OrderedDict.insert hardcoded entry.1.instructionId
            ⟨entry.2, lastUse instructions entry.1.instructionId entry.2, .register register⟩) start
      (final.map Prod.fst).Nodup ∧ start.map Prod.fst ⊆ final.map Prod.fst ∧
        (∀ pair ∈ final, pair ∈ start ∨ ∃ entry ∈ entries, ∃ register, entry.1.hardCoded = some register ∧
          pair.2.slot = .register register ∧ entry.1.instructionId = pair.1) ∧
        ∀ entry ∈ entries, entry.1.hardCoded ≠ none → entry.1.instructionId ∈ final.map Prod.fst := by
    intro entries
    induction entries with
    | nil => exact fun start hstart => ⟨hstart, List.Subset.refl _, fun pair h => .inl h, fun _ h => (nomatch h)⟩
    | cons entry rest ih =>
        intro start hstart
        rw [List.foldl_cons]
        cases hhard : entry.1.hardCoded with
        | none =>
            obtain ⟨hnodup, hkeys, hsound, hcomplete⟩ := ih start hstart
            refine ⟨hnodup, hkeys, fun pair hpair => (hsound pair hpair).imp_right ?_,
              List.forall_mem_cons.mpr ⟨fun h => absurd hhard h, hcomplete⟩⟩
            exact fun ⟨entry', hentry', h⟩ => ⟨entry', List.mem_cons_of_mem _ hentry', h⟩
        | some register =>
            obtain ⟨hnodup, hkeys, hsound, hcomplete⟩ := ih _ (OrderedDict.nodup_keys_insert hstart
              entry.1.instructionId ⟨entry.2, lastUse instructions entry.1.instructionId entry.2, .register register⟩)
            have hinsert := @OrderedDict.mem_keys_insert _ (VariableRecord Ty) _ start entry.1.instructionId
            refine ⟨hnodup, fun key hkey => hkeys (hinsert.mpr (.inr hkey)), fun pair hpair => ?_,
              List.forall_mem_cons.mpr ⟨fun _ => hkeys (hinsert.mpr (.inl rfl)), hcomplete⟩⟩
            rcases hsound pair hpair with hstart' | ⟨entry', hentry', h⟩
            · rcases OrderedDict.eq_or_mem_of_mem_insert hstart' with hold | rfl
              · exact .inl hold
              · exact .inr ⟨entry, List.mem_cons_self, register, hhard, rfl, rfl⟩
            · exact .inr ⟨entry', List.mem_cons_of_mem _ hentry', h⟩
  obtain ⟨hnodup, -, hsound, hcomplete⟩ := hfold instructions.zipIdx [] List.nodup_nil
  refine ⟨fun regName record hget => ?_, fun instr hinstr hhard => ?_⟩
  · rcases hsound _ (OrderedDict.mem_of_get? hget) with hnil | ⟨entry, hentry, register, h⟩
    · cases hnil
    · exact ⟨entry.1, List.fst_mem_of_mem_zipIdx hentry, register, h⟩
  · obtain ⟨i, hi, rfl⟩ := List.getElem_of_mem hinstr
    have hmem := hcomplete (instructions[i], i)
      (List.mk_mem_zipIdx_iff_getElem?.mpr (List.getElem?_eq_getElem hi)) hhard
    obtain ⟨pair, hpair, hkey⟩ := List.mem_map.mp hmem
    exact ⟨pair.2, hkey ▸ OrderedDict.get?_of_mem hnodup hpair⟩

end Riescue.LinearScan
