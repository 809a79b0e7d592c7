import Riescue.LinearScanLiveness

/-! The rewriting of the program, `_apply_linear_scan`, and a machine that runs the result: a register file, the stack slots
below `sp`, and instructions that may jump ahead. When the scan needs no stack slot, the rewritten program is the program on
registers. -/

namespace Riescue.LinearScan
open Allocation
variable {Ty Val σ : Type}

/-! ### The rewriting -/

/-- What the pass takes from `coretp` and from the environment: `get_register`, `OperandType.FPR` and the register width. -/
structure Target (Ty : Type) where
  getRegister : String → Register Ty
  fpr : Ty
  regWidth : ℕ

/-- A line of the returned list: spill code, with its offset from `sp`, or an instruction with its operands. -/
inductive Code (Ty : Type) where
  | store (name : String) (tempReg : Register Ty) (offset : ℕ)
  | load (name : String) (tempReg : Register Ty) (offset : ℕ)
  | instr (instruction : Instruction Ty) (destination : Option (Operand Ty)) (source : List (Operand Ty))

namespace Target
variable [DecidableEq Ty] (t : Target Ty)

def bytesPerSpill (t : Target Ty) : ℕ := t.regWidth / 8

def tempReg (regType : Ty) : Register Ty := t.getRegister (if regType = t.fpr then "ft0" else "t0")

/-- `_push_stack` -/
def pushStack (regType : Ty) (offset : ℕ) : Register Ty × Code Ty :=
  let name :=
    if regType = t.fpr then if t.regWidth = 32 then "fsw" else "fsd"
    else if t.regWidth = 32 then "sw" else "sd"
  (t.tempReg regType, .store name (t.tempReg regType) (offset * t.bytesPerSpill))

/-- `_pop_stack` -/
def popStack (regType : Ty) (offset : ℕ) : Register Ty × Code Ty :=
  let name :=
    if regType = t.fpr then if t.regWidth = 32 then "flw" else "fld"
    else if t.regWidth = 32 then "lw" else "ld"
  (t.tempReg regType, .load name (t.tempReg regType) (offset * t.bytesPerSpill))

variable (registerMap : List (String × VariableRecord Ty))

/-- A destination that names a value gets its register, or the spill register, which is stored in front. -/
def rewriteDestination (destination : Option (Operand Ty)) : Except AllocFault (Option (Operand Ty) × List (Code Ty)) :=
  match destination with
  | some ⟨type, .str name, true⟩ =>
      match OrderedDict.get? registerMap name with
      | none => .error (.keyError name)
      | some record =>
          match record.slot with
          | .register register => .ok (some ⟨type, .register register, true⟩, [])
          | .stack offset =>
              let (tempReg, storeInstr) := t.pushStack type offset
              .ok (some ⟨type, .register tempReg, true⟩, [storeInstr])
  | destination => .ok (destination, [])

/-- A source that names a value gets its register, or the spill register, which is loaded in front. -/
def rewriteSource (src : Operand Ty) : Except AllocFault (Operand Ty × List (Code Ty)) :=
  match src with
  | ⟨type, .str name, true⟩ =>
      if isLiteralRegister name then .ok (⟨type, .register (t.getRegister name), true⟩, [])
      else
        match OrderedDict.get? registerMap name with
        | none => .error (.keyError name)
        | some record =>
            match record.slot with
            | .register register => .ok (⟨type, .register register, true⟩, [])
            | .stack offset =>
                let (tempReg, loadInstr) := t.popStack type offset
                .ok (⟨type, .register tempReg, true⟩, [loadInstr])
  | src => .ok (src, [])

/-- The body of the loop: the spill code, then the instruction. -/
def rewriteInstr (instr : Instruction Ty) : Except AllocFault (List (Code Ty)) := do
  let (destination, spill) ← t.rewriteDestination registerMap instr.destination
  let sources ← instr.source.mapM (t.rewriteSource registerMap)
  pure (spill ++ sources.flatMap Prod.snd ++ [.instr instr destination (sources.map Prod.fst)])

/-- `_apply_linear_scan`. What `_allocate_stack` returns is not used. -/
def applyLinearScan (instructions : List (Instruction Ty)) : Except AllocFault (List (Code Ty)) := do
  let parts ← instructions.mapM (t.rewriteInstr registerMap)
  pure parts.flatten

end Target

/-! ### The meaning of programs -/

/-- What tells the effect of an instruction. -/
def Instruction.tag (instr : Instruction Ty) : String × String := (instr.name, instr.instructionId)

/-- A label has no operands. -/
def Instruction.label [DecidableEq Ty] (instr : Instruction Ty) : Option String :=
  if instr.destination = none ∧ instr.source = [] then some instr.name else none

/-- What a source reads in the program that is given to the allocator. -/
def Operand.reads (getRegister : String → Register Ty) (src : Operand Ty) : Read String String (OperandVal Ty) :=
  match src with
  | ⟨_, .str name, true⟩ => if isLiteralRegister name then .fixed (getRegister name).name else .value name
  | ⟨_, .register register, true⟩ => .fixed register.name
  | ⟨_, val, _⟩ => .const val

section
variable [DecidableEq Ty]

/-- An instruction on values. A call clobbers the registers of its function. -/
def Instruction.op (t : Target Ty) (instructions : List (Instruction Ty))
    (globalFunctionClobbers : List (String × List (Register Ty))) (instr : Instruction Ty) :
    Op String String (OperandVal Ty) (String × String) String where
  tag := instr.tag
  reads := instr.source.map (Operand.reads t.getRegister)
  dest := instr.definedName
  clobbers := ((clobberedBy instructions globalFunctionClobbers instr).toOption.join).getD []
  label := instr.label

def program (t : Target Ty) (globalFunctionClobbers : List (String × List (Register Ty)))
    (instructions : List (Instruction Ty)) : List (Op String String (OperandVal Ty) (String × String) String) :=
  instructions.map (Instruction.op t instructions globalFunctionClobbers)

/-- Registers by name, and the words at offsets from `sp`. -/
structure MachineState (Val σ : Type) where
  regs : String → Val
  stack : ℕ → Val
  state : σ

namespace MachineState

def arg (regs : String → Val) (src : Operand Ty) : Arg (OperandVal Ty) Val :=
  match src with
  | ⟨_, .register register, true⟩ => .value (regs register.name)
  | ⟨_, val, _⟩ => .const val

def destination (dest : Option (Operand Ty)) : Option String :=
  match dest with
  | some ⟨_, .register register, true⟩ => some register.name
  | _ => none

/-- Spill code moves a word between the spill register and its slot. -/
def spill (s : MachineState Val σ) : Code Ty → MachineState Val σ
  | .store _ tempReg offset => { s with stack := Function.update s.stack offset (s.regs tempReg.name) }
  | .load _ tempReg offset => { s with regs := Function.update s.regs tempReg.name (s.stack offset) }
  | .instr _ _ _ => s

/-- The events of a run of the returned list. -/
def run (m : Machine String (OperandVal Ty) (String × String) String Val σ) :
    List (Code Ty) → Option String → MachineState Val σ → List (Event (OperandVal Ty) (String × String) Val)
  | [], _, _ => []
  | .instr instruction dest source :: rest, pending, s =>
      if pending.isSome && decide (instruction.label ≠ pending) then run m rest pending s
      else
        let args := source.map (arg s.regs)
        let effect := m instruction.tag args s.state
        let next := (Located.mk s.regs s.state).next (destination dest) effect
        (instruction.tag, args) :: run m rest effect.target ⟨next.regs, s.stack, next.state⟩
  | code :: rest, pending, s => run m rest pending (if pending.isSome then s else s.spill code)

end MachineState

/-- Whatever the instructions compute, as long as they keep to their clobber lists, every instruction gets from the rewritten
program what it gets from the program on values. -/
def PreservesMeaning (t : Target Ty) (globalFunctionClobbers : List (String × List (Register Ty)))
    (instructions : List (Instruction Ty)) (codes : List (Code Ty)) : Prop :=
  ∀ (Val σ : Type) (m : Machine String (OperandVal Ty) (String × String) String Val σ),
    Respects m (program t globalFunctionClobbers instructions) → ∀ (start : MachineState Val σ) events,
      Virtual.run m (program t globalFunctionClobbers instructions) none ⟨fun _ => none, start.regs, start.state⟩ = some events →
        start.run m codes none = events

/-! ### A program in registers -/

/-- The register that a value is mapped to. -/
def location (registerMap : List (String × VariableRecord Ty)) (name : String) : String :=
  (registerOf registerMap name).getD ""

/-- Every value that an instruction names has a register, the one that it hard-codes. -/
structure InRegisters (registerMap : List (String × VariableRecord Ty)) (instr : Instruction Ty) : Prop where
  defined : ∀ name, instr.definedName = some name → (registerOf registerMap name).isSome
  used : ∀ src ∈ instr.source, ∀ name, src.usedName = some name → (registerOf registerMap name).isSome
  hardCoded : ∀ register, instr.hardCoded = some register → registerOf registerMap instr.instructionId = some register.name

variable {t : Target Ty} {registerMap : List (String × VariableRecord Ty)} {instr : Instruction Ty}

omit [DecidableEq Ty] in
theorem exists_register {name : String} (h : (registerOf registerMap name).isSome) :
    ∃ record register, OrderedDict.get? registerMap name = some record ∧ record.slot = .register register ∧
      location registerMap name = register.name := by
  obtain ⟨regName, hname⟩ := Option.isSome_iff_exists.mp h
  obtain ⟨record, hrecord, hslot⟩ := Option.bind_eq_some_iff.mp hname
  obtain ⟨start, stop, slot⟩ := record
  cases slot with
  | stack offset => cases hslot
  | register register =>
      refine ⟨_, register, hrecord, rfl, ?_⟩
      rw [location, hname]
      exact (Option.some.inj hslot).symm

theorem rewriteDestination_inRegisters (h : InRegisters registerMap instr) :
    ∃ dest, t.rewriteDestination registerMap instr.destination = .ok (dest, []) ∧
      MachineState.destination dest = instr.definedName.map (location registerMap) := by
  have hdefined := h.defined
  have hhard := h.hardCoded
  unfold Instruction.definedName at hdefined ⊢
  unfold Instruction.hardCoded at hhard
  generalize instr.destination = destination at hdefined hhard ⊢
  rcases destination with _ | ⟨type, val, _ | _⟩
  · exact ⟨none, rfl, rfl⟩
  · cases val <;> exact ⟨_, rfl, rfl⟩
  · cases val with
    | none => exact ⟨_, rfl, rfl⟩
    | int val => exact ⟨_, rfl, rfl⟩
    | register register =>
        refine ⟨_, rfl, congrArg some ?_⟩
        rw [location, hhard register rfl]
        rfl
    | str name =>
        obtain ⟨record, register, hget, hslot, hlocation⟩ := exists_register (hdefined name rfl)
        refine ⟨some ⟨type, .register register, true⟩, ?_, congrArg some hlocation.symm⟩
        simp only [Target.rewriteDestination, hget, hslot]

theorem rewriteSource_inRegisters {src : Operand Ty}
    (h : ∀ name, src.usedName = some name → (registerOf registerMap name).isSome) :
    ∃ src', t.rewriteSource registerMap src = .ok (src', []) ∧ ∀ (Val σ : Type) (s : Located String Val σ),
      MachineState.arg s.regs src' = s.arg (location registerMap) (src.reads t.getRegister) := by
  obtain ⟨type, val, _ | _⟩ := src
  · cases val <;> exact ⟨_, rfl, fun _ _ _ => rfl⟩
  · cases val with
    | none => exact ⟨_, rfl, fun _ _ _ => rfl⟩
    | int val => exact ⟨_, rfl, fun _ _ _ => rfl⟩
    | register register => exact ⟨_, rfl, fun _ _ _ => rfl⟩
    | str name =>
        by_cases hliteral : isLiteralRegister name = true
        · refine ⟨_, if_pos hliteral, fun Val σ s => ?_⟩
          rw [Operand.reads, if_pos hliteral]
          rfl
        · have hused : (⟨type, .str name, true⟩ : Operand Ty).usedName = some name := if_neg hliteral
          obtain ⟨record, register, hget, hslot, hlocation⟩ := exists_register (h name hused)
          refine ⟨⟨type, .register register, true⟩, ?_, fun Val σ s => ?_⟩
          · simp only [Target.rewriteSource, if_neg hliteral, hget, hslot]
          · rw [Operand.reads, if_neg hliteral, Located.arg, hlocation]
            rfl

theorem rewriteInstr_inRegisters (h : InRegisters registerMap instr) :
    ∃ dest source, t.rewriteInstr registerMap instr = .ok [.instr instr dest source] ∧
      MachineState.destination dest = instr.definedName.map (location registerMap) ∧
      ∀ (Val σ : Type) (s : Located String Val σ), source.map (MachineState.arg s.regs) =
        (instr.source.map (Operand.reads t.getRegister)).map (s.arg (location registerMap)) := by
  obtain ⟨dest, hdest, hdestination⟩ := rewriteDestination_inRegisters (t := t) h
  have hsources : ∀ source : List (Operand Ty),
      (∀ src ∈ source, ∀ name, src.usedName = some name → (registerOf registerMap name).isSome) →
        ∃ source' : List (Operand Ty), source.mapM (t.rewriteSource registerMap) = .ok (source'.map fun src => (src, [])) ∧
          ∀ (Val σ : Type) (s : Located String Val σ), source'.map (MachineState.arg s.regs) =
            (source.map (Operand.reads t.getRegister)).map (s.arg (location registerMap)) := by
    intro source
    induction source with
    | nil => exact fun _ => ⟨[], rfl, fun _ _ _ => rfl⟩
    | cons src rest ih =>
        intro hused
        obtain ⟨hhead, hrest⟩ := List.forall_mem_cons.mp hused
        obtain ⟨src', hsrc, harg⟩ := rewriteSource_inRegisters (t := t) hhead
        obtain ⟨rest', hrest', hargs⟩ := ih hrest
        refine ⟨src' :: rest', ?_, fun Val σ s => ?_⟩
        · rw [List.mapM_cons, hsrc, hrest']
          rfl
        · rw [List.map_cons, List.map_cons, List.map_cons, harg Val σ s, hargs Val σ s]
  obtain ⟨source, hsource, hargs⟩ := hsources instr.source h.used
  refine ⟨dest, source, ?_, hdestination, hargs⟩
  have hspill : (source.map fun src => (src, ([] : List (Code Ty)))).flatMap Prod.snd = [] := by
    rw [List.flatMap_map]
    exact List.flatMap_eq_nil_iff.mpr fun _ _ => rfl
  have hfst : (source.map fun src => (src, ([] : List (Code Ty)))).map Prod.fst = source := by
    rw [List.map_map]
    exact List.map_id' source
  rw [Target.rewriteInstr, hdest, hsource]
  change Except.ok ([] ++ _ ++ [Code.instr instr dest _]) = _
  rw [hspill, hfst]
  rfl

/-- A program whose values are all in registers is rewritten to the program on registers. -/
theorem run_inRegisters (globalFunctionClobbers : List (String × List (Register Ty)))
    (all instructions : List (Instruction Ty)) (h : ∀ instr ∈ instructions, InRegisters registerMap instr) :
    ∃ codes, t.applyLinearScan registerMap instructions = .ok codes ∧
      ∀ (Val σ : Type) (m : Machine String (OperandVal Ty) (String × String) String Val σ) pending (s : MachineState Val σ),
        s.run m codes pending = Located.run m (location registerMap)
          (instructions.map (Instruction.op t all globalFunctionClobbers)) pending ⟨s.regs, s.state⟩ := by
  induction instructions with
  | nil => exact ⟨[], rfl, fun _ _ _ _ _ => rfl⟩
  | cons instr rest ih =>
      obtain ⟨hinstr, hrest⟩ := List.forall_mem_cons.mp h
      obtain ⟨dest, source, hrewrite, hdest, hargs⟩ := rewriteInstr_inRegisters (t := t) hinstr
      obtain ⟨codes, hcodes, hrun⟩ := ih hrest
      obtain ⟨parts, hparts, hflat⟩ := Fallible.bind_ok hcodes
      obtain rfl := Except.ok.inj hflat
      refine ⟨.instr instr dest source :: parts.flatten, ?_, fun Val σ m pending s => ?_⟩
      · rw [Target.applyLinearScan, List.mapM_cons, hrewrite, hparts]
        rfl
      · rw [MachineState.run, List.map_cons, Located.run]
        have hsame : (instr.op t all globalFunctionClobbers).passed pending =
            (pending.isSome && decide (instr.label ≠ pending)) := rfl
        rw [hsame]
        split
        · exact hrun Val σ m pending s
        · dsimp only
          rw [hargs Val σ ⟨s.regs, s.state⟩, hdest, hrun]
          rfl

/-! ### A scan without stack slots -/

/-- Every value is defined in front of its uses. -/
def DefinedBeforeUse (instructions : List (Instruction Ty)) : Prop :=
  ∀ j name, UsedAt instructions name j →
    ∃ i < j, ∃ instr : Instruction Ty, instructions[i]? = some instr ∧ instr.definedName = some name

omit [DecidableEq Ty] in
/-- The interval that the loop visits for a value. -/
theorem exists_live {instructions : List (Instruction Ty)} {intervals : LiveIntervals Ty}
    (h : analyze instructions = .ok intervals) (hdefined : (instructions.filterMap Instruction.definedName).Nodup)
    {i : ℕ} {instr : Instruction Ty} (hget : instructions[i]? = some instr) {name : String}
    (hname : instr.definedName = some name) :
    ∃ x ∈ (liveIntervalList intervals).reverse, x.regName = name ∧ x.start = i ∧ i ≤ x.stop ∧
      (∀ j, UsedAt instructions name j → j ≤ x.stop) ∧ (i < x.stop → UsedAt instructions name x.stop) := by
  obtain ⟨x, hx, hfacts⟩ := exists_interval h hdefined hget hname
  have hmem := OrderedDict.mem_of_get? hx
  refine ⟨x, List.mem_reverse.mpr (StableSort.mem_sortBy.mpr (List.mem_map_of_mem hmem)), ?_, hfacts⟩
  exact (analyze_ok h).1.2 _ hmem

omit [DecidableEq Ty] in
theorem reads_eq_value_iff {getRegister : String → Register Ty} {src : Operand Ty} {name : String} :
    src.reads getRegister = .value name ↔ src.usedName = some name := by
  obtain ⟨type, val, _ | _⟩ := src
  · cases val <;> exact iff_of_false (fun h => by cases h) fun h => by cases h
  · cases val with
    | none => exact iff_of_false (fun h => by cases h) fun h => by cases h
    | int val => exact iff_of_false (fun h => by cases h) fun h => by cases h
    | register register => exact iff_of_false (fun h => by cases h) fun h => by cases h
    | str val =>
        rw [Operand.reads, Operand.usedName]
        split
        · exact iff_of_false (fun h => by cases h) fun h => by cases h
        · rw [Read.value.injEq, Option.some.injEq]

section
variable {globalFunctionClobbers : List (String × List (Register Ty))} {all : List (Instruction Ty)}

theorem mem_defs_program {instructions : List (Instruction Ty)} {name : String} :
    name ∈ defs (instructions.map (Instruction.op t all globalFunctionClobbers)) ↔
      ∃ (i : ℕ) (instr : Instruction Ty), instructions[i]? = some instr ∧ instr.definedName = some name := by
  rw [defs, List.filterMap_map, List.mem_filterMap]
  constructor
  · rintro ⟨instr, hinstr, hname⟩
    obtain ⟨i, hi, rfl⟩ := List.getElem_of_mem hinstr
    exact ⟨i, _, List.getElem?_eq_getElem hi, hname⟩
  · rintro ⟨i, instr, hget, hname⟩
    exact ⟨instr, List.mem_of_getElem? hget, hname⟩

theorem mem_reads_program {instructions : List (Instruction Ty)} {name : String} :
    .value name ∈ reads (instructions.map (Instruction.op t all globalFunctionClobbers)) ↔
      ∃ j, UsedAt instructions name j := by
  rw [reads, List.flatMap_map, List.mem_flatMap]
  constructor
  · rintro ⟨instr, hinstr, hread⟩
    obtain ⟨src, hsrc, hvalue⟩ := List.mem_map.mp hread
    obtain ⟨j, hj, rfl⟩ := List.getElem_of_mem hinstr
    exact ⟨j, _, List.getElem?_eq_getElem hj, src, hsrc, reads_eq_value_iff.mp hvalue⟩
  · rintro ⟨j, instr, hget, src, hsrc, hused⟩
    exact ⟨instr, List.mem_of_getElem? hget, List.mem_map.mpr ⟨src, hsrc, reads_eq_value_iff.mpr hused⟩⟩

/-- A split of the program, by the places of the values in front and behind. -/
theorem program_split {instructions : List (Instruction Ty)} {before after : List (Op String String (OperandVal Ty) _ String)}
    {op : Op String String (OperandVal Ty) (String × String) String}
    (h : program t globalFunctionClobbers instructions = before ++ op :: after) :
    ∃ i instr, instructions[i]? = some instr ∧ op = instr.op t instructions globalFunctionClobbers ∧
      (∀ name ∈ defs before, ∃ d < i, ∃ instr', instructions[d]? = some instr' ∧ instr'.definedName = some name) ∧
      ∀ name, .value name ∈ reads after → ∃ j, i < j ∧ UsedAt instructions name j := by
  obtain ⟨front, rest, rfl, rfl, hrest⟩ := List.map_eq_append_iff.mp h
  obtain ⟨instr, back, rfl, rfl, rfl⟩ := List.map_eq_cons_iff.mp hrest
  refine ⟨front.length, instr, ?_, rfl, fun name hname => ?_, fun name hname => ?_⟩
  · exact List.getElem?_append_right (le_refl _) |>.trans (by rw [Nat.sub_self]; rfl)
  · obtain ⟨d, instr', hget, hdefined⟩ := mem_defs_program.mp hname
    have hd := (List.getElem?_eq_some_iff.mp hget).1
    exact ⟨d, hd, instr', (List.getElem?_append_left hd).trans hget, hdefined⟩
  · obtain ⟨j, instr', hget, hsrc⟩ := mem_reads_program.mp hname
    refine ⟨front.length + (j + 1), by omega, instr', ?_, hsrc⟩
    rw [List.getElem?_append_right (by omega), Nat.add_sub_cancel_left]
    exact hget

end

variable {riscvRegisters : List (Register Ty)} {globalFunctionClobbers : List (String × List (Register Ty))}
  {instructions : List (Instruction Ty)} {intervals : LiveIntervals Ty} {input : ScanInput Ty} {final : ScanState Ty} {now : ℕ}

/-- The registers of a scan without stack slots keep what is read. -/
theorem kept_program (hanalyze : analyze instructions = .ok intervals)
    (hdefined : (instructions.filterMap Instruction.definedName).Nodup)
    (hclobbered : clobberMap instructions globalFunctionClobbers = .ok input.clobbered)
    (hinv : final.Invariant input (liveIntervalList intervals).reverse now) {names : List String}
    (hregistered : final.Registered input names (liveIntervalList intervals).reverse)
    (hfixed : ∀ r, .fixed r ∈ reads (program t globalFunctionClobbers instructions) → r ∉ names) :
    Kept (location final.registerMap) (program t globalFunctionClobbers instructions) where
  apart := by
    intro before op after hsplit w hdest v hv hne hread hsame
    obtain ⟨i, instr, hget, rfl, hbefore, hafter⟩ := program_split hsplit
    obtain ⟨d, hd, instr', hget', hname'⟩ := hbefore v hv
    obtain ⟨j, hj, hused⟩ := hafter v hread
    obtain ⟨x, hx, hxname, hxstart, -, hxuses, -⟩ := exists_live hanalyze hdefined hget' hname'
    obtain ⟨y, hy, hyname, hystart, hystop, -⟩ := exists_live hanalyze hdefined hget hdest
    obtain ⟨xreg, -, hxreg⟩ := hregistered.mapped x hx
    obtain ⟨yreg, -, hyreg⟩ := hregistered.mapped y hy
    have hregs : xreg = yreg := by
      rw [location, location, ← hxname, ← hyname, hxreg, hyreg] at hsame
      exact hsame
    have hxy : x ≠ y := fun heq => hne (hxname.symm.trans ((congrArg Interval.regName heq).trans hyname))
    have hlast := hxuses j hused
    rcases hinv.apart x hx y hy hxy xreg hxreg (hregs ▸ hyreg) with hend | hend <;> omega
  unclobbered := by
    intro before op after hsplit v hv hread _ hclobber
    obtain ⟨i, instr, hget, rfl, hbefore, hafter⟩ := program_split hsplit
    obtain ⟨d, hd, instr', hget', hname'⟩ := hbefore v hv
    obtain ⟨j, hj, hused⟩ := hafter v hread
    obtain ⟨x, hx, hxname, hxstart, -, hxuses, -⟩ := exists_live hanalyze hdefined hget' hname'
    obtain ⟨xreg, -, hxreg⟩ := hregistered.mapped x hx
    have hlast := hxuses j hused
    change location final.registerMap v ∈ ((clobberedBy instructions globalFunctionClobbers instr).toOption.join).getD [] at hclobber
    rw [location, ← hxname, hxreg] at hclobber
    cases hcase : clobberedBy instructions globalFunctionClobbers instr with
    | error fault =>
        rw [hcase] at hclobber
        cases hclobber
    | ok clobbers =>
        rw [hcase] at hclobber
        cases clobbers with
        | none => cases hclobber
        | some clobbers =>
            have hentry := mem_clobberMap hclobbered hget hcase
            refine hinv.unclobbered x hx xreg hxreg (List.mem_flatMap.mpr ⟨(i, clobbers), ?_, hclobber⟩)
            exact List.mem_filter.mpr ⟨hentry, decide_eq_true ⟨by omega, by omega⟩⟩
  fixed := by
    intro r hr v hv hsame
    obtain ⟨i, instr, hget, hname⟩ := mem_defs_program.mp hv
    obtain ⟨x, hx, hxname, -⟩ := exists_live hanalyze hdefined hget hname
    obtain ⟨xreg, hmem, hxreg⟩ := hregistered.mapped x hx
    rw [location, ← hxname, hxreg] at hsame
    exact hfixed r hr (hsame ▸ hmem)

/-- Every instruction of the program has its values in registers. -/
theorem inRegisters_program (hanalyze : analyze instructions = .ok intervals)
    (hdefined : (instructions.filterMap Instruction.definedName).Nodup) (hbefore : DefinedBeforeUse instructions)
    (hinput : scanInput instructions globalFunctionClobbers = .ok input) {names : List String}
    (hregistered : final.Registered input names (liveIntervalList intervals).reverse) :
    ∀ instr ∈ instructions, InRegisters final.registerMap instr := by
  have hmapped : ∀ {i : ℕ} {instr : Instruction Ty} {name : String}, instructions[i]? = some instr →
      instr.definedName = some name → (registerOf final.registerMap name).isSome := by
    intro i instr name hget hname
    obtain ⟨x, hx, hxname, -⟩ := exists_live hanalyze hdefined hget hname
    obtain ⟨reg, -, hreg⟩ := hregistered.mapped x hx
    rw [← hxname, hreg]
    rfl
  intro instr hinstr
  obtain ⟨i, hi, rfl⟩ := List.getElem_of_mem hinstr
  have hget := List.getElem?_eq_getElem hi
  refine ⟨fun name hname => hmapped hget hname, fun src hsrc name hused => ?_, fun register hhard => ?_⟩
  · obtain ⟨d, -, instr', hget', hname'⟩ := hbefore i name ⟨_, hget, src, hsrc, hused⟩
    exact hmapped hget' hname'
  · have hid := definedName_of_hardCoded hhard
    obtain ⟨x, hx, hxname, -⟩ := exists_live hanalyze hdefined hget hid
    rw [← hxname]
    refine hregistered.hardCoded x hx register.name ((hardCodedName_scanInput_iff hdefined hinput).mpr ?_)
    exact ⟨_, hinstr, register, hhard, hxname.symm, rfl⟩

end

end Riescue.LinearScan
