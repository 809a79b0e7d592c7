import Riescue.CheckExcp
import Riescue.LibExcept
import Riescue.LibLabelled
import Riescue.LibOrderedDict
import Mathlib.Data.List.Dedup
import Mathlib.Data.List.Pairwise

/-! The interrupt side of the trap handlers, `InterruptHandler`, the registration in `TrapHandler.generate` and
`default_trap_handler`: every mode has a vector table of its own, user handlers are reached through stubs behind it, the stub
of a vector with custom handlers loads a pointer that the modes share, and in direct mode the trap handler finds the entry of
the table, or with APLIC interrupts that of `isr_table`. -/

namespace Riescue.TrapHandler.Handler

def isMachine : Handler → Bool
  | m => true
  | _ => false

/-- `deleg_virtualized` -/
def delegVirtualized : Handler → Bool
  | s => true
  | _ => false

def delegModeStr : Handler → String
  | m => "m"
  | hs => "hs"
  | s => "s"

def labelPrefix (mode : Handler) : List Char := "trap_handler_".toList ++ mode.delegModeStr.toList ++ "__".toList

/-- An internal label. -/
def label (mode : Handler) (name : String) : List Char := mode.labelPrefix ++ name.toList

/-- The labels of the APLIC code start with underscores. -/
def outerLabel (mode : Handler) (name : String) : List Char := "__".toList ++ mode.label name

def testFailLabel (mode : Handler) : List Char := if mode.isMachine then "test_failed".toList else mode.label "test_failed"

def xip (mode : Handler) : String := if mode.isMachine then "mip" else "sip"

def xret (mode : Handler) : String := if mode.isMachine then "mret" else "sret"

def xcause (mode : Handler) : String := if mode.isMachine then "mcause" else "scause"

def topei (mode : Handler) : String := mode.delegModeStr ++ "topei"

end Riescue.TrapHandler.Handler

namespace Riescue.InterruptDispatch
open Labelled OrderedDict
open TrapHandler (Handler)

abbrev Text := List Char

/-! ### Code -/

/-- The registers of a dispatch. -/
inductive Register where
  | x0 | t0 | t1
  deriving DecidableEq, Repr

inductive AluOp where
  | and | xor | add | sll
  deriving DecidableEq, Repr

inductive AluImmOp where
  | slli | srli | bclri
  deriving DecidableEq, Repr

/-- What an instruction puts into a register. An equate `intr_handler_ptr_N` stands as its vector, with `_pa` or without. -/
inductive Source where
  -- `csrr`, or `csrrw` that writes zero
  | csr (name : String)
  | li (value : BitVec 64)
  | liPointer (vector : ℕ) (pa : Bool)
  | la (symbol : Text)
  | alu (op : AluOp) (rs1 rs2 : Register)
  | alui (op : AluImmOp) (rs1 : Register) (imm : ℕ)
  | ld (rs : Register)
  | ldSymbol (symbol : Text)
  deriving DecidableEq, Repr

/-- The instructions and data that a dispatch goes through, the others as their text; `jr` and `jalr` are one here. -/
inductive Code where
  | jump (target : Text)
  | jr (rs : Register)
  | beq (rs1 rs2 : Register) (target : Text)
  | set (rd : Register) (source : Source)
  | dword (symbol : Text)
  | zero (bytes : ℕ)
  | other (text : String)
  deriving DecidableEq, Repr

abbrev Line := Labelled.Line Text Code

inductive HandlerFault where
  | keyError (key : ℕ)
  | valueError (message : String)
  deriving DecidableEq, Repr

/-! ### Interrupt service routines -/

structure InterruptServiceRoutine where
  label : Text
  labelPrefix : Text
  indirect : Bool := false
  deriving DecidableEq, Repr

namespace InterruptServiceRoutine

def jumpTableLabel (isr : InterruptServiceRoutine) : Text :=
  isr.labelPrefix ++ "_".toList ++ isr.label ++ "_jump_table".toList

def interruptHandlerPointer (isr : InterruptServiceRoutine) : Text :=
  isr.labelPrefix ++ "_".toList ++ isr.label ++ "_handler_pointer".toList

def interruptTableEntry (isr : InterruptServiceRoutine) : Code :=
  if isr.indirect then .jump isr.jumpTableLabel else .jump isr.label

def indirectJumpTableEntry (isr : InterruptServiceRoutine) : Except HandlerFault (List Line) :=
  if isr.indirect then
    .ok [.label isr.interruptHandlerPointer, .instr (.dword isr.label), .label isr.jumpTableLabel,
      .instr (.set .t0 (.ldSymbol isr.interruptHandlerPointer)), .instr (.jr .t0)]
  else .error (.valueError "cannot generate a jump table entry for a non-indirect ISR")

end InterruptServiceRoutine

/-! ### The vector table -/

/-- `RiscvInterruptCause` -/
def interruptCauses : List (String × ℕ) :=
  [("SSI", 1), ("MSI", 3), ("STI", 5), ("MTI", 7), ("SEI", 9), ("MEI", 11), ("COI", 13)]

def reservedInterruptIndices : List ℕ := [2, 4, 6, 8, 10, 12, 14, 15]

/-- `xlen.value - 1` -/
def vectorCount : ℕ := 63

abbrev VectorTable := List (ℕ × InterruptServiceRoutine)

/-- `register_vector` -/
def registerVector (mode : Handler) (table : VectorTable) (vectorNum : ℕ) (handlerLabel : Text) (indirect : Bool) :
    VectorTable :=
  insert table vectorNum { label := handlerLabel, labelPrefix := mode.labelPrefix, indirect }

def clearLabel (mode : Handler) (name : String) : Text := mode.label ("_CLEAR_" ++ name)

def invalidInterruptLabel (mode : Handler) : Text := mode.label "invalid_interrupt"

def clearHighestPriorityLabel (mode : Handler) : Text := mode.label "clear_highest_priority_interrupt"

/-- The labels of the table that the constructor builds, in the order of the assignments. -/
def defaultLabels (mode : Handler) : List (ℕ × Text) :=
  interruptCauses.map (fun cause => (cause.2, clearLabel mode cause.1)) ++
    reservedInterruptIndices.map (·, invalidInterruptLabel mode) ++
    (List.range' 16 (vectorCount - 16)).map (·, clearHighestPriorityLabel mode)

/-- The vector table of a new `InterruptHandler`. -/
def initialTable (mode : Handler) : VectorTable :=
  (defaultLabels mode).foldl (fun table entry => registerVector mode table entry.1 entry.2 false) []

/-! ### What the handlers are generated from -/

/-- A handler override: its label and its body, for the context of supervisor mode or of machine mode. -/
structure Override where
  label : Text
  assembly : Bool → List Line

structure FeatMgr where
  interruptHandlerOverrides : List (ℕ × Override)
  exceptionHandlerOverrides : List (ℕ × Override)
  mideleg : ℕ
  medeleg : ℕ
  skipInstructionForUnexpected : Bool
  pagingDisabled : Bool
  privMachine : Bool
  /-- The environment is `TEST_ENV_VIRTUALIZED`. -/
  virtualized : Bool
  /-- `call_hook(POST_TRAP)` -/
  postTrap : List Line

/-- Vectors that interrupts are taken for. -/
def IsVector (vector : ℕ) : Prop := 1 ≤ vector ∧ vector < vectorCount

instance (vector : ℕ) : Decidable (IsVector vector) := inferInstanceAs (Decidable (_ ∧ _))

structure ParsedVectoredInterrupt where
  index : ℕ
  label : Text
  isVector : IsVector index

structure ParsedCustomHandler where
  vectorNum : ℕ
  label : Text
  isVector : IsVector vectorNum

structure Pool where
  parsedVectoredInterrupts : List ParsedVectoredInterrupt
  parsedCustomHandlers : List ParsedCustomHandler
  initAplicInterrupts : Bool

/-- `_interrupt_handler_pointers`, by the vector of the equate. -/
abbrev Pointers := List (ℕ × Text)

/-- `add_interrupt_handler_pointer` -/
def addInterruptHandlerPointer (pointers : Pointers) (vector : ℕ) (defaultLabel : Text) : Pointers :=
  if (get? pointers vector).isNone then insert pointers vector defaultLabel else pointers

/-! ### Registration -/

/-- The overrides that a handler takes: those whose bit in the delegation register fits its privilege. -/
def routed (mode : Handler) (deleg : ℕ) (overrides : List (ℕ × Override)) : List (ℕ × Override) :=
  overrides.filter fun entry => deleg.testBit entry.1 = !mode.isMachine

namespace Pool
variable (pool : Pool)

/-- `vectored_labels` -/
def vectoredLabels : List (ℕ × Text) := assign [] (pool.parsedVectoredInterrupts.map fun vi => (vi.index, vi.label))

/-- `custom_vectors` -/
def customVectors : List ℕ := (pool.parsedCustomHandlers.map ParsedCustomHandler.vectorNum).dedup

/-- A custom handler makes its vector indirect when it is not. -/
def registerCustom (mode : Handler) (table : VectorTable) (ch : ParsedCustomHandler) : VectorTable :=
  if (get? table ch.vectorNum).any InterruptServiceRoutine.indirect then table
  else
    registerVector mode table ch.vectorNum ((get? pool.vectoredLabels ch.vectorNum).getD (clearHighestPriorityLabel mode)) true

end Pool

/-- The vector table after the registrations of `generate`. -/
def vectorTable (featmgr : FeatMgr) (pool : Pool) (mode : Handler) : VectorTable :=
  let overridden := (routed mode featmgr.mideleg featmgr.interruptHandlerOverrides).foldl
    (fun table entry => registerVector mode table entry.1 entry.2.label false) (initialTable mode)
  let vectored := pool.parsedVectoredInterrupts.foldl
    (fun table vi => registerVector mode table vi.index vi.label true) overridden
  pool.parsedCustomHandlers.foldl (pool.registerCustom mode) vectored

/-- The pointers of the custom vectors. -/
def registerPointers (table : VectorTable) (customVectors : List ℕ) (pointers : Pointers) : Pointers :=
  customVectors.foldl (fun pointers v =>
    match get? table v with
    | some isr => addInterruptHandlerPointer pointers v isr.label
    | none => pointers) pointers

/-! ### The code of the interrupt handler -/

def invalidInterrupt (mode : Handler) : List Line := [.label (invalidInterruptLabel mode), .instr (.jump mode.testFailLabel)]

def generateDefaultIsrs (mode : Handler) : List Line :=
  .label (mode.label "clear_all_interrupts") :: .instr (.other ("csrw " ++ mode.xip ++ ", x0")) :: .instr (.other mode.xret) ::
    interruptCauses.flatMap fun cause =>
      [.label (clearLabel mode cause.1), .instr (.other ("clear_interrupt_bit " ++ cause.1))]

def clearHighestInterruptBit (mode : Handler) : List Line :=
  [.label (clearHighestPriorityLabel mode), .instr (.other ("csrr t0, " ++ mode.xip)), .instr (.other "neg t1, t0"),
    .instr (.other "and t0, t0, t1"), .instr (.other ("csrrc x0, " ++ mode.xip ++ ", t0")), .instr (.other mode.xret)]

def trapEntryLabel (mode : Handler) : Text := mode.label "trap_entry"

/-- The entry of one vector. -/
def vectorTableEntry (table : VectorTable) (i : ℕ) : Except HandlerFault Line :=
  match get? table i with
  | some isr => .ok (.instr isr.interruptTableEntry)
  | none => .error (.keyError i)

/-- `_generate_interrupt_vector_table` -/
def interruptVectorTable (mode : Handler) (table : VectorTable) : Except HandlerFault (List Line) := do
  let entries ← (List.range' 1 (vectorCount - 1)).mapM (vectorTableEntry table)
  .ok (.label (mode.label "interrupt_vector_table") :: entries)

/-- The stub of one vector. -/
def jumpTableEntry (mode : Handler) (customVectors : List ℕ) (entry : ℕ × InterruptServiceRoutine) :
    Except HandlerFault (List Line) :=
  if entry.2.indirect then
    if entry.1 ∈ customVectors then
      .ok [.label entry.2.jumpTableLabel, .instr (.set .t0 (.liPointer entry.1 mode.isMachine)), .instr (.set .t0 (.ld .t0)),
        .instr (.jr .t0)]
    else entry.2.indirectJumpTableEntry
  else .ok []

/-- `_generate_interrupt_jump_table` -/
def interruptJumpTable (mode : Handler) (customVectors : List ℕ) (table : VectorTable) : Except HandlerFault (List Line) := do
  let stubs ← table.mapM (jumpTableEntry mode customVectors)
  .ok stubs.flatten

/-- `InterruptHandler.generate` -/
def generateInterruptHandler (mode : Handler) (customVectors : List ℕ) (table : VectorTable) :
    Except HandlerFault (List Line) := do
  let entries ← interruptVectorTable mode table
  let stubs ← interruptJumpTable mode customVectors table
  .ok (invalidInterrupt mode ++ generateDefaultIsrs mode ++ clearHighestInterruptBit mode ++
    [.label (trapEntryLabel mode), .instr (.jump (mode.label "trap_handler"))] ++ entries ++ stubs)

/-! ### The rest of the trap handler -/

/-- The bodies of the overrides. -/
def overrideHandlers (mode : Handler) (overrides : List (ℕ × Override)) : List Line :=
  overrides.flatMap fun entry => .label entry.2.label :: entry.2.assembly (!mode.isMachine)

/-- `test_fail` -/
def testFail (mode : Handler) : List Line :=
  if mode.isMachine then []
  else [.label (mode.label "test_failed"), .instr (.other "li x31, 0xf0000002"), .instr (.other "ecall")]

/-- `1 << (XLEN - 1)` -/
def interruptBit : BitVec 64 := 0x8000000000000000

/-- The overrides of exceptions are compared before the context is saved. -/
def exceptionDispatch (featmgr : FeatMgr) (mode : Handler) : List Line :=
  (routed mode featmgr.medeleg featmgr.exceptionHandlerOverrides).flatMap fun entry =>
    [.instr (.set .t1 (.li (.ofNat 64 entry.1))), .instr (.beq .t0 .t1 entry.2.label)]

/-- Without the APLIC: the jump to the entry of the vector table. -/
def vectorTableJump (mode : Handler) : List Line :=
  [.instr (.set .t1 (.li interruptBit)), .instr (.set .t0 (.alu .xor .t0 .t1)), .instr (.set .t1 (.la (trapEntryLabel mode))),
    .instr (.set .t0 (.alui .slli .t0 2)), .instr (.set .t0 (.alu .add .t1 .t0)), .instr (.jr .t0)]

/-- With the APLIC: the call of the entry of `isr_table`, and the routine of the APLIC. The code that saves the context leaves
nothing in `t0` and `t1` that is read. -/
def isrTableCall (mode : Handler) : List Line :=
  [.instr (.other "save_context"), .instr (.set .t0 (.csr mode.xcause)), .instr (.set .t0 (.alui .bclri .t0 63)),
    .instr (.set .t1 (.li 1)), .instr (.set .t1 (.alu .sll .t1 .t0)), .instr (.other ("csrrc x0, " ++ mode.xip ++ ", t1")),
    .instr (.set .t1 (.li 0x7fffffffffffffff)), .instr (.set .t0 (.alu .and .t0 .t1)),
    .instr (.set .t1 (.la (mode.outerLabel "isr_table"))), .instr (.set .t0 (.alui .slli .t0 3)),
    .instr (.set .t1 (.alu .add .t1 .t0)), .instr (.set .t1 (.ld .t1)), .instr (.beq .t1 .x0 "test_failed".toList),
    .instr (.jr .t1), .instr (.jump (mode.label "trap_exit")),
    .label (mode.outerLabel "aplic_isr"), .instr (.set .t1 (.la (mode.outerLabel "aplic_isr_table"))),
    .instr (.set .t0 (.csr mode.topei)), .instr (.set .t0 (.alui .srli .t0 16)), .instr (.set .t0 (.alui .slli .t0 3)),
    .instr (.set .t1 (.alu .add .t1 .t0)), .instr (.set .t0 (.ld .t1)), .instr (.beq .t0 .x0 "test_failed".toList),
    .instr (.jr .t0)]

/-- `default_trap_handler` -/
def defaultTrapHandler (featmgr : FeatMgr) (pool : Pool) (mode : Handler) : List Line :=
  [.label (mode.label "trap_handler"), .instr (.set .t0 (.csr mode.xcause)), .instr (.set .t1 (.li interruptBit)),
    .instr (.set .t1 (.alu .and .t1 .t0)), .instr (.beq .t1 .x0 (mode.label "exception_path")),
    .label (mode.label "interrupt_handler")] ++
    (if pool.initAplicInterrupts then isrTableCall mode else vectorTableJump mode) ++
    .label (mode.label "exception_path") :: exceptionDispatch featmgr mode ++
    [.instr (.other "save_context"), .instr (.jump (mode.label "excp_entry"))]

/-- The tables of the APLIC code, as they start. -/
def isrTables (pool : Pool) (mode : Handler) : List Line :=
  if pool.initAplicInterrupts then
    [.label (mode.outerLabel "isr_table"), .instr (.zero 88), .instr (.dword (mode.outerLabel "aplic_isr")), .instr (.zero 416),
      .label (mode.outerLabel "aplic_isr_table"), .instr (.zero 2048)]
  else []

def onlyIf (condition : Bool) (names : List String) : List String := if condition then names else []

/-- `check_excp` -/
def checkExcpNames (featmgr : FeatMgr) (mode : Handler) : List String :=
  ["check_exception_label", "check_excp", "skip_mode_check", "nonzero_tval_check", "skip_nonzero_tval_check"] ++
    onlyIf (!mode.delegVirtualized)
      ["nonzero_htval_check", "skip_nonzero_htval_check", "gva_check", "skip_gva_check"] ++
    ["skip_pc_check"] ++
    onlyIf featmgr.skipInstructionForUnexpected
      ["count_ignored_excp", "pc_plus_two", "pc_plus_four", "jump_over_pc", "soft_end_test"]

/-- From the return of a check to the end of the walk over the triggers. -/
def returnNames (mode : Handler) : List String :=
  ["ecall_from_machine", "ecall_from_supervisor", "return_to_host", "skip_xepc_write"] ++
    onlyIf mode.isMachine
      ["assert_disable_triggers_loop", "assert_check_icount", "assert_check_itrig_etrig", "assert_set_itrig_etrig_mask",
        "assert_apply_priv_mask", "skip_assert_disable_triggers"]

/-- `trap_exit` behind the hook, and `kernel_panic` -/
def trapExitNames (featmgr : FeatMgr) (mode : Handler) : List String :=
  onlyIf (mode.isMachine && !featmgr.pagingDisabled && featmgr.privMachine) ["trap_exit_normal_mret"] ++ ["trap_panic"]

def labelLines (labels : List Text) : List Line := labels.map .label

/-- `TrapHandler.generate`. Of the exception path behind `excp_entry` only the labels are kept. -/
def generate (featmgr : FeatMgr) (pool : Pool) (mode : Handler) (pointers : Pointers) :
    Except HandlerFault (List Line × Pointers) := do
  let table := vectorTable featmgr pool mode
  let interruptHandler ← generateInterruptHandler mode pool.customVectors table
  .ok (interruptHandler ++ overrideHandlers mode (routed mode featmgr.mideleg featmgr.interruptHandlerOverrides) ++
      overrideHandlers mode (routed mode featmgr.medeleg featmgr.exceptionHandlerOverrides) ++
      testFail mode ++ defaultTrapHandler featmgr pool mode ++
      labelLines ((["excp_entry"] ++ checkExcpNames featmgr mode ++ returnNames mode ++ ["trap_exit"]).map mode.label) ++
      featmgr.postTrap ++ labelLines ((trapExitNames featmgr mode).map mode.label) ++ isrTables pool mode,
    registerPointers table pool.customVectors pointers)

/-- The handlers of a test with supervisor mode, in the order of `Runtime`. -/
def handlers (featmgr : FeatMgr) : List Handler := if featmgr.virtualized then [.m, .s, .hs] else [.m, .s]

/-- The handler of one more mode. -/
def generateNext (featmgr : FeatMgr) (pool : Pool) (done : List (Handler × List Line) × Pointers) (mode : Handler) :
    Except HandlerFault (List (Handler × List Line) × Pointers) := do
  let (code, pointers) ← generate featmgr pool mode done.2
  .ok (done.1 ++ [(mode, code)], pointers)

/-- The code of all handlers, and the pointers that `OpSys` puts into `.os_data` afterwards. -/
def generateAll (featmgr : FeatMgr) (pool : Pool) : Except HandlerFault (List (Handler × List Line) × Pointers) :=
  (handlers featmgr).foldlM (generateNext featmgr pool) ([], [])

/-! ### Taking an interrupt -/

/-- A value in a register: a number, the address of a label with an offset, or the address of a pointer. -/
inductive Value where
  | word (value : BitVec 64)
  | symbol (name : Text) (offset : BitVec 64)
  | pointer (vector : ℕ)
  deriving DecidableEq, Repr

structure Registers where
  t0 : Value
  t1 : Value

namespace Registers

def get (regs : Registers) : Register → Value
  | .x0 => .word 0
  | .t0 => regs.t0
  | .t1 => regs.t1

def set (regs : Registers) (value : Value) : Register → Registers
  | .x0 => regs
  | .t0 => { regs with t0 := value }
  | .t1 => { regs with t1 := value }

end Registers

def AluOp.eval (x y : BitVec 64) : AluOp → BitVec 64
  | and => x &&& y
  | xor => x ^^^ y
  | add => x + y
  | sll => x <<< (y.toNat % 64)

def AluImmOp.eval (x : BitVec 64) (imm : ℕ) : AluImmOp → BitVec 64
  | slli => x <<< imm
  | srli => x >>> imm
  | bclri => x &&& ~~~BitVec.twoPow 64 imm

/-- Arithmetic on numbers, or a number added to an address. -/
def AluOp.apply : AluOp → Value → Value → Option Value
  | op, .word x, .word y => some (.word (op.eval x y))
  | .add, .symbol name offset, .word y => some (.symbol name (offset + y))
  | _, _, _ => none

def AluImmOp.apply (op : AluImmOp) (imm : ℕ) : Value → Option Value
  | .word x => some (.word (op.eval x imm))
  | _ => none

/-- The doubleword at an offset into data. -/
def dataAt : ℕ → List Line → Option Value
  | offset, .label _ :: rest => dataAt offset rest
  | offset, .instr (.zero bytes) :: rest => if offset + 8 ≤ bytes then some (.word 0) else dataAt (offset - bytes) rest
  | offset, .instr (.dword symbol) :: rest => if offset = 0 then some (.symbol symbol 0) else dataAt (offset - 8) rest
  | _, _ => none

section Running
variable (mode : Handler) (code : List Line) (pointers : Pointers) (csrs : String → BitVec 64)

def load : Value → Option Value
  | .word _ => none
  | .symbol name offset => (linesAt name code).bind (dataAt offset.toNat)
  | .pointer vector => (get? pointers vector).map fun symbol => .symbol symbol 0

/-- The equates with `_pa` are for machine mode, those without for the other modes. -/
def Source.eval (regs : Registers) : Source → Option Value
  | .csr name => some (.word (csrs name))
  | .li value => some (.word value)
  | .liPointer vector pa => if pa = mode.isMachine then some (.pointer vector) else none
  | .la symbol => some (.symbol symbol 0)
  | .alu op rs1 rs2 => op.apply (regs.get rs1) (regs.get rs2)
  | .alui op rs1 imm => op.apply imm (regs.get rs1)
  | .ld rs => load code pointers (regs.get rs)
  | .ldSymbol symbol => load code pointers (.symbol symbol 0)

/-- The lines are followed to the first jump: where it goes, and the registers there. No address is zero. -/
def run (regs : Registers) : List Line → Option (Value × Registers)
  | [] => none
  | .label _ :: rest => run regs rest
  | .instr (.jump target) :: _ => some (.symbol target 0, regs)
  | .instr (.jr rs) :: _ => some (regs.get rs, regs)
  | .instr (.beq rs1 rs2 target) :: rest =>
      if regs.get rs1 = regs.get rs2 then some (.symbol target 0, regs) else run regs rest
  | .instr (.set rd source) :: rest =>
      (source.eval mode code pointers csrs regs).bind fun value => run (regs.set value rd) rest
  | .instr (.other _) :: rest => run regs rest
  | .instr (.dword _) :: _ => none
  | .instr (.zero _) :: _ => none

/-- The run from a label on. -/
def runAt (name : Text) (regs : Registers) : Option (Value × Registers) :=
  (linesAt name code).bind (run mode code pointers csrs regs)

end Running

/-- The field MODE of `mtvec` or `stvec`. -/
inductive TvecMode where
  | direct | vectored
  deriving DecidableEq, Repr

/-- An interrupt as a handler finds it. -/
structure Interrupt (mode : Handler) where
  cause : ℕ
  csrs : String → BitVec 64
  regs : Registers
  isVector : IsVector cause
  xcause : csrs mode.xcause = interruptBit ||| .ofNat 64 cause

section
variable {mode : Handler} (code : List Line) (pointers : Pointers)

/-- `trap_entry + 4 * cause` -/
def entryAddress (interrupt : Interrupt mode) : Value := .symbol (trapEntryLabel mode) (.ofNat 64 (4 * interrupt.cause))

/-- Where the interrupt is at the jump of the trap handler: in direct mode it starts at `trap_entry`. -/
def entered (interrupt : Interrupt mode) : TvecMode → Option (Value × Registers)
  | .vectored => some (entryAddress interrupt, interrupt.regs)
  | .direct =>
      (runAt mode code pointers interrupt.csrs (trapEntryLabel mode) interrupt.regs).bind fun out =>
        match out.1 with
        | .symbol name _ => runAt mode code pointers interrupt.csrs name out.2
        | _ => none

/-- The instruction at `trap_entry + 4 * cause`. -/
def tableEntry (mode : Handler) (cause : ℕ) : Option Code :=
  (linesAt (trapEntryLabel mode) code).bind fun lines => (instrs lines)[cause]?

/-- An interrupt goes through the table to a handler, straight or through a stub. -/
def TakenTo (tvec : TvecMode) (interrupt : Interrupt mode) (handler : Text) : Prop :=
  ∃ regs, entered code pointers interrupt tvec = some (entryAddress interrupt, regs) ∧
    ∃ target, tableEntry code mode interrupt.cause = some (.jump target) ∧
      (target = handler ∨
        ∃ regs', runAt mode code pointers interrupt.csrs target regs = some (.symbol handler 0, regs'))

end

section
variable (featmgr : FeatMgr) (pool : Pool)

/-- What is registered for a mode, in this order. A custom handler registers the default of the mode for a vector without
`vectored_interrupt`. -/
def registrations (mode : Handler) : List (ℕ × Text) :=
  (routed mode featmgr.mideleg featmgr.interruptHandlerOverrides).map (fun entry => (entry.1, entry.2.label)) ++
    pool.parsedVectoredInterrupts.map (fun vi => (vi.index, vi.label)) ++
    (pool.parsedCustomHandlers.filter fun ch => (get? pool.vectoredLabels ch.vectorNum).isNone).map
      fun ch => (ch.vectorNum, clearHighestPriorityLabel mode)

def registeredLast (mode : Handler) (cause : ℕ) : Option Text :=
  get? (defaultLabels mode ++ registrations featmgr pool mode).reverse cause

/-- The interrupts of one mode: no label is set twice, every interrupt is taken to the handler that was registered last for
its cause, and the stub of a vector with custom handlers loads a pointer that starts with the default handler of this mode,
the one that ends in the mode's `xret`. -/
structure DispatchesRight (tvec : TvecMode) (mode : Handler) (code : List Line) (pointers : Pointers) : Prop where
  distinct : (labels code).Nodup
  dispatch : ∀ interrupt : Interrupt mode, ∃ handler, registeredLast featmgr pool mode interrupt.cause = some handler ∧
    TakenTo code pointers tvec interrupt handler
  ownDefault : ∀ v ∈ pool.customVectors, get? pointers v = some (clearHighestPriorityLabel mode) ∧
    ∃ stub rest, tableEntry code mode v = some (.jump stub) ∧ linesAt stub code =
      some (.instr (.set .t0 (.liPointer v mode.isMachine)) :: .instr (.set .t0 (.ld .t0)) :: .instr (.jr .t0) :: rest)

/-- All handlers are generated and dispatch their interrupts right. -/
def AllDispatchRight (tvec : TvecMode) : Prop :=
  ∃ codes pointers, generateAll featmgr pool = .ok (codes, pointers) ∧
    ∀ entry ∈ codes, DispatchesRight featmgr pool tvec entry.1 entry.2 pointers

/-! ### When it does -/

/-- `test_fail` and `default_trap_handler`, the names inside, with the entry of the exception path -/
def defaultTrapHandlerNames (mode : Handler) : List String :=
  onlyIf (!mode.isMachine) ["test_failed"] ++ ["trap_handler", "interrupt_handler", "exception_path", "excp_entry"]

def aplicNames : List String := onlyIf pool.initAplicInterrupts ["aplic_isr", "isr_table", "aplic_isr_table"]

/-- The names of a handler without its stubs. -/
def ownNames (mode : Handler) : List String :=
  ["invalid_interrupt", "clear_all_interrupts"] ++ interruptCauses.map (fun cause => "_CLEAR_" ++ cause.1) ++
    ["clear_highest_priority_interrupt", "trap_entry", "interrupt_vector_table"] ++
    (defaultTrapHandlerNames mode ++ checkExcpNames featmgr mode ++ returnNames mode ++ ["trap_exit"]) ++
    trapExitNames featmgr mode

def ownLabels (mode : Handler) : List Text :=
  (ownNames featmgr mode).map mode.label ++ (aplicNames pool).map mode.outerLabel

/-- The labels of the overrides and of the hook. -/
def userLabels (mode : Handler) : List Text :=
  labels (overrideHandlers mode (routed mode featmgr.mideleg featmgr.interruptHandlerOverrides)) ++
    labels (overrideHandlers mode (routed mode featmgr.medeleg featmgr.exceptionHandlerOverrides)) ++ labels featmgr.postTrap

def stubLabel (mode : Handler) (label : Text) : Text := mode.labelPrefix ++ "_".toList ++ label ++ "_jump_table".toList

def pointerLabel (mode : Handler) (label : Text) : Text :=
  mode.labelPrefix ++ "_".toList ++ label ++ "_handler_pointer".toList

/-- There are no custom handlers, the trap handler uses the vector table, vectored interrupts do not share a label, and the
overrides use labels of their own. -/
structure Separated (tvec : TvecMode) : Prop where
  noCustom : pool.parsedCustomHandlers = []
  vectorTable : tvec = .direct → pool.initAplicInterrupts = false
  labelOnce : ∀ v w label, get? pool.vectoredLabels v = some label → get? pool.vectoredLabels w = some label → v = w
  overridesApart : ∀ mode ∈ handlers featmgr, (userLabels featmgr mode).Nodup ∧ ∀ name ∈ userLabels featmgr mode,
    name ∉ ownLabels featmgr pool mode ∧ ∀ v label, get? pool.vectoredLabels v = some label →
      name ≠ stubLabel mode label ∧ name ≠ pointerLabel mode label

end

end Riescue.InterruptDispatch
