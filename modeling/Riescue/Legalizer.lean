import Riescue.RandNum
import Mathlib.Data.List.Infix

/-! The legalizer, `transformer/legalizer.py`: a first pass loads the registers that no instruction defines, a
second one casts between register types. The instruction classes and the instruction catalog come from
the package `coretp`, so the catalog is a parameter; a label carries no operands. Every emitted
instruction remembers which list it comes from, which the Python objects do by their identity. -/

namespace Riescue.Legalizer
variable {Ty : Type}

inductive OperandVal where
  | none
  | str (val : String)
  | int (val : ℤ)
  deriving DecidableEq, Repr

structure Operand (Ty : Type) where
  name : String
  type : Ty
  val : OperandVal
  isRegister : Bool
  deriving DecidableEq, Repr

structure Label where
  instructionId : String
  labelName : String
  instructionPointer : Bool
  deriving DecidableEq, Repr

structure Op (Ty : Type) where
  name : String
  instructionId : String
  destination : Option (Operand Ty)
  source : List (Operand Ty)
  deriving DecidableEq, Repr

inductive Instruction (Ty : Type) where
  | label (label : Label)
  | op (op : Op Ty)
  deriving DecidableEq, Repr

namespace Instruction

def instructionId : Instruction Ty → String
  | .label l => l.instructionId
  | .op o => o.instructionId

def source : Instruction Ty → List (Operand Ty)
  | .label _ => []
  | .op o => o.source

def destination : Instruction Ty → Option (Operand Ty)
  | .label _ => none
  | .op o => o.destination

/-- The object after its source operands have been assigned to. -/
def withSource (source : List (Operand Ty)) : Instruction Ty → Instruction Ty
  | .label l => .label l
  | .op o => .op { o with source := source }

/-- `isinstance(instruction, Label) and instruction.instruction_pointer` -/
def isFaultLabel : Instruction Ty → Bool
  | .label l => l.instructionPointer
  | .op _ => false

end Instruction

/-- `"fault_label" in label.label_name()` -/
def Label.namedFaultLabel (label : Label) : Bool :=
  decide ("fault_label".toList <:+: label.labelName.toList)

/-- What the legalizer uses of the instruction catalog: `get_instruction("li")`, which reads no register,
and `filter(destination_type, source_type, category=CAST)`. Each call returns fresh objects. -/
structure InstructionCatalog (Ty : Type) where
  li : Op Ty
  casts : Ty → Ty → List (Op Ty)
  li_source : ∀ src ∈ li.source, src.isRegister = false

/-- The part of the `LoweringContext` the legalizer uses. -/
structure LoweringContext (Ty : Type) where
  instructionCatalog : InstructionCatalog Ty
  rng : RandNum
  valueCount : ℕ

inductive LegalizeFault where
  | duplicateInstructionId (instructionId : String)
  | liHasNoImm
  | liHasNoDestination
  | indexError
  | producerHasNoDestination (instructionId : String)
  | noCastFound (val : String)
  | castHasNoDestination
  | castHasNoSource
  deriving DecidableEq, Repr

/-- Where an emitted instruction comes from. -/
inductive Origin where
  | given | li | cast
  deriving DecidableEq, Repr

structure Emitted (Ty : Type) where
  origin : Origin
  instruction : Instruction Ty
  deriving DecidableEq, Repr

/-! ### The first pass -/

/-- `_is_literal_register` -/
def isLiteralRegister (val : String) : Bool :=
  match val.toList with
  | first :: second :: rest =>
      let digits := (second :: rest).all Char.isDigit
      if first = 'r' ∧ digits then false
      else if first ∈ ['x', 'f', 'v'] ∧ digits then true
      else decide (val ∈ ["zero", "ra", "sp", "gp", "tp", "t0", "t1", "t2", "t3", "t4", "t5", "t6",
        "s0", "s1", "s2", "s3", "s4", "s5", "s6", "s7", "s8", "s9", "s10", "s11",
        "a0", "a1", "a2", "a3", "a4", "a5", "a6", "a7"])
  | _ => false

/-- The value an operand reads from a register, when it is one that an instruction may define. -/
def Operand.registerVal (src : Operand Ty) : Option String :=
  match src.isRegister, src.val with
  | true, .str val => some val
  | _, _ => none

/-- The register value of an operand that a `li` has to define. -/
def Operand.unresolved (resolvedIds : List String) (src : Operand Ty) : Option String :=
  src.registerVal.filter fun val => decide (val ∉ resolvedIds) && !isLiteralRegister val

/-- `instruction.get_source(name)` -/
def Op.getSource (op : Op Ty) (name : String) : Option (Operand Ty) :=
  op.source.find? fun src => src.name = name

/-- The assignment to `get_source(name).val`. -/
def setSourceVal (name : String) (val : OperandVal) : List (Operand Ty) → List (Operand Ty)
  | [] => []
  | src :: source =>
      if src.name = name then { src with val := val } :: source
      else src :: setSourceVal name val source

/-- `_load_immediate` -/
def loadImmediate (ctx : LoweringContext Ty) : Except LegalizeFault (Op Ty × LoweringContext Ty) :=
  let selected := ctx.instructionCatalog.li
  match ctx.rng.randomInRange 3 (2 ^ 32), selected.getSource "imm" with
  | (some value, rng), some _ =>
      .ok ({ selected with source := setSourceVal "imm" (.int value) selected.source },
        { ctx with rng := rng })
  | _, _ => .error .liHasNoImm

/-- One turn of the loop of `_resolve_li_immediates`: the `li` that defines `val`. -/
def loadValue (ctx : LoweringContext Ty) (val : String) :
    Except LegalizeFault (Emitted Ty × LoweringContext Ty) := do
  let (li, ctx) ← loadImmediate ctx
  match li.destination with
  | none => .error .liHasNoDestination
  | some liDest =>
      .ok (⟨.li, .op { li with
        instructionId := val, destination := some { liDest with val := .str val } }⟩, ctx)

/-- `_resolve_li_immediates`: the instructions that go in front of the given one. -/
def resolveSources (resolvedIds : List String) :
    List (Operand Ty) → LoweringContext Ty →
      Except LegalizeFault (List (Emitted Ty) × LoweringContext Ty)
  | [], ctx => .ok ([], ctx)
  | src :: source, ctx =>
      match src.unresolved resolvedIds with
      | none => resolveSources resolvedIds source ctx
      | some val => do
          let (li, ctx) ← loadValue ctx val
          let (rest, ctx) ← resolveSources resolvedIds source ctx
          pure (li :: rest, ctx)

/-- The loop of `resolve_li_immediates`; `previous` is `instructions[i - 1]`. -/
def resolveLiLoop (resolvedIds : List String) (previous : Option (Instruction Ty))
    (instructionsWithLi : List (Emitted Ty)) :
    List (Instruction Ty) → LoweringContext Ty →
      Except LegalizeFault (List (Emitted Ty) × LoweringContext Ty)
  | [], ctx => .ok (instructionsWithLi, ctx)
  | instruction :: rest, ctx => do
      if instruction.instructionId ∈ resolvedIds then
        .error (.duplicateInstructionId instruction.instructionId)
      else
        let resolvedIds := instruction.instructionId :: resolvedIds
        let (liOnly, ctx) ← resolveSources resolvedIds instruction.source ctx
        match previous, liOnly with
        | some (.label label), li :: lis =>
            if label.namedFaultLabel = false then
              -- `continue`: neither the loads nor the instruction are emitted
              resolveLiLoop resolvedIds (some instruction) instructionsWithLi rest ctx
            else
              match instructionsWithLi.getLast? with
              | none => .error .indexError
              | some precedingLabel =>
                  resolveLiLoop resolvedIds (some instruction)
                    (instructionsWithLi.dropLast ++ (li :: lis) ++ [precedingLabel] ++
                      [⟨.given, instruction⟩]) rest ctx
        | _, _ =>
            resolveLiLoop resolvedIds (some instruction)
              (instructionsWithLi ++ liOnly ++ [⟨.given, instruction⟩]) rest ctx

/-- `resolve_li_immediates` -/
def resolveLiImmediates (instructions : List (Instruction Ty)) (ctx : LoweringContext Ty) :
    Except LegalizeFault (List (Emitted Ty) × LoweringContext Ty) :=
  resolveLiLoop [] none [] instructions ctx

/-! ### The second pass -/

/-- `dest_registers[val]`: the dictionary keeps the last instruction of an id. -/
def destRegister (instructions : List (Emitted Ty)) (val : String) : Option (Instruction Ty) :=
  (instructions.reverse.find? fun emitted => emitted.instruction.instructionId = val).map
    Emitted.instruction

/-- `_rewire_cast_instruction`: the cast between the producer's destination and the operand. The operand
then reads the new value id. -/
def rewireCast (cast : Op Ty) (producerDest : Operand Ty) (ctx : LoweringContext Ty) :
    Except LegalizeFault (Emitted Ty × String × LoweringContext Ty) :=
  let valueId := "r" ++ toString ctx.valueCount
  match cast.destination, cast.getSource "rs1" with
  | none, _ => .error .castHasNoDestination
  | some _, none => .error .castHasNoSource
  | some castDest, some _ =>
      .ok (⟨.cast, .op { cast with
          instructionId := valueId
          destination := some { castDest with val := .str valueId }
          source := setSourceVal "rs1" producerDest.val cast.source }⟩, valueId,
        { ctx with valueCount := ctx.valueCount + 1 })

/-- The loop of `_resolve_casts`: the casts, and the source operands after it. -/
def resolveCasts [DecidableEq Ty] (destRegisters : String → Option (Instruction Ty)) :
    List (Operand Ty) → LoweringContext Ty →
      Except LegalizeFault (List (Emitted Ty) × List (Operand Ty) × LoweringContext Ty)
  | [], ctx => .ok ([], [], ctx)
  | src :: source, ctx =>
      match src.registerVal with
      | none => do
          let (casts, source, ctx) ← resolveCasts destRegisters source ctx
          pure (casts, src :: source, ctx)
      | some val =>
          match destRegisters val with
          | none => do
              let (casts, source, ctx) ← resolveCasts destRegisters source ctx
              pure (casts, src :: source, ctx)
          | some producer =>
              match producer.destination with
              | none => .error (.producerHasNoDestination val)
              | some producerDest =>
                  if producerDest.type = src.type then do
                    let (casts, source, ctx) ← resolveCasts destRegisters source ctx
                    pure (casts, src :: source, ctx)
                  else
                    match ctx.rng.randomEntryIn
                        (ctx.instructionCatalog.casts src.type producerDest.type) with
                    | (none, _) => .error (.noCastFound val)
                    | (some cast, rng) => do
                        let (cast, valueId, ctx) ←
                          rewireCast cast producerDest { ctx with rng := rng }
                        let (casts, source, ctx) ← resolveCasts destRegisters source ctx
                        pure (cast :: casts, { src with val := .str valueId } :: source, ctx)

/-- The loop of `insert_casts`. -/
def insertCastsLoop [DecidableEq Ty] (destRegisters : String → Option (Instruction Ty))
    (faultLabel : Option (Emitted Ty)) :
    List (Emitted Ty) → LoweringContext Ty →
      Except LegalizeFault (List (Emitted Ty) × LoweringContext Ty)
  | [], ctx => .ok ([], ctx)
  | emitted :: rest, ctx =>
      if emitted.instruction.isFaultLabel then
        insertCastsLoop destRegisters (some emitted) rest ctx
      else do
        let (casts, source, ctx) ← resolveCasts destRegisters emitted.instruction.source ctx
        let (casted, ctx) ← insertCastsLoop destRegisters none rest ctx
        pure (casts ++ faultLabel.toList ++
          { emitted with instruction := emitted.instruction.withSource source } :: casted, ctx)

/-- `insert_casts` -/
def insertCasts [DecidableEq Ty] (instructions : List (Emitted Ty)) (ctx : LoweringContext Ty) :
    Except LegalizeFault (List (Emitted Ty) × LoweringContext Ty) :=
  insertCastsLoop (destRegister instructions) none instructions ctx

/-- `legalize` -/
def legalize [DecidableEq Ty] (instructions : List (Instruction Ty)) (ctx : LoweringContext Ty) :
    Except LegalizeFault (List (Emitted Ty)) := do
  let (firstPass, ctx) ← resolveLiImmediates instructions ctx
  let (secondPass, _) ← insertCasts firstPass ctx
  pure secondPass

end Riescue.Legalizer
