import Riescue.LibExcept
import Riescue.LibLayout
import Riescue.LibMachine

/-! The variables of the test runtime, `runtime/variable`: the code that accesses a variable (`variable.py`), and the
memory containers that register and emit them (`memory.py`, `hart_memory.py`, `shared_memory.py`). -/

namespace Riescue.Variables
open Machine Layout

inductive VariableFault where
  | indexOutOfBounds (index : ℤ) (elementCount : ℕ)
  | unsupportedSize (size : ℕ)
  | alreadyRegistered (name : String)
  deriving DecidableEq, Repr

/-- `Variable`. The size is that of one element. -/
structure Variable where
  name : String
  value : ℤ
  size : ℕ
  offset : ℤ
  description : String := ""
  amoEnabled : Bool := false
  hartVariable : Bool := false
  elementCount : ℕ := 1
  deriving DecidableEq, Repr

abbrev Code := List (Instr String)

/-- The pointer to the context of the hart. -/
abbrev tp : Reg := 4

abbrev t6 : Reg := 31

namespace Variable

/-- `_element_offset` -/
def elementOffset (v : Variable) (index : ℤ) : Except VariableFault ℤ :=
  if index < 0 ∨ index ≥ v.elementCount then .error (.indexOutOfBounds index v.elementCount)
  else .ok (v.offset + index * v.size)

/-- `_offset_fits_12bit` -/
def offsetFits12bit (offset : ℤ) : Bool := -2048 ≤ offset ∧ offset ≤ 2047

/-- `_resolve_name` -/
def resolveName (v : Variable) (bare : Bool) (index : ℤ) : Operand String :=
  let name := if bare then v.name ++ "_pa" else v.name
  if index = 0 then .symbol name 0 else .symbol name (index * v.size)

/-- `_load_instruction`, the bytes that the instruction loads. -/
def loadInstruction (v : Variable) : Except VariableFault ℕ :=
  if v.size = 8 then .ok 8 else if v.size = 4 then .ok 4 else if v.size = 2 then .ok 2 else if v.size = 1 then .ok 1
  else .error (.unsupportedSize v.size)

/-- `_store_instruction`, the bytes that the instruction stores. -/
def storeInstruction (v : Variable) : Except VariableFault ℕ :=
  if v.size = 8 then .ok 8 else if v.size = 4 then .ok 4 else if v.size = 2 then .ok 2 else if v.size = 1 then .ok 1
  else .error (.unsupportedSize v.size)

/-- `load_immediate` -/
def loadImmediate (v : Variable) (destReg : Reg) (index : ℤ) (bare : Bool := true) : Except VariableFault Code := do
  let offset ← v.elementOffset index
  if v.hartVariable then
    if offsetFits12bit offset then .ok [.addi destReg tp offset]
    else .ok [.li destReg (.const offset), .add destReg destReg tp]
  else .ok [.li destReg (v.resolveName bare index)]

/-- `load` -/
def load (v : Variable) (destReg : Reg) (index : ℤ) (bare : Bool := true) : Except VariableFault Code := do
  let offset ← v.elementOffset index
  if v.hartVariable then
    if offsetFits12bit offset then do
      let bytes ← v.loadInstruction
      .ok [.load bytes destReg offset tp]
    else do
      let address ← v.loadImmediate destReg index
      let bytes ← v.loadInstruction
      .ok (address ++ [.load bytes destReg 0 destReg])
  else do
    let address ← v.loadImmediate destReg index bare
    let bytes ← v.loadInstruction
    .ok (address ++ [.load bytes destReg 0 destReg])

/-- `store` -/
def store (v : Variable) (srcReg : Reg) (tempReg : Reg := t6) (index : ℤ) (bare : Bool := true) :
    Except VariableFault Code := do
  let offset ← v.elementOffset index
  if v.hartVariable then
    if offsetFits12bit offset then do
      let bytes ← v.storeInstruction
      .ok [.store bytes srcReg offset tp]
    else do
      let address ← v.loadImmediate tempReg index
      let bytes ← v.storeInstruction
      .ok (address ++ [.store bytes srcReg 0 tempReg])
  else do
    let address ← v.loadImmediate tempReg index bare
    let bytes ← v.storeInstruction
    .ok (address ++ [.store bytes srcReg 0 tempReg])

/-- `increment` -/
def increment (v : Variable) (destReg addrReg : Reg) (index : ℤ) (bare : Bool := true) : Except VariableFault Code := do
  if v.amoEnabled then do
    let li ← v.loadImmediate addrReg index bare
    let bytes := if v.size = 8 then 8 else 4
    .ok (li ++ [.li destReg (.const 1), .amoadd bytes destReg destReg addrReg, .addi destReg destReg 1])
  else do
    let li ← v.loadImmediate addrReg index bare
    let loadBytes ← v.loadInstruction
    let storeBytes ← v.storeInstruction
    .ok (li ++ [.load loadBytes destReg 0 addrReg, .addi destReg destReg 1, .store storeBytes destReg 0 addrReg])

/-- `load_and_clear` -/
def loadAndClear (v : Variable) (destReg : Reg) (index : ℤ) (bare : Bool := true) : Except VariableFault Code := do
  if v.amoEnabled then do
    let bytes := if v.size = 8 then 8 else 4
    let addrCode ← v.loadImmediate destReg index
    .ok (addrCode ++ [.amoswap bytes destReg 0 destReg])
  else do
    let loadCode ← v.load destReg index bare
    let storeCode ← v.store 0 t6 index bare
    .ok (loadCode ++ storeCode)

end Variable

/-! ### Memory containers -/

inductive Xlen where
  | xlen32
  | xlen64
  deriving DecidableEq, Repr

def Xlen.bits : Xlen → ℕ
  | .xlen32 => 32
  | .xlen64 => 64

/-- `BaseMemory` -/
structure BaseMemory where
  xlen : Xlen
  amoEnabled : Bool
  vars : List Variable
  offset : ℤ

/-- The arguments of `register`. -/
structure Registration where
  name : String
  value : ℤ
  size : Option ℕ := none
  description : String := ""
  elementCount : ℕ := 1

namespace BaseMemory

def variableSize (m : BaseMemory) : ℕ := m.xlen.bits / 8

/-- `register` -/
def register (m : BaseMemory) (hartVariable : Bool) (call : Registration) : Except VariableFault BaseMemory :=
  if call.name ∈ m.vars.map Variable.name then .error (.alreadyRegistered call.name)
  else
    let newVariable : Variable := {
      name := call.name
      value := call.value
      size := call.size.getD m.variableSize
      offset := m.offset
      description := call.description
      amoEnabled := m.amoEnabled
      hartVariable
      elementCount := call.elementCount }
    .ok { m with
      offset := m.offset + m.variableSize * call.elementCount
      vars := m.vars ++ [newVariable] }

/-- `register`, call by call. -/
def registerAll (m : BaseMemory) (hartVariable : Bool) (calls : List Registration) : Except VariableFault BaseMemory :=
  calls.foldlM (fun m call => m.register hartVariable call) m

end BaseMemory

/-- A label of a data section: `hart_context_{hart_id}`, `hart_stack_{hart_id}_end` and `{name}_mem`. -/
inductive Label where
  | hartContext (hartId : ℕ)
  | hartStackEnd (hartId : ℕ)
  | mem (name : String)
  deriving DecidableEq, Repr

/-- What a line of data emits: a number or an address, and the variable and the index of its element, when it is one. -/
structure Datum where
  value : ℤ ⊕ Label
  element : Option (String × ℕ) := none
  deriving DecidableEq

abbrev Line := Directive Label Datum

/-- An equate: the symbol, its base and the offset. -/
structure Equate where
  symbol : String
  base : String
  offset : ℤ
  deriving DecidableEq, Repr

namespace HartContext

def numInternalVariables : ℕ := 2

/-- `HartContext` -/
def new (xlen : Xlen) (amoEnabled : Bool) : BaseMemory where
  xlen
  amoEnabled
  vars := []
  offset := xlen.bits / 8 * numInternalVariables

/-- The lines of a v. -/
def variableLines (m : BaseMemory) (hartId : ℕ) (v : Variable) : List Line :=
  let value := if v.name = "mhartid" then (hartId : ℤ) else v.value
  (List.range v.elementCount).map fun i =>
    .data m.variableSize { value := .inl value, element := some (v.name, i) }

/-- The bytes of the internal variables and of the elements. -/
def bytesAllocated (m : BaseMemory) : ℕ :=
  m.vars.foldl (fun bytes v => bytes + m.variableSize * v.elementCount)
    (m.variableSize * numInternalVariables)

/-- `allocate` -/
def allocate (m : BaseMemory) (hartId : ℕ) (includePadding : Bool := true) : List Line :=
  let testStackPointerDefaultVal : ℤ := 0
  let initialContext : List Line := [
    .balign 64,
    .label (.hartContext hartId),
    .data m.variableSize { value := .inr (.hartStackEnd hartId) },
    .data m.variableSize { value := .inl testStackPointerDefaultVal }]
  let paddingNeeded := (64 - bytesAllocated m % 64) % 64
  let padding : List Line := if includePadding ∧ paddingNeeded > 0 then [.space paddingNeeded] else []
  initialContext ++ m.vars.flatMap (variableLines m hartId) ++ padding

/-- `per_hart_size` -/
def perHartSize (m : BaseMemory) : ℕ := bytesAllocated m + (64 - bytesAllocated m % 64) % 64

/-- `equates` -/
def equates (m : BaseMemory) (name : String := "hart_context") : List Equate :=
  m.vars.map fun v => ⟨v.name, name, v.offset⟩

/-- The contexts of the harts, as `VariableManager.allocate` emits them. -/
def allocateAll (m : BaseMemory) (hartCount : ℕ) : List Line := (List.range hartCount).flatMap fun hartId => allocate m hartId

end HartContext

namespace SharedMemory

/-- `SharedMemory` -/
def new (xlen : Xlen) (amoEnabled : Bool) : BaseMemory where
  xlen
  amoEnabled
  vars := []
  offset := 0

/-- The lines of a v. -/
def variableLines (m : BaseMemory) (v : Variable) : List Line :=
  .label (.mem v.name) :: (List.range v.elementCount).map fun i =>
    .data m.variableSize { value := .inl v.value, element := some (v.name, i) }

/-- `allocate`, the lines of the section. -/
def allocate (m : BaseMemory) : List Line := m.vars.flatMap (variableLines m)

/-- `equates` -/
def equates (m : BaseMemory) (offset : ℤ) : List Equate :=
  m.vars.map fun v => ⟨v.name, "os_data", v.offset + offset⟩

/-- `pa_equates` -/
def paEquates (m : BaseMemory) (offset : ℤ) : List Equate :=
  m.vars.map fun v => ⟨v.name ++ "_pa", "os_data_pa", v.offset + offset⟩

end SharedMemory

/-! ### The code for an element -/

namespace Variable
variable {v : Variable} {index : ℤ}

/-- The index of an element of the variable. -/
def IsIndex (v : Variable) (index : ℤ) : Prop := 0 ≤ index ∧ index < v.elementCount

theorem elementOffset_isIndex (h : v.IsIndex index) : v.elementOffset index = .ok (v.offset + index * v.size) := by
  obtain ⟨hnonneg, hlt⟩ := h
  rw [elementOffset, if_neg]
  omega

theorem loadInstruction_of_mem (hsize : v.size ∈ [1, 2, 4, 8]) : v.loadInstruction = .ok v.size := by
  simp only [List.mem_cons, List.not_mem_nil, or_false] at hsize
  unfold loadInstruction
  rcases hsize with h | h | h | h <;> simp [h]

theorem storeInstruction_of_mem (hsize : v.size ∈ [1, 2, 4, 8]) : v.storeInstruction = .ok v.size := by
  simp only [List.mem_cons, List.not_mem_nil, or_false] at hsize
  unfold storeInstruction
  rcases hsize with h | h | h | h <;> simp [h]

theorem loadImmediate_near (hindex : v.IsIndex index) (hhart : v.hartVariable = true)
    (hfits : offsetFits12bit (v.offset + index * v.size) = true) (reg : Reg) (bare : Bool) :
    v.loadImmediate reg index bare = .ok [.addi reg tp (v.offset + index * v.size)] := by
  rw [loadImmediate, elementOffset_isIndex hindex, hhart]
  exact if_pos hfits

theorem loadImmediate_far (hindex : v.IsIndex index) (hhart : v.hartVariable = true)
    (hfits : offsetFits12bit (v.offset + index * v.size) = false) (reg : Reg) (bare : Bool) :
    v.loadImmediate reg index bare = .ok [.li reg (.const (v.offset + index * v.size)), .add reg reg tp] := by
  rw [loadImmediate, elementOffset_isIndex hindex, hhart]
  exact if_neg (Bool.eq_false_iff.mp hfits)

theorem loadImmediate_shared (hindex : v.IsIndex index) (hhart : v.hartVariable = false) (reg : Reg) (bare : Bool) :
    v.loadImmediate reg index bare = .ok [.li reg (v.resolveName bare index)] := by
  rw [loadImmediate, elementOffset_isIndex hindex, hhart]
  rfl

theorem load_near (hindex : v.IsIndex index) (hhart : v.hartVariable = true) (hsize : v.size ∈ [1, 2, 4, 8])
    (hfits : offsetFits12bit (v.offset + index * v.size) = true) (reg : Reg) (bare : Bool) :
    v.load reg index bare = .ok [.load v.size reg (v.offset + index * v.size) tp] := by
  rw [load, elementOffset_isIndex hindex, hhart, loadInstruction_of_mem hsize]
  exact if_pos hfits

theorem load_far (hindex : v.IsIndex index) (hhart : v.hartVariable = true) (hsize : v.size ∈ [1, 2, 4, 8])
    (hfits : offsetFits12bit (v.offset + index * v.size) = false) (reg : Reg) (bare : Bool) :
    v.load reg index bare =
      .ok [.li reg (.const (v.offset + index * v.size)), .add reg reg tp, .load v.size reg 0 reg] := by
  rw [load, elementOffset_isIndex hindex, hhart, loadInstruction_of_mem hsize, loadImmediate_far hindex hhart hfits]
  exact if_neg (Bool.eq_false_iff.mp hfits)

theorem load_shared (hindex : v.IsIndex index) (hhart : v.hartVariable = false) (hsize : v.size ∈ [1, 2, 4, 8])
    (reg : Reg) (bare : Bool) :
    v.load reg index bare = .ok [.li reg (v.resolveName bare index), .load v.size reg 0 reg] := by
  rw [load, elementOffset_isIndex hindex, hhart, loadInstruction_of_mem hsize,
    loadImmediate_shared hindex hhart reg bare]
  rfl

theorem store_near (hindex : v.IsIndex index) (hhart : v.hartVariable = true) (hsize : v.size ∈ [1, 2, 4, 8])
    (hfits : offsetFits12bit (v.offset + index * v.size) = true) (reg temp : Reg) (bare : Bool) :
    v.store reg temp index bare = .ok [.store v.size reg (v.offset + index * v.size) tp] := by
  rw [store, elementOffset_isIndex hindex, hhart, storeInstruction_of_mem hsize]
  exact if_pos hfits

theorem store_far (hindex : v.IsIndex index) (hhart : v.hartVariable = true) (hsize : v.size ∈ [1, 2, 4, 8])
    (hfits : offsetFits12bit (v.offset + index * v.size) = false) (reg temp : Reg) (bare : Bool) :
    v.store reg temp index bare =
      .ok [.li temp (.const (v.offset + index * v.size)), .add temp temp tp, .store v.size reg 0 temp] := by
  rw [store, elementOffset_isIndex hindex, hhart, storeInstruction_of_mem hsize, loadImmediate_far hindex hhart hfits]
  exact if_neg (Bool.eq_false_iff.mp hfits)

theorem store_shared (hindex : v.IsIndex index) (hhart : v.hartVariable = false) (hsize : v.size ∈ [1, 2, 4, 8])
    (reg temp : Reg) (bare : Bool) :
    v.store reg temp index bare = .ok [.li temp (v.resolveName bare index), .store v.size reg 0 temp] := by
  rw [store, elementOffset_isIndex hindex, hhart, storeInstruction_of_mem hsize,
    loadImmediate_shared hindex hhart temp bare]
  rfl

/-- The symbol of a shared variable, with the distance of the element. -/
theorem resolveName_eq (v : Variable) (bare : Bool) (index : ℤ) :
    v.resolveName bare index = .symbol (if bare then v.name ++ "_pa" else v.name) (index * v.size) := by
  unfold resolveName
  by_cases hzero : index = 0
  · rw [if_pos hzero, hzero, Int.zero_mul]
  · rw [if_neg hzero]

end Variable

end Riescue.Variables
