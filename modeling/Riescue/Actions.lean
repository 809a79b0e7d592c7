import Riescue.LibExpansion
import Riescue.TestPlanIds
import Riescue.PrivilegeBlocks
import Riescue.RandNum

/-! The actions of the test plan, `test_plan/actions`, and what `expand` makes of each. An action that has been
expanded is marked and kept from then on. -/

namespace Riescue.Expander
open TestPlan Expansion
open PrivilegeBlocks (Mode MarkerType)

/-! ### The lowering context -/

/-- The name of a CSR; its first two letters tell the privilege mode. -/
abbrev CsrName := { name : String // 2 ≤ name.length }

theorem mscratch_length : 2 ≤ "mscratch".length := by decide

inductive Privilege where
  | machine | supervisor | user
  deriving DecidableEq, Repr

/-- The parts of the context that stay: the environment of the tests, the instruction catalog, the outcome of the
requests to the registry and the choice of the CSR manager for an instruction, which may only read the CSR or not. -/
structure Environment where
  priv : Privilege
  virtualized : Bool
  regWidth : ℕ
  supportsExtensions : List String → Bool
  requestSuccessful : String → Bool
  randomizeCsr : String → Bool → RandNum → CsrName × RandNum

/-- The parts of `LoweringContext` that expansion changes; of the registry, the names of its pages. -/
structure LoweringContext where
  ids : IdTracker
  pages : List String
  rng : RandNum

namespace LoweringContext

def newValueId (ctx : LoweringContext) : String × LoweringContext :=
  let (id, ids) := ctx.ids.newId .value
  (id, { ctx with ids })

def newLabel (ctx : LoweringContext) : String × LoweringContext :=
  ("L" ++ toString ctx.ids.labelCount, { ctx with ids := { ctx.ids with labelCount := ctx.ids.labelCount + 1 } })

/-- `unique_label` -/
def uniqueLabel (ctx : LoweringContext) (name : String) : String × LoweringContext :=
  (name ++ "_" ++ toString (ctx.ids.counters name),
    { ctx with ids := { ctx.ids with counters := Function.update ctx.ids.counters name (ctx.ids.counters name + 1) } })

def isMemoryLabel (ctx : LoweringContext) (name : String) : Bool := ctx.pages.contains name

/-- `random_n_width_number` -/
def randomNWidthNumber (ctx : LoweringContext) (n minVal : ℕ) : ℤ × LoweringContext :=
  let (number, rng) := ctx.rng.randomInRange (2 ^ minVal - 1) (2 ^ n)
  (number.getD 0, { ctx with rng })

/-- A page of a random size is allocated for an access that has no memory. -/
def newPage (ctx : LoweringContext) : String × LoweringContext :=
  let (_, ctx) := ctx.randomNWidthNumber 32 13
  let (id, ids) := ctx.ids.newId .memory
  (id, { ctx with ids, pages := id :: ctx.pages })

end LoweringContext

/-! ### Actions without code -/

/-- `None`, an integer, a string (the id of a step or a name), or a register of the architecture. -/
inductive Operand where
  | none
  | int (value : ℤ)
  | str (value : String)
  | register (name : String)
  deriving DecidableEq, Repr

structure LoadAction where
  stepId : String
  offset : ℤ
  memory : Option String
  rs1 : Option String
  op : Option String
  expanded : Bool
  deriving DecidableEq, Repr

structure StoreAction where
  stepId : String
  offset : ℤ
  memory : Option String
  value : Operand
  op : Option String
  expanded : Bool
  deriving DecidableEq, Repr

structure MemAccessAction where
  stepId : String
  offset : ℤ
  memory : Option String
  rs1 : Option String
  rs2 : Operand
  op : Option String
  hasImmediate : Bool
  expanded : Bool
  deriving DecidableEq, Repr

/-- `HLoadAction`, `HXLoadAction` and `HStoreAction`, which expand alike; only the last one has a `value`. -/
structure HypervisorAction where
  stepId : String
  memory : Option String
  rs1 : Option String
  value : Option String
  op : Option String
  expanded : Bool
  deriving DecidableEq, Repr

structure ArithmeticAction where
  stepId : String
  op : Option String
  src1 : Option String
  src2 : Option String
  imm : Option ℤ
  deriving DecidableEq, Repr

structure CsrReadAction where
  stepId : String
  csrName : CsrName
  directRead : Bool
  expanded : Bool
  deriving DecidableEq, Repr

structure CsrWriteAction where
  stepId : String
  csrName : CsrName
  writeValue : Option ℤ
  src : Option String
  expanded : Bool
  deriving DecidableEq, Repr

structure CsrDirectAccessAction where
  stepId : String
  op : String
  csrName : Option CsrName
  srcValue : Option ℤ
  src : Option String
  expanded : Bool
  deriving DecidableEq, Repr

structure WriteTriggerCsrAction where
  stepId : String
  csrName : CsrName
  writeValue : Option ℤ
  src : Option String
  expanded : Bool
  deriving DecidableEq, Repr

/-- The actions without code; the last eight are only made by `expand`. -/
inductive Leaf where
  | load (action : LoadAction)
  | store (action : StoreAction)
  | memAccess (action : MemAccessAction)
  | hypervisor (action : HypervisorAction)
  | arithmetic (action : ArithmeticAction)
  | mvT2 (action : ArithmeticAction)
  | csrRead (action : CsrReadAction)
  | csrWrite (action : CsrWriteAction)
  | csrDirectAccess (action : CsrDirectAccessAction)
  | li (stepId : String) (value : Operand)
  | liT2 (stepId : String) (value : Operand)
  | call (stepId target : String) (rs1 : Option String) (expanded : Bool)
  | assertEqual (stepId val1 val2 : String) (passLabel : Option String) (expanded : Bool)
  | assertFetchException (stepId target : String) (excpReturnLabel : Option String) (expanded : Bool)
  | writePte (stepId memory : String) (src : Option String) (expanded : Bool)
  | selectTrigger (stepId : String) (index : ℤ) (expanded : Bool)
  | writeTriggerCsr (action : WriteTriggerCsrAction)
  | directive (stepId directive : String)
  | labelTestStep (stepId name : String)
  /-- A class that does not define `expand`. -/
  | other (cls stepId : String)
  | label (stepId name : String) (instructionPointer : Bool)
  | csrApiRead (stepId : String) (csrName : CsrName) (directRead : Bool)
  | mvFromT2 (stepId src1 : String)
  | sd (stepId rs1 rs2 : String)
  | fetchJalr (stepId rs1 : String)
  | jumpToFail (stepId : String) (loadFailedAddr : Option String) (expanded : Bool)
  | assertExceptionMarker (stepId : String) (markerType : MarkerType)
  | privilegeBlockMarker (stepId : String) (blockIndex : ℤ) (mode : Mode) (markerType : MarkerType)
  | ret (stepId : String)
  deriving DecidableEq, Repr

def Leaf.stepId : Leaf → String
  | load action => action.stepId
  | store action => action.stepId
  | memAccess action => action.stepId
  | hypervisor action => action.stepId
  | arithmetic action | mvT2 action => action.stepId
  | csrRead action => action.stepId
  | csrWrite action => action.stepId
  | csrDirectAccess action => action.stepId
  | writeTriggerCsr action => action.stepId
  | li stepId _ | liT2 stepId _ | call stepId _ _ _ | assertEqual stepId _ _ _ _ | assertFetchException stepId _ _ _
  | writePte stepId _ _ _ | selectTrigger stepId _ _ | directive stepId _ | labelTestStep stepId _ | other _ stepId
  | label stepId _ _ | csrApiRead stepId _ _ | mvFromT2 stepId _ | sd stepId _ _ | fetchJalr stepId _
  | jumpToFail stepId _ _ | assertExceptionMarker stepId _ | privilegeBlockMarker stepId _ _ _ | ret stepId => stepId

/-! ### Access through the CSR API -/

def privModes : List String := ["m", "s", "vs", "u"]

/-- `ctx_priv_mode` -/
def Environment.ctxPrivMode (env : Environment) : ℕ :=
  match env.priv with
  | .machine => 0
  | .supervisor => if env.virtualized then 2 else 1
  | .user => 3

/-- `which_priv_mode`, user mode for a letter that is not a mode. -/
def whichPrivMode (csrPrivMode : String) : ℕ :=
  if privModes.contains csrPrivMode then privModes.idxOf csrPrivMode else 2

/-- A letter of the name, as `csr_name[0]`. -/
def letter (name : CsrName) (index : ℕ) : String := String.singleton (name.1.toList.getD index ' ')

/-- `api_access` of a read. -/
def readApiAccess (env : Environment) (name : CsrName) : Bool :=
  let csrPrivMode := if letter name 0 = "h" then "s" else if letter name 0 = "v" then "vs" else letter name 0
  !decide (env.ctxPrivMode ≤ whichPrivMode csrPrivMode)

/-- `api_access` of the expansion of a write: a virtualized test takes the mode of a `v` CSR from its second letter. -/
def writeApiAccess (env : Environment) (name : CsrName) : Bool :=
  let csrPrivMode :=
    if letter name 0 = "h" then "s"
    else if letter name 0 = "v" then (if env.virtualized then letter name 1 else "vs")
    else letter name 0
  !decide (env.ctxPrivMode ≤ whichPrivMode csrPrivMode)

/-! ### Expanding actions without code -/

/-- `new_actions` before the action itself, which is kept when there are none. -/
def prepended (newActions : List Leaf) (self : Leaf) : Outcome Leaf :=
  if newActions = [] then .keep self else .replace (newActions ++ [self])

/-- The address of a page is loaded; any other operand is a register already. -/
def loadLabel (label : String) (base : Option String) (ctx : LoweringContext) :
    List Leaf × Option String × LoweringContext :=
  if ctx.isMemoryLabel label then
    let (id, ctx) := ctx.newValueId
    ([.li id (.str label)], some id, ctx)
  else ([], base, ctx)

/-- An offset that the instruction cannot hold is added to the base. -/
def addOffset (offset : ℤ) (fits : Bool) (base : Option String) (ctx : LoweringContext) :
    List Leaf × Option String × ℤ × LoweringContext :=
  if fits then ([], base, offset, ctx)
  else
    let (li, ctx) := ctx.newValueId
    let (add, ctx) := ctx.newValueId
    ([.li li (.int offset), .arithmetic ⟨add, some "add", base, some li, none⟩], some add, 0, ctx)

/-- An integer is loaded. -/
def loadValue (value : Operand) (ctx : LoweringContext) : List Leaf × Operand × LoweringContext :=
  match value with
  | .int _ =>
      let (id, ctx) := ctx.newValueId
      ([.li id value], .str id, ctx)
  | _ => ([], value, ctx)

def fitsOffset (offset : ℤ) : Bool := decide (-2048 ≤ offset ∧ offset ≤ 2047)

def LoadAction.expand (action : LoadAction) (ctx : LoweringContext) : Outcome Leaf × LoweringContext :=
  if action.expanded then (.keep (.load action), ctx)
  else
    match action.memory with
    | none =>
        let (page, ctx) := ctx.newPage
        let (li, ctx) := ctx.newValueId
        (.replace [.li li (.str page)], ctx)
    | some memory =>
        let (loads, rs1, ctx) := loadLabel memory action.rs1 ctx
        let (adds, rs1, offset, ctx) := addOffset action.offset (fitsOffset action.offset) rs1 ctx
        (prepended (loads ++ adds) (.load { action with offset, rs1, expanded := true }), ctx)

def StoreAction.expand (action : StoreAction) (ctx : LoweringContext) : Outcome Leaf × LoweringContext :=
  if action.expanded then (.keep (.store action), ctx)
  else
    match action.memory with
    | none =>
        let (page, ctx) := ctx.newPage
        let (li, ctx) := ctx.newValueId
        (.replace [.li li (.str page)], ctx)
    | some label =>
        let (loads, memory, ctx) := loadLabel label (some label) ctx
        let (adds, memory, offset, ctx) := addOffset action.offset (fitsOffset action.offset) memory ctx
        let (values, value, ctx) := loadValue action.value ctx
        (prepended (loads ++ adds ++ values) (.store { action with offset, memory, value, expanded := true }), ctx)

def MemAccessAction.expand (action : MemAccessAction) (ctx : LoweringContext) : Outcome Leaf × LoweringContext :=
  if action.expanded then (.keep (.memAccess action), ctx)
  else
    match action.memory with
    | none =>
        let (page, ctx) := ctx.newPage
        let (li, ctx) := ctx.newValueId
        (.replace [.li li (.str page)], ctx)
    | some memory =>
        let (loads, rs1, ctx) := loadLabel memory action.rs1 ctx
        let (adds, rs1, offset, ctx) :=
          addOffset action.offset (fitsOffset action.offset && action.hasImmediate) rs1 ctx
        let (values, rs2, ctx) :=
          if action.rs2 = .int 0 then ([], .register "zero", ctx) else loadValue action.rs2 ctx
        (prepended (loads ++ adds ++ values) (.memAccess { action with offset, rs1, rs2, expanded := true }), ctx)

def HypervisorAction.expand (action : HypervisorAction) (ctx : LoweringContext) : Outcome Leaf × LoweringContext :=
  if action.expanded then (.keep (.hypervisor action), ctx)
  else
    match action.memory with
    | none =>
        let (page, ctx) := ctx.newPage
        let (li, ctx) := ctx.newValueId
        (.replace [.li li (.str page),
          .hypervisor { action with memory := some page, rs1 := some li, expanded := true }], ctx)
    | some memory =>
        let (loads, rs1, ctx) := loadLabel memory action.rs1 ctx
        (prepended loads (.hypervisor { action with rs1, expanded := true }), ctx)

/-- A source of an arithmetic action. -/
def loadSource (src : Option String) (ctx : LoweringContext) : List Leaf × Option String × LoweringContext :=
  match src with
  | none => ([], none, ctx)
  | some label => loadLabel label src ctx

/-- The expansion of an arithmetic action, and of its subclass `MvT2Action`, is not guarded. -/
def ArithmeticAction.expand (wrap : ArithmeticAction → Leaf) (action : ArithmeticAction) (ctx : LoweringContext) :
    Outcome Leaf × LoweringContext :=
  let (loads1, src1, ctx) := loadSource action.src1 ctx
  let (loads2, src2, ctx) := loadSource action.src2 ctx
  (prepended (loads1 ++ loads2) (wrap { action with src1, src2 }), ctx)

def CsrReadAction.expand (env : Environment) (action : CsrReadAction) (ctx : LoweringContext) :
    Outcome Leaf × LoweringContext :=
  if action.expanded then (.keep (.csrRead action), ctx)
  else if !readApiAccess env action.csrName then (.keep (.csrRead { action with expanded := true }), ctx)
  else
    let (apiId, ctx) := ctx.newValueId
    (.replace [.csrApiRead apiId action.csrName action.directRead, .mvFromT2 action.stepId apiId], ctx)

def CsrWriteAction.expand (env : Environment) (action : CsrWriteAction) (ctx : LoweringContext) :
    Outcome Leaf × LoweringContext :=
  let apiAccess := writeApiAccess env action.csrName
  if action.expanded then (.keep (.csrWrite action), ctx)
  else
    match action.src with
    | some src =>
        if !apiAccess then (.replace [.csrWrite { action with expanded := true }], ctx)
        else
          let (t2, ctx) := ctx.newValueId
          (.replace [.mvT2 ⟨t2, none, some src, none, none⟩,
            .csrWrite { action with src := some t2, expanded := true }], ctx)
    | none =>
        let (value, ctx) := match action.writeValue with
          | some value => (value, ctx)
          | none => ctx.randomNWidthNumber 32 2
        if 32 ≤ value ∨ apiAccess then
          let (li, ctx) := ctx.newValueId
          (.replace [if apiAccess then .liT2 li (.int value) else .li li (.int value),
            .csrWrite { action with writeValue := some value, src := some li, expanded := true }], ctx)
        else (.replace [.csrWrite { action with writeValue := some value, expanded := true }], ctx)

/-- `_is_immediate_op` -/
def CsrDirectAccessAction.isImmediateOp (action : CsrDirectAccessAction) : Bool :=
  ["csrrwi", "csrrsi", "csrrci"].contains action.op

def CsrDirectAccessAction.isReadOnlyOp (action : CsrDirectAccessAction) : Bool :=
  ["csrrs", "csrrc", "csrrsi", "csrrci"].contains action.op && (action.src.isNone || action.src = some "zero") &&
    (action.srcValue = some 0 || action.srcValue.isNone)

def CsrDirectAccessAction.expand (env : Environment) (action : CsrDirectAccessAction) (ctx : LoweringContext) :
    Outcome Leaf × LoweringContext :=
  if action.expanded then (.keep (.csrDirectAccess action), ctx)
  else
    let (csrName, ctx) := match action.csrName with
      | some csrName => (csrName, ctx)
      | none =>
          let (csrName, rng) := env.randomizeCsr action.op action.isReadOnlyOp ctx.rng
          (csrName, { ctx with rng })
    match action.srcValue, action.isImmediateOp with
    | some value, false =>
        let (li, ctx) := ctx.newValueId
        (.replace [.li li (.int value), .csrDirectAccess
          { action with csrName := some csrName, src := some li, srcValue := none, expanded := true }], ctx)
    | _, _ => (.replace [.csrDirectAccess { action with csrName := some csrName, expanded := true }], ctx)

def WriteTriggerCsrAction.expand (action : WriteTriggerCsrAction) (ctx : LoweringContext) :
    Outcome Leaf × LoweringContext :=
  if action.expanded then (.keep (.writeTriggerCsr action), ctx)
  else
    match action.src with
    | some _ => (.replace [.writeTriggerCsr { action with expanded := true }], ctx)
    | none =>
        let value := action.writeValue.getD 0
        let (li, ctx) := ctx.newValueId
        (.replace [.liT2 li (.int value),
          .writeTriggerCsr { action with writeValue := some value, src := some li, expanded := true }], ctx)

def Leaf.expand (env : Environment) (ctx : LoweringContext) : Leaf → Outcome Leaf × LoweringContext
  | load action => action.expand ctx
  | store action => action.expand ctx
  | memAccess action => action.expand ctx
  | hypervisor action => action.expand ctx
  | arithmetic action => action.expand .arithmetic ctx
  | mvT2 action => action.expand .mvT2 ctx
  | csrRead action => action.expand env ctx
  | csrWrite action => action.expand env ctx
  | csrDirectAccess action => action.expand env ctx
  | writeTriggerCsr action => action.expand ctx
  | call stepId target _ false =>
      if ctx.isMemoryLabel target then
        let (liId, ctx) := ctx.newValueId
        (.replace [.li liId (.str target), .call stepId target (some liId) true], ctx)
      else (.replace [.call stepId target (some target) true], ctx)
  | assertEqual stepId val1 val2 _ false =>
      let (passLabel, ctx) := ctx.uniqueLabel "pass_label"
      let (labelId, ctx) := ctx.newLabel
      let (jumpToFailId, ctx) := ctx.newValueId
      (.replace [.assertEqual stepId val1 val2 (some passLabel) true, .jumpToFail jumpToFailId none false,
        .label labelId passLabel false], ctx)
  | assertFetchException stepId target _ false =>
      let (excpReturnLabel, ctx) := ctx.uniqueLabel "fetch_excp_return_label"
      let (liExpectedPc, ctx) := ctx.newValueId
      let (loads, targetReg, ctx) := loadLabel target (some target) ctx
      let (sdId, ctx) := ctx.newValueId
      let (callId, ctx) := ctx.newValueId
      let (jumpToFailId, ctx) := ctx.newValueId
      let (labelId, ctx) := ctx.newLabel
      (.replace ([.assertFetchException stepId target (some excpReturnLabel) true] ++ loads ++
        [.li liExpectedPc (.str "check_excp_expected_pc"), .sd sdId liExpectedPc (targetReg.getD target),
          .fetchJalr callId (targetReg.getD target), .jumpToFail jumpToFailId none false,
          .label labelId excpReturnLabel false]), ctx)
  | writePte stepId memory src false =>
      let (t2, ctx) := ctx.newValueId
      (.replace [.mvT2 ⟨t2, none, src, none, none⟩, .writePte stepId memory (some t2) true], ctx)
  | selectTrigger stepId index false =>
      let (liId, ctx) := ctx.newValueId
      (.replace [.liT2 liId (.int index), .selectTrigger stepId index true], ctx)
  | jumpToFail stepId _ false =>
      let (liId, ctx) := ctx.newValueId
      let (loadId, ctx) := ctx.newValueId
      let op := if env.regWidth = 64 then "ld" else "lw"
      (.replace [.li liId (.str "failed_addr"), .load ⟨loadId, 0, some liId, some liId, some op, false⟩,
        .jumpToFail stepId (some loadId) true], ctx)
  | leaf => (.keep leaf, ctx)

/-! ### Actions with code -/

/-- `AssertExceptionAction` without its code. -/
structure AssertExceptionAction where
  stepId : String
  reExecute : Bool
  faultLabel : Option String
  excpReturnLabel : Option String
  expanded : Bool
  deriving DecidableEq, Repr

structure PrivilegeCodeAction where
  stepId : String
  mode : Mode
  blockIndex : ℤ
  expanded : Bool
  deriving DecidableEq, Repr

/-- `ConditionalBlockAction`; the flag of its `features` always has `Extension.I`. -/
structure ConditionalBlockAction where
  stepId : String
  features : List String
  requestedMem : Option String
  expanded : Bool
  deriving DecidableEq, Repr

inductive Action where
  | leaf (leaf : Leaf)
  | privilegeCode (action : PrivilegeCodeAction) (code : List Action)
  | conditionalBlock (action : ConditionalBlockAction) (code : List Action)
  | codePage (stepId : String) (expanded : Bool) (code : List Action)
  | assertException (action : AssertExceptionAction) (code : List Action)

namespace Action

def stepId : Action → String
  | leaf inner => inner.stepId
  | privilegeCode action _ => action.stepId
  | conditionalBlock action _ => action.stepId
  | codePage stepId _ _ => stepId
  | assertException action _ => action.stepId

def isLabelTestStep : Action → Bool
  | leaf (.labelTestStep ..) => true
  | _ => false

/-- The name of a leading user label. -/
def labelName : Action → Option String
  | leaf (.labelTestStep _ name) => some name
  | _ => none

/-- `fault_expansion_index` in an expansion of a length. -/
def faultPos (action : Action) (length : ℕ) : ℕ :=
  match action with
  | leaf (.csrRead _) => 0
  | _ => length - 1

end Action

inductive ExpandFault where
  /-- "AssertException requires at least one code step" -/
  | noCodeStep
  /-- "AssertException.code's last item must be the faulting code step, not a Label." -/
  | lastIsLabel
  /-- "AssertException.code may contain at most one leading Label." -/
  | secondLabel
  /-- "ConditionalBlock must have either features or requested_mem" -/
  | noCondition
  deriving DecidableEq, Repr

/-- The condition of a conditional block. -/
def ConditionalBlockAction.holds (env : Environment) (action : ConditionalBlockAction) : Except ExpandFault Bool :=
  if "I" :: action.features ≠ [] then .ok (env.supportsExtensions ("I" :: action.features))
  else
    match action.requestedMem with
    | some memory => .ok (env.requestSuccessful memory)
    | none => .error .noCondition

/-- The user's label at the start of the code of an assertion. -/
def userLabel (code : List Action) : Option String :=
  if 2 ≤ code.length then code.head?.bind Action.labelName else none

/-- The checks of the code of an assertion. -/
def checkCode (code : List Action) : Except ExpandFault Unit :=
  match code.getLast? with
  | none => .error .noCodeStep
  | some last =>
      if last.isLabelTestStep then .error .lastIsLabel
      else if (code.drop (if (userLabel code).isSome then 1 else 0)).dropLast.any Action.isLabelTestStep then
        .error .secondLabel
      else .ok ()

/-- The label that the assertion expects the fault at: the user's, or a new one with its own action. -/
def LoweringContext.faultLabel (ctx : LoweringContext) (user : Option String) :
    String × List Leaf × LoweringContext :=
  match user with
  | some name => (name, [], ctx)
  | none =>
      let (faultLabel, ctx) := ctx.uniqueLabel "fault_label"
      let (labelId, ctx) := ctx.newLabel
      (faultLabel, [.label labelId faultLabel true], ctx)

/-- The jump over the failure when the faulting instruction is executed again. -/
def LoweringContext.skipToReturn (ctx : LoweringContext) (reExecute : Bool) (excpReturnLabel : String) :
    List Leaf × LoweringContext :=
  if reExecute then
    let (directiveId, ctx) := ctx.newValueId
    ([.directive directiveId ("j " ++ excpReturnLabel)], ctx)
  else ([], ctx)

/-- The label before the action that faults. -/
def placeLabel (last : Action) (label : List Action) (lastExpansion : List Action) : List Action :=
  lastExpansion.take (last.faultPos lastExpansion.length) ++ label ++
    lastExpansion.drop (last.faultPos lastExpansion.length)

def ofLeaves : Outcome Leaf → Outcome Action
  | .keep leaf => .keep (.leaf leaf)
  | .replace leaves => .replace (leaves.map .leaf)

mutual
/-- `expand` -/
def Action.expand (env : Environment) : Action → LoweringContext → Except ExpandFault (Outcome Action × LoweringContext)
  | .leaf leaf, ctx =>
      let (outcome, ctx) := leaf.expand env ctx
      .ok (ofLeaves outcome, ctx)
  | .privilegeCode action code, ctx =>
      if action.expanded then .ok (.keep (.privilegeCode action code), ctx)
      else do
        let (expandedCode, ctx) ← expandEach env code ctx
        let (startId, ctx) := ctx.newValueId
        let (endId, ctx) := ctx.newValueId
        pure (.replace (.privilegeCode { action with expanded := true } code ::
          .leaf (.privilegeBlockMarker startId action.blockIndex action.mode .start) :: expandedCode.flatten ++
            [.leaf (.privilegeBlockMarker endId action.blockIndex action.mode .finish)]), ctx)
  | .conditionalBlock action code, ctx =>
      if action.expanded then .ok (.keep (.conditionalBlock action code), ctx)
      else do
        let holds ← action.holds env
        pure (.replace (if holds then code else []), ctx)
  | .codePage stepId expanded code, ctx =>
      if expanded then .ok (.keep (.codePage stepId expanded code), ctx)
      else
        let (returnId, ctx) := ctx.newValueId
        .ok (.replace (code ++ [.leaf (.ret returnId)]), ctx)
  | .assertException action code, ctx =>
      if action.expanded then .ok (.keep (.assertException action code), ctx)
      else do
        checkCode code
        let (faultLabel, syntheticLabel, ctx) := ctx.faultLabel (userLabel code)
        let (excpReturnLabel, ctx) := ctx.uniqueLabel "excp_return_label"
        let (returnLabelId, ctx) := ctx.newLabel
        let (jumpToFailId, ctx) := ctx.newValueId
        let (expansions, ctx) ← expandEach env code ctx
        let expandedCode := expansions.dropLast.flatten ++
          placeLabel (code.getLast?.getD (.leaf (.other "" ""))) (syntheticLabel.map .leaf) (expansions.getLast?.getD [])
        let (skip, ctx) := ctx.skipToReturn action.reExecute excpReturnLabel
        let (startId, ctx) := ctx.newValueId
        let (endId, ctx) := ctx.newValueId
        pure (.replace (.assertException
            { action with faultLabel := some faultLabel, excpReturnLabel := some excpReturnLabel, expanded := true } [] ::
          .leaf (.assertExceptionMarker startId .start) :: expandedCode ++ skip.map .leaf ++
            [.leaf (.jumpToFail jumpToFailId none false), .leaf (.assertExceptionMarker endId .finish),
              .leaf (.label returnLabelId excpReturnLabel false)]), ctx)

/-- The expansions of the actions of a container, an action that is kept as itself. -/
def expandEach (env : Environment) : List Action → LoweringContext →
    Except ExpandFault (List (List Action) × LoweringContext)
  | [], ctx => .ok ([], ctx)
  | action :: rest, ctx => do
      let (outcome, ctx) ← action.expand env ctx
      let (others, ctx) ← expandEach env rest ctx
      pure (outcome.items :: others, ctx)
end

/-- `Expander._recursive_expand` to a depth of the recursion. -/
def recursiveExpand (env : Environment) : ℕ → List Action → LoweringContext →
    Except (Stop ExpandFault) (List Action × LoweringContext) :=
  Expansion.expand (Action.expand env)

end Riescue.Expander
