import Riescue.Actions
import Mathlib.Data.List.Nodup

/-! What expansion must keep: the actions that emit an instruction of their own, in their order, and the definition of
every id it makes before the id is used. -/

namespace Riescue.Expander
open TestPlan Expansion
open PrivilegeBlocks (Mode MarkerType)

/-! ### Operands and emitted instructions -/

def Operand.names : Operand → List String
  | .str value => [value]
  | _ => []

/-- The names of the values that the instruction of an action reads, or the jump to its target. -/
def Leaf.operands : Leaf → List String
  | load action => action.rs1.toList
  | store action => action.memory.toList ++ action.value.names
  | memAccess action => action.rs1.toList ++ action.rs2.names
  | hypervisor action => action.rs1.toList ++ action.value.toList
  | arithmetic action | mvT2 action => action.src1.toList ++ action.src2.toList
  | csrWrite action => action.src.toList
  | csrDirectAccess action => action.src.toList
  | writeTriggerCsr action => action.src.toList
  | call _ target rs1 expanded => if expanded then rs1.toList else [target]
  | assertEqual _ val1 val2 _ _ => [val1, val2]
  | assertFetchException _ target _ _ => [target]
  | writePte _ _ src _ => src.toList
  | mvFromT2 _ src1 => [src1]
  | sd _ rs1 rs2 => [rs1, rs2]
  | fetchJalr _ rs1 => [rs1]
  | jumpToFail _ loadFailedAddr _ => loadFailedAddr.toList
  | csrRead _ | li .. | liT2 .. | selectTrigger .. | directive .. | labelTestStep .. | other ..
  | label .. | csrApiRead .. | assertExceptionMarker .. | privilegeBlockMarker .. | ret _ => []

def Action.operands : Action → List String
  | leaf inner => inner.operands
  | _ => []

/-- Whether a conditional block is expanded to its code. -/
def ConditionalBlockAction.active (env : Environment) (action : ConditionalBlockAction) : Bool :=
  env.supportsExtensions ("I" :: action.features)

@[simp] theorem ConditionalBlockAction.holds_eq (env : Environment) (action : ConditionalBlockAction) :
    action.holds env = .ok (action.active env) := if_pos (List.cons_ne_nil _ _)

mutual
/-- The actions that emit an instruction of their own, from left to right. -/
def Action.emitters (env : Environment) : Action → List Action
  | .leaf inner => [.leaf inner]
  | .privilegeCode action code =>
      .privilegeCode action code :: if action.expanded then [] else emitters env code
  | .conditionalBlock action code =>
      if action.expanded then [.conditionalBlock action code] else if action.active env then emitters env code else []
  | .codePage stepId expanded code => if expanded then [.codePage stepId expanded code] else emitters env code
  | .assertException action code =>
      .assertException action code :: if action.expanded then [] else emitters env code

def emitters (env : Environment) : List Action → List Action
  | [] => []
  | action :: rest => action.emitters env ++ emitters env rest
end

/-- An id of a value that the tracker has not given out yet. -/
def CreatedValue (tracker : IdTracker) (id : String) : Prop := ∃ n, tracker.valueCount ≤ n ∧ id = IdKind.value.id n

/-- Expansion has lost no action. -/
structure LosesNoAction (env : Environment) (tracker : IdTracker) (actions result : List Action) : Prop where
  inOrder : (result.map Action.stepId).filter (fun id => ((emitters env actions).map Action.stepId).contains id) =
    (emitters env actions).map Action.stepId
  once : ∀ action ∈ emitters env actions, (result.map Action.stepId).count action.stepId = 1
  defined : ∀ before action after, result = before ++ action :: after → ∀ id ∈ action.operands,
    CreatedValue tracker id → id ∈ before.map Action.stepId

mutual
/-- All actions with those in their code. -/
def Action.all : Action → List Action
  | .leaf inner => [.leaf inner]
  | .privilegeCode action code => .privilegeCode action code :: allActions code
  | .conditionalBlock action code => .conditionalBlock action code :: allActions code
  | .codePage stepId expanded code => .codePage stepId expanded code :: allActions code
  | .assertException action code => .assertException action code :: allActions code

def allActions : List Action → List Action
  | [] => []
  | action :: rest => action.all ++ allActions rest
end

/-- What canonicalization leaves: the ids are different ones of the tracker, no operand names an id of a later value,
and pages have names of their own. -/
structure Canonicalized (ctx : LoweringContext) (actions : List Action) : Prop where
  spent : ∀ action ∈ allActions actions, ctx.ids.Spent action.stepId
  distinct : ((allActions actions).map Action.stepId).Nodup
  operands : ∀ action ∈ allActions actions, ∀ id ∈ action.operands, ¬CreatedValue ctx.ids id
  pages : ∀ page ∈ ctx.pages, ∀ n, page ≠ IdKind.value.id n

/-! ### When no action is lost -/

/-- A load, a store or a memory access without a memory operand, which its own expansion leaves out. -/
def Leaf.dropped : Leaf → Bool
  | load action => !action.expanded && action.memory.isNone
  | store action => !action.expanded && action.memory.isNone
  | memAccess action => !action.expanded && action.memory.isNone
  | _ => false

def Action.dropped : Action → Bool
  | leaf inner => inner.dropped
  | _ => false

mutual
/-- The exception assertions that are expanded pass the checks of their code. -/
def Action.Shaped (env : Environment) : Action → Prop
  | .leaf _ => True
  | .privilegeCode action code => action.expanded = false → Shaped env code
  | .conditionalBlock action code => action.expanded = false → action.active env = true → Shaped env code
  | .codePage _ expanded code => expanded = false → Shaped env code
  | .assertException action code => action.expanded = false → checkCode code = .ok () ∧ Shaped env code

def Shaped (env : Environment) : List Action → Prop
  | [] => True
  | action :: rest => action.Shaped env ∧ Shaped env rest
end

end Riescue.Expander
