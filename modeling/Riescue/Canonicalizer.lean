import Riescue.LibOrderedDict
import Riescue.TestPlanIds
import Mathlib.Data.Int.Notation

/-! The canonicalizer, `transformer/canonicalizer.py`: the ids of all actions of all tests are replaced by new ones,
memory and code pages are registered and leave the action lists. An action renames the attributes that its class
names in `register_fields`. -/

namespace Riescue.Canonicalizer
open TestPlan OrderedDict

/-- A value of an attribute: `None`, a number, a string, or a tuple of a string and an offset. -/
inductive AttrValue where
  | none
  | int (value : ℤ)
  | str (value : String)
  | tuple (value : String) (offset : ℤ)
  deriving DecidableEq, Repr

/-- The attributes of an action that its constructor sets. -/
abbrev Attrs := List (String × AttrValue)

/-- The classes of `DEFAULT_MAPPINGS` without a `code` attribute. -/
inductive ActionClass where
  | load | store | hload | hxload | hstore | arithmetic | memory | csrRead | csrWrite | csrDirectAccess | readPte
  | writePte | call | assertEqual | assertNotEqual | assertFetchException | li | memAccess | modifyPte | system
  | comment | directive | requestPmp | setWaitTimeout | labelTestStep | configureExecuteTrigger
  | configureLoadTrigger | configureStoreTrigger | configureLoadStoreTrigger | configureIcountTrigger
  | configureItrigger | configureEtrigger | enableTrigger | disableTrigger | selectTrigger | writeTriggerCsr
  | readTriggerCsr
  deriving DecidableEq, Repr

/-- The modes of the privilege blocks. -/
inductive PrivilegeMode where
  | machine | supervisor | user
  deriving DecidableEq, Repr

/-- The classes with a `code` attribute; only `AssertExceptionAction` is no `CodeMixin`. -/
inductive CodeClass where
  | codePage
  | conditionalBlock
  | privilegeCode (mode : PrivilegeMode) (blockIndex : ℤ)
  | assertException
  deriving DecidableEq, Repr

inductive Action where
  | plain (cls : ActionClass) (stepId : String) (attrs : Attrs)
  | block (cls : CodeClass) (stepId : String) (attrs : Attrs) (code : List Action)

/-- `register_fields` -/
def ActionClass.registerFields : ActionClass → List String
  | load | hload | hxload => ["memory", "rs1"]
  | store => ["value", "memory"]
  | hstore => ["value", "memory", "rs1"]
  | arithmetic => ["src1", "src2"]
  | csrWrite | csrDirectAccess | writeTriggerCsr => ["src"]
  | readPte => ["memory", "level"]
  | writePte => ["memory", "level", "src"]
  | call => ["target"]
  | assertEqual | assertNotEqual => ["val1", "val2"]
  | assertFetchException => ["target", "tval", "htval"]
  | li => ["value"]
  | memAccess => ["memory", "rs1"]
  | modifyPte => ["memory"]
  | memory | csrRead | system | comment | directive | requestPmp | setWaitTimeout | labelTestStep
  | configureExecuteTrigger | configureLoadTrigger | configureStoreTrigger | configureLoadStoreTrigger
  | configureIcountTrigger | configureItrigger | configureEtrigger | enableTrigger | disableTrigger | selectTrigger
  | readTriggerCsr => []

def CodeClass.registerFields : CodeClass → List String
  | conditionalBlock => ["memory"]
  | assertException => ["tval", "htval"]
  | codePage | privilegeCode _ _ => []

/-- The attributes that the constructors and `expand` take for steps of the test. -/
def ActionClass.operandFields : ActionClass → List String
  | load | hload | hxload => ["memory", "rs1"]
  | store => ["value", "memory"]
  | hstore => ["value", "memory", "rs1"]
  | arithmetic => ["src1", "src2"]
  | csrWrite | csrDirectAccess | writeTriggerCsr => ["src"]
  | readPte => ["memory"]
  | writePte => ["memory", "src"]
  | call => ["target"]
  | assertEqual | assertNotEqual => ["val1", "val2"]
  | assertFetchException => ["target", "tval", "htval"]
  | li => ["value"]
  | memAccess => ["memory", "rs1", "rs2"]
  | modifyPte => ["memory"]
  | memory | csrRead | system | comment | directive | requestPmp | setWaitTimeout | labelTestStep
  | configureExecuteTrigger | configureLoadTrigger | configureStoreTrigger | configureLoadStoreTrigger
  | configureIcountTrigger | configureItrigger | configureEtrigger | enableTrigger | disableTrigger | selectTrigger
  | readTriggerCsr => []

def CodeClass.operandFields : CodeClass → List String
  | conditionalBlock => ["requested_mem"]
  | assertException => ["tval", "htval"]
  | codePage | privilegeCode _ _ => []

namespace Action

def stepId : Action → String
  | plain _ stepId _ | block _ stepId _ _ => stepId

def attrs : Action → Attrs
  | plain _ _ attrs | block _ _ attrs _ => attrs

def registerFields : Action → List String
  | plain cls _ _ => cls.registerFields
  | block cls _ _ _ => cls.registerFields

def operandFields : Action → List String
  | plain cls _ _ => cls.operandFields
  | block cls _ _ _ => cls.operandFields

/-- `getattr(action, "code", None)`; the loops take no code for an empty one. -/
def code : Action → List Action
  | plain _ _ _ => []
  | block _ _ _ code => code

/-- `isinstance(action, MemoryAction)`: data, a request or a code page. -/
def isMemory : Action → Bool
  | plain .memory _ _ | plain .requestPmp _ _ | block .codePage _ _ _ => true
  | _ => false

def isCodePage : Action → Bool
  | block .codePage _ _ _ => true
  | _ => false

/-- The mode and the block index of a `PrivilegeCodeAction`. -/
def privilegeBlock : Action → Option (PrivilegeMode × ℤ)
  | block (.privilegeCode mode blockIndex) _ _ _ => some (mode, blockIndex)
  | _ => none

/-- What kind of id the canonicalizer gives it. -/
def idKind : Action → IdKind
  | block .codePage _ _ _ => .codeMemory
  | plain .memory _ _ | plain .requestPmp _ _ => .memory
  | _ => .value

end Action

/-! ### Renaming -/

/-- One field of `rename_ids`. -/
def renameField (idMap : List (String × String)) (attrs : Attrs) (field : String) : Attrs :=
  match get? attrs field with
  | some (.str value) =>
      match get? idMap value with
      | some newId => insert attrs field (.str newId)
      | none => attrs
  | some (.tuple value offset) =>
      match get? idMap value with
      | some newId => insert attrs field (.tuple newId offset)
      | none => attrs
  | _ => attrs

def renameFields (idMap : List (String × String)) (fields : List String) (attrs : Attrs) : Attrs :=
  fields.foldl (renameField idMap) attrs

/-- `id_map[step_id]`: the ids of all actions are in the map when it is asked. -/
def renameId (idMap : List (String × String)) (stepId : String) : String := (get? idMap stepId).getD stepId

mutual
/-- `rename_ids` of the action and of the actions in its code. -/
def Action.renameIds (idMap : List (String × String)) : Action → Action
  | .plain cls stepId attrs => .plain cls (renameId idMap stepId) (renameFields idMap cls.registerFields attrs)
  | .block cls stepId attrs code =>
      .block cls (renameId idMap stepId) (renameFields idMap cls.registerFields attrs) (renameAll idMap code)

def renameAll (idMap : List (String × String)) : List Action → List Action
  | [] => []
  | action :: rest => action.renameIds idMap :: renameAll idMap rest
end

/-! ### The traversals -/

mutual
/-- The part of `_action_generator` for one action: its code first. -/
def Action.generator : Action → List Action
  | .plain cls stepId attrs => [.plain cls stepId attrs]
  | .block cls stepId attrs code => actionGenerator code ++ [.block cls stepId attrs code]

/-- `_action_generator` -/
def actionGenerator : List Action → List Action
  | [] => []
  | action :: rest => action.generator ++ actionGenerator rest
end

mutual
/-- `_pop_memory_actions` for one action. -/
def Action.popMemoryActions : Action → Option Action
  | .plain cls stepId attrs =>
      if cls = .memory ∨ cls = .requestPmp then none else some (.plain cls stepId attrs)
  | .block cls stepId attrs code =>
      if cls = .assertException then some (.block cls stepId attrs code)
      else some (.block cls stepId attrs (popMemoryActions code))

/-- `_pop_memory_actions` -/
def popMemoryActions : List Action → List Action
  | [] => []
  | action :: rest =>
      match action.popMemoryActions with
      | none => popMemoryActions rest
      | some action => action :: popMemoryActions rest
end

/-- `_pop_global_functions` returns the list without its code pages, whose own code it also clears of code pages. -/
def popGlobalFunctions (actions : List Action) : List Action := actions.filter fun action => !action.isCodePage

/-! ### Canonicalization -/

/-- A call of the `MemoryRegistry`. -/
inductive Allocation where
  | code (name : String)
  | data (name : String)
  deriving DecidableEq, Repr

def Allocation.name : Allocation → String
  | code name | data name => name

inductive CanonicalizeFault where
  /-- "Step ID ... was already defined in this DiscreteTest object" -/
  | alreadyDefined (stepId : String)
  deriving DecidableEq, Repr

/-- The dictionaries of the first loop; an action is told from the others by its new id. -/
structure Collected where
  idMap : List (String × String)
  globalFunctions : List String
  memoryActions : List String
  memoryRequestActions : List String
  codeActions : PrivilegeMode → List (ℤ × String)

def Collected.empty : Collected := ⟨[], [], [], [], fun _ => []⟩

/-- What the first loop notes of an action. -/
def Collected.add (collected : Collected) (action : Action) (newId : String) : Collected :=
  let collected := { collected with idMap := insert collected.idMap action.stepId newId }
  match action with
  | .block .codePage _ _ _ => { collected with globalFunctions := collected.globalFunctions ++ [newId] }
  | .block (.privilegeCode mode blockIndex) _ _ _ =>
      { collected with
        codeActions := fun other =>
          if other = mode then insert (collected.codeActions mode) blockIndex newId else collected.codeActions other }
  | .plain .requestPmp _ _ => { collected with memoryRequestActions := collected.memoryRequestActions ++ [newId] }
  | .plain .memory _ _ => { collected with memoryActions := collected.memoryActions ++ [newId] }
  | _ => collected

/-- The first loop of `_canonicalize_test`. -/
def collect : List Action → Collected → IdTracker → Except CanonicalizeFault (Collected × IdTracker)
  | [], collected, tracker => .ok (collected, tracker)
  | action :: rest, collected, tracker =>
      if (get? collected.idMap action.stepId).isSome then .error (.alreadyDefined action.stepId)
      else
        let (newId, tracker) := tracker.newId action.idKind
        collect rest (collected.add action newId) tracker

/-- A canonicalized test. All its action objects, with those that have left its action list, are `objects`. -/
structure Canonical where
  actions : List Action
  objects : List Action
  globalFunctions : List String
  memory : List String
  codeActions : PrivilegeMode → List (ℤ × String)

/-- `_canonicalize_test`, with the calls that it makes to the registry. -/
def canonicalizeTest (actions : List Action) (tracker : IdTracker) :
    Except CanonicalizeFault (Canonical × List Allocation × IdTracker) := do
  let (collected, tracker) ← collect (actionGenerator actions) .empty tracker
  let renamed := renameAll collected.idMap actions
  let allocations :=
    collected.globalFunctions.map .code ++ collected.memoryActions.map .data ++
      collected.memoryRequestActions.map .data
  pure
    ({ actions := popGlobalFunctions (popMemoryActions renamed)
       objects := actionGenerator renamed
       globalFunctions := collected.globalFunctions
       memory := collected.memoryActions
       codeActions := collected.codeActions },
      allocations, tracker)

/-- `dict.update` -/
def update (dict later : List (ℤ × String)) : List (ℤ × String) :=
  later.foldl (fun dict (entry : ℤ × String) => insert dict entry.1 entry.2) dict

/-- The tests, the dictionaries of the privilege code actions and the calls to the registry. -/
structure CanonicalTests where
  tests : List Canonical
  codeActions : PrivilegeMode → List (ℤ × String)
  allocations : List Allocation

/-- `canonicalize` -/
def canonicalize (tests : List (List Action)) (result : CanonicalTests) (tracker : IdTracker) :
    Except CanonicalizeFault (CanonicalTests × IdTracker) :=
  match tests with
  | [] => .ok (result, tracker)
  | test :: rest => do
      let (canonical, allocations, tracker) ← canonicalizeTest test tracker
      canonicalize rest
        { tests := result.tests ++ [canonical]
          codeActions := fun mode => update (result.codeActions mode) (canonical.codeActions mode)
          allocations := result.allocations ++ allocations } tracker

end Riescue.Canonicalizer
