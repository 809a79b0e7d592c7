import Riescue.CanonicalizerRenaming
import Riescue.LibExcept
import Mathlib.Data.List.Perm.Basic

/-! When canonicalization is a consistent renaming. -/

namespace Riescue.Canonicalizer
open TestPlan OrderedDict

/-! ### What the first loop collects -/

namespace Collected

/-- The first loop on actions with their new ids. -/
def addAll (collected : Collected) (pairs : List (Action × String)) : Collected :=
  pairs.foldl (fun collected pair => collected.add pair.1 pair.2) collected

theorem idMap_add (collected : Collected) (action : Action) (newId : String) :
    (collected.add action newId).idMap = insert collected.idMap action.stepId newId := by
  rcases action with ⟨cls, _, _⟩ | ⟨cls, _, _, _⟩ <;> cases cls <;> rfl

end Collected

theorem collect_ok {actions : List Action} {collected : Collected} {tracker : IdTracker}
    (hids : (collected.idMap.map Prod.fst ++ actions.map Action.stepId).Nodup) :
    collect actions collected tracker =
        .ok (collected.addAll (actions.zip (newIds actions tracker)), trackerAfter actions tracker) ∧
      (collected.addAll (actions.zip (newIds actions tracker))).idMap =
        collected.idMap ++ idMapOf tracker actions := by
  induction actions generalizing collected tracker with
  | nil => exact ⟨rfl, (List.append_nil _).symm⟩
  | cons action rest ih =>
      have hnew : action.stepId ∉ collected.idMap.map Prod.fst := by
        intro hmem
        exact (List.disjoint_of_nodup_append hids) hmem (List.mem_cons_self ..)
      have hmap : (collected.add action (tracker.newId action.idKind).1).idMap =
          collected.idMap ++ [(action.stepId, (tracker.newId action.idKind).1)] := by
        rw [Collected.idMap_add, insert_eq_append _ hnew]
      have hrest : ((collected.add action (tracker.newId action.idKind).1).idMap.map Prod.fst ++
          rest.map Action.stepId).Nodup := by
        rw [hmap, List.map_append, List.append_assoc]
        exact hids
      obtain ⟨hcollect, hidMap⟩ := @ih _ (tracker.newId action.idKind).2 hrest
      refine ⟨?_, ?_⟩
      · rw [collect, get?_eq_none hnew]
        exact hcollect
      · rw [hmap, List.append_assoc] at hidMap
        exact hidMap

/-- A test whose actions are collected has distinct ids. -/
theorem nodup_of_collect {actions : List Action} {collected : Collected} {tracker : IdTracker} {out : Collected × IdTracker}
    (hdict : (collected.idMap.map Prod.fst).Nodup) (h : collect actions collected tracker = .ok out) :
    (collected.idMap.map Prod.fst ++ actions.map Action.stepId).Nodup := by
  induction actions generalizing collected tracker with
  | nil => rwa [List.map_nil, List.append_nil]
  | cons action rest ih =>
      rw [collect] at h
      split_ifs at h with hdefined
      have hnew : action.stepId ∉ collected.idMap.map Prod.fst := by
        intro hmem
        obtain ⟨pair, hpair, hkey⟩ := List.mem_map.mp hmem
        exact hdefined (by rw [← hkey, get?_of_mem hdict hpair]; rfl)
      have hmap : (collected.add action (tracker.newId action.idKind).1).idMap =
          collected.idMap ++ [(action.stepId, (tracker.newId action.idKind).1)] := by
        rw [Collected.idMap_add, insert_eq_append _ hnew]
      have hdict' : ((collected.add action (tracker.newId action.idKind).1).idMap.map Prod.fst).Nodup := by
        rw [Collected.idMap_add]
        exact nodup_keys_insert hdict _ _
      have hrest := @ih _ (tracker.newId action.idKind).2 hdict' h
      rw [hmap, List.map_append, List.append_assoc] at hrest
      exact hrest

/-- What the first loop collects of a test. -/
def collectedOf (tracker : IdTracker) (actions : List Action) : Collected :=
  Collected.empty.addAll ((actionGenerator actions).zip (newIds (actionGenerator actions) tracker))

/-- The canonicalized test. -/
def canonicalOf (tracker : IdTracker) (actions : List Action) : Canonical where
  actions := popGlobalFunctions (popMemoryActions (renameAll (idMapOf tracker (actionGenerator actions)) actions))
  objects := actionGenerator (renameAll (idMapOf tracker (actionGenerator actions)) actions)
  globalFunctions := (collectedOf tracker actions).globalFunctions
  memory := (collectedOf tracker actions).memoryActions
  codeActions := (collectedOf tracker actions).codeActions

def allocationsOf (tracker : IdTracker) (actions : List Action) : List Allocation :=
  (collectedOf tracker actions).globalFunctions.map .code ++ (collectedOf tracker actions).memoryActions.map .data ++
    (collectedOf tracker actions).memoryRequestActions.map .data

theorem canonicalizeTest_ok {actions : List Action} {tracker : IdTracker}
    (hids : ((actionGenerator actions).map Action.stepId).Nodup) :
    canonicalizeTest actions tracker = .ok
      (canonicalOf tracker actions, allocationsOf tracker actions, trackerAfter (actionGenerator actions) tracker) := by
  obtain ⟨hcollect, hidMap⟩ := @collect_ok (actionGenerator actions) .empty tracker hids
  unfold canonicalizeTest canonicalOf allocationsOf
  rw [hcollect]
  change _ = idMapOf tracker (actionGenerator actions) at hidMap
  dsimp only [bind, Except.bind, pure, Except.pure]
  rw [hidMap]
  rfl

/-! ### All tests -/

/-- The tests one after the other, each with the counters that the tests before it have left. -/
def withTrackers : List (List Action) → IdTracker → List (IdTracker × List Action)
  | [], _ => []
  | test :: rest, tracker => (tracker, test) :: withTrackers rest (trackerAfter (actionGenerator test) tracker)

theorem canonicalize_ok {tests : List (List Action)} {result : CanonicalTests} {tracker : IdTracker}
    (hids : ∀ test ∈ tests, ((actionGenerator test).map Action.stepId).Nodup) :
    ∃ tracker', canonicalize tests result tracker = .ok
      (⟨result.tests ++ (withTrackers tests tracker).map fun test => canonicalOf test.1 test.2,
        fun mode => (withTrackers tests tracker).foldl
          (fun dict test => update dict ((canonicalOf test.1 test.2).codeActions mode)) (result.codeActions mode),
        result.allocations ++ (withTrackers tests tracker).flatMap fun test => allocationsOf test.1 test.2⟩, tracker') := by
  induction tests generalizing result tracker with
  | nil => exact ⟨tracker, by simp [canonicalize, withTrackers]⟩
  | cons test rest ih =>
      obtain ⟨hfirst, hrest⟩ := List.forall_mem_cons.mp hids
      rw [canonicalize, canonicalizeTest_ok hfirst]
      obtain ⟨tracker', hresult⟩ := @ih
        { tests := result.tests ++ [canonicalOf tracker test]
          codeActions := fun mode => update (result.codeActions mode) ((canonicalOf tracker test).codeActions mode)
          allocations := result.allocations ++ allocationsOf tracker test }
        (trackerAfter (actionGenerator test) tracker) hrest
      refine ⟨tracker', hresult.trans ?_⟩
      simp [withTrackers]

theorem nodup_of_canonicalize {tests : List (List Action)} {result : CanonicalTests} {tracker : IdTracker}
    {out : CanonicalTests × IdTracker} (h : canonicalize tests result tracker = .ok out) :
    ∀ test ∈ tests, ((actionGenerator test).map Action.stepId).Nodup := by
  induction tests generalizing result tracker with
  | nil => exact nofun
  | cons test rest ih =>
      obtain ⟨canonical, hfirst, h⟩ := Fallible.bind_ok h
      obtain ⟨collected, hcollect, -⟩ := Fallible.bind_ok hfirst
      exact List.forall_mem_cons.mpr ⟨@nodup_of_collect _ Collected.empty _ _ List.nodup_nil hcollect, ih h⟩

/-- The actions of all tests with their new ids. -/
def allPairs (tests : List (List Action)) (tracker : IdTracker) : List (Action × String) :=
  (withTrackers tests tracker).flatMap fun test =>
    (actionGenerator test.2).zip (newIds (actionGenerator test.2) test.1)

theorem map_snd_allPairs (tests : List (List Action)) (tracker : IdTracker) :
    (allPairs tests tracker).map Prod.snd = newIds (tests.flatMap actionGenerator) tracker := by
  induction tests generalizing tracker with
  | nil => rfl
  | cons test rest ih =>
      have hrest := ih (trackerAfter (actionGenerator test) tracker)
      unfold allPairs at hrest
      rw [allPairs, withTrackers, List.flatMap_cons, List.map_append, hrest, List.map_snd_zip (by simp),
        List.flatMap_cons, newIds_append]

theorem map_fst_allPairs (tests : List (List Action)) (tracker : IdTracker) :
    (allPairs tests tracker).map Prod.fst = tests.flatMap actionGenerator := by
  induction tests generalizing tracker with
  | nil => rfl
  | cons test rest ih =>
      have hrest := ih (trackerAfter (actionGenerator test) tracker)
      unfold allPairs at hrest
      rw [allPairs, withTrackers, List.flatMap_cons, List.map_append, hrest, List.map_fst_zip (by simp),
        List.flatMap_cons]

theorem nodup_allPairs (tests : List (List Action)) (tracker : IdTracker) :
    ((allPairs tests tracker).map Prod.snd).Nodup := by
  rw [map_snd_allPairs]
  exact nodup_newIds _ _

/-- The objects of a test are its renamed actions, each with its new id. -/
theorem objects_canonicalOf {tracker : IdTracker} {actions : List Action}
    (hids : ((actionGenerator actions).map Action.stepId).Nodup) :
    (canonicalOf tracker actions).objects =
        ((actionGenerator actions).zip (newIds (actionGenerator actions) tracker)).map
          (fun pair => pair.1.renameIds (idMapOf tracker (actionGenerator actions))) ∧
      ∀ pair ∈ (actionGenerator actions).zip (newIds (actionGenerator actions) tracker),
        renameId (idMapOf tracker (actionGenerator actions)) pair.1.stepId = pair.2 := by
  refine ⟨?_, fun pair hpair => renameId_idMapOf hids hpair⟩
  have hsplit : ((actionGenerator actions).zip (newIds (actionGenerator actions) tracker)).map
      (fun pair => pair.1.renameIds (idMapOf tracker (actionGenerator actions))) =
      (((actionGenerator actions).zip (newIds (actionGenerator actions) tracker)).map Prod.fst).map
        (Action.renameIds (idMapOf tracker (actionGenerator actions))) := (List.map_map ..).symm
  rw [hsplit, List.map_fst_zip (by simp)]
  exact actionGenerator_renameAll actions

/-! ### The property and its condition -/

/-- Every operand that named a step of its own test names that step's new id. -/
def References (actions : List Action) (canonical : Canonical) : Prop :=
  ∀ action ∈ (actionGenerator actions).zip canonical.objects, ∀ field ∈ action.1.operandFields,
    ∀ target ∈ (actionGenerator actions).zip canonical.objects,
      action.1.Names field target.1.stepId → action.2.Names field target.2.stepId

/-- Canonicalization was a consistent renaming. -/
structure Consistent (tests : List (List Action)) (result : CanonicalTests) : Prop where
  sameTests : result.tests.length = tests.length
  distinct : (result.tests.flatMap fun test => test.objects.map Action.stepId).Nodup
  references : ∀ test ∈ tests.zip result.tests, References test.1 test.2
  popped : ∀ test ∈ result.tests, ∀ action ∈ actionGenerator test.actions, action.isMemory = false
  registered : ∀ test ∈ result.tests, ∀ action ∈ test.objects, action.isMemory = true →
    result.allocations.filter (fun allocation => allocation.name = action.stepId) =
      [if action.isCodePage then .code action.stepId else .data action.stepId]
  collected : ∀ test ∈ result.tests, ∀ action ∈ test.objects, ∀ mode blockIndex,
    action.privilegeBlock = some (mode, blockIndex) →
      get? (result.codeActions mode) blockIndex = some action.stepId

/-- Whether two kinds of ids are numbered by the same counter. -/
def sameCounter (kind other : IdKind) : Bool := kind = .value ↔ other = .value

/-- The id of the action is already the one of its place: the first ids of the counter are those of the actions
before it. -/
def Action.Numbered (tracker : IdTracker) (before : List Action) (action : Action) : Prop :=
  action.stepId = action.idKind.id
    (tracker.count action.idKind + before.countP fun earlier => sameCounter earlier.idKind action.idKind)

mutual
/-- Nothing but the memory that `_pop_memory_actions` reaches is in the action: no code page, and under an
`AssertExceptionAction` no memory at all. -/
def Action.popsClean : Action → Bool
  | .plain .. => true
  | .block cls _ _ code =>
      if cls = .codePage then false
      else if cls = .assertException then (actionGenerator code).all fun action => !action.isMemory
      else popsClean code

def popsClean : List Action → Bool
  | [] => true
  | action :: rest => action.popsClean && popsClean rest
end

/-- The block index of a privilege code action of the mode. -/
def Action.blockIndexIn (mode : PrivilegeMode) (action : Action) : Option ℤ :=
  action.privilegeBlock.bind fun block => if block.1 = mode then some block.2 else none

/-- What the renaming needs: an operand that its class does not list names no step of the test, unless that step
keeps its id; code pages stand at the top and no memory under an exception assertion; and the privilege blocks of a
mode have different indices. -/
structure Canonicalizable (tests : List (List Action)) (tracker : IdTracker) : Prop where
  named : ∀ earlier test later, tests = earlier ++ test :: later →
    ∀ before target after, actionGenerator test = before ++ target :: after →
      ∀ action ∈ actionGenerator test, ∀ field ∈ action.operandFields, action.Names field target.stepId →
        field ∈ action.registerFields ∨ target.Numbered tracker (earlier.flatMap actionGenerator ++ before)
  placed : ∀ test ∈ tests, ∀ action ∈ test, action.isCodePage = true ∨ action.popsClean = true
  blocks : ∀ mode, ((tests.flatMap actionGenerator).filterMap (Action.blockIndexIn mode)).Nodup

/-! ### References -/

theorem count_trackerAfter (actions : List Action) (tracker : IdTracker) (kind : IdKind) :
    (trackerAfter actions tracker).count kind =
      tracker.count kind + actions.countP fun earlier => sameCounter earlier.idKind kind := by
  induction actions generalizing tracker with
  | nil => rfl
  | cons action rest ih =>
      have hnew : (tracker.newId action.idKind).2.count kind =
          tracker.count kind + if sameCounter action.idKind kind then 1 else 0 := by
        cases action.idKind <;> cases kind <;> rfl
      rw [trackerAfter, ih, hnew, List.countP_cons]
      omega

theorem trackerAfter_append (left right : List Action) (tracker : IdTracker) :
    trackerAfter (left ++ right) tracker = trackerAfter right (trackerAfter left tracker) := by
  induction left generalizing tracker with
  | nil => rfl
  | cons action rest ih => exact ih _

theorem mem_withTrackers {tests : List (List Action)} {tracker : IdTracker} {entry : IdTracker × List Action} :
    entry ∈ withTrackers tests tracker ↔ ∃ earlier later,
      tests = earlier ++ entry.2 :: later ∧ entry.1 = trackerAfter (earlier.flatMap actionGenerator) tracker := by
  induction tests generalizing tracker with
  | nil => simp [withTrackers]
  | cons test rest ih =>
      rw [withTrackers, List.mem_cons, ih]
      constructor
      · rintro (rfl | ⟨earlier, later, rfl, htracker⟩)
        · exact ⟨[], rest, rfl, rfl⟩
        · refine ⟨test :: earlier, later, rfl, ?_⟩
          rw [htracker, List.flatMap_cons, trackerAfter_append]
      · rintro ⟨_ | ⟨first, earlier⟩, later, htests, htracker⟩
        · obtain ⟨rfl, -⟩ := List.cons.inj htests
          exact .inl (Prod.ext htracker rfl)
        · obtain ⟨rfl, rfl⟩ := List.cons.inj htests
          refine .inr ⟨earlier, later, rfl, ?_⟩
          rw [htracker, List.flatMap_cons, trackerAfter_append]

/-- The new id of an action is its own one when the numbering agrees with it. -/
theorem renameId_eq_iff {earlier before after : List Action} {target : Action} {tracker : IdTracker}
    (hids : ((before ++ target :: after).map Action.stepId).Nodup) :
    renameId (idMapOf (trackerAfter earlier tracker) (before ++ target :: after)) target.stepId = target.stepId ↔
      target.Numbered tracker (earlier ++ before) := by
  have hmem : (target, ((trackerAfter (earlier ++ before) tracker).newId target.idKind).1) ∈
      (before ++ target :: after).zip (newIds (before ++ target :: after) (trackerAfter earlier tracker)) := by
    rw [newIds_append, List.zip_append (by simp), newIds, List.zip_cons_cons, trackerAfter_append]
    exact List.mem_append_right _ (List.mem_cons_self ..)
  rw [renameId_idMapOf hids hmem, IdTracker.newId_id, count_trackerAfter, Action.Numbered]
  exact eq_comm

theorem references_canonicalOf {tracker : IdTracker} {actions : List Action} :
    References actions (canonicalOf tracker actions) ↔
      ∀ action ∈ actionGenerator actions, ∀ field ∈ action.operandFields, ∀ target ∈ actionGenerator actions,
        action.Names field target.stepId → field ∈ action.registerFields ∨
          renameId (idMapOf tracker (actionGenerator actions)) target.stepId = target.stepId := by
  have hobjects : (canonicalOf tracker actions).objects =
      (actionGenerator actions).map (Action.renameIds (idMapOf tracker (actionGenerator actions))) :=
    actionGenerator_renameAll actions
  have hzip : (actionGenerator actions).zip (canonicalOf tracker actions).objects =
      (actionGenerator actions).map fun action =>
        (action, action.renameIds (idMapOf tracker (actionGenerator actions))) := by
    rw [hobjects, List.map_prod_left_eq_zip]
  unfold References
  rw [hzip]
  simp only [List.forall_mem_map, Action.stepId_renameIds]
  refine forall₂_congr fun action _ => forall₂_congr fun field _ => forall₂_congr fun target _ =>
    forall_congr' fun hnames => ?_
  exact Action.names_renameIds hnames

/-! ### What is popped -/

mutual
theorem Action.popsClean_renameIds {idMap : List (String × String)} : ∀ action : Action,
    (action.renameIds idMap).popsClean = action.popsClean
  | .plain .. => rfl
  | .block cls stepId attrs code => by
      have hall : (actionGenerator (renameAll idMap code)).all (fun action => !action.isMemory) =
          (actionGenerator code).all fun action => !action.isMemory := by
        rw [actionGenerator_renameAll, List.all_map]
        exact congrArg _ (funext fun action => by rw [Function.comp_apply, Action.isMemory_renameIds])
      rw [Action.renameIds, Action.popsClean, popsClean_renameAll code, hall, Action.popsClean]

theorem popsClean_renameAll {idMap : List (String × String)} : ∀ actions : List Action,
    popsClean (renameAll idMap actions) = popsClean actions
  | [] => rfl
  | action :: rest => by
      rw [renameAll, popsClean, action.popsClean_renameIds, popsClean_renameAll rest, popsClean]
end

mutual
/-- What is left of an action after the memory is popped. -/
theorem Action.all_popMemoryActions : ∀ {action left : Action}, action.popMemoryActions = some left →
    left.isCodePage = action.isCodePage ∧
      left.generator.all (fun inner => !inner.isMemory) = action.popsClean
  | .plain cls stepId attrs, left, h => by
      rw [Action.popMemoryActions] at h
      split_ifs at h with hcls
      obtain rfl := Option.some.inj h
      refine ⟨rfl, ?_⟩
      rw [not_or] at hcls
      cases cls <;> first | rfl | exact absurd rfl hcls.1 | exact absurd rfl hcls.2
  | .block cls stepId attrs code, left, h => by
      rw [Action.popMemoryActions] at h
      split_ifs at h with hcls
      · obtain rfl := Option.some.inj h
        subst hcls
        exact ⟨rfl, by simp [Action.generator, Action.popsClean, Action.isMemory]⟩
      · obtain rfl := Option.some.inj h
        have hcode := all_popMemoryActions code
        cases cls with
        | codePage => exact ⟨rfl, by simp [Action.generator, Action.popsClean, Action.isMemory]⟩
        | assertException => exact absurd rfl hcls
        | conditionalBlock =>
            exact ⟨rfl, by simpa [Action.generator, Action.popsClean, Action.isMemory] using hcode⟩
        | privilegeCode mode blockIndex =>
            exact ⟨rfl, by simpa [Action.generator, Action.popsClean, Action.isMemory] using hcode⟩

theorem all_popMemoryActions : ∀ actions : List Action,
    (actionGenerator (popMemoryActions actions)).all (fun inner => !inner.isMemory) = popsClean actions
  | [] => rfl
  | action :: rest => by
      have hrest := all_popMemoryActions rest
      rw [popMemoryActions, popsClean]
      cases hpop : action.popMemoryActions with
      | none =>
          have hclean : action.popsClean = true := by
            cases action with
            | plain => rfl
            | block cls stepId attrs code =>
                rw [Action.popMemoryActions] at hpop
                split_ifs at hpop
          rw [hclean, Bool.true_and]
          exact hrest
      | some left =>
          change (actionGenerator (left :: popMemoryActions rest)).all _ = _
          rw [actionGenerator, List.all_append, (Action.all_popMemoryActions hpop).2, hrest]
end

/-- What is left of the whole list without its code pages. -/
theorem all_popGlobalFunctions (actions : List Action) :
    (∀ inner ∈ actionGenerator (popGlobalFunctions (popMemoryActions actions)), inner.isMemory = false) ↔
      ∀ action ∈ actions, action.isCodePage = true ∨ action.popsClean = true := by
  induction actions with
  | nil => simp [popMemoryActions, popGlobalFunctions, actionGenerator]
  | cons action rest ih =>
      rw [List.forall_mem_cons, ← ih, popMemoryActions]
      cases hpop : action.popMemoryActions with
      | none =>
          cases action with
          | plain => exact (and_iff_right (.inr rfl)).symm
          | block cls stepId attrs code =>
              rw [Action.popMemoryActions] at hpop
              split_ifs at hpop
      | some left =>
          obtain ⟨hpage, hclean⟩ := Action.all_popMemoryActions hpop
          cases hcode : left.isCodePage with
          | true =>
              rw [← hpage, hcode, and_iff_right (.inl rfl)]
              simp [popGlobalFunctions, hcode]
          | false =>
              rw [← hpage, hcode, ← hclean]
              simp [popGlobalFunctions, hcode, actionGenerator, or_imp, forall_and]

theorem popped_canonicalOf {tracker : IdTracker} {actions : List Action} :
    (∀ action ∈ actionGenerator (canonicalOf tracker actions).actions, action.isMemory = false) ↔
      ∀ action ∈ actions, action.isCodePage = true ∨ action.popsClean = true := by
  change (∀ inner ∈ actionGenerator (popGlobalFunctions (popMemoryActions _)), _) ↔ _
  rw [all_popGlobalFunctions, renameAll_eq_map, List.forall_mem_map]
  simp only [Action.isCodePage_renameIds, Action.popsClean_renameIds]

/-! ### The registry -/

/-- The registry's call for an action and its new id. -/
def allocationOf (pair : Action × String) : Option Allocation :=
  if pair.1.isMemory then some (if pair.1.isCodePage then .code pair.2 else .data pair.2) else none

theorem name_allocationOf {pair : Action × String} {allocation : Allocation} (h : allocationOf pair = some allocation) :
    allocation.name = pair.2 := by
  unfold allocationOf at h
  split_ifs at h
  · obtain rfl := Option.some.inj h
    rfl
  · obtain rfl := Option.some.inj h
    rfl

/-- The three dictionaries of a test hold its memory actions, in another order. -/
theorem Collected.perm_addAll (collected : Collected) (pairs : List (Action × String)) :
    List.Perm
      ((collected.addAll pairs).globalFunctions.map Allocation.code ++
        (collected.addAll pairs).memoryActions.map Allocation.data ++
        (collected.addAll pairs).memoryRequestActions.map Allocation.data)
      (collected.globalFunctions.map Allocation.code ++ collected.memoryActions.map Allocation.data ++
        collected.memoryRequestActions.map Allocation.data ++ pairs.filterMap allocationOf) := by
  induction pairs generalizing collected with
  | nil => exact .of_eq (List.append_nil _).symm
  | cons pair rest ih =>
      refine (ih _).trans ?_
      rw [List.filterMap_cons]
      obtain ⟨⟨cls, stepId, attrs⟩ | ⟨cls, stepId, attrs, code⟩, newId⟩ := pair
      · cases cls with
        | memory =>
            simp only [Collected.add, allocationOf, Action.isMemory, Action.isCodePage, List.map_append, List.map_cons,
              List.map_nil, List.append_assoc, List.singleton_append, if_true, Bool.false_eq_true, if_false]
            exact (List.perm_middle.symm.append_left _).append_left _
        | requestPmp =>
            simp [Collected.add, allocationOf, Action.isMemory, Action.isCodePage]
        | _ => exact .of_eq rfl
      · cases cls with
        | codePage =>
            simp only [Collected.add, allocationOf, Action.isMemory, Action.isCodePage, List.map_append, List.map_cons,
              List.map_nil, List.append_assoc, List.singleton_append, if_true]
            refine List.Perm.append_left _ ?_
            rw [← List.append_assoc, ← List.append_assoc]
            exact List.perm_middle.symm
        | _ => exact .of_eq rfl

theorem perm_allocations (tests : List (List Action)) (tracker : IdTracker) :
    List.Perm ((withTrackers tests tracker).flatMap fun test => allocationsOf test.1 test.2)
      ((allPairs tests tracker).filterMap allocationOf) := by
  rw [allPairs, List.filterMap_flatMap]
  exact List.Perm.flatMap_left _ fun test _ => Collected.perm_addAll .empty _

/-- One call for each memory action, under its new id. -/
theorem filter_allocations {tests : List (List Action)} {tracker : IdTracker} {pair : Action × String}
    (hpair : pair ∈ allPairs tests tracker) (hmemory : pair.1.isMemory = true) :
    ((withTrackers tests tracker).flatMap fun test => allocationsOf test.1 test.2).filter
        (fun allocation => allocation.name = pair.2) =
      [if pair.1.isCodePage then .code pair.2 else .data pair.2] := by
  obtain ⟨before, after, hsplit⟩ := List.append_of_mem hpair
  have hperm := (perm_allocations tests tracker).filter (fun allocation => allocation.name = pair.2)
  have hnodup := nodup_allPairs tests tracker
  rw [hsplit] at hperm hnodup
  -- no other action has this id
  have hother : ∀ pairs : List (Action × String), pair.2 ∉ pairs.map Prod.snd →
      (pairs.filterMap allocationOf).filter (fun allocation => allocation.name = pair.2) = [] := by
    intro pairs hpairs
    refine List.filter_eq_nil_iff.mpr fun allocation hallocation hname => hpairs ?_
    obtain ⟨other, hmem, hother⟩ := List.mem_filterMap.mp hallocation
    rw [← of_decide_eq_true hname, name_allocationOf hother]
    exact List.mem_map_of_mem hmem
  rw [List.map_append, List.map_cons, List.nodup_middle, List.nodup_cons, List.mem_append, not_or] at hnodup
  rw [List.filterMap_append, List.filterMap_cons, List.filter_append, hother before hnodup.1.1] at hperm
  have hself : allocationOf pair = some (if pair.1.isCodePage then .code pair.2 else .data pair.2) := if_pos hmemory
  have hname : Allocation.name (if pair.1.isCodePage then .code pair.2 else .data pair.2) = pair.2 :=
    name_allocationOf hself
  rw [hself] at hperm
  dsimp only at hperm
  rw [List.filter_cons_of_pos (by rw [hname]; exact decide_eq_true rfl), hother after hnodup.1.2] at hperm
  exact List.perm_singleton.mp hperm

/-! ### The dictionaries -/

/-- The entry of an action in the dictionary of a mode. -/
def blockEntry (mode : PrivilegeMode) (pair : Action × String) : Option (ℤ × String) :=
  (pair.1.blockIndexIn mode).map fun blockIndex => (blockIndex, pair.2)

theorem Collected.codeActions_addAll (collected : Collected) (pairs : List (Action × String)) (mode : PrivilegeMode) :
    (collected.addAll pairs).codeActions mode =
      assign (collected.codeActions mode) (pairs.filterMap (blockEntry mode)) := by
  induction pairs generalizing collected with
  | nil => rfl
  | cons pair rest ih =>
      refine (ih _).trans ?_
      rw [List.filterMap_cons]
      obtain ⟨⟨cls, stepId, attrs⟩ | ⟨cls, stepId, attrs, code⟩, newId⟩ := pair
      · cases cls <;> rfl
      · cases cls with
        | privilegeCode other blockIndex =>
            by_cases hmode : other = mode
            · subst hmode
              simp [Collected.add, blockEntry, Action.blockIndexIn, Action.privilegeBlock, assign]
            · simp [Collected.add, blockEntry, Action.blockIndexIn, Action.privilegeBlock, hmode, Ne.symm hmode]
        | _ => rfl

theorem get?_codeActions (mode : PrivilegeMode) (dict : List (ℤ × String)) (entries : List (IdTracker × List Action))
    (key : ℤ) :
    get? (entries.foldl (fun dict test => update dict ((canonicalOf test.1 test.2).codeActions mode)) dict) key =
      get? (assign dict ((entries.flatMap fun test =>
        (actionGenerator test.2).zip (newIds (actionGenerator test.2) test.1)).filterMap (blockEntry mode))) key := by
  induction entries generalizing dict with
  | nil => rfl
  | cons test rest ih =>
      have hupdate : get? (update dict ((canonicalOf test.1 test.2).codeActions mode)) = get? (assign dict
          (((actionGenerator test.2).zip (newIds (actionGenerator test.2) test.1)).filterMap (blockEntry mode))) := by
        funext key
        change get? (assign dict ((collectedOf test.1 test.2).codeActions mode)) key = _
        rw [collectedOf, Collected.codeActions_addAll]
        exact get?_assign_assign _ _ _
      rw [List.foldl_cons, ih, get?_assign, hupdate, List.flatMap_cons, List.filterMap_append, get?_assign, get?_assign,
        List.reverse_append, get?_append, Option.or_assoc]

theorem nodup_snd_filterMap_blockEntry {pairs : List (Action × String)} (mode : PrivilegeMode)
    (hnodup : (pairs.map Prod.snd).Nodup) : ((pairs.filterMap (blockEntry mode)).map Prod.snd).Nodup := by
  refine List.Nodup.sublist ?_ hnodup
  induction pairs with
  | nil => exact .slnil
  | cons pair rest ih =>
      have hrest := ih (List.nodup_cons.mp hnodup).2
      rw [List.filterMap_cons]
      cases hentry : blockEntry mode pair with
      | none => exact hrest.cons _
      | some entry =>
          obtain ⟨blockIndex, -, rfl⟩ := Option.map_eq_some_iff.mp hentry
          exact hrest.cons_cons _

theorem map_fst_filterMap_blockEntry (pairs : List (Action × String)) (mode : PrivilegeMode) :
    (pairs.filterMap (blockEntry mode)).map Prod.fst = (pairs.map Prod.fst).filterMap (Action.blockIndexIn mode) := by
  rw [List.map_filterMap, List.filterMap_map]
  refine congrArg (fun entry => pairs.filterMap entry) (funext fun pair => ?_)
  rw [Function.comp_apply, blockEntry, Option.map_map]
  exact Option.map_id'

/-- Every privilege code action is in the dictionary of its mode when no two of one mode have the same index. -/
theorem collected_iff {tests : List (List Action)} {tracker : IdTracker} {mode : PrivilegeMode} :
    (∀ pair ∈ allPairs tests tracker, ∀ blockIndex, pair.1.blockIndexIn mode = some blockIndex →
        get? ((withTrackers tests tracker).foldl
          (fun dict test => update dict ((canonicalOf test.1 test.2).codeActions mode)) []) blockIndex = some pair.2) ↔
      ((tests.flatMap actionGenerator).filterMap (Action.blockIndexIn mode)).Nodup := by
  have hentries := get?_reverse_iff (nodup_snd_filterMap_blockEntry mode (nodup_allPairs tests tracker))
  rw [map_fst_filterMap_blockEntry, map_fst_allPairs] at hentries
  rw [← hentries]
  have hget : ∀ key, get? ((withTrackers tests tracker).foldl
      (fun dict test => update dict ((canonicalOf test.1 test.2).codeActions mode)) []) key =
      get? ((allPairs tests tracker).filterMap (blockEntry mode)).reverse key := by
    intro key
    rw [get?_codeActions, get?_assign, get?_nil, Option.or_none]
    rfl
  constructor
  · intro h entry hentry
    obtain ⟨pair, hpair, hblock⟩ := List.mem_filterMap.mp hentry
    obtain ⟨blockIndex, hindex, rfl⟩ := Option.map_eq_some_iff.mp hblock
    exact (hget _).symm.trans (h pair hpair blockIndex hindex)
  · intro h pair hpair blockIndex hindex
    have hentry : blockEntry mode pair = some (blockIndex, pair.2) := by rw [blockEntry, hindex]; rfl
    exact (hget _).trans (h _ (List.mem_filterMap.mpr ⟨pair, hpair, hentry⟩))

/-! ### Canonicalization -/

theorem map_snd_withTrackers (tests : List (List Action)) (tracker : IdTracker) :
    (withTrackers tests tracker).map Prod.snd = tests := by
  induction tests generalizing tracker with
  | nil => rfl
  | cons test rest ih => rw [withTrackers, List.map_cons, ih]

/-- What canonicalization returns. -/
def canonicalTests (tests : List (List Action)) (tracker : IdTracker) : CanonicalTests where
  tests := (withTrackers tests tracker).map fun test => canonicalOf test.1 test.2
  codeActions := fun mode => (withTrackers tests tracker).foldl
    (fun dict test => update dict ((canonicalOf test.1 test.2).codeActions mode)) []
  allocations := (withTrackers tests tracker).flatMap fun test => allocationsOf test.1 test.2

section CanonicalTests
variable {tests : List (List Action)} {tracker : IdTracker}

/-- The objects of all tests and the actions they come from. -/
theorem mem_objects (hids : ∀ test ∈ tests, ((actionGenerator test).map Action.stepId).Nodup)
    {motive : Action → Prop} :
    (∀ test ∈ (canonicalTests tests tracker).tests, ∀ action ∈ test.objects, motive action) ↔
      ∀ test ∈ withTrackers tests tracker,
        ∀ pair ∈ (actionGenerator test.2).zip (newIds (actionGenerator test.2) test.1),
          motive (pair.1.renameIds (idMapOf test.1 (actionGenerator test.2))) := by
  rw [canonicalTests, List.forall_mem_map]
  refine forall₂_congr fun test htest => ?_
  have hmem : test.2 ∈ tests := (map_snd_withTrackers tests tracker) ▸ List.mem_map_of_mem htest
  rw [(objects_canonicalOf (hids _ hmem)).1, List.forall_mem_map]

theorem mem_zip_canonicalTests {pair : List Action × Canonical} (h : pair ∈ tests.zip (canonicalTests tests tracker).tests) :
    ∃ test ∈ withTrackers tests tracker, pair = (test.2, canonicalOf test.1 test.2) := by
  have hzip := @List.zip_map' _ _ _ Prod.snd (fun test : IdTracker × List Action => canonicalOf test.1 test.2)
    (withTrackers tests tracker)
  rw [map_snd_withTrackers] at hzip
  obtain ⟨test, htest, heq⟩ := List.mem_map.mp (hzip ▸ h)
  exact ⟨test, htest, heq.symm⟩

/-- Next to every action of a test is the object that it becomes. -/
theorem mem_zip_objects {tracker : IdTracker} {actions : List Action} {pair : Action × Action} :
    pair ∈ (actionGenerator actions).zip (canonicalOf tracker actions).objects ↔
      pair.1 ∈ actionGenerator actions ∧ pair.2 = pair.1.renameIds (idMapOf tracker (actionGenerator actions)) := by
  have hzip := @List.zip_map' _ _ _ id (Action.renameIds (idMapOf tracker (actionGenerator actions)))
    (actionGenerator actions)
  rw [List.map_id, ← actionGenerator_renameAll] at hzip
  rw [canonicalOf, hzip, List.mem_map]
  constructor
  · rintro ⟨action, hmem, rfl⟩
    exact ⟨hmem, rfl⟩
  · rintro ⟨hmem, heq⟩
    exact ⟨pair.1, hmem, Prod.ext rfl heq.symm⟩

theorem distinct_canonicalTests (hids : ∀ test ∈ tests, ((actionGenerator test).map Action.stepId).Nodup) :
    ((canonicalTests tests tracker).tests.flatMap fun test => test.objects.map Action.stepId).Nodup := by
  have hall : ((canonicalTests tests tracker).tests.flatMap fun test => test.objects.map Action.stepId) =
      (allPairs tests tracker).map Prod.snd := by
    rw [canonicalTests, List.flatMap_map, allPairs, List.map_flatMap]
    refine List.flatMap_congr fun test htest => ?_
    have hmem : test.2 ∈ tests := (map_snd_withTrackers tests tracker) ▸ List.mem_map_of_mem htest
    obtain ⟨hobjects, hrename⟩ := @objects_canonicalOf test.1 _ (hids _ hmem)
    rw [hobjects, List.map_map]
    exact List.map_congr_left fun pair hpair => (Action.stepId_renameIds _).trans (hrename pair hpair)
  rw [hall]
  exact nodup_allPairs tests tracker

theorem references_canonicalTests (hids : ∀ test ∈ tests, ((actionGenerator test).map Action.stepId).Nodup) :
    (∀ test ∈ tests.zip (canonicalTests tests tracker).tests, References test.1 test.2) ↔
      ∀ earlier test later, tests = earlier ++ test :: later →
        ∀ before target after, actionGenerator test = before ++ target :: after →
          ∀ action ∈ actionGenerator test, ∀ field ∈ action.operandFields, action.Names field target.stepId →
            field ∈ action.registerFields ∨ target.Numbered tracker (earlier.flatMap actionGenerator ++ before) := by
  have hzip : tests.zip (canonicalTests tests tracker).tests =
      (withTrackers tests tracker).map fun test => (test.2, canonicalOf test.1 test.2) := by
    have hsplit := @List.zip_map' _ _ _ Prod.snd (fun test : IdTracker × List Action => canonicalOf test.1 test.2)
      (withTrackers tests tracker)
    rwa [map_snd_withTrackers] at hsplit
  rw [hzip, List.forall_mem_map]
  simp only [references_canonicalOf]
  constructor
  · intro h earlier test later htests before target after hgenerator action haction field hfield hnames
    have hentry : (trackerAfter (earlier.flatMap actionGenerator) tracker, test) ∈ withTrackers tests tracker :=
      mem_withTrackers.mpr ⟨earlier, later, htests, rfl⟩
    have htarget : target ∈ actionGenerator test := hgenerator ▸ List.mem_append_right _ (List.mem_cons_self ..)
    refine (h _ hentry action haction field hfield target htarget hnames).imp_right fun hsame => ?_
    have hnodup := hids test (htests ▸ List.mem_append_right _ (List.mem_cons_self ..))
    dsimp only at hsame
    rw [hgenerator] at hsame hnodup
    exact (renameId_eq_iff hnodup).mp hsame
  · rintro h ⟨tracker', test⟩ hentry action haction field hfield target htarget hnames
    obtain ⟨earlier, later, htests, rfl⟩ := mem_withTrackers.mp hentry
    obtain ⟨before, after, hgenerator⟩ := List.append_of_mem htarget
    refine (h earlier test later htests before target after hgenerator action haction field hfield hnames).imp_right
      fun hnumbered => ?_
    have hnodup := hids test (htests ▸ List.mem_append_right _ (List.mem_cons_self ..))
    dsimp only at hgenerator ⊢
    rw [hgenerator] at hnodup ⊢
    exact (renameId_eq_iff hnodup).mpr hnumbered

theorem popped_canonicalTests :
    (∀ test ∈ (canonicalTests tests tracker).tests, ∀ action ∈ actionGenerator test.actions,
        action.isMemory = false) ↔
      ∀ test ∈ tests, ∀ action ∈ test, action.isCodePage = true ∨ action.popsClean = true := by
  rw [canonicalTests, List.forall_mem_map]
  simp only [popped_canonicalOf]
  conv_rhs => rw [← map_snd_withTrackers tests tracker, List.forall_mem_map]

theorem registered_canonicalTests (hids : ∀ test ∈ tests, ((actionGenerator test).map Action.stepId).Nodup) :
    ∀ test ∈ (canonicalTests tests tracker).tests, ∀ action ∈ test.objects, action.isMemory = true →
      (canonicalTests tests tracker).allocations.filter (fun allocation => allocation.name = action.stepId) =
        [if action.isCodePage then .code action.stepId else .data action.stepId] := by
  refine (@mem_objects tests tracker hids fun action => action.isMemory = true →
    (canonicalTests tests tracker).allocations.filter (fun allocation => allocation.name = action.stepId) =
      [if action.isCodePage then .code action.stepId else .data action.stepId]).mpr fun test htest pair hpair hmemory => ?_
  have hmem : test.2 ∈ tests := (map_snd_withTrackers tests tracker) ▸ List.mem_map_of_mem htest
  have hall : pair ∈ allPairs tests tracker := List.mem_flatMap.mpr ⟨test, htest, hpair⟩
  rw [Action.stepId_renameIds, Action.isCodePage_renameIds, (objects_canonicalOf (hids _ hmem)).2 pair hpair]
  rw [Action.isMemory_renameIds] at hmemory
  exact filter_allocations hall hmemory

theorem collected_canonicalTests (hids : ∀ test ∈ tests, ((actionGenerator test).map Action.stepId).Nodup) :
    (∀ test ∈ (canonicalTests tests tracker).tests, ∀ action ∈ test.objects, ∀ mode blockIndex,
        action.privilegeBlock = some (mode, blockIndex) →
          get? ((canonicalTests tests tracker).codeActions mode) blockIndex = some action.stepId) ↔
      ∀ mode, ((tests.flatMap actionGenerator).filterMap (Action.blockIndexIn mode)).Nodup := by
  have hblock : ∀ (action : Action) mode blockIndex,
      action.privilegeBlock = some (mode, blockIndex) ↔ action.blockIndexIn mode = some blockIndex := by
    intro action mode blockIndex
    unfold Action.blockIndexIn
    rcases action.privilegeBlock with _ | ⟨mode', blockIndex'⟩ <;> simp
  rw [@mem_objects tests tracker hids fun action => ∀ mode blockIndex,
    action.privilegeBlock = some (mode, blockIndex) →
      get? ((canonicalTests tests tracker).codeActions mode) blockIndex = some action.stepId]
  simp only [Action.privilegeBlock_renameIds, Action.stepId_renameIds, hblock]
  constructor
  · intro h mode
    refine (@collected_iff tests tracker mode).mp fun pair hpair blockIndex hindex => ?_
    obtain ⟨test, htest, hmem⟩ := List.mem_flatMap.mp hpair
    have htests : test.2 ∈ tests := (map_snd_withTrackers tests tracker) ▸ List.mem_map_of_mem htest
    rw [← (objects_canonicalOf (hids _ htests)).2 pair hmem]
    exact h test htest pair hmem mode blockIndex hindex
  · intro h test htest pair hpair mode blockIndex hindex
    have htests : test.2 ∈ tests := (map_snd_withTrackers tests tracker) ▸ List.mem_map_of_mem htest
    rw [(objects_canonicalOf (hids _ htests)).2 pair hpair]
    exact collected_iff.mpr (h mode) pair (List.mem_flatMap.mpr ⟨test, htest, hpair⟩) blockIndex hindex

end CanonicalTests

/-- Tests with distinct step ids are canonicalized, and this is a consistent renaming exactly for canonicalizable
tests. -/
theorem canonicalize_consistent_iff (tests : List (List Action)) (tracker : IdTracker)
    (hids : ∀ test ∈ tests, ((actionGenerator test).map Action.stepId).Nodup) :
    ∃ result tracker', canonicalize tests ⟨[], fun _ => [], []⟩ tracker = .ok (result, tracker') ∧
      (Consistent tests result ↔ Canonicalizable tests tracker) := by
  obtain ⟨tracker', hresult⟩ := @canonicalize_ok tests ⟨[], fun _ => [], []⟩ tracker hids
  refine ⟨canonicalTests tests tracker, tracker', hresult, ?_⟩
  constructor
  · intro h
    exact ⟨(references_canonicalTests hids).mp h.references, popped_canonicalTests.mp h.popped,
      (collected_canonicalTests hids).mp h.collected⟩
  · intro h
    refine ⟨?_, distinct_canonicalTests hids, (references_canonicalTests hids).mpr h.named,
      popped_canonicalTests.mpr h.placed, registered_canonicalTests hids, (collected_canonicalTests hids).mpr h.blocks⟩
    have hlength := congrArg List.length (map_snd_withTrackers tests tracker)
    rw [List.length_map] at hlength
    rw [canonicalTests, List.length_map, hlength]

/-- A store of a loaded value to the memory of a test. -/
def storeTest : List Action :=
  [.plain .li "t0" [("value", .int 7)], .plain .memory "m0" [],
    .plain .memAccess "t1"
      [("offset", .int 0), ("memory", .str "m0"), ("rs1", .str "m0"), ("rs2", .str "t0"), ("op", .str "sd")]]

/-- The same store in privilege code, next to a page that is called. -/
def nestedTest : List Action :=
  [.block .codePage "c0" [] [.plain .li "t0" [("value", .int 7)]],
    .block (.privilegeCode .machine 0) "p0" [] storeTest.tail, .plain .call "t2" [("target", .str "c0")]]

theorem canonicalize_consistent_nested : ∃ result tracker',
    canonicalize [nestedTest, storeTest] ⟨[], fun _ => [], []⟩ ⟨0, 0, 0, fun _ => 0⟩ = .ok (result, tracker') ∧
      (Consistent [nestedTest, storeTest] result ↔
        Canonicalizable [nestedTest, storeTest] ⟨0, 0, 0, fun _ => 0⟩) :=
  canonicalize_consistent_iff [nestedTest, storeTest] ⟨0, 0, 0, fun _ => 0⟩ (by decide +kernel)

/-- The stored value is not renamed. -/
theorem canonicalize_not_consistent : ((actionGenerator storeTest).map Action.stepId).Nodup ∧
    ∃ result tracker', canonicalize [storeTest] ⟨[], fun _ => [], []⟩ ⟨0, 0, 0, fun _ => 0⟩ = .ok (result, tracker') ∧
      ¬Consistent [storeTest] result := by
  have hids : ∀ test ∈ [storeTest], ((actionGenerator test).map Action.stepId).Nodup := by decide +kernel
  obtain ⟨tracker', hresult⟩ := @canonicalize_ok _ ⟨[], fun _ => [], []⟩ ⟨0, 0, 0, fun _ => 0⟩ hids
  refine ⟨hids _ (List.mem_singleton_self _), _, tracker', hresult, fun hconsistent => ?_⟩
  have hmem : storeTest.get ⟨2, by decide⟩ ∈ actionGenerator storeTest := List.get_mem storeTest _
  have hnamed := (references_canonicalTests hids).mp hconsistent.references [] storeTest [] rfl [] _ _ rfl
    _ hmem "rs2" (by decide +kernel) (.inl (by decide +kernel))
  rcases hnamed with hregistered | hnumbered
  · exact absurd hregistered (by decide +kernel)
  · have hid : "t0" = "r0" := hnumbered
    exact absurd hid (by decide +kernel)

end Riescue.Canonicalizer
