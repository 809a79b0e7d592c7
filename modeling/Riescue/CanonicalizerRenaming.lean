import Riescue.Canonicalizer

/-! What renaming does to an action, and which new ids the actions of a test get. -/

namespace Riescue.Canonicalizer
open TestPlan OrderedDict

/-! ### Renamed actions -/

section Rename
variable {idMap : List (String × String)}

mutual
theorem Action.generator_renameIds : ∀ action : Action,
    (action.renameIds idMap).generator = action.generator.map (Action.renameIds idMap)
  | .plain .. => rfl
  | .block cls stepId attrs code => by
      rw [Action.renameIds, Action.generator, actionGenerator_renameAll code, Action.generator, List.map_append]
      rfl

theorem actionGenerator_renameAll : ∀ actions : List Action,
    actionGenerator (renameAll idMap actions) = (actionGenerator actions).map (Action.renameIds idMap)
  | [] => rfl
  | action :: rest => by
      rw [renameAll, actionGenerator, action.generator_renameIds, actionGenerator_renameAll rest, actionGenerator,
        List.map_append]
end

theorem renameAll_eq_map (actions : List Action) : renameAll idMap actions = actions.map (Action.renameIds idMap) := by
  induction actions with
  | nil => rfl
  | cons action rest ih => rw [renameAll, ih, List.map_cons]

namespace Action

@[simp] theorem stepId_renameIds (action : Action) : (action.renameIds idMap).stepId = renameId idMap action.stepId := by
  cases action <;> rfl

@[simp] theorem isMemory_renameIds (action : Action) : (action.renameIds idMap).isMemory = action.isMemory := by
  rcases action with ⟨cls, _, _⟩ | ⟨cls, _, _, _⟩ <;> cases cls <;> rfl

@[simp] theorem isCodePage_renameIds (action : Action) : (action.renameIds idMap).isCodePage = action.isCodePage := by
  rcases action with ⟨cls, _, _⟩ | ⟨cls, _, _, _⟩ <;> cases cls <;> rfl

@[simp] theorem privilegeBlock_renameIds (action : Action) :
    (action.renameIds idMap).privilegeBlock = action.privilegeBlock := by
  rcases action with ⟨cls, _, _⟩ | ⟨cls, _, _, _⟩ <;> cases cls <;> rfl

theorem attrs_renameIds (action : Action) :
    (action.renameIds idMap).attrs = renameFields idMap action.registerFields action.attrs := by
  cases action <;> rfl

theorem nodup_registerFields (action : Action) : action.registerFields.Nodup := by
  rcases action with ⟨cls, _, _⟩ | ⟨cls, _, _, _⟩
  · change cls.registerFields.Nodup
    cases cls <;> decide
  · change cls.registerFields.Nodup
    cases cls <;> simp [CodeClass.registerFields]

/-- The attribute names the id, alone or in a tuple. -/
def Names (action : Action) (field id : String) : Prop :=
  get? action.attrs field = some (.str id) ∨ ∃ offset, get? action.attrs field = some (.tuple id offset)

end Action

/-! ### Renamed fields -/

/-- A value with its string looked up. -/
def AttrValue.rename (idMap : List (String × String)) : AttrValue → AttrValue
  | .str value => .str (renameId idMap value)
  | .tuple value offset => .tuple (renameId idMap value) offset
  | value => value

theorem get?_renameField_ne {attrs : Attrs} {field other : String} (hne : other ≠ field) :
    get? (renameField idMap attrs field) other = get? attrs other := by
  unfold renameField
  split
  · split
    · exact get?_insert_ne _ _ hne
    · rfl
  · split
    · exact get?_insert_ne _ _ hne
    · rfl
  · rfl

theorem get?_renameField_self {attrs : Attrs} {field : String} :
    get? (renameField idMap attrs field) field = (get? attrs field).map (AttrValue.rename idMap) := by
  unfold renameField
  split
  · rename_i value hvalue
    rw [hvalue]
    cases hid : get? idMap value with
    | some newId => simp [AttrValue.rename, renameId, hid]
    | none => simp [AttrValue.rename, renameId, hid, hvalue]
  · rename_i value offset hvalue
    rw [hvalue]
    cases hid : get? idMap value with
    | some newId => simp [AttrValue.rename, renameId, hid]
    | none => simp [AttrValue.rename, renameId, hid, hvalue]
  · rename_i hstr htuple
    rcases hvalue : get? attrs field with _ | ⟨_ | _ | value | ⟨value, offset⟩⟩
    · rfl
    · rfl
    · rfl
    · exact absurd hvalue (hstr value)
    · exact absurd hvalue (htuple value offset)

theorem get?_renameFields_of_not_mem {fields : List String} {attrs : Attrs} {field : String} (h : field ∉ fields) :
    get? (renameFields idMap fields attrs) field = get? attrs field := by
  induction fields generalizing attrs with
  | nil => rfl
  | cons first rest ih =>
      rw [List.mem_cons, not_or] at h
      exact (ih h.2).trans (get?_renameField_ne h.1)

theorem get?_renameFields {fields : List String} {attrs : Attrs} {field : String} (hnodup : fields.Nodup)
    (h : field ∈ fields) :
    get? (renameFields idMap fields attrs) field = (get? attrs field).map (AttrValue.rename idMap) := by
  induction fields generalizing attrs with
  | nil => exact absurd h List.not_mem_nil
  | cons first rest ih =>
      obtain ⟨hfirst, hrest⟩ := List.nodup_cons.mp hnodup
      rcases List.mem_cons.mp h with rfl | h
      · exact (get?_renameFields_of_not_mem hfirst).trans get?_renameField_self
      · have hne : field ≠ first := fun heq => hfirst (heq ▸ h)
        exact (ih hrest h).trans (by rw [get?_renameField_ne hne])

/-- An attribute follows the renaming when its class lists it, or when there was nothing to rename. -/
theorem Action.names_renameIds {action : Action} {field id : String} (h : action.Names field id) :
    (action.renameIds idMap).Names field (renameId idMap id) ↔
      field ∈ action.registerFields ∨ renameId idMap id = id := by
  unfold Action.Names
  rw [action.attrs_renameIds]
  by_cases hfield : field ∈ action.registerFields
  · rw [get?_renameFields action.nodup_registerFields hfield]
    refine iff_of_true ?_ (.inl hfield)
    rcases h with h | ⟨offset, h⟩
    · exact .inl (by rw [h]; rfl)
    · exact .inr ⟨offset, by rw [h]; rfl⟩
  · rw [get?_renameFields_of_not_mem hfield, or_iff_right hfield]
    rcases h with h | ⟨offset, h⟩
    · rw [h]
      simp [eq_comm]
    · rw [h]
      simp [eq_comm]

end Rename

/-! ### New ids -/

/-- The new ids of actions, one after the other. -/
def newIds : List Action → IdTracker → List String
  | [], _ => []
  | action :: rest, tracker => (tracker.newId action.idKind).1 :: newIds rest (tracker.newId action.idKind).2

/-- The counters afterwards. -/
def trackerAfter : List Action → IdTracker → IdTracker
  | [], tracker => tracker
  | action :: rest, tracker => trackerAfter rest (tracker.newId action.idKind).2

theorem newIds_append (left right : List Action) (tracker : IdTracker) :
    newIds (left ++ right) tracker = newIds left tracker ++ newIds right (trackerAfter left tracker) := by
  induction left generalizing tracker with
  | nil => rfl
  | cons action rest ih => rw [List.cons_append, newIds, ih, newIds, trackerAfter, List.cons_append]

@[simp] theorem length_newIds (actions : List Action) (tracker : IdTracker) :
    (newIds actions tracker).length = actions.length := by
  induction actions generalizing tracker with
  | nil => rfl
  | cons action rest ih => rw [newIds, List.length_cons, ih, List.length_cons]

theorem newIds_not_spent {actions : List Action} {tracker : IdTracker} :
    ∀ id ∈ newIds actions tracker, ¬tracker.Spent id := by
  induction actions generalizing tracker with
  | nil => exact fun id hid => absurd hid List.not_mem_nil
  | cons action rest ih =>
      intro id hid
      rcases List.mem_cons.mp hid with rfl | hid
      · exact IdTracker.newId_not_spent _
      · exact fun hspent => ih id hid (hspent.newId _)

theorem nodup_newIds (actions : List Action) (tracker : IdTracker) : (newIds actions tracker).Nodup := by
  induction actions generalizing tracker with
  | nil => exact List.nodup_nil
  | cons action rest ih =>
      exact List.nodup_cons.mpr ⟨fun hmem => newIds_not_spent _ hmem (IdTracker.spent_newId _), ih _⟩

/-- The ids of the actions with their new ids. -/
def idMapOf (tracker : IdTracker) (actions : List Action) : List (String × String) :=
  (actions.map Action.stepId).zip (newIds actions tracker)

/-- Every action is renamed to its new id. -/
theorem renameId_idMapOf {tracker : IdTracker} {actions : List Action} (hids : (actions.map Action.stepId).Nodup)
    {pair : Action × String} (hpair : pair ∈ actions.zip (newIds actions tracker)) :
    renameId (idMapOf tracker actions) pair.1.stepId = pair.2 := by
  have hkeys : (idMapOf tracker actions).map Prod.fst = actions.map Action.stepId := List.map_fst_zip (by simp)
  have hmem : (pair.1.stepId, pair.2) ∈ idMapOf tracker actions := by
    rw [idMapOf, List.zip_map_left]
    exact List.mem_map.mpr ⟨pair, hpair, rfl⟩
  rw [renameId, get?_of_mem (hkeys ▸ hids) hmem]
  rfl

end Riescue.Canonicalizer
