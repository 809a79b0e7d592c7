import Riescue.Expander

/-! One step of expansion: what stands before the action in its place reads no value that is not defined yet, and has
ids of its own. -/

namespace Riescue.Expander
open TestPlan Expansion
open PrivilegeBlocks (Mode MarkerType)

variable {env : Environment} {base : IdTracker} {old : String → Bool}

/-! ### Names that are known -/

/-- The created values among the names are defined. -/
def Known (base : IdTracker) (defs names : List String) : Prop := ∀ id ∈ names, CreatedValue base id → id ∈ defs

/-- Every action reads only values that are defined before it. -/
def DefinedFrom (base : IdTracker) : List String → List Action → Prop
  | _, [] => True
  | defs, action :: rest => Known base defs action.operands ∧ DefinedFrom base (action.stepId :: defs) rest

section Known
variable {defs defs' names names' : List String} {actions left right : List Action}

theorem Known.mono (h : Known base defs names) (hsub : defs ⊆ defs') : Known base defs' names :=
  fun id hid hcreated => hsub (h id hid hcreated)

theorem Known.append (h : Known base defs names) (h' : Known base defs names') : Known base defs (names ++ names') :=
  fun id hid => (List.mem_append.mp hid).elim (h id) (h' id)

theorem known_append : Known base defs (names ++ names') ↔ Known base defs names ∧ Known base defs names' :=
  ⟨fun h => ⟨fun id hid => h id (List.mem_append_left _ hid), fun id hid => h id (List.mem_append_right _ hid)⟩,
    fun h => h.1.append h.2⟩

theorem known_nil : Known base defs [] := fun _ hid => absurd hid List.not_mem_nil

theorem known_singleton {id : String} (h : id ∈ defs) : Known base defs [id] :=
  fun _ hid _ => List.mem_singleton.mp hid ▸ h

theorem DefinedFrom.mono (h : DefinedFrom base defs actions) (hsub : defs ⊆ defs') : DefinedFrom base defs' actions := by
  induction actions generalizing defs defs' with
  | nil => trivial
  | cons action rest ih => exact ⟨h.1.mono hsub, ih h.2 (List.cons_subset_cons _ hsub)⟩

theorem definedFrom_append :
    DefinedFrom base defs (left ++ right) ↔
      DefinedFrom base defs left ∧ DefinedFrom base (left.map Action.stepId ++ defs) right := by
  induction left generalizing defs with
  | nil => exact (and_iff_right trivial).symm
  | cons action rest ih =>
      have hperm : ∀ ids : List String, DefinedFrom base (ids ++ action.stepId :: defs) right ↔
          DefinedFrom base (action.stepId :: ids ++ defs) right := fun ids =>
        ⟨fun h => h.mono (List.perm_middle.subset), fun h => h.mono (List.perm_middle.symm.subset)⟩
      rw [List.cons_append, DefinedFrom, ih, DefinedFrom, and_assoc, List.map_cons, hperm]

/-- What the definition order says of a position. -/
theorem DefinedFrom.at (h : DefinedFrom base [] actions) {before after : List Action} {action : Action}
    (hsplit : actions = before ++ action :: after) : Known base (before.map Action.stepId) action.operands := by
  subst hsplit
  have hself := (definedFrom_append.mp h).2.1
  rwa [List.append_nil] at hself

end Known

/-! ### Fresh ids -/

/-- The counters are past those that the run has started with, and no page has the name of a value. -/
structure Later (base : IdTracker) (ctx : LoweringContext) : Prop where
  count : ∀ kind, base.count kind ≤ ctx.ids.count kind
  pages : ∀ page ∈ ctx.pages, ∀ n, page ≠ IdKind.value.id n

/-- An id that an action made by the expansion can have. -/
def Fresh (base : IdTracker) (id : String) : Prop := ¬base.Spent id

section Later
variable {ctx : LoweringContext}

theorem Later.newValueId (h : Later base ctx) :
    Later base ctx.newValueId.2 ∧ Fresh base ctx.newValueId.1 ∧ ∃ n, ctx.newValueId.1 = IdKind.value.id n := by
  refine ⟨⟨fun kind => Nat.le_trans (h.count kind) (IdTracker.count_newId .value kind), h.pages⟩, ?_, _, rfl⟩
  rintro ⟨kind, n, hlt, heq⟩
  obtain ⟨rfl, rfl⟩ := IdKind.id_injective (@IdTracker.newId_id ctx.ids .value ▸ heq)
  exact Nat.lt_irrefl _ (Nat.lt_of_lt_of_le hlt (h.count .value))

theorem Later.newLabel (h : Later base ctx) : Later base ctx.newLabel.2 ∧ Fresh base ctx.newLabel.1 := by
  refine ⟨⟨fun kind => Nat.le_trans (h.count kind) (by cases kind <;> exact Nat.le_refl _), h.pages⟩, ?_⟩
  rintro ⟨kind, n, -, heq⟩
  have hlist := congrArg String.toList heq
  rw [IdKind.id_toList] at hlist
  cases kind <;> simp [LoweringContext.newLabel, String.toList_append] at hlist

theorem Later.uniqueLabel (h : Later base ctx) (name : String) : Later base (ctx.uniqueLabel name).2 :=
  ⟨fun kind => Nat.le_trans (h.count kind) (by cases kind <;> exact Nat.le_refl _), h.pages⟩

theorem Later.rng (h : Later base ctx) (rng : RandNum) : Later base { ctx with rng } := ⟨h.count, h.pages⟩

theorem Later.randomNWidthNumber (h : Later base ctx) (n minVal : ℕ) :
    Later base (ctx.randomNWidthNumber n minVal).2 := ⟨h.count, h.pages⟩

theorem Later.newPage (h : Later base ctx) : Later base ctx.newPage.2 := by
  refine ⟨fun kind => Nat.le_trans (h.count kind) (IdTracker.count_newId .memory kind), fun page hpage n heq => ?_⟩
  rcases List.mem_cons.mp hpage with rfl | hpage
  · obtain ⟨hkind, -⟩ := IdKind.id_injective heq
    cases hkind
  · exact h.pages page hpage n heq

end Later

/-! ### Loading operands -/

/-- Leaves as actions. -/
def asActions (leaves : List Leaf) : List Action := leaves.map .leaf

@[simp] theorem asActions_append (left right : List Leaf) : asActions (left ++ right) = asActions left ++ asActions right :=
  List.map_append

/-- New actions that make known names of the new operands from known names of the old ones. -/
structure Loads (base : IdTracker) (operands : List String) (created : List Leaf) (operands' : List String) : Prop where
  fresh : ∀ leaf ∈ created, Fresh base leaf.stepId ∧ leaf.dropped = false
  defined : ∀ defs, Known base defs operands → DefinedFrom base defs (asActions created) ∧
    Known base (created.map Leaf.stepId ++ defs) operands'

theorem map_stepId_asActions (leaves : List Leaf) : (asActions leaves).map Action.stepId = leaves.map Leaf.stepId := by
  rw [asActions, List.map_map]
  rfl

namespace Loads
variable {operands operands' operands'' rest : List String} {created created' : List Leaf}

theorem refl : Loads base operands [] operands :=
  ⟨fun _ hleaf => absurd hleaf List.not_mem_nil, fun _ hknown => ⟨trivial, hknown⟩⟩

theorem of_subset (h : operands' ⊆ operands) : Loads base operands [] operands' :=
  ⟨fun _ hleaf => absurd hleaf List.not_mem_nil, fun _ hknown => ⟨trivial, fun id hid => hknown id (h hid)⟩⟩

theorem trans (h : Loads base operands created operands') (h' : Loads base operands' created' operands'') :
    Loads base operands (created ++ created') operands'' := by
  refine ⟨fun leaf hleaf => (List.mem_append.mp hleaf).elim (h.fresh leaf) (h'.fresh leaf), fun defs hknown => ?_⟩
  obtain ⟨hfirst, hmid⟩ := h.defined defs hknown
  obtain ⟨hsecond, hlast⟩ := h'.defined _ hmid
  refine ⟨?_, ?_⟩
  · rw [asActions_append, definedFrom_append, map_stepId_asActions]
    exact ⟨hfirst, hsecond⟩
  · refine hlast.mono fun id hid => ?_
    rw [List.map_append, List.append_assoc]
    simp only [List.mem_append] at hid ⊢
    tauto

/-- Operands that are not loaded. -/
theorem frame (h : Loads base operands created operands') : Loads base (operands ++ rest) created (operands' ++ rest) := by
  refine ⟨h.fresh, fun defs hknown => ?_⟩
  obtain ⟨hoperands, hrest⟩ := known_append.mp hknown
  obtain ⟨hdefined, hknown'⟩ := h.defined defs hoperands
  exact ⟨hdefined, hknown'.append (hrest.mono (List.subset_append_right _ _))⟩

theorem frame_left (h : Loads base operands created operands') :
    Loads base (rest ++ operands) created (rest ++ operands') := by
  refine ⟨h.fresh, fun defs hknown => ?_⟩
  obtain ⟨hrest, hoperands⟩ := known_append.mp hknown
  obtain ⟨hdefined, hknown'⟩ := h.defined defs hoperands
  exact ⟨hdefined, (hrest.mono (List.subset_append_right _ _)).append hknown'⟩

/-- One new action that defines the new operand. -/
theorem single {leaf : Leaf} (hfresh : Fresh base leaf.stepId) (hdropped : leaf.dropped = false)
    (hoperands : leaf.operands ⊆ operands) : Loads base operands [leaf] [leaf.stepId] := by
  refine ⟨fun other hother => ?_, fun defs hknown => ⟨⟨fun id hid => hknown id (hoperands hid), trivial⟩, ?_⟩⟩
  · obtain rfl := List.mem_singleton.mp hother
    exact ⟨hfresh, hdropped⟩
  · exact known_singleton (List.mem_cons_self ..)

end Loads

section Helpers
variable {ctx ctx' : LoweringContext}

theorem loadLabel_spec (h : Later base ctx) (label : String) (register : Option String) :
    Later base (loadLabel label register ctx).2.2 ∧
      Loads base register.toList (loadLabel label register ctx).1 (loadLabel label register ctx).2.1.toList := by
  unfold loadLabel
  split_ifs
  · obtain ⟨hlater, hfresh, -⟩ := h.newValueId
    exact ⟨hlater, .single hfresh rfl (List.nil_subset _)⟩
  · exact ⟨h, .refl⟩

theorem addOffset_spec (h : Later base ctx) (offset : ℤ) (fits : Bool) (register : Option String) :
    Later base (addOffset offset fits register ctx).2.2.2 ∧
      Loads base register.toList (addOffset offset fits register ctx).1
        (addOffset offset fits register ctx).2.1.toList := by
  unfold addOffset
  split_ifs
  · exact ⟨h, .refl⟩
  · obtain ⟨hlater, hfresh, -⟩ := h.newValueId
    obtain ⟨hlater', hfresh', -⟩ := hlater.newValueId
    refine ⟨hlater', ?_⟩
    have hli : Loads base register.toList [.li ctx.newValueId.1 (.int offset)]
        (register.toList ++ [ctx.newValueId.1]) := by
      have hsingle : Loads base [] [.li ctx.newValueId.1 (.int offset)] [ctx.newValueId.1] :=
        .single hfresh rfl (List.nil_subset _)
      have hframe : Loads base (register.toList ++ []) _ (register.toList ++ _) := hsingle.frame_left
      rwa [List.append_nil] at hframe
    exact hli.trans (.single hfresh' rfl (List.Subset.refl _))

theorem loadValue_spec (h : Later base ctx) (value : Operand) :
    Later base (loadValue value ctx).2.2 ∧
      Loads base value.names (loadValue value ctx).1 (loadValue value ctx).2.1.names := by
  cases value with
  | int value =>
      obtain ⟨hlater, hfresh, -⟩ := h.newValueId
      exact ⟨hlater, .single hfresh rfl (List.nil_subset _)⟩
  | _ => exact ⟨h, .refl⟩

theorem loadSource_spec (h : Later base ctx) (src : Option String) :
    Later base (loadSource src ctx).2.2 ∧
      Loads base src.toList (loadSource src ctx).1 (loadSource src ctx).2.1.toList := by
  cases src with
  | none => exact ⟨h, .refl⟩
  | some label => exact loadLabel_spec h label (some label)

end Helpers

/-! ### One action -/

/-- The list of actions takes the place of another one: it has the old ids in the same order, reads nothing that is
not defined yet, and still defines all that the other one does. -/
structure Refines (base : IdTracker) (old : String → Bool) (actions actions' : List Action) : Prop where
  ids : (actions'.map Action.stepId).filter old = (actions.map Action.stepId).filter old
  defined : ∀ defs, DefinedFrom base defs actions → DefinedFrom base defs actions'
  subset : actions.map Action.stepId ⊆ actions'.map Action.stepId

namespace Refines
variable {actions actions' actions'' left left' right right' : List Action}

theorem refl : Refines base old actions actions := ⟨rfl, fun _ h => h, List.Subset.refl _⟩

theorem trans (h : Refines base old actions actions') (h' : Refines base old actions' actions'') :
    Refines base old actions actions'' :=
  ⟨h'.ids.trans h.ids, fun defs hdefined => h'.defined defs (h.defined defs hdefined), List.Subset.trans h.subset h'.subset⟩

theorem append (h : Refines base old left left') (h' : Refines base old right right') :
    Refines base old (left ++ right) (left' ++ right') := by
  refine ⟨?_, fun defs hdefined => ?_, ?_⟩
  · rw [List.map_append, List.map_append, List.filter_append, List.filter_append, h.ids, h'.ids]
  · rw [definedFrom_append] at hdefined ⊢
    refine ⟨h.defined defs hdefined.1, (h'.defined _ hdefined.2).mono fun id hid => ?_⟩
    exact (List.mem_append.mp hid).elim (fun hid => List.mem_append_left _ (h.subset hid)) (List.mem_append_right _)
  · rw [List.map_append, List.map_append]
    exact List.append_subset.mpr
      ⟨List.subset_append_of_subset_left _ h.subset, List.subset_append_of_subset_right _ h'.subset⟩

/-- New actions that read nothing new. -/
theorem of_fresh (hold : ∀ id, old id = true → base.Spent id) (hfresh : ∀ action ∈ actions, Fresh base action.stepId)
    (hdefined : ∀ defs, DefinedFrom base defs actions) : Refines base old [] actions := by
  refine ⟨?_, fun defs _ => hdefined defs, List.nil_subset _⟩
  refine (List.filter_eq_nil_iff.mpr fun id hid hspent => ?_).trans rfl
  obtain ⟨action, haction, rfl⟩ := List.mem_map.mp hid
  exact hfresh action haction (hold _ hspent)

/-- The action is kept after new ones that load its operands. -/
theorem of_loads (hold : ∀ id, old id = true → base.Spent id) {leaf leaf' : Leaf} {created : List Leaf}
    (hid : leaf'.stepId = leaf.stepId) (h : Loads base leaf.operands created leaf'.operands) :
    Refines base old [.leaf leaf] (asActions (created ++ [leaf'])) := by
  have hcreated : (created.map Leaf.stepId).filter old = [] := by
    refine List.filter_eq_nil_iff.mpr fun id hid hspent => ?_
    obtain ⟨other, hother, rfl⟩ := List.mem_map.mp hid
    exact (h.fresh other hother).1 (hold _ hspent)
  refine ⟨?_, fun defs hdefined => ?_, ?_⟩
  · rw [map_stepId_asActions, List.map_append, List.filter_append, hcreated, List.nil_append, List.map_singleton, hid]
    rfl
  · obtain ⟨hloads, hknown⟩ := h.defined defs hdefined.1
    rw [asActions_append, definedFrom_append, map_stepId_asActions]
    exact ⟨hloads, hknown, trivial⟩
  · rw [map_stepId_asActions]
    intro id hmem
    rw [List.mem_singleton.mp hmem]
    exact List.mem_map.mpr ⟨leaf', List.mem_append_right _ (List.mem_singleton_self _), hid⟩

end Refines

/-- The leaves that are not dropped. -/
def keptLeaves (leaves : List Leaf) : List Action := asActions (leaves.filter fun leaf => !leaf.dropped)

theorem keptLeaves_of_loads {operands operands' : List String} {created : List Leaf} {leaf : Leaf}
    (h : Loads base operands created operands') (hleaf : leaf.dropped = false) :
    keptLeaves (created ++ [leaf]) = asActions (created ++ [leaf]) := by
  refine congrArg asActions (List.filter_eq_self.mpr fun other hother => ?_)
  rcases List.mem_append.mp hother with hother | hother
  · rw [(h.fresh other hother).2]
    rfl
  · rw [List.mem_singleton.mp hother, hleaf]
    rfl

theorem prepended_spec (hold : ∀ id, old id = true → base.Spent id) {leaf leaf' : Leaf} {created : List Leaf}
    (hid : leaf'.stepId = leaf.stepId) (hdropped : leaf'.dropped = false)
    (h : Loads base leaf.operands created leaf'.operands) :
    Refines base old [.leaf leaf] (keptLeaves (prepended created leaf').items) := by
  unfold prepended
  have hrefines := Refines.of_loads hold hid h
  rw [← keptLeaves_of_loads h hdropped] at hrefines
  split_ifs with hnil
  · rw [hnil] at hrefines
    exact hrefines
  · exact hrefines

/-! ### The classes without code -/

/-- What a step of a leaf does to it. -/
structure LeafStep (base : IdTracker) (old : String → Bool) (leaf : Leaf) (result : Outcome Leaf × LoweringContext) :
    Prop where
  later : Later base result.2
  refines : Refines base old (keptLeaves [leaf]) (keptLeaves result.1.items)
  kept : ∀ kept, result.1 = .keep kept → kept.dropped = false

theorem keptLeaves_singleton {leaf : Leaf} (h : leaf.dropped = false) : keptLeaves [leaf] = [.leaf leaf] := by
  simp [keptLeaves, asActions, h]

theorem leafStep_keep {leaf : Leaf} {ctx : LoweringContext} (hdropped : leaf.dropped = false) (h : Later base ctx) :
    LeafStep base old leaf (.keep leaf, ctx) :=
  ⟨h, .refl, fun kept hkept => by obtain rfl := Outcome.keep.inj hkept; exact hdropped⟩

section Leaves
variable {ctx : LoweringContext} (hold : ∀ id, old id = true → base.Spent id)
include hold

theorem leafStep_prepended {leaf leaf' : Leaf} {created : List Leaf} (hkept : leaf.dropped = false)
    (hlater : Later base ctx) (hid : leaf'.stepId = leaf.stepId) (hdropped : leaf'.dropped = false)
    (hloads : Loads base leaf.operands created leaf'.operands) :
    LeafStep base old leaf (prepended created leaf', ctx) := by
  refine ⟨hlater, ?_, fun kept hkept => ?_⟩
  · rw [keptLeaves_singleton hkept]
    exact prepended_spec hold hid hdropped hloads
  · dsimp only [prepended] at hkept
    split_ifs at hkept
    obtain rfl := Outcome.keep.inj hkept
    exact hdropped

/-- A replacement that ends with the action itself. -/
theorem leafStep_replace {leaf leaf' : Leaf} {created : List Leaf} (hkept : leaf.dropped = false)
    (hlater : Later base ctx) (hid : leaf'.stepId = leaf.stepId) (hdropped : leaf'.dropped = false)
    (hloads : Loads base leaf.operands created leaf'.operands) :
    LeafStep base old leaf (.replace (created ++ [leaf']), ctx) := by
  refine ⟨hlater, ?_, fun kept hkept => nomatch hkept⟩
  have hitems : (Outcome.replace (created ++ [leaf'])).items = created ++ [leaf'] := rfl
  rw [keptLeaves_singleton hkept, hitems, keptLeaves_of_loads hloads hdropped]
  exact Refines.of_loads hold hid hloads

/-- The expansion that leaves the action out. -/
theorem leafStep_dropped {leaf : Leaf} (hdropped : leaf.dropped = true) (h : Later base ctx) :
    LeafStep base old leaf
      (.replace [.li ctx.newPage.2.newValueId.1 (.str ctx.newPage.1)], ctx.newPage.2.newValueId.2) := by
  obtain ⟨hlater, hfresh, -⟩ := h.newPage.newValueId
  refine ⟨hlater, ?_, fun kept hkept => nomatch hkept⟩
  have hnil : keptLeaves [leaf] = [] := by simp [keptLeaves, asActions, hdropped]
  rw [hnil]
  refine .of_fresh hold (fun action haction => ?_) fun defs => ⟨known_nil, trivial⟩
  obtain rfl : action = .leaf (.li ctx.newPage.2.newValueId.1 (.str ctx.newPage.1)) := List.mem_singleton.mp haction
  exact hfresh

theorem LoadAction.expand_spec (action : LoadAction) (h : Later base ctx) :
    LeafStep base old (.load action) (action.expand ctx) := by
  unfold LoadAction.expand
  cases hexpanded : action.expanded with
  | true => exact leafStep_keep (by simp [Leaf.dropped, hexpanded]) h
  | false =>
      cases hmemory : action.memory with
      | none => exact leafStep_dropped hold (by simp [Leaf.dropped, hexpanded, hmemory]) h
      | some memory =>
          obtain ⟨hlater, hloads⟩ := loadLabel_spec h memory action.rs1
          obtain ⟨hlater', hadds⟩ := addOffset_spec hlater action.offset (fitsOffset action.offset)
            (loadLabel memory action.rs1 ctx).2.1
          exact leafStep_prepended hold (by simp [Leaf.dropped, hmemory]) hlater' rfl
            (by simp [Leaf.dropped]) (hloads.trans hadds)

theorem StoreAction.expand_spec (action : StoreAction) (h : Later base ctx) :
    LeafStep base old (.store action) (action.expand ctx) := by
  unfold StoreAction.expand
  cases hexpanded : action.expanded with
  | true => exact leafStep_keep (by simp [Leaf.dropped, hexpanded]) h
  | false =>
      cases hmemory : action.memory with
      | none => exact leafStep_dropped hold (by simp [Leaf.dropped, hexpanded, hmemory]) h
      | some label =>
          obtain ⟨hlater, hloads⟩ := loadLabel_spec h label (some label)
          obtain ⟨hlater', hadds⟩ := addOffset_spec hlater action.offset (fitsOffset action.offset)
            (loadLabel label (some label) ctx).2.1
          obtain ⟨hlater'', hvalues⟩ := loadValue_spec hlater' action.value
          refine leafStep_prepended hold (by simp [Leaf.dropped, hmemory]) hlater'' rfl (by simp [Leaf.dropped]) ?_
          change Loads base (action.memory.toList ++ action.value.names) _ _
          rw [hmemory]
          exact (hloads.trans hadds).frame.trans hvalues.frame_left

theorem MemAccessAction.expand_spec (action : MemAccessAction) (h : Later base ctx) :
    LeafStep base old (.memAccess action) (action.expand ctx) := by
  unfold MemAccessAction.expand
  cases hexpanded : action.expanded with
  | true => exact leafStep_keep (by simp [Leaf.dropped, hexpanded]) h
  | false =>
      cases hmemory : action.memory with
      | none => exact leafStep_dropped hold (by simp [Leaf.dropped, hexpanded, hmemory]) h
      | some memory =>
          obtain ⟨hlater, hloads⟩ := loadLabel_spec h memory action.rs1
          obtain ⟨hlater', hadds⟩ := addOffset_spec hlater action.offset
            (fitsOffset action.offset && action.hasImmediate) (loadLabel memory action.rs1 ctx).2.1
          by_cases hzero : action.rs2 = .int 0
          · simp only [hzero, if_true]
            refine leafStep_prepended hold (by simp [Leaf.dropped, hmemory]) hlater' rfl (by simp [Leaf.dropped]) ?_
            change Loads base (action.rs1.toList ++ action.rs2.names) _ _
            rw [List.append_nil, hzero]
            exact (hloads.trans hadds).frame
          · simp only [hzero, if_false]
            obtain ⟨hlater'', hvalues⟩ := loadValue_spec hlater' action.rs2
            exact leafStep_prepended hold (by simp [Leaf.dropped, hmemory]) hlater'' rfl (by simp [Leaf.dropped])
              ((hloads.trans hadds).frame.trans hvalues.frame_left)

theorem HypervisorAction.expand_spec (action : HypervisorAction) (h : Later base ctx) :
    LeafStep base old (.hypervisor action) (action.expand ctx) := by
  unfold HypervisorAction.expand
  cases hexpanded : action.expanded with
  | true => exact leafStep_keep rfl h
  | false =>
      cases hmemory : action.memory with
      | none =>
          obtain ⟨hlater, hfresh, -⟩ := h.newPage.newValueId
          have hli : Loads base action.rs1.toList [.li ctx.newPage.2.newValueId.1 (.str ctx.newPage.1)]
              [ctx.newPage.2.newValueId.1] := .single hfresh rfl (List.nil_subset _)
          exact @leafStep_replace base old _ hold (.hypervisor action) _ [_] rfl hlater rfl rfl hli.frame
      | some memory =>
          obtain ⟨hlater, hloads⟩ := loadLabel_spec h memory action.rs1
          exact leafStep_prepended hold rfl hlater rfl rfl hloads.frame

theorem ArithmeticAction.expand_spec {wrap : ArithmeticAction → Leaf} (hid : ∀ action, (wrap action).stepId = action.stepId)
    (hdropped : ∀ action, (wrap action).dropped = false)
    (hoperands : ∀ action, (wrap action).operands = action.src1.toList ++ action.src2.toList)
    (action : ArithmeticAction) (h : Later base ctx) :
    LeafStep base old (wrap action) (action.expand wrap ctx) := by
  unfold ArithmeticAction.expand
  obtain ⟨hlater, hloads⟩ := loadSource_spec h action.src1
  obtain ⟨hlater', hloads'⟩ := loadSource_spec hlater action.src2
  refine leafStep_prepended hold (hdropped _) hlater' (by rw [hid, hid]) (hdropped _) ?_
  rw [hoperands, hoperands]
  exact hloads.frame.trans hloads'.frame_left

theorem CsrReadAction.expand_spec (action : CsrReadAction) (h : Later base ctx) :
    LeafStep base old (.csrRead action) (action.expand env ctx) := by
  unfold CsrReadAction.expand
  split_ifs
  · exact leafStep_keep rfl h
  · exact @leafStep_prepended base old ctx hold (.csrRead action) (.csrRead { action with expanded := true }) [] rfl h
      rfl rfl .refl
  · obtain ⟨hlater, hfresh, -⟩ := h.newValueId
    have hread : Loads base [] [.csrApiRead ctx.newValueId.1 action.csrName action.directRead] [ctx.newValueId.1] :=
      .single hfresh rfl (List.nil_subset _)
    exact @leafStep_replace base old _ hold (.csrRead action) (.mvFromT2 action.stepId _) [_] rfl hlater rfl rfl hread

/-- The write of a value that is not in a register yet. -/
theorem csrWrite_value (action : CsrWriteAction) (apiAccess : Bool) (value : ℤ) (h : Later base ctx) :
    LeafStep base old (.csrWrite action)
      (if 32 ≤ value ∨ apiAccess then
        (.replace [if apiAccess then .liT2 ctx.newValueId.1 (.int value) else .li ctx.newValueId.1 (.int value),
          .csrWrite { action with writeValue := some value, src := some ctx.newValueId.1, expanded := true }],
          ctx.newValueId.2)
      else (.replace [.csrWrite { action with writeValue := some value, src := none, expanded := true }], ctx)) := by
  obtain ⟨hlater, hfresh, -⟩ := h.newValueId
  split_ifs with hload hapi
  · have hli : Loads base action.src.toList [.liT2 ctx.newValueId.1 (.int value)] [ctx.newValueId.1] :=
      .single hfresh rfl (List.nil_subset _)
    exact @leafStep_replace base old _ hold (.csrWrite action) _ [_] rfl hlater rfl rfl hli
  · have hli : Loads base action.src.toList [.li ctx.newValueId.1 (.int value)] [ctx.newValueId.1] :=
      .single hfresh rfl (List.nil_subset _)
    exact @leafStep_replace base old _ hold (.csrWrite action) _ [_] rfl hlater rfl rfl hli
  · exact @leafStep_replace base old _ hold (.csrWrite action)
      (.csrWrite { action with writeValue := some value, src := none, expanded := true }) [] rfl h rfl rfl
      (.of_subset (List.nil_subset _))

theorem CsrWriteAction.expand_spec (action : CsrWriteAction) (h : Later base ctx) :
    LeafStep base old (.csrWrite action) (action.expand env ctx) := by
  unfold CsrWriteAction.expand
  cases hexpanded : action.expanded with
  | true => exact leafStep_keep rfl h
  | false =>
      cases hsrc : action.src with
      | some src =>
          cases hapi : writeApiAccess env action.csrName with
          | false =>
              exact @leafStep_replace base old ctx hold (.csrWrite action)
                (.csrWrite { action with src := some src, expanded := true }) [] rfl h rfl rfl
                (.of_subset (by simp [Leaf.operands, hsrc]))
          | true =>
              obtain ⟨hlater, hfresh, -⟩ := h.newValueId
              have hmove : Loads base action.src.toList [.mvT2 ⟨ctx.newValueId.1, none, some src, none, none⟩]
                  [ctx.newValueId.1] := .single hfresh rfl (by simp [Leaf.operands, hsrc])
              exact @leafStep_replace base old _ hold (.csrWrite action) _ [_] rfl hlater rfl rfl hmove
      | none =>
          cases action.writeValue with
          | some value => exact csrWrite_value hold action (writeApiAccess env action.csrName) value h
          | none =>
              exact csrWrite_value hold action (writeApiAccess env action.csrName) _ (h.randomNWidthNumber 32 2)

/-- The access to a CSR that is chosen already. -/
theorem csrDirectAccess_chosen (action : CsrDirectAccessAction) (csrName : CsrName) (h : Later base ctx) :
    LeafStep base old (.csrDirectAccess action)
      (match action.srcValue, action.isImmediateOp with
      | some value, false =>
          (.replace [.li ctx.newValueId.1 (.int value), .csrDirectAccess
            { action with csrName := some csrName, src := some ctx.newValueId.1, srcValue := none, expanded := true }],
            ctx.newValueId.2)
      | _, _ => (.replace [.csrDirectAccess { action with csrName := some csrName, expanded := true }], ctx)) := by
  split
  · rename_i value _ _
    obtain ⟨hlater, hfresh, -⟩ := h.newValueId
    have hli : Loads base action.src.toList [.li ctx.newValueId.1 (.int value)] [ctx.newValueId.1] :=
      .single hfresh rfl (List.nil_subset _)
    exact @leafStep_replace base old _ hold (.csrDirectAccess action) _ [_] rfl hlater rfl rfl hli
  · exact @leafStep_replace base old _ hold (.csrDirectAccess action)
      (.csrDirectAccess { action with csrName := some csrName, expanded := true }) [] rfl h rfl rfl .refl

theorem CsrDirectAccessAction.expand_spec (action : CsrDirectAccessAction) (h : Later base ctx) :
    LeafStep base old (.csrDirectAccess action) (action.expand env ctx) := by
  unfold CsrDirectAccessAction.expand
  cases hexpanded : action.expanded with
  | true => exact leafStep_keep rfl h
  | false =>
      cases action.csrName with
      | some csrName => exact csrDirectAccess_chosen hold action csrName h
      | none => exact csrDirectAccess_chosen hold action _ (h.rng _)

theorem WriteTriggerCsrAction.expand_spec (action : WriteTriggerCsrAction) (h : Later base ctx) :
    LeafStep base old (.writeTriggerCsr action) (action.expand ctx) := by
  unfold WriteTriggerCsrAction.expand
  split_ifs with hexpanded
  · exact leafStep_keep rfl h
  · cases hsrc : action.src with
    | some src =>
        exact @leafStep_replace base old ctx hold (.writeTriggerCsr action)
          (.writeTriggerCsr { action with src := some src, expanded := true }) [] rfl h rfl rfl
          (.of_subset (by simp [Leaf.operands, hsrc]))
    | none =>
        obtain ⟨hlater, hfresh, -⟩ := h.newValueId
        have hli : Loads base action.src.toList [.liT2 ctx.newValueId.1 (.int (action.writeValue.getD 0))]
            [ctx.newValueId.1] := .single hfresh rfl (List.nil_subset _)
        exact @leafStep_replace base old _ hold (.writeTriggerCsr action) _ [_] rfl hlater rfl rfl hli

/-- A replacement that starts with the action itself. -/
theorem leafStep_before {leaf leaf' : Leaf} {after : List Leaf} (hkept : leaf.dropped = false) (hlater : Later base ctx)
    (hid : leaf'.stepId = leaf.stepId) (hdropped : leaf'.dropped = false) (hoperands : leaf'.operands ⊆ leaf.operands)
    (hfresh : ∀ other ∈ after, Fresh base other.stepId ∧ other.dropped = false)
    (hdefined : ∀ defs, Known base defs leaf.operands → DefinedFrom base defs (asActions after)) :
    LeafStep base old leaf (.replace (leaf' :: after), ctx) := by
  refine ⟨hlater, ?_, fun kept hkept => nomatch hkept⟩
  have hall : keptLeaves (Outcome.replace (leaf' :: after)).items = asActions (leaf' :: after) := by
    refine congrArg asActions (List.filter_eq_self.mpr fun other hother => ?_)
    rcases List.mem_cons.mp hother with rfl | hother
    · rw [hdropped]
      rfl
    · rw [(hfresh other hother).2]
      rfl
  rw [keptLeaves_singleton hkept, hall]
  have hself : Refines base old [.leaf leaf] (asActions ([] ++ [leaf'])) := .of_loads hold hid (.of_subset hoperands)
  refine ⟨?_, fun defs hknown => ⟨fun id hmem => hknown.1 id (hoperands hmem), ?_⟩, fun id hmem => ?_⟩
  · have hnil : (after.map Leaf.stepId).filter old = [] := by
      refine List.filter_eq_nil_iff.mpr fun id hmem hspent => ?_
      obtain ⟨other, hother, rfl⟩ := List.mem_map.mp hmem
      exact (hfresh other hother).1 (hold _ hspent)
    rw [map_stepId_asActions, List.map_cons, ← List.singleton_append, List.filter_append, hnil, List.append_nil]
    exact hself.ids
  · exact (hdefined defs hknown.1).mono (List.subset_cons_self _ _)
  · rw [List.mem_singleton.mp hmem, map_stepId_asActions]
    exact List.mem_map.mpr ⟨leaf', List.mem_cons_self .., hid⟩

theorem expand_assertFetchException (stepId target : String) (excpReturnLabel : Option String) (h : Later base ctx) :
    LeafStep base old (.assertFetchException stepId target excpReturnLabel false)
      ((Leaf.assertFetchException stepId target excpReturnLabel false).expand env ctx) := by
  obtain ⟨hpc, hpcFresh, -⟩ := (h.uniqueLabel "fetch_excp_return_label").newValueId
  by_cases hlabel : ((ctx.uniqueLabel "fetch_excp_return_label").2.newValueId.2).isMemoryLabel target = true
  · obtain ⟨htarget, htargetFresh, -⟩ := hpc.newValueId
    obtain ⟨hsd, hsdFresh, -⟩ := htarget.newValueId
    obtain ⟨hcall, hcallFresh, -⟩ := hsd.newValueId
    obtain ⟨hjump, hjumpFresh, -⟩ := hcall.newValueId
    obtain ⟨hreturn, hreturnFresh⟩ := hjump.newLabel
    simp only [Leaf.expand, loadLabel, hlabel, if_true]
    refine leafStep_before hold rfl hreturn rfl rfl (List.Subset.refl _) ?_ fun defs hknown => ?_
    · simp [Leaf.stepId, Leaf.dropped, hpcFresh, htargetFresh, hsdFresh, hcallFresh, hjumpFresh, hreturnFresh]
    · simp [asActions, DefinedFrom, Known, Action.operands, Leaf.operands, Action.stepId, Leaf.stepId]
  · obtain ⟨hsd, hsdFresh, -⟩ := hpc.newValueId
    obtain ⟨hcall, hcallFresh, -⟩ := hsd.newValueId
    obtain ⟨hjump, hjumpFresh, -⟩ := hcall.newValueId
    obtain ⟨hreturn, hreturnFresh⟩ := hjump.newLabel
    simp only [Leaf.expand, loadLabel, hlabel]
    refine leafStep_before hold rfl hreturn rfl rfl (List.Subset.refl _) ?_ fun defs hknown => ?_
    · simp [Leaf.stepId, Leaf.dropped, hpcFresh, hsdFresh, hcallFresh, hjumpFresh, hreturnFresh]
    · have htarget : CreatedValue base target → target ∈ defs := hknown target (List.mem_singleton_self _)
      simp [asActions, DefinedFrom, Known, Action.operands, Leaf.operands, Action.stepId, Leaf.stepId]
      tauto

/-- One step of a leaf. -/
theorem Leaf.expand_spec (leaf : Leaf) (h : Later base ctx) : LeafStep base old leaf (leaf.expand env ctx) := by
  cases leaf with
  | load action => exact action.expand_spec hold h
  | store action => exact action.expand_spec hold h
  | memAccess action => exact action.expand_spec hold h
  | hypervisor action => exact action.expand_spec hold h
  | arithmetic action => exact ArithmeticAction.expand_spec hold (fun _ => rfl) (fun _ => rfl) (fun _ => rfl) action h
  | mvT2 action => exact ArithmeticAction.expand_spec hold (fun _ => rfl) (fun _ => rfl) (fun _ => rfl) action h
  | csrRead action => exact action.expand_spec hold h
  | csrWrite action => exact action.expand_spec hold h
  | csrDirectAccess action => exact action.expand_spec hold h
  | writeTriggerCsr action => exact action.expand_spec hold h
  | call stepId target rs1 expanded =>
      cases expanded with
      | true => exact leafStep_keep rfl h
      | false =>
          rw [Leaf.expand]
          split_ifs
          · obtain ⟨hlater, hfresh, -⟩ := h.newValueId
            have hli : Loads base [target] [.li ctx.newValueId.1 (.str target)] [ctx.newValueId.1] :=
              .single hfresh rfl (List.nil_subset _)
            exact @leafStep_replace base old _ hold (.call stepId target rs1 false) (.call stepId target _ true) [_] rfl
              hlater rfl rfl hli
          · exact @leafStep_replace base old _ hold (.call stepId target rs1 false)
              (.call stepId target (some target) true) [] rfl h rfl rfl .refl
  | assertEqual stepId val1 val2 passLabel expanded =>
      cases expanded with
      | true => exact leafStep_keep rfl h
      | false =>
          obtain ⟨hlabel, hlabelFresh⟩ := (h.uniqueLabel "pass_label").newLabel
          obtain ⟨hjump, hjumpFresh, -⟩ := hlabel.newValueId
          refine leafStep_before hold rfl hjump rfl rfl (List.Subset.refl _) ?_ fun defs _ => ?_
          · exact List.forall_mem_cons.mpr ⟨⟨hjumpFresh, rfl⟩, List.forall_mem_singleton.mpr ⟨hlabelFresh, rfl⟩⟩
          · exact ⟨known_nil, known_nil, trivial⟩
  | assertFetchException stepId target excpReturnLabel expanded =>
      cases expanded with
      | true => exact leafStep_keep rfl h
      | false => exact expand_assertFetchException hold stepId target excpReturnLabel h
  | writePte stepId memory src expanded =>
      cases expanded with
      | true => exact leafStep_keep rfl h
      | false =>
          obtain ⟨hlater, hfresh, -⟩ := h.newValueId
          have hmove : Loads base src.toList [.mvT2 ⟨ctx.newValueId.1, none, src, none, none⟩] [ctx.newValueId.1] :=
            .single hfresh rfl (by simp [Leaf.operands])
          exact @leafStep_replace base old _ hold (.writePte stepId memory src false) (.writePte stepId memory _ true) [_]
            rfl hlater rfl rfl hmove
  | selectTrigger stepId index expanded =>
      cases expanded with
      | true => exact leafStep_keep rfl h
      | false =>
          obtain ⟨hlater, hfresh, -⟩ := h.newValueId
          have hli : Loads base [] [.liT2 ctx.newValueId.1 (.int index)] [ctx.newValueId.1] :=
            .single hfresh rfl (List.nil_subset _)
          exact @leafStep_replace base old _ hold (.selectTrigger stepId index false) (.selectTrigger stepId index true)
            [_] rfl hlater rfl rfl (hli.trans (.of_subset (List.nil_subset _)))
  | jumpToFail stepId loadFailedAddr expanded =>
      cases expanded with
      | true => exact leafStep_keep rfl h
      | false =>
          obtain ⟨hli, hliFresh, -⟩ := h.newValueId
          obtain ⟨hload, hloadFresh, -⟩ := hli.newValueId
          have haddress : Loads base loadFailedAddr.toList [.li ctx.newValueId.1 (.str "failed_addr")]
              [ctx.newValueId.1] := .single hliFresh rfl (List.nil_subset _)
          have hread : Loads base [ctx.newValueId.1] [.load ⟨ctx.newValueId.2.newValueId.1, 0, some ctx.newValueId.1,
              some ctx.newValueId.1, some (if env.regWidth = 64 then "ld" else "lw"), false⟩]
              [ctx.newValueId.2.newValueId.1] := .single hloadFresh rfl (List.Subset.refl _)
          exact @leafStep_replace base old _ hold (.jumpToFail stepId loadFailedAddr false) (.jumpToFail stepId _ true)
            [_, _] rfl hload rfl rfl (haddress.trans hread)
  | _ => exact leafStep_keep rfl h

end Leaves

end Riescue.Expander
