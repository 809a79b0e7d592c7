import Riescue.ExpanderRank

/-! What the whole expansion does: it ends, and it keeps all actions exactly when no memory access is without
memory. -/

namespace Riescue.Expander
open TestPlan Expansion
open PrivilegeBlocks (Mode MarkerType)

variable {env : Environment} {base : IdTracker} {old : String → Bool}

/-! ### Containers -/

@[simp] theorem emitters_append (left right : List Action) :
    emitters env (left ++ right) = emitters env left ++ emitters env right := by
  induction left with
  | nil => rfl
  | cons action rest ih => rw [List.cons_append, emitters, ih, emitters, List.append_assoc]

theorem shaped_append (left right : List Action) :
    Shaped env (left ++ right) ↔ Shaped env left ∧ Shaped env right := by
  induction left with
  | nil => exact (and_iff_right trivial).symm
  | cons action rest ih => rw [List.cons_append, Shaped, ih, Shaped, and_assoc]

theorem emitters_asActions (leaves : List Leaf) : emitters env (asActions leaves) = asActions leaves := by
  induction leaves with
  | nil => rfl
  | cons leaf rest ih =>
      change Action.emitters env (.leaf leaf) ++ emitters env (asActions rest) = .leaf leaf :: asActions rest
      rw [ih]
      rfl

theorem shaped_asActions (leaves : List Leaf) : Shaped env (asActions leaves) := by
  induction leaves with
  | nil => trivial
  | cons leaf rest ih => exact ⟨trivial, ih⟩

/-- The emitting actions that expansion does not drop. -/
def survivors (env : Environment) (actions : List Action) : List Action :=
  (emitters env actions).filter fun action => !action.dropped

@[simp] theorem survivors_append (left right : List Action) :
    survivors env (left ++ right) = survivors env left ++ survivors env right := by
  rw [survivors, emitters_append, List.filter_append]
  rfl

theorem survivors_asActions (leaves : List Leaf) : survivors env (asActions leaves) = keptLeaves leaves := by
  rw [survivors, emitters_asActions, keptLeaves, asActions, List.filter_map]
  rfl

mutual
noncomputable def Action.rank : Action → ℕ
  | .leaf inner => inner.rank
  | .privilegeCode action code => if action.expanded then 0 else rankAll code + 6
  | .conditionalBlock action code => if action.expanded then 0 else rankAll code + 6
  | .codePage _ expanded code => if expanded then 0 else rankAll code + 6
  | .assertException action code => if action.expanded then 0 else rankAll code + 6

noncomputable def rankAll : List Action → ℕ
  | [] => 0
  | action :: rest => max action.rank (rankAll rest)
end

theorem rank_le_rankAll {actions : List Action} {action : Action} (h : action ∈ actions) :
    action.rank ≤ rankAll actions := by
  induction actions with
  | nil => exact absurd h List.not_mem_nil
  | cons first rest ih =>
      rw [rankAll]
      rcases List.mem_cons.mp h with rfl | h
      · exact Nat.le_max_left _ _
      · exact Nat.le_trans (ih h) (Nat.le_max_right _ _)

/-- Where the items of an outcome stand to the rank of the item. -/
theorem Lowers.items_le {bound : ℕ} {outcome : Outcome Action} (h : Lowers Action.rank bound outcome) :
    ∀ item ∈ outcome.items, item.rank ≤ bound := by
  cases outcome with
  | keep kept => exact fun item hitem => List.mem_singleton.mp hitem ▸ h
  | replace items => exact fun item hitem => Nat.le_of_lt (h.2 item hitem)

/-- What one step of an action does. -/
structure ActionStep (env : Environment) (base : IdTracker) (old : String → Bool) (action : Action)
    (outcome : Outcome Action) (ctx : LoweringContext) : Prop where
  later : Later base ctx
  refines : Refines base old (survivors env [action]) (survivors env outcome.items)
  shaped : Shaped env outcome.items ↔ action.Shaped env
  lowers : Lowers Action.rank action.rank outcome
  kept : ∀ kept, outcome = .keep kept → survivors env [kept] = [kept] ∧ action.Shaped env

theorem Leaf.actionStep (hold : ∀ id, old id = true → base.Spent id) (leaf : Leaf) {ctx : LoweringContext}
    (h : Later base ctx) :
    ActionStep env base old (.leaf leaf) (ofLeaves (leaf.expand env ctx).1) (leaf.expand env ctx).2 := by
  have hstep : LeafStep base old leaf (leaf.expand env ctx) := leaf.expand_spec hold h
  have hrank : Lowers Leaf.rank leaf.rank (leaf.expand env ctx).1 := leaf.expand_rank h
  have hitems : (ofLeaves (leaf.expand env ctx).1).items = asActions (leaf.expand env ctx).1.items := by
    cases (leaf.expand env ctx).1 <;> rfl
  have hself : survivors env [.leaf leaf] = keptLeaves [leaf] := survivors_asActions [leaf]
  refine ⟨hstep.later, ?_, ?_, ?_, fun kept hkept => ?_⟩
  · rw [hitems, survivors_asActions, hself]
    exact hstep.refines
  · rw [hitems]
    exact iff_of_true (shaped_asActions _) trivial
  · generalize (leaf.expand env ctx).1 = outcome at hrank
    cases outcome with
    | keep kept => exact hrank
    | replace items =>
        refine ⟨hrank.1, fun item hitem => ?_⟩
        obtain ⟨inner, hinner, rfl⟩ := List.mem_map.mp hitem
        exact hrank.2 inner hinner
  · have hdropped := hstep.kept
    generalize (leaf.expand env ctx).1 = outcome at hdropped hkept
    cases outcome with
    | keep inner =>
        obtain rfl := Outcome.keep.inj hkept
        exact ⟨(survivors_asActions [inner]).trans (keptLeaves_singleton (hdropped inner rfl)), trivial⟩
    | replace items => cases hkept

namespace Refines
variable {actions actions' : List Action}

/-- Another action in the place of one, with its id and no operands. -/
theorem relabel {action action' : Action} (hid : action'.stepId = action.stepId) (hoperands : action'.operands = []) :
    Refines base old [action] [action'] := by
  refine ⟨by rw [List.map_singleton, List.map_singleton, hid], fun defs _ => ⟨?_, trivial⟩, ?_⟩
  · rw [hoperands]
    exact known_nil
  · rw [List.map_singleton, List.map_singleton, hid]
    exact List.Subset.refl _

theorem fresh_left (h : Refines base old actions actions') {new : List Action} (hnew : Refines base old [] new) :
    Refines base old actions (new ++ actions') := hnew.append h

theorem fresh_right (h : Refines base old actions actions') {new : List Action} (hnew : Refines base old [] new) :
    Refines base old actions (actions' ++ new) := by
  have happend := h.append hnew
  rwa [List.append_nil] at happend

end Refines

/-- New leaves without operands. -/
theorem refines_plain (hold : ∀ id, old id = true → base.Spent id) {leaves : List Leaf}
    (h : ∀ leaf ∈ leaves, Fresh base leaf.stepId ∧ leaf.operands = []) : Refines base old [] (asActions leaves) := by
  refine .of_fresh hold (fun action haction => ?_) fun defs => ?_
  · obtain ⟨leaf, hleaf, rfl⟩ := List.mem_map.mp haction
    exact (h leaf hleaf).1
  · induction leaves generalizing defs with
    | nil => trivial
    | cons leaf rest ih =>
        obtain ⟨hleaf, hrest⟩ := List.forall_mem_cons.mp h
        refine ⟨?_, ih hrest _⟩
        change Known base defs leaf.operands
        rw [hleaf.2]
        exact known_nil

/-- What the expansion of the actions of a container does. -/
structure EachStep (env : Environment) (base : IdTracker) (old : String → Bool) (code : List Action)
    (expansions : List (List Action)) (ctx : LoweringContext) : Prop where
  later : Later base ctx
  refines : Refines base old (survivors env code) (survivors env expansions.flatten)
  shaped : Shaped env expansions.flatten ↔ Shaped env code
  rank : ∀ item ∈ expansions.flatten, item.rank ≤ rankAll code
  length : expansions.length = code.length

theorem EachStep.rank_lt {code : List Action} {expansions : List (List Action)} {ctx : LoweringContext}
    (h : EachStep env base old code expansions ctx) : ∀ item ∈ expansions.flatten, item.rank < rankAll code + 6 :=
  fun item hitem => Nat.lt_of_le_of_lt (h.rank item hitem) (Nat.lt_add_of_pos_right (Nat.zero_lt_succ 5))

section Containers
variable {code middle : List Action} {expansions : List (List Action)} {ctx : LoweringContext}

/-- The actions that a container puts around its code: new, without operands, and expanded soon. -/
def Around (base : IdTracker) (leaves : List Leaf) : Prop :=
  ∀ leaf ∈ leaves, (Fresh base leaf.stepId ∧ leaf.operands = []) ∧ leaf.dropped = false ∧ leaf.rank < 6

theorem Around.survivors {leaves : List Leaf} (h : Around base leaves) :
    survivors env (asActions leaves) = asActions leaves := by
  rw [survivors_asActions]
  exact congrArg asActions (List.filter_eq_self.mpr fun leaf hleaf => by rw [(h leaf hleaf).2.1]; rfl)

/-- A container that starts with itself, marked, has its code in the middle and new actions around it. -/
theorem container_step (hold : ∀ id, old id = true → base.Spent id) {self marked : Action} {before after : List Leaf}
    (hid : marked.stepId = self.stepId) (hoperands : marked.operands = []) (hmarked : survivors env [marked] = [marked])
    (hmarkedShaped : marked.Shaped env) (hmarkedRank : marked.rank = 0)
    (hself : survivors env [self] = self :: survivors env code) (hrank : self.rank = rankAll code + 6)
    (hbefore : Around base before) (hafter : Around base after)
    (hmiddle : Refines base old (survivors env code) (survivors env middle))
    (hranks : ∀ item ∈ middle, item.rank < rankAll code + 6) :
    Refines base old (survivors env [self])
        (survivors env ([marked] ++ (asActions before ++ middle ++ asActions after))) ∧
      (Shaped env ([marked] ++ (asActions before ++ middle ++ asActions after)) ↔ Shaped env middle) ∧
      Lowers Action.rank self.rank (.replace ([marked] ++ (asActions before ++ middle ++ asActions after))) := by
  refine ⟨?_, ?_, ?_, fun item hitem => ?_⟩
  · rw [hself, ← List.singleton_append, survivors_append, survivors_append, survivors_append, hmarked,
      hbefore.survivors, hafter.survivors]
    have hrelabel : Refines base old [self] [marked] := .relabel hid hoperands
    exact hrelabel.append ((hmiddle.fresh_left (refines_plain hold fun leaf hleaf => (hbefore leaf hleaf).1)).fresh_right
      (refines_plain hold fun leaf hleaf => (hafter leaf hleaf).1))
  · have hmarkedList : Shaped env [marked] := ⟨hmarkedShaped, trivial⟩
    rw [shaped_append, shaped_append, shaped_append]
    simp only [hmarkedList, shaped_asActions, true_and, and_true]
  · rw [hrank]
    exact Nat.lt_of_lt_of_le (Nat.zero_lt_succ 5) (Nat.le_add_left _ _)
  · have hleaves : ∀ leaves, Around base leaves → item ∈ asActions leaves → item.rank < rankAll code + 6 := by
      intro leaves hleaves hmem
      obtain ⟨leaf, hleaf, rfl⟩ := List.mem_map.mp hmem
      exact Nat.lt_of_lt_of_le (hleaves leaf hleaf).2.2 (Nat.le_add_left _ _)
    rw [hrank]
    rcases List.mem_append.mp hitem with hitem | hitem
    · rw [List.mem_singleton.mp hitem, hmarkedRank]
      exact Nat.lt_of_lt_of_le (Nat.zero_lt_succ 5) (Nat.le_add_left _ _)
    · rcases List.mem_append.mp hitem with hitem | hitem
      · rcases List.mem_append.mp hitem with hitem | hitem
        · exact hleaves before hbefore hitem
        · exact hranks item hitem
      · exact hleaves after hafter hitem

theorem around_marker (hctx : Later base ctx) (blockIndex : ℤ) (mode : Mode) (markerType : MarkerType) :
    Around base [.privilegeBlockMarker ctx.newValueId.1 blockIndex mode markerType] := by
  refine fun leaf hleaf => ?_
  rw [List.mem_singleton.mp hleaf]
  exact ⟨⟨hctx.newValueId.2.1, rfl⟩, rfl, Nat.zero_lt_succ 5⟩

theorem PrivilegeCodeAction.actionStep (hold : ∀ id, old id = true → base.Spent id) {action : PrivilegeCodeAction}
    (hexpanded : action.expanded = false) (hcode : EachStep env base old code expansions ctx) :
    ActionStep env base old (.privilegeCode action code)
      (.replace (.privilegeCode { action with expanded := true } code ::
        .leaf (.privilegeBlockMarker ctx.newValueId.1 action.blockIndex action.mode .start) :: expansions.flatten ++
          [.leaf (.privilegeBlockMarker ctx.newValueId.2.newValueId.1 action.blockIndex action.mode .finish)]))
      ctx.newValueId.2.newValueId.2 := by
  have hstart := hcode.later.newValueId.1
  obtain ⟨hrefines, hshaped, hlowers⟩ := @container_step env base old code expansions.flatten hold
    (.privilegeCode action code) (.privilegeCode { action with expanded := true } code) _ _ rfl rfl
    (by simp [survivors, emitters, Action.emitters, Action.dropped]) (fun h => nomatch h) (by simp [Action.rank])
    (by simp [survivors, emitters, Action.emitters, hexpanded, Action.dropped]) (by simp [Action.rank, hexpanded])
    (around_marker hcode.later action.blockIndex action.mode .start)
    (around_marker hstart action.blockIndex action.mode .finish) hcode.refines hcode.rank_lt
  refine ⟨hstart.newValueId.1, hrefines, (hshaped.trans hcode.shaped).trans ?_, hlowers, fun kept hkept => nomatch hkept⟩
  simp [Action.Shaped, hexpanded]

/-- The label changes neither what the code does nor how it is expanded. -/
theorem placeLabel_spec (hold : ∀ id, old id = true → base.Spent id) (last : Action) {label : List Leaf}
    (hlabel : Around base label) (before lastExpansion : List Action) :
    Refines base old (survivors env (before ++ lastExpansion))
        (survivors env (before ++ placeLabel last (asActions label) lastExpansion)) ∧
      (Shaped env (before ++ placeLabel last (asActions label) lastExpansion) ↔ Shaped env (before ++ lastExpansion)) ∧
      ∀ item ∈ before ++ placeLabel last (asActions label) lastExpansion,
        item ∈ before ++ lastExpansion ∨ item ∈ asActions label := by
  generalize hpos : last.faultPos lastExpansion.length = pos
  have hsplit : lastExpansion.take pos ++ lastExpansion.drop pos = lastExpansion := List.take_append_drop _ _
  refine ⟨?_, ?_, fun item hitem => ?_⟩
  · have hlast : survivors env lastExpansion =
        survivors env (lastExpansion.take pos) ++ survivors env (lastExpansion.drop pos) := by
      rw [← survivors_append, hsplit]
    rw [placeLabel, hpos, survivors_append, survivors_append, survivors_append, survivors_append, hlabel.survivors, hlast]
    exact Refines.refl.append ((Refines.refl.fresh_right
      (refines_plain hold fun leaf hleaf => (hlabel leaf hleaf).1)).append .refl)
  · have hlast : Shaped env lastExpansion ↔
        Shaped env (lastExpansion.take pos) ∧ Shaped env (lastExpansion.drop pos) := by
      rw [← shaped_append, hsplit]
    rw [placeLabel, hpos, shaped_append, shaped_append, shaped_append, shaped_append, hlast]
    simp only [shaped_asActions, and_true]
  · rw [placeLabel, hpos] at hitem
    rw [List.mem_append, ← hsplit]
    simp only [List.mem_append] at hitem ⊢
    tauto

theorem flatten_dropLast (expansions : List (List Action)) :
    expansions.dropLast.flatten ++ expansions.getLast?.getD [] = expansions.flatten := by
  rcases List.eq_nil_or_concat expansions with rfl | ⟨init, last, rfl⟩
  · rfl
  · simp

theorem faultLabel_spec (h : Later base ctx) (user : Option String) :
    Later base (ctx.faultLabel user).2.2 ∧ Around base (ctx.faultLabel user).2.1 := by
  cases user with
  | some name => exact ⟨h, fun _ hleaf => absurd hleaf List.not_mem_nil⟩
  | none =>
      obtain ⟨hlater, hfresh⟩ := (h.uniqueLabel "fault_label").newLabel
      refine ⟨hlater, fun leaf hleaf => ?_⟩
      rw [List.mem_singleton.mp hleaf]
      exact ⟨⟨hfresh, rfl⟩, rfl, Nat.zero_lt_succ 5⟩

theorem skipToReturn_spec (h : Later base ctx) (reExecute : Bool) (excpReturnLabel : String) :
    Later base (ctx.skipToReturn reExecute excpReturnLabel).2 ∧
      Around base (ctx.skipToReturn reExecute excpReturnLabel).1 := by
  cases reExecute with
  | false => exact ⟨h, fun _ hleaf => absurd hleaf List.not_mem_nil⟩
  | true =>
      obtain ⟨hlater, hfresh, -⟩ := h.newValueId
      refine ⟨hlater, fun leaf hleaf => ?_⟩
      rw [List.mem_singleton.mp hleaf]
      exact ⟨⟨hfresh, rfl⟩, rfl, Nat.zero_lt_succ 5⟩

/-- An assertion whose code has been expanded. -/
theorem AssertExceptionAction.actionStep (hold : ∀ id, old id = true → base.Spent id) {action : AssertExceptionAction}
    (hexpanded : action.expanded = false) (hcheck : checkCode code = .ok ()) (hcode : EachStep env base old code expansions ctx)
    {label skip : List Leaf} {faultLabel excpReturnLabel jumpToFailId startId endId returnLabelId : String}
    (hlabel : Around base label) (hskip : Around base skip) (hjump : Fresh base jumpToFailId) (hstart : Fresh base startId)
    (hend : Fresh base endId) (hreturn : Fresh base returnLabelId) {ctx' : LoweringContext} (hctx : Later base ctx') :
    ActionStep env base old (.assertException action code)
      (.replace (.assertException
          { action with faultLabel := some faultLabel, excpReturnLabel := some excpReturnLabel, expanded := true } [] ::
        .leaf (.assertExceptionMarker startId .start) :: (expansions.dropLast.flatten ++
          placeLabel (code.getLast?.getD (.leaf (.other "" ""))) (label.map .leaf) (expansions.getLast?.getD [])) ++
        skip.map .leaf ++
          [.leaf (.jumpToFail jumpToFailId none false), .leaf (.assertExceptionMarker endId .finish),
            .leaf (.label returnLabelId excpReturnLabel false)])) ctx' := by
  obtain ⟨hplace, hplaceShaped, hplaceMem⟩ := placeLabel_spec hold (code.getLast?.getD (.leaf (.other "" ""))) hlabel
    expansions.dropLast.flatten (expansions.getLast?.getD [])
  rw [flatten_dropLast] at hplace hplaceShaped hplaceMem
  have hbefore : Around base [.assertExceptionMarker startId .start] := by
    refine fun leaf hleaf => ?_
    rw [List.mem_singleton.mp hleaf]
    exact ⟨⟨hstart, rfl⟩, rfl, Nat.zero_lt_succ 5⟩
  have hafter : Around base (skip ++ [.jumpToFail jumpToFailId none false, .assertExceptionMarker endId .finish,
      .label returnLabelId excpReturnLabel false]) := by
    intro leaf hleaf
    rcases List.mem_append.mp hleaf with hleaf | hleaf
    · exact hskip leaf hleaf
    · simp only [List.mem_cons, List.not_mem_nil, or_false] at hleaf
      rcases hleaf with rfl | rfl | rfl
      · exact ⟨⟨hjump, rfl⟩, rfl, Nat.lt_add_of_pos_right (Nat.zero_lt_succ 1)⟩
      · exact ⟨⟨hend, rfl⟩, rfl, Nat.zero_lt_succ 5⟩
      · exact ⟨⟨hreturn, rfl⟩, rfl, Nat.zero_lt_succ 5⟩
  have hranks : ∀ item ∈ expansions.dropLast.flatten ++ placeLabel (code.getLast?.getD (.leaf (.other "" "")))
      (asActions label) (expansions.getLast?.getD []), item.rank < rankAll code + 6 := by
    intro item hitem
    rcases hplaceMem item hitem with hitem | hitem
    · exact hcode.rank_lt item hitem
    · obtain ⟨leaf, hleaf, rfl⟩ := List.mem_map.mp hitem
      exact Nat.lt_of_lt_of_le (hlabel leaf hleaf).2.2 (Nat.le_add_left _ _)
  obtain ⟨hrefines, hshaped, hlowers⟩ := @container_step env base old code _ hold
    (.assertException action code) (.assertException
      { action with faultLabel := some faultLabel, excpReturnLabel := some excpReturnLabel, expanded := true } []) _ _
    rfl rfl (by simp [survivors, emitters, Action.emitters, Action.dropped]) (fun h => nomatch h)
    (by simp [Action.rank]) (by simp [survivors, emitters, Action.emitters, hexpanded, Action.dropped])
    (by simp [Action.rank, hexpanded]) hbefore hafter (hcode.refines.trans hplace) hranks
  have hshape : Shaped env code ↔ Action.Shaped env (.assertException action code) := by
    simp [Action.Shaped, hexpanded, hcheck]
  refine ⟨hctx, ?_, ?_, ?_, fun kept hkept => nomatch hkept⟩
  · simpa [asActions, Outcome.items] using hrefines
  · have hall := (hshaped.trans hplaceShaped).trans (hcode.shaped.trans hshape)
    simpa [asActions, Outcome.items] using hall
  · simpa [asActions] using hlowers

end Containers

/-! ### One step, one run -/

theorem actionStep_keep {action : Action} {ctx : LoweringContext} (h : Later base ctx)
    (hself : survivors env [action] = [action]) (hshaped : action.Shaped env) (hrank : action.rank = 0) :
    ActionStep env base old action (.keep action) ctx := by
  refine ⟨h, .refl, and_iff_left trivial, Nat.le_of_eq (hrank.trans hrank.symm), fun kept hkept => ?_⟩
  obtain rfl := Outcome.keep.inj hkept
  exact ⟨hself, hshaped⟩

mutual
theorem Action.expand_spec (hold : ∀ id, old id = true → base.Spent id) :
    ∀ (action : Action) {outcome : Outcome Action} {ctx ctx' : LoweringContext}, Later base ctx →
      action.expand env ctx = .ok (outcome, ctx') → ActionStep env base old action outcome ctx'
  | .leaf leaf, outcome, ctx, ctx', hlater, h => by
      obtain ⟨rfl, rfl⟩ := Prod.mk.inj (Except.ok.inj h)
      exact leaf.actionStep hold hlater
  | .privilegeCode action code, outcome, ctx, ctx', hlater, h => by
      rw [Action.expand] at h
      split_ifs at h with hexpanded
      · obtain ⟨rfl, rfl⟩ := Prod.mk.inj (Except.ok.inj h)
        exact actionStep_keep hlater (by simp [survivors, emitters, Action.emitters, hexpanded, Action.dropped])
          (by simp [Action.Shaped, hexpanded]) (by simp [Action.rank, hexpanded])
      · obtain ⟨⟨expansions, mid⟩, heach, h⟩ := Fallible.bind_ok h
        obtain ⟨rfl, rfl⟩ := Prod.mk.inj (Except.ok.inj h)
        exact PrivilegeCodeAction.actionStep hold (Bool.eq_false_iff.mpr hexpanded) (expandEach_spec hold code hlater heach)
  | .conditionalBlock action code, outcome, ctx, ctx', hlater, h => by
      rw [Action.expand] at h
      split_ifs at h with hexpanded
      · obtain ⟨rfl, rfl⟩ := Prod.mk.inj (Except.ok.inj h)
        exact actionStep_keep hlater (by simp [survivors, emitters, Action.emitters, hexpanded, Action.dropped])
          (by simp [Action.Shaped, hexpanded]) (by simp [Action.rank, hexpanded])
      · rw [ConditionalBlockAction.holds_eq] at h
        obtain ⟨rfl, rfl⟩ := Prod.mk.inj (Except.ok.inj h)
        have hrank : Action.rank (.conditionalBlock action code) = rankAll code + 6 := by simp [Action.rank, hexpanded]
        refine ⟨hlater, ?_, ?_, ?_, fun kept hkept => nomatch hkept⟩
        · cases hactive : action.active env <;>
            simp [survivors, emitters, Action.emitters, hexpanded, hactive, Outcome.items, Refines.refl]
        · cases hactive : action.active env <;> simp [Action.Shaped, Shaped, hexpanded, hactive, Outcome.items]
        · rw [hrank]
          refine ⟨Nat.lt_of_lt_of_le (Nat.zero_lt_succ 5) (Nat.le_add_left _ _), fun item hitem => ?_⟩
          split_ifs at hitem
          · exact Nat.lt_of_le_of_lt (rank_le_rankAll hitem) (Nat.lt_add_of_pos_right (Nat.zero_lt_succ 5))
          · exact absurd hitem List.not_mem_nil
  | .codePage stepId expanded code, outcome, ctx, ctx', hlater, h => by
      rw [Action.expand] at h
      split_ifs at h with hexpanded
      · obtain ⟨rfl, rfl⟩ := Prod.mk.inj (Except.ok.inj h)
        exact actionStep_keep hlater (by simp [survivors, emitters, Action.emitters, hexpanded, Action.dropped])
          (by simp [Action.Shaped, hexpanded]) (by simp [Action.rank, hexpanded])
      · obtain ⟨rfl, rfl⟩ := Prod.mk.inj (Except.ok.inj h)
        obtain ⟨hreturn, hfresh, -⟩ := hlater.newValueId
        have hrank : Action.rank (.codePage stepId expanded code) = rankAll code + 6 := by simp [Action.rank, hexpanded]
        have hret : Refines base old [] (asActions [.ret ctx.newValueId.1]) :=
          refines_plain hold (List.forall_mem_singleton.mpr ⟨hfresh, rfl⟩)
        refine ⟨hreturn, ?_, ?_, ?_, fun kept hkept => nomatch hkept⟩
        · have hself : survivors env [.codePage stepId expanded code] = survivors env code := by
            simp [survivors, emitters, Action.emitters, hexpanded]
          change Refines base old _ (survivors env (code ++ asActions [.ret ctx.newValueId.1]))
          rw [hself, survivors_append, survivors_asActions]
          exact Refines.refl.fresh_right hret
        · change Shaped env (code ++ asActions [.ret ctx.newValueId.1]) ↔ _
          rw [shaped_append, and_iff_left (shaped_asActions _)]
          simp [Action.Shaped, hexpanded]
        · rw [hrank]
          refine ⟨Nat.lt_of_lt_of_le (Nat.zero_lt_succ 5) (Nat.le_add_left _ _), fun item hitem => ?_⟩
          rcases List.mem_append.mp hitem with hitem | hitem
          · exact Nat.lt_of_le_of_lt (rank_le_rankAll hitem) (Nat.lt_add_of_pos_right (Nat.zero_lt_succ 5))
          · rw [List.mem_singleton.mp hitem]
            exact Nat.lt_of_lt_of_le (Nat.zero_lt_succ 5) (Nat.le_add_left _ _)
  | .assertException action code, outcome, ctx, ctx', hlater, h => by
      rw [Action.expand] at h
      split_ifs at h with hexpanded
      · obtain ⟨rfl, rfl⟩ := Prod.mk.inj (Except.ok.inj h)
        exact actionStep_keep hlater (by simp [survivors, emitters, Action.emitters, hexpanded, Action.dropped])
          (by simp [Action.Shaped, hexpanded]) (by simp [Action.rank, hexpanded])
      · obtain ⟨⟨⟩, hcheck, h⟩ := Fallible.bind_ok h
        obtain ⟨hfault, hlabel⟩ := faultLabel_spec hlater (userLabel code)
        obtain ⟨hreturnCtx, hreturn⟩ := (hfault.uniqueLabel "excp_return_label").newLabel
        obtain ⟨hjumpCtx, hjump, -⟩ := hreturnCtx.newValueId
        obtain ⟨⟨expansions, mid⟩, heach, h⟩ := Fallible.bind_ok h
        have hcode := expandEach_spec hold code hjumpCtx heach
        obtain ⟨rfl, rfl⟩ := Prod.mk.inj (Except.ok.inj h)
        obtain ⟨hskipCtx, hskip⟩ := skipToReturn_spec hcode.later action.reExecute
          ((ctx.faultLabel (userLabel code)).2.2.uniqueLabel "excp_return_label").1
        obtain ⟨hstartCtx, hstart, -⟩ := hskipCtx.newValueId
        obtain ⟨hendCtx, hend, -⟩ := hstartCtx.newValueId
        exact AssertExceptionAction.actionStep hold (Bool.eq_false_iff.mpr hexpanded) hcheck hcode hlabel hskip hjump hstart
          hend hreturn hendCtx

theorem expandEach_spec (hold : ∀ id, old id = true → base.Spent id) :
    ∀ (code : List Action) {expansions : List (List Action)} {ctx ctx' : LoweringContext}, Later base ctx →
      expandEach env code ctx = .ok (expansions, ctx') → EachStep env base old code expansions ctx'
  | [], expansions, ctx, ctx', hlater, h => by
      obtain ⟨rfl, rfl⟩ := Prod.mk.inj (Except.ok.inj h)
      exact ⟨hlater, .refl, Iff.rfl, fun _ hitem => absurd hitem List.not_mem_nil, rfl⟩
  | action :: rest, expansions, ctx, ctx', hlater, h => by
      rw [expandEach] at h
      obtain ⟨⟨outcome, mid⟩, hfirst, h⟩ := Fallible.bind_ok h
      obtain ⟨⟨others, last⟩, hrest, h⟩ := Fallible.bind_ok h
      obtain ⟨rfl, rfl⟩ := Prod.mk.inj (Except.ok.inj h)
      have hstep := action.expand_spec hold hlater hfirst
      have heach := expandEach_spec hold rest hstep.later hrest
      refine ⟨heach.later, ?_, ?_, ?_, congrArg (· + 1) heach.length⟩
      · rw [List.flatten_cons, survivors_append, ← List.singleton_append, survivors_append]
        exact hstep.refines.append heach.refines
      · rw [List.flatten_cons, shaped_append, hstep.shaped, heach.shaped]
        rfl
      · intro item hitem
        rw [List.flatten_cons] at hitem
        rw [rankAll]
        rcases List.mem_append.mp hitem with hitem | hitem
        · exact Nat.le_trans (hstep.lowers.items_le item hitem) (Nat.le_max_left _ _)
        · exact Nat.le_trans (heach.rank item hitem) (Nat.le_max_right _ _)
end

mutual
/-- A well shaped action is expanded without a fault. -/
theorem Action.expand_ok : ∀ (action : Action) (ctx : LoweringContext), action.Shaped env →
    ∃ outcome ctx', action.expand env ctx = .ok (outcome, ctx')
  | .leaf leaf, ctx, _ => ⟨_, _, rfl⟩
  | .privilegeCode action code, ctx, h => by
      rw [Action.expand]
      split_ifs with hexpanded
      · exact ⟨_, _, rfl⟩
      · obtain ⟨expansions, mid, heach⟩ := expandEach_ok code ctx (h (Bool.eq_false_iff.mpr hexpanded))
        rw [heach]
        exact ⟨_, _, rfl⟩
  | .conditionalBlock action code, ctx, _ => by
      rw [Action.expand, ConditionalBlockAction.holds_eq]
      split_ifs <;> exact ⟨_, _, rfl⟩
  | .codePage stepId expanded code, ctx, _ => by
      rw [Action.expand]
      split_ifs <;> exact ⟨_, _, rfl⟩
  | .assertException action code, ctx, h => by
      rw [Action.expand]
      split_ifs with hexpanded
      · exact ⟨_, _, rfl⟩
      · obtain ⟨hcheck, hcode⟩ := h (Bool.eq_false_iff.mpr hexpanded)
        obtain ⟨expansions, mid, heach⟩ := expandEach_ok code
          ((ctx.faultLabel (userLabel code)).2.2.uniqueLabel "excp_return_label").2.newLabel.2.newValueId.2 hcode
        rw [hcheck]
        dsimp only [bind, Except.bind]
        rw [heach]
        exact ⟨_, _, rfl⟩

theorem expandEach_ok : ∀ (code : List Action) (ctx : LoweringContext), Shaped env code →
    ∃ expansions ctx', expandEach env code ctx = .ok (expansions, ctx')
  | [], ctx, _ => ⟨_, _, rfl⟩
  | action :: rest, ctx, h => by
      obtain ⟨outcome, mid, hfirst⟩ := action.expand_ok ctx h.1
      obtain ⟨others, last, hrest⟩ := expandEach_ok rest mid h.2
      rw [expandEach, hfirst]
      dsimp only [bind, Except.bind]
      rw [hrest]
      exact ⟨_, _, rfl⟩
end

/-- What a run has done to the actions. -/
theorem recursiveExpand_run (hold : ∀ id, old id = true → base.Spent id) {depth : ℕ} {actions result : List Action}
    {ctx ctx' : LoweringContext} (hlater : Later base ctx)
    (h : recursiveExpand env depth actions ctx = .ok (result, ctx')) :
    Refines base old (survivors env actions) result ∧ Shaped env actions := by
  refine (@Expansion.expand_run _ _ _ _ (fun actions result =>
    Refines base old (survivors env actions) result ∧ Shaped env actions) (Later base)
    ⟨.refl, trivial⟩ ?_ ?_ ?_ depth actions result ctx ctx' hlater h).2
  · rintro left left' right right' ⟨hleft, hleftShaped⟩ ⟨hright, hrightShaped⟩
    rw [survivors_append]
    exact ⟨hleft.append hright, (shaped_append _ _).mpr ⟨hleftShaped, hrightShaped⟩⟩
  · intro item kept state state' hstate hstep
    have hspec : ActionStep env base old item (.keep kept) state' := item.expand_spec hold hstate hstep
    obtain ⟨hself, hshaped⟩ := hspec.kept kept rfl
    have hrefines : Refines base old (survivors env [item]) (survivors env [kept]) := hspec.refines
    rw [hself] at hrefines
    exact ⟨hspec.later, hrefines, hshaped, trivial⟩
  · intro item items state state' hstate hstep
    have hspec : ActionStep env base old item (.replace items) state' := item.expand_spec hold hstate hstep
    exact ⟨hspec.later, fun hitems => ⟨hspec.refines.trans hitems.1, hspec.shaped.mp hitems.2, trivial⟩⟩

/-- A list of well shaped actions is expanded to the end. -/
theorem recursiveExpand_ok (hold : ∀ id, old id = true → base.Spent id) {actions : List Action} {ctx : LoweringContext}
    (hlater : Later base ctx) (hshaped : Shaped env actions) :
    ∃ result ctx', recursiveExpand env (rankAll actions + 1) actions ctx = .ok (result, ctx') := by
  have hmem : ∀ {items : List Action}, Shaped env items ↔ ∀ item ∈ items, item.Shaped env := by
    intro items
    induction items with
    | nil => exact iff_of_true trivial fun _ hitem => absurd hitem List.not_mem_nil
    | cons item rest ih => rw [Shaped, ih, List.forall_mem_cons]
  obtain ⟨result, ctx', hresult, -⟩ := @Expansion.expand_total _ _ _ (Action.expand env)
    (Action.Shaped env) (Later base) Action.rank
    (fun {item state} hitem hstate => by
      obtain ⟨outcome, state', hstep⟩ := item.expand_ok state hitem
      have hspec : ActionStep env base old item outcome state' := item.expand_spec hold hstate hstep
      refine ⟨outcome, state', hstep, hspec.later, ?_⟩
      rintro items rfl
      have hlowers : Lowers Action.rank item.rank (.replace items) := hspec.lowers
      exact ⟨hlowers.1, fun inner hinner => ⟨hmem.mp (hspec.shaped.mpr hitem) inner hinner, hlowers.2 inner hinner⟩⟩)
    (rankAll actions + 1) actions ctx (hmem.mp hshaped)
    (fun item hitem => Nat.lt_succ_of_le (rank_le_rankAll hitem)) (Nat.zero_lt_succ _) hlater
  exact ⟨result, ctx', hresult⟩

/-! ### Expansion -/

mutual
theorem Action.emitters_sublist : ∀ action : Action, List.Sublist (action.emitters env) action.all
  | .leaf _ => .refl _
  | .privilegeCode action code => by
      rw [Action.emitters, Action.all]
      split_ifs
      · exact (List.nil_sublist _).cons_cons _
      · exact (emitters_sublist code).cons_cons _
  | .conditionalBlock action code => by
      rw [Action.emitters, Action.all]
      split_ifs
      · exact (List.nil_sublist _).cons_cons _
      · exact (emitters_sublist code).cons _
      · exact List.nil_sublist _
  | .codePage stepId expanded code => by
      rw [Action.emitters, Action.all]
      split_ifs
      · exact (List.nil_sublist _).cons_cons _
      · exact (emitters_sublist code).cons _
  | .assertException action code => by
      rw [Action.emitters, Action.all]
      split_ifs
      · exact (List.nil_sublist _).cons_cons _
      · exact (emitters_sublist code).cons_cons _

theorem emitters_sublist : ∀ actions : List Action, List.Sublist (emitters env actions) (allActions actions)
  | [] => .slnil
  | action :: rest => action.emitters_sublist.append (emitters_sublist rest)
end

theorem definedFrom_of_canonicalized {actions : List Action}
    (h : ∀ action ∈ actions, ∀ id ∈ action.operands, ¬CreatedValue base id) (defs : List String) :
    DefinedFrom base defs actions := by
  induction actions generalizing defs with
  | nil => trivial
  | cons action rest ih =>
      obtain ⟨haction, hrest⟩ := List.forall_mem_cons.mp h
      exact ⟨fun id hid hcreated => absurd hcreated (haction id hid), ih hrest _⟩

/-- Expansion ends and loses no action exactly when no load, store or memory access that it reaches is without memory,
and every exception assertion that it reaches has a code of a supported shape. -/
theorem expand_losesNoAction_iff (env : Environment) (actions : List Action) (ctx : LoweringContext)
    (hcanonical : Canonicalized ctx actions) :
    (∃ result ctx' bound,
        (∀ depth, bound ≤ depth → recursiveExpand env depth actions ctx = .ok (result, ctx')) ∧
          LosesNoAction env ctx.ids actions result) ↔
      Shaped env actions ∧ ∀ action ∈ emitters env actions, action.dropped = false := by
  have hsublist : List.Sublist (emitters env actions) (allActions actions) := emitters_sublist actions
  have hlater : Later ctx.ids ctx := ⟨fun _ => Nat.le_refl _, hcanonical.pages⟩
  have hold : ∀ id, ((emitters env actions).map Action.stepId).contains id = true → ctx.ids.Spent id := by
    intro id hid
    obtain ⟨action, haction, rfl⟩ := List.mem_map.mp (List.contains_iff_mem.mp hid)
    exact hcanonical.spent action (hsublist.subset haction)
  have hsurvivors : ((survivors env actions).map Action.stepId).filter
      (fun id => ((emitters env actions).map Action.stepId).contains id) =
      (survivors env actions).map Action.stepId := by
    refine List.filter_eq_self.mpr fun id hid => List.contains_iff_mem.mpr ?_
    exact (List.filter_sublist.map Action.stepId).subset hid
  constructor
  · rintro ⟨result, ctx', bound, hresult, hloses⟩
    obtain ⟨hrefines, hshaped⟩ := recursiveExpand_run hold hlater (hresult bound (Nat.le_refl _))
    refine ⟨hshaped, fun action haction => ?_⟩
    have hids : (survivors env actions).map Action.stepId = (emitters env actions).map Action.stepId :=
      (hrefines.ids.trans hsurvivors).symm.trans hloses.inOrder
    have hlength := congrArg List.length hids
    rw [List.length_map, List.length_map, survivors, List.length_filter_eq_length_iff] at hlength
    simpa using hlength action haction
  · rintro ⟨hshaped, hkept⟩
    obtain ⟨result, ctx', hresult⟩ := recursiveExpand_ok hold hlater hshaped
    obtain ⟨hrefines, -⟩ := recursiveExpand_run hold hlater hresult
    have hall : survivors env actions = emitters env actions :=
      List.filter_eq_self.mpr fun action haction => by rw [hkept action haction]; rfl
    have hinOrder := hrefines.ids.trans hsurvivors
    rw [hall] at hinOrder
    refine ⟨result, ctx', rankAll actions + 1, fun depth hdepth => expand_mono hdepth hresult, hinOrder,
      fun action haction => ?_, fun before action after hsplit => ?_⟩
    · have hmem : action.stepId ∈ (emitters env actions).map Action.stepId := List.mem_map_of_mem haction
      have hnodup := (hsublist.map Action.stepId).nodup hcanonical.distinct
      rw [← List.count_filter (p := fun id => ((emitters env actions).map Action.stepId).contains id)
        (List.contains_iff_mem.mpr hmem), hinOrder]
      exact List.count_eq_one_of_mem hnodup hmem
    · have hdefined : DefinedFrom ctx.ids [] (survivors env actions) := by
        rw [hall]
        exact definedFrom_of_canonicalized (fun other hother => hcanonical.operands other (hsublist.subset hother)) []
      exact (hrefines.defined [] hdefined).at hsplit

/-- Machine mode tests on a machine with all extensions. -/
def machineTests : Environment :=
  ⟨.machine, false, 64, fun _ => true, fun _ => true, fun _ _ rng => (⟨"mscratch", mscratch_length⟩, rng)⟩

/-- The ids are the first ones of the tracker, and the operands are pages or such ids. -/
theorem canonicalized_of_ids {ctx : LoweringContext} {actions : List Action}
    (hids : (allActions actions).map Action.stepId = (List.range ctx.ids.valueCount).map IdKind.value.id)
    (hoperands : ∀ action ∈ allActions actions, ∀ id ∈ action.operands,
      id ∈ ctx.pages ∨ ∃ n < ctx.ids.valueCount, id = IdKind.value.id n)
    (hpages : ∀ page ∈ ctx.pages, ∃ n, page = IdKind.memory.id n) : Canonicalized ctx actions where
  spent := by
    intro action haction
    have hid : action.stepId ∈ (List.range ctx.ids.valueCount).map IdKind.value.id :=
      hids ▸ List.mem_map_of_mem haction
    obtain ⟨n, hn, heq⟩ := List.mem_map.mp hid
    exact ⟨.value, n, List.mem_range.mp hn, heq.symm⟩
  distinct := by
    rw [hids]
    exact List.nodup_range.map fun _ _ heq => (IdKind.id_injective heq).2
  operands := by
    rintro action haction id hid ⟨n, hn, rfl⟩
    rcases hoperands action haction _ hid with hpage | ⟨m, hm, heq⟩
    · obtain ⟨m, heq⟩ := hpages _ hpage
      cases (IdKind.id_injective heq).1
    · obtain ⟨-, rfl⟩ := IdKind.id_injective heq
      omega
  pages := by
    intro page hpage n heq
    obtain ⟨m, hm⟩ := hpages page hpage
    cases (IdKind.id_injective (heq.symm.trans hm)).1

/-- The first step has been canonicalized, and a page. -/
def oneStep : LoweringContext := ⟨⟨1, 1, 0, fun _ => 0⟩, ["mem0"], ⟨[]⟩⟩

/-- The first four steps have been canonicalized, and a page. -/
def fourSteps : LoweringContext := ⟨⟨4, 1, 0, fun _ => 0⟩, ["mem0"], ⟨[]⟩⟩

theorem mem0_isPage : ∀ page ∈ ["mem0"], ∃ n, page = IdKind.memory.id n :=
  List.forall_mem_singleton.mpr ⟨0, by decide⟩

/-- A load in user mode, and a store on a code page behind it. -/
def nestedSteps : List Action :=
  [.privilegeCode ⟨"r0", .user, 0, false⟩ [.leaf (.load ⟨"r1", 8, some "mem0", none, some "ld", false⟩),
    .codePage "r2" false [.leaf (.store ⟨"r3", 5000, some "mem0", .int 7, some "sd", false⟩)]]]

theorem canonicalized_nestedSteps : Canonicalized fourSteps nestedSteps :=
  canonicalized_of_ids (by decide +kernel) (fun action haction id hid => .inl (by
    have hpage : ∀ action ∈ allActions nestedSteps, ∀ id ∈ action.operands, id ∈ fourSteps.pages := by decide +kernel
    exact hpage action haction id hid)) mem0_isPage

theorem expand_losesNoAction_nested : ∃ result ctx' bound,
    (∀ depth, bound ≤ depth → recursiveExpand machineTests depth nestedSteps fourSteps = .ok (result, ctx')) ∧
      LosesNoAction machineTests fourSteps.ids nestedSteps result :=
  (expand_losesNoAction_iff machineTests nestedSteps fourSteps canonicalized_nestedSteps).mpr
    ⟨⟨fun _ => ⟨trivial, fun _ => ⟨trivial, trivial⟩, trivial⟩, trivial⟩, by decide +kernel⟩

/-- A store without memory is not there afterwards. -/
theorem expand_losesAction :
    Canonicalized oneStep [.leaf (.store ⟨"r0", 0, none, .int 7, some "sd", false⟩)] ∧
      ¬∃ result ctx' bound,
        (∀ depth, bound ≤ depth → recursiveExpand machineTests depth
          [.leaf (.store ⟨"r0", 0, none, .int 7, some "sd", false⟩)] oneStep = .ok (result, ctx')) ∧
          LosesNoAction machineTests oneStep.ids [.leaf (.store ⟨"r0", 0, none, .int 7, some "sd", false⟩)] result := by
  refine ⟨canonicalized_of_ids (by decide +kernel) (fun action haction id hid => ?_) mem0_isPage, ?_⟩
  · obtain rfl := List.mem_singleton.mp haction
    exact absurd hid List.not_mem_nil
  rintro ⟨result, ctx', bound, hresult, hloses⟩
  obtain ⟨ctx'', hrun⟩ : ∃ ctx'', recursiveExpand machineTests 2
      [.leaf (.store ⟨"r0", 0, none, .int 7, some "sd", false⟩)] oneStep =
        .ok ([.leaf (.li "r1" (.str "mem1"))], ctx'') := ⟨_, rfl⟩
  have hsame := (hresult (bound + 2) (Nat.le_add_right ..)).symm.trans (expand_mono (Nat.le_add_left 2 bound) hrun)
  obtain ⟨rfl, -⟩ := Prod.mk.inj (Except.ok.inj hsame)
  have hids := hloses.inOrder
  exact absurd hids (by decide +kernel)

end Riescue.Expander
