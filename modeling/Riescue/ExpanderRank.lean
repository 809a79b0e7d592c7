import Riescue.ExpanderSteps

/-! How deep the expansion of an action goes. Most classes are guarded by a mark; an arithmetic action is not, but
each of its steps puts a new value in the place of a page. -/

namespace Riescue.Expander
open TestPlan Expansion
open PrivilegeBlocks (Mode MarkerType)

variable {env : Environment} {base : IdTracker}

open Classical in
/-- The sources that a page may stand in. -/
noncomputable def loadable (src : Option String) : ℕ :=
  if ∃ label, src = some label ∧ ∀ n, label ≠ IdKind.value.id n then 1 else 0

noncomputable def Leaf.rank : Leaf → ℕ
  | load action => if action.expanded then 0 else 3
  | store action => if action.expanded then 0 else 3
  | memAccess action => if action.expanded then 0 else 3
  | hypervisor action => if action.expanded then 0 else 3
  | arithmetic action | mvT2 action => loadable action.src1 + loadable action.src2
  | csrRead action => if action.expanded then 0 else 3
  | csrWrite action => if action.expanded then 0 else 3
  | csrDirectAccess action => if action.expanded then 0 else 3
  | writeTriggerCsr action => if action.expanded then 0 else 3
  | call _ _ _ expanded | writePte _ _ _ expanded | selectTrigger _ _ expanded => if expanded then 0 else 3
  | jumpToFail _ _ expanded => if expanded then 0 else 4
  | assertEqual _ _ _ _ expanded | assertFetchException _ _ _ expanded => if expanded then 0 else 5
  | li .. | liT2 .. | directive .. | labelTestStep .. | other .. | label .. | csrApiRead .. | mvFromT2 .. | sd ..
  | fetchJalr .. | assertExceptionMarker .. | privilegeBlockMarker .. | ret _ => 0

/-- A kept item is not above the rank, and the items of a replacement are below it. -/
def Lowers {α : Type} (rank : α → ℕ) (bound : ℕ) : Outcome α → Prop
  | .keep item => rank item ≤ bound
  | .replace items => 0 < bound ∧ ∀ item ∈ items, rank item < bound

theorem loadable_le (src : Option String) : loadable src ≤ 1 := by
  unfold loadable
  split_ifs <;> omega

theorem loadable_value (n : ℕ) : loadable (some (IdKind.value.id n)) = 0 := by
  refine if_neg ?_
  rintro ⟨label, hlabel, hne⟩
  exact hne n (Option.some.inj hlabel).symm

theorem loadable_page {src : Option String} {label : String} (hsrc : src = some label)
    (hne : ∀ n, label ≠ IdKind.value.id n) : loadable src = 1 := if_pos ⟨label, hsrc, hne⟩

theorem rank_arithmetic_le (action : ArithmeticAction) : (Leaf.arithmetic action).rank ≤ 2 :=
  Nat.add_le_add (loadable_le _) (loadable_le _)

section Created
variable {ctx : LoweringContext}

/-- New actions have at most two sources to load. -/
def Low (created : List Leaf) : Prop := ∀ leaf ∈ created, leaf.rank < 3

theorem Low.append {left right : List Leaf} (h : Low left) (h' : Low right) : Low (left ++ right) :=
  fun leaf hleaf => (List.mem_append.mp hleaf).elim (h leaf) (h' leaf)

theorem low_nil : Low [] := fun _ hleaf => absurd hleaf List.not_mem_nil

theorem low_singleton {leaf : Leaf} (h : leaf.rank < 3) : Low [leaf] := fun _ hleaf => List.mem_singleton.mp hleaf ▸ h

theorem low_loadLabel (label : String) (register : Option String) : Low (loadLabel label register ctx).1 := by
  unfold loadLabel
  split_ifs
  · exact low_singleton (Nat.zero_lt_succ 2)
  · exact low_nil

theorem low_addOffset (offset : ℤ) (fits : Bool) (register : Option String) :
    Low (addOffset offset fits register ctx).1 := by
  unfold addOffset
  split_ifs
  · exact low_nil
  · refine Low.append (low_singleton ?_) (low_singleton ?_)
    · exact Nat.zero_lt_succ 2
    · exact Nat.lt_succ_of_le (rank_arithmetic_le _)

theorem low_loadValue (value : Operand) : Low (loadValue value ctx).1 := by
  cases value with
  | int value => exact low_singleton (Nat.zero_lt_succ 2)
  | _ => exact low_nil

theorem lowers_prepended {created : List Leaf} {leaf : Leaf} (hlow : Low created) (hleaf : leaf.rank = 0) :
    Lowers Leaf.rank 3 (prepended created leaf) := by
  unfold prepended
  split_ifs
  · exact Nat.le_trans (Nat.le_of_eq hleaf) (Nat.zero_le 3)
  · refine ⟨Nat.zero_lt_succ 2, fun other hother => ?_⟩
    rcases List.mem_append.mp hother with hother | hother
    · exact hlow other hother
    · rw [List.mem_singleton.mp hother, hleaf]
      exact Nat.zero_lt_succ 2

theorem lowers_pair {first second : Leaf} (hfirst : first.rank < 3) (hsecond : second.rank = 0) :
    Lowers Leaf.rank 3 (.replace [first, second]) := by
  refine ⟨Nat.zero_lt_succ 2, fun other hother => ?_⟩
  rcases List.mem_cons.mp hother with rfl | hother
  · exact hfirst
  · rw [List.mem_singleton.mp hother, hsecond]
    exact Nat.zero_lt_succ 2

theorem lowers_single {leaf : Leaf} (hleaf : leaf.rank < 3) : Lowers Leaf.rank 3 (.replace [leaf]) :=
  ⟨Nat.zero_lt_succ 2, fun _ hother => List.mem_singleton.mp hother ▸ hleaf⟩

end Created

section Leaves
variable {ctx : LoweringContext}

/-- A source that is loaded names a value afterwards. -/
theorem loadSource_rank (h : Later base ctx) (src : Option String) :
    (∀ leaf ∈ (loadSource src ctx).1, leaf.rank = 0) ∧
      ((loadSource src ctx).1 = [] ∧ (loadSource src ctx).2.1 = src ∨
        (loadSource src ctx).1 ≠ [] ∧ loadable (loadSource src ctx).2.1 < loadable src) := by
  cases src with
  | none => exact ⟨fun _ hleaf => absurd hleaf List.not_mem_nil, .inl ⟨rfl, rfl⟩⟩
  | some label =>
      rw [loadSource, loadLabel]
      split_ifs with hlabel
      · refine ⟨fun leaf hleaf => by rw [List.mem_singleton.mp hleaf]; rfl, .inr ⟨List.cons_ne_nil _ _, ?_⟩⟩
        have hpage : loadable (some label) = 1 :=
          loadable_page rfl fun n => h.pages label (List.contains_iff_mem.mp hlabel) n
        have hvalue : loadable (some ctx.newValueId.1) = 0 := loadable_value _
        rw [hpage]
        exact Nat.lt_of_le_of_lt (Nat.le_of_eq hvalue) Nat.zero_lt_one
      · exact ⟨fun _ hleaf => absurd hleaf List.not_mem_nil, .inl ⟨rfl, rfl⟩⟩

theorem ArithmeticAction.expand_rank (h : Later base ctx) {wrap : ArithmeticAction → Leaf}
    (hrank : ∀ action, (wrap action).rank = loadable action.src1 + loadable action.src2) (action : ArithmeticAction) :
    Lowers Leaf.rank (wrap action).rank (action.expand wrap ctx).1 := by
  have hlater := (loadSource_spec h action.src1).1
  unfold ArithmeticAction.expand
  rw [hrank]
  dsimp only
  generalize hfirst : loadSource action.src1 ctx = first at hlater
  obtain ⟨hzero1, hsrc1⟩ := hfirst ▸ loadSource_rank h action.src1
  generalize hsecond : loadSource action.src2 first.2.2 = second
  obtain ⟨hzero2, hsrc2⟩ := hsecond ▸ loadSource_rank hlater action.src2
  have hself : (wrap { action with src1 := first.2.1, src2 := second.2.1 }).rank =
      loadable first.2.1 + loadable second.2.1 := hrank _
  unfold prepended
  split_ifs with hnil
  · obtain ⟨hnil1, hnil2⟩ := List.append_eq_nil_iff.mp hnil
    have hsame1 := (hsrc1.resolve_right fun hne => hne.1 hnil1).2
    have hsame2 := (hsrc2.resolve_right fun hne => hne.1 hnil2).2
    exact Nat.le_of_eq (hself.trans (by rw [hsame1, hsame2]))
  · have hlt : loadable first.2.1 + loadable second.2.1 < loadable action.src1 + loadable action.src2 := by
      rcases hsrc1 with ⟨hnil1, hsame1⟩ | ⟨-, hlt1⟩ <;> rcases hsrc2 with ⟨hnil2, hsame2⟩ | ⟨-, hlt2⟩
      · exact absurd (List.append_eq_nil_iff.mpr ⟨hnil1, hnil2⟩) hnil
      · rw [hsame1]
        exact Nat.add_lt_add_left hlt2 _
      · rw [hsame2]
        exact Nat.add_lt_add_right hlt1 _
      · exact Nat.add_lt_add hlt1 hlt2
    have hpos := Nat.lt_of_le_of_lt (Nat.zero_le _) hlt
    refine ⟨hpos, fun item hitem => ?_⟩
    rcases List.mem_append.mp hitem with hitem | hitem
    · rw [(List.mem_append.mp hitem).elim (hzero1 item) (hzero2 item)]
      exact hpos
    · rw [List.mem_singleton.mp hitem, hself]
      exact hlt

/-- The write of a value that is not in a register yet. -/
theorem csrWrite_value_rank (action : CsrWriteAction) (apiAccess : Bool) (value : ℤ) :
    Lowers Leaf.rank 3
      (if 32 ≤ value ∨ apiAccess then
        (.replace [if apiAccess then .liT2 ctx.newValueId.1 (.int value) else .li ctx.newValueId.1 (.int value),
          .csrWrite { action with writeValue := some value, src := some ctx.newValueId.1, expanded := true }],
          ctx.newValueId.2)
      else (.replace [.csrWrite { action with writeValue := some value, src := none, expanded := true }], ctx) :
        Outcome Leaf × LoweringContext).1 := by
  split_ifs
  · exact lowers_pair (Nat.zero_lt_succ 2) rfl
  · exact lowers_pair (Nat.zero_lt_succ 2) rfl
  · exact lowers_single (Nat.zero_lt_succ 2)

/-- A marked action is kept. -/
theorem lowers_keep {leaf : Leaf} {bound : ℕ} (h : leaf.rank = 0) : Lowers Leaf.rank bound (.keep leaf) :=
  Nat.le_trans (Nat.le_of_eq h) (Nat.zero_le _)

theorem Leaf.expand_rank (h : Later base ctx) (leaf : Leaf) : Lowers Leaf.rank leaf.rank (leaf.expand env ctx).1 := by
  cases leaf with
  | load action =>
      simp only [Leaf.expand, Leaf.rank, LoadAction.expand]
      cases hexpanded : action.expanded with
      | true => exact lowers_keep (by simp [Leaf.rank, hexpanded])
      | false =>
          cases action.memory with
          | none => exact lowers_single (Nat.zero_lt_succ 2)
          | some memory => exact lowers_prepended ((low_loadLabel _ _).append (low_addOffset _ _ _)) rfl
  | store action =>
      simp only [Leaf.expand, Leaf.rank, StoreAction.expand]
      cases hexpanded : action.expanded with
      | true => exact lowers_keep (by simp [Leaf.rank, hexpanded])
      | false =>
          cases action.memory with
          | none => exact lowers_single (Nat.zero_lt_succ 2)
          | some memory =>
              exact lowers_prepended (((low_loadLabel _ _).append (low_addOffset _ _ _)).append (low_loadValue _)) rfl
  | memAccess action =>
      simp only [Leaf.expand, Leaf.rank, MemAccessAction.expand]
      cases hexpanded : action.expanded with
      | true => exact lowers_keep (by simp [Leaf.rank, hexpanded])
      | false =>
          cases action.memory with
          | none => exact lowers_single (Nat.zero_lt_succ 2)
          | some memory =>
              refine lowers_prepended (((low_loadLabel _ _).append (low_addOffset _ _ _)).append ?_) rfl
              split_ifs
              · exact low_nil
              · exact low_loadValue _
  | hypervisor action =>
      simp only [Leaf.expand, Leaf.rank, HypervisorAction.expand]
      cases hexpanded : action.expanded with
      | true => exact lowers_keep (by simp [Leaf.rank, hexpanded])
      | false =>
          cases action.memory with
          | none => exact lowers_pair (Nat.zero_lt_succ 2) rfl
          | some memory => exact lowers_prepended (low_loadLabel _ _) rfl
  | arithmetic action => exact ArithmeticAction.expand_rank h (fun _ => rfl) action
  | mvT2 action => exact ArithmeticAction.expand_rank h (fun _ => rfl) action
  | csrRead action =>
      simp only [Leaf.expand, Leaf.rank, CsrReadAction.expand]
      split_ifs with hexpanded
      · exact lowers_keep (by simp [Leaf.rank, hexpanded])
      · exact lowers_keep rfl
      · exact lowers_pair (Nat.zero_lt_succ 2) rfl
  | csrWrite action =>
      simp only [Leaf.expand, Leaf.rank, CsrWriteAction.expand]
      cases hexpanded : action.expanded with
      | true => exact lowers_keep (by simp [Leaf.rank, hexpanded])
      | false =>
          cases action.src with
          | some src =>
              cases writeApiAccess env action.csrName with
              | false => exact lowers_single (Nat.zero_lt_succ 2)
              | true => exact lowers_pair (Nat.lt_succ_of_le (rank_arithmetic_le _)) rfl
          | none =>
              cases action.writeValue with
              | some value => exact csrWrite_value_rank action (writeApiAccess env action.csrName) value
              | none => exact csrWrite_value_rank action (writeApiAccess env action.csrName) _
  | csrDirectAccess action =>
      simp only [Leaf.expand, Leaf.rank, CsrDirectAccessAction.expand]
      cases hexpanded : action.expanded with
      | true => exact lowers_keep (by simp [Leaf.rank, hexpanded])
      | false =>
          simp only [Bool.false_eq_true, if_false]
          split
          · exact lowers_pair (Nat.zero_lt_succ 2) rfl
          · exact lowers_single (Nat.zero_lt_succ 2)
  | writeTriggerCsr action =>
      simp only [Leaf.expand, Leaf.rank, WriteTriggerCsrAction.expand]
      cases hexpanded : action.expanded with
      | true => exact lowers_keep (by simp [Leaf.rank, hexpanded])
      | false =>
          cases action.src with
          | some src => exact lowers_single (Nat.zero_lt_succ 2)
          | none => exact lowers_pair (Nat.zero_lt_succ 2) rfl
  | call stepId target rs1 expanded =>
      cases expanded with
      | true => exact lowers_keep rfl
      | false =>
          simp only [Leaf.expand]
          split_ifs
          · exact lowers_pair (Nat.zero_lt_succ 2) rfl
          · exact lowers_single (Nat.zero_lt_succ 2)
  | assertEqual stepId val1 val2 passLabel expanded =>
      cases expanded with
      | true => exact lowers_keep rfl
      | false =>
          refine ⟨Nat.zero_lt_succ 4, ?_⟩
          simp [Leaf.rank]
  | assertFetchException stepId target excpReturnLabel expanded =>
      cases expanded with
      | true => exact lowers_keep rfl
      | false =>
          refine ⟨Nat.zero_lt_succ 4, fun item hitem => ?_⟩
          rcases List.mem_append.mp hitem with hitem | hitem
          · rcases List.mem_append.mp hitem with hitem | hitem
            · rw [List.mem_singleton.mp hitem]
              exact Nat.zero_lt_succ 4
            · exact Nat.lt_trans (low_loadLabel _ _ item hitem) (Nat.lt_add_of_pos_right (Nat.zero_lt_succ 1))
          · rcases List.mem_cons.mp hitem with rfl | hitem
            · exact Nat.zero_lt_succ 4
            · rcases List.mem_cons.mp hitem with rfl | hitem
              · exact Nat.zero_lt_succ 4
              · rcases List.mem_cons.mp hitem with rfl | hitem
                · exact Nat.zero_lt_succ 4
                · rcases List.mem_cons.mp hitem with rfl | hitem
                  · exact Nat.lt_succ_self 4
                  · rw [List.mem_singleton.mp hitem]
                    exact Nat.zero_lt_succ 4
  | writePte stepId memory src expanded =>
      cases expanded with
      | true => exact lowers_keep rfl
      | false => exact lowers_pair (Nat.lt_succ_of_le (rank_arithmetic_le _)) rfl
  | selectTrigger stepId index expanded =>
      cases expanded with
      | true => exact lowers_keep rfl
      | false => exact lowers_pair (Nat.zero_lt_succ 2) rfl
  | jumpToFail stepId loadFailedAddr expanded =>
      cases expanded with
      | true => exact lowers_keep rfl
      | false =>
          refine ⟨Nat.zero_lt_succ 3, ?_⟩
          simp [Leaf.rank]
  | _ => exact lowers_keep rfl

end Leaves

end Riescue.Expander
