import Riescue.InterruptDispatch

/-! What the registrations leave in the vector table of a mode, and the code of a handler with the labels in it: those of the
handler itself are distinct, those of the stubs come from the labels of the handlers. -/

namespace Riescue.InterruptDispatch
open Labelled OrderedDict
open TrapHandler (Handler)

/-! ### The table -/

section
variable (featmgr : FeatMgr) (pool : Pool) (mode : Handler)

def isr (label : Text) (indirect : Bool) : InterruptServiceRoutine where
  label
  labelPrefix := mode.labelPrefix
  indirect

/-- Registrations of one kind, as one assignment. -/
theorem foldl_registerVector (table : VectorTable) (entries : List (ℕ × Text)) (indirect : Bool) :
    entries.foldl (fun table entry => registerVector mode table entry.1 entry.2 indirect) table =
      assign table (entries.map fun entry => (entry.1, isr mode entry.2 indirect)) := by
  rw [assign, List.foldl_map]
  rfl

theorem get?_foldl_registerVector (table : VectorTable) (entries : List (ℕ × Text)) (indirect : Bool) (v : ℕ) :
    get? (entries.foldl (fun table entry => registerVector mode table entry.1 entry.2 indirect) table) v =
      ((get? entries.reverse v).map fun label => isr mode label indirect).or (get? table v) := by
  rw [foldl_registerVector, get?_assign, ← List.map_reverse, get?_map fun label => isr mode label indirect]

theorem get?_vectoredLabels (v : ℕ) : get? pool.vectoredLabels v =
    get? (pool.parsedVectoredInterrupts.map fun vi => (vi.index, vi.label)).reverse v := by
  rw [Pool.vectoredLabels, get?_assign, get?_nil, Option.or_none]

/-- A custom handler changes its own vector, when it is not indirect. -/
theorem get?_registerCustom (table : VectorTable) (ch : ParsedCustomHandler) (v : ℕ) :
    get? (pool.registerCustom mode table ch) v =
      if v = ch.vectorNum ∧ (get? table v).any InterruptServiceRoutine.indirect = false then
        some (isr mode ((get? pool.vectoredLabels v).getD (clearHighestPriorityLabel mode)) true)
      else get? table v := by
  rw [Pool.registerCustom]
  by_cases hv : v = ch.vectorNum
  · obtain rfl := hv
    by_cases hany : (get? table ch.vectorNum).any InterruptServiceRoutine.indirect = true
    · rw [if_pos hany, if_neg fun h : _ ∧ _ => Bool.false_ne_true (h.2.symm.trans hany)]
    · rw [if_neg hany, if_pos ⟨rfl, Bool.eq_false_iff.mpr hany⟩]
      exact get?_insert_self _ _ _
  · rw [if_neg fun h : v = ch.vectorNum ∧ _ => hv h.1]
    by_cases hany : (get? table ch.vectorNum).any InterruptServiceRoutine.indirect = true
    · rw [if_pos hany]
    · rw [if_neg hany]
      exact get?_insert_ne _ _ hv

theorem get?_foldl_registerCustom (customs : List ParsedCustomHandler) (table : VectorTable) (v : ℕ) :
    get? (customs.foldl (pool.registerCustom mode) table) v =
      if v ∈ customs.map ParsedCustomHandler.vectorNum ∧ (get? table v).any InterruptServiceRoutine.indirect = false then
        some (isr mode ((get? pool.vectoredLabels v).getD (clearHighestPriorityLabel mode)) true)
      else get? table v := by
  induction customs generalizing table with
  | nil => exact (if_neg fun h => nomatch h.1).symm
  | cons ch customs ih =>
      have hstep := get?_registerCustom pool mode table ch v
      by_cases hch : v = ch.vectorNum ∧ (get? table v).any InterruptServiceRoutine.indirect = false
      · rw [if_pos hch] at hstep
        rw [List.foldl_cons, ih, hstep, if_neg fun h => Bool.false_ne_true h.2.symm,
          if_pos ⟨List.mem_cons.mpr (.inl hch.1), hch.2⟩]
      · rw [if_neg hch] at hstep
        have hiff : (v ∈ (ch :: customs).map ParsedCustomHandler.vectorNum ∧
            (get? table v).any InterruptServiceRoutine.indirect = false) ↔
            v ∈ customs.map ParsedCustomHandler.vectorNum ∧ (get? table v).any InterruptServiceRoutine.indirect = false := by
          rw [List.map_cons, List.mem_cons, or_and_right]
          exact or_iff_right hch
        rw [List.foldl_cons, ih, hstep]
        simp only [hiff]

theorem mem_customVectors {v : ℕ} :
    v ∈ pool.customVectors ↔ v ∈ pool.parsedCustomHandlers.map ParsedCustomHandler.vectorNum :=
  List.mem_dedup

/-- The registrations of custom handlers: the default of the mode, for vectors without a vectored interrupt. -/
theorem get?_customRegistrations (v : ℕ) :
    get? ((pool.parsedCustomHandlers.filter fun ch => (get? pool.vectoredLabels ch.vectorNum).isNone).map
      fun ch => (ch.vectorNum, clearHighestPriorityLabel mode)).reverse v =
      if v ∈ pool.customVectors ∧ get? pool.vectoredLabels v = none then some (clearHighestPriorityLabel mode) else none := by
  have hmem : v ∈ ((pool.parsedCustomHandlers.filter fun ch => (get? pool.vectoredLabels ch.vectorNum).isNone).map
      fun ch => (ch.vectorNum, clearHighestPriorityLabel mode)).reverse.map Prod.fst ↔
      v ∈ pool.customVectors ∧ get? pool.vectoredLabels v = none := by
    rw [mem_customVectors, List.map_reverse, List.mem_reverse, List.map_map, List.mem_map, List.mem_map]
    constructor
    · rintro ⟨ch, hch, rfl⟩
      obtain ⟨hch, hnone⟩ := List.mem_filter.mp hch
      exact ⟨⟨ch, hch, rfl⟩, Option.isNone_iff_eq_none.mp hnone⟩
    · rintro ⟨⟨ch, hch, rfl⟩, hnone⟩
      exact ⟨ch, List.mem_filter.mpr ⟨hch, Option.isNone_iff_eq_none.mpr hnone⟩, rfl⟩
  split_ifs with h
  · obtain ⟨label, hlabel⟩ := Option.isSome_iff_exists.mp (get?_isSome.mpr (hmem.mpr h))
    obtain ⟨ch, -, hch⟩ := List.mem_map.mp (List.mem_reverse.mp (mem_of_get? hlabel))
    rw [hlabel, ← (Prod.mk.inj hch).2]
  · exact get?_eq_none fun hv => h (hmem.mp hv)

/-- The vectors that are reached through a stub. -/
def Pool.isIndirect (v : ℕ) : Bool := (get? pool.vectoredLabels v).isSome || decide (v ∈ pool.customVectors)

theorem registeredLast_eq (v : ℕ) : registeredLast featmgr pool mode v =
    (if v ∈ pool.customVectors ∧ get? pool.vectoredLabels v = none then some (clearHighestPriorityLabel mode) else none).or
      ((get? pool.vectoredLabels v).or
        ((get? ((routed mode featmgr.mideleg featmgr.interruptHandlerOverrides).map fun entry =>
          (entry.1, entry.2.label)).reverse v).or (get? (defaultLabels mode).reverse v))) := by
  rw [registeredLast, registrations, List.reverse_append, List.reverse_append, List.reverse_append, get?_append, get?_append,
    get?_append, get?_customRegistrations, get?_vectoredLabels, Option.or_assoc, Option.or_assoc]

/-- The table holds what was registered last. -/
theorem get?_vectorTable (v : ℕ) : get? (vectorTable featmgr pool mode) v =
    (registeredLast featmgr pool mode v).map fun label => isr mode label (pool.isIndirect v) := by
  have hoverridden := get?_foldl_registerVector mode (initialTable mode)
    ((routed mode featmgr.mideleg featmgr.interruptHandlerOverrides).map fun entry => (entry.1, entry.2.label)) false v
  rw [List.foldl_map, initialTable, get?_foldl_registerVector, get?_nil, Option.or_none, ← Option.map_or] at hoverridden
  have hvectored := fun table => get?_foldl_registerVector mode table
    (pool.parsedVectoredInterrupts.map fun vi => (vi.index, vi.label)) true v
  simp only [List.foldl_map, ← get?_vectoredLabels] at hvectored
  rw [vectorTable, get?_foldl_registerCustom]
  simp only [← mem_customVectors]
  rw [hvectored, initialTable, hoverridden, registeredLast_eq, Pool.isIndirect]
  cases hlabel : get? pool.vectoredLabels v with
  | some label =>
      refine (if_neg fun h => Bool.false_ne_true h.2.symm).trans ?_
      rw [if_neg fun h : _ ∧ some label = none => Option.some_ne_none label h.2]
      rfl
  | none =>
      have hdirect : ∀ entry : Option Text,
          (entry.map fun label => isr mode label false).any InterruptServiceRoutine.indirect = false := by
        intro entry
        cases entry <;> rfl
      by_cases hv : v ∈ pool.customVectors
      · rw [if_pos ⟨hv, hdirect _⟩, if_pos ⟨hv, rfl⟩, decide_eq_true hv]
        rfl
      · rw [if_neg fun h => hv h.1, if_neg fun h => hv h.1, decide_eq_false hv]
        rfl

theorem nodup_keys_vectorTable : ((vectorTable featmgr pool mode).map Prod.fst).Nodup := by
  have hregister : ∀ {table : VectorTable}, (table.map Prod.fst).Nodup → ∀ v label indirect,
      ((registerVector mode table v label indirect).map Prod.fst).Nodup :=
    fun h v label indirect => nodup_keys_insert h v _
  have hinitial : ((initialTable mode).map Prod.fst).Nodup := by
    rw [initialTable, foldl_registerVector]
    exact nodup_keys_assign List.nodup_nil
  rw [vectorTable]
  refine List.foldlRecOn (motive := fun table : VectorTable => (table.map Prod.fst).Nodup) _ _ ?_ fun table h ch _ => ?_
  · refine List.foldlRecOn (motive := fun table : VectorTable => (table.map Prod.fst).Nodup) _ _ ?_
      fun table h vi _ => hregister h _ _ _
    exact List.foldlRecOn (motive := fun table : VectorTable => (table.map Prod.fst).Nodup) _ _ hinitial
      fun table h entry _ => hregister h _ _ _
  · rw [Pool.registerCustom]
    split_ifs
    · exact h
    · exact hregister h _ _ _

/-- Every vector has an entry. -/
theorem registeredLast_isSome {v : ℕ} (hv : IsVector v) : ∃ handler, registeredLast featmgr pool mode v = some handler := by
  have hdefault : (get? (defaultLabels mode).reverse v).isSome := by
    rw [get?_isSome, List.map_reverse, List.mem_reverse]
    have hkeys : (defaultLabels mode).map Prod.fst =
        [1, 3, 5, 7, 9, 11, 13] ++ reservedInterruptIndices ++ List.range' 16 (vectorCount - 16) := rfl
    have hsmall : ∀ v < 16, 1 ≤ v → v ∈ [1, 3, 5, 7, 9, 11, 13] ++ reservedInterruptIndices := by decide
    rw [hkeys, List.mem_append, List.mem_range'_1]
    obtain ⟨hlow, hhigh⟩ := hv
    rw [vectorCount] at hhigh ⊢
    rcases Nat.lt_or_ge v 16 with h16 | h16
    · exact .inl (hsmall v h16 hlow)
    · exact .inr ⟨h16, hhigh⟩
  rw [registeredLast_eq, ← Option.isSome_iff_exists]
  simp [hdefault]

end

/-! ### The code of a handler -/

section
variable (featmgr : FeatMgr) (pool : Pool) (mode : Handler)

def stubLines (entry : ℕ × InterruptServiceRoutine) : List Line :=
  if entry.2.indirect then
    if entry.1 ∈ pool.customVectors then
      [.label entry.2.jumpTableLabel, .instr (.set .t0 (.liPointer entry.1 mode.isMachine)), .instr (.set .t0 (.ld .t0)),
        .instr (.jr .t0)]
    else
      [.label entry.2.interruptHandlerPointer, .instr (.dword entry.2.label), .label entry.2.jumpTableLabel,
        .instr (.set .t0 (.ldSymbol entry.2.interruptHandlerPointer)), .instr (.jr .t0)]
  else []

theorem jumpTableEntry_eq (entry : ℕ × InterruptServiceRoutine) :
    jumpTableEntry mode pool.customVectors entry = .ok (stubLines pool mode entry) := by
  rw [jumpTableEntry, stubLines, InterruptServiceRoutine.indirectJumpTableEntry]
  split_ifs <;> rfl

def stubs : List Line := (vectorTable featmgr pool mode).flatMap (stubLines pool mode)

theorem interruptJumpTable_eq :
    interruptJumpTable mode pool.customVectors (vectorTable featmgr pool mode) = .ok (stubs featmgr pool mode) := by
  rw [interruptJumpTable, Fallible.mapM_ok fun entry _ => jumpTableEntry_eq pool mode entry, stubs,
    List.flatMap_def]
  rfl

/-- The jump for a vector. -/
def vectorJump (v : ℕ) : Code :=
  (isr mode ((registeredLast featmgr pool mode v).getD []) (pool.isIndirect v)).interruptTableEntry

def vectorJumps : List Code := (List.range' 1 (vectorCount - 1)).map (vectorJump featmgr pool mode)

theorem interruptVectorTable_eq : interruptVectorTable mode (vectorTable featmgr pool mode) =
    .ok (.label (mode.label "interrupt_vector_table") :: (vectorJumps featmgr pool mode).map .instr) := by
  have hentry : ∀ i ∈ List.range' 1 (vectorCount - 1),
      vectorTableEntry (vectorTable featmgr pool mode) i = .ok (.instr (vectorJump featmgr pool mode i)) := by
    intro i hi
    obtain ⟨hlow, hhigh⟩ := List.mem_range'_1.mp hi
    obtain ⟨handler, hhandler⟩ := registeredLast_isSome featmgr pool mode (v := i) ⟨hlow, by omega⟩
    rw [vectorTableEntry, get?_vectorTable, vectorJump, hhandler]
    rfl
  rw [interruptVectorTable, Fallible.mapM_ok hentry, vectorJumps, List.map_map]
  rfl

/-- The lines in front of the table. -/
def defaultRoutines : List Line := invalidInterrupt mode ++ generateDefaultIsrs mode ++ clearHighestInterruptBit mode

/-- The lines between the stubs and the trap handler. -/
def overrideRoutines : List Line :=
  overrideHandlers mode (routed mode featmgr.mideleg featmgr.interruptHandlerOverrides) ++
    overrideHandlers mode (routed mode featmgr.medeleg featmgr.exceptionHandlerOverrides) ++ testFail mode

/-- The lines behind it. -/
def exceptionRoutines : List Line :=
  labelLines ((["excp_entry"] ++ checkExcpNames featmgr mode ++ returnNames mode ++ ["trap_exit"]).map mode.label) ++
    featmgr.postTrap ++ labelLines ((trapExitNames featmgr mode).map mode.label) ++ isrTables pool mode

/-- The lines behind the stubs. -/
def trapRoutines : List Line :=
  overrideRoutines featmgr mode ++ (defaultTrapHandler featmgr pool mode ++ exceptionRoutines featmgr pool mode)

def handlerCode : List Line :=
  defaultRoutines mode ++ .label (trapEntryLabel mode) :: .instr (.jump (mode.label "trap_handler")) ::
    .label (mode.label "interrupt_vector_table") :: ((vectorJumps featmgr pool mode).map .instr ++
      (stubs featmgr pool mode ++ trapRoutines featmgr pool mode))

theorem generate_eq (pointers : Pointers) : generate featmgr pool mode pointers =
    .ok (handlerCode featmgr pool mode,
      registerPointers (vectorTable featmgr pool mode) pool.customVectors pointers) := by
  have hinterrupt : generateInterruptHandler mode pool.customVectors (vectorTable featmgr pool mode) =
      .ok (defaultRoutines mode ++ [.label (trapEntryLabel mode), .instr (.jump (mode.label "trap_handler"))] ++
        (.label (mode.label "interrupt_vector_table") :: (vectorJumps featmgr pool mode).map .instr) ++
        stubs featmgr pool mode) := by
    rw [generateInterruptHandler, interruptVectorTable_eq, interruptJumpTable_eq]
    rfl
  rw [generate, hinterrupt]
  refine congrArg (fun code => Except.ok (code, _)) ?_
  simp only [handlerCode, trapRoutines, overrideRoutines, exceptionRoutines, List.append_assoc, List.cons_append,
    List.nil_append]

/-! ### Labels -/

theorem labels_labelLines (names : List Text) : labels (labelLines names) = names := by
  induction names with
  | nil => rfl
  | cons name names ih => exact congrArg (name :: ·) ih

theorem labels_defaultRoutines : labels (defaultRoutines mode) = (["invalid_interrupt", "clear_all_interrupts"] ++
    interruptCauses.map (fun cause => "_CLEAR_" ++ cause.1) ++ ["clear_highest_priority_interrupt"]).map mode.label := rfl

theorem labels_testFail : labels (testFail mode) = (onlyIf (!mode.isMachine) ["test_failed"]).map mode.label := by
  cases mode <;> rfl

theorem labels_exceptionDispatch : labels (exceptionDispatch featmgr mode) = [] := by
  rw [exceptionDispatch, labels_flatMap]
  exact List.flatMap_eq_nil_iff.mpr fun _ _ => rfl

/-- The labels of the trap handler and its tables. -/
theorem perm_labels_defaultTrapHandler :
    (labels (defaultTrapHandler featmgr pool mode) ++ labels (isrTables pool mode)).Perm
      (["trap_handler", "interrupt_handler", "exception_path"].map mode.label ++ (aplicNames pool).map mode.outerLabel) := by
  rw [List.perm_iff_count]
  intro name
  cases haplic : pool.initAplicInterrupts <;>
    simp [defaultTrapHandler, isrTables, haplic, isrTableCall, vectorTableJump, labels_exceptionDispatch, aplicNames, onlyIf,
      List.count_cons]
  omega

/-- The labels of the code: those of the handler, of its stubs and of the user. -/
theorem labels_handlerCode : (labels (handlerCode featmgr pool mode)).Perm
    (ownLabels featmgr pool mode ++ (labels (stubs featmgr pool mode) ++ userLabels featmgr mode)) := by
  rw [List.perm_iff_count]
  intro name
  have htrap := (List.perm_iff_count.mp (perm_labels_defaultTrapHandler featmgr pool mode)) name
  simp only [handlerCode, trapRoutines, overrideRoutines, exceptionRoutines, ownLabels, ownNames, userLabels, labels_append,
    labels_label, labels_instr, labels_map_instr, labels_labelLines, labels_defaultRoutines, labels_testFail,
    defaultTrapHandlerNames, List.map_append, List.count_append, List.nil_append, List.map_cons, List.map_nil,
    List.count_cons, List.count_nil, trapEntryLabel] at htrap ⊢
  omega

end

/-! ### The handler's own labels -/

/-- The names that some handler uses inside. -/
def allNames : List String :=
  ["invalid_interrupt", "clear_all_interrupts"] ++ interruptCauses.map (fun cause => "_CLEAR_" ++ cause.1) ++
    ["clear_highest_priority_interrupt", "trap_entry", "interrupt_vector_table"] ++
    (["test_failed"] ++ ["trap_handler", "interrupt_handler", "exception_path", "excp_entry"] ++
      (["check_exception_label", "check_excp", "skip_mode_check", "nonzero_tval_check", "skip_nonzero_tval_check"] ++
        ["nonzero_htval_check", "skip_nonzero_htval_check", "gva_check", "skip_gva_check"] ++ ["skip_pc_check"] ++
        ["count_ignored_excp", "pc_plus_two", "pc_plus_four", "jump_over_pc", "soft_end_test"]) ++
      (["ecall_from_machine", "ecall_from_supervisor", "return_to_host", "skip_xepc_write"] ++
        ["assert_disable_triggers_loop", "assert_check_icount", "assert_check_itrig_etrig", "assert_set_itrig_etrig_mask",
          "assert_apply_priv_mask", "skip_assert_disable_triggers"]) ++ ["trap_exit"]) ++
    (["trap_exit_normal_mret"] ++ ["trap_panic"])

theorem onlyIf_sublist (condition : Bool) (names : List String) : (onlyIf condition names).Sublist names := by
  cases condition
  · exact List.nil_sublist names
  · exact List.Sublist.refl names

theorem ownNames_sublist (featmgr : FeatMgr) (mode : Handler) : (ownNames featmgr mode).Sublist allNames := by
  have hdefault := (onlyIf_sublist (!mode.isMachine) ["test_failed"]).append
    (List.Sublist.refl ["trap_handler", "interrupt_handler", "exception_path", "excp_entry"])
  have hcheck := ((((List.Sublist.refl
    ["check_exception_label", "check_excp", "skip_mode_check", "nonzero_tval_check", "skip_nonzero_tval_check"]).append
    (onlyIf_sublist (!mode.delegVirtualized)
      ["nonzero_htval_check", "skip_nonzero_htval_check", "gva_check", "skip_gva_check"])).append
    (List.Sublist.refl ["skip_pc_check"])).append (onlyIf_sublist featmgr.skipInstructionForUnexpected
      ["count_ignored_excp", "pc_plus_two", "pc_plus_four", "jump_over_pc", "soft_end_test"]))
  have hreturn := (List.Sublist.refl
    ["ecall_from_machine", "ecall_from_supervisor", "return_to_host", "skip_xepc_write"]).append
    (onlyIf_sublist mode.isMachine ["assert_disable_triggers_loop", "assert_check_icount", "assert_check_itrig_etrig",
      "assert_set_itrig_etrig_mask", "assert_apply_priv_mask", "skip_assert_disable_triggers"])
  have hexit := (onlyIf_sublist (mode.isMachine && !featmgr.pagingDisabled && featmgr.privMachine)
    ["trap_exit_normal_mret"]).append (List.Sublist.refl ["trap_panic"])
  exact ((List.Sublist.refl _).append (((hdefault.append hcheck).append hreturn).append (List.Sublist.refl _))).append hexit

theorem nodup_allNames : (allNames.map String.toList).Nodup := by decide

/-- Names that start with an underscore end with the name of an interrupt. -/
theorem getLast_allNames : ∀ name ∈ allNames.map String.toList, name.head? = some '_' → name.getLast? = some 'I' := by
  decide

theorem label_injective (mode : Handler) : Function.Injective mode.label := fun _ _ h =>
  String.toList_inj.mp (List.append_cancel_left h)

theorem outerLabel_injective (mode : Handler) : Function.Injective mode.outerLabel := fun _ _ h =>
  label_injective mode (List.append_cancel_left h)

theorem head_label (mode : Handler) (text : Text) : (mode.labelPrefix ++ text).head? = some 't' := by
  cases mode <;> rfl

theorem nodup_ownLabels (featmgr : FeatMgr) (pool : Pool) (mode : Handler) : (ownLabels featmgr pool mode).Nodup := by
  have hnames : allNames.Nodup := List.Nodup.of_map _ nodup_allNames
  have haplic : (aplicNames pool).Nodup :=
    (List.Nodup.of_map String.toList (by decide)).sublist (onlyIf_sublist pool.initAplicInterrupts _)
  refine List.nodup_append.mpr ⟨(hnames.sublist (ownNames_sublist featmgr mode)).map (label_injective mode),
    haplic.map (outerLabel_injective mode), ?_⟩
  rintro name hname other hother rfl
  obtain ⟨inner, -, hinner⟩ := List.mem_map.mp hname
  obtain ⟨outer, -, houter⟩ := List.mem_map.mp hother
  have hhead : name.head? = some 't' := hinner ▸ head_label mode inner.toList
  have hhead' : name.head? = some '_' := houter ▸ rfl
  exact absurd (hhead.symm.trans hhead') (by decide)

/-- A name of the handler is no name of a stub: these start with an underscore and end with neither letter. -/
theorem notMem_ownLabels (featmgr : FeatMgr) (pool : Pool) (mode : Handler) (text : Text) (last : Char)
    (hlast : last ≠ 'I') :
    mode.labelPrefix ++ '_' :: (text ++ [last]) ∉ ownLabels featmgr pool mode := by
  intro hmem
  rcases List.mem_append.mp hmem with hinner | houter
  · obtain ⟨name, hname, heq⟩ := List.mem_map.mp hinner
    have hlist : name.toList = '_' :: (text ++ [last]) := List.append_cancel_left heq
    have hI := getLast_allNames name.toList (List.mem_map_of_mem ((ownNames_sublist featmgr mode).subset hname))
      (by rw [hlist]; rfl)
    rw [hlist, ← List.cons_append, List.getLast?_append_cons, List.getLast?_singleton] at hI
    exact hlast (Option.some.inj hI)
  · obtain ⟨name, -, heq⟩ := List.mem_map.mp houter
    have hhead : (mode.outerLabel name).head? = some 't' := heq ▸ head_label mode ('_' :: (text ++ [last]))
    have hhead' : (mode.outerLabel name).head? = some '_' := rfl
    exact absurd (hhead.symm.trans hhead') (by decide)

/-! ### Stubs -/

theorem stubLabel_injective (mode : Handler) : Function.Injective (stubLabel mode) := fun _ _ h =>
  List.append_cancel_left (List.append_cancel_right h)

theorem pointerLabel_injective (mode : Handler) : Function.Injective (pointerLabel mode) := fun _ _ h =>
  List.append_cancel_left (List.append_cancel_right h)

theorem stubLabel_ne_pointerLabel (mode : Handler) (label other : Text) : stubLabel mode label ≠ pointerLabel mode other := by
  intro h
  have hlast : (stubLabel mode label).getLast? = some 'e' := List.getLast?_append_of_ne_nil _ (by decide)
  have hlast' : (pointerLabel mode other).getLast? = some 'r' := List.getLast?_append_of_ne_nil _ (by decide)
  exact absurd (hlast.symm.trans ((congrArg List.getLast? h).trans hlast')) (by decide)

section
variable (featmgr : FeatMgr) (pool : Pool) (mode : Handler)

theorem stubLabel_notMem_ownLabels (label : Text) : stubLabel mode label ∉ ownLabels featmgr pool mode := by
  have h := notMem_ownLabels featmgr pool mode (label ++ "_jump_tabl".toList) 'e' (by decide)
  have heq : mode.labelPrefix ++ '_' :: (label ++ "_jump_tabl".toList ++ ['e']) = stubLabel mode label := by
    simp [stubLabel]
  exact heq ▸ h

theorem pointerLabel_notMem_ownLabels (label : Text) : pointerLabel mode label ∉ ownLabels featmgr pool mode := by
  have h := notMem_ownLabels featmgr pool mode (label ++ "_handler_pointe".toList) 'r' (by decide)
  have heq : mode.labelPrefix ++ '_' :: (label ++ "_handler_pointe".toList ++ ['r']) = pointerLabel mode label := by
    simp [pointerLabel]
  exact heq ▸ h

variable {featmgr pool mode}

theorem stubLines_custom {v : ℕ} (hv : v ∈ pool.customVectors) (label : Text) : stubLines pool mode (v, isr mode label true) =
    [.label (stubLabel mode label), .instr (.set .t0 (.liPointer v mode.isMachine)), .instr (.set .t0 (.ld .t0)),
      .instr (.jr .t0)] :=
  (if_pos rfl).trans (if_pos hv)

theorem stubLines_plain {v : ℕ} (hv : v ∉ pool.customVectors) (label : Text) : stubLines pool mode (v, isr mode label true) =
    [.label (pointerLabel mode label), .instr (.dword label), .label (stubLabel mode label),
      .instr (.set .t0 (.ldSymbol (pointerLabel mode label))), .instr (.jr .t0)] :=
  (if_pos rfl).trans (if_neg hv)

/-- The labels of the stub of one vector. -/
theorem mem_labels_stubLines {v : ℕ} {label name : Text} {indirect : Bool} :
    name ∈ labels (stubLines pool mode (v, isr mode label indirect)) ↔
      indirect = true ∧ (name = stubLabel mode label ∨ v ∉ pool.customVectors ∧ name = pointerLabel mode label) := by
  cases indirect with
  | false => exact ⟨nofun, fun h => nomatch h.1⟩
  | true =>
      by_cases hv : v ∈ pool.customVectors
      · have hlabels : labels (stubLines pool mode (v, isr mode label true)) = [stubLabel mode label] := by
          rw [stubLines_custom hv]
          rfl
        rw [hlabels, List.mem_singleton]
        exact ⟨fun h => ⟨rfl, .inl h⟩, fun h => h.2.resolve_right fun h => h.1 hv⟩
      · have hlabels : labels (stubLines pool mode (v, isr mode label true)) =
            [pointerLabel mode label, stubLabel mode label] := by
          rw [stubLines_plain hv]
          rfl
        rw [hlabels, List.mem_cons, List.mem_singleton]
        exact ⟨fun h => ⟨rfl, h.symm.imp_right fun h => ⟨hv, h⟩⟩, fun h => h.2.symm.imp_left And.right⟩

theorem nodup_labels_stubLines (v : ℕ) (label : Text) (indirect : Bool) :
    (labels (stubLines pool mode (v, isr mode label indirect))).Nodup := by
  rw [stubLines]
  split_ifs
  · exact List.nodup_singleton _
  · exact List.nodup_cons.mpr ⟨fun h => stubLabel_ne_pointerLabel mode label label (List.mem_singleton.mp h).symm,
      List.nodup_singleton _⟩
  · exact List.nodup_nil

/-- The entries of the table. -/
theorem mem_vectorTable {v : ℕ} {routine : InterruptServiceRoutine} : (v, routine) ∈ vectorTable featmgr pool mode ↔
    ∃ label, registeredLast featmgr pool mode v = some label ∧ routine = isr mode label (pool.isIndirect v) := by
  constructor
  · intro h
    have hget := get?_of_mem (nodup_keys_vectorTable featmgr pool mode) h
    rw [get?_vectorTable] at hget
    obtain ⟨label, hlabel, heq⟩ := Option.map_eq_some_iff.mp hget
    exact ⟨label, hlabel, heq.symm⟩
  · rintro ⟨label, hlabel, heq⟩
    have hget := get?_vectorTable featmgr pool mode v
    rw [hlabel, Option.map_some, ← heq] at hget
    exact mem_of_get? hget

theorem mem_labels_stubs {name : Text} : name ∈ labels (stubs featmgr pool mode) ↔
    ∃ v label, registeredLast featmgr pool mode v = some label ∧ pool.isIndirect v = true ∧
      (name = stubLabel mode label ∨ v ∉ pool.customVectors ∧ name = pointerLabel mode label) := by
  rw [stubs, labels_flatMap, List.mem_flatMap]
  constructor
  · rintro ⟨⟨v, routine⟩, hentry, hname⟩
    obtain ⟨label, hlabel, rfl⟩ := mem_vectorTable.mp hentry
    exact ⟨v, label, hlabel, mem_labels_stubLines.mp hname⟩
  · rintro ⟨v, label, hlabel, hname⟩
    exact ⟨(v, isr mode label (pool.isIndirect v)), mem_vectorTable.mpr ⟨label, hlabel, rfl⟩,
      mem_labels_stubLines.mpr hname⟩

/-- No stub label is set twice when the vectors with stubs have different handlers. -/
theorem nodup_labels_stubs : (labels (stubs featmgr pool mode)).Nodup ↔
    ∀ v w label, pool.isIndirect v = true → pool.isIndirect w = true → registeredLast featmgr pool mode v = some label →
      registeredLast featmgr pool mode w = some label → v = w := by
  have hkeys := nodup_keys_vectorTable featmgr pool mode
  rw [stubs, labels_flatMap, List.nodup_flatMap]
  constructor
  · rintro ⟨-, hpairwise⟩ v w label hv hw hlabel hlabel'
    by_contra hne
    have hmem : (v, isr mode label (pool.isIndirect v)) ∈ vectorTable featmgr pool mode :=
      mem_vectorTable.mpr ⟨label, hlabel, rfl⟩
    have hmem' : (w, isr mode label (pool.isIndirect w)) ∈ vectorTable featmgr pool mode :=
      mem_vectorTable.mpr ⟨label, hlabel', rfl⟩
    have : Std.Symm (Function.onFun List.Disjoint fun entry => labels (stubLines pool mode entry)) :=
      ⟨fun _ _ h => h.symm⟩
    have hdisjoint := hpairwise.forall hmem hmem' fun heq => hne (congrArg Prod.fst heq)
    exact hdisjoint (mem_labels_stubLines.mpr ⟨hv, .inl rfl⟩) (mem_labels_stubLines.mpr ⟨hw, .inl rfl⟩)
  · intro honce
    refine ⟨fun entry hentry => ?_, ?_⟩
    · obtain ⟨v, routine⟩ := entry
      obtain ⟨label, -, rfl⟩ := mem_vectorTable.mp hentry
      exact nodup_labels_stubLines v label _
    · refine (List.pairwise_map.mp hkeys).imp_of_mem fun {entry other} hentry hother hne name hname hname' => ?_
      obtain ⟨v, routine⟩ := entry
      obtain ⟨w, routine'⟩ := other
      obtain ⟨label, hlabel, rfl⟩ := mem_vectorTable.mp hentry
      obtain ⟨label', hlabel', rfl⟩ := mem_vectorTable.mp hother
      obtain ⟨hv, hname⟩ := mem_labels_stubLines.mp hname
      obtain ⟨hw, hname'⟩ := mem_labels_stubLines.mp hname'
      have heq : label = label' := by
        rcases hname with rfl | ⟨-, rfl⟩ <;> rcases hname' with hname' | ⟨-, hname'⟩
        · exact stubLabel_injective mode hname'
        · exact absurd hname' (stubLabel_ne_pointerLabel mode _ _)
        · exact absurd hname'.symm (stubLabel_ne_pointerLabel mode _ _)
        · exact pointerLabel_injective mode hname'
      exact hne (honce v w label hv hw hlabel (heq ▸ hlabel'))

end

end Riescue.InterruptDispatch
