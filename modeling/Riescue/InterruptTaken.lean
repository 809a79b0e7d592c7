import Riescue.InterruptTable

/-! Interrupts as the handlers take them. The labels lead to the vector table, in direct mode through the trap handler, and
from there to the handler that was registered last; what the pointers start with is left to machine mode, which registers
them first. -/

namespace Riescue.InterruptDispatch
open Labelled OrderedDict
open TrapHandler (Handler)

/-! ### The dispatch of one handler -/

section
variable {featmgr : FeatMgr} {pool : Pool} {mode : Handler}

theorem tableEntry_handlerCode (hnodup : (labels (handlerCode featmgr pool mode)).Nodup) {v : ℕ} (hv : IsVector v) :
    tableEntry (handlerCode featmgr pool mode) mode v = some (vectorJump featmgr pool mode v) := by
  obtain ⟨hlow, hhigh⟩ := hv
  obtain ⟨k, rfl⟩ := Nat.exists_eq_add_of_le' hlow
  have hlines := linesAt_of_nodup hnodup rfl
  have hk : k < (vectorJumps featmgr pool mode).length := by
    rw [vectorJumps, List.length_map, List.length_range']
    omega
  calc tableEntry (handlerCode featmgr pool mode) mode (k + 1)
    _ = (instrs ((vectorJumps featmgr pool mode).map .instr ++
          (stubs featmgr pool mode ++ trapRoutines featmgr pool mode)))[k]? := by rw [tableEntry, hlines]; rfl
    _ = (vectorJumps featmgr pool mode)[k]? := by rw [instrs_map_instr_append, List.getElem?_append_left hk]
    _ = some (vectorJump featmgr pool mode (k + 1)) := by
        rw [List.getElem?_eq_getElem hk]
        simp only [vectorJumps, List.getElem_map, List.getElem_range', Nat.one_mul, Nat.add_comm]

/-- The stub of a vector stands in the code. -/
theorem stub_placed {v : ℕ} {label : Text} (hlabel : registeredLast featmgr pool mode v = some label)
    (hindirect : pool.isIndirect v = true) :
    ∃ front back, handlerCode featmgr pool mode = front ++ (stubLines pool mode (v, isr mode label true) ++ back) := by
  have hmem : (v, isr mode label true) ∈ vectorTable featmgr pool mode :=
    mem_vectorTable.mpr ⟨label, hlabel, hindirect ▸ rfl⟩
  obtain ⟨before, after, htable⟩ := List.append_of_mem hmem
  have hstubs : stubs featmgr pool mode = before.flatMap (stubLines pool mode) ++
      (stubLines pool mode (v, isr mode label true) ++ after.flatMap (stubLines pool mode)) := by
    rw [stubs, htable, List.flatMap_append, List.flatMap_cons]
  refine ⟨defaultRoutines mode ++ .label (trapEntryLabel mode) :: .instr (.jump (mode.label "trap_handler")) ::
    .label (mode.label "interrupt_vector_table") :: ((vectorJumps featmgr pool mode).map .instr ++
      before.flatMap (stubLines pool mode)), after.flatMap (stubLines pool mode) ++ trapRoutines featmgr pool mode, ?_⟩
  simp only [handlerCode, hstubs, List.append_assoc, List.cons_append]

theorem linesAt_custom (hnodup : (labels (handlerCode featmgr pool mode)).Nodup) {v : ℕ} {label : Text}
    (hlabel : registeredLast featmgr pool mode v = some label) (hv : v ∈ pool.customVectors) :
    ∃ rest, linesAt (stubLabel mode label) (handlerCode featmgr pool mode) =
      some (.instr (.set .t0 (.liPointer v mode.isMachine)) :: .instr (.set .t0 (.ld .t0)) :: .instr (.jr .t0) :: rest) := by
  have hindirect : pool.isIndirect v = true := by rw [Pool.isIndirect, decide_eq_true hv, Bool.or_true]
  obtain ⟨front, back, hcode⟩ := stub_placed hlabel hindirect
  rw [stubLines_custom hv] at hcode
  exact ⟨back, linesAt_of_nodup hnodup hcode⟩

/-- The stub of a vector with custom handlers jumps to what its pointer holds. -/
theorem runAt_custom (hnodup : (labels (handlerCode featmgr pool mode)).Nodup) {v : ℕ} {label symbol : Text}
    (hlabel : registeredLast featmgr pool mode v = some label) (hv : v ∈ pool.customVectors) {pointers : Pointers}
    (hpointer : get? pointers v = some symbol) (csrs : String → BitVec 64) (regs : Registers) :
    runAt mode (handlerCode featmgr pool mode) pointers csrs (stubLabel mode label) regs =
      some (.symbol symbol 0, { regs with t0 := .symbol symbol 0 }) := by
  obtain ⟨rest, hlines⟩ := linesAt_custom hnodup hlabel hv
  rw [runAt, hlines]
  simp [run, Source.eval, load, Registers.get, Registers.set, hpointer]

/-- The stub of another vector jumps to the handler. -/
theorem runAt_plain (hnodup : (labels (handlerCode featmgr pool mode)).Nodup) {v : ℕ} {label : Text}
    (hlabel : registeredLast featmgr pool mode v = some label) (hindirect : pool.isIndirect v = true)
    (hv : v ∉ pool.customVectors) (pointers : Pointers) (csrs : String → BitVec 64) (regs : Registers) :
    runAt mode (handlerCode featmgr pool mode) pointers csrs (stubLabel mode label) regs =
      some (.symbol label 0, { regs with t0 := .symbol label 0 }) := by
  obtain ⟨front, back, hcode⟩ := stub_placed hlabel hindirect
  rw [stubLines_plain hv] at hcode
  have hword : load (handlerCode featmgr pool mode) pointers (.symbol (pointerLabel mode label) 0#64) =
      some (.symbol label 0#64) := by
    rw [load, linesAt_of_nodup hnodup hcode]
    rfl
  have hcode' : handlerCode featmgr pool mode =
      (front ++ [.label (pointerLabel mode label), .instr (.dword label)]) ++ .label (stubLabel mode label) ::
        ([.instr (.set .t0 (.ldSymbol (pointerLabel mode label))), .instr (.jr .t0)] ++ back) := by
    rw [hcode, List.append_assoc]
    rfl
  rw [runAt, linesAt_of_nodup hnodup hcode']
  simp [run, Source.eval, Registers.get, Registers.set, hword]

/-! ### The entry of the trap handler -/

theorem runAt_trapEntry (hnodup : (labels (handlerCode featmgr pool mode)).Nodup) (pointers : Pointers)
    (csrs : String → BitVec 64) (regs : Registers) :
    runAt mode (handlerCode featmgr pool mode) pointers csrs (trapEntryLabel mode) regs =
      some (.symbol (mode.label "trap_handler") 0, regs) := by
  rw [runAt, linesAt_of_nodup hnodup rfl, Option.bind_some, run]

/-- The arithmetic on the cause of an interrupt. -/
theorem interruptBit_and_ne_zero : ∀ cause < vectorCount, interruptBit &&& (interruptBit ||| .ofNat 64 cause) ≠ 0#64 := by
  decide

theorem entryOffset_eq : ∀ cause < vectorCount,
    ((interruptBit ||| .ofNat 64 cause) ^^^ interruptBit) <<< 2 = BitVec.ofNat 64 (4 * cause) := by
  decide

variable (featmgr pool mode) in
theorem trapHandler_placed : ∃ front back, handlerCode featmgr pool mode = front ++ .label (mode.label "trap_handler") ::
    ([.instr (.set .t0 (.csr mode.xcause)), .instr (.set .t1 (.li interruptBit)), .instr (.set .t1 (.alu .and .t1 .t0)),
      .instr (.beq .t1 .x0 (mode.label "exception_path")), .label (mode.label "interrupt_handler")] ++
      ((if pool.initAplicInterrupts then isrTableCall mode else vectorTableJump mode) ++ back)) := by
  refine ⟨defaultRoutines mode ++ .label (trapEntryLabel mode) :: .instr (.jump (mode.label "trap_handler")) ::
    .label (mode.label "interrupt_vector_table") :: ((vectorJumps featmgr pool mode).map .instr ++
      (stubs featmgr pool mode ++ overrideRoutines featmgr mode)),
    .label (mode.label "exception_path") :: exceptionDispatch featmgr mode ++
      [.instr (.other "save_context"), .instr (.jump (mode.label "excp_entry"))] ++ exceptionRoutines featmgr pool mode, ?_⟩
  simp only [handlerCode, trapRoutines, defaultTrapHandler, List.append_assoc, List.cons_append, List.nil_append]

/-- The trap handler goes past its test for an exception. -/
theorem runAt_trapHandler (hnodup : (labels (handlerCode featmgr pool mode)).Nodup) (pointers : Pointers)
    (interrupt : Interrupt mode) (regs : Registers) :
    ∃ regs' back, regs'.t0 = .word (interruptBit ||| .ofNat 64 interrupt.cause) ∧
      runAt mode (handlerCode featmgr pool mode) pointers interrupt.csrs (mode.label "trap_handler") regs =
        run mode (handlerCode featmgr pool mode) pointers interrupt.csrs regs'
          ((if pool.initAplicInterrupts then isrTableCall mode else vectorTableJump mode) ++ back) := by
  obtain ⟨front, back, hcode⟩ := trapHandler_placed featmgr pool mode
  refine ⟨{ t0 := .word (interruptBit ||| .ofNat 64 interrupt.cause)
            t1 := .word (interruptBit &&& (interruptBit ||| .ofNat 64 interrupt.cause)) }, back, rfl, ?_⟩
  rw [runAt, linesAt_of_nodup hnodup hcode]
  simp [run, Source.eval, AluOp.apply, AluOp.eval, Registers.get, Registers.set, interrupt.xcause,
    interruptBit_and_ne_zero interrupt.cause interrupt.isVector.2]

/-- Without the APLIC an interrupt comes to its entry of the vector table, in either mode of `tvec`. -/
theorem exists_entered (hnodup : (labels (handlerCode featmgr pool mode)).Nodup) (pointers : Pointers)
    (interrupt : Interrupt mode) {tvec : TvecMode} (haplic : tvec = .direct → pool.initAplicInterrupts = false) :
    ∃ regs, entered (handlerCode featmgr pool mode) pointers interrupt tvec = some (entryAddress interrupt, regs) := by
  cases tvec with
  | vectored => exact ⟨interrupt.regs, rfl⟩
  | direct =>
      obtain ⟨regs, back, ht0, hrun⟩ := runAt_trapHandler hnodup pointers interrupt interrupt.regs
      rw [haplic rfl, if_neg Bool.false_ne_true] at hrun
      rw [entered, runAt_trapEntry hnodup, Option.bind_some]
      show ∃ _, runAt _ _ _ _ (mode.label "trap_handler") interrupt.regs = _
      rw [hrun]
      simp [vectorTableJump, run, Source.eval, AluOp.apply, AluOp.eval, AluImmOp.apply, AluImmOp.eval, Registers.get,
        Registers.set, ht0, entryAddress, entryOffset_eq interrupt.cause interrupt.isVector.2]

/-- The supervisor software interrupt of a mode. -/
def softwareInterrupt (mode : Handler) : Interrupt mode where
  cause := 1
  csrs _ := interruptBit ||| 1
  regs := { t0 := .word 0, t1 := .word 0 }
  isVector := ⟨by decide, by decide⟩
  xcause := rfl

variable (featmgr mode) in
theorem isrTable_placed (haplic : pool.initAplicInterrupts = true) : ∃ front, handlerCode featmgr pool mode =
    front ++ .label (mode.outerLabel "isr_table") :: [.instr (.zero 88), .instr (.dword (mode.outerLabel "aplic_isr")),
      .instr (.zero 416), .label (mode.outerLabel "aplic_isr_table"), .instr (.zero 2048)] := by
  refine ⟨defaultRoutines mode ++ .label (trapEntryLabel mode) :: .instr (.jump (mode.label "trap_handler")) ::
    .label (mode.label "interrupt_vector_table") :: ((vectorJumps featmgr pool mode).map .instr ++
      (stubs featmgr pool mode ++ (overrideRoutines featmgr mode ++ (defaultTrapHandler featmgr pool mode ++
        (labelLines ((["excp_entry"] ++ checkExcpNames featmgr mode ++ returnNames mode ++ ["trap_exit"]).map mode.label) ++
          featmgr.postTrap ++ labelLines ((trapExitNames featmgr mode).map mode.label)))))), ?_⟩
  simp only [handlerCode, trapRoutines, exceptionRoutines, isrTables, haplic, if_true, List.append_assoc, List.cons_append,
    List.nil_append]

/-- With the APLIC an interrupt in direct mode goes through `isr_table`; most find nothing there, and the test fails. -/
theorem entered_softwareInterrupt (hnodup : (labels (handlerCode featmgr pool mode)).Nodup) (pointers : Pointers)
    (haplic : pool.initAplicInterrupts = true) :
    ∃ regs, entered (handlerCode featmgr pool mode) pointers (softwareInterrupt mode) .direct =
      some (.symbol "test_failed".toList 0, regs) := by
  obtain ⟨regs, back, -, hrun⟩ := runAt_trapHandler hnodup pointers (softwareInterrupt mode) (softwareInterrupt mode).regs
  rw [haplic, if_pos rfl] at hrun
  obtain ⟨front, htable⟩ := isrTable_placed featmgr mode haplic
  have hentry : load (handlerCode featmgr pool mode) pointers (.symbol (mode.outerLabel "isr_table") 8#64) =
      some (.word 0) := by
    rw [load, linesAt_of_nodup hnodup htable]
    rfl
  have hoffset : ((0x8000000000000001#64 &&& ~~~BitVec.twoPow 64 63) &&& 0x7fffffffffffffff#64) <<< 3 = 8#64 := by decide
  rw [entered, runAt_trapEntry hnodup, Option.bind_some]
  show ∃ _, runAt _ _ _ _ (mode.label "trap_handler") _ = _
  rw [hrun]
  simp [isrTableCall, run, Source.eval, softwareInterrupt, interruptBit, AluOp.apply, AluOp.eval, AluImmOp.apply,
    AluImmOp.eval, Registers.get, Registers.set, hoffset, hentry]

/-! ### The pointers -/

theorem get?_addInterruptHandlerPointer (pointers : Pointers) (vector : ℕ) (label : Text) (v : ℕ) :
    get? (addInterruptHandlerPointer pointers vector label) v =
      (get? pointers v).or (if v = vector then some label else none) := by
  rw [addInterruptHandlerPointer]
  by_cases hv : v = vector
  · obtain rfl := hv
    rw [if_pos rfl]
    cases h : get? pointers v with
    | none => exact get?_insert_self pointers v label
    | some label' => exact h
  · rw [if_neg hv, Option.or_none]
    split_ifs
    · exact get?_insert_ne pointers label hv
    · rfl

/-- The first handler decides on a pointer. -/
theorem get?_registerPointers (table : VectorTable) (customVectors : List ℕ) (pointers : Pointers) (v : ℕ) :
    get? (registerPointers table customVectors pointers) v = (get? pointers v).or
      (if v ∈ customVectors then (get? table v).map InterruptServiceRoutine.label else none) := by
  induction customVectors generalizing pointers with
  | nil => exact (Option.or_none).symm
  | cons vector customVectors ih =>
      rw [registerPointers, List.foldl_cons, ← registerPointers, ih]
      by_cases hv : v = vector
      · obtain rfl := hv
        rw [if_pos List.mem_cons_self]
        cases htable : get? table v with
        | none => split_ifs <;> rfl
        | some routine =>
            show (get? (addInterruptHandlerPointer pointers v routine.label) v).or _ = _
            rw [get?_addInterruptHandlerPointer, if_pos rfl, Option.or_assoc]
            rfl
      · have hmem : v ∈ vector :: customVectors ↔ v ∈ customVectors := by
          rw [List.mem_cons]
          exact or_iff_right hv
        simp only [hmem]
        cases htable : get? table vector with
        | none => rfl
        | some routine =>
            show (get? (addInterruptHandlerPointer pointers vector routine.label) v).or _ = _
            rw [get?_addInterruptHandlerPointer, if_neg hv, Option.or_none]

variable (featmgr pool) in
/-- The pointers after the handlers of some modes. -/
def pointersAfter (modes : List Handler) (pointers : Pointers) : Pointers :=
  modes.foldl (fun pointers mode => registerPointers (vectorTable featmgr pool mode) pool.customVectors pointers) pointers

theorem get?_pointersAfter {pointers : Pointers} {v : ℕ} {label : Text} (h : get? pointers v = some label)
    (modes : List Handler) : get? (pointersAfter featmgr pool modes pointers) v = some label := by
  induction modes generalizing pointers with
  | nil => exact h
  | cons mode modes ih => exact ih (by rw [get?_registerPointers, h]; rfl)

theorem generateAll_eq : generateAll featmgr pool =
    .ok ((handlers featmgr).map fun mode => (mode, handlerCode featmgr pool mode),
      pointersAfter featmgr pool (handlers featmgr) []) := by
  have hfold : ∀ (modes : List Handler) (done : List (Handler × List Line) × Pointers),
      modes.foldlM (generateNext featmgr pool) done =
        .ok (done.1 ++ modes.map fun mode => (mode, handlerCode featmgr pool mode), pointersAfter featmgr pool modes done.2) := by
    intro modes
    induction modes with
    | nil => exact fun done => by rw [List.map_nil, List.append_nil]; rfl
    | cons mode modes ih =>
        intro done
        rw [List.foldlM_cons, generateNext, generate_eq]
        refine (ih _).trans ?_
        rw [List.append_assoc]
        rfl
  exact hfold (handlers featmgr) ([], [])

variable (pool) in
/-- What the pointer of a vector with custom handlers starts with, in all modes. -/
def sharedDefault (v : ℕ) : Text := (get? pool.vectoredLabels v).getD (clearHighestPriorityLabel .m)

theorem registeredLast_vectored {v : ℕ} {label : Text} (h : get? pool.vectoredLabels v = some label) :
    registeredLast featmgr pool mode v = some label := by
  rw [registeredLast_eq, h, if_neg fun h => by cases h.2]
  rfl

/-- The default of the mode: all that a custom handler registers. -/
theorem registeredLast_custom {v : ℕ} (hv : v ∈ pool.customVectors) (h : get? pool.vectoredLabels v = none) :
    registeredLast featmgr pool mode v = some (clearHighestPriorityLabel mode) := by
  rw [registeredLast_eq, if_pos ⟨hv, h⟩]
  rfl

/-- The pointers are those that machine mode registers. -/
theorem get?_pointers {v : ℕ} (hv : v ∈ pool.customVectors) :
    get? (pointersAfter featmgr pool (handlers featmgr) []) v = some (sharedDefault pool v) := by
  have hlabel : registeredLast featmgr pool .m v = some (sharedDefault pool v) := by
    rw [sharedDefault]
    cases hvectored : get? pool.vectoredLabels v with
    | some label => exact registeredLast_vectored hvectored
    | none => exact registeredLast_custom hv hvectored
  have hfirst : get? (registerPointers (vectorTable featmgr pool .m) pool.customVectors []) v =
      some (sharedDefault pool v) := by
    rw [get?_registerPointers, if_pos hv, get?_vectorTable, hlabel]
    rfl
  obtain ⟨modes, hmodes⟩ : ∃ modes, handlers featmgr = .m :: modes := by
    rw [handlers]
    split_ifs
    · exact ⟨_, rfl⟩
    · exact ⟨_, rfl⟩
  rw [hmodes]
  exact get?_pointersAfter hfirst modes

/-! ### One handler -/

/-- What a handler takes an interrupt to, when the pointers of vectors with custom handlers start with its own default. -/
theorem takenTo_handlerCode (hnodup : (labels (handlerCode featmgr pool mode)).Nodup) {pointers : Pointers}
    (hpointers : ∀ v ∈ pool.customVectors, get? pointers v = registeredLast featmgr pool mode v) {tvec : TvecMode}
    (haplic : tvec = .direct → pool.initAplicInterrupts = false) (interrupt : Interrupt mode) {label : Text}
    (hlabel : registeredLast featmgr pool mode interrupt.cause = some label) :
    TakenTo (handlerCode featmgr pool mode) pointers tvec interrupt label := by
  obtain ⟨regs, hregs⟩ := exists_entered hnodup pointers interrupt haplic
  have hentry := tableEntry_handlerCode hnodup interrupt.isVector
  rw [vectorJump, hlabel] at hentry
  refine ⟨regs, hregs, ?_⟩
  cases hindirect : pool.isIndirect interrupt.cause with
  | false =>
      rw [hindirect] at hentry
      exact ⟨label, hentry, .inl rfl⟩
  | true =>
      rw [hindirect] at hentry
      refine ⟨stubLabel mode label, hentry, .inr ?_⟩
      by_cases hcustom : interrupt.cause ∈ pool.customVectors
      · exact ⟨_, runAt_custom hnodup hlabel hcustom ((hpointers _ hcustom).trans hlabel) _ _⟩
      · exact ⟨_, runAt_plain hnodup hlabel hindirect hcustom _ _ _⟩

/-- A handler dispatches right exactly when no label is set twice, the trap handler uses the vector table, and the pointers
that the modes share start with this handler's default. -/
theorem dispatchesRight_iff {tvec : TvecMode} :
    DispatchesRight featmgr pool tvec mode (handlerCode featmgr pool mode)
        (pointersAfter featmgr pool (handlers featmgr) []) ↔
      (labels (handlerCode featmgr pool mode)).Nodup ∧ (tvec = .direct → pool.initAplicInterrupts = false) ∧
        ∀ v ∈ pool.customVectors, sharedDefault pool v = clearHighestPriorityLabel mode := by
  constructor
  · intro h
    refine ⟨h.distinct, ?_, fun v hv => Option.some.inj ((get?_pointers hv).symm.trans (h.ownDefault v hv).1)⟩
    rintro rfl
    rw [← Bool.not_eq_true]
    intro haplic
    obtain ⟨handler, -, regs, hentered, -⟩ := h.dispatch (softwareInterrupt mode)
    obtain ⟨regs', hfailed⟩ := entered_softwareInterrupt h.distinct (pointersAfter featmgr pool (handlers featmgr) []) haplic
    have heq : Value.symbol "test_failed".toList 0 = entryAddress (softwareInterrupt mode) :=
      congrArg Prod.fst (Option.some.inj (hfailed.symm.trans hentered))
    cases mode <;> exact absurd heq (by decide)
  · rintro ⟨hnodup, haplic, hdefault⟩
    have hpointers : ∀ v ∈ pool.customVectors, get? (pointersAfter featmgr pool (handlers featmgr) []) v =
        registeredLast featmgr pool mode v := by
      intro v hv
      rw [get?_pointers hv]
      cases hvectored : get? pool.vectoredLabels v with
      | some label => rw [registeredLast_vectored hvectored, sharedDefault, hvectored, Option.getD_some]
      | none => rw [registeredLast_custom hv hvectored, hdefault v hv]
    refine ⟨hnodup, fun interrupt => ?_, fun v hv => ⟨(get?_pointers hv).trans (congrArg some (hdefault v hv)), ?_⟩⟩
    · obtain ⟨handler, hhandler⟩ := registeredLast_isSome featmgr pool mode interrupt.isVector
      exact ⟨handler, hhandler, takenTo_handlerCode hnodup hpointers haplic interrupt hhandler⟩
    · obtain ⟨ch, -, rfl⟩ := List.mem_map.mp ((mem_customVectors pool).mp hv)
      obtain ⟨label, hlabel⟩ := registeredLast_isSome featmgr pool mode ch.isVector
      have hindirect : pool.isIndirect ch.vectorNum = true := by rw [Pool.isIndirect, decide_eq_true hv, Bool.or_true]
      have hentry := tableEntry_handlerCode hnodup ch.isVector
      rw [vectorJump, hlabel, hindirect] at hentry
      obtain ⟨rest, hlines⟩ := linesAt_custom hnodup hlabel hv
      exact ⟨stubLabel mode label, rest, hentry, hlines⟩

end

/-! ### All handlers -/

section
variable {featmgr : FeatMgr} {pool : Pool}

theorem clearHighestPriorityLabel_ne : clearHighestPriorityLabel .m ≠ clearHighestPriorityLabel .s := by decide

theorem mem_handlers_m : Handler.m ∈ handlers featmgr := by
  rw [handlers]
  split_ifs <;> decide

theorem mem_handlers_s : Handler.s ∈ handlers featmgr := by
  rw [handlers]
  split_ifs <;> decide

theorem customVectors_eq_nil : pool.customVectors = [] ↔ pool.parsedCustomHandlers = [] := by
  rw [List.eq_nil_iff_forall_not_mem, ← List.map_eq_nil_iff (f := ParsedCustomHandler.vectorNum),
    List.eq_nil_iff_forall_not_mem]
  exact forall_congr' fun v => not_congr (mem_customVectors pool)

/-- A pointer cannot start with the defaults of two modes. -/
theorem noCustom_of_sharedDefault
    (h : ∀ mode ∈ handlers featmgr, ∀ v ∈ pool.customVectors, sharedDefault pool v = clearHighestPriorityLabel mode) :
    pool.customVectors = [] :=
  List.eq_nil_iff_forall_not_mem.mpr fun v hv =>
    clearHighestPriorityLabel_ne ((h .m mem_handlers_m v hv).symm.trans (h .s mem_handlers_s v hv))

/-- Without custom handlers the vectors with a stub are those with a vectored interrupt. -/
theorem isIndirect_iff (hcustom : pool.customVectors = []) {v : ℕ} :
    pool.isIndirect v = true ↔ ∃ label, get? pool.vectoredLabels v = some label := by
  simp [Pool.isIndirect, hcustom, Option.isSome_iff_exists]

theorem nodup_stubs (hcustom : pool.customVectors = []) (mode : Handler) :
    (labels (stubs featmgr pool mode)).Nodup ↔
      ∀ v w label, get? pool.vectoredLabels v = some label → get? pool.vectoredLabels w = some label → v = w := by
  rw [nodup_labels_stubs]
  constructor
  · intro h v w label hv hw
    exact h v w label ((isIndirect_iff hcustom).mpr ⟨label, hv⟩) ((isIndirect_iff hcustom).mpr ⟨label, hw⟩)
      (registeredLast_vectored hv) (registeredLast_vectored hw)
  · intro h v w label hv hw hlabel hlabel'
    obtain ⟨label₁, h₁⟩ := (isIndirect_iff hcustom).mp hv
    obtain ⟨label₂, h₂⟩ := (isIndirect_iff hcustom).mp hw
    obtain rfl := Option.some.inj ((registeredLast_vectored h₁).symm.trans hlabel)
    obtain rfl := Option.some.inj ((registeredLast_vectored h₂).symm.trans hlabel')
    exact h v w _ h₁ h₂

theorem notMem_stubs_iff (hcustom : pool.customVectors = []) (mode : Handler) (name : Text) :
    name ∉ labels (stubs featmgr pool mode) ↔ ∀ v label, get? pool.vectoredLabels v = some label →
      name ≠ stubLabel mode label ∧ name ≠ pointerLabel mode label := by
  rw [mem_labels_stubs]
  constructor
  · intro h v label hlabel
    have hv := fun hname => h ⟨v, label, registeredLast_vectored hlabel,
      (isIndirect_iff hcustom).mpr ⟨label, hlabel⟩, hname⟩
    refine ⟨fun heq => hv (.inl heq), fun heq => hv (.inr ⟨?_, heq⟩)⟩
    rw [hcustom]
    exact List.not_mem_nil
  · rintro h ⟨v, label, hlabel, hindirect, hname⟩
    obtain ⟨label', hlabel'⟩ := (isIndirect_iff hcustom).mp hindirect
    obtain rfl := Option.some.inj ((registeredLast_vectored hlabel').symm.trans hlabel)
    obtain ⟨hstub, hpointer⟩ := h v _ hlabel'
    exact hname.elim hstub fun hname => hpointer hname.2

theorem notMem_ownLabels_of_mem_stubs {mode : Handler} {name : Text} (hname : name ∈ labels (stubs featmgr pool mode)) :
    name ∉ ownLabels featmgr pool mode := by
  obtain ⟨v, label, -, -, rfl | ⟨-, rfl⟩⟩ := mem_labels_stubs.mp hname
  · exact stubLabel_notMem_ownLabels featmgr pool mode label
  · exact pointerLabel_notMem_ownLabels featmgr pool mode label

/-- When the labels of a handler are distinct. -/
theorem nodup_handlerCode (hcustom : pool.customVectors = []) (mode : Handler) :
    (labels (handlerCode featmgr pool mode)).Nodup ↔
      (∀ v w label, get? pool.vectoredLabels v = some label → get? pool.vectoredLabels w = some label → v = w) ∧
        (userLabels featmgr mode).Nodup ∧ ∀ name ∈ userLabels featmgr mode,
          name ∉ ownLabels featmgr pool mode ∧ ∀ v label, get? pool.vectoredLabels v = some label →
            name ≠ stubLabel mode label ∧ name ≠ pointerLabel mode label := by
  rw [(labels_handlerCode featmgr pool mode).nodup_iff, List.nodup_append, List.nodup_append, nodup_stubs hcustom]
  constructor
  · rintro ⟨-, ⟨honce, huser, hdisjoint⟩, hdisjoint'⟩
    refine ⟨honce, huser, fun name hname => ⟨fun hmem => ?_, ?_⟩⟩
    · exact hdisjoint' name hmem name (List.mem_append_right _ hname) rfl
    · exact (notMem_stubs_iff hcustom mode name).mp fun hmem => hdisjoint name hmem name hname rfl
  · rintro ⟨honce, huser, hname⟩
    refine ⟨nodup_ownLabels featmgr pool mode, ⟨honce, huser, ?_⟩, ?_⟩
    · rintro name hmem other hother rfl
      exact (notMem_stubs_iff hcustom mode name).mpr (hname name hother).2 hmem
    · rintro name hmem other hother rfl
      rcases List.mem_append.mp hother with hstub | huser
      · exact notMem_ownLabels_of_mem_stubs hstub hmem
      · exact (hname name huser).1 hmem

/-- Interrupts are dispatched right exactly when there are no custom handlers, the trap handlers use their vector tables,
vectored interrupts do not share a label, and the overrides use labels of their own. -/
theorem allDispatchRight_iff (featmgr : FeatMgr) (pool : Pool) (tvec : TvecMode) :
    AllDispatchRight featmgr pool tvec ↔ Separated featmgr pool tvec := by
  constructor
  · rintro ⟨codes, pointers, hall, hright⟩
    obtain ⟨rfl, rfl⟩ := Prod.mk.inj (Except.ok.inj (generateAll_eq.symm.trans hall))
    have hmode := fun mode hmem => dispatchesRight_iff.mp (hright (mode, handlerCode featmgr pool mode)
      (List.mem_map_of_mem hmem))
    have hcustom : pool.customVectors = [] := noCustom_of_sharedDefault fun mode hmem => (hmode mode hmem).2.2
    have hnodup := fun mode hmem => (nodup_handlerCode hcustom mode).mp (hmode mode hmem).1
    exact ⟨customVectors_eq_nil.mp hcustom, (hmode .m mem_handlers_m).2.1, (hnodup .m mem_handlers_m).1,
      fun mode hmem => (hnodup mode hmem).2⟩
  · intro h
    have hcustom := customVectors_eq_nil.mpr h.noCustom
    refine ⟨_, _, generateAll_eq, fun entry hentry => ?_⟩
    obtain ⟨mode, hmode, rfl⟩ := List.mem_map.mp hentry
    refine dispatchesRight_iff.mpr ⟨?_, h.vectorTable, fun v hv => ?_⟩
    · exact (nodup_handlerCode hcustom mode).mpr ⟨h.labelOnce, h.overridesApart mode hmode⟩
    · rw [hcustom] at hv
      cases hv

end

/-- A test without overrides. -/
def plainFeatMgr : FeatMgr where
  interruptHandlerOverrides := []
  exceptionHandlerOverrides := []
  mideleg := 0
  medeleg := 0
  skipInstructionForUnexpected := false
  pagingDisabled := true
  privMachine := false
  virtualized := false
  postTrap := []

/-- One custom handler, for the supervisor software interrupt. -/
def customPool : Pool where
  parsedVectoredInterrupts := []
  parsedCustomHandlers := [⟨1, "handler_a".toList, by decide⟩]
  initAplicInterrupts := false

/-- Supervisor mode starts with the default of machine mode, which returns with `mret`. -/
theorem not_allDispatchRight_customHandler : ¬AllDispatchRight plainFeatMgr customPool .vectored := by
  rintro ⟨codes, pointers, hall, hright⟩
  obtain ⟨rfl, rfl⟩ := Prod.mk.inj (Except.ok.inj (generateAll_eq.symm.trans hall))
  have hshared : sharedDefault customPool 1 = clearHighestPriorityLabel .s :=
    (dispatchesRight_iff.mp (hright (.s, _) (List.mem_map_of_mem mem_handlers_s))).2.2 1 (by decide)
  exact clearHighestPriorityLabel_ne hshared

end Riescue.InterruptDispatch
