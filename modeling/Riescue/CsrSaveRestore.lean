import Riescue.LibSaveRestore
import Riescue.LibStableSort
import Riescue.PrivilegeBlocks

/-! The CSRs of a test, `Transformer._save_csrs` and `_restore_csrs`: the CSR writes of the test and of the privilege blocks are
collected, each CSR is read into a page in front of the test and written back behind it. A CSR of an AssertException block is
saved only if it is written elsewhere, too. Which CSR `force_machine_rw` reaches is kept; the analysis does not look at it. -/

namespace Riescue.CsrSaveRestore
open PrivilegeBlocks (Mode MarkerType BlockInstructions)
open SaveRestore (Cells)

/-! ### The writes of an instruction -/

/-- The value of an operand. -/
inductive OperandVal where
  | none
  | str (val : String)
  | int (val : ℤ)
  | register (num : ℕ)
  deriving DecidableEq, Repr

/-- What a `CsrApiInstruction` has besides. -/
structure CsrApi where
  csrName : String
  apiCall : String
  forceMachineRw : Bool
  deriving DecidableEq, Repr

/-- An instruction, as far as the analysis looks at it: the CSR operand by its text, and the marker of an AssertException
block. -/
structure Instruction where
  name : String
  api : Option CsrApi
  csrOperand : Option String
  immediateOperand : Option OperandVal
  rs1 : Option OperandVal
  marker : Option MarkerType
  deriving DecidableEq, Repr

namespace Instruction

def readsImmediate (instr : Instruction) : Bool := decide ("i".toList <:+ instr.name.toList)

def rs1IsZero (instr : Instruction) : Bool :=
  match instr.rs1 with
  | none => true
  | some (.register num) => decide (num = 0)
  | some (.str val) => decide (val ∈ ["x0", "zero"])
  | some _ => false

def immediateIsZero (instr : Instruction) : Bool :=
  match instr.immediateOperand with
  | none => true
  | some val => decide (val = .int 0)

/-- The CSR of one of the six CSR instructions. -/
def accessed (instr : Instruction) : Option String :=
  if instr.name ∈ ["csrrw", "csrrwi", "csrrs", "csrrsi", "csrrc", "csrrci"] then instr.csrOperand else none

/-- `_extract_csr_write_name` -/
def extractCsrWriteName (instr : Instruction) : Option String :=
  match instr.api.filter fun api => api.apiCall ≠ "read" with
  | some api => some api.csrName
  | none =>
      instr.accessed.filter fun _ => !(if instr.readsImmediate then instr.immediateIsZero else instr.rs1IsZero)

/-- The CSR that the instruction writes: `csrrw` and `csrrwi` always write, the others unless their operand is zero. -/
def writes (instr : Instruction) : Option String :=
  match instr.api.filter fun api => api.apiCall ≠ "read" with
  | some api => some api.csrName
  | none =>
      if instr.name ∈ ["csrrw", "csrrwi"] then instr.accessed
      else instr.accessed.filter fun _ => !(if instr.readsImmediate then instr.immediateIsZero else instr.rs1IsZero)

/-- The name that the analysis finds, `if csr_name:`. -/
def tracked (instr : Instruction) : Option String := instr.extractCsrWriteName.filter (· ≠ "")

/-- `csrrw` or `csrrwi` of zero. -/
def WritesZero (instr : Instruction) : Prop :=
  instr.name ∈ ["csrrw", "csrrwi"] ∧ (if instr.readsImmediate then instr.immediateIsZero else instr.rs1IsZero) = true

/-- The analysis misses the writes of zero only. -/
theorem extractCsrWriteName_of_writes {instr : Instruction} {csrName : String} (h : instr.writes = some csrName) :
    instr.extractCsrWriteName = some csrName ∨ instr.WritesZero := by
  unfold writes at h
  unfold extractCsrWriteName
  cases hapi : instr.api.filter fun api => api.apiCall ≠ "read" with
  | some api =>
      rw [hapi] at h
      exact .inl h
  | none =>
      rw [hapi] at h
      dsimp only at h ⊢
      by_cases hname : instr.name ∈ ["csrrw", "csrrwi"]
      · rw [if_pos hname] at h
        rw [h]
        cases hzero : if instr.readsImmediate then instr.immediateIsZero else instr.rs1IsZero with
        | false => exact .inl rfl
        | true => exact .inr ⟨hname, hzero⟩
      · rw [if_neg hname] at h
        exact .inl h

end Instruction

/-! ### The analysis -/

/-- `CsrAccessContext` -/
structure CsrAccessContext where
  inRegular : Bool := false
  inPrivileged : Bool := false
  inAssertException : Bool := false
  deriving DecidableEq, Repr

/-- `csr_access_contexts` -/
abbrev Contexts := List (String × CsrAccessContext)

def Contexts.update (contexts : Contexts) (csrName : String) (set : CsrAccessContext → CsrAccessContext) : Contexts :=
  OrderedDict.insert contexts csrName (set ((OrderedDict.get? contexts csrName).getD {}))

/-- The first pass for one instruction, with whether it stands in an AssertException block. -/
def mainStep (state : Bool × Contexts) (instr : Instruction) : Bool × Contexts :=
  match instr.marker with
  | some .start => (true, state.2)
  | some .finish => (false, state.2)
  | none =>
      match instr.tracked with
      | none => state
      | some csrName =>
          (state.1, state.2.update csrName fun context =>
            if state.1 then { context with inAssertException := true } else { context with inRegular := true })

/-- The second pass for one instruction. -/
def blockStep (isVirtualized : Bool) (contexts : Contexts) (instr : Instruction) : Contexts :=
  match instr.tracked with
  | none => contexts
  | some csrName =>
      contexts.update csrName fun context =>
        if isVirtualized then { context with inPrivileged := true } else { context with inRegular := true }

def blockInstructions (blocks : BlockInstructions Instruction) : List Instruction :=
  [Mode.machine, .supervisor, .user].flatMap fun mode => (blocks mode).flatMap Prod.snd

def accessContexts (isVirtualized : Bool) (testInstructions : List Instruction) (blocks : BlockInstructions Instruction) :
    Contexts :=
  (blockInstructions blocks).foldl (blockStep isVirtualized) (testInstructions.foldl mainStep (false, [])).2

/-! ### The code -/

/-- A CSR with `force_machine_rw`. -/
abbrev Key := String × Bool

/-- The generated code: `sp` points to the page, `t2` holds the value of a CSR. -/
inductive Code where
  | li (symbol : String)
  | csrRead (key : Key)
  | sd (offset : ℕ)
  | ld (offset : ℕ)
  | csrWrite (key : Key)
  deriving DecidableEq, Repr

structure SaveState where
  instructions : List Code
  spaceIndex : ℕ
  info : List (ℕ × Key)

/-- `emit_csr_save` -/
def SaveState.emitCsrSave (s : SaveState) (key : Key) : SaveState where
  instructions := s.instructions ++ [.csrRead key, .sd s.spaceIndex]
  spaceIndex := s.spaceIndex + 8
  info := OrderedDict.insert s.info s.spaceIndex key

/-- The saves of a CSR. -/
def savedKeys (isVirtualized : Bool) (entry : String × CsrAccessContext) : List Key :=
  if isVirtualized then
    (if entry.2.inRegular then [(entry.1, false)] else []) ++ (if entry.2.inPrivileged then [(entry.1, true)] else [])
  else [(entry.1, true)]

def savedContexts (isVirtualized : Bool) (testInstructions : List Instruction) (blocks : BlockInstructions Instruction) :
    Contexts :=
  (accessContexts isVirtualized testInstructions blocks).filter fun entry => entry.2.inRegular || entry.2.inPrivileged

/-- `_save_csrs`: the code in front of the test, and what the slots of the page hold. -/
def saveCsrs (isVirtualized : Bool) (spaceName : String) (testInstructions : List Instruction)
    (blocks : BlockInstructions Instruction) : List Code × List (ℕ × Key) :=
  let contexts := savedContexts isVirtualized testInstructions blocks
  if contexts = [] then ([], [])
  else
    let keys := (StableSort.sortBy Prod.fst contexts).flatMap (savedKeys isVirtualized)
    let state := keys.foldl SaveState.emitCsrSave ⟨[.li spaceName], 0, []⟩
    (state.instructions, state.info)

/-- `_restore_csrs`: the code behind the test. -/
def restoreCsrs (allocatedCsrs : List (ℕ × Key)) (spaceName : String) : List Code :=
  if allocatedCsrs = [] then []
  else .li spaceName :: allocatedCsrs.flatMap fun slot => [.ld slot.1, .csrWrite slot.2]

/-! ### Runs -/

variable {σ V : Type}

/-- The CSRs, the page that `sp` points to, `t2`, and the doublewords of the pages. -/
structure State (σ V : Type) where
  csrs : σ
  sp : String
  t2 : V
  mem : String → ℕ → V

def Code.step (cells : Cells Key σ V) (s : State σ V) : Code → State σ V
  | .li symbol => { s with sp := symbol }
  | .csrRead key => { s with t2 := cells.read key s.csrs }
  | .sd offset => { s with mem := Function.update s.mem s.sp (Function.update (s.mem s.sp) offset s.t2) }
  | .ld offset => { s with t2 := s.mem s.sp offset }
  | .csrWrite key => { s with csrs := cells.write key s.t2 s.csrs }

def runCode (cells : Cells Key σ V) (code : List Code) (s : State σ V) : State σ V := code.foldl (Code.step cells) s

/-- An instruction that the test may execute, with where it stands. -/
structure Access where
  instr : Instruction
  privileged : Bool
  inAssertException : Bool

/-- The access is made outside of the virtual machine: from a privilege block, or by a `csr_rw` with `force_machine_rw`. -/
def Access.machine (access : Access) : Bool := access.privileged || access.instr.api.any CsrApi.forceMachineRw

/-- The CSR that an access reaches. Outside of a virtualized environment there is one for both kinds of access. -/
def Access.key (isVirtualized : Bool) (access : Access) (csrName : String) : Key :=
  (csrName, !isVirtualized || access.machine)

/-- The instructions of the test's own stream. -/
def mainAccesses : Bool → List Instruction → List Access
  | _, [] => []
  | inAssertException, instr :: rest =>
      match instr.marker with
      | some .start => mainAccesses true rest
      | some .finish => mainAccesses false rest
      | none => ⟨instr, false, inAssertException⟩ :: mainAccesses inAssertException rest

def accesses (testInstructions : List Instruction) (blocks : BlockInstructions Instruction) : List Access :=
  mainAccesses false testInstructions ++ (blockInstructions blocks).map fun instr => ⟨instr, true, false⟩

/-- The test executes instructions. It changes CSRs by the ones that write them, and leaves the page alone. -/
inductive Executes (cells : Cells Key σ V) (isVirtualized : Bool) (spaceName : String) :
    List Access → State σ V → State σ V → Prop
  | idle {s s' : State σ V} (hcsrs : s'.csrs = s.csrs) (hmem : s'.mem spaceName = s.mem spaceName) :
      Executes cells isVirtualized spaceName [] s s'
  | read {access : Access} {rest : List Access} {s s' s'' : State σ V} (hwrites : access.instr.writes = none)
      (hcsrs : s'.csrs = s.csrs) (hmem : s'.mem spaceName = s.mem spaceName)
      (hrest : Executes cells isVirtualized spaceName rest s' s'') :
      Executes cells isVirtualized spaceName (access :: rest) s s''
  | write {access : Access} {rest : List Access} {s s' s'' : State σ V} {csrName : String} (val : V)
      (hwrites : access.instr.writes = some csrName)
      (hcsrs : s'.csrs = cells.write (access.key isVirtualized csrName) val s.csrs)
      (hmem : s'.mem spaceName = s.mem spaceName) (hrest : Executes cells isVirtualized spaceName rest s' s'') :
      Executes cells isVirtualized spaceName (access :: rest) s s''

/-- In whatever order the test executes its instructions, each CSR that it writes reads afterwards as it did in front. -/
def RestoresCsrs (isVirtualized : Bool) (spaceName : String) (testInstructions : List Instruction)
    (blocks : BlockInstructions Instruction) : Prop :=
  ∀ (σ V : Type) (cells : Cells Key σ V) (trace : List Access), trace ⊆ accesses testInstructions blocks →
    ∀ s s' : State σ V,
      let saved := saveCsrs isVirtualized spaceName testInstructions blocks
      Executes cells isVirtualized spaceName trace (runCode cells saved.1 s) s' →
        ∀ access ∈ trace, ∀ csrName, access.instr.writes = some csrName →
          cells.read (access.key isVirtualized csrName) (runCode cells (restoreCsrs saved.2 spaceName) s').csrs =
            cells.read (access.key isVirtualized csrName) s.csrs

/-! ### What the analysis finds -/

/-- One access of the analysis. -/
def recordAccess (isVirtualized : Bool) (contexts : Contexts) (access : Access) : Contexts :=
  match access.instr.tracked with
  | none => contexts
  | some csrName =>
      contexts.update csrName fun context =>
        if access.privileged && isVirtualized then { context with inPrivileged := true }
        else if access.inAssertException then { context with inAssertException := true }
        else { context with inRegular := true }

theorem foldl_mainStep (isVirtualized : Bool) (testInstructions : List Instruction) (inAssertException : Bool)
    (contexts : Contexts) :
    (testInstructions.foldl mainStep (inAssertException, contexts)).2 =
      (mainAccesses inAssertException testInstructions).foldl (recordAccess isVirtualized) contexts := by
  induction testInstructions generalizing inAssertException contexts with
  | nil => rfl
  | cons instr rest ih =>
      rw [List.foldl_cons, mainAccesses]
      cases hmarker : instr.marker with
      | none =>
          have hstep : mainStep (inAssertException, contexts) instr =
              (inAssertException, recordAccess isVirtualized contexts ⟨instr, false, inAssertException⟩) := by
            rw [mainStep, hmarker, recordAccess]
            cases instr.tracked <;> rfl
          rw [hstep]
          exact ih _ _
      | some marker =>
          cases marker with
          | start => rw [mainStep, hmarker]; exact ih _ _
          | finish => rw [mainStep, hmarker]; exact ih _ _

theorem accessContexts_eq (isVirtualized : Bool) (testInstructions : List Instruction)
    (blocks : BlockInstructions Instruction) :
    accessContexts isVirtualized testInstructions blocks =
      (accesses testInstructions blocks).foldl (recordAccess isVirtualized) [] := by
  have hblock : ∀ contexts instr, blockStep isVirtualized contexts instr =
      recordAccess isVirtualized contexts ⟨instr, true, false⟩ := by
    intro contexts instr
    rw [blockStep, recordAccess]
    cases instr.tracked <;> rfl
  rw [accessContexts, accesses, List.foldl_append, List.foldl_map, foldl_mainStep isVirtualized]
  exact congrFun (congrFun (congrArg List.foldl (funext fun contexts => funext fun instr => hblock contexts instr)) _) _

/-- The flags of a name. -/
def Contexts.context (contexts : Contexts) (csrName : String) : CsrAccessContext :=
  (OrderedDict.get? contexts csrName).getD {}

/-- The access makes the analysis save a CSR in its own way, and through machine mode. -/
def Access.regular (isVirtualized : Bool) (access : Access) : Bool :=
  !(access.privileged && isVirtualized) && !access.inAssertException

def Access.forced (isVirtualized : Bool) (access : Access) : Bool := access.privileged && isVirtualized

@[simp] theorem context_update_self (contexts : Contexts) (csrName : String) (set : CsrAccessContext → CsrAccessContext) :
    (contexts.update csrName set).context csrName = set (contexts.context csrName) := by
  rw [Contexts.context, Contexts.update, OrderedDict.get?_insert_self]
  rfl

theorem context_update_ne (contexts : Contexts) {csrName other : String} (set : CsrAccessContext → CsrAccessContext)
    (hne : other ≠ csrName) : (contexts.update csrName set).context other = contexts.context other := by
  rw [Contexts.context, Contexts.update, OrderedDict.get?_insert_ne _ _ hne]
  rfl

theorem context_recordAccess (isVirtualized : Bool) (contexts : Contexts) (access : Access) (csrName : String) :
    (((recordAccess isVirtualized contexts access).context csrName).inRegular = true ↔
      (contexts.context csrName).inRegular = true ∨
        access.instr.tracked = some csrName ∧ access.regular isVirtualized = true) ∧
    (((recordAccess isVirtualized contexts access).context csrName).inPrivileged = true ↔
      (contexts.context csrName).inPrivileged = true ∨
        access.instr.tracked = some csrName ∧ access.forced isVirtualized = true) := by
  unfold recordAccess Access.regular Access.forced
  cases htracked : access.instr.tracked with
  | none => simp
  | some other =>
      dsimp only
      by_cases hname : other = csrName
      · subst hname
        rw [context_update_self]
        cases hforced : access.privileged && isVirtualized
        · cases access.inAssertException <;> simp
        · simp
      · rw [context_update_ne _ _ (Ne.symm hname)]
        simp [hname]

theorem context_foldl (isVirtualized : Bool) (all : List Access) (contexts : Contexts) (csrName : String) :
    (((all.foldl (recordAccess isVirtualized) contexts).context csrName).inRegular = true ↔
      (contexts.context csrName).inRegular = true ∨
        ∃ access ∈ all, access.instr.tracked = some csrName ∧ access.regular isVirtualized = true) ∧
    (((all.foldl (recordAccess isVirtualized) contexts).context csrName).inPrivileged = true ↔
      (contexts.context csrName).inPrivileged = true ∨
        ∃ access ∈ all, access.instr.tracked = some csrName ∧ access.forced isVirtualized = true) := by
  induction all generalizing contexts with
  | nil => simp
  | cons access rest ih =>
      obtain ⟨hregular, hforced⟩ := ih (recordAccess isVirtualized contexts access)
      obtain ⟨hregular', hforced'⟩ := context_recordAccess isVirtualized contexts access csrName
      rw [List.foldl_cons]
      constructor
      · rw [hregular, hregular', List.exists_mem_cons_iff, or_assoc]
      · rw [hforced, hforced', List.exists_mem_cons_iff, or_assoc]

theorem nodup_recordAccess {isVirtualized : Bool} {contexts : Contexts} (h : (contexts.map Prod.fst).Nodup)
    (all : List Access) : ((all.foldl (recordAccess isVirtualized) contexts).map Prod.fst).Nodup := by
  induction all generalizing contexts with
  | nil => exact h
  | cons access rest ih =>
      refine ih ?_
      unfold recordAccess
      split
      · exact h
      · exact OrderedDict.nodup_keys_insert h _ _

/-- The CSRs that are saved, in the order of the slots. -/
def saveKeys (isVirtualized : Bool) (testInstructions : List Instruction) (blocks : BlockInstructions Instruction) : List Key :=
  (StableSort.sortBy Prod.fst (savedContexts isVirtualized testInstructions blocks)).flatMap (savedKeys isVirtualized)

/-- A block has no access that is expected to trap. -/
theorem not_inAssertException {testInstructions : List Instruction} {blocks : BlockInstructions Instruction} {access : Access}
    (h : access ∈ accesses testInstructions blocks) (hprivileged : access.privileged = true) :
    access.inAssertException = false := by
  have hmain : ∀ (inAssertException : Bool) (instrs : List Instruction),
      ∀ access ∈ mainAccesses inAssertException instrs, access.privileged = false := by
    intro inAssertException instrs
    induction instrs generalizing inAssertException with
    | nil => exact List.forall_mem_nil _
    | cons instr rest ih =>
        rw [mainAccesses]
        split
        · exact ih true
        · exact ih false
        · exact List.forall_mem_cons.mpr ⟨rfl, ih inAssertException⟩
  rcases List.mem_append.mp h with hmem | hmem
  · cases (hmain false testInstructions access hmem).symm.trans hprivileged
  · obtain ⟨instr, -, rfl⟩ := List.mem_map.mp hmem
    rfl

theorem inRegular_accessContexts {isVirtualized : Bool} {testInstructions : List Instruction}
    {blocks : BlockInstructions Instruction} {csrName : String} :
    ((accessContexts isVirtualized testInstructions blocks).context csrName).inRegular = true ↔
      ∃ access ∈ accesses testInstructions blocks,
        access.instr.tracked = some csrName ∧ access.regular isVirtualized = true := by
  rw [accessContexts_eq, (context_foldl isVirtualized (accesses testInstructions blocks) [] csrName).1]
  exact or_iff_right Bool.false_ne_true

theorem inPrivileged_accessContexts {isVirtualized : Bool} {testInstructions : List Instruction}
    {blocks : BlockInstructions Instruction} {csrName : String} :
    ((accessContexts isVirtualized testInstructions blocks).context csrName).inPrivileged = true ↔
      ∃ access ∈ accesses testInstructions blocks,
        access.instr.tracked = some csrName ∧ access.forced isVirtualized = true := by
  rw [accessContexts_eq, (context_foldl isVirtualized (accesses testInstructions blocks) [] csrName).2]
  exact or_iff_right Bool.false_ne_true

theorem mem_savedKeys {isVirtualized : Bool} {entry : String × CsrAccessContext} {csrName : String} {machine : Bool} :
    (csrName, !isVirtualized || machine) ∈ savedKeys isVirtualized entry ↔
      csrName = entry.1 ∧ (isVirtualized = true → (bif machine then entry.2.inPrivileged else entry.2.inRegular) = true) := by
  cases isVirtualized with
  | false => simp [savedKeys]
  | true => cases machine <;> simp [savedKeys, and_comm]

theorem nodup_accessContexts (isVirtualized : Bool) (testInstructions : List Instruction)
    (blocks : BlockInstructions Instruction) :
    ((accessContexts isVirtualized testInstructions blocks).map Prod.fst).Nodup := by
  rw [accessContexts_eq]
  exact nodup_recordAccess (by exact List.nodup_nil) _

/-- A CSR is saved in the ways of its flags; a CSR without a context has none. -/
theorem mem_saveKeys_iff {isVirtualized : Bool} {testInstructions : List Instruction}
    {blocks : BlockInstructions Instruction} (machine : Bool) (csrName : String) :
    (csrName, !isVirtualized || machine) ∈ saveKeys isVirtualized testInstructions blocks ↔
      (((accessContexts isVirtualized testInstructions blocks).context csrName).inRegular = true ∨
        ((accessContexts isVirtualized testInstructions blocks).context csrName).inPrivileged = true) ∧
      (isVirtualized = true →
        (bif machine then ((accessContexts isVirtualized testInstructions blocks).context csrName).inPrivileged
          else ((accessContexts isVirtualized testInstructions blocks).context csrName).inRegular) = true) := by
  rw [saveKeys, List.mem_flatMap]
  constructor
  · rintro ⟨⟨name, context⟩, hentry, hkey⟩
    obtain ⟨hmem, hflags⟩ := List.mem_filter.mp (StableSort.mem_sortBy.mp hentry)
    obtain ⟨rfl, hmachine⟩ := mem_savedKeys.mp hkey
    have hget := OrderedDict.get?_of_mem (nodup_accessContexts isVirtualized testInstructions blocks) hmem
    rw [Contexts.context, hget]
    exact ⟨Bool.or_eq_true_iff.mp hflags, hmachine⟩
  · rintro ⟨hflags, hmachine⟩
    rw [Contexts.context] at hflags hmachine
    cases hget : OrderedDict.get? (accessContexts isVirtualized testInstructions blocks) csrName with
    | none =>
        rw [hget] at hflags
        rcases hflags with hflag | hflag <;> cases hflag
    | some context =>
        rw [hget] at hflags hmachine
        exact ⟨(csrName, context), StableSort.mem_sortBy.mpr (List.mem_filter.mpr
          ⟨OrderedDict.mem_of_get? hget, Bool.or_eq_true_iff.mpr hflags⟩), mem_savedKeys.mpr ⟨rfl, hmachine⟩⟩

/-- What an access reaches is saved when an access of the same kind, outside of the AssertException blocks, is tracked. -/
theorem mem_saveKeys {isVirtualized : Bool} {testInstructions : List Instruction} {blocks : BlockInstructions Instruction}
    (machine : Bool) (csrName : String) :
    (csrName, !isVirtualized || machine) ∈ saveKeys isVirtualized testInstructions blocks ↔
      ∃ other ∈ accesses testInstructions blocks, other.inAssertException = false ∧ other.instr.tracked = some csrName ∧
        (isVirtualized = true → other.privileged = machine) := by
  rw [mem_saveKeys_iff, inRegular_accessContexts, inPrivileged_accessContexts]
  cases isVirtualized with
  | false =>
      -- nothing is forced: every access outside of the blocks counts
      constructor
      · rintro ⟨⟨other, hother, htracked, hcounts⟩ | ⟨other, -, -, hforced⟩, -⟩
        · rw [Access.regular, Bool.and_false] at hcounts
          exact ⟨other, hother, Bool.not_eq_true' _ ▸ hcounts, htracked, Bool.false_ne_true.elim⟩
        · rw [Access.forced, Bool.and_false] at hforced
          cases hforced
      · rintro ⟨other, hother, hassert, htracked, -⟩
        refine ⟨.inl ⟨other, hother, htracked, ?_⟩, Bool.false_ne_true.elim⟩
        rw [Access.regular, Bool.and_false, hassert]
        rfl
  | true =>
      cases machine with
      | false =>
          rw [cond_false, inRegular_accessContexts]
          constructor
          · rintro ⟨-, hflag⟩
            obtain ⟨other, hother, htracked, hcounts⟩ := hflag rfl
            obtain ⟨hkind, hassert⟩ := Bool.and_eq_true_iff.mp hcounts
            rw [Bool.and_true] at hkind
            exact ⟨other, hother, Bool.not_eq_true' _ ▸ hassert, htracked, fun _ => Bool.not_eq_true' _ ▸ hkind⟩
          · rintro ⟨other, hother, hassert, htracked, hkind⟩
            have hregular : other.regular true = true := by
              rw [Access.regular, hkind rfl, hassert]
              rfl
            exact ⟨.inl ⟨other, hother, htracked, hregular⟩, fun _ => ⟨other, hother, htracked, hregular⟩⟩
      | true =>
          rw [cond_true, inPrivileged_accessContexts]
          constructor
          · rintro ⟨-, hflag⟩
            obtain ⟨other, hother, htracked, hforced⟩ := hflag rfl
            rw [Access.forced, Bool.and_true] at hforced
            exact ⟨other, hother, not_inAssertException hother hforced, htracked, fun _ => hforced⟩
          · rintro ⟨other, hother, -, htracked, hkind⟩
            have hforced : other.forced true = true := by
              rw [Access.forced, hkind rfl]
              rfl
            exact ⟨.inr ⟨other, hother, htracked, hforced⟩, fun _ => ⟨other, hother, htracked, hforced⟩⟩

/-! ### What the code does -/

/-- Consecutive slots of eight bytes. -/
def slots : ℕ → List Key → List (ℕ × Key)
  | _, [] => []
  | first, key :: rest => (first, key) :: slots (first + 8) rest

theorem slots_keys (first : ℕ) (keys : List Key) : (slots first keys).map Prod.snd = keys := by
  induction keys generalizing first with
  | nil => rfl
  | cons key rest ih => exact congrArg (key :: ·) (ih (first + 8))

theorem le_of_mem_slots {first : ℕ} {keys : List Key} : ∀ i ∈ (slots first keys).map Prod.fst, first ≤ i := by
  induction keys generalizing first with
  | nil => exact List.forall_mem_nil _
  | cons key rest ih =>
      exact List.forall_mem_cons.mpr ⟨le_refl first, fun i hi => (Nat.le_add_right first 8).trans (ih i hi)⟩

theorem nodup_slots (first : ℕ) (keys : List Key) : ((slots first keys).map Prod.fst).Nodup := by
  induction keys generalizing first with
  | nil => exact List.nodup_nil
  | cons key rest ih =>
      refine List.nodup_cons.mpr ⟨fun hmem => ?_, ih _⟩
      have hle := le_of_mem_slots _ hmem
      dsimp only at hle
      omega

theorem foldl_emitCsrSave (keys : List Key) (s : SaveState) (hinfo : ∀ i ∈ s.info.map Prod.fst, i < s.spaceIndex) :
    (keys.foldl SaveState.emitCsrSave s).instructions =
        s.instructions ++ (slots s.spaceIndex keys).flatMap (fun slot => [.csrRead slot.2, .sd slot.1]) ∧
      (keys.foldl SaveState.emitCsrSave s).info = s.info ++ slots s.spaceIndex keys := by
  induction keys generalizing s with
  | nil => exact ⟨(List.append_nil _).symm, (List.append_nil _).symm⟩
  | cons key rest ih =>
      have hinsert : OrderedDict.insert s.info s.spaceIndex key = s.info ++ [(s.spaceIndex, key)] :=
        OrderedDict.insert_eq_append key fun hmem => lt_irrefl _ (hinfo _ hmem)
      have hnext : ∀ i ∈ (s.emitCsrSave key).info.map Prod.fst, i < (s.emitCsrSave key).spaceIndex := by
        intro i hi
        rcases OrderedDict.mem_keys_insert.mp hi with rfl | hold
        · exact Nat.lt_add_of_pos_right (by decide)
        · exact (hinfo i hold).trans (Nat.lt_add_of_pos_right (by decide))
      obtain ⟨hinstructions, hinfo'⟩ := ih (s.emitCsrSave key) hnext
      constructor
      · rw [List.foldl_cons, hinstructions, slots, List.flatMap_cons]
        exact List.append_assoc _ _ _
      · rw [List.foldl_cons, hinfo', slots]
        exact (congrArg (· ++ _) hinsert).trans (List.append_assoc _ _ _)

section
variable (cells : Cells Key σ V)

theorem runCode_append (left right : List Code) (s : State σ V) :
    runCode cells (left ++ right) s = runCode cells right (runCode cells left s) := List.foldl_append

/-- The reads and stores fill the slots of the page. -/
theorem runCode_saves (slots : List (ℕ × Key)) (s : State σ V) :
    (runCode cells (slots.flatMap fun slot => [.csrRead slot.2, .sd slot.1]) s).csrs = s.csrs ∧
      (runCode cells (slots.flatMap fun slot => [.csrRead slot.2, .sd slot.1]) s).mem s.sp =
        SaveRestore.saveAll cells slots s.csrs (s.mem s.sp) := by
  induction slots generalizing s with
  | nil => exact ⟨rfl, rfl⟩
  | cons slot rest ih =>
      rw [List.flatMap_cons, runCode_append]
      obtain ⟨hcsrs, hmem⟩ := ih (runCode cells [.csrRead slot.2, .sd slot.1] s)
      refine ⟨hcsrs, hmem.trans ?_⟩
      exact congrArg (SaveRestore.saveAll cells rest s.csrs) (Function.update_self s.sp _ _)

/-- The loads and writes restore the slots of the page. -/
theorem runCode_restores (slots : List (ℕ × Key)) (s : State σ V) :
    (runCode cells (slots.flatMap fun slot => [.ld slot.1, .csrWrite slot.2]) s).csrs =
      SaveRestore.restoreAll cells slots (s.mem s.sp) s.csrs := by
  induction slots generalizing s with
  | nil => rfl
  | cons slot rest ih =>
      rw [List.flatMap_cons, runCode_append, ih]
      rfl

variable (isVirtualized : Bool) (spaceName : String) (testInstructions : List Instruction)
  (blocks : BlockInstructions Instruction)

/-- The table that the restore code goes through. -/
theorem saveCsrs_slots : (saveCsrs isVirtualized spaceName testInstructions blocks).2 =
    slots 0 (saveKeys isVirtualized testInstructions blocks) := by
  rw [saveCsrs]
  split_ifs with hnone
  · rw [saveKeys, hnone]
    rfl
  · exact (foldl_emitCsrSave _ _ (List.forall_mem_nil _)).2

/-- The code in front of the test leaves the CSRs alone and fills the slots. -/
theorem runCode_saveCsrs (s : State σ V) :
    (runCode cells (saveCsrs isVirtualized spaceName testInstructions blocks).1 s).csrs = s.csrs ∧
      ∀ slot ∈ slots 0 (saveKeys isVirtualized testInstructions blocks),
        (runCode cells (saveCsrs isVirtualized spaceName testInstructions blocks).1 s).mem spaceName slot.1 =
          cells.read slot.2 s.csrs := by
  rw [saveCsrs]
  split_ifs with hnone
  · refine ⟨rfl, ?_⟩
    rw [saveKeys, hnone]
    exact List.forall_mem_nil _
  · dsimp only
    rw [(foldl_emitCsrSave _ _ (List.forall_mem_nil _)).1, runCode_append]
    obtain ⟨hcsrs, hmem⟩ := runCode_saves cells (slots 0 (saveKeys isVirtualized testInstructions blocks))
      { s with sp := spaceName }
    refine ⟨hcsrs, fun slot hslot => (congrFun hmem slot.1).trans ?_⟩
    exact SaveRestore.saveAll_slot cells (nodup_slots 0 _) s.csrs _ slot hslot

theorem runCode_restoreCsrs (slots : List (ℕ × Key)) (s : State σ V) :
    (runCode cells (restoreCsrs slots spaceName) s).csrs = SaveRestore.restoreAll cells slots (s.mem spaceName) s.csrs := by
  rw [restoreCsrs]
  split_ifs with hnone
  · rw [hnone]
    rfl
  · exact runCode_restores cells slots { s with sp := spaceName }

theorem Executes.mem_eq {cells : Cells Key σ V} {isVirtualized : Bool} {spaceName : String} {trace : List Access}
    {s s' : State σ V} (h : Executes cells isVirtualized spaceName trace s s') : s'.mem spaceName = s.mem spaceName := by
  induction h with
  | idle hcsrs hmem => exact hmem
  | read hwrites hcsrs hmem hrest ih => exact ih.trans hmem
  | write val hwrites hcsrs hmem hrest ih => exact ih.trans hmem

end

/-- The CSRs are restored in every run if and only if each write of the test has a tracked access that is not expected to
trap and, in a virtualized environment, stands in a privilege block when the write is made outside of the virtual machine. -/
theorem restoresCsrs_iff (isVirtualized : Bool) (spaceName : String) (testInstructions : List Instruction)
    (blocks : BlockInstructions Instruction) :
    (RestoresCsrs isVirtualized spaceName testInstructions blocks ↔
      ∀ access ∈ accesses testInstructions blocks, ∀ csrName, access.instr.writes = some csrName →
        ∃ other ∈ accesses testInstructions blocks, other.inAssertException = false ∧
          other.instr.tracked = some csrName ∧ (isVirtualized = true → other.privileged = access.machine)) ∧
      ∀ access ∈ accesses testInstructions blocks, ∀ csrName, access.instr.writes = some csrName →
        access.instr.extractCsrWriteName = some csrName ∨ access.instr.WritesZero := by
  refine ⟨?_, fun access _ csrName hwrites => Instruction.extractCsrWriteName_of_writes hwrites⟩
  constructor
  · intro h access haccess csrName hwrites
    rw [← mem_saveKeys]
    by_contra hkey
    let start : State (Key → ℕ) ℕ := ⟨fun _ => 0, spaceName, 0, fun _ _ => 0⟩
    let saved := runCode .independent (saveCsrs isVirtualized spaceName testInstructions blocks).1 start
    let final : State (Key → ℕ) ℕ :=
      { saved with csrs := Function.update saved.csrs (access.key isVirtualized csrName) 1 }
    have hidle : Executes .independent isVirtualized spaceName [] final final := .idle rfl rfl
    have hexecutes : Executes .independent isVirtualized spaceName [access] saved final := by
      refine .write 1 hwrites ?_ ?_ hidle
      · rfl
      · rfl
    have hread := h (Key → ℕ) ℕ .independent [access] (List.cons_subset.mpr ⟨haccess, List.nil_subset _⟩) start final
      hexecutes access (List.mem_singleton_self _) csrName hwrites
    rw [saveCsrs_slots, runCode_restoreCsrs] at hread
    have hkept := SaveRestore.restoreAll_independent (by rwa [slots_keys] : access.key isVirtualized csrName ∉
      (slots 0 (saveKeys isVirtualized testInstructions blocks)).map Prod.snd) (final.mem spaceName) final.csrs
    have hzero : Function.update saved.csrs (access.key isVirtualized csrName) 1 (access.key isVirtualized csrName) = 0 :=
      hkept.symm.trans hread
    rw [Function.update_self] at hzero
    cases hzero
  · intro h σ V cells trace htrace s s' saved hexecutes access haccess csrName hwrites
    have hkey : access.key isVirtualized csrName ∈ saveKeys isVirtualized testInstructions blocks :=
      (mem_saveKeys access.machine csrName).mpr (h access (htrace haccess) csrName hwrites)
    rw [← slots_keys 0 (saveKeys isVirtualized testInstructions blocks)] at hkey
    obtain ⟨slot, hslot, hslotKey⟩ := List.mem_map.mp hkey
    obtain ⟨hcsrs, hfilled⟩ := runCode_saveCsrs cells isVirtualized spaceName testInstructions blocks s
    change cells.read _ (runCode cells
      (restoreCsrs (saveCsrs isVirtualized spaceName testInstructions blocks).2 spaceName) s').csrs = _
    rw [saveCsrs_slots, runCode_restoreCsrs, ← hslotKey]
    refine SaveRestore.read_restoreAll cells (fun other hother => ?_) s'.csrs slot hslot
    rw [hexecutes.mem_eq]
    exact hfilled other hother

end Riescue.CsrSaveRestore
