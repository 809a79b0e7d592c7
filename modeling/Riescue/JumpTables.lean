import Riescue.PrivilegeBlocks
import Riescue.LibStableSort
import Mathlib.Data.List.Dedup
import Mathlib.Data.List.Flatten

/-! Privilege jump tables, `Transformer.transform_tests`: the blocks of machine, supervisor and user code are
collected from all tests, their code is taken from the lowered streams of the tests, and each mode gets a table that
looks the code up by the index of the block. The streams of the code pages are not scanned. -/

namespace Riescue.PrivilegeBlocks
open StableSort (sortBy)
variable {ι : Type}

/-! ### Actions and their lowering -/

/-- What the passes emit: the call of a block (`PrivilegeModeInstruction`, its mode stands for the syscall number),
the label of a code page that stays in its place, the return of a code page, or any other instruction. -/
inductive Lowered (ι : Type) where
  | privilegeMode (block : Block)
  | codePageLabel
  | ret
  | other (instr : ι)
  deriving DecidableEq, Repr

/-- A list of actions. An action without code stands for the instructions that the passes make of it, and so does the
fault label in the code of an assertion. `before` is the check of an assertion and its start marker, `after` the jump
to the failure, its end marker and the return label. -/
inductive Actions (ι : Type) where
  | nil
  | instr (instr : ι) (rest : Actions ι)
  | privilegeCode (block : Block) (code rest : Actions ι)
  | conditionalBlock (holds : Bool) (code rest : Actions ι)
  | assertException (before : List ι) (code : Actions ι) (after : List ι) (rest : Actions ι)
  | codePage (code rest : Actions ι)
  deriving Repr

namespace Code

/-- Instructions before a stretch. -/
def instrs (before : List ι) (rest : Code ι) : Code ι := before.foldr instr rest

def append : Code ι → Code ι → Code ι
  | nil, other => other
  | instr i rest, other => instr i (rest.append other)
  | block b body rest, other => block b body (rest.append other)

end Code

namespace Actions

/-- The code that `_transform` makes of the actions. A code page in its place has been expanded before and is only a
label. -/
def lower : Actions ι → Code (Lowered ι)
  | nil => .nil
  | instr i rest => .instr (.other i) rest.lower
  | privilegeCode b code rest => .instr (.privilegeMode b) (.block b code.lower rest.lower)
  | conditionalBlock holds code rest => if holds then code.lower.append rest.lower else rest.lower
  | assertException before code after rest =>
      .instrs (before.map .other) (code.lower.append (.instrs (after.map .other) rest.lower))
  | codePage _ rest => .instr .codePageLabel rest.lower

/-- The privilege code actions in the order of `_action_generator`, those in code pages and in conditional blocks that
do not hold among them. -/
def codeActions : Actions ι → List Block
  | nil => []
  | instr _ rest => rest.codeActions
  | privilegeCode b code rest => code.codeActions ++ b :: rest.codeActions
  | conditionalBlock _ code rest | assertException _ code _ rest | codePage code rest =>
      code.codeActions ++ rest.codeActions

/-- `_pop_global_functions`: code pages inside other actions stay. -/
def popGlobalFunctions : Actions ι → Actions ι
  | nil => nil
  | instr i rest => instr i rest.popGlobalFunctions
  | privilegeCode b code rest => privilegeCode b code rest.popGlobalFunctions
  | conditionalBlock holds code rest => conditionalBlock holds code rest.popGlobalFunctions
  | assertException before code after rest => assertException before code after rest.popGlobalFunctions
  | codePage _ rest => rest.popGlobalFunctions

/-- The code of the code pages, inner ones first. Only those that are popped have lost the pages in their own code. -/
def codePages (popped : Bool) : Actions ι → List (Actions ι)
  | nil => []
  | instr _ rest => rest.codePages popped
  | privilegeCode _ code rest | conditionalBlock _ code rest | assertException _ code _ rest =>
      code.codePages false ++ rest.codePages popped
  | codePage code rest =>
      code.codePages popped ++ (if popped then code.popGlobalFunctions else code) :: rest.codePages popped

end Actions

/-! ### Transforming the tests -/

/-- The jump table of a mode: the indices that the dispatch compares with, each with the code behind its label. -/
abbrev JumpTable (ι : Type) := List (ℤ × List ι)

/-- `_generate_privilege_code_jump_table`, from the keys of the collected actions and the stored instructions of the
mode. -/
def generatePrivilegeCodeJumpTable (codeActions : List ℤ) (stored : List (ℤ × List ι)) : Option (JumpTable ι) :=
  if codeActions.isEmpty then none
  else some ((sortBy id codeActions.dedup).map fun blockIdx => (blockIdx, (OrderedDict.get? stored blockIdx).getD []))

/-- What `transform_tests` returns of the lowered code: the streams of the code pages with their markers, which are
emitted as comments, the test cases between save and restore code, and the tables. -/
structure Segments (ι : Type) where
  globalFunctions : List (List (Instruction (Lowered ι)))
  testBlocks : List (List (Lowered ι))
  codeSegment : Mode → Option (JumpTable (Lowered ι))

/-- The tests after one another; the stored instructions belong to the context of all tests. -/
def extractTests : List (List (Instruction ι)) → BlockInstructions ι → List (List ι) × BlockInstructions ι
  | [], ctx => ([], ctx)
  | test :: rest, ctx =>
      let (main, ctx) := extractPrivilegeBlockInstructions test ctx
      let (others, ctx) := extractTests rest ctx
      (main :: others, ctx)

/-- All code pages, `code_page_actions`. -/
def codePageActions (tests : List (Actions ι)) : List (Actions ι) := tests.flatMap (Actions.codePages true)

/-- The keys of the dictionary of a mode, `machine_code_actions`, `supervisor_code_actions`, `user_code_actions`. -/
def codeActionsOf (mode : Mode) (tests : List (Actions ι)) : List ℤ :=
  ((tests.flatMap Actions.codeActions).filter fun block => block.1 = mode).map Prod.snd

def transformTests (tests : List (Actions ι)) : Segments ι :=
  let extracted := extractTests (tests.map fun test => test.popGlobalFunctions.lower.stream) fun _ => []
  { globalFunctions := (codePageActions tests).map fun code => code.lower.stream ++ [.plain .ret]
    testBlocks := extracted.1
    codeSegment := fun mode => generatePrivilegeCodeJumpTable (codeActionsOf mode tests) (extracted.2 mode) }

/-! ### Complete tables -/

/-- An instruction anywhere in the output. -/
def Segments.Emits (segments : Segments ι) (instr : Lowered ι) : Prop :=
  (∃ function ∈ segments.globalFunctions, .plain instr ∈ function) ∨
    (∃ test ∈ segments.testBlocks, instr ∈ test) ∨
    ∃ mode table, segments.codeSegment mode = some table ∧ ∃ row ∈ table, instr ∈ row.2

/-- The lists of actions that are transformed, code pages first. -/
def transformedActions (tests : List (Actions ι)) : List (Actions ι) :=
  codePageActions tests ++ tests.map Actions.popGlobalFunctions

/-- The lowered privilege blocks of the code pages and of the tests. -/
def loweredBlocks (tests : List (Actions ι)) : List (Block × List (Lowered ι)) :=
  (transformedActions tests).flatMap fun actions => actions.lower.blocks

/-- The code of each block stands once in the output, under its index in the table of its mode: the functions and the
tests keep the code outside all blocks, a table has one row for an index with the code of that block, and each call
finds the code of its block. -/
structure JumpTablesComplete (tests : List (Actions ι)) (segments : Segments ι) : Prop where
  functions : segments.globalFunctions.map Code.plains =
    (codePageActions tests).map fun code => code.lower.outside ++ [.ret]
  testBlocks : segments.testBlocks = tests.map fun test => test.popGlobalFunctions.lower.outside
  once : ∀ mode table, segments.codeSegment mode = some table → (table.map Prod.fst).Nodup
  rows : ∀ mode table, segments.codeSegment mode = some table → ∀ row ∈ table, row.2 ≠ [] →
    ((mode, row.1), row.2) ∈ loweredBlocks tests
  entries : ∀ block body, (block, body) ∈ loweredBlocks tests → ∃ table,
    segments.codeSegment block.1 = some table ∧ OrderedDict.get? table block.2 = some body
  calls : ∀ block, segments.Emits (.privilegeMode block) → ∃ table body,
    segments.codeSegment block.1 = some table ∧ OrderedDict.get? table block.2 = some body ∧
      (block, body) ∈ loweredBlocks tests

/-! ### Where the tables are complete -/

namespace Actions

/-- No instruction is emitted. -/
def Silent : Actions ι → Prop
  | nil => True
  | instr _ _ | privilegeCode _ _ _ | codePage _ _ => False
  | conditionalBlock holds code rest => (holds = true → code.Silent) ∧ rest.Silent
  | assertException before code after rest => before = [] ∧ code.Silent ∧ after = [] ∧ rest.Silent

/-- No privilege code action is emitted. -/
def Blockless : Actions ι → Prop
  | nil => True
  | instr _ rest | codePage _ rest => rest.Blockless
  | privilegeCode _ _ _ => False
  | conditionalBlock holds code rest => (holds = true → code.Blockless) ∧ rest.Blockless
  | assertException _ code _ rest => code.Blockless ∧ rest.Blockless

/-- The privilege code actions have no code to emit. -/
def EmptyBlocks : Actions ι → Prop
  | nil => True
  | instr _ rest | codePage _ rest => rest.EmptyBlocks
  | privilegeCode _ code rest => code.Silent ∧ rest.EmptyBlocks
  | conditionalBlock holds code rest => (holds = true → code.EmptyBlocks) ∧ rest.EmptyBlocks
  | assertException _ code _ rest => code.EmptyBlocks ∧ rest.EmptyBlocks

/-- No privilege code action stands inside another one. -/
def Unnested : Actions ι → Prop
  | nil => True
  | instr _ rest | codePage _ rest => rest.Unnested
  | privilegeCode _ code rest => code.Blockless ∧ rest.Unnested
  | conditionalBlock holds code rest => (holds = true → code.Unnested) ∧ rest.Unnested
  | assertException _ code _ rest => code.Unnested ∧ rest.Unnested

end Actions

/-! ### Lowered code -/

namespace Code

@[simp] theorem outside_instrs (before : List ι) (rest : Code ι) :
    (instrs before rest).outside = before ++ rest.outside := by
  induction before with
  | nil => rfl
  | cons i before ih => exact congrArg (List.cons i) ih

@[simp] theorem bodies_instrs (before : List ι) (rest : Code ι) : (instrs before rest).bodies = rest.bodies := by
  induction before with
  | nil => rfl
  | cons i before ih => exact ih

@[simp] theorem blocks_instrs (before : List ι) (rest : Code ι) : (instrs before rest).blocks = rest.blocks := by
  rw [blocks_eq_bodies, bodies_instrs, ← blocks_eq_bodies]

@[simp] theorem flat_instrs (before : List ι) (rest : Code ι) : (instrs before rest).Flat ↔ rest.Flat := by
  induction before with
  | nil => rfl
  | cons i before ih => exact ih

@[simp] theorem outside_append (left right : Code ι) : (left.append right).outside = left.outside ++ right.outside := by
  induction left with
  | nil => rfl
  | instr i rest ih => exact congrArg (List.cons i) ih
  | block b body rest _ ih => exact ih

@[simp] theorem bodies_append (left right : Code ι) : (left.append right).bodies = left.bodies ++ right.bodies := by
  induction left with
  | nil => rfl
  | instr i rest ih => exact ih
  | block b body rest _ ih => rw [append, bodies, bodies, ih, List.cons_append, List.append_assoc]

@[simp] theorem blocks_append (left right : Code ι) : (left.append right).blocks = left.blocks ++ right.blocks := by
  rw [blocks_eq_bodies, bodies_append, List.map_append, ← blocks_eq_bodies, ← blocks_eq_bodies]

@[simp] theorem flat_append (left right : Code ι) : (left.append right).Flat ↔ left.Flat ∧ right.Flat := by
  induction left with
  | nil => exact (iff_of_eq (true_and _)).symm
  | instr i rest ih => exact ih
  | block b body rest _ ih =>
      calc ((block b body rest).append right).Flat
        _ ↔ body.blocks = [] ∧ rest.Flat ∧ right.Flat := and_congr_right fun _ => ih
        _ ↔ (block b body rest).Flat ∧ right.Flat := and_assoc.symm

theorem mem_plains {instructions : List (Instruction ι)} {i : ι} :
    i ∈ plains instructions ↔ .plain i ∈ instructions := by
  rw [plains, List.mem_filterMap]
  constructor
  · rintro ⟨instruction | instruction, hmem, heq⟩
    · cases heq
    · exact Option.some.inj heq ▸ hmem
  · exact fun hmem => ⟨_, hmem, rfl⟩

/-- The markers of empty blocks are all that a stream has beside the code outside its blocks. -/
theorem plains_stream_iff (code : Code ι) :
    plains code.stream = code.outside ↔ ∀ entry ∈ code.blocks, entry.2 = [] := by
  have hperm := outside_append_blocks_perm code
  constructor
  · intro heq
    rw [heq] at hperm
    have hlength := hperm.length_eq
    rw [List.length_append, Nat.add_eq_left, List.length_eq_zero_iff] at hlength
    exact fun entry hentry => List.flatMap_eq_nil_iff.mp hlength entry hentry
  · clear hperm
    intro hempty
    induction code with
    | nil => rfl
    | instr i rest ih => exact congrArg (List.cons i) (ih hempty)
    | block b body rest hbody hrest =>
        obtain ⟨hhead, hempty⟩ := List.forall_mem_cons.mp hempty
        obtain ⟨hinBody, hinRest⟩ := List.forall_mem_append.mp hempty
        calc plains (block b body rest).stream
          _ = plains body.stream ++ plains rest.stream := by simp [stream, plains]
          _ = body.outside ++ rest.outside := by
              rw [hbody hinBody, hrest hinRest]
          _ = rest.outside := by
              have houtside : body.outside = [] := hhead
              rw [houtside, List.nil_append]

end Code

/-! ### What the actions are lowered to -/

namespace Actions

/-- The call of a block stands before it, so code with blocks emits an instruction of its own. -/
theorem blocks_eq_nil_of_outside {actions : Actions ι} (h : actions.lower.outside = []) : actions.lower.blocks = [] := by
  induction actions with
  | nil => rfl
  | instr i rest => cases h
  | privilegeCode b code rest => cases h
  | conditionalBlock holds code rest hcode hrest =>
      cases holds
      case false => exact hrest h
      case true =>
        obtain ⟨hleft, hright⟩ := List.append_eq_nil_iff.mp ((Code.outside_append ..).symm.trans h)
        calc (code.lower.append rest.lower).blocks
          _ = code.lower.blocks ++ rest.lower.blocks := Code.blocks_append ..
          _ = [] := by rw [hcode hleft, hrest hright, List.append_nil]
  | assertException before code after rest hcode hrest =>
      simp only [lower, Code.outside_instrs, Code.outside_append, List.append_eq_nil_iff] at h
      simp only [lower, Code.blocks_instrs, Code.blocks_append, hcode h.2.1, hrest h.2.2.2, List.append_nil]
  | codePage code rest => cases h

/-- The code of a block is lowered code. -/
theorem bodies_lower {actions : Actions ι} {b : Block} {body : Code (Lowered ι)}
    (h : (b, body) ∈ actions.lower.bodies) : ∃ code : Actions ι, body = code.lower := by
  induction actions with
  | nil => cases h
  | instr i rest ih => exact ih h
  | privilegeCode b' code rest hcode hrest =>
      rcases List.mem_cons.mp h with heq | hmem
      · exact ⟨code, (Prod.mk.inj heq).2⟩
      · exact (List.mem_append.mp hmem).elim hcode hrest
  | conditionalBlock holds code rest hcode hrest =>
      cases holds
      case false => exact hrest h
      case true => exact (List.mem_append.mp ((Code.bodies_append ..) ▸ h)).elim hcode hrest
  | assertException before code after rest hcode hrest =>
      simp only [lower, Code.bodies_instrs, Code.bodies_append] at h
      exact (List.mem_append.mp h).elim hcode hrest
  | codePage code rest _ hrest => exact hrest h

theorem silent_iff (actions : Actions ι) : actions.Silent ↔ actions.lower.outside = [] := by
  induction actions with
  | nil => simp [Silent, lower, Code.outside]
  | instr i rest => simp [Silent, lower, Code.outside]
  | privilegeCode b code rest => simp [Silent, lower, Code.outside]
  | conditionalBlock holds code rest hcode hrest => cases holds <;> simp [Silent, lower, hcode, hrest]
  | assertException before code after rest hcode hrest => simp [Silent, lower, hcode, hrest]
  | codePage code rest => simp [Silent, lower, Code.outside]

theorem blockless_iff (actions : Actions ι) : actions.Blockless ↔ actions.lower.blocks = [] := by
  induction actions with
  | nil => simp [Blockless, lower, Code.blocks]
  | instr i rest ih => exact ih
  | privilegeCode b code rest => simp [Blockless, lower, Code.blocks]
  | conditionalBlock holds code rest hcode hrest => cases holds <;> simp [Blockless, lower, hcode, hrest]
  | assertException before code after rest hcode hrest => simp [Blockless, lower, hcode, hrest]
  | codePage code rest _ hrest => exact hrest

theorem emptyBlocks_iff (actions : Actions ι) :
    actions.EmptyBlocks ↔ ∀ entry ∈ actions.lower.blocks, entry.2 = [] := by
  induction actions with
  | nil => simp [EmptyBlocks, lower, Code.blocks]
  | instr i rest ih => exact ih
  | privilegeCode b code rest _ hrest =>
      calc (privilegeCode b code rest).EmptyBlocks
        _ ↔ code.lower.outside = [] ∧ ∀ entry ∈ rest.lower.blocks, entry.2 = [] := and_congr (silent_iff code) hrest
        _ ↔ code.lower.outside = [] ∧ ∀ entry ∈ code.lower.blocks ++ rest.lower.blocks, entry.2 = [] :=
            and_congr_right fun hsilent => by rw [blocks_eq_nil_of_outside hsilent, List.nil_append]
        _ ↔ ∀ entry ∈ (b, code.lower.outside) :: (code.lower.blocks ++ rest.lower.blocks), entry.2 = [] := by
            rw [List.forall_mem_cons]
  | conditionalBlock holds code rest hcode hrest =>
      cases holds <;> simp [EmptyBlocks, lower, hcode, hrest, or_imp, forall_and]
  | assertException before code after rest hcode hrest =>
      simp [EmptyBlocks, lower, hcode, hrest, or_imp, forall_and]
  | codePage code rest _ hrest => exact hrest

theorem unnested_iff (actions : Actions ι) : actions.Unnested ↔ actions.lower.Flat := by
  induction actions with
  | nil => simp [Unnested, lower, Code.Flat]
  | instr i rest ih => exact ih
  | privilegeCode b code rest _ hrest => exact and_congr (blockless_iff code) hrest
  | conditionalBlock holds code rest hcode hrest => cases holds <;> simp [Unnested, lower, hcode, hrest]
  | assertException before code after rest hcode hrest => simp [Unnested, lower, hcode, hrest]
  | codePage code rest _ hrest => exact hrest

/-- A call is emitted with its block. -/
theorem mem_keys_of_call {actions : Actions ι} {b : Block}
    (h : .privilegeMode b ∈ actions.lower.outside ∨ ∃ entry ∈ actions.lower.blocks, .privilegeMode b ∈ entry.2) :
    b ∈ actions.lower.keys := by
  induction actions with
  | nil => simp [lower, Code.outside, Code.blocks] at h
  | instr i rest ih => exact ih (by simpa [lower, Code.outside, Code.blocks] using h)
  | privilegeCode b' code rest hcode hrest =>
      simp only [lower, Code.outside, Code.blocks, List.mem_cons, List.mem_append, Lowered.privilegeMode.injEq] at h
      change b ∈ (Code.block b' code.lower rest.lower).keys
      rw [Code.keys_block, List.mem_cons, List.mem_append]
      rcases h with (heq | hmem) | ⟨entry, rfl | hmem | hmem, hcall⟩
      · exact Or.inl heq
      · exact Or.inr (Or.inr (hrest (Or.inl hmem)))
      · exact Or.inr (Or.inl (hcode (Or.inl hcall)))
      · exact Or.inr (Or.inl (hcode (Or.inr ⟨entry, hmem, hcall⟩)))
      · exact Or.inr (Or.inr (hrest (Or.inr ⟨entry, hmem, hcall⟩)))
  | conditionalBlock holds code rest hcode hrest =>
      cases holds
      case false => exact hrest h
      case true =>
        simp only [lower, if_true, Code.outside_append, Code.blocks_append, List.mem_append] at h
        simp only [Code.keys, lower, if_true, Code.blocks_append, List.map_append, List.mem_append]
        rcases h with (hmem | hmem) | ⟨entry, hmem | hmem, hcall⟩
        · exact Or.inl (hcode (Or.inl hmem))
        · exact Or.inr (hrest (Or.inl hmem))
        · exact Or.inl (hcode (Or.inr ⟨entry, hmem, hcall⟩))
        · exact Or.inr (hrest (Or.inr ⟨entry, hmem, hcall⟩))
  | assertException before code after rest hcode hrest =>
      simp only [lower, Code.outside_instrs, Code.blocks_instrs, Code.outside_append, Code.blocks_append,
        List.mem_append, List.mem_map, reduceCtorEq, and_false, exists_false, false_or] at h
      simp only [Code.keys, lower, Code.blocks_instrs, Code.blocks_append, List.map_append, List.mem_append]
      rcases h with (hmem | hmem) | ⟨entry, hmem | hmem, hcall⟩
      · exact Or.inl (hcode (Or.inl hmem))
      · exact Or.inr (hrest (Or.inl hmem))
      · exact Or.inl (hcode (Or.inr ⟨entry, hmem, hcall⟩))
      · exact Or.inr (hrest (Or.inr ⟨entry, hmem, hcall⟩))
  | codePage code rest _ hrest => exact hrest (by simpa [lower, Code.outside, Code.blocks] using h)

end Actions

/-! ### Different indices -/

namespace Actions

/-- The privilege code actions outside code pages. -/
def ownBlocks : Actions ι → List Block
  | nil => []
  | instr _ rest | codePage _ rest => rest.ownBlocks
  | privilegeCode b code rest => b :: (code.ownBlocks ++ rest.ownBlocks)
  | conditionalBlock _ code rest | assertException _ code _ rest => code.ownBlocks ++ rest.ownBlocks

theorem ownBlocks_popGlobalFunctions (actions : Actions ι) : actions.popGlobalFunctions.ownBlocks = actions.ownBlocks := by
  induction actions with
  | nil => rfl
  | instr i rest ih => exact ih
  | privilegeCode b code rest _ hrest => rw [popGlobalFunctions, ownBlocks, ownBlocks, hrest]
  | conditionalBlock holds code rest _ hrest => rw [popGlobalFunctions, ownBlocks, ownBlocks, hrest]
  | assertException before code after rest _ hrest => rw [popGlobalFunctions, ownBlocks, ownBlocks, hrest]
  | codePage code rest _ hrest => exact hrest

theorem keys_lower_sublist (actions : Actions ι) : List.Sublist actions.lower.keys actions.ownBlocks := by
  induction actions with
  | nil => exact List.Sublist.refl _
  | instr i rest ih => exact ih
  | privilegeCode b code rest hcode hrest =>
      have hkeys : (privilegeCode b code rest).lower.keys = b :: (code.lower.keys ++ rest.lower.keys) :=
        Code.keys_block b code.lower rest.lower
      rw [hkeys]
      exact (hcode.append hrest).cons_cons b
  | conditionalBlock holds code rest hcode hrest =>
      cases holds
      case false => exact hrest.trans (List.sublist_append_right _ _)
      case true =>
        simp only [Code.keys, lower, if_true, Code.blocks_append, List.map_append]
        exact hcode.append hrest
  | assertException before code after rest hcode hrest =>
      simp only [Code.keys, lower, Code.blocks_instrs, Code.blocks_append, List.map_append]
      exact hcode.append hrest
  | codePage code rest _ hrest => exact hrest

/-- A privilege code action stands outside all code pages or belongs to the innermost one around it. -/
theorem codeActions_perm (actions : Actions ι) (popped : Bool) :
    actions.codeActions.Perm (actions.ownBlocks ++ (actions.codePages popped).flatMap ownBlocks) := by
  rw [List.perm_iff_count]
  intro b
  induction actions generalizing popped with
  | nil => rfl
  | instr i rest ih => exact ih popped
  | privilegeCode b' code rest hcode hrest =>
      have hcode := hcode false
      have hrest := hrest popped
      simp only [codeActions, ownBlocks, codePages, List.flatMap_append, List.count_append, List.count_cons]
        at hcode hrest ⊢
      omega
  | conditionalBlock holds code rest hcode hrest =>
      have hcode := hcode false
      have hrest := hrest popped
      simp only [codeActions, ownBlocks, codePages, List.flatMap_append, List.count_append] at hcode hrest ⊢
      omega
  | assertException before code after rest hcode hrest =>
      have hcode := hcode false
      have hrest := hrest popped
      simp only [codeActions, ownBlocks, codePages, List.flatMap_append, List.count_append] at hcode hrest ⊢
      omega
  | codePage code rest hcode hrest =>
      have hcode := hcode popped
      have hrest := hrest popped
      have hpage : (if popped then code.popGlobalFunctions else code).ownBlocks = code.ownBlocks := by
        cases popped
        · rfl
        · exact ownBlocks_popGlobalFunctions code
      simp only [codeActions, ownBlocks, codePages, List.flatMap_append, List.flatMap_cons, List.count_append, hpage]
        at hcode hrest ⊢
      omega

end Actions

theorem ownBlocks_perm (tests : List (Actions ι)) :
    (tests.flatMap Actions.codeActions).Perm ((transformedActions tests).flatMap Actions.ownBlocks) := by
  rw [List.perm_iff_count]
  intro b
  induction tests with
  | nil => rfl
  | cons test rest ih =>
      have htest := (test.codeActions_perm true).count_eq b
      simp only [transformedActions, codePageActions, List.flatMap_cons, List.flatMap_append, List.map_cons,
        List.count_append, Actions.ownBlocks_popGlobalFunctions] at ih htest ⊢
      omega

theorem keys_nodup {tests : List (Actions ι)} (hdistinct : (tests.flatMap Actions.codeActions).Nodup) :
    ((transformedActions tests).flatMap fun actions => actions.lower.keys).Nodup :=
  ((ownBlocks_perm tests).nodup_iff.mp hdistinct).sublist
    (List.Sublist.flatMap_right _ fun actions _ => actions.keys_lower_sublist)

/-! ### Extraction from all tests -/

/-- Whether a test writes the entry of a block is decided by its stream. -/
theorem extractTests_frame {codes : List (Code ι)} {block : Block} (hother : ∀ code ∈ codes, block ∉ code.keys)
    (ctx : BlockInstructions ι) : (extractTests (codes.map Code.stream) ctx).2.entry block = ctx.entry block := by
  induction codes generalizing ctx with
  | nil => rfl
  | cons code rest ih =>
      obtain ⟨hhead, hrest⟩ := List.forall_mem_cons.mp hother
      calc (extractTests ((code :: rest).map Code.stream) ctx).2.entry block
        _ = (extractPrivilegeBlockInstructions code.stream ctx).2.entry block := ih hrest _
        _ = ctx.entry block := Scan.run_stream_entry code _ block hhead

/-- Tests without nested blocks: the streams keep the code outside, each block has its entry. -/
theorem extractTests_flat {codes : List (Code ι)} (hflat : ∀ code ∈ codes, code.Flat)
    (hdistinct : (codes.flatMap Code.keys).Nodup) (ctx : BlockInstructions ι) :
    (extractTests (codes.map Code.stream) ctx).1 = codes.map Code.outside ∧
      ∀ code ∈ codes, ∀ entry ∈ code.blocks,
        (extractTests (codes.map Code.stream) ctx).2.entry entry.1 = some entry.2 := by
  induction codes generalizing ctx with
  | nil => exact ⟨rfl, fun _ hcode => absurd hcode List.not_mem_nil⟩
  | cons code rest ih =>
      obtain ⟨hhead, hflat⟩ := List.forall_mem_cons.mp hflat
      rw [List.flatMap_cons, List.nodup_append] at hdistinct
      obtain ⟨hkeys, hdistinct, hdisjoint⟩ := hdistinct
      obtain ⟨hstreams, hentries⟩ := ih hflat hdistinct (extractPrivilegeBlockInstructions code.stream ctx).2
      constructor
      · exact congrArg₂ List.cons (Scan.run_flat_result code hhead rfl) hstreams
      · refine List.forall_mem_cons.mpr ⟨fun entry hentry => ?_, hentries⟩
        have hmem : entry.1 ∈ code.keys := List.mem_map_of_mem hentry
        have hother : ∀ other ∈ rest, entry.1 ∉ other.keys := fun other hrest hkey =>
          hdisjoint _ hmem _ (List.mem_flatMap_of_mem hrest hkey) rfl
        calc (extractTests ((code :: rest).map Code.stream) ctx).2.entry entry.1
          _ = (extractPrivilegeBlockInstructions code.stream ctx).2.entry entry.1 := extractTests_frame hother _
          _ = some entry.2 := Scan.run_flat_entry code hhead hkeys rfl hentry

/-- In a test with nested blocks a block that contains another one gets no entry. -/
theorem extractTests_nested {codes : List (Code ι)} {code : Code ι} (hcode : code ∈ codes) (hnested : ¬ code.Flat)
    (hdistinct : (codes.flatMap Code.keys).Nodup) (ctx : BlockInstructions ι) :
    ∃ block body, (block, body) ∈ code.bodies ∧ body.blocks ≠ [] ∧
      (extractTests (codes.map Code.stream) ctx).2.entry block = ctx.entry block := by
  induction codes generalizing ctx with
  | nil => cases hcode
  | cons head rest ih =>
      rw [List.flatMap_cons, List.nodup_append] at hdistinct
      obtain ⟨hkeys, hdistinct, hdisjoint⟩ := hdistinct
      rcases List.mem_cons.mp hcode with rfl | hrest
      · obtain ⟨block, body, hmem, hinner, hentry⟩ := Scan.run_nested_entry code hkeys hnested
        have hother : ∀ other ∈ rest, block ∉ other.keys := fun other hrest hkey =>
          hdisjoint _ (Code.mem_keys_of_mem_bodies hmem) _ (List.mem_flatMap_of_mem hrest hkey) rfl
        exact ⟨block, body, hmem, hinner, (extractTests_frame hother _).trans (hentry _)⟩
      · obtain ⟨block, body, hmem, hinner, hentry⟩ := ih hrest hdistinct (extractPrivilegeBlockInstructions head.stream ctx).2
        have hother : block ∉ head.keys := fun hkey =>
          hdisjoint _ hkey _ (List.mem_flatMap_of_mem hrest (Code.mem_keys_of_mem_bodies hmem)) rfl
        exact ⟨block, body, hmem, hinner, hentry.trans (Scan.run_stream_entry head _ block hother)⟩

/-! ### The rows of a table -/

section JumpTable
variable {codeActions : List ℤ} {stored : List (ℤ × List ι)}

theorem nodup_indices : ((sortBy id codeActions.dedup)).Nodup :=
  (StableSort.sortBy_perm _ _).nodup_iff.mpr (List.nodup_dedup _)

theorem generatePrivilegeCodeJumpTable_once {table : JumpTable ι}
    (h : generatePrivilegeCodeJumpTable codeActions stored = some table) : (table.map Prod.fst).Nodup := by
  rw [generatePrivilegeCodeJumpTable] at h
  split_ifs at h
  obtain rfl := Option.some.inj h
  rw [List.map_map]
  exact (List.map_id _).symm ▸ nodup_indices

/-- A row has the stored instructions of its index, or none. -/
theorem generatePrivilegeCodeJumpTable_rows {table : JumpTable ι}
    (h : generatePrivilegeCodeJumpTable codeActions stored = some table) :
    ∀ row ∈ table, row.2 = (OrderedDict.get? stored row.1).getD [] := by
  rw [generatePrivilegeCodeJumpTable] at h
  split_ifs at h
  obtain rfl := Option.some.inj h
  intro row hrow
  obtain ⟨blockIdx, -, rfl⟩ := List.mem_map.mp hrow
  rfl

/-- Each collected index has a row. -/
theorem generatePrivilegeCodeJumpTable_entry {blockIdx : ℤ} (hcollected : blockIdx ∈ codeActions) :
    ∃ table, generatePrivilegeCodeJumpTable codeActions stored = some table ∧
      OrderedDict.get? table blockIdx = some ((OrderedDict.get? stored blockIdx).getD []) := by
  have hnotEmpty : ¬codeActions.isEmpty := by
    rw [List.isEmpty_iff]
    rintro rfl
    cases hcollected
  refine ⟨_, if_neg hnotEmpty, ?_⟩
  have hrow : (blockIdx, (OrderedDict.get? stored blockIdx).getD []) ∈
      (sortBy id codeActions.dedup).map fun index => (index, (OrderedDict.get? stored index).getD []) :=
    List.mem_map_of_mem (StableSort.mem_sortBy.mpr (List.mem_dedup.mpr hcollected))
  refine OrderedDict.get?_of_mem ?_ hrow
  rw [List.map_map]
  exact (List.map_id _).symm ▸ nodup_indices

end JumpTable

/-! ### The tables of the tests -/

section Tests
variable {tests : List (Actions ι)}

/-- What the extraction stores for a block. -/
def storedFor (tests : List (Actions ι)) (block : Block) : Option (List (Lowered ι)) :=
  (extractTests (tests.map fun test => test.popGlobalFunctions.lower.stream) fun _ => []).2.entry block

/-- The streams of the tests are those of their code without code pages. -/
theorem streams_eq (tests : List (Actions ι)) :
    (tests.map fun test => test.popGlobalFunctions.lower.stream) =
      (tests.map fun test => test.popGlobalFunctions.lower).map Code.stream :=
  (List.map_map).symm

theorem testKeys_nodup (hdistinct : (tests.flatMap Actions.codeActions).Nodup) :
    ((tests.map fun test => test.popGlobalFunctions.lower).flatMap Code.keys).Nodup := by
  have hkeys := keys_nodup hdistinct
  rw [transformedActions, List.flatMap_append, List.flatMap_map] at hkeys
  rw [List.flatMap_map]
  exact (List.nodup_append.mp hkeys).2.1

theorem mem_loweredBlocks {entry : Block × List (Lowered ι)} :
    entry ∈ loweredBlocks tests ↔ (∃ code ∈ codePageActions tests, entry ∈ code.lower.blocks) ∨
      ∃ test ∈ tests, entry ∈ test.popGlobalFunctions.lower.blocks := by
  rw [loweredBlocks, transformedActions, List.flatMap_append, List.flatMap_map, List.mem_append, List.mem_flatMap,
    List.mem_flatMap]

/-- A lowered block has been collected. -/
theorem mem_codeActionsOf {block : Block} {body : List (Lowered ι)} (h : (block, body) ∈ loweredBlocks tests) :
    block.2 ∈ codeActionsOf block.1 tests := by
  obtain ⟨actions, hactions, hentry⟩ := List.mem_flatMap.mp h
  have hown : block ∈ actions.ownBlocks := actions.keys_lower_sublist.subset (List.mem_map_of_mem hentry)
  have hcollected : block ∈ tests.flatMap Actions.codeActions :=
    (ownBlocks_perm tests).mem_iff.mpr (List.mem_flatMap_of_mem hactions hown)
  exact List.mem_map_of_mem (List.mem_filter.mpr ⟨hcollected, decide_eq_true rfl⟩)

/-- The table of a mode has a row for each lowered block, with what the extraction stored for it. -/
theorem codeSegment_entry {block : Block} {body : List (Lowered ι)} (h : (block, body) ∈ loweredBlocks tests) :
    ∃ table, (transformTests tests).codeSegment block.1 = some table ∧
      OrderedDict.get? table block.2 = some ((storedFor tests block).getD []) :=
  generatePrivilegeCodeJumpTable_entry (mem_codeActionsOf h)

/-- A block of a code page is not stored by the tests. -/
theorem storedFor_codePage (hdistinct : (tests.flatMap Actions.codeActions).Nodup) {code : Actions ι}
    (hcode : code ∈ codePageActions tests) {block : Block} (hblock : block ∈ code.lower.keys) :
    storedFor tests block = none := by
  have hkeys := keys_nodup hdistinct
  rw [transformedActions, List.flatMap_append, List.flatMap_map, List.nodup_append] at hkeys
  rw [storedFor, streams_eq]
  refine extractTests_frame (fun other hother hkey => ?_) _
  obtain ⟨test, htest, rfl⟩ := List.mem_map.mp hother
  exact hkeys.2.2 _ (List.mem_flatMap_of_mem hcode hblock) _ (List.mem_flatMap_of_mem htest hkey) rfl

/-- Where no test nests blocks, the extraction stores the code of the blocks of the tests and nothing else. -/
theorem storedFor_eq_some_iff (hdistinct : (tests.flatMap Actions.codeActions).Nodup)
    (hflat : ∀ test ∈ tests, test.popGlobalFunctions.lower.Flat) {block : Block} {body : List (Lowered ι)} :
    storedFor tests block = some body ↔ ∃ test ∈ tests, (block, body) ∈ test.popGlobalFunctions.lower.blocks := by
  have hcodes : ∀ code ∈ tests.map fun test => test.popGlobalFunctions.lower, code.Flat :=
    List.forall_mem_map.mpr hflat
  obtain ⟨-, hentries⟩ := extractTests_flat hcodes (testKeys_nodup hdistinct) fun _ => []
  have hstored : ∀ test ∈ tests, ∀ entry ∈ test.popGlobalFunctions.lower.blocks,
      storedFor tests entry.1 = some entry.2 := by
    intro test htest entry hentry
    rw [storedFor, streams_eq]
    exact hentries _ (List.mem_map_of_mem htest) entry hentry
  constructor
  · intro hsome
    by_cases hkey : ∃ test ∈ tests, block ∈ test.popGlobalFunctions.lower.keys
    · obtain ⟨test, htest, hkey⟩ := hkey
      obtain ⟨entry, hentry, rfl⟩ := List.mem_map.mp hkey
      have hbody : entry.2 = body := Option.some.inj ((hstored test htest entry hentry).symm.trans hsome)
      exact ⟨test, htest, hbody ▸ hentry⟩
    · have hnone : storedFor tests block = none := by
        rw [storedFor, streams_eq]
        refine extractTests_frame (fun other hother hmem => hkey ?_) _
        obtain ⟨test, htest, rfl⟩ := List.mem_map.mp hother
        exact ⟨test, htest, hmem⟩
      rw [hnone] at hsome
      cases hsome
  · rintro ⟨test, htest, hentry⟩
    exact hstored test htest (block, body) hentry

/-- The function of a code page has its blocks inside, so it keeps to the code outside them only if they are empty. -/
theorem functions_iff (tests : List (Actions ι)) :
    (transformTests tests).globalFunctions.map Code.plains =
        (codePageActions tests).map (fun code => code.lower.outside ++ [.ret]) ↔
      ∀ code ∈ codePageActions tests, code.EmptyBlocks := by
  rw [transformTests, List.map_map, List.map_inj_left]
  refine forall₂_congr fun code _ => ?_
  rw [Actions.emptyBlocks_iff, ← Code.plains_stream_iff]
  calc Code.plains (code.lower.stream ++ [.plain .ret]) = code.lower.outside ++ [.ret]
    _ ↔ Code.plains code.lower.stream ++ [.ret] = code.lower.outside ++ [.ret] := by
        rw [Code.plains, List.filterMap_append]
        rfl
    _ ↔ Code.plains code.lower.stream = code.lower.outside := List.append_left_inj _

/-- Each row has the code of a block where no test nests blocks. -/
theorem codeSegment_rows (hdistinct : (tests.flatMap Actions.codeActions).Nodup)
    (hflat : ∀ test ∈ tests, test.popGlobalFunctions.lower.Flat) {mode : Mode} {table : JumpTable (Lowered ι)}
    (htable : (transformTests tests).codeSegment mode = some table) {row : ℤ × List (Lowered ι)} (hrow : row ∈ table)
    (hcode : row.2 ≠ []) : ((mode, row.1), row.2) ∈ loweredBlocks tests := by
  have hstored : row.2 = (storedFor tests (mode, row.1)).getD [] :=
    generatePrivilegeCodeJumpTable_rows htable row hrow
  cases hentry : storedFor tests (mode, row.1) with
  | none =>
      rw [hentry] at hstored
      exact absurd hstored hcode
  | some body =>
      rw [hentry] at hstored
      have hmem := (storedFor_eq_some_iff hdistinct hflat).mp hentry
      exact mem_loweredBlocks.mpr (Or.inr (hstored ▸ hmem))

/-- A call in the output is the call of a lowered block. -/
theorem exists_loweredBlock_of_emits {segments : Segments ι} (hfunctions : segments.globalFunctions.map Code.plains =
      (codePageActions tests).map fun code => code.lower.outside ++ [.ret])
    (htests : segments.testBlocks = tests.map fun test => test.popGlobalFunctions.lower.outside)
    (hrows : ∀ mode table, segments.codeSegment mode = some table → ∀ row ∈ table, row.2 ≠ [] →
      ((mode, row.1), row.2) ∈ loweredBlocks tests)
    {block : Block} (h : segments.Emits (.privilegeMode block)) : ∃ body, (block, body) ∈ loweredBlocks tests := by
  have hcall : ∀ actions ∈ transformedActions tests,
      (.privilegeMode block ∈ actions.lower.outside ∨ ∃ entry ∈ actions.lower.blocks, .privilegeMode block ∈ entry.2) →
        ∃ body, (block, body) ∈ loweredBlocks tests := by
    intro actions hactions hmem
    obtain ⟨entry, hentry, rfl⟩ := List.mem_map.mp (Actions.mem_keys_of_call hmem)
    exact ⟨entry.2, List.mem_flatMap_of_mem hactions hentry⟩
  rcases h with ⟨function, hfunction, hmem⟩ | ⟨test, htest, hmem⟩ | ⟨mode, table, htable, row, hrow, hmem⟩
  · have hplains : Code.plains function ∈ (codePageActions tests).map fun code => code.lower.outside ++ [.ret] :=
      hfunctions ▸ List.mem_map_of_mem hfunction
    obtain ⟨code, hcode, heq⟩ := List.mem_map.mp hplains
    have hmem : .privilegeMode block ∈ code.lower.outside ++ [.ret] := heq ▸ Code.mem_plains.mpr hmem
    refine hcall code (List.mem_append_left _ hcode) (Or.inl ?_)
    simpa using hmem
  · rw [htests] at htest
    obtain ⟨actions, hactions, rfl⟩ := List.mem_map.mp htest
    exact hcall _ (List.mem_append_right _ (List.mem_map_of_mem hactions)) (Or.inl hmem)
  · have hentry := hrows mode table htable row hrow (List.ne_nil_of_mem hmem)
    obtain ⟨actions, hactions, hblock⟩ := List.mem_flatMap.mp hentry
    exact hcall actions hactions (Or.inr ⟨_, hblock, hmem⟩)

end Tests

/-- The tables are complete exactly when no block with code stands in a code page and none inside another one in a
test: the streams of the code pages are not scanned, and the scan of a test forgets the block around a block. -/
theorem transformTests_complete_iff (tests : List (Actions ι))
    (hdistinct : (tests.flatMap Actions.codeActions).Nodup) :
    JumpTablesComplete tests (transformTests tests) ↔
      (∀ code ∈ codePageActions tests, code.EmptyBlocks) ∧ ∀ test ∈ tests, test.popGlobalFunctions.Unnested := by
  constructor
  · intro hcomplete
    refine ⟨(functions_iff tests).mp hcomplete.functions, fun test htest => ?_⟩
    rw [Actions.unnested_iff]
    by_contra hnested
    have hmem : test.popGlobalFunctions.lower ∈ tests.map fun test => test.popGlobalFunctions.lower :=
      List.mem_map_of_mem htest
    obtain ⟨block, body, hbody, hinner, hentry⟩ :=
      extractTests_nested hmem hnested (testKeys_nodup hdistinct) fun _ => []
    rw [← streams_eq] at hentry
    have hlowered : (block, body.outside) ∈ loweredBlocks tests :=
      mem_loweredBlocks.mpr (Or.inr ⟨test, htest, Code.mem_blocks_of_mem_bodies hbody⟩)
    obtain ⟨table, htable, hcode⟩ := hcomplete.entries block _ hlowered
    obtain ⟨table', htable', hrow⟩ := codeSegment_entry hlowered
    obtain rfl := Option.some.inj (htable.symm.trans htable')
    -- the row of the outer block is empty, though its code has the call of the inner one
    have hempty : storedFor tests block = none := hentry
    rw [hempty] at hrow
    have houtside : body.outside = [] := Option.some.inj (hcode.symm.trans hrow)
    obtain ⟨code, rfl⟩ := Actions.bodies_lower hbody
    exact hinner (Actions.blocks_eq_nil_of_outside houtside)
  · rintro ⟨hempty, hunnested⟩
    have hflat : ∀ test ∈ tests, test.popGlobalFunctions.lower.Flat := fun test htest =>
      (Actions.unnested_iff _).mp (hunnested test htest)
    have hfunctions := (functions_iff tests).mpr hempty
    have htests : (transformTests tests).testBlocks = tests.map fun test => test.popGlobalFunctions.lower.outside := by
      have hcodes : ∀ code ∈ tests.map fun test => test.popGlobalFunctions.lower, code.Flat :=
        List.forall_mem_map.mpr hflat
      rw [transformTests, streams_eq, (extractTests_flat hcodes (testKeys_nodup hdistinct) _).1, List.map_map]
      rfl
    have hrows : ∀ mode table, (transformTests tests).codeSegment mode = some table → ∀ row ∈ table, row.2 ≠ [] →
        ((mode, row.1), row.2) ∈ loweredBlocks tests := fun mode table htable row hrow hcode =>
      codeSegment_rows hdistinct hflat htable hrow hcode
    have hentries : ∀ block body, (block, body) ∈ loweredBlocks tests → ∃ table,
        (transformTests tests).codeSegment block.1 = some table ∧ OrderedDict.get? table block.2 = some body := by
      intro block body hlowered
      obtain ⟨table, htable, hrow⟩ := codeSegment_entry hlowered
      refine ⟨table, htable, hrow.trans (congrArg some ?_)⟩
      rcases mem_loweredBlocks.mp hlowered with ⟨code, hcode, hentry⟩ | htest
      · have hbody : body = [] := (Actions.emptyBlocks_iff code).mp (hempty code hcode) _ hentry
        have hnone := storedFor_codePage hdistinct hcode (List.mem_map_of_mem hentry)
        exact (congrArg (Option.getD · []) hnone).trans hbody.symm
      · exact congrArg (Option.getD · []) ((storedFor_eq_some_iff hdistinct hflat).mpr htest)
    constructor
    case functions => exact hfunctions
    case testBlocks => exact htests
    case once => exact fun mode table htable => generatePrivilegeCodeJumpTable_once htable
    case rows => exact hrows
    case entries => exact hentries
    case calls =>
      intro block hcall
      obtain ⟨body, hlowered⟩ := exists_loweredBlock_of_emits hfunctions htests hrows hcall
      obtain ⟨table, htable, hrow⟩ := hentries block body hlowered
      exact ⟨table, body, htable, hrow, hlowered⟩

/-- A code page of a test with a block of machine code. -/
def machineCodeInPage : List (Actions String) :=
  [.codePage (.privilegeCode (.machine, 0) (.instr "csrw mepc" .nil) .nil) (.instr "call" .nil)]

/-- The code of the block is left in the page, behind its call, and the row of the block is empty. -/
theorem not_transformTests_complete :
    (machineCodeInPage.flatMap Actions.codeActions).Nodup ∧
      (transformTests machineCodeInPage).globalFunctions.map Code.plains =
        [[.privilegeMode (.machine, 0), .other "csrw mepc", .ret]] ∧
      (transformTests machineCodeInPage).codeSegment .machine = some [(0, [])] ∧
      ¬ JumpTablesComplete machineCodeInPage (transformTests machineCodeInPage) := by
  refine ⟨by decide, by decide, by decide, fun hcomplete => ?_⟩
  have hfunctions := hcomplete.functions
  revert hfunctions
  decide

/-- A test with a block in an exception assertion and one in a conditional block behind it. -/
theorem transformTests_complete_twoBlocks :
    let tests : List (Actions String) :=
      [.assertException ["check"] (.privilegeCode (.supervisor, 0) (.instr "sret" .nil) .nil) ["fail"]
        (.conditionalBlock true (.privilegeCode (.user, 0) (.instr "ld" .nil) .nil) .nil)]
    JumpTablesComplete tests (transformTests tests) ↔
      (∀ code ∈ codePageActions tests, code.EmptyBlocks) ∧ ∀ test ∈ tests, test.popGlobalFunctions.Unnested :=
  transformTests_complete_iff _ (by decide)

end Riescue.PrivilegeBlocks
