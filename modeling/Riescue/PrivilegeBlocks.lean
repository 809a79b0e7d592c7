import Riescue.LibOrderedDict
import Mathlib.Data.Int.Notation
import Mathlib.Data.List.Perm.Basic

/-! Privilege blocks, `Transformer._extract_privilege_block_instructions`: the instructions between the start
and the end marker of a block leave the test's stream and are stored under the mode and the index of the
block. The scan remembers one current block. -/

namespace Riescue.PrivilegeBlocks
variable {ι : Type}

/-- The keys of `ctx.privilege_block_instructions`. -/
inductive Mode where
  | machine | supervisor | user
  deriving DecidableEq, Repr

/-- The `marker_type`, `"start"` or `"end"`. -/
inductive MarkerType where
  | start | finish
  deriving DecidableEq, Repr

structure PrivilegeBlockMarkerInstruction where
  markerType : MarkerType
  mode : Mode
  blockIndex : ℤ
  deriving DecidableEq, Repr

/-- An instruction of the stream: a marker or any other one. -/
inductive Instruction (ι : Type) where
  | marker (marker : PrivilegeBlockMarkerInstruction)
  | plain (instr : ι)
  deriving DecidableEq, Repr

/-- `(mode, block_index)` -/
abbrev Block := Mode × ℤ

/-- `ctx.privilege_block_instructions`, a dictionary of dictionaries. -/
abbrev BlockInstructions (ι : Type) := Mode → List (ℤ × List ι)

namespace BlockInstructions

/-- The list stored for a block. -/
def entry (stored : BlockInstructions ι) (block : Block) : Option (List ι) :=
  OrderedDict.get? (stored block.1) block.2

/-- `ctx.privilege_block_instructions[mode][block_index] = instructions` -/
def store (stored : BlockInstructions ι) (block : Block) (instructions : List ι) : BlockInstructions ι :=
  Function.update stored block.1 (OrderedDict.insert (stored block.1) block.2 instructions)

@[simp] theorem entry_store_self (stored : BlockInstructions ι) (block : Block) (instructions : List ι) :
    (stored.store block instructions).entry block = some instructions := by
  simp [store, entry]

theorem entry_store_ne (stored : BlockInstructions ι) {block other : Block} (instructions : List ι)
    (hne : other ≠ block) : (stored.store block instructions).entry other = stored.entry other := by
  by_cases hmode : other.1 = block.1
  · have hindex : other.2 ≠ block.2 := fun hindex => hne (Prod.ext hmode hindex)
    simp [store, entry, hmode, OrderedDict.get?_insert_ne _ _ hindex]
  · simp [store, entry, Function.update_of_ne hmode]

end BlockInstructions

/-- The variables of the loop, with the dictionary it writes to. -/
structure Scan (ι : Type) where
  result : List ι
  currentBlock : Option Block
  currentBlockInstructions : List ι
  privilegeBlockInstructions : BlockInstructions ι

namespace Scan

def step (s : Scan ι) : Instruction ι → Scan ι
  | .marker ⟨.start, mode, blockIndex⟩ =>
      { s with currentBlock := some (mode, blockIndex), currentBlockInstructions := [] }
  | .marker ⟨.finish, _, _⟩ =>
      match s.currentBlock with
      | some block =>
          { s with
            currentBlock := none
            currentBlockInstructions := []
            privilegeBlockInstructions := s.privilegeBlockInstructions.store block s.currentBlockInstructions }
      | none => s
  | .plain instr =>
      match s.currentBlock with
      | some _ => { s with currentBlockInstructions := s.currentBlockInstructions ++ [instr] }
      | none => { s with result := s.result ++ [instr] }

def run (s : Scan ι) (instructions : List (Instruction ι)) : Scan ι :=
  instructions.foldl step s

theorem run_append (s : Scan ι) (left right : List (Instruction ι)) :
    s.run (left ++ right) = (s.run left).run right :=
  List.foldl_append

end Scan

/-- `_extract_privilege_block_instructions`: the main stream, and the dictionary of the context afterwards. -/
def extractPrivilegeBlockInstructions (instructions : List (Instruction ι)) (ctx : BlockInstructions ι) :
    List ι × BlockInstructions ι :=
  let s := Scan.run ⟨[], none, [], ctx⟩ instructions
  (s.result, s.privilegeBlockInstructions)

/-! ### Well-nested streams -/

/-- A stream in which each start marker is matched by its end, as the tree of its blocks. -/
inductive Code (ι : Type) where
  | nil
  | instr (instr : ι) (rest : Code ι)
  | block (block : Block) (body rest : Code ι)
  deriving Repr

namespace Code

/-- The stream that `PrivilegeCodeAction.expand` gives: the code of a block stands between its markers. -/
def stream : Code ι → List (Instruction ι)
  | nil => []
  | instr i rest => .plain i :: rest.stream
  | block b body rest =>
      .marker ⟨.start, b.1, b.2⟩ :: (body.stream ++ .marker ⟨.finish, b.1, b.2⟩ :: rest.stream)

/-- The instructions outside all blocks, in order. -/
def outside : Code ι → List ι
  | nil => []
  | instr i rest => i :: rest.outside
  | block _ _ rest => rest.outside

/-- Each block with the instructions whose innermost block it is, in order. -/
def blocks : Code ι → List (Block × List ι)
  | nil => []
  | instr _ rest => rest.blocks
  | block b body rest => (b, body.outside) :: (body.blocks ++ rest.blocks)

/-- The `(mode, block_index)` pairs. -/
def keys (code : Code ι) : List Block := code.blocks.map Prod.fst

/-- Each block with its code. -/
def bodies : Code ι → List (Block × Code ι)
  | nil => []
  | instr _ rest => rest.bodies
  | block b body rest => (b, body) :: (body.bodies ++ rest.bodies)

/-- No block contains another one. -/
def Flat : Code ι → Prop
  | nil => True
  | instr _ rest => rest.Flat
  | block _ body rest => body.blocks = [] ∧ rest.Flat

@[simp] theorem keys_block (b : Block) (body rest : Code ι) :
    (block b body rest).keys = b :: (body.keys ++ rest.keys) := by
  simp [keys, blocks]

theorem blocks_eq_bodies (code : Code ι) : code.blocks = code.bodies.map fun entry => (entry.1, entry.2.outside) := by
  induction code with
  | nil => rfl
  | instr i rest ih => exact ih
  | block b body rest hbody hrest => rw [blocks, bodies, List.map_cons, List.map_append, hbody, hrest]

theorem mem_blocks_of_mem_bodies {code body : Code ι} {b : Block} (h : (b, body) ∈ code.bodies) :
    (b, body.outside) ∈ code.blocks := by
  rw [blocks_eq_bodies]
  exact List.mem_map_of_mem h

theorem mem_keys_of_mem_bodies {code body : Code ι} {b : Block} (h : (b, body) ∈ code.bodies) : b ∈ code.keys :=
  List.mem_map_of_mem (mem_blocks_of_mem_bodies h)

/-- The non-marker instructions of a stream. -/
def plains (instructions : List (Instruction ι)) : List ι :=
  instructions.filterMap fun
    | .marker _ => none
    | .plain i => some i

open List in
/-- Every instruction of the stream is outside all blocks or has one innermost block. -/
theorem outside_append_blocks_perm (code : Code ι) :
    code.outside ++ code.blocks.flatMap Prod.snd ~ plains code.stream := by
  induction code with
  | nil => simp [outside, blocks, stream, plains]
  | instr i rest ih => simpa [outside, blocks, stream, plains] using ih
  | block b body rest hbody hrest =>
      have hstream : plains (block b body rest).stream = plains body.stream ++ plains rest.stream := by
        simp [stream, plains]
      rw [hstream]
      simp only [outside, blocks, flatMap_cons, flatMap_append]
      calc rest.outside ++ (body.outside ++ (body.blocks.flatMap Prod.snd ++ rest.blocks.flatMap Prod.snd))
        _ = rest.outside ++ ((body.outside ++ body.blocks.flatMap Prod.snd) ++ rest.blocks.flatMap Prod.snd) := by
            rw [append_assoc]
        _ ~ (body.outside ++ body.blocks.flatMap Prod.snd) ++ (rest.outside ++ rest.blocks.flatMap Prod.snd) :=
            perm_append_comm_assoc ..
        _ ~ plains body.stream ++ plains rest.stream := hbody.append hrest

end Code

/-- What the extraction is for: the main stream is the code outside all blocks, every block has an entry with
the code whose innermost block it is, and no other entry changes. -/
structure Partitioned (code : Code ι) (ctx : BlockInstructions ι) (extracted : List ι × BlockInstructions ι) :
    Prop where
  main : extracted.1 = code.outside
  entries : ∀ block body, (block, body) ∈ code.blocks → extracted.2.entry block = some body
  frame : ∀ block ∉ code.keys, extracted.2.entry block = ctx.entry block

/-! ### What the scan does with a well-nested stretch -/

namespace Scan

@[simp] theorem run_nil (s : Scan ι) : s.run [] = s := rfl

@[simp] theorem run_cons (s : Scan ι) (i : Instruction ι) (rest : List (Instruction ι)) :
    s.run (i :: rest) = (s.step i).run rest := rfl

@[simp] theorem step_plain_currentBlock (s : Scan ι) (i : ι) :
    (s.step (.plain i)).currentBlock = s.currentBlock := by
  cases hcurrent : s.currentBlock <;> simp [step, hcurrent]

@[simp] theorem step_plain_stored (s : Scan ι) (i : ι) :
    (s.step (.plain i)).privilegeBlockInstructions = s.privilegeBlockInstructions := by
  cases hcurrent : s.currentBlock <;> simp [step, hcurrent]

theorem step_finish_none {s : Scan ι} (hcurrent : s.currentBlock = none) (mode : Mode) (blockIndex : ℤ) :
    s.step (.marker ⟨.finish, mode, blockIndex⟩) = s := by
  simp [step, hcurrent]

@[simp] theorem step_finish_currentBlock (s : Scan ι) (mode : Mode) (blockIndex : ℤ) :
    (s.step (.marker ⟨.finish, mode, blockIndex⟩)).currentBlock = none := by
  cases hcurrent : s.currentBlock <;> simp [step, hcurrent]

/-- A stretch without blocks is collected by the current block. -/
theorem run_stream_collect (code : Code ι) (hblocks : code.blocks = []) {s : Scan ι} {block : Block}
    (hcurrent : s.currentBlock = some block) :
    s.run code.stream = { s with currentBlockInstructions := s.currentBlockInstructions ++ code.outside } := by
  induction code generalizing s with
  | nil => simp [Code.stream, Code.outside]
  | instr i rest ih =>
      rw [Code.stream, run_cons, ih hblocks (by simp [hcurrent])]
      simp [step, hcurrent, Code.outside]
  | block b body rest => simp [Code.blocks] at hblocks

/-- Outside all blocks a stretch without blocks stays in the main stream. -/
theorem run_stream_idle (code : Code ι) (hblocks : code.blocks = []) {s : Scan ι}
    (hcurrent : s.currentBlock = none) :
    s.run code.stream = { s with result := s.result ++ code.outside } := by
  induction code generalizing s with
  | nil => simp [Code.stream, Code.outside]
  | instr i rest ih =>
      rw [Code.stream, run_cons, ih hblocks (by simp [hcurrent])]
      simp [step, hcurrent, Code.outside]
  | block b body rest => simp [Code.blocks] at hblocks

/-- A block without blocks inside is stored under its key. -/
theorem run_block (s : Scan ι) (b : Block) (body rest : Code ι) (hblocks : body.blocks = []) :
    s.run (Code.block b body rest).stream =
      Scan.run
        { s with
          currentBlock := none
          currentBlockInstructions := []
          privilegeBlockInstructions := s.privilegeBlockInstructions.store b body.outside } rest.stream := by
  rw [Code.stream, run_cons, run_append, run_stream_collect body hblocks rfl, run_cons]
  simp [step]

/-- The last marker of a stretch with a block is an end marker, so no block is current behind it. -/
theorem run_stream_currentBlock (code : Code ι) (hblocks : code.blocks ≠ []) (s : Scan ι) :
    (s.run code.stream).currentBlock = none := by
  induction code generalizing s with
  | nil => simp [Code.blocks] at hblocks
  | instr i rest ih => exact ih hblocks _
  | block b body rest _ hrest =>
      simp only [Code.stream, run_cons, run_append]
      by_cases hlast : rest.blocks = []
      · rw [run_stream_idle rest hlast (step_finish_currentBlock ..)]
        simp
      · exact hrest hlast _

/-- The code behind a body that has closed a block of its own runs from where the body ends: the end marker
of the outer block finds no block to store. -/
theorem run_nesting (s : Scan ι) (b : Block) (body rest : Code ι) (hblocks : body.blocks ≠ []) :
    s.run (Code.block b body rest).stream =
      ((s.step (.marker ⟨.start, b.1, b.2⟩)).run body.stream).run rest.stream := by
  rw [Code.stream, run_cons, run_append, run_cons, step_finish_none (run_stream_currentBlock body hblocks _)]

/-- A stretch writes no entry but those of its own blocks. -/
theorem run_stream_entry (code : Code ι) (s : Scan ι) (other : Block) (hother : other ∉ code.keys) :
    (s.run code.stream).privilegeBlockInstructions.entry other = s.privilegeBlockInstructions.entry other := by
  induction code generalizing s with
  | nil => simp [Code.stream]
  | instr i rest ih => rw [Code.stream, run_cons, ih _ hother, step_plain_stored]
  | block b body rest hbody hrest =>
      simp only [Code.keys_block, List.mem_cons, List.mem_append, not_or] at hother
      obtain ⟨hne, hinBody, hinRest⟩ := hother
      by_cases hblocks : body.blocks = []
      · rw [run_block s b body rest hblocks, hrest _ hinRest, BlockInstructions.entry_store_ne _ _ hne]
      · rw [run_nesting s b body rest hblocks, hrest _ hinRest, hbody _ hinBody]
        rfl

/-- A block with a block inside has no entry of its own. -/
theorem run_nested_entry (code : Code ι) (hdistinct : code.keys.Nodup) (hnested : ¬ code.Flat) :
    ∃ block body, (block, body) ∈ code.bodies ∧ body.blocks ≠ [] ∧ ∀ s : Scan ι,
      (s.run code.stream).privilegeBlockInstructions.entry block = s.privilegeBlockInstructions.entry block := by
  induction code with
  | nil => simp [Code.Flat] at hnested
  | instr i rest ih =>
      obtain ⟨block, body, hmem, hinner, hentry⟩ := ih hdistinct hnested
      exact ⟨block, body, hmem, hinner, fun s => by rw [Code.stream, run_cons, hentry, step_plain_stored]⟩
  | block b body rest _ hrest =>
      rw [Code.keys_block] at hdistinct
      obtain ⟨hb, hdistinct⟩ := List.nodup_cons.mp hdistinct
      obtain ⟨hinBody, hinRest⟩ := not_or.mp (mt List.mem_append.mpr hb)
      by_cases hblocks : body.blocks = []
      · -- the nesting is in a later block
        have hnested : ¬ rest.Flat := fun hflat => hnested ⟨hblocks, hflat⟩
        obtain ⟨block, inner, hmem, hinner, hentry⟩ := hrest (List.nodup_append.mp hdistinct).2.1 hnested
        have hne : block ≠ b := fun heq => hinRest (heq ▸ Code.mem_keys_of_mem_bodies hmem)
        refine ⟨block, inner, by simp [Code.bodies, hmem], hinner, fun s => ?_⟩
        rw [run_block s b body rest hblocks, hentry, BlockInstructions.entry_store_ne _ _ hne]
      · refine ⟨b, body, by simp [Code.bodies], hblocks, fun s => ?_⟩
        rw [run_nesting s b body rest hblocks, run_stream_entry rest _ b hinRest,
          run_stream_entry body _ b hinBody]
        rfl

theorem run_flat_result (code : Code ι) (hflat : code.Flat) {s : Scan ι} (hcurrent : s.currentBlock = none) :
    (s.run code.stream).result = s.result ++ code.outside := by
  induction code generalizing s with
  | nil => simp [Code.stream, Code.outside]
  | instr i rest ih =>
      rw [Code.stream, run_cons, ih hflat (by simp [hcurrent])]
      simp [step, hcurrent, Code.outside]
  | block b body rest _ hrest =>
      rw [run_block s b body rest hflat.1, hrest hflat.2 rfl]
      rfl

theorem run_flat_entry (code : Code ι) (hflat : code.Flat) (hdistinct : code.keys.Nodup) {s : Scan ι}
    (hcurrent : s.currentBlock = none) {block : Block} {body : List ι} (hmem : (block, body) ∈ code.blocks) :
    (s.run code.stream).privilegeBlockInstructions.entry block = some body := by
  induction code generalizing s with
  | nil => simp [Code.blocks] at hmem
  | instr i rest ih =>
      rw [Code.stream, run_cons, ih hflat hdistinct (by simp [hcurrent]) hmem]
  | block b inner rest _ hrest =>
      obtain ⟨hblocks, hflat⟩ := hflat
      rw [Code.keys_block] at hdistinct
      obtain ⟨hb, hdistinct⟩ := List.nodup_cons.mp hdistinct
      obtain ⟨_, hinRest⟩ := not_or.mp (mt List.mem_append.mpr hb)
      rw [run_block s b inner rest hblocks]
      simp only [Code.blocks, hblocks, List.nil_append, List.mem_cons] at hmem
      rcases hmem with hfirst | hmem
      · obtain ⟨rfl, rfl⟩ := Prod.mk.inj hfirst
        rw [run_stream_entry rest _ block hinRest, BlockInstructions.entry_store_self]
      · exact hrest hflat (List.nodup_append.mp hdistinct).2.1 rfl hmem

end Scan

/-- The extraction is a partition of a well-nested stream exactly when no block contains another one. -/
theorem extractPrivilegeBlockInstructions_partition (code : Code ι) (ctx : BlockInstructions ι)
    (hdistinct : code.keys.Nodup) (hfresh : ∀ block ∈ code.keys, ctx.entry block = none) :
    Partitioned code ctx (extractPrivilegeBlockInstructions code.stream ctx) ↔ code.Flat := by
  constructor
  · intro hpartitioned
    by_contra hnested
    obtain ⟨block, body, hmem, -, hentry⟩ := Scan.run_nested_entry code hdistinct hnested
    have hstored := hpartitioned.entries block _ (Code.mem_blocks_of_mem_bodies hmem)
    have hunchanged := (hentry ⟨[], none, [], ctx⟩).trans (hfresh _ (Code.mem_keys_of_mem_bodies hmem))
    exact Option.some_ne_none _ (hstored.symm.trans hunchanged)
  · intro hflat
    constructor
    case main => exact Scan.run_flat_result code hflat rfl
    case entries => exact fun block body hmem => Scan.run_flat_entry code hflat hdistinct rfl hmem
    case frame => exact fun block hother => Scan.run_stream_entry code _ block hother

/-- A supervisor block inside a machine block. -/
def nestedCode : Code String :=
  .block (.machine, 0) (.instr "csrw" (.block (.supervisor, 0) (.instr "sfence" .nil) (.instr "li" .nil))) .nil

/-- The instruction before the inner block is lost and the one behind it runs in the test's own mode. -/
theorem extractPrivilegeBlockInstructions_nested :
    nestedCode.keys.Nodup ∧ (extractPrivilegeBlockInstructions nestedCode.stream fun _ => []).1 = ["li"] ∧
      ¬ Partitioned nestedCode (fun _ => []) (extractPrivilegeBlockInstructions nestedCode.stream fun _ => []) := by
  refine ⟨by decide, by decide, fun hpartitioned => ?_⟩
  have hmain := hpartitioned.main
  revert hmain
  decide

/-- Two blocks side by side. -/
theorem extractPrivilegeBlockInstructions_side_by_side :
    let code : Code String :=
      .block (.machine, 0) (.instr "csrw" .nil) (.instr "addi" (.block (.user, 0) (.instr "ld" .nil) .nil))
    Partitioned code (fun _ => []) (extractPrivilegeBlockInstructions code.stream fun _ => []) ↔ code.Flat :=
  extractPrivilegeBlockInstructions_partition _ _ (by decide) (by decide)

end Riescue.PrivilegeBlocks
