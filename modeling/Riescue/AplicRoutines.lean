import Riescue.LibAssembly

/-! The helper routines for the interrupt controllers that `generator/assembly_writer.py` emits: each sets one field of an IMSIC
register, of an APLIC register, or of the table of the handlers. -/

namespace Riescue.AplicRoutines
open Machine (Reg readBytes)
open Assembly

abbrev t0 : Reg := 5
abbrev t1 : Reg := 6
abbrev a0 : Reg := 10
abbrev a1 : Reg := 11

/-- The letter in the names of the routines and of the CSRs. -/
inductive Mode where
  | m | s
  deriving DecidableEq, Repr

/-- `miselect` and `siselect`, `mireg` and `sireg`. -/
inductive Csr where
  | iselect (mode : Mode)
  | ireg (mode : Mode)
  deriving DecidableEq, Repr

/-- The registers of an interrupt file, and the one that is selected. -/
structure Imsic where
  select : BitVec 64
  reg : BitVec 64 → BitVec 64

abbrev Csrs := Mode → Imsic

/-- Access to the selected register. -/
def file : CsrFile Csrs Csr 64 where
  read csrs
    | .iselect mode => (csrs mode).select
    | .ireg mode => (csrs mode).reg (csrs mode).select
  write csrs name value :=
    match name with
    | .iselect mode => Function.update csrs mode { csrs mode with select := value }
    | .ireg mode => Function.update csrs mode
        { csrs mode with reg := Function.update (csrs mode).reg (csrs mode).select value }

abbrev Instr := Assembly.Instr String Csr

def la (rd : Reg) (symbol : String) (addend : ℤ := 0) : Instr := .core (.li rd (.symbol symbol addend))

def lw (rd : Reg) (offset : ℤ) (rs1 : Reg) : Instr := .core (.load 4 rd offset rs1)

def sw (rs2 : Reg) (offset : ℤ) (rs1 : Reg) : Instr := .core (.store 4 rs2 offset rs1)

/-- `MAPLIC_MMR_BASE_ADDR` and `SAPLIC_MMR_BASE_ADDR` -/
def Mode.mmrBase : Mode → String
  | .m => "MAPLIC_MMR_BASE_ADDR"
  | .s => "SAPLIC_MMR_BASE_ADDR"

/-! ### The routines, up to their `ret` -/

/-- The lines that `__set_{m,s}aplic_eie` and `__set_{m,s}aplic_eip` share. -/
def setPending (mode : Mode) (first : ℤ) : List Instr :=
  [.li t0 64, .alu .divw t0 a0 t0, .alui .addiw t0 t0 first, .alui .slliw t0 t0 1, .csrw (.iselect mode) t0,
    .csrr t1 (.ireg mode), .alu .sllw a1 a1 a0, .alu .bset t0 0 a0, .alu .andn t0 t1 t0, .alu .or a1 a1 t0,
    .csrw (.ireg mode) a1]

/-- `__set_{m,s}aplic_eie` -/
def setEie (mode : Mode) : List Instr := setPending mode 96

/-- `__set_{m,s}aplic_eip` -/
def setEip (mode : Mode) : List Instr := setPending mode 64

/-- The lines of the routines for `domaincfg`: a bit from an argument register. -/
def setDomaincfg (mode : Mode) (bit : ℤ) (arg : Reg) : List Instr :=
  [la t0 mode.mmrBase, lw t1 0 t0, .alui .bclri t1 t1 bit, .alui .slli arg arg bit, .alu .or t1 t1 arg, sw t1 0 t0]

/-- `__set_{m,s}aplic_domaincfg_ie` -/
def setDomaincfgIe (mode : Mode) : List Instr := setDomaincfg mode 8 a1

/-- `__set_{m,s}aplic_domaincfg_dm` -/
def setDomaincfgDm (mode : Mode) : List Instr := setDomaincfg mode 2 a0

/-- `__set_{m,s}aplic_sourcecfg_sm` -/
def setSourcecfgSm (mode : Mode) : List Instr := [la t0 mode.mmrBase, .alui .slli a0 a0 2, .add t0 a0 a0, sw a1 0 t0]

/-- `__set_{m,s}aplic_sourcecfg_childindex` -/
def setSourcecfgChildindex (mode : Mode) : List Instr :=
  [la t0 mode.mmrBase, .alui .slli a0 a0 2, .add t0 a0 a0, .alui .bseti a1 a1 10, sw a1 0 t0]

/-- The lines of the routines for `target`, with those that combine the value. -/
def setTarget (mode : Mode) (merge : List Instr) : List Instr :=
  [la t0 mode.mmrBase 0x3000, .alu .sh2add a0 a0 t0, lw t0 0 a0] ++ merge ++ [.alu .or t0 t0 a1, sw t0 0 a0]

/-- `__set_{m,s}aplic_target_hartindex` -/
def setTargetHartindex (mode : Mode) : List Instr :=
  setTarget mode [.alui .slli a1 a1 18, .alui .slli t0 t0 46, .alui .srli t0 t0 46]

/-- `__set_{m,s}aplic_target_intpri` -/
def setTargetIntpri (mode : Mode) : List Instr := setTarget mode [.alui .andi t0 t0 (-256)]

/-- `__set_{m,s}aplic_target_guestindex` -/
def setTargetGuestindex (mode : Mode) : List Instr :=
  setTarget mode [.li t1 0xfffc0fff, .alu .and t0 t0 t1, .alui .slli a1 a1 12]

/-- `__set_{m,s}aplic_target_eiid` -/
def setTargetEiid (mode : Mode) : List Instr := setTarget mode [.alui .andi t0 t0 (-2048)]

/-- `__set_aplic_isr` -/
def setIsr : List Instr :=
  [la t0 "__trap_handler_m__aplic_isr_table", .alui .slli a0 a0 3, .add a0 a0 t0, sw a1 0 a0]

inductive Routine where
  | eie | eip | domaincfgIe | domaincfgDm | sourcecfgSm | sourcecfgChildindex | targetHartindex | targetIntpri
  | targetGuestindex | targetEiid | isr
  deriving DecidableEq, Repr

def Routine.code (mode : Mode) : Routine → List Instr
  | .eie => setEie mode
  | .eip => setEip mode
  | .domaincfgIe => setDomaincfgIe mode
  | .domaincfgDm => setDomaincfgDm mode
  | .sourcecfgSm => setSourcecfgSm mode
  | .sourcecfgChildindex => setSourcecfgChildindex mode
  | .targetHartindex => setTargetHartindex mode
  | .targetIntpri => setTargetIntpri mode
  | .targetGuestindex => setTargetGuestindex mode
  | .targetEiid => setTargetEiid mode
  | .isr => setIsr

/-! ### The fields -/

/-- The place of a field: bits of a register of the interrupt file, or of a number of bytes in memory. -/
inductive Place where
  | imsic (select : ℕ)
  | memory (size : ℕ) (symbol : String) (offset : ℕ)
  deriving DecidableEq, Repr

/-- Some bits of a place. -/
structure Field where
  place : Place
  lo : ℕ
  width : ℕ
  deriving DecidableEq, Repr

/-- The field that the architecture assigns to a source or an identity: identity `s` is bit `s % 64` of the register for 64
identities, which has an even number; `domaincfg` is at 0, `sourcecfg` at `4 * s`, `target` at `0x3000 + 4 * s`. -/
def Routine.field (mode : Mode) (s : ℕ) : Routine → Field
  | .eie => ⟨.imsic (0xC0 + 2 * (s / 64)), s % 64, 1⟩
  | .eip => ⟨.imsic (0x80 + 2 * (s / 64)), s % 64, 1⟩
  | .domaincfgIe => ⟨.memory 4 mode.mmrBase 0, 8, 1⟩
  | .domaincfgDm => ⟨.memory 4 mode.mmrBase 0, 2, 1⟩
  | .sourcecfgSm => ⟨.memory 4 mode.mmrBase (4 * s), 0, 3⟩
  | .sourcecfgChildindex => ⟨.memory 4 mode.mmrBase (4 * s), 0, 10⟩
  | .targetHartindex => ⟨.memory 4 mode.mmrBase (0x3000 + 4 * s), 18, 14⟩
  | .targetIntpri => ⟨.memory 4 mode.mmrBase (0x3000 + 4 * s), 0, 8⟩
  | .targetGuestindex => ⟨.memory 4 mode.mmrBase (0x3000 + 4 * s), 12, 6⟩
  | .targetEiid => ⟨.memory 4 mode.mmrBase (0x3000 + 4 * s), 0, 11⟩
  | .isr => ⟨.memory 8 "__trap_handler_m__aplic_isr_table" (8 * s), 0, 64⟩

/-- The number of slots of the table of the handlers, of which 2048 bytes are emitted. -/
def isrTableSlots : ℕ := 2048 / 8

/-- The routine has one argument. -/
def Routine.unary : Routine → Bool
  | .domaincfgIe => true
  | .domaincfgDm => true
  | _ => false

/-! ### What a routine promises -/

/-- The bits from `lo` on take the value, the others stay. -/
def Updates {n : ℕ} (old new : BitVec n) (lo width value : ℕ) : Prop :=
  ∀ i < n, new.getLsbD i = if lo ≤ i ∧ i < lo + width then value.testBit (i - lo) else old.getLsbD i

/-- Only the place of the field is accessed, the field takes the value, and everything else stays. -/
def Field.UpdatedBy (field : Field) (mode : Mode) (symbols : String → BitVec 64) (value : ℕ) (h h' : Hart 64 Csrs) : Prop :=
  match field.place with
  | .imsic select =>
      h'.core.mem = h.core.mem ∧ h'.core.accesses = h.core.accesses ∧ (∀ mode', mode' ≠ mode → h'.csrs mode' = h.csrs mode') ∧
        (h'.csrs mode).select = BitVec.ofNat 64 select ∧
        (∀ r, r ≠ BitVec.ofNat 64 select → (h'.csrs mode).reg r = (h.csrs mode).reg r) ∧
        Updates ((h.csrs mode).reg (BitVec.ofNat 64 select)) ((h'.csrs mode).reg (BitVec.ofNat 64 select)) field.lo field.width
          value
  | .memory size symbol offset =>
      let addr := symbols symbol + BitVec.ofNat 64 offset
      h'.csrs = h.csrs ∧ (∃ front, h'.core.accesses = front ++ h.core.accesses ∧ ∀ a ∈ front, a = addr) ∧
        (∀ a : BitVec 64, size ≤ (a - addr).toNat → h'.core.mem a = h.core.mem a) ∧
        Updates (readBytes h.core.mem size addr) (readBytes h'.core.mem size addr) field.lo field.width value

/-- The routine sets the field of a source, which has one, and nothing else. -/
def Routine.SetsField (routine : Routine) (mode : Mode) (symbols : String → BitVec 64) (s value : ℕ) (h : Hart 64 Csrs) : Prop :=
  (routine = .isr → s < isrTableSlots) ∧ ∃ h', runStraight file symbols (routine.code mode) h = some h' ∧
    (routine.field mode s).UpdatedBy mode symbols value h h'

/-- The call of a routine: the source and the value, or the value alone, in the argument registers. -/
structure Call (routine : Routine) (s value : ℕ) (h : Hart 64 Csrs) : Prop where
  source : 1 ≤ s ∧ s ≤ 1023
  inRange : value < 2 ^ (routine.field .m s).width
  args : if routine.unary then h.get a0 = BitVec.ofNat 64 value
    else h.get a0 = BitVec.ofNat 64 s ∧ h.get a1 = BitVec.ofNat 64 value

/-- When the routine sets its field: a shift by 32 bits reaches the bit of the identity, the second argument register holds the
only argument, the base of the controller is not needed, or the upper half of a pointer is there already. -/
def Routine.HoldsWhen (routine : Routine) (mode : Mode) (symbols : String → BitVec 64) (s value : ℕ) (h : Hart 64 Csrs) : Prop :=
  let shifts (old : BitVec 64) : Prop := value = 0 ∨ s % 64 < 31 ∨
    (s % 64 = 31 ∧ ∀ i < 64, 32 ≤ i → old.getLsbD i = true) ∨
    (s % 64 = 63 ∧ ∀ i < 63, 31 ≤ i → old.getLsbD i = true)
  let base := symbols mode.mmrBase
  match routine with
  | .eie => shifts ((h.csrs mode).reg (BitVec.ofNat 64 (0xC0 + 2 * (s / 64))))
  | .eip => shifts ((h.csrs mode).reg (BitVec.ofNat 64 (0x80 + 2 * (s / 64))))
  | .domaincfgIe => (h.get a1).getLsbD 0 = value.testBit 0 ∧
      ∀ i < 32, 9 ≤ i → (h.get a1).getLsbD (i - 8) = true → (readBytes h.core.mem 4 base).getLsbD i = true
  | .sourcecfgSm => base = BitVec.ofNat 64 (4 * s) ∧
      ∀ i < 32, 3 ≤ i → (readBytes h.core.mem 4 (base + BitVec.ofNat 64 (4 * s))).getLsbD i = false
  | .sourcecfgChildindex => base = BitVec.ofNat 64 (4 * s) ∧
      (readBytes h.core.mem 4 (base + BitVec.ofNat 64 (4 * s))).getLsbD 10 = true ∧
      ∀ i < 32, 11 ≤ i → (readBytes h.core.mem 4 (base + BitVec.ofNat 64 (4 * s))).getLsbD i = false
  | .isr => s < isrTableSlots ∧
      readBytes h.core.mem 4 (symbols "__trap_handler_m__aplic_isr_table" + BitVec.ofNat 64 (8 * s + 4)) =
        BitVec.ofNat 32 (value / 2 ^ 32)
  | _ => True

/-! ### Steps -/

variable (symbols : String → BitVec 64)

theorem step_lw (h : Hart 64 Csrs) {rd : Reg} (hrd : rd ≠ 0) (rs1 : Reg) :
    ∃ h', step file symbols h (lw rd 0 rs1) = some h' ∧ h'.get rd = (readBytes h.core.mem 4 (h.get rs1)).signExtend 64 ∧
      h'.core.mem = h.core.mem ∧ h'.core.accesses = h.get rs1 :: h.core.accesses ∧ h'.csrs = h.csrs ∧
      ∀ r, r ≠ rd → h'.get r = h.get r := by
  have haddr : h.get rs1 + BitVec.ofInt 64 0 = h.get rs1 := BitVec.add_zero _
  let accessed : Machine.State 64 := { h.core with accesses := (h.get rs1 + BitVec.ofInt 64 0) :: h.core.accesses }
  let loaded := (readBytes h.core.mem 4 (h.get rs1 + BitVec.ofInt 64 0)).signExtend 64
  refine ⟨{ h with core := accessed.set rd loaded }, rfl, ?_, accessed.mem_set rd _, ?_, rfl,
    fun r hr => accessed.get_set_of_ne hr _⟩
  · exact (accessed.get_set_self hrd _).trans
      (congrArg (fun addr => (readBytes h.core.mem 4 addr).signExtend 64) haddr)
  · exact (accessed.accesses_set rd _).trans (congrArg (· :: h.core.accesses) haddr)

theorem step_sw (h : Hart 64 Csrs) (rs2 rs1 : Reg) :
    ∃ h', step file symbols h (sw rs2 0 rs1) = some h' ∧
      h'.core.mem = Machine.writeBytes h.core.mem 4 (h.get rs1) ((h.get rs2).setWidth 32) ∧
      h'.core.accesses = h.get rs1 :: h.core.accesses ∧ h'.csrs = h.csrs := by
  have haddr : h.get rs1 + BitVec.ofInt 64 0 = h.get rs1 := BitVec.add_zero _
  let stored : Machine.State 64 := { h.core with
    mem := Machine.writeBytes h.core.mem 4 (h.get rs1 + BitVec.ofInt 64 0) ((h.get rs2).setWidth 32)
    accesses := (h.get rs1 + BitVec.ofInt 64 0) :: h.core.accesses }
  have hmem : stored.mem = Machine.writeBytes h.core.mem 4 (h.get rs1) ((h.get rs2).setWidth 32) :=
    congrArg (fun addr => Machine.writeBytes h.core.mem 4 addr ((h.get rs2).setWidth 32)) haddr
  have haccesses : stored.accesses = h.get rs1 :: h.core.accesses := congrArg (· :: h.core.accesses) haddr
  exact ⟨{ h with core := stored }, rfl, hmem, haccesses, rfl⟩

/-- A word that is written at the address of the field. -/
theorem updatedBy_word {h h' : Hart 64 Csrs} {mode : Mode} {symbol : String} {offset lo width value : ℕ} {word : BitVec 32}
    {front : List (BitVec 64)} (hcsrs : h'.csrs = h.csrs)
    (hmem : h'.core.mem = Machine.writeBytes h.core.mem 4 (symbols symbol + BitVec.ofNat 64 offset) word)
    (haccesses : h'.core.accesses = front ++ h.core.accesses)
    (hfront : ∀ a ∈ front, a = symbols symbol + BitVec.ofNat 64 offset) :
    Field.UpdatedBy ⟨.memory 4 symbol offset, lo, width⟩ mode symbols value h h' ↔
      Updates (readBytes h.core.mem 4 (symbols symbol + BitVec.ofNat 64 offset)) word lo width value := by
  have hread : readBytes h'.core.mem 4 (symbols symbol + BitVec.ofNat 64 offset) = word := by
    rw [hmem]
    exact Machine.readBytes_writeBytes _ (by decide) _ _
  constructor
  · rintro ⟨-, -, -, hupdates⟩
    exact hread ▸ hupdates
  · intro hupdates
    refine ⟨hcsrs, ⟨front, haccesses, hfront⟩, fun a ha => ?_, hread.symm ▸ hupdates⟩
    rw [hmem]
    exact Machine.writeBytes_outside _ ha _

/-! ### Registers of the domain -/

/-- The routines for `domaincfg` store the word with the bit of the argument register. -/
theorem run_setDomaincfg (mode : Mode) (bit : ℤ) {arg : Reg} (harg : arg ≠ 0 ∧ arg ≠ t0 ∧ arg ≠ t1) (h : Hart 64 Csrs) :
    let addr := symbols mode.mmrBase + BitVec.ofNat 64 0
    let old := (readBytes h.core.mem 4 addr).signExtend 64
    ∃ h', runStraight file symbols (setDomaincfg mode bit arg) h = some h' ∧ h'.csrs = h.csrs ∧
      h'.core.mem = Machine.writeBytes h.core.mem 4 addr
        (((old &&& ~~~BitVec.twoPow 64 bit.toNat) ||| h.get arg <<< bit.toNat).setWidth 32) ∧
      h'.core.accesses = [addr, addr] ++ h.core.accesses := by
  intro addr old
  let h₁ := h.set t0 addr
  have hla : step file symbols h (la t0 mode.mmrBase) = some h₁ := rfl
  obtain ⟨h₂, hload, hget₂, hmem₂, haccesses₂, hcsrs₂, hother₂⟩ := step_lw symbols h₁ (by decide : t1 ≠ 0) t0
  let h₃ := h₂.set t1 (h₂.get t1 &&& ~~~BitVec.twoPow 64 bit.toNat)
  let h₄ := h₃.set arg (h₃.get arg <<< bit.toNat)
  let h₅ := h₄.set t1 (h₄.get t1 ||| h₄.get arg)
  have hclear : step file symbols h₂ (.alui .bclri t1 t1 bit) = some h₃ := rfl
  have hshift : step file symbols h₃ (.alui .slli arg arg bit) = some h₄ := rfl
  have hor : step file symbols h₄ (.alu .or t1 t1 arg) = some h₅ := rfl
  obtain ⟨h₆, hstore, hmem₆, haccesses₆, hcsrs₆⟩ := step_sw symbols h₅ t1 t0
  have hbase : h₁.get t0 = addr := Hart.get_set_self _ (by decide) _
  have hold : h₂.get t1 = old := by rw [hget₂, hbase]; rfl
  have harg₃ : h₃.get arg = h.get arg := by
    rw [Hart.get_set_of_ne _ harg.2.2, hother₂ arg harg.2.2, Hart.get_set_of_ne _ harg.2.1]
  have hword : h₅.get t1 = (old &&& ~~~BitVec.twoPow 64 bit.toNat) ||| h.get arg <<< bit.toNat := by
    rw [Hart.get_set_self _ (by decide), Hart.get_set_of_ne _ harg.2.2.symm, Hart.get_set_self _ (by decide),
      Hart.get_set_self _ harg.1, harg₃, hold]
  have haddr : h₅.get t0 = addr := by
    rw [Hart.get_set_of_ne _ (by decide), Hart.get_set_of_ne _ harg.2.1.symm, Hart.get_set_of_ne _ (by decide),
      hother₂ t0 (by decide), hbase]
  refine ⟨h₆, ?_, hcsrs₆.trans hcsrs₂, ?_, ?_⟩
  · rw [setDomaincfg, runStraight_cons hla, runStraight_cons hload, runStraight_cons hclear, runStraight_cons hshift,
      runStraight_cons hor, runStraight_cons hstore, runStraight_nil]
  · rw [hmem₆, haddr, hword]
    simp only [h₅, h₄, h₃, Hart.mem_set, hmem₂]
    rfl
  · rw [haccesses₆, haddr]
    simp only [h₅, h₄, h₃, Hart.accesses_set, haccesses₂, hbase]
    rfl

/-- A stored word with a bit from a register has the bit of the register, and more when the register has. -/
theorem getLsbD_domaincfg (old : BitVec 32) (x : BitVec 64) (bit : ℕ) {i : ℕ} (hi : i < 32) :
    (((old.signExtend 64 &&& ~~~BitVec.twoPow 64 bit) ||| x <<< bit).setWidth 32).getLsbD i =
      ((old.getLsbD i && decide (i ≠ bit)) || (decide (bit ≤ i) && x.getLsbD (i - bit))) := by
  have h64 : i < 64 := by omega
  simp only [BitVec.getLsbD_setWidth, BitVec.getLsbD_or, BitVec.getLsbD_and, BitVec.getLsbD_signExtend, BitVec.getLsbD_not,
    BitVec.getLsbD_twoPow, BitVec.getLsbD_shiftLeft, hi, h64, decide_true, Bool.true_and, if_true]
  by_cases hbit : bit = i
  · subst hbit
    simp [h64]
  · have hne : ¬i = bit := fun heq => hbit heq.symm
    by_cases hle : bit ≤ i
    · simp [hbit, hne, hle, Nat.not_lt.mpr hle]
    · simp [hbit, hne, hle, Nat.lt_of_not_le hle]

theorem testBit_of_le {value width i : ℕ} (hvalue : value < 2 ^ width) (hi : width ≤ i) : value.testBit i = false :=
  Nat.testBit_lt_two_pow (Nat.lt_of_lt_of_le hvalue (Nat.pow_le_pow_right (by decide) hi))

theorem setsField_domaincfgDm {mode : Mode} {s value : ℕ} {h : Hart 64 Csrs} (hcall : Call .domaincfgDm s value h) :
    Routine.SetsField .domaincfgDm mode symbols s value h := by
  obtain ⟨h', hrun, hcsrs, hmem, haccesses⟩ := run_setDomaincfg symbols mode 2 (by decide : a0 ≠ 0 ∧ a0 ≠ t0 ∧ a0 ≠ t1) h
  refine ⟨nofun, h', hrun, ?_⟩
  refine (updatedBy_word symbols hcsrs hmem haccesses fun a ha => ?_).mpr fun i hi => ?_
  · simpa using ha
  · have harg : h.get a0 = BitVec.ofNat 64 value := hcall.args
    have hvalue : value < 2 ^ 1 := hcall.inRange
    refine (getLsbD_domaincfg _ _ 2 hi).trans ?_
    rw [harg, BitVec.getLsbD_ofNat]
    by_cases hbit : i = 2
    · subst hbit
      simp
    · by_cases hle : 2 ≤ i
      · have hzero : value.testBit (i - 2) = false := testBit_of_le hvalue (by omega)
        simp [hbit, hzero, show ¬(2 ≤ i ∧ i < 3) by omega]
      · simp [hbit, hle]

/-- What a routine does is read off its run. -/
theorem setsField_iff_of_run {routine : Routine} {mode : Mode} {s value : ℕ} {h h' : Hart 64 Csrs} (hisr : routine ≠ .isr)
    (hrun : runStraight file symbols (routine.code mode) h = some h') :
    routine.SetsField mode symbols s value h ↔ (routine.field mode s).UpdatedBy mode symbols value h h' := by
  constructor
  · rintro ⟨-, out, hout, hupdated⟩
    obtain rfl := Option.some.inj (hrun.symm.trans hout)
    exact hupdated
  · exact fun hupdated => ⟨fun heq => absurd heq hisr, h', hrun, hupdated⟩

theorem setsField_domaincfgIe_iff (mode : Mode) (s value : ℕ) (h : Hart 64 Csrs) :
    Routine.SetsField .domaincfgIe mode symbols s value h ↔ Routine.HoldsWhen .domaincfgIe mode symbols s value h := by
  obtain ⟨h', hrun, hcsrs, hmem, haccesses⟩ := run_setDomaincfg symbols mode 8 (by decide : a1 ≠ 0 ∧ a1 ≠ t0 ∧ a1 ≠ t1) h
  have hbase : symbols mode.mmrBase + BitVec.ofNat 64 0 = symbols mode.mmrBase := BitVec.add_zero _
  rw [setsField_iff_of_run symbols (by decide : Routine.domaincfgIe ≠ .isr) hrun]
  refine (updatedBy_word symbols hcsrs hmem haccesses fun a ha => by simpa using ha).trans ?_
  show Updates _ _ 8 1 value ↔ _ ∧ _
  rw [hbase]
  constructor
  · intro hupdates
    constructor
    · have hbit := hupdates 8 (by decide)
      rw [show (8 : ℤ).toNat = 8 from rfl, getLsbD_domaincfg _ _ 8 (by decide)] at hbit
      simpa using hbit
    · intro i hi hle hset
      have hbit := hupdates i hi
      rw [show (8 : ℤ).toNat = 8 from rfl, getLsbD_domaincfg _ _ 8 hi, if_neg (by omega), hset] at hbit
      simpa [show 8 ≤ i by omega] using hbit.symm
  · rintro ⟨hfirst, hrest⟩ i hi
    rw [show (8 : ℤ).toNat = 8 from rfl, getLsbD_domaincfg _ _ 8 hi]
    by_cases hbit : i = 8
    · subst hbit
      simpa using hfirst
    · rw [if_neg (by omega)]
      by_cases hle : 8 ≤ i
      · cases hset : (h.get a1).getLsbD (i - 8) with
        | true => simp [hrest i hi (by omega) hset, hle]
        | false => simp [hbit]
      · simp [hbit, hle]

/-! ### Registers of a source -/

/-- A word that is written somewhere. -/
theorem updatedBy_word_iff {h h' : Hart 64 Csrs} {mode : Mode} {symbol : String} {offset lo width value : ℕ} {word : BitVec 32}
    {stored : BitVec 64} (hcsrs : h'.csrs = h.csrs) (hmem : h'.core.mem = Machine.writeBytes h.core.mem 4 stored word)
    (haccesses : h'.core.accesses = stored :: h.core.accesses) :
    Field.UpdatedBy ⟨.memory 4 symbol offset, lo, width⟩ mode symbols value h h' ↔
      stored = symbols symbol + BitVec.ofNat 64 offset ∧
        Updates (readBytes h.core.mem 4 (symbols symbol + BitVec.ofNat 64 offset)) word lo width value := by
  have hhere : ∀ (heq : stored = symbols symbol + BitVec.ofNat 64 offset),
      Field.UpdatedBy ⟨.memory 4 symbol offset, lo, width⟩ mode symbols value h h' ↔
        Updates (readBytes h.core.mem 4 (symbols symbol + BitVec.ofNat 64 offset)) word lo width value := fun heq =>
    updatedBy_word symbols hcsrs (heq ▸ hmem) (show _ = [stored] ++ _ from haccesses)
      fun a ha => (List.mem_singleton.mp ha).trans heq
  constructor
  · intro hupdated
    rcases id hupdated with ⟨-, ⟨front, hfront, hall⟩, -⟩
    have hsingle : front = [stored] := List.append_cancel_right (hfront.symm.trans haccesses)
    have heq : stored = symbols symbol + BitVec.ofNat 64 offset := hall stored (hsingle ▸ List.mem_singleton_self stored)
    exact ⟨heq, (hhere heq).mp hupdated⟩
  · rintro ⟨heq, hupdates⟩
    exact (hhere heq).mpr hupdates

/-- Both routines for `sourcecfg` store at twice the offset of the source. -/
theorem run_sourcecfg {mode : Mode} {s : ℕ} {h : Hart 64 Csrs} (hs : h.get a0 = BitVec.ofNat 64 s) :
    (∃ h', runStraight file symbols (setSourcecfgSm mode) h = some h' ∧ h'.csrs = h.csrs ∧
      h'.core.mem = Machine.writeBytes h.core.mem 4 (BitVec.ofNat 64 (4 * s) + BitVec.ofNat 64 (4 * s)) ((h.get a1).setWidth 32) ∧
      h'.core.accesses = (BitVec.ofNat 64 (4 * s) + BitVec.ofNat 64 (4 * s)) :: h.core.accesses) ∧
    ∃ h', runStraight file symbols (setSourcecfgChildindex mode) h = some h' ∧ h'.csrs = h.csrs ∧
      h'.core.mem = Machine.writeBytes h.core.mem 4 (BitVec.ofNat 64 (4 * s) + BitVec.ofNat 64 (4 * s))
        ((h.get a1 ||| BitVec.twoPow 64 10).setWidth 32) ∧
      h'.core.accesses = (BitVec.ofNat 64 (4 * s) + BitVec.ofNat 64 (4 * s)) :: h.core.accesses := by
  let h₁ := h.set t0 (symbols mode.mmrBase + BitVec.ofInt 64 0)
  let h₂ := h₁.set a0 (h₁.get a0 <<< 2)
  let h₃ := h₂.set t0 (h₂.get a0 + h₂.get a0)
  let h₄ := h₃.set a1 (h₃.get a1 ||| BitVec.twoPow 64 10)
  have hla : step file symbols h (la t0 mode.mmrBase) = some h₁ := rfl
  have hshift : step file symbols h₁ (.alui .slli a0 a0 2) = some h₂ := rfl
  have hadd : step file symbols h₂ (.add t0 a0 a0) = some h₃ := rfl
  have hset : step file symbols h₃ (.alui .bseti a1 a1 10) = some h₄ := rfl
  have hfour : h₂.get a0 = BitVec.ofNat 64 (4 * s) := by
    rw [Hart.get_set_self _ (by decide), Hart.get_set_of_ne _ (by decide), hs]
    exact ofNat_shiftLeft s 2
  have ht0 : h₃.get t0 = BitVec.ofNat 64 (4 * s) + BitVec.ofNat 64 (4 * s) := by
    rw [Hart.get_set_self _ (by decide), hfour]
  have ha1 : h₃.get a1 = h.get a1 := by
    rw [Hart.get_set_of_ne _ (by decide), Hart.get_set_of_ne _ (by decide), Hart.get_set_of_ne _ (by decide)]
  constructor
  · obtain ⟨h', hstore, hmem, haccesses, hcsrs⟩ := step_sw symbols h₃ a1 t0
    refine ⟨h', ?_, hcsrs, ?_, ?_⟩
    · rw [setSourcecfgSm, runStraight_cons hla, runStraight_cons hshift, runStraight_cons hadd, runStraight_cons hstore,
        runStraight_nil]
    · rw [hmem, ht0, ha1]
      simp only [h₃, h₂, h₁, Hart.mem_set]
    · rw [haccesses, ht0]
      simp only [h₃, h₂, h₁, Hart.accesses_set]
  · obtain ⟨h', hstore, hmem, haccesses, hcsrs⟩ := step_sw symbols h₄ a1 t0
    have ht0₄ : h₄.get t0 = BitVec.ofNat 64 (4 * s) + BitVec.ofNat 64 (4 * s) := (Hart.get_set_of_ne _ (by decide) _).trans ht0
    have ha1₄ : h₄.get a1 = h.get a1 ||| BitVec.twoPow 64 10 := by rw [Hart.get_set_self _ (by decide), ha1]
    refine ⟨h', ?_, hcsrs, ?_, ?_⟩
    · rw [setSourcecfgChildindex, runStraight_cons hla, runStraight_cons hshift, runStraight_cons hadd, runStraight_cons hset,
        runStraight_cons hstore, runStraight_nil]
    · rw [hmem, ht0₄, ha1₄]
      simp only [h₄, h₃, h₂, h₁, Hart.mem_set]
    · rw [haccesses, ht0₄]
      simp only [h₄, h₃, h₂, h₁, Hart.accesses_set]

/-- Twice an offset is the offset from the base when the base is the offset. -/
theorem twice_eq_iff {base x : BitVec 64} : x + x = base + x ↔ base = x :=
  ⟨fun h => (BitVec.add_left_inj x).mp h.symm, fun h => h ▸ rfl⟩

theorem setsField_sourcecfgSm_iff {mode : Mode} {s value : ℕ} {h : Hart 64 Csrs} (hcall : Call .sourcecfgSm s value h) :
    Routine.SetsField .sourcecfgSm mode symbols s value h ↔ Routine.HoldsWhen .sourcecfgSm mode symbols s value h := by
  obtain ⟨hs, hargs⟩ : h.get a0 = BitVec.ofNat 64 s ∧ h.get a1 = BitVec.ofNat 64 value := hcall.args
  have hvalue : value < 2 ^ 3 := hcall.inRange
  obtain ⟨⟨h', hrun, hcsrs, hmem, haccesses⟩, -⟩ := @run_sourcecfg symbols mode s h hs
  rw [setsField_iff_of_run symbols (by decide : Routine.sourcecfgSm ≠ .isr) hrun]
  refine (updatedBy_word_iff symbols hcsrs hmem haccesses).trans (and_congr twice_eq_iff ?_)
  have hword : ∀ i < 32, ((h.get a1).setWidth 32).getLsbD i = value.testBit i := fun i hi => by
    have h64 : i < 64 := by omega
    simp only [hargs, BitVec.getLsbD_setWidth, BitVec.getLsbD_ofNat, hi, h64, decide_true, Bool.true_and]
  constructor
  · intro hupdates i hi hle
    have hbit := hupdates i hi
    rw [hword i hi, if_neg (by omega), testBit_of_le hvalue hle] at hbit
    exact hbit.symm
  · intro hzero i hi
    rw [hword i hi]
    split_ifs with hin
    · rfl
    · rw [hzero i hi (by omega), testBit_of_le hvalue (by omega)]

theorem setsField_sourcecfgChildindex_iff {mode : Mode} {s value : ℕ} {h : Hart 64 Csrs}
    (hcall : Call .sourcecfgChildindex s value h) : Routine.SetsField .sourcecfgChildindex mode symbols s value h ↔
      Routine.HoldsWhen .sourcecfgChildindex mode symbols s value h := by
  obtain ⟨hs, hargs⟩ : h.get a0 = BitVec.ofNat 64 s ∧ h.get a1 = BitVec.ofNat 64 value := hcall.args
  have hvalue : value < 2 ^ 10 := hcall.inRange
  obtain ⟨-, h', hrun, hcsrs, hmem, haccesses⟩ := @run_sourcecfg symbols mode s h hs
  rw [setsField_iff_of_run symbols (by decide : Routine.sourcecfgChildindex ≠ .isr) hrun]
  refine (updatedBy_word_iff symbols hcsrs hmem haccesses).trans (and_congr twice_eq_iff ?_)
  have hword : ∀ i < 32, ((h.get a1 ||| BitVec.twoPow 64 10).setWidth 32).getLsbD i = (value.testBit i || decide (10 = i)) := by
    intro i hi
    have h64 : i < 64 := by omega
    simp only [hargs, BitVec.getLsbD_setWidth, BitVec.getLsbD_or, BitVec.getLsbD_ofNat, BitVec.getLsbD_twoPow, hi, h64,
      decide_true, Bool.true_and, show 10 < 64 by decide]
  constructor
  · intro hupdates
    constructor
    · have hbit := hupdates 10 (by decide)
      rw [hword 10 (by decide), if_neg (by omega)] at hbit
      simpa using hbit.symm
    · intro i hi hle
      have hbit := hupdates i hi
      rw [hword i hi, if_neg (by omega), testBit_of_le hvalue (by omega), decide_eq_false (by omega)] at hbit
      exact hbit.symm
  · rintro ⟨hdelegated, hzero⟩ i hi
    rw [hword i hi]
    split_ifs with hin
    · rw [decide_eq_false (by omega), Bool.or_false]
      rfl
    · rw [testBit_of_le hvalue (by omega), Bool.false_or]
      by_cases hten : i = 10
      · rw [hten, hdelegated]
        rfl
      · rw [hzero i hi (by omega), decide_eq_false (Ne.symm hten)]

/-! ### Targets -/

/-- The word of a target, from the lines that combine it: they leave the address, the memory and the CSRs. -/
theorem setsField_target {routine : Routine} {mode : Mode} {s value lo width : ℕ} {h : Hart 64 Csrs} {merge : List Instr}
    (hisr : routine ≠ .isr) (hcode : routine.code mode = setTarget mode merge)
    (hfield : routine.field mode s = ⟨.memory 4 mode.mmrBase (0x3000 + 4 * s), lo, width⟩)
    (hs : h.get a0 = BitVec.ofNat 64 s) (hargs : h.get a1 = BitVec.ofNat 64 value)
    (hmerge : ∀ old : BitVec 32, ∀ h₁ : Hart 64 Csrs, h₁.get t0 = old.signExtend 64 → h₁.get a1 = BitVec.ofNat 64 value →
      ∃ h₂, runStraight file symbols merge h₁ = some h₂ ∧ h₂.get a0 = h₁.get a0 ∧ h₂.core.mem = h₁.core.mem ∧
        h₂.core.accesses = h₁.core.accesses ∧ h₂.csrs = h₁.csrs ∧
        Updates old ((h₂.get t0 ||| h₂.get a1).setWidth 32) lo width value) :
    routine.SetsField mode symbols s value h := by
  let addr := symbols mode.mmrBase + BitVec.ofNat 64 (0x3000 + 4 * s)
  let h₁ := h.set t0 (symbols mode.mmrBase + BitVec.ofInt 64 0x3000)
  let h₂ := h₁.set a0 ((h₁.get a0 <<< 2) + h₁.get t0)
  have hla : step file symbols h (la t0 mode.mmrBase 0x3000) = some h₁ := rfl
  have hsh2add : step file symbols h₁ (.alu .sh2add a0 a0 t0) = some h₂ := rfl
  have haddr : h₂.get a0 = addr := by
    rw [Hart.get_set_self _ (by decide), Hart.get_set_of_ne _ (by decide), Hart.get_set_self _ (by decide), hs,
      ofNat_shiftLeft s 2, BitVec.add_comm, BitVec.add_assoc]
    show symbols mode.mmrBase + (BitVec.ofNat 64 0x3000 + BitVec.ofNat 64 (4 * s)) = addr
    rw [← BitVec.ofNat_add]
  obtain ⟨h₃, hload, hget₃, hmem₃, haccesses₃, hcsrs₃, hother₃⟩ := step_lw symbols h₂ (by decide : t0 ≠ 0) a0
  have hvalue₃ : h₃.get a1 = BitVec.ofNat 64 value := by
    rw [hother₃ a1 (by decide), Hart.get_set_of_ne _ (by decide), Hart.get_set_of_ne _ (by decide), hargs]
  rw [haddr] at hget₃ haccesses₃
  obtain ⟨h₄, hrun₄, hget₄, hmem₄, haccesses₄, hcsrs₄, hupdates⟩ := hmerge _ h₃ hget₃ hvalue₃
  let h₅ := h₄.set t0 (h₄.get t0 ||| h₄.get a1)
  have hor : step file symbols h₄ (.alu .or t0 t0 a1) = some h₅ := rfl
  obtain ⟨h₆, hstore, hmem₆, haccesses₆, hcsrs₆⟩ := step_sw symbols h₅ t0 a0
  have haddr₅ : h₅.get a0 = addr := by
    rw [Hart.get_set_of_ne _ (by decide), hget₄, hother₃ a0 (by decide), haddr]
  have hword : h₅.get t0 = h₄.get t0 ||| h₄.get a1 := Hart.get_set_self _ (by decide) _
  have hrun : runStraight file symbols (routine.code mode) h = some h₆ := by
    rw [hcode, setTarget, List.append_assoc, List.cons_append, runStraight_cons hla, List.cons_append, runStraight_cons hsh2add,
      List.cons_append, runStraight_cons hload, List.nil_append, runStraight_append hrun₄, runStraight_cons hor,
      runStraight_cons hstore, runStraight_nil]
  have hmem : h₆.core.mem = Machine.writeBytes h.core.mem 4 addr ((h₄.get t0 ||| h₄.get a1).setWidth 32) := by
    rw [hmem₆, haddr₅, hword]
    simp only [h₅, Hart.mem_set, hmem₄, hmem₃, h₂, h₁]
  have haccesses : h₆.core.accesses = [addr, addr] ++ h.core.accesses := by
    rw [haccesses₆, haddr₅]
    simp only [h₅, Hart.accesses_set, haccesses₄, haccesses₃, h₂, h₁]
    rfl
  have hcsrs : h₆.csrs = h.csrs := hcsrs₆.trans (hcsrs₄.trans hcsrs₃)
  rw [setsField_iff_of_run symbols hisr hrun, hfield]
  refine (updatedBy_word symbols hcsrs hmem haccesses fun a ha => by simpa using ha).mpr ?_
  simpa only [h₂, h₁, Hart.mem_set] using hupdates

/-- A word whose bits are those of the value in the field and those of the old word outside. -/
theorem updates_or {old : BitVec 32} {x y : BitVec 64} {lo width value : ℕ} (hvalue : value < 2 ^ width)
    (hx : ∀ i < 32, x.getLsbD i = (old.getLsbD i && decide (i < lo ∨ lo + width ≤ i)))
    (hy : ∀ i < 32, y.getLsbD i = (decide (lo ≤ i) && value.testBit (i - lo))) :
    Updates old ((x ||| y).setWidth 32) lo width value := by
  intro i hi
  rw [BitVec.getLsbD_setWidth, BitVec.getLsbD_or, hx i hi, hy i hi, decide_eq_true hi, Bool.true_and]
  split_ifs with hin
  · rw [decide_eq_false (by omega), decide_eq_true hin.1, Bool.and_false, Bool.false_or, Bool.true_and]
  · rw [decide_eq_true (by omega : i < lo ∨ lo + width ≤ i), Bool.and_true]
    by_cases hle : lo ≤ i
    · rw [testBit_of_le hvalue (by omega), Bool.and_false, Bool.or_false]
    · rw [decide_eq_false hle, Bool.false_and, Bool.or_false]

/-- The value shifted to its field. -/
theorem getLsbD_ofNat_shiftLeft (value lo : ℕ) {i : ℕ} (hi : i < 32) :
    (BitVec.ofNat 64 value <<< lo).getLsbD i = (decide (lo ≤ i) && value.testBit (i - lo)) := by
  have h64 : i < 64 := by omega
  rw [BitVec.getLsbD_shiftLeft, BitVec.getLsbD_ofNat, decide_eq_true h64, decide_eq_true (by omega : i - lo < 64), Bool.true_and,
    Bool.true_and]
  by_cases hle : lo ≤ i
  · rw [decide_eq_true hle, decide_eq_false (Nat.not_lt.mpr hle)]
    rfl
  · rw [decide_eq_false hle, decide_eq_true (Nat.lt_of_not_le hle)]
    rfl

/-- The bits that a mask keeps. -/
theorem getLsbD_masked {old : BitVec 32} {mask : BitVec 64} {keep : ℕ → Prop} [DecidablePred keep]
    (hmask : ∀ i < 32, mask.getLsbD i = decide (keep i)) {i : ℕ} (hi : i < 32) :
    (old.signExtend 64 &&& mask).getLsbD i = (old.getLsbD i && decide (keep i)) := by
  have h64 : i < 64 := by omega
  rw [BitVec.getLsbD_and, hmask i hi, BitVec.getLsbD_signExtend, decide_eq_true h64, if_pos hi, Bool.true_and]

variable {mode : Mode} {s value : ℕ} {h : Hart 64 Csrs}

theorem setsField_targetHartindex (hcall : Call .targetHartindex s value h) :
    Routine.SetsField .targetHartindex mode symbols s value h := by
  obtain ⟨hs, hargs⟩ : h.get a0 = BitVec.ofNat 64 s ∧ h.get a1 = BitVec.ofNat 64 value := hcall.args
  refine setsField_target symbols (by decide) rfl rfl hs hargs fun old h₁ hold hvalue => ?_
  let h₂ := h₁.set a1 (h₁.get a1 <<< 18)
  let h₃ := h₂.set t0 (h₂.get t0 <<< 46)
  let h₄ := h₃.set t0 (h₃.get t0 >>> 46)
  have hshift : step file symbols h₁ (.alui .slli a1 a1 18) = some h₂ := rfl
  have hleft : step file symbols h₂ (.alui .slli t0 t0 46) = some h₃ := rfl
  have hright : step file symbols h₃ (.alui .srli t0 t0 46) = some h₄ := rfl
  refine ⟨h₄, by rw [runStraight_cons hshift, runStraight_cons hleft,
    runStraight_cons hright, runStraight_nil], ?_, ?_, ?_, rfl, ?_⟩
  · rw [Hart.get_set_of_ne _ (by decide), Hart.get_set_of_ne _ (by decide), Hart.get_set_of_ne _ (by decide)]
  · simp only [h₄, h₃, h₂, Hart.mem_set]
  · simp only [h₄, h₃, h₂, Hart.accesses_set]
  · have ht0 : h₄.get t0 = old.signExtend 64 <<< 46 >>> 46 := by
      rw [Hart.get_set_self _ (by decide), Hart.get_set_self _ (by decide), Hart.get_set_of_ne _ (by decide), hold]
    have ha1 : h₄.get a1 = BitVec.ofNat 64 value <<< 18 := by
      rw [Hart.get_set_of_ne _ (by decide), Hart.get_set_of_ne _ (by decide), Hart.get_set_self _ (by decide), hvalue]
    rw [ht0, ha1]
    refine updates_or hcall.inRange (fun i hi => ?_) fun i hi => getLsbD_ofNat_shiftLeft value 18 hi
    -- the lower 18 bits are shifted out and back
    rw [BitVec.getLsbD_ushiftRight, BitVec.getLsbD_shiftLeft, BitVec.getLsbD_signExtend]
    by_cases hlow : i < 18
    · simp [hlow, hi, show i < 64 by omega, show 46 + i < 64 by omega, show ¬ 46 + i < 46 by omega]
    · simp [hlow, show ¬ 46 + i < 64 by omega, show ¬ 32 ≤ i by omega]

theorem setsField_targetIntpri (hcall : Call .targetIntpri s value h) :
    Routine.SetsField .targetIntpri mode symbols s value h := by
  obtain ⟨hs, hargs⟩ : h.get a0 = BitVec.ofNat 64 s ∧ h.get a1 = BitVec.ofNat 64 value := hcall.args
  refine setsField_target symbols (by decide) rfl rfl hs hargs fun old h₁ hold hvalue => ?_
  let h₂ := h₁.set t0 (h₁.get t0 &&& BitVec.ofInt 64 (-256))
  have hmask : step file symbols h₁ (.alui .andi t0 t0 (-256)) = some h₂ := rfl
  refine ⟨h₂, by rw [runStraight_cons hmask, runStraight_nil], Hart.get_set_of_ne _ (by decide) _, Hart.mem_set _ _ _,
    Hart.accesses_set _ _ _, rfl, ?_⟩
  have ht0 : h₂.get t0 = old.signExtend 64 &&& BitVec.ofInt 64 (-256) := by rw [Hart.get_set_self _ (by decide), hold]
  have ha1 : h₂.get a1 = BitVec.ofNat 64 value <<< 0 := by
    rw [Hart.get_set_of_ne _ (by decide), hvalue, BitVec.shiftLeft_zero]
  rw [ht0, ha1]
  have hkeep : ∀ i < 32, (BitVec.ofInt 64 (-256)).getLsbD i = decide (i < 0 ∨ 0 + 8 ≤ i) := by decide
  exact updates_or hcall.inRange (fun i hi => getLsbD_masked hkeep hi) fun i hi => getLsbD_ofNat_shiftLeft value 0 hi

theorem setsField_targetEiid (hcall : Call .targetEiid s value h) : Routine.SetsField .targetEiid mode symbols s value h := by
  obtain ⟨hs, hargs⟩ : h.get a0 = BitVec.ofNat 64 s ∧ h.get a1 = BitVec.ofNat 64 value := hcall.args
  refine setsField_target symbols (by decide) rfl rfl hs hargs fun old h₁ hold hvalue => ?_
  let h₂ := h₁.set t0 (h₁.get t0 &&& BitVec.ofInt 64 (-2048))
  have hmask : step file symbols h₁ (.alui .andi t0 t0 (-2048)) = some h₂ := rfl
  refine ⟨h₂, by rw [runStraight_cons hmask, runStraight_nil], Hart.get_set_of_ne _ (by decide) _, Hart.mem_set _ _ _,
    Hart.accesses_set _ _ _, rfl, ?_⟩
  have ht0 : h₂.get t0 = old.signExtend 64 &&& BitVec.ofInt 64 (-2048) := by rw [Hart.get_set_self _ (by decide), hold]
  have ha1 : h₂.get a1 = BitVec.ofNat 64 value <<< 0 := by
    rw [Hart.get_set_of_ne _ (by decide), hvalue, BitVec.shiftLeft_zero]
  rw [ht0, ha1]
  have hkeep : ∀ i < 32, (BitVec.ofInt 64 (-2048)).getLsbD i = decide (i < 0 ∨ 0 + 11 ≤ i) := by decide
  exact updates_or hcall.inRange (fun i hi => getLsbD_masked hkeep hi) fun i hi => getLsbD_ofNat_shiftLeft value 0 hi

theorem setsField_targetGuestindex (hcall : Call .targetGuestindex s value h) :
    Routine.SetsField .targetGuestindex mode symbols s value h := by
  obtain ⟨hs, hargs⟩ : h.get a0 = BitVec.ofNat 64 s ∧ h.get a1 = BitVec.ofNat 64 value := hcall.args
  refine setsField_target symbols (by decide) rfl rfl hs hargs fun old h₁ hold hvalue => ?_
  let h₂ := h₁.set t1 (BitVec.ofInt 64 0xfffc0fff)
  let h₃ := h₂.set t0 (h₂.get t0 &&& h₂.get t1)
  let h₄ := h₃.set a1 (h₃.get a1 <<< 12)
  have hli : step file symbols h₁ (.li t1 0xfffc0fff) = some h₂ := rfl
  have hand : step file symbols h₂ (.alu .and t0 t0 t1) = some h₃ := rfl
  have hshift : step file symbols h₃ (.alui .slli a1 a1 12) = some h₄ := rfl
  refine ⟨h₄, by rw [runStraight_cons hli, runStraight_cons hand, runStraight_cons hshift, runStraight_nil], ?_, ?_, ?_, rfl, ?_⟩
  · rw [Hart.get_set_of_ne _ (by decide), Hart.get_set_of_ne _ (by decide), Hart.get_set_of_ne _ (by decide)]
  · simp only [h₄, h₃, h₂, Hart.mem_set]
  · simp only [h₄, h₃, h₂, Hart.accesses_set]
  · have ht0 : h₄.get t0 = old.signExtend 64 &&& BitVec.ofInt 64 0xfffc0fff := by
      rw [Hart.get_set_of_ne _ (by decide), Hart.get_set_self _ (by decide), Hart.get_set_of_ne _ (by decide),
        Hart.get_set_self _ (by decide), hold]
    have ha1 : h₄.get a1 = BitVec.ofNat 64 value <<< 12 := by
      rw [Hart.get_set_self _ (by decide), Hart.get_set_of_ne _ (by decide), Hart.get_set_of_ne _ (by decide), hvalue]
    rw [ht0, ha1]
    have hkeep : ∀ i < 32, (BitVec.ofInt 64 0xfffc0fff).getLsbD i = decide (i < 12 ∨ 12 + 6 ≤ i) := by decide
    exact updates_or hcall.inRange (fun i hi => getLsbD_masked hkeep hi) fun i hi => getLsbD_ofNat_shiftLeft value 12 hi

/-! ### Registers of the interrupt file -/

theorem divw_ofNat {n : ℕ} (hn : n < 2 ^ 31) :
    AluOp.eval (BitVec.ofNat 64 n) (BitVec.ofInt 64 64) .divw = BitVec.ofNat 64 (n / 64) := by
  have hword : (BitVec.ofNat 64 n).setWidth 32 = BitVec.ofNat 32 n := BitVec.setWidth_ofNat_of_le (by decide) n
  have hmsb : (BitVec.ofNat 32 n).msb = false := by
    rw [BitVec.msb_eq_false_iff_two_mul_lt, BitVec.toNat_ofNat]
    omega
  have hdiv : (BitVec.ofNat 32 n).sdiv (BitVec.ofNat 32 64) = BitVec.ofNat 32 (n / 64) := by
    apply BitVec.eq_of_toNat_eq
    rw [BitVec.sdiv, hmsb, show (BitVec.ofNat 32 64).msb = false by decide]
    show (BitVec.ofNat 32 n / BitVec.ofNat 32 64).toNat = _
    rw [BitVec.toNat_udiv, BitVec.toNat_ofNat, BitVec.toNat_ofNat, BitVec.toNat_ofNat, Nat.mod_eq_of_lt (by omega : n < 2 ^ 32),
      Nat.mod_eq_of_lt (by omega : n / 64 < 2 ^ 32), Nat.mod_eq_of_lt (by decide : 64 < 2 ^ 32)]
  have hdivisor : (BitVec.ofInt 64 64).setWidth 32 = BitVec.ofNat 32 64 := by decide
  rw [AluOp.eval, hdivisor, if_neg (by decide), hword, hdiv, BitVec.signExtend_eq_setWidth_of_msb_false]
  · apply BitVec.eq_of_toNat_eq
    rw [BitVec.toNat_setWidth, BitVec.toNat_ofNat, BitVec.toNat_ofNat]
    omega
  · rw [BitVec.msb_eq_false_iff_two_mul_lt, BitVec.toNat_ofNat]
    omega

/-- A small number keeps its value in 32 bits with the sign extended. -/
theorem signExtend_small {n : ℕ} (hn : n < 2 ^ 31) : (BitVec.ofNat 32 n).signExtend 64 = BitVec.ofNat 64 n := by
  rw [BitVec.signExtend_eq_setWidth_of_msb_false]
  · apply BitVec.eq_of_toNat_eq
    rw [BitVec.toNat_setWidth, BitVec.toNat_ofNat, BitVec.toNat_ofNat]
    omega
  · rw [BitVec.msb_eq_false_iff_two_mul_lt, BitVec.toNat_ofNat]
    omega

/-- The number of the register, from the number of the first. -/
theorem select_eq {n first : ℕ} (hn : n < 2 ^ 10) (hfirst : first < 2 ^ 10) :
    AluImmOp.eval (AluImmOp.eval (BitVec.ofNat 64 n) first .addiw) 1 .slliw = BitVec.ofNat 64 (2 * (n + first)) := by
  have hadd : AluImmOp.eval (BitVec.ofNat 64 n) first .addiw = BitVec.ofNat 64 (n + first) := by
    show ((BitVec.ofNat 64 n + BitVec.ofInt 64 (first : ℤ)).setWidth 32).signExtend 64 = _
    rw [BitVec.ofInt_natCast, ← BitVec.ofNat_add, BitVec.setWidth_ofNat_of_le (by decide), signExtend_small (by omega)]
  rw [hadd]
  show ((BitVec.ofNat 64 (n + first)).setWidth 32 <<< 1).signExtend 64 = _
  rw [BitVec.setWidth_ofNat_of_le (by decide), ofNat_shiftLeft, signExtend_small (by omega), Nat.pow_one]

/-- The word that the routines write: the old one with the bit cleared, and the shifted value. -/
def pendingWord (s value : ℕ) (old : BitVec 64) : BitVec 64 :=
  ((BitVec.ofNat 64 value).setWidth 32 <<< (s % 32)).signExtend 64 ||| (old &&& ~~~BitVec.twoPow 64 (s % 64))

/-- The run reads and writes the register of the identity. -/
theorem run_setPending {first : ℕ} (hfirst : first < 2 ^ 10) (hs : s < 2 ^ 10) (hsource : h.get a0 = BitVec.ofNat 64 s)
    (hvalue : h.get a1 = BitVec.ofNat 64 value) :
    let select := BitVec.ofNat 64 (2 * (s / 64 + first))
    ∃ h', runStraight file symbols (setPending mode first) h = some h' ∧ h'.core.mem = h.core.mem ∧
      h'.core.accesses = h.core.accesses ∧ h'.csrs = Function.update h.csrs mode
        { select, reg := Function.update (h.csrs mode).reg select (pendingWord s value ((h.csrs mode).reg select)) } := by
  intro select
  let h₁ := h.set t0 (BitVec.ofInt 64 64)
  let h₂ := h₁.set t0 (AluOp.eval (h₁.get a0) (h₁.get t0) .divw)
  let h₃ := h₂.set t0 (AluImmOp.eval (h₂.get t0) first .addiw)
  let h₄ := h₃.set t0 (AluImmOp.eval (h₃.get t0) 1 .slliw)
  let h₅ := ({ h₄ with csrs := file.write h₄.csrs (.iselect mode) (h₄.get t0) } : Hart 64 Csrs).set 0
    (file.read h₄.csrs (.iselect mode))
  let h₆ := h₅.set t1 (file.read h₅.csrs (.ireg mode))
  let h₇ := h₆.set a1 (AluOp.eval (h₆.get a1) (h₆.get a0) .sllw)
  let h₈ := h₇.set t0 (AluOp.eval (h₇.get 0) (h₇.get a0) .bset)
  let h₉ := h₈.set t0 (AluOp.eval (h₈.get t1) (h₈.get t0) .andn)
  let h₁₀ := h₉.set a1 (h₉.get a1 ||| h₉.get t0)
  let h₁₁ := ({ h₁₀ with csrs := file.write h₁₀.csrs (.ireg mode) (h₁₀.get a1) } : Hart 64 Csrs).set 0
    (file.read h₁₀.csrs (.ireg mode))
  have hli : step file symbols h (.li t0 64) = some h₁ := rfl
  have hdiv : step file symbols h₁ (.alu .divw t0 a0 t0) = some h₂ := rfl
  have hadd : step file symbols h₂ (.alui .addiw t0 t0 first) = some h₃ := rfl
  have hdouble : step file symbols h₃ (.alui .slliw t0 t0 1) = some h₄ := rfl
  have hselect : step file symbols h₄ (.csrw (.iselect mode) t0) = some h₅ := rfl
  have hread : step file symbols h₅ (.csrr t1 (.ireg mode)) = some h₆ := rfl
  have hshift : step file symbols h₆ (.alu .sllw a1 a1 a0) = some h₇ := rfl
  have hbset : step file symbols h₇ (.alu .bset t0 0 a0) = some h₈ := rfl
  have handn : step file symbols h₈ (.alu .andn t0 t1 t0) = some h₉ := rfl
  have hor : step file symbols h₉ (.alu .or a1 a1 t0) = some h₁₀ := rfl
  have hwrite : step file symbols h₁₀ (.csrw (.ireg mode) a1) = some h₁₁ := rfl
  have hdiv₂ : h₂.get t0 = BitVec.ofNat 64 (s / 64) := by
    rw [Hart.get_set_self _ (by decide), Hart.get_set_of_ne _ (by decide), Hart.get_set_self _ (by decide), hsource]
    exact divw_ofNat (by omega)
  have hsel₄ : h₄.get t0 = select := by
    rw [Hart.get_set_self _ (by decide), Hart.get_set_self _ (by decide), hdiv₂]
    exact select_eq (by omega) hfirst
  have hcsrs₅ : h₅.csrs = Function.update h.csrs mode { select, reg := (h.csrs mode).reg } := by
    show Function.update h.csrs mode { h.csrs mode with select := h₄.get t0 } = _
    rw [hsel₄]
  have hold : file.read h₅.csrs (.ireg mode) = (h.csrs mode).reg select := by
    show (h₅.csrs mode).reg (h₅.csrs mode).select = _
    rw [hcsrs₅, Function.update_self]
  have hfour : ∀ r, r ≠ t0 → h₅.get r = h.get r := fun r hr => by
    show h₄.get r = h.get r
    rw [Hart.get_set_of_ne _ hr, Hart.get_set_of_ne _ hr, Hart.get_set_of_ne _ hr, Hart.get_set_of_ne _ hr]
  have ha0 : h₆.get a0 = BitVec.ofNat 64 s := by rw [Hart.get_set_of_ne _ (by decide), hfour a0 (by decide), hsource]
  have hamount : (BitVec.ofNat 64 s).toNat = s := by
    rw [BitVec.toNat_ofNat]
    omega
  have ha1 : h₇.get a1 = ((BitVec.ofNat 64 value).setWidth 32 <<< (s % 32)).signExtend 64 := by
    rw [Hart.get_set_self _ (by decide), ha0, Hart.get_set_of_ne _ (by decide), hfour a1 (by decide), hvalue, AluOp.eval, hamount]
  have hbit : h₈.get t0 = BitVec.twoPow 64 (s % 64) := by
    rw [Hart.get_set_self _ (by decide), Hart.get_zero, Hart.get_set_of_ne _ (by decide), ha0, AluOp.eval, hamount]
    exact BitVec.zero_or
  have hclear : h₉.get t0 = (h.csrs mode).reg select &&& ~~~BitVec.twoPow 64 (s % 64) := by
    rw [Hart.get_set_self _ (by decide), hbit, Hart.get_set_of_ne _ (by decide), Hart.get_set_of_ne _ (by decide),
      Hart.get_set_self _ (by decide), hold, AluOp.eval]
  have hword : h₁₀.get a1 = pendingWord s value ((h.csrs mode).reg select) := by
    rw [Hart.get_set_self _ (by decide), hclear, Hart.get_set_of_ne _ (by decide), Hart.get_set_of_ne _ (by decide), ha1]
    rfl
  have hmem₅ : h₅.core.mem = h.core.mem := by
    rw [Hart.mem_set]
    show h₄.core.mem = _
    simp only [h₄, h₃, h₂, h₁, Hart.mem_set]
  have haccesses₅ : h₅.core.accesses = h.core.accesses := by
    rw [Hart.accesses_set]
    show h₄.core.accesses = _
    simp only [h₄, h₃, h₂, h₁, Hart.accesses_set]
  refine ⟨h₁₁, ?_, ?_, ?_, ?_⟩
  · rw [setPending, runStraight_cons hli, runStraight_cons hdiv, runStraight_cons hadd, runStraight_cons hdouble,
      runStraight_cons hselect, runStraight_cons hread, runStraight_cons hshift, runStraight_cons hbset, runStraight_cons handn,
      runStraight_cons hor, runStraight_cons hwrite, runStraight_nil]
  · rw [Hart.mem_set, ← hmem₅]
    show h₁₀.core.mem = _
    simp only [h₁₀, h₉, h₈, h₇, h₆, Hart.mem_set]
  · rw [Hart.accesses_set, ← haccesses₅]
    show h₁₀.core.accesses = _
    simp only [h₁₀, h₉, h₈, h₇, h₆, Hart.accesses_set]
  · show Function.update h₅.csrs mode
      { h₅.csrs mode with reg := Function.update (h₅.csrs mode).reg (h₅.csrs mode).select (h₁₀.get a1) } = _
    rw [hword, hcsrs₅, Function.update_idem, Function.update_self]

/-- The bits of a one that is shifted in 32 bits, with the sign extended. -/
theorem getLsbD_one_sllw {k i : ℕ} (hk : k < 32) (hi : i < 64) :
    (((BitVec.ofNat 64 1).setWidth 32 <<< k).signExtend 64).getLsbD i = decide (i = k ∨ (k = 31 ∧ 31 ≤ i)) := by
  have hone : (BitVec.ofNat 64 1).setWidth 32 <<< k = BitVec.twoPow 32 k := by
    rw [BitVec.twoPow_eq]
    exact congrArg (fun one : BitVec 32 => one <<< k) (by decide)
  rw [hone, BitVec.getLsbD_signExtend, BitVec.msb_twoPow, BitVec.getLsbD_twoPow]
  by_cases h32 : i < 32
  · rw [if_pos h32]
    simp only [hi, hk, decide_true, Bool.true_and, decide_eq_decide]
    omega
  · rw [if_neg h32]
    simp only [hi, decide_true, Bool.true_and, ← Bool.decide_and, decide_eq_decide]
    omega

/-- The bit in front of the sign extension. -/
theorem getLsbD_pendingWord_one (s : ℕ) (old : BitVec 64) {i : ℕ} (hi : i < 64) :
    (pendingWord s 1 old).getLsbD i =
      (decide (i = s % 32 ∨ (s % 32 = 31 ∧ 31 ≤ i)) || (old.getLsbD i && !decide (i = s % 64))) := by
  rw [pendingWord, BitVec.getLsbD_or, getLsbD_one_sllw (Nat.mod_lt _ (by decide)) hi, BitVec.getLsbD_and, BitVec.getLsbD_not,
    BitVec.getLsbD_twoPow, decide_eq_true hi, Bool.true_and, decide_eq_true (Nat.mod_lt s (by decide : 0 < 64)), Bool.true_and]
  simp only [eq_comm (a := i)]

theorem getLsbD_pendingWord_zero (s : ℕ) (old : BitVec 64) {i : ℕ} (hi : i < 64) :
    (pendingWord s 0 old).getLsbD i = (old.getLsbD i && !decide (i = s % 64)) := by
  have hzero : ((BitVec.ofNat 64 0).setWidth 32 <<< (s % 32)).signExtend 64 = 0#64 := by
    rw [show (BitVec.ofNat 64 0).setWidth 32 = 0#32 by decide, BitVec.zero_shiftLeft]
    decide
  rw [pendingWord, hzero, BitVec.zero_or, BitVec.getLsbD_and, BitVec.getLsbD_not, BitVec.getLsbD_twoPow, decide_eq_true hi,
    Bool.true_and, decide_eq_true (Nat.mod_lt s (by decide : 0 < 64)), Bool.true_and]
  simp only [eq_comm (a := i)]

/-- The word is the update of the bit unless the shift in 32 bits misses it, or sets bits that were clear. -/
theorem updates_pendingWord_iff {old : BitVec 64} (hvalue : value < 2) :
    Updates old (pendingWord s value old) (s % 64) 1 value ↔ value = 0 ∨ s % 64 < 31 ∨
      (s % 64 = 31 ∧ ∀ i < 64, 32 ≤ i → old.getLsbD i = true) ∨
      (s % 64 = 63 ∧ ∀ i < 63, 31 ≤ i → old.getLsbD i = true) := by
  have hmod : s % 32 = if s % 64 < 32 then s % 64 else s % 64 - 32 := by split <;> omega
  have hlt : s % 64 < 64 := Nat.mod_lt s (by decide)
  obtain rfl | rfl : value = 0 ∨ value = 1 := by omega
  · refine ⟨fun _ => .inl rfl, fun _ i hi => ?_⟩
    rw [getLsbD_pendingWord_zero s old hi]
    split
    · simp [show i = s % 64 by omega]
    · simp [show i ≠ s % 64 by omega]
  constructor
  · intro hupdates
    -- the other bits of the word are bits of the old one
    have hother : ∀ i < 64, i ≠ s % 64 → (i = s % 32 ∨ (s % 32 = 31 ∧ 31 ≤ i)) → old.getLsbD i = true := by
      intro i hi hne hset
      have hbit := hupdates i hi
      rw [if_neg (by omega), getLsbD_pendingWord_one s old hi, decide_eq_true hset, Bool.true_or] at hbit
      exact hbit.symm
    -- and the bit itself is set
    have hself : s % 64 = s % 32 ∨ (s % 32 = 31 ∧ 31 ≤ s % 64) := by
      have hbit := hupdates (s % 64) hlt
      rw [if_pos (by omega), getLsbD_pendingWord_one s old hlt, Nat.sub_self] at hbit
      simpa using hbit
    right
    by_cases hsmall : s % 64 < 31
    · exact .inl hsmall
    · right
      by_cases hmiddle : s % 64 = 31
      · exact .inl ⟨hmiddle, fun i hi h32 => hother i hi (by omega) (by omega)⟩
      · exact .inr ⟨by omega, fun i hi h31 => hother i (by omega) (by omega) (by omega)⟩
  · intro hcond i hi
    rw [getLsbD_pendingWord_one s old hi]
    by_cases hself : i = s % 64
    · rw [if_pos (by omega), hself, Nat.sub_self, decide_eq_true (by omega), Bool.true_or]
      rfl
    · rw [if_neg (by omega), decide_eq_false hself, Bool.not_false, Bool.and_true]
      by_cases hset : i = s % 32 ∨ (s % 32 = 31 ∧ 31 ≤ i)
      · rw [decide_eq_true hset, Bool.true_or]
        rcases hcond with hzero | hsmall | ⟨hlast, hold⟩ | ⟨htop, hold⟩
        · omega
        · omega
        · exact (hold i hi (by omega)).symm
        · exact (hold i (by omega) (by omega)).symm
      · rw [decide_eq_false hset, Bool.false_or]

/-- The routine sets the bit of the identity when its word is the update of the bit. -/
theorem setsField_pending_iff {routine : Routine} {first select : ℕ} (hisr : routine ≠ .isr)
    (hcode : routine.code mode = setPending mode first) (hfield : routine.field mode s = ⟨.imsic select, s % 64, 1⟩)
    (hselect : select = 2 * (s / 64 + first)) (hfirst : first < 2 ^ 10) (hs : s ≤ 1023) (hvalue : value < 2)
    (hargs : h.get a0 = BitVec.ofNat 64 s ∧ h.get a1 = BitVec.ofNat 64 value) :
    routine.SetsField mode symbols s value h ↔ value = 0 ∨ s % 64 < 31 ∨
      (s % 64 = 31 ∧ ∀ i < 64, 32 ≤ i → ((h.csrs mode).reg (BitVec.ofNat 64 select)).getLsbD i = true) ∨
      (s % 64 = 63 ∧ ∀ i < 63, 31 ≤ i → ((h.csrs mode).reg (BitVec.ofNat 64 select)).getLsbD i = true) := by
  obtain ⟨h', hrun, hmem, haccesses, hcsrs⟩ := @run_setPending symbols mode s value h first hfirst (by omega) hargs.1 hargs.2
  rw [← hselect] at hcsrs
  have hhere : (h'.csrs mode).reg = Function.update (h.csrs mode).reg (BitVec.ofNat 64 select)
      (pendingWord s value ((h.csrs mode).reg (BitVec.ofNat 64 select))) := by rw [hcsrs, Function.update_self]
  have hword : (h'.csrs mode).reg (BitVec.ofNat 64 select) =
      pendingWord s value ((h.csrs mode).reg (BitVec.ofNat 64 select)) := by rw [hhere, Function.update_self]
  rw [setsField_iff_of_run symbols hisr (hcode ▸ hrun), hfield, ← updates_pendingWord_iff hvalue]
  constructor
  · rintro ⟨-, -, -, -, -, hupdates⟩
    exact hword ▸ hupdates
  · intro hupdates
    refine ⟨hmem, haccesses, fun mode' hmode => ?_, ?_, fun r hr => ?_, hword.symm ▸ hupdates⟩
    · rw [hcsrs, Function.update_of_ne hmode]
    · rw [hcsrs, Function.update_self]
    · rw [hhere, Function.update_of_ne hr]

theorem setsField_eie_iff (hcall : Call .eie s value h) :
    Routine.SetsField .eie mode symbols s value h ↔ Routine.HoldsWhen .eie mode symbols s value h :=
  setsField_pending_iff symbols (by decide) rfl rfl (show 0xC0 + 2 * (s / 64) = 2 * (s / 64 + 96) by omega) (by decide)
    hcall.source.2 hcall.inRange hcall.args

theorem setsField_eip_iff (hcall : Call .eip s value h) :
    Routine.SetsField .eip mode symbols s value h ↔ Routine.HoldsWhen .eip mode symbols s value h :=
  setsField_pending_iff symbols (by decide) rfl rfl (show 0x80 + 2 * (s / 64) = 2 * (s / 64 + 64) by omega) (by decide)
    hcall.source.2 hcall.inRange hcall.args

/-! ### The table of the handlers -/

theorem run_setIsr (hsource : h.get a0 = BitVec.ofNat 64 s) (hvalue : h.get a1 = BitVec.ofNat 64 value) :
    let slot := symbols "__trap_handler_m__aplic_isr_table" + BitVec.ofNat 64 (8 * s)
    ∃ h', runStraight file symbols setIsr h = some h' ∧ h'.csrs = h.csrs ∧
      h'.core.mem = Machine.writeBytes h.core.mem 4 slot (BitVec.ofNat 32 value) ∧
      h'.core.accesses = slot :: h.core.accesses := by
  intro slot
  let table := symbols "__trap_handler_m__aplic_isr_table" + BitVec.ofInt 64 0
  let h₁ := h.set t0 table
  let h₂ := h₁.set a0 (h₁.get a0 <<< 3)
  let h₃ := h₂.set a0 (h₂.get a0 + h₂.get t0)
  have hla : step file symbols h (la t0 "__trap_handler_m__aplic_isr_table") = some h₁ := rfl
  have hshift : step file symbols h₁ (.alui .slli a0 a0 3) = some h₂ := rfl
  have hadd : step file symbols h₂ (.add a0 a0 t0) = some h₃ := rfl
  obtain ⟨h', hstore, hmem, haccesses, hcsrs⟩ := step_sw symbols h₃ a1 a0
  have hoffset : h₂.get a0 = BitVec.ofNat 64 (8 * s) := by
    rw [Hart.get_set_self _ (by decide), Hart.get_set_of_ne _ (by decide), hsource]
    exact ofNat_shiftLeft s 3
  have htable : h₂.get t0 = symbols "__trap_handler_m__aplic_isr_table" := by
    rw [Hart.get_set_of_ne _ (by decide), Hart.get_set_self _ (by decide)]
    exact BitVec.add_zero _
  have haddr : h₃.get a0 = slot := by rw [Hart.get_set_self _ (by decide), hoffset, htable, BitVec.add_comm]
  have hword : (h₃.get a1).setWidth 32 = BitVec.ofNat 32 value := by
    rw [Hart.get_set_of_ne _ (by decide), Hart.get_set_of_ne _ (by decide), Hart.get_set_of_ne _ (by decide), hvalue]
    exact BitVec.setWidth_ofNat_of_le (by decide) value
  refine ⟨h', ?_, hcsrs, ?_, ?_⟩
  · rw [setIsr, runStraight_cons hla, runStraight_cons hshift, runStraight_cons hadd, runStraight_cons hstore, runStraight_nil]
  · rw [hmem, haddr, hword]
    simp only [h₃, h₂, h₁, Hart.mem_set]
  · rw [haccesses, haddr]
    simp only [h₃, h₂, h₁, Hart.accesses_set]

/-- All bits of a double word are replaced when it is the value. -/
theorem updates_all_iff {old new : BitVec 64} : Updates old new 0 64 value ↔ new = BitVec.ofNat 64 value := by
  constructor
  · intro hupdates
    refine BitVec.eq_of_getLsbD_eq fun i hi => ?_
    rw [hupdates i hi, if_pos (by omega), BitVec.getLsbD_ofNat, decide_eq_true hi, Bool.true_and]
    rfl
  · rintro rfl i hi
    rw [if_pos (by omega), BitVec.getLsbD_ofNat, decide_eq_true hi, Bool.true_and]
    rfl

/-- The double word with a new lower half. -/
theorem readBytes_lowerHalf {mem : BitVec 64 → BitVec 8} {slot : BitVec 64} (hvalue : value < 2 ^ 64) :
    readBytes (Machine.writeBytes mem 4 slot (BitVec.ofNat 32 value)) 8 slot = BitVec.ofNat 64 value ↔
      readBytes mem 4 (slot + BitVec.ofNat 64 4) = BitVec.ofNat 32 (value / 2 ^ 32) := by
  let stored := Machine.writeBytes mem 4 slot (BitVec.ofNat 32 value)
  have hlower : Machine.readNat stored 4 slot = value % 2 ^ 32 := by
    have hread := Machine.readNat_writeBytes mem (by decide : 4 ≤ 2 ^ 64) slot (BitVec.ofNat 32 value) (by omega : 0 + 4 ≤ 4)
    rw [BitVec.add_zero, Nat.pow_zero, Nat.div_one] at hread
    refine hread.trans ?_
    rw [show (BitVec.ofNat 32 value : BitVec (8 * 4)).toNat = value % 2 ^ 32 from BitVec.toNat_ofNat _ _]
    omega
  have hupper : Machine.readNat stored 4 (slot + BitVec.ofNat 64 4) = Machine.readNat mem 4 (slot + BitVec.ofNat 64 4) := by
    refine Machine.readNat_congr fun i hi => Machine.writeBytes_outside mem ?_ _
    have hdiff : slot + BitVec.ofNat 64 4 + BitVec.ofNat 64 i - slot = BitVec.ofNat 64 (4 + i) := by
      rw [BitVec.add_assoc, BitVec.add_comm slot, BitVec.add_sub_cancel, ← BitVec.ofNat_add]
    rw [hdiff, BitVec.toNat_ofNat]
    omega
  have hsplit : Machine.readNat stored 8 slot = value % 2 ^ 32 + 2 ^ 32 * Machine.readNat mem 4 (slot + BitVec.ofNat 64 4) := by
    rw [← hlower, ← hupper]
    exact Machine.readNat_add stored 4 4 slot
  have hlt : Machine.readNat mem 4 (slot + BitVec.ofNat 64 4) < 2 ^ 32 := Machine.readNat_lt mem 4 _
  show BitVec.ofNat 64 (Machine.readNat stored 8 slot) = BitVec.ofNat 64 value ↔
    BitVec.ofNat 32 (Machine.readNat mem 4 (slot + BitVec.ofNat 64 4)) = BitVec.ofNat 32 (value / 2 ^ 32)
  rw [hsplit, ← BitVec.toNat_inj, ← BitVec.toNat_inj, BitVec.toNat_ofNat, BitVec.toNat_ofNat, BitVec.toNat_ofNat,
    BitVec.toNat_ofNat]
  omega

theorem setsField_isr_iff (hcall : Call .isr s value h) :
    Routine.SetsField .isr mode symbols s value h ↔ Routine.HoldsWhen .isr mode symbols s value h := by
  obtain ⟨hs, hargs⟩ : h.get a0 = BitVec.ofNat 64 s ∧ h.get a1 = BitVec.ofNat 64 value := hcall.args
  obtain ⟨h', hrun, hcsrs, hmem, haccesses⟩ := @run_setIsr symbols s value h hs hargs
  have hslot : symbols "__trap_handler_m__aplic_isr_table" + BitVec.ofNat 64 (8 * s) + BitVec.ofNat 64 4 =
      symbols "__trap_handler_m__aplic_isr_table" + BitVec.ofNat 64 (8 * s + 4) := by
    rw [BitVec.add_assoc, ← BitVec.ofNat_add]
  have hiff : Updates (readBytes h.core.mem 8 (symbols "__trap_handler_m__aplic_isr_table" + BitVec.ofNat 64 (8 * s)))
      (readBytes h'.core.mem 8 (symbols "__trap_handler_m__aplic_isr_table" + BitVec.ofNat 64 (8 * s))) 0 64 value ↔
      readBytes h.core.mem 4 (symbols "__trap_handler_m__aplic_isr_table" + BitVec.ofNat 64 (8 * s + 4)) =
        BitVec.ofNat 32 (value / 2 ^ 32) := by
    rw [hmem, ← hslot]
    exact updates_all_iff.trans (readBytes_lowerHalf hcall.inRange)
  constructor
  · rintro ⟨hsmall, out, hout, hupdated⟩
    obtain rfl := Option.some.inj (hrun.symm.trans hout)
    exact ⟨hsmall rfl, hiff.mp hupdated.2.2.2⟩
  · rintro ⟨hsmall, hpointer⟩
    refine ⟨fun _ => hsmall, h', hrun, hcsrs, ⟨[_], haccesses, fun a ha => List.mem_singleton.mp ha⟩, fun a ha => ?_,
      hiff.mpr hpointer⟩
    rw [hmem]
    exact Machine.writeBytes_outside _ (by omega) _

/-! ### All routines -/

/-- Every routine sets its field, and nothing else, exactly when the condition of the routine holds. -/
theorem setsField_iff {routine : Routine} (hcall : Call routine s value h) :
    routine.SetsField mode symbols s value h ↔ routine.HoldsWhen mode symbols s value h := by
  cases routine with
  | eie => exact setsField_eie_iff symbols hcall
  | eip => exact setsField_eip_iff symbols hcall
  | domaincfgIe => exact setsField_domaincfgIe_iff symbols mode s value h
  | domaincfgDm => exact iff_of_true (setsField_domaincfgDm symbols hcall) trivial
  | sourcecfgSm => exact setsField_sourcecfgSm_iff symbols hcall
  | sourcecfgChildindex => exact setsField_sourcecfgChildindex_iff symbols hcall
  | targetHartindex => exact iff_of_true (setsField_targetHartindex symbols hcall) trivial
  | targetIntpri => exact iff_of_true (setsField_targetIntpri symbols hcall) trivial
  | targetGuestindex => exact iff_of_true (setsField_targetGuestindex symbols hcall) trivial
  | targetEiid => exact iff_of_true (setsField_targetEiid symbols hcall) trivial
  | isr => exact setsField_isr_iff symbols hcall

/-- A call with a source and a value, on empty registers and memory. -/
def calling (s value : ℕ) : Hart 64 Csrs where
  core := {
    reg := Function.update (Function.update (fun _ => 0) a0 (BitVec.ofNat 64 s)) a1 (BitVec.ofNat 64 value)
    mem := fun _ => 0
    accesses := [] }
  csrs := fun _ => { select := 0, reg := fun _ => 0 }

theorem call_calling {routine : Routine} (hbinary : routine.unary = false) {s value : ℕ} (hs : 1 ≤ s ∧ s ≤ 1023)
    (hvalue : value < 2 ^ (routine.field .m s).width) : Call routine s value (calling s value) where
  source := hs
  inRange := hvalue
  args := by
    rw [hbinary]
    exact ⟨rfl, rfl⟩

/-- Identity 1 is enabled. -/
theorem setsField_iff_one : Routine.SetsField .eie .m (fun _ => 0x4000000) 1 1 (calling 1 1) ↔
    Routine.HoldsWhen .eie .m (fun _ => 0x4000000) 1 1 (calling 1 1) :=
  setsField_iff _ (call_calling rfl (by decide) (by decide))

/-- Identity 40 is not enabled, and the mode of source 1 is not stored at its register. -/
theorem not_setsField : (Call .eie 40 1 (calling 40 1) ∧ ¬ Routine.SetsField .eie .m (fun _ => 0x4000000) 40 1 (calling 40 1)) ∧
    Call .sourcecfgSm 1 4 (calling 1 4) ∧ ¬ Routine.SetsField .sourcecfgSm .m (fun _ => 0x4000000) 1 4 (calling 1 4) := by
  have heie : Call .eie 40 1 (calling 40 1) := call_calling rfl (by decide) (by decide)
  have hsm : Call .sourcecfgSm 1 4 (calling 1 4) := call_calling rfl (by decide) (by decide)
  refine ⟨⟨heie, ?_⟩, hsm, ?_⟩
  · rw [setsField_eie_iff _ heie]
    rintro (hzero | hsmall | ⟨hlast, -⟩ | ⟨htop, -⟩)
    · exact absurd hzero (by decide)
    · exact absurd hsmall (by decide)
    · exact absurd hlast (by decide)
    · exact absurd htop (by decide)
  · rw [setsField_sourcecfgSm_iff _ hsm]
    rintro ⟨hbase, -⟩
    exact absurd hbase (by decide)

end Riescue.AplicRoutines
