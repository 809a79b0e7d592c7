import Riescue.LibMachine

/-! Assembly code of one hart: arithmetic and CSR instructions on top of those that access memory, and lines with labels,
branches and jumps. A run follows the lines until it reaches the end of the code, a jump to a label outside it, or an
instruction that traps; what it ends with does not depend on how long one looks. -/

namespace Assembly
open Machine (Reg)

/-! ### The hart -/

/-- How the CSRs behave: what a read returns and what a write leaves. -/
structure CsrFile (σ Csr : Type*) (w : ℕ) where
  read : σ → Csr → BitVec w
  write : σ → Csr → BitVec w → σ

/-- The registers and the memory, and the state of the CSRs. -/
structure Hart (w : ℕ) (σ : Type*) where
  core : Machine.State w
  csrs : σ

/-- Arithmetic on two registers. `divw` and `sllw` work on the lower 32 bits and extend the sign, `bset` sets one bit, `sh2add`
adds four times the first register. -/
inductive AluOp where
  | sub | and | or | sltu | mul | srl | divw | sllw | bset | andn | sh2add
  deriving DecidableEq, Repr

/-- Arithmetic on a register and a constant. -/
inductive AluImmOp where
  | andi | slli | srli | addiw | slliw | bclri | bseti
  deriving DecidableEq, Repr

/-- How a CSR instruction combines the old value with its operand. -/
inductive CsrOp where
  | write | set | clear
  deriving DecidableEq, Repr

/-- The operand of a CSR instruction: a register, or a constant in its immediate form. -/
inductive CsrSource where
  | reg (rs1 : Reg)
  | imm (zimm : ℤ)
  deriving DecidableEq, Repr

inductive Instr (Symbol Csr : Type*) where
  | core (instr : Machine.Instr Symbol)
  | alu (op : AluOp) (rd rs1 rs2 : Reg)
  | alui (op : AluImmOp) (rd rs1 : Reg) (imm : ℤ)
  | csr (op : CsrOp) (rd : Reg) (name : Csr) (source : CsrSource)
  deriving DecidableEq, Repr

variable {w : ℕ} {σ Symbol Csr Label : Type*}

namespace Instr

def li (rd : Reg) (value : ℤ) : Instr Symbol Csr := .core (.li rd (.const value))

def addi (rd rs1 : Reg) (imm : ℤ) : Instr Symbol Csr := .core (.addi rd rs1 imm)

def add (rd rs1 rs2 : Reg) : Instr Symbol Csr := .core (.add rd rs1 rs2)

def ld (rd : Reg) (offset : ℤ) (rs1 : Reg) : Instr Symbol Csr := .core (.load 8 rd offset rs1)

def sd (rs2 : Reg) (offset : ℤ) (rs1 : Reg) : Instr Symbol Csr := .core (.store 8 rs2 offset rs1)

def csrr (rd : Reg) (name : Csr) : Instr Symbol Csr := .csr .set rd name (.reg 0)

def csrw (name : Csr) (rs1 : Reg) : Instr Symbol Csr := .csr .write 0 name (.reg rs1)

def csrc (name : Csr) (rs1 : Reg) : Instr Symbol Csr := .csr .clear 0 name (.reg rs1)

end Instr

namespace Hart

def get (h : Hart w σ) (r : Reg) : BitVec w := h.core.get r

def set (h : Hart w σ) (r : Reg) (value : BitVec w) : Hart w σ := { h with core := h.core.set r value }

@[simp] theorem get_zero (h : Hart w σ) : h.get 0 = 0 := h.core.get_zero

@[simp] theorem set_zero (h : Hart w σ) (value : BitVec w) : h.set 0 value = h := by
  rw [set, Machine.State.set_zero]

@[simp] theorem csrs_set (h : Hart w σ) (r : Reg) (value : BitVec w) : (h.set r value).csrs = h.csrs := rfl

@[simp] theorem mem_set (h : Hart w σ) (r : Reg) (value : BitVec w) : (h.set r value).core.mem = h.core.mem :=
  h.core.mem_set r value

@[simp] theorem accesses_set (h : Hart w σ) (r : Reg) (value : BitVec w) :
    (h.set r value).core.accesses = h.core.accesses := h.core.accesses_set r value

theorem get_set_self (h : Hart w σ) {r : Reg} (hr : r ≠ 0) (value : BitVec w) : (h.set r value).get r = value :=
  h.core.get_set_self hr value

theorem get_set_of_ne (h : Hart w σ) {r r' : Reg} (hr : r' ≠ r) (value : BitVec w) :
    (h.set r value).get r' = h.get r' := h.core.get_set_of_ne hr value

@[simp] theorem get_withCsrs (h : Hart w σ) (csrs : σ) (r : Reg) : ({ h with csrs } : Hart w σ).get r = h.get r := rfl

end Hart

def AluOp.eval (x y : BitVec w) : AluOp → BitVec w
  | .sub => x - y
  | .and => x &&& y
  | .or => x ||| y
  | .sltu => if x < y then 1 else 0
  | .mul => x * y
  | .srl => x >>> (y.toNat % w)
  | .divw =>
      if y.setWidth 32 = 0 then BitVec.allOnes w else ((x.setWidth 32).sdiv (y.setWidth 32)).signExtend w
  | .sllw => ((x.setWidth 32) <<< (y.toNat % 32)).signExtend w
  | .bset => x ||| BitVec.twoPow w (y.toNat % w)
  | .andn => x &&& ~~~y
  | .sh2add => (x <<< 2) + y

def AluImmOp.eval (x : BitVec w) (imm : ℤ) : AluImmOp → BitVec w
  | .andi => x &&& BitVec.ofInt w imm
  | .slli => x <<< imm.toNat
  | .srli => x >>> imm.toNat
  | .addiw => ((x + BitVec.ofInt w imm).setWidth 32).signExtend w
  | .slliw => ((x.setWidth 32) <<< imm.toNat).signExtend w
  | .bclri => x &&& ~~~BitVec.twoPow w imm.toNat
  | .bseti => x ||| BitVec.twoPow w imm.toNat

/-- The value a CSR instruction writes, when it writes one: setting or clearing nothing is no write. -/
def CsrOp.written (old operand : BitVec w) (source : CsrSource) : CsrOp → Option (BitVec w)
  | .write => some operand
  | .set => if source = .reg 0 ∨ source = .imm 0 then none else some (old ||| operand)
  | .clear => if source = .reg 0 ∨ source = .imm 0 then none else some (old &&& ~~~operand)

def CsrSource.eval (h : Hart w σ) : CsrSource → BitVec w
  | .reg rs1 => h.get rs1
  | .imm zimm => BitVec.ofInt w zimm

section Step
variable (file : CsrFile σ Csr w) (symbols : Symbol → BitVec w)

/-- One instruction. -/
def step (h : Hart w σ) : Instr Symbol Csr → Option (Hart w σ)
  | .core instr => (Machine.step symbols h.core instr).map fun core => { h with core }
  | .alu op rd rs1 rs2 => some (h.set rd (op.eval (h.get rs1) (h.get rs2)))
  | .alui op rd rs1 imm => some (h.set rd (op.eval (h.get rs1) imm))
  | .csr op rd name source =>
      let old := file.read h.csrs name
      let h' := match op.written old (source.eval h) source with
        | some value => { h with csrs := file.write h.csrs name value }
        | none => h
      some (h'.set rd old)

/-- The instructions of a list, one after the other. -/
def runStraight (code : List (Instr Symbol Csr)) (h : Hart w σ) : Option (Hart w σ) :=
  code.foldlM (step file symbols) h

end Step

/-! ### Lines -/

/-- The comparisons of branches. -/
inductive Cond where
  | eq | ne | lt | ge
  deriving DecidableEq, Repr

/-- Orders are signed. -/
def Cond.holds (x y : BitVec w) : Cond → Bool
  | .eq => x = y
  | .ne => x ≠ y
  | .lt => x.toInt < y.toInt
  | .ge => y.toInt ≤ x.toInt

inductive Line (Symbol Csr Label : Type*) where
  | label (label : Label)
  | instr (instr : Instr Symbol Csr)
  | branch (cond : Cond) (rs1 rs2 : Reg) (target : Label)
  | jump (target : Label)
  deriving DecidableEq, Repr

/-- How a run ends: behind the last line, at a label that is not part of the code, or with a trap. -/
inductive Exit (Label : Type*) where
  | done
  | to (label : Label)
  | trap
  deriving DecidableEq, Repr

variable [DecidableEq Label]

/-- The lines behind a label. -/
def linesAt (target : Label) : List (Line Symbol Csr Label) → Option (List (Line Symbol Csr Label))
  | [] => none
  | .label l :: rest => if l = target then some rest else linesAt target rest
  | _ :: rest => linesAt target rest

theorem linesAt_instrs (target : Label) (instrs : List (Instr Symbol Csr)) (rest : List (Line Symbol Csr Label)) :
    linesAt target (instrs.map .instr ++ rest) = linesAt target rest := by
  induction instrs with
  | nil => rfl
  | cons instr instrs ih => exact ih

theorem linesAt_eq_none {target : Label} {code : List (Line Symbol Csr Label)} (h : .label target ∉ code) :
    linesAt target code = none := by
  induction code with
  | nil => rfl
  | cons line code ih =>
      rw [List.mem_cons, not_or] at h
      cases line with
      | label l =>
          have hne : l ≠ target := fun heq => h.1 (congrArg Line.label heq.symm)
          exact (if_neg hne).trans (ih h.2)
      | instr instr => exact ih h.2
      | branch cond rs1 rs2 target' => exact ih h.2
      | jump target' => exact ih h.2

/-- A label behind lines without it. -/
theorem linesAt_append_label {target : Label} {front : List (Line Symbol Csr Label)} (hfront : linesAt target front = none)
    (rest : List (Line Symbol Csr Label)) : linesAt target (front ++ .label target :: rest) = some rest := by
  induction front with
  | nil => exact if_pos rfl
  | cons line front ih =>
      cases line with
      | label l =>
          have hne : l ≠ target := fun heq => by
            rw [linesAt, if_pos heq] at hfront
            cases hfront
          rw [linesAt, if_neg hne] at hfront
          exact (if_neg hne).trans (ih hfront)
      | instr instr => exact ih hfront
      | branch cond rs1 rs2 target' => exact ih hfront
      | jump target' => exact ih hfront

section Run
variable (file : CsrFile σ Csr w) (symbols : Symbol → BitVec w) (code : List (Line Symbol Csr Label))

/-- A run of the code from some of its lines on, over at most so many lines. -/
def run : ℕ → List (Line Symbol Csr Label) → Hart w σ → Option (Exit Label × Hart w σ)
  | _, [], h => some (.done, h)
  | 0, _ :: _, _ => none
  | fuel + 1, .label _ :: rest, h => run fuel rest h
  | fuel + 1, .instr instr :: rest, h =>
      match step file symbols h instr with
      | some h' => run fuel rest h'
      | none => some (.trap, h)
  | fuel + 1, .branch cond rs1 rs2 target :: rest, h =>
      if cond.holds (h.get rs1) (h.get rs2) then
        match linesAt target code with
        | some lines => run fuel lines h
        | none => some (.to target, h)
      else run fuel rest h
  | fuel + 1, .jump target :: _, h =>
      match linesAt target code with
      | some lines => run fuel lines h
      | none => some (.to target, h)

/-- The run from some lines on ends. -/
def Exits (lines : List (Line Symbol Csr Label)) (h : Hart w σ) (exit : Exit Label) (h' : Hart w σ) : Prop :=
  ∃ fuel, run file symbols code fuel lines h = some (exit, h')

-- the equations of the run, before the rules that use them
attribute [local simp] run

end Run

section Rules
variable {file : CsrFile σ Csr w} {symbols : Symbol → BitVec w} {code rest : List (Line Symbol Csr Label)}
  {h h' : Hart w σ} {exit : Exit Label} {out : Hart w σ}

/-- A first line that leads to other lines. -/
theorem exits_of_run {line : Line Symbol Csr Label} {lines : List (Line Symbol Csr Label)}
    (hrun : ∀ fuel, run file symbols code (fuel + 1) (line :: rest) h = run file symbols code fuel lines h') :
    Exits file symbols code (line :: rest) h exit out ↔ Exits file symbols code lines h' exit out := by
  constructor
  · rintro ⟨fuel, hfuel⟩
    cases fuel with
    | zero => cases hfuel
    | succ fuel => exact ⟨fuel, (hrun fuel).symm.trans hfuel⟩
  · rintro ⟨fuel, hfuel⟩
    exact ⟨fuel + 1, (hrun fuel).trans hfuel⟩

/-- A first line that ends the run. -/
theorem exits_of_stop {line : Line Symbol Csr Label} {exit' : Exit Label}
    (hrun : ∀ fuel, run file symbols code (fuel + 1) (line :: rest) h = some (exit', h')) :
    Exits file symbols code (line :: rest) h exit out ↔ exit = exit' ∧ out = h' := by
  constructor
  · rintro ⟨fuel, hfuel⟩
    cases fuel with
    | zero => cases hfuel
    | succ fuel =>
        obtain ⟨rfl, rfl⟩ := Prod.mk.inj (Option.some.inj (hfuel.symm.trans (hrun fuel)))
        exact ⟨rfl, rfl⟩
  · rintro ⟨rfl, rfl⟩
    exact ⟨1, hrun 0⟩

theorem exits_nil : Exits file symbols code [] h exit out ↔ exit = .done ∧ out = h := by
  have hrun : ∀ fuel, run file symbols code fuel [] h = some (.done, h) := fun fuel => by cases fuel <;> rfl
  constructor
  · rintro ⟨fuel, hfuel⟩
    obtain ⟨rfl, rfl⟩ := Prod.mk.inj (Option.some.inj (hfuel.symm.trans (hrun fuel)))
    exact ⟨rfl, rfl⟩
  · rintro ⟨rfl, rfl⟩
    exact ⟨0, hrun 0⟩

theorem exits_label (l : Label) :
    Exits file symbols code (.label l :: rest) h exit out ↔ Exits file symbols code rest h exit out :=
  exits_of_run fun _ => rfl

theorem exits_instr {instr : Instr Symbol Csr} (hstep : step file symbols h instr = some h') :
    Exits file symbols code (.instr instr :: rest) h exit out ↔ Exits file symbols code rest h' exit out :=
  exits_of_run fun fuel => by rw [run, hstep]

theorem exits_branch {cond : Cond} {rs1 rs2 : Reg} {target : Label} {lines : List (Line Symbol Csr Label)}
    (hcond : cond.holds (h.get rs1) (h.get rs2) = true) (hlines : linesAt target code = some lines) :
    Exits file symbols code (.branch cond rs1 rs2 target :: rest) h exit out ↔
      Exits file symbols code lines h exit out :=
  exits_of_run fun fuel => by rw [run, if_pos hcond, hlines]

theorem exits_branch_out {cond : Cond} {rs1 rs2 : Reg} {target : Label}
    (hcond : cond.holds (h.get rs1) (h.get rs2) = true) (hlines : linesAt target code = none) :
    Exits file symbols code (.branch cond rs1 rs2 target :: rest) h exit out ↔ exit = .to target ∧ out = h :=
  exits_of_stop fun fuel => by rw [run, if_pos hcond, hlines]

theorem exits_not_branch {cond : Cond} {rs1 rs2 : Reg} {target : Label}
    (hcond : cond.holds (h.get rs1) (h.get rs2) = false) :
    Exits file symbols code (.branch cond rs1 rs2 target :: rest) h exit out ↔
      Exits file symbols code rest h exit out :=
  exits_of_run fun fuel => by rw [run, hcond]; exact if_neg Bool.false_ne_true

theorem exits_jump {target : Label} {lines : List (Line Symbol Csr Label)} (hlines : linesAt target code = some lines) :
    Exits file symbols code (.jump target :: rest) h exit out ↔ Exits file symbols code lines h exit out :=
  exits_of_run fun fuel => by rw [run, hlines]

theorem exits_jump_out {target : Label} (hlines : linesAt target code = none) :
    Exits file symbols code (.jump target :: rest) h exit out ↔ exit = .to target ∧ out = h :=
  exits_of_stop fun fuel => by rw [run, hlines]

/-- Instructions one after the other. -/
theorem exits_straight {instrs : List (Instr Symbol Csr)} (hrun : runStraight file symbols instrs h = some h') :
    Exits file symbols code (instrs.map .instr ++ rest) h exit out ↔ Exits file symbols code rest h' exit out := by
  induction instrs generalizing h with
  | nil =>
      obtain rfl := Option.some.inj hrun
      exact Iff.rfl
  | cons instr instrs ih =>
      obtain ⟨mid, hstep, hrest⟩ := Option.bind_eq_some_iff.mp hrun
      exact (exits_instr hstep).trans (ih hrest)

end Rules

/-! ### Straight code -/

section Straight
variable {file : CsrFile σ Csr w} {symbols : Symbol → BitVec w} {h h' : Hart w σ}

@[simp] theorem runStraight_nil (file : CsrFile σ Csr w) (symbols : Symbol → BitVec w) (h : Hart w σ) :
    runStraight file symbols [] h = some h := rfl

theorem runStraight_cons {instr : Instr Symbol Csr} (hstep : step file symbols h instr = some h')
    (instrs : List (Instr Symbol Csr)) :
    runStraight file symbols (instr :: instrs) h = runStraight file symbols instrs h' := by
  rw [runStraight, List.foldlM_cons, hstep]
  rfl

theorem runStraight_append {front : List (Instr Symbol Csr)} (hrun : runStraight file symbols front h = some h')
    (back : List (Instr Symbol Csr)) :
    runStraight file symbols (front ++ back) h = runStraight file symbols back h' := by
  rw [runStraight, List.foldlM_append, show front.foldlM (step file symbols) h = some h' from hrun]
  rfl

/-- Code that only accesses memory runs as it does without CSRs. -/
theorem runStraight_core (instrs : List (Machine.Instr Symbol)) (h : Hart w σ) :
    runStraight file symbols (instrs.map .core) h =
      (Machine.run symbols instrs h.core).map fun core => { h with core } := by
  induction instrs generalizing h with
  | nil => rfl
  | cons instr instrs ih =>
      rw [List.map_cons, Machine.run_cons, runStraight, List.foldlM_cons, step]
      cases Machine.step symbols h.core instr with
      | none => rfl
      | some core => exact ih { h with core }

end Straight

/-- A CSR instruction that discards the old value. -/
theorem step_csr_discard (file : CsrFile σ Csr w) (symbols : Symbol → BitVec w) (h : Hart w σ) (op : CsrOp) (name : Csr)
    (source : CsrSource) :
    ∃ h', step file symbols h (.csr op 0 name source) = some h' ∧ (∀ r, h'.get r = h.get r) ∧
      (h'.csrs = h.csrs ∨ ∃ value, h'.csrs = file.write h.csrs name value) := by
  cases hwritten : op.written (file.read h.csrs name) (source.eval h) source with
  | none =>
      refine ⟨h, ?_, fun _ => rfl, .inl rfl⟩
      rw [step, hwritten]
      exact congrArg some (Hart.set_zero _ _)
  | some value =>
      refine ⟨{ h with csrs := file.write h.csrs name value }, ?_, fun _ => rfl, .inr ⟨value, rfl⟩⟩
      rw [step, hwritten]
      exact congrArg some (Hart.set_zero _ _)

/-! ### Loads and stores -/

/-- A load sets one register. -/
theorem step_load (file : CsrFile σ Csr w) (symbols : Symbol → BitVec w) (h : Hart w σ) {bytes : ℕ} (hbytes : 8 * bytes ≤ w)
    {rd : Reg} (hrd : rd ≠ 0) (offset : ℤ) (rs1 : Reg) :
    ∃ h', step file symbols h (.core (.load bytes rd offset rs1)) = some h' ∧
      h'.get rd = (Machine.readBytes h.core.mem bytes (h.get rs1 + BitVec.ofInt w offset)).signExtend w ∧
      h'.core.mem = h.core.mem ∧ h'.csrs = h.csrs ∧ ∀ r, r ≠ rd → h'.get r = h.get r := by
  let addr := h.get rs1 + BitVec.ofInt w offset
  let accessed : Machine.State w := { h.core with accesses := addr :: h.core.accesses }
  refine ⟨{ h with core := accessed.set rd ((Machine.readBytes h.core.mem bytes addr).signExtend w) }, ?_, ?_, ?_, rfl, ?_⟩
  · have hload : Machine.step symbols h.core (.load bytes rd offset rs1) =
        some (accessed.set rd ((Machine.readBytes h.core.mem bytes addr).signExtend w)) := if_pos hbytes
    rw [step, hload]
    rfl
  · exact accessed.get_set_self hrd _
  · exact accessed.mem_set rd _
  · exact fun r hr => accessed.get_set_of_ne hr _

section Doubleword
variable {σ Symbol Csr : Type*} (file : CsrFile σ Csr 64) (symbols : Symbol → BitVec 64)

/-- A load of a doubleword sets one register. -/
theorem step_ld (h : Hart 64 σ) {rd : Reg} (hrd : rd ≠ 0) (offset : ℤ) (rs1 : Reg) :
    ∃ h', step file symbols h (.ld rd offset rs1) = some h' ∧
      h'.get rd = Machine.readBytes h.core.mem 8 (h.get rs1 + BitVec.ofInt 64 offset) ∧ h'.core.mem = h.core.mem ∧
      h'.csrs = h.csrs ∧ ∀ r, r ≠ rd → h'.get r = h.get r := by
  obtain ⟨h', hstep, hget, hrest⟩ := step_load file symbols h (by decide : 8 * 8 ≤ 64) hrd offset rs1
  exact ⟨h', hstep, hget.trans (BitVec.signExtend_eq _), hrest⟩

/-- A store of a doubleword writes memory. -/
theorem step_sd (h : Hart 64 σ) (rs2 : Reg) (offset : ℤ) (rs1 : Reg) :
    ∃ h', step file symbols h (.sd rs2 offset rs1) = some h' ∧
      h'.core.mem = Machine.writeBytes h.core.mem 8 (h.get rs1 + BitVec.ofInt 64 offset) (h.get rs2) ∧
      h'.csrs = h.csrs ∧ ∀ r, h'.get r = h.get r := by
  refine ⟨_, rfl, ?_, rfl, fun _ => rfl⟩
  exact congrArg (Machine.writeBytes h.core.mem 8 (h.get rs1 + BitVec.ofInt 64 offset)) (BitVec.setWidth_eq (h.get rs2))

end Doubleword

theorem ofNat_shiftLeft (n k : ℕ) : BitVec.ofNat w n <<< k = BitVec.ofNat w (2 ^ k * n) := by
  apply BitVec.eq_of_toNat_eq
  rw [BitVec.toNat_shiftLeft, BitVec.toNat_ofNat, BitVec.toNat_ofNat, Nat.shiftLeft_eq, Nat.mul_comm, Nat.mul_mod_mod]

/-! ### Immediates -/

/-- The number an assembler takes a constant for: some take constants of 64 bits for signed numbers. -/
def immediate (wraps : Bool) (imm : ℤ) : ℤ := if wraps then (BitVec.ofInt 64 imm).toInt else imm

/-- The constants of the instruction can be assembled: `andi`, `addi` and `addiw` have signed immediates of twelve bits, shifts less
than 64 or 32, CSR instructions five bits, and `li` loads 64 bits. -/
def Instr.Encodable {Symbol Csr : Type*} (wraps : Bool) : Instr Symbol Csr → Prop
  | .core (.li _ (.const value)) => -2 ^ 63 ≤ value ∧ value < 2 ^ 64
  | .core (.addi _ _ imm) => -2048 ≤ immediate wraps imm ∧ immediate wraps imm ≤ 2047
  | .alui .andi _ _ imm => -2048 ≤ immediate wraps imm ∧ immediate wraps imm ≤ 2047
  | .alui .addiw _ _ imm => -2048 ≤ immediate wraps imm ∧ immediate wraps imm ≤ 2047
  | .alui .slliw _ _ imm => 0 ≤ imm ∧ imm < 32
  | .alui _ _ _ imm => 0 ≤ imm ∧ imm < 64
  | .csr _ _ _ (.imm zimm) => 0 ≤ zimm ∧ zimm < 32
  | _ => True

end Assembly
