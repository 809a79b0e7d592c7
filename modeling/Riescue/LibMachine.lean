import Mathlib

/-! One hart: registers of `w` bits, memory of bytes, and the instructions that compute addresses, load, store and update
memory atomically. An atomic update needs an aligned address, and no access is wider than a register. -/

namespace Machine

/-- The number of an integer register. -/
abbrev Reg := Fin 32

instance neZeroRegs : NeZero 32 := ⟨Nat.succ_ne_zero 31⟩

/-- A constant of the assembler: a number or a symbol with an addend. -/
inductive Operand (Symbol : Type*) where
  | const (value : ℤ)
  | symbol (name : Symbol) (addend : ℤ)
  deriving DecidableEq, Repr

/-- The instructions. `load` extends the sign. -/
inductive Instr (Symbol : Type*) where
  | li (rd : Reg) (operand : Operand Symbol)
  | addi (rd rs1 : Reg) (imm : ℤ)
  | add (rd rs1 rs2 : Reg)
  | load (bytes : ℕ) (rd : Reg) (offset : ℤ) (rs1 : Reg)
  | store (bytes : ℕ) (rs2 : Reg) (offset : ℤ) (rs1 : Reg)
  | amoadd (bytes : ℕ) (rd rs2 rs1 : Reg)
  | amoswap (bytes : ℕ) (rd rs2 rs1 : Reg)
  deriving DecidableEq, Repr

/-- The registers, the bytes of the memory, and the addresses that were accessed, the last one first. -/
structure State (w : ℕ) where
  reg : Reg → BitVec w
  mem : BitVec w → BitVec 8
  accesses : List (BitVec w)

variable {Symbol : Type*} {w : ℕ}

/-- The value of a register. Register zero is zero. -/
def State.get (s : State w) (r : Reg) : BitVec w := if r = 0 then 0 else s.reg r

def State.set (s : State w) (r : Reg) (value : BitVec w) : State w :=
  if r = 0 then s else { s with reg := Function.update s.reg r value }

/-- The little-endian number at an address. -/
def readNat (mem : BitVec w → BitVec 8) : ℕ → BitVec w → ℕ
  | 0, _ => 0
  | n + 1, addr => (mem addr).toNat + 256 * readNat mem n (addr + 1)

def readBytes (mem : BitVec w → BitVec 8) (n : ℕ) (addr : BitVec w) : BitVec (8 * n) := BitVec.ofNat _ (readNat mem n addr)

/-- Writes the `n` bytes of a value from an address on. -/
def writeBytes (mem : BitVec w → BitVec 8) (n : ℕ) (addr : BitVec w) (value : BitVec (8 * n)) : BitVec w → BitVec 8 :=
  fun a => if (a - addr).toNat < n then (value >>> (8 * (a - addr).toNat)).setWidth 8 else mem a

/-- The value of a constant. -/
def Operand.eval (symbols : Symbol → BitVec w) : Operand Symbol → BitVec w
  | .const value => BitVec.ofInt w value
  | .symbol name addend => symbols name + BitVec.ofInt w addend

def State.load (s : State w) (bytes : ℕ) (rd : Reg) (addr : BitVec w) : Option (State w) :=
  if 8 * bytes ≤ w then
    some ({ s with accesses := addr :: s.accesses }.set rd ((readBytes s.mem bytes addr).signExtend w))
  else none

def State.store (s : State w) (bytes : ℕ) (rs2 : Reg) (addr : BitVec w) : Option (State w) :=
  if 8 * bytes ≤ w then
    some { s with mem := writeBytes s.mem bytes addr ((s.get rs2).setWidth _), accesses := addr :: s.accesses }
  else none

/-- An atomic update of the memory at an address, with the old value to a register. -/
def State.amo (s : State w) (bytes : ℕ) (rd : Reg) (addr : BitVec w)
    (f : BitVec (8 * bytes) → BitVec (8 * bytes)) : Option (State w) :=
  if 8 * bytes ≤ w ∧ bytes ∣ addr.toNat then
    some ({ s with
      mem := writeBytes s.mem bytes addr (f (readBytes s.mem bytes addr))
      accesses := addr :: s.accesses }.set rd ((readBytes s.mem bytes addr).signExtend w))
  else none

/-- One instruction. -/
def step (symbols : Symbol → BitVec w) (s : State w) : Instr Symbol → Option (State w)
  | .li rd operand => some (s.set rd (operand.eval symbols))
  | .addi rd rs1 imm => some (s.set rd (s.get rs1 + BitVec.ofInt w imm))
  | .add rd rs1 rs2 => some (s.set rd (s.get rs1 + s.get rs2))
  | .load bytes rd offset rs1 => s.load bytes rd (s.get rs1 + BitVec.ofInt w offset)
  | .store bytes rs2 offset rs1 => s.store bytes rs2 (s.get rs1 + BitVec.ofInt w offset)
  | .amoadd bytes rd rs2 rs1 => s.amo bytes rd (s.get rs1) fun old => old + (s.get rs2).setWidth _
  | .amoswap bytes rd rs2 rs1 => s.amo bytes rd (s.get rs1) fun _ => (s.get rs2).setWidth _

/-- The instructions of a list, one after the other. -/
def run (symbols : Symbol → BitVec w) (code : List (Instr Symbol)) (s : State w) : Option (State w) :=
  code.foldlM (step symbols) s

/-! ### Registers -/

@[simp] theorem State.get_zero (s : State w) : s.get 0 = 0 := if_pos rfl

@[simp] theorem State.set_zero (s : State w) (value : BitVec w) : s.set 0 value = s := if_pos rfl

@[simp] theorem State.mem_set (s : State w) (r : Reg) (value : BitVec w) : (s.set r value).mem = s.mem := by
  unfold State.set
  split_ifs <;> rfl

@[simp] theorem State.accesses_set (s : State w) (r : Reg) (value : BitVec w) : (s.set r value).accesses = s.accesses := by
  unfold State.set
  split_ifs <;> rfl

theorem State.get_set_self (s : State w) {r : Reg} (h : r ≠ 0) (value : BitVec w) : (s.set r value).get r = value := by
  rw [State.set, if_neg h, State.get, if_neg h]
  exact Function.update_self r value s.reg

theorem State.get_set_of_ne (s : State w) {r r' : Reg} (h : r' ≠ r) (value : BitVec w) :
    (s.set r value).get r' = s.get r' := by
  unfold State.set
  split_ifs
  · rfl
  · have hreg : Function.update s.reg r value r' = s.reg r' := Function.update_of_ne h value s.reg
    unfold State.get
    exact hreg ▸ rfl

@[simp] theorem State.get_mk (s : State w) (mem : BitVec w → BitVec 8) (accesses : List (BitVec w)) (r : Reg) :
    ({ s with mem, accesses } : State w).get r = s.get r := rfl

/-! ### Bytes -/

theorem setWidth_readBytes (mem : BitVec w → BitVec 8) {n : ℕ} (h : 0 < n) (addr : BitVec w) :
    (readBytes mem n addr).setWidth 8 = mem addr := by
  obtain ⟨n, rfl⟩ := Nat.exists_eq_succ_of_ne_zero h.ne'
  apply BitVec.eq_of_toNat_eq
  rw [readBytes, BitVec.toNat_setWidth, BitVec.toNat_ofNat, readNat,
    Nat.mod_mod_of_dvd _ (Nat.pow_dvd_pow 2 (Nat.le_mul_of_pos_right 8 h)), Nat.add_mul_mod_self_left]
  exact Nat.mod_eq_of_lt (mem addr).isLt

/-- The first byte of a write. -/
theorem writeBytes_self (mem : BitVec w → BitVec 8) {n : ℕ} (h : 0 < n) (addr : BitVec w) (value : BitVec (8 * n)) :
    writeBytes mem n addr value addr = value.setWidth 8 := by
  rw [writeBytes, BitVec.sub_self, BitVec.toNat_zero, if_pos h, Nat.mul_zero, BitVec.ushiftRight_zero]

/-- A write leaves the bytes outside. -/
theorem writeBytes_outside (mem : BitVec w → BitVec 8) {n : ℕ} {addr a : BitVec w} (h : n ≤ (a - addr).toNat)
    (value : BitVec (8 * n)) : writeBytes mem n addr value a = mem a := if_neg (Nat.not_lt.mpr h)

/-- Every byte of a write of zero. -/
theorem writeBytes_zero_inside (mem : BitVec w → BitVec 8) {n : ℕ} {addr a : BitVec w} (h : (a - addr).toNat < n) :
    writeBytes mem n addr 0 a = 0 := by
  rw [writeBytes, if_pos h]
  simp

theorem readNat_lt (mem : BitVec w → BitVec 8) (n : ℕ) (addr : BitVec w) : readNat mem n addr < 256 ^ n := by
  induction n generalizing addr with
  | zero => exact Nat.one_pos
  | succ n ih =>
    have hrest := ih (addr + 1)
    have hbyte := (mem addr).isLt
    rw [readNat, Nat.pow_succ]
    omega

/-- The first bytes, and the rest. -/
theorem readNat_add (mem : BitVec w → BitVec 8) (m n : ℕ) (addr : BitVec w) :
    readNat mem (m + n) addr = readNat mem m addr + 256 ^ m * readNat mem n (addr + BitVec.ofNat w m) := by
  induction m generalizing addr with
  | zero => rw [Nat.zero_add, readNat, BitVec.add_zero, Nat.pow_zero, Nat.one_mul, Nat.zero_add]
  | succ m ih =>
    have hnext : addr + 1 + BitVec.ofNat w m = addr + BitVec.ofNat w (m + 1) := by
      rw [BitVec.add_assoc, Nat.add_comm m 1, BitVec.ofNat_add]
      rfl
    rw [Nat.succ_add, readNat, readNat, ih, hnext, Nat.pow_succ, Nat.mul_add, Nat.add_assoc, Nat.mul_comm (256 ^ m) 256,
      Nat.mul_assoc]

theorem readNat_congr {mem mem' : BitVec w → BitVec 8} {n : ℕ} {addr : BitVec w}
    (h : ∀ i < n, mem (addr + BitVec.ofNat w i) = mem' (addr + BitVec.ofNat w i)) :
    readNat mem n addr = readNat mem' n addr := by
  induction n generalizing addr with
  | zero => rfl
  | succ n ih =>
      have hfirst := h 0 (Nat.succ_pos n)
      rw [BitVec.add_zero] at hfirst
      have hrest : ∀ i < n, mem (addr + 1 + BitVec.ofNat w i) = mem' (addr + 1 + BitVec.ofNat w i) := by
        intro i hi
        have hi' := h (i + 1) (Nat.succ_lt_succ hi)
        rwa [Nat.add_comm, BitVec.ofNat_add, ← BitVec.add_assoc] at hi'
      rw [readNat, readNat, hfirst, ih hrest]

/-- Memory that agrees on the bytes of an access. -/
theorem readBytes_congr {mem mem' : BitVec w → BitVec 8} {n : ℕ} {addr : BitVec w}
    (h : ∀ i < n, mem (addr + BitVec.ofNat w i) = mem' (addr + BitVec.ofNat w i)) :
    readBytes mem n addr = readBytes mem' n addr := by rw [readBytes, readBytes, readNat_congr h]

/-- The bytes of a write, from the `k`-th one on. -/
theorem readNat_writeBytes (mem : BitVec w → BitVec 8) {size : ℕ} (hsize : size ≤ 2 ^ w) (addr : BitVec w)
    (value : BitVec (8 * size)) {n k : ℕ} (hk : k + n ≤ size) :
    readNat (writeBytes mem size addr value) n (addr + BitVec.ofNat w k) = value.toNat / 256 ^ k % 256 ^ n := by
  induction n generalizing k with
  | zero => rw [readNat, Nat.pow_zero, Nat.mod_one]
  | succ n ih =>
      have hdist : (addr + BitVec.ofNat w k - addr).toNat = k := by
        rw [BitVec.add_comm, BitVec.add_sub_cancel, BitVec.toNat_ofNat, Nat.mod_eq_of_lt (by omega)]
      have hbyte : (writeBytes mem size addr value (addr + BitVec.ofNat w k)).toNat = value.toNat / 256 ^ k % 256 := by
        rw [writeBytes, hdist, if_pos (by omega), BitVec.toNat_setWidth, BitVec.toNat_ushiftRight, Nat.shiftRight_eq_div_pow,
          Nat.pow_mul]
      have hnext : addr + BitVec.ofNat w k + 1 = addr + BitVec.ofNat w (k + 1) := by
        rw [BitVec.ofNat_add, ← BitVec.add_assoc]
        rfl
      rw [readNat, hbyte, hnext, ih (by omega), Nat.pow_succ 256 k, ← Nat.div_div_eq_div_mul,
        show 256 ^ (n + 1) = 256 * 256 ^ n from Nat.pow_succ', Nat.mod_mul]

/-- What was written is read. -/
theorem readBytes_writeBytes (mem : BitVec w → BitVec 8) {size : ℕ} (hsize : size ≤ 2 ^ w) (addr : BitVec w)
    (value : BitVec (8 * size)) : readBytes (writeBytes mem size addr value) size addr = value := by
  have hread := readNat_writeBytes mem hsize addr value (by omega : 0 + size ≤ size)
  have hlt := value.isLt
  rw [BitVec.add_zero, Nat.pow_zero, Nat.div_one, ← Nat.pow_mul 2 8 size, Nat.mod_eq_of_lt hlt] at hread
  rw [readBytes, hread, BitVec.ofNat_toNat, BitVec.setWidth_eq]

/-- A write leaves an access without a byte in it. -/
theorem readBytes_writeBytes_apart (mem : BitVec w → BitVec 8) {n size : ℕ} {addr addr' : BitVec w} (value : BitVec (8 * size))
    (hapart : ∀ i < n, size ≤ (addr' + BitVec.ofNat w i - addr).toNat) :
    readBytes (writeBytes mem size addr value) n addr' = readBytes mem n addr' :=
  readBytes_congr fun i hi => writeBytes_outside mem (hapart i hi) value

/-! ### Alignment -/

theorem dvd_toNat_add {n : ℕ} (hn : n ∣ 2 ^ w) {x y : BitVec w} (hx : n ∣ x.toNat) (hy : n ∣ y.toNat) :
    n ∣ (x + y).toNat := by
  rw [BitVec.toNat_add, Nat.dvd_mod_iff hn]
  exact Nat.dvd_add hx hy

theorem dvd_toNat_ofInt {n : ℕ} (hn : n ∣ 2 ^ w) {z : ℤ} (hz : (n : ℤ) ∣ z) : n ∣ (BitVec.ofInt w z).toNat := by
  have hmod : (n : ℤ) ∣ z % (2 ^ w : ℕ) := by
    rw [Int.emod_def]
    exact Int.dvd_sub hz (Int.dvd_trans (Int.natCast_dvd_natCast.mpr hn) (Int.dvd_mul_right _ _))
  have hnonneg : 0 ≤ z % (2 ^ w : ℕ) := Int.emod_nonneg _ (Int.natCast_ne_zero.mpr (Nat.two_pow_pos w).ne')
  rw [BitVec.toNat_ofInt, ← Int.natCast_dvd_natCast, Int.toNat_of_nonneg hnonneg]
  exact hmod

/-! ### Runs -/

@[simp] theorem run_nil (symbols : Symbol → BitVec w) (s : State w) : run symbols [] s = some s := rfl

theorem run_cons (symbols : Symbol → BitVec w) (i : Instr Symbol) (code : List (Instr Symbol)) (s : State w) :
    run symbols (i :: code) s = (step symbols s i).bind (run symbols code) := rfl

@[simp] theorem run_singleton (symbols : Symbol → BitVec w) (i : Instr Symbol) (s : State w) :
    run symbols [i] s = step symbols s i := by
  rw [run_cons]
  exact Option.bind_fun_some _

theorem run_append_bind (symbols : Symbol → BitVec w) (front back : List (Instr Symbol)) (s : State w) :
    run symbols (front ++ back) s = (run symbols front s).bind (run symbols back) := List.foldlM_append

theorem run_append {symbols : Symbol → BitVec w} {front : List (Instr Symbol)} {s s' : State w}
    (h : run symbols front s = some s') (back : List (Instr Symbol)) :
    run symbols (front ++ back) s = run symbols back s' := by
  rw [run_append_bind, h, Option.bind_some]

end Machine
