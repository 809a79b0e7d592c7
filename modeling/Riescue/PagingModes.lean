import Mathlib.Data.Nat.Bitwise
import Mathlib.Data.Nat.Size
import Mathlib.Tactic.Common
import Mathlib.Tactic.IntervalCases

/-! The page sizes and paging modes of `lib/enums.py`, and the fields of a linear address that the
levels of a page table are indexed by. -/

namespace Riescue.Paging

inductive RiscvPageSizes where
  | s4kb | s64kb | s4mb | s2mb | s1gb | s512gb | s256tb
  deriving DecidableEq, Repr

namespace RiscvPageSizes

/-- `RiscvPageSizes.memory` -/
def memory : RiscvPageSizes → ℕ
  | s4kb => 0x1000
  | s64kb => 0x10000
  | s4mb => 0x400000
  | s2mb => 0x200000
  | s1gb => 0x40000000
  | s512gb => 0x8000000000
  | s256tb => 0x1000000000000

/-- `RiscvPageSizes.pt_leaf_level`: the page table level at which a page of the size has its leaf. -/
def ptLeafLevel : RiscvPageSizes → ℕ
  | s4kb => 0
  | s64kb => 0
  | s4mb => 1
  | s2mb => 1
  | s1gb => 2
  | s512gb => 3
  | s256tb => 4

/-- `str(pagesize).lower()`, the word for the size in a test. -/
def word : RiscvPageSizes → String
  | s4kb => "4kb"
  | s64kb => "64kb"
  | s4mb => "4mb"
  | s2mb => "2mb"
  | s1gb => "1gb"
  | s512gb => "512gb"
  | s256tb => "256tb"

/-- `RiscvPageSizes.weights` -/
def weights : RiscvPageSizes → ℕ
  | s4kb => 1000
  | s64kb => 200
  | s4mb => 200
  | s2mb => 200
  | s1gb => 100
  | s512gb => 0
  | s256tb => 0

end RiscvPageSizes

/-- `common.msb` -/
def msb (value : ℕ) : ℕ := Nat.size value - 1

/-- The bits at or above the highest bit of a size, in a 64-bit word. -/
def sizeMask (size : ℕ) : ℕ := 0xFFFFFFFFFFFFFFFF <<< msb size &&& 0xFFFFFFFFFFFFFFFF

/-- `RiscvPageSizes.address_mask` -/
def RiscvPageSizes.addressMask (pagesize : RiscvPageSizes) : ℕ := sizeMask pagesize.memory

theorem msb_two_pow (k : ℕ) : msb (2 ^ k) = k := by
  rw [msb, Nat.size_pow, Nat.add_sub_cancel]

theorem sizeMask_two_pow {k : ℕ} (h : k ≤ 64) : sizeMask (2 ^ k) = 2 ^ 64 - 2 ^ k := by
  have hword : (0xFFFFFFFFFFFFFFFF : ℕ) = 2 ^ 64 - 1 := by decide
  have hprod : (2 ^ 64 - 1) * 2 ^ k = 2 ^ 64 * (2 ^ k - 1) + (2 ^ 64 - 2 ^ k) := by
    have hpos : 0 < 2 ^ k := Nat.two_pow_pos k
    have hle : 2 ^ k ≤ 2 ^ 64 := Nat.pow_le_pow_right (by omega) h
    rw [Nat.sub_mul, Nat.mul_sub]
    omega
  have hlt : 2 ^ 64 - 2 ^ k < 2 ^ 64 := Nat.sub_lt (Nat.two_pow_pos _) (Nat.two_pow_pos _)
  rw [sizeMask, msb_two_pow, hword, Nat.and_two_pow_sub_one_eq_mod, Nat.shiftLeft_eq, hprod,
    Nat.mul_add_mod, Nat.mod_eq_of_lt hlt]

inductive RiscvPagingModes where
  | disable | sv32 | sv39 | sv48 | sv57
  deriving DecidableEq, Repr

/-- The `ValueError` of `index_bits`: the level is not one of the mode, or paging is disabled. -/
inductive NoIndexBits where
  | level (mode : RiscvPagingModes) (level : ℕ)
  | disabled
  deriving DecidableEq, Repr

namespace RiscvPagingModes

/-- `RiscvPagingModes.max_levels` -/
def maxLevels : RiscvPagingModes → ℕ
  | sv32 => 2
  | sv39 => 3
  | sv48 => 4
  | sv57 => 5
  | disable => 0

/-- `RiscvPagingModes.index_bits`: the highest and the lowest bit of the index at a level. -/
def indexBits : RiscvPagingModes → ℕ → Except NoIndexBits (ℕ × ℕ)
  | sv32, 0 => .ok (21, 12)
  | sv32, 1 => .ok (31, 22)
  | sv39, 0 => .ok (20, 12)
  | sv39, 1 => .ok (29, 21)
  | sv39, 2 => .ok (38, 30)
  | sv48, 0 => .ok (20, 12)
  | sv48, 1 => .ok (29, 21)
  | sv48, 2 => .ok (38, 30)
  | sv48, 3 => .ok (47, 39)
  | sv57, 0 => .ok (20, 12)
  | sv57, 1 => .ok (29, 21)
  | sv57, 2 => .ok (38, 30)
  | sv57, 3 => .ok (47, 39)
  | sv57, 4 => .ok (56, 48)
  | disable, _ => .error .disabled
  | mode, level => .error (.level mode level)

/-- `RiscvPagingModes.linear_addr_bits` -/
def linearAddrBits : RiscvPagingModes → ℕ
  | sv32 => 32
  | sv39 => 39
  | sv48 => 48
  | sv57 => 57
  | disable => 52

/-- `RiscvPagingModes.supported_pagesizes` -/
def supportedPagesizes (mode : RiscvPagingModes) (napotSupported : Bool) : List RiscvPageSizes :=
  let pagesizes : List RiscvPageSizes :=
    match mode with
    | sv32 => [.s4kb, .s4mb]
    | sv39 => [.s4kb, .s2mb, .s1gb]
    | sv48 => [.s4kb, .s2mb, .s1gb, .s512gb]
    | sv57 => [.s4kb, .s2mb, .s1gb, .s512gb, .s256tb]
    | disable => []
  if napotSupported ∧ mode ∈ [sv39, sv48, sv57] then pagesizes.insertIdx 1 .s64kb else pagesizes

/-- The number of bits of an index. -/
def indexWidth : RiscvPagingModes → ℕ
  | sv32 => 10
  | _ => 9

/-- The lowest bit of the index at a level. -/
def indexShift (mode : RiscvPagingModes) (level : ℕ) : ℕ := 12 + mode.indexWidth * level

theorem indexBits_of_lt {mode : RiscvPagingModes} {level : ℕ} (h : level < mode.maxLevels) :
    mode.indexBits level =
      .ok (mode.indexShift level + mode.indexWidth - 1, mode.indexShift level) := by
  cases mode with
  | disable => cases h
  | sv32 =>
      simp only [maxLevels] at h
      interval_cases level <;> rfl
  | sv39 =>
      simp only [maxLevels] at h
      interval_cases level <;> rfl
  | sv48 =>
      simp only [maxLevels] at h
      interval_cases level <;> rfl
  | sv57 =>
      simp only [maxLevels] at h
      interval_cases level <;> rfl

end RiscvPagingModes

/-- `common.bits`: the field `[bit_hi, bit_lo]` of a value. -/
def bits (value bitHi bitLo : ℕ) : ℕ :=
  let mask := (1 <<< (bitHi - bitLo + 1)) - 1
  (value &&& (mask <<< bitLo)) >>> bitLo

theorem bits_eq (value width bitLo : ℕ) (hwidth : 0 < width) :
    bits value (bitLo + width - 1) bitLo = value / 2 ^ bitLo % 2 ^ width := by
  have hsize : bitLo + width - 1 - bitLo + 1 = width := by omega
  rw [bits, hsize, Nat.shiftRight_and_distrib, Nat.shiftLeft_shiftRight, Nat.one_shiftLeft,
    Nat.and_two_pow_sub_one_eq_mod, Nat.shiftRight_eq_div_pow]

/-- The number of entries of a table. -/
def RiscvPagingModes.fanout (mode : RiscvPagingModes) : ℕ := 2 ^ mode.indexWidth

/-- The fields of a linear address are the digits of its page number in base `fanout`. -/
theorem bits_indexBits (mode : RiscvPagingModes) (level va : ℕ) :
    bits va (mode.indexShift level + mode.indexWidth - 1) (mode.indexShift level) =
      va / 2 ^ 12 / mode.fanout ^ level % mode.fanout := by
  have hwidth : 0 < mode.indexWidth := by cases mode <;> decide
  rw [bits_eq _ _ _ hwidth, RiscvPagingModes.indexShift, Nat.pow_add, ← Nat.div_div_eq_div_mul,
    RiscvPagingModes.fanout, ← Nat.pow_mul]

end Riescue.Paging
