import Mathlib.Data.Int.Bitwise
import Riescue.LibBitfields

/-! Bits of integers without a width, where a negative number has infinitely many ones. A slot of an integer is read by division
and remainder, and is determined by its bits. -/

namespace Bitfields

/-! ### Quotients and remainders of powers of two -/

theorem testBit_ediv_two_pow (n : ℤ) (lo i : ℕ) : (n / 2 ^ lo).testBit i = n.testBit (lo + i) := by
  have hpow : (2 : ℤ) ^ lo = ((2 ^ lo : ℕ) : ℤ) := by norm_cast
  rw [hpow]
  cases n with
  | ofNat n =>
      show (((n / 2 ^ lo : ℕ) : ℤ)).testBit i = Nat.testBit n (lo + i)
      show Nat.testBit (n / 2 ^ lo) i = Nat.testBit n (lo + i)
      rw [Nat.testBit_div_two_pow, Nat.add_comm]
  | negSucc n =>
      rw [Int.negSucc_ediv n (by exact_mod_cast Nat.two_pow_pos lo)]
      show (-((n / 2 ^ lo : ℕ) + 1 : ℤ)).testBit i = !Nat.testBit n (lo + i)
      rw [← Int.negSucc_eq]
      show (!Nat.testBit (n / 2 ^ lo) i) = !Nat.testBit n (lo + i)
      rw [Nat.testBit_div_two_pow, Nat.add_comm]

theorem testBit_emod_two_pow (n : ℤ) (width i : ℕ) : (n % 2 ^ width).testBit i = (decide (i < width) && n.testBit i) := by
  have hpow : (2 : ℤ) ^ width = ((2 ^ width : ℕ) : ℤ) := by norm_cast
  rw [hpow]
  cases n with
  | ofNat n =>
      show Nat.testBit (n % 2 ^ width) i = (decide (i < width) && Nat.testBit n i)
      exact Nat.testBit_mod_two_pow ..
  | negSucc n =>
      have hlt : n % 2 ^ width < 2 ^ width := Nat.mod_lt _ (Nat.two_pow_pos width)
      have hmod : Int.negSucc n % ((2 ^ width : ℕ) : ℤ) = ((2 ^ width - (n % 2 ^ width + 1) : ℕ) : ℤ) := by
        rw [Int.negSucc_emod n (by exact_mod_cast Nat.two_pow_pos width)]
        push_cast [Nat.cast_sub hlt]
        omega
      rw [hmod]
      show Nat.testBit (2 ^ width - (n % 2 ^ width + 1)) i = (decide (i < width) && !Nat.testBit n i)
      rw [Nat.testBit_two_pow_sub_succ hlt, Nat.testBit_mod_two_pow]
      by_cases hi : i < width <;> simp [hi]

/-- Integers that are not negative are equal when their bits are. -/
theorem eq_of_testBit_eq {left right : ℤ} (hleft : 0 ≤ left) (hright : 0 ≤ right) (h : ∀ i, left.testBit i = right.testBit i) :
    left = right := by
  obtain ⟨left, rfl⟩ := Int.eq_ofNat_of_zero_le hleft
  obtain ⟨right, rfl⟩ := Int.eq_ofNat_of_zero_le hright
  exact congrArg _ (Nat.eq_of_testBit_eq h)

theorem emod_eq_of_testBit {left right : ℤ} {width : ℕ} (h : ∀ i < width, left.testBit i = right.testBit i) :
    left % 2 ^ width = right % 2 ^ width := by
  have hpos : (0 : ℤ) < 2 ^ width := Int.pow_pos (by decide)
  refine eq_of_testBit_eq (Int.emod_nonneg _ (Int.ne_of_gt hpos)) (Int.emod_nonneg _ (Int.ne_of_gt hpos)) fun i => ?_
  rw [testBit_emod_two_pow, testBit_emod_two_pow]
  by_cases hi : i < width
  · rw [h i hi]
  · rw [decide_eq_false hi, Bool.false_and, Bool.false_and]

theorem emod_two_pow_eq_iff {n : ℤ} {width : ℕ} : n % 2 ^ width = n ↔ 0 ≤ n ∧ n < 2 ^ width := by
  have hpos : (0 : ℤ) < 2 ^ width := Int.pow_pos (by decide)
  constructor
  · intro h
    rw [← h]
    exact ⟨Int.emod_nonneg _ (Int.ne_of_gt hpos), Int.emod_lt_of_pos _ hpos⟩
  · exact fun ⟨hnonneg, hlt⟩ => Int.emod_eq_of_lt hnonneg hlt

theorem testBit_zero_iff {n : ℤ} : n.testBit 0 = false ↔ n % 2 = 0 := by
  have hbit : n.testBit 0 = (n % 2).testBit 0 := (testBit_emod_two_pow n 1 0).symm
  rw [hbit]
  obtain h | h : n % 2 = 0 ∨ n % 2 = 1 := by omega
  · rw [h]
    exact iff_of_true rfl rfl
  · rw [h]
    exact iff_of_false (by decide) (by decide)

/-- A number that fits has no bits above. -/
theorem testBit_eq_false_of_lt {n : ℤ} {width i : ℕ} (hn : 0 ≤ n ∧ n < 2 ^ width) (hi : width ≤ i) : n.testBit i = false := by
  rw [← emod_two_pow_eq_iff.mpr hn, testBit_emod_two_pow, decide_eq_false (Nat.not_lt.mpr hi), Bool.false_and]

/-! ### Slots -/

namespace Slot
variable {slot other : Slot} {n m : ℤ}

/-- The number in a slot. -/
def read (slot : Slot) (n : ℤ) : ℤ := n / 2 ^ slot.lo % 2 ^ slot.width

theorem testBit_read (slot : Slot) (n : ℤ) (i : ℕ) :
    (slot.read n).testBit i = (decide (i < slot.width) && n.testBit (slot.lo + i)) := by
  rw [read, testBit_emod_two_pow, testBit_ediv_two_pow]

theorem read_congr (h : ∀ i < slot.width, n.testBit (slot.lo + i) = m.testBit (slot.lo + i)) : slot.read n = slot.read m := by
  refine emod_eq_of_testBit fun i hi => ?_
  rw [testBit_ediv_two_pow, testBit_ediv_two_pow, h i hi]

/-- A slot that holds the low bits of a value. -/
theorem read_eq_emod {value : ℤ} (h : ∀ i < slot.width, n.testBit (slot.lo + i) = value.testBit i) :
    slot.read n = value % 2 ^ slot.width := by
  refine emod_eq_of_testBit fun i hi => ?_
  rw [testBit_ediv_two_pow, h i hi]

/-- The result of an assignment to a slot: the bits of the value in it, the old ones elsewhere. -/
def Writes (slot : Slot) (value n m : ℤ) : Prop :=
  ∀ i, m.testBit i = if slot.lo ≤ i ∧ i < slot.lo + slot.width then value.testBit (i - slot.lo) else n.testBit i

theorem Writes.read_self {value : ℤ} (h : slot.Writes value n m) : slot.read m = value % 2 ^ slot.width := by
  refine read_eq_emod fun i hi => ?_
  rw [h, if_pos ⟨by omega, by omega⟩, Nat.add_sub_cancel_left]

theorem Writes.read_apart {value : ℤ} (h : slot.Writes value n m) (hapart : Apart other slot) : other.read m = other.read n := by
  refine read_congr fun i hi => ?_
  unfold Apart at hapart
  rw [h, if_neg (by omega)]

end Slot

/-! ### Masks -/

theorem one_shiftLeft (k : ℕ) : (1 : ℤ) <<< k = ((2 ^ k : ℕ) : ℤ) := by
  rw [Int.shiftLeft_eq, Int.one_mul]
  rfl

theorem testBit_two_pow_sub_one (k i : ℕ) : (((1 : ℤ) <<< k) - 1).testBit i = decide (i < k) := by
  have hones : ((1 : ℤ) <<< k) - 1 = ((2 ^ k - 1 : ℕ) : ℤ) := by
    rw [one_shiftLeft]
    have hpos := Nat.two_pow_pos k
    omega
  rw [hones]
  exact Nat.testBit_two_pow_sub_one ..

theorem testBit_shiftLeft_of_nonneg {n : ℤ} (hn : 0 ≤ n) (k i : ℕ) :
    (n <<< k).testBit i = (decide (k ≤ i) && n.testBit (i - k)) := by
  obtain ⟨n, rfl⟩ := Int.eq_ofNat_of_zero_le hn
  rw [Int.shiftLeft_eq]
  show Nat.testBit (n * 2 ^ k) i = (decide (k ≤ i) && Nat.testBit n (i - k))
  rw [← Nat.shiftLeft_eq, Nat.testBit_shiftLeft]

theorem land_nonneg (n : ℤ) {m : ℤ} (hm : 0 ≤ m) : 0 ≤ Int.land n m := by
  obtain ⟨m, rfl⟩ := Int.eq_ofNat_of_zero_le hm
  cases n with
  | ofNat n => exact Int.natCast_nonneg _
  | negSucc n => exact Int.natCast_nonneg _

end Bitfields
