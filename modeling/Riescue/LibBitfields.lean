import Mathlib.Data.Nat.Bitwise
import Mathlib.Tactic.Common

/-! Fields of a word. A slot is a stretch of bits; values are put into slots and the results or-ed
together, and where the slots do not overlap and the values fit, every slot gives its value back. -/

namespace Bitfields

/-- `width` bits from bit `lo` on. -/
structure Slot where
  lo : ℕ
  width : ℕ
  deriving DecidableEq, Repr

namespace Slot

def get (slot : Slot) (word : ℕ) : ℕ := (word >>> slot.lo) % 2 ^ slot.width

def put (slot : Slot) (value : ℕ) : ℕ := value <<< slot.lo

/-- The two stretches have no bit in common. -/
def Apart (slot other : Slot) : Prop := slot.lo + slot.width ≤ other.lo ∨ other.lo + other.width ≤ slot.lo

instance (slot other : Slot) : Decidable (Apart slot other) := inferInstanceAs (Decidable (_ ∨ _))

theorem testBit_get (slot : Slot) (word i : ℕ) :
    (slot.get word).testBit i = (decide (i < slot.width) && word.testBit (slot.lo + i)) := by
  rw [get, Nat.testBit_mod_two_pow, Nat.testBit_shiftRight]

theorem testBit_put (slot : Slot) (value i : ℕ) :
    (slot.put value).testBit i = (decide (slot.lo ≤ i) && value.testBit (i - slot.lo)) := by
  rw [put, Nat.testBit_shiftLeft]

@[simp] theorem get_zero (slot : Slot) : slot.get 0 = 0 := by
  simp [get]

theorem get_or (slot : Slot) (left right : ℕ) :
    slot.get (left ||| right) = slot.get left ||| slot.get right := by
  apply Nat.eq_of_testBit_eq
  intro i
  simp only [testBit_get, Nat.testBit_or, Bool.and_or_distrib_left]

theorem get_put {slot : Slot} {value : ℕ} (hvalue : value < 2 ^ slot.width) :
    slot.get (slot.put value) = value := by
  rw [get, put, Nat.shiftLeft_shiftRight, Nat.mod_eq_of_lt hvalue]

theorem get_put_apart {slot other : Slot} {value : ℕ} (hvalue : value < 2 ^ other.width)
    (hapart : Apart slot other) : slot.get (other.put value) = 0 := by
  apply Nat.eq_of_testBit_eq
  intro i
  rw [testBit_get, testBit_put, Nat.zero_testBit]
  by_cases hi : i < slot.width
  · rcases hapart with hbelow | habove
    · have hlow : ¬other.lo ≤ slot.lo + i := by omega
      simp [hlow]
    · have hhigh : value.testBit (slot.lo + i - other.lo) = false :=
        Nat.testBit_lt_two_pow (hvalue.trans_le (Nat.pow_le_pow_right (by omega) (by omega)))
      simp [hhigh]
  · simp [hi]

/-- A slot inside the low bits of a word. -/
theorem get_and_ones {slot : Slot} {n : ℕ} (hslot : slot.lo + slot.width ≤ n) (word : ℕ) :
    slot.get (word &&& (2 ^ n - 1)) = slot.get word := by
  apply Nat.eq_of_testBit_eq
  intro i
  rw [testBit_get, testBit_get, Nat.testBit_and, Nat.testBit_two_pow_sub_one]
  by_cases hi : i < slot.width
  · rw [decide_eq_true (by omega : slot.lo + i < n), Bool.and_true]
  · rw [decide_eq_false hi, Bool.false_and, Bool.false_and]

theorem testBit_eq_get (bit word : ℕ) : word.testBit bit = decide (get ⟨bit, 1⟩ word = 1) := by
  rw [get, Nat.pow_one, Nat.testBit, Nat.and_comm, Nat.and_one_is_mod]
  rcases Nat.mod_two_eq_zero_or_one (word >>> bit) with h | h <;> rw [h] <;> rfl

end Slot

/-- The word that holds the given values in their slots. -/
def pack (fields : List (Slot × ℕ)) : ℕ := fields.foldl (fun word field => word ||| field.1.put field.2) 0

theorem foldl_or (fields : List (Slot × ℕ)) (word : ℕ) :
    fields.foldl (fun word field => word ||| field.1.put field.2) word = word ||| pack fields := by
  induction fields generalizing word with
  | nil => simp [pack]
  | cons field fields ih =>
      have hpack : pack (field :: fields) = field.1.put field.2 ||| pack fields := by
        rw [pack, List.foldl_cons, ih, Nat.zero_or]
      rw [List.foldl_cons, ih, hpack, Nat.or_assoc]

theorem pack_cons (field : Slot × ℕ) (fields : List (Slot × ℕ)) :
    pack (field :: fields) = field.1.put field.2 ||| pack fields := by
  rw [pack, List.foldl_cons, foldl_or, Nat.zero_or]

theorem pack_append (front back : List (Slot × ℕ)) : pack (front ++ back) = pack front ||| pack back := by
  rw [pack, List.foldl_append, ← pack, foldl_or]

/-- Values that fit into slots of which no two overlap. -/
structure Fits (fields : List (Slot × ℕ)) : Prop where
  apart : (fields.map Prod.fst).Pairwise Slot.Apart
  fits : ∀ field ∈ fields, field.2 < 2 ^ field.1.width

theorem get_pack_apart {slot : Slot} {fields : List (Slot × ℕ)}
    (hfits : ∀ field ∈ fields, field.2 < 2 ^ field.1.width)
    (hapart : ∀ field ∈ fields, Slot.Apart slot field.1) : slot.get (pack fields) = 0 := by
  induction fields with
  | nil => exact slot.get_zero
  | cons field fields ih =>
      rw [pack_cons, Slot.get_or,
        Slot.get_put_apart (hfits field List.mem_cons_self) (hapart field List.mem_cons_self),
        ih (fun other hother => hfits other (List.mem_cons_of_mem _ hother))
          (fun other hother => hapart other (List.mem_cons_of_mem _ hother)), Nat.zero_or]

/-- No field overwrites another. -/
theorem Fits.get_pack {fields : List (Slot × ℕ)} (h : Fits fields) {field : Slot × ℕ} (hfield : field ∈ fields) :
    field.1.get (pack fields) = field.2 := by
  induction fields with
  | nil => cases hfield
  | cons first fields ih =>
      have hapart := List.pairwise_cons.mp h.apart
      have hrest : Fits fields := ⟨hapart.2, fun other hother => h.fits other (List.mem_cons_of_mem _ hother)⟩
      rw [pack_cons, Slot.get_or]
      rcases List.mem_cons.mp hfield with rfl | hfield
      · rw [Slot.get_put (h.fits field List.mem_cons_self), get_pack_apart hrest.fits, Nat.or_zero]
        exact fun other hother => hapart.1 _ (List.mem_map_of_mem hother)
      · rw [ih hrest hfield, Slot.get_put_apart (h.fits first List.mem_cons_self), Nat.zero_or]
        exact (hapart.1 _ (List.mem_map_of_mem hfield)).symm

/-! ### Masks of high bits -/

theorem testBit_highBits {k bits : ℕ} (h : k ≤ bits) (i : ℕ) :
    (2 ^ bits - 2 ^ k).testBit i = (decide (k ≤ i) && decide (i < bits)) := by
  obtain ⟨d, rfl⟩ := Nat.exists_eq_add_of_le h
  have hsplit : 2 ^ (k + d) - 2 ^ k = 2 ^ k * (2 ^ d - 1) := by
    rw [pow_add, Nat.mul_sub, Nat.mul_one]
  rw [hsplit, Nat.testBit_two_pow_mul, Nat.testBit_two_pow_sub_one]
  by_cases hi : k ≤ i
  · simp only [hi, decide_true, Bool.true_and]
    congr 1
    exact propext ⟨fun _ => by omega, fun _ => by omega⟩
  · simp [hi]

/-- Under the limit the mask rounds down to a multiple of `2 ^ k`. -/
theorem and_highBits {k bits address : ℕ} (h : k ≤ bits) (haddress : address < 2 ^ bits) :
    address &&& (2 ^ bits - 2 ^ k) = 2 ^ k * (address / 2 ^ k) := by
  apply Nat.eq_of_testBit_eq
  intro i
  rw [Nat.testBit_and, testBit_highBits h, Nat.testBit_two_pow_mul, Nat.testBit_div_two_pow]
  by_cases hi : k ≤ i
  · simp only [hi, decide_true, Bool.true_and, Nat.sub_add_cancel hi]
    by_cases hbits : i < bits
    · simp [hbits]
    · have hhigh : address.testBit i = false :=
        Nat.testBit_lt_two_pow (haddress.trans_le (Nat.pow_le_pow_right (by omega) (by omega)))
      simp [hhigh]
  · simp [hi]

/-- The complement of the mask keeps the `k` lowest bits and everything above the limit. -/
theorem ldiff_highBits {k bits : ℕ} (h : k ≤ bits) (high : ℕ) {low : ℕ} (hlow : low < 2 ^ bits) :
    Nat.ldiff (2 ^ bits * high + low) (2 ^ bits - 2 ^ k) = 2 ^ bits * high + low % 2 ^ k := by
  have hmod : low % 2 ^ k < 2 ^ bits :=
    (Nat.mod_lt _ (Nat.two_pow_pos k)).trans_le (Nat.pow_le_pow_right (by omega) h)
  apply Nat.eq_of_testBit_eq
  intro i
  rw [Nat.testBit_ldiff, testBit_highBits h, Nat.testBit_two_pow_mul_add _ hlow,
    Nat.testBit_two_pow_mul_add _ hmod, Nat.testBit_mod_two_pow]
  by_cases hbits : i < bits
  · by_cases hi : i < k
    · simp [hbits, hi, Nat.not_le.mpr hi]
    · simp [hbits, hi, Nat.not_lt.mp hi]
  · simp [hbits]

end Bitfields
