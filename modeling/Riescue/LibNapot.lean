import Mathlib.Data.Int.Bitwise
import Mathlib.Data.Nat.Bitwise
import Mathlib.Data.Nat.Size
import Mathlib.Algebra.Ring.Parity
import Mathlib.Tactic.Common
import Mathlib.Tactic.Ring

/-! Naturally aligned power-of-two ranges, and the two number formats around them: an aligned range is
packed into one number, whose trailing ones give the size; and bytes are packed into the lanes of a word.
Both decoders are described on every number the encoders produce. -/

namespace Napot

/-- How many of the lowest bits are one. -/
def trailingOnes (n : ℕ) : ℕ :=
  if n % 2 = 1 then trailingOnes (n / 2) + 1 else 0
termination_by n
decreasing_by omega

theorem trailingOnes_even (n : ℕ) : trailingOnes (2 * n) = 0 := by
  rw [trailingOnes, if_neg (by omega)]

theorem trailingOnes_odd (n : ℕ) : trailingOnes (2 * n + 1) = trailingOnes n + 1 := by
  rw [trailingOnes, if_pos (by omega)]
  congr 2
  omega

/-- A block of `ones` ones under a zero bit. -/
theorem trailingOnes_block (ones n : ℕ) : trailingOnes (2 ^ ones * (2 * n) + (2 ^ ones - 1)) = ones := by
  induction ones with
  | zero => simpa using trailingOnes_even n
  | succ ones ih =>
      have hpos : 0 < 2 ^ ones := Nat.two_pow_pos ones
      have hsplit : 2 ^ (ones + 1) * (2 * n) + (2 ^ (ones + 1) - 1)
          = 2 * (2 ^ ones * (2 * n) + (2 ^ ones - 1)) + 1 := by
        rw [pow_succ, mul_comm (2 ^ ones) 2, mul_assoc]
        omega
      rw [hsplit, trailingOnes_odd, ih]

/-- The lowest one bit, as the two's complement identity computes it. -/
def lowestBit (n : ℕ) : ℕ := (Int.land n (-(n : ℤ))).toNat

theorem lowestBit_zero : lowestBit 0 = 0 := rfl

theorem lowestBit_succ (n : ℕ) : lowestBit (n + 1) = Nat.ldiff (n + 1) n := rfl

theorem lowestBit_two_pow_mul_odd (k m : ℕ) : lowestBit (2 ^ k * (2 * m + 1)) = 2 ^ k := by
  have hpos : 0 < 2 ^ k := Nat.two_pow_pos k
  have hpred : 2 ^ k * (2 * m + 1) = (2 ^ k * (2 * m) + (2 ^ k - 1)) + 1 := by
    rw [mul_add, mul_one]
    omega
  have hbits : Nat.ldiff (2 ^ k * (2 * m + 1)) (2 ^ k * (2 * m) + (2 ^ k - 1)) = 2 ^ k := by
    apply Nat.eq_of_testBit_eq
    intro i
    rw [Nat.testBit_ldiff, Nat.testBit_two_pow_mul, Nat.testBit_two_pow_mul_add _ (by omega),
      Nat.testBit_two_pow]
    by_cases hlow : i < k
    · simp [hlow, Nat.not_le.mpr hlow, Nat.ne_of_gt hlow]
    · obtain ⟨d, rfl⟩ := Nat.exists_eq_add_of_le (Nat.not_lt.mp hlow)
      cases d with
      | zero => simp [Nat.testBit_zero]
      | succ d =>
          have hodd : (2 * m + 1) / 2 = m := by omega
          simp [Nat.testBit_succ, hodd]
  rw [hpred, lowestBit_succ, ← hpred, hbits]

/-- A range is aligned when its size is a power of two that divides its base. -/
structure Aligned (base size : ℕ) : Prop where
  isPow : ∃ k, size = 2 ^ k
  dvd : size ∣ base

theorem Aligned.pos {base size : ℕ} (h : Aligned base size) : 0 < size := by
  obtain ⟨k, rfl⟩ := h.isPow
  exact Nat.two_pow_pos k

/-- The two mask tests that recognise an aligned range. -/
theorem aligned_iff_masks {base size : ℕ} (hsize : size ≠ 0) :
    Aligned base size ↔ size &&& (size - 1) = 0 ∧ base &&& (size - 1) = 0 := by
  have hmask : ∀ k, base &&& (2 ^ k - 1) = 0 ↔ 2 ^ k ∣ base := by
    intro k
    rw [Nat.and_two_pow_sub_one_eq_mod, Nat.dvd_iff_mod_eq_zero]
  constructor
  · rintro ⟨⟨k, rfl⟩, hdvd⟩
    exact ⟨(Nat.and_sub_one_eq_zero_iff_isPowerOfTwo hsize).mpr ⟨k, rfl⟩, (hmask k).mpr hdvd⟩
  · rintro ⟨hpow, hbase⟩
    obtain ⟨k, rfl⟩ := (Nat.and_sub_one_eq_zero_iff_isPowerOfTwo hsize).mp hpow
    exact ⟨⟨k, rfl⟩, (hmask k).mp hbase⟩

/-- One number for an aligned range of at least eight bytes: the base in units of four, with ones below. -/
def pack (base size : ℕ) : ℕ := (base / 4) ||| ((size / 4 - 1) >>> 1)

def unpackSize (packed : ℕ) : ℕ := 2 ^ (trailingOnes packed + 3)

def unpackBase (packed : ℕ) : ℕ := packed / 2 ^ trailingOnes packed * 2 ^ trailingOnes packed * 4

theorem pack_eq_block (k m : ℕ) :
    pack (2 ^ (k + 3) * m) (2 ^ (k + 3)) = 2 ^ k * (2 * m) + (2 ^ k - 1) := by
  have hpos : 0 < 2 ^ k := Nat.two_pow_pos k
  have hbase : 2 ^ (k + 3) * m / 4 = 2 ^ k * (2 * m) := by
    have hsplit : 2 ^ (k + 3) * m = 4 * (2 ^ k * (2 * m)) := by ring
    rw [hsplit]
    omega
  have hmask : (2 ^ (k + 3) / 4 - 1) >>> 1 = 2 ^ k - 1 := by
    have hsplit : 2 ^ (k + 3) = 8 * 2 ^ k := by ring
    rw [hsplit, Nat.shiftRight_eq_div_pow]
    omega
  rw [pack, hbase, hmask]
  exact (Nat.two_pow_add_eq_or_of_lt (by omega) (2 * m)).symm

theorem exists_block {base size : ℕ} (h : Aligned base size) (hsize : 8 ≤ size) :
    ∃ k m, size = 2 ^ (k + 3) ∧ base = 2 ^ (k + 3) * m := by
  obtain ⟨j, rfl⟩ := h.isPow
  obtain ⟨m, rfl⟩ := h.dvd
  have hj : 3 ≤ j := by
    by_contra hj
    have : 2 ^ j ≤ 2 ^ 2 := Nat.pow_le_pow_right (by omega) (by omega)
    omega
  obtain ⟨k, rfl⟩ := Nat.exists_eq_add_of_le' hj
  exact ⟨k, m, rfl, rfl⟩

theorem Aligned.eight_dvd {base size : ℕ} (h : Aligned base size) (hsize : 8 ≤ size) : 8 ∣ size := by
  obtain ⟨k, m, rfl, -⟩ := exists_block h hsize
  exact ⟨2 ^ k, by ring⟩

theorem unpackSize_pack {base size : ℕ} (h : Aligned base size) (hsize : 8 ≤ size) :
    unpackSize (pack base size) = size := by
  obtain ⟨k, m, rfl, rfl⟩ := exists_block h hsize
  rw [unpackSize, pack_eq_block, trailingOnes_block]

theorem unpackBase_pack {base size : ℕ} (h : Aligned base size) (hsize : 8 ≤ size) :
    unpackBase (pack base size) = base := by
  obtain ⟨k, m, rfl, rfl⟩ := exists_block h hsize
  have hpos : 0 < 2 ^ k := Nat.two_pow_pos k
  have hdiv : (2 ^ k * (2 * m) + (2 ^ k - 1)) / 2 ^ k = 2 * m := by
    rw [Nat.mul_add_div hpos, Nat.div_eq_of_lt (by omega), add_zero]
  rw [unpackBase, pack_eq_block, trailingOnes_block, hdiv]
  ring

/-- A range below `4 * 2 ^ width` packs into `width` bits. -/
theorem pack_lt {base size width : ℕ} (h : Aligned base size) (hsize : 8 ≤ size)
    (hend : base + size ≤ 4 * 2 ^ width) : pack base size < 2 ^ width := by
  obtain ⟨k, m, rfl, rfl⟩ := exists_block h hsize
  have hpos : 0 < 2 ^ k := Nat.two_pow_pos k
  have hsum : 2 ^ (k + 3) * m + 2 ^ (k + 3) = 4 * (2 ^ k * (2 * m) + 2 * 2 ^ k) := by ring
  rw [pack_eq_block]
  omega

/-- Byte `lane` of a word. -/
def byteAt (word lane : ℕ) : ℕ := (word >>> (8 * lane)) % 2 ^ 8

theorem testBit_byteAt (word lane i : ℕ) :
    (byteAt word lane).testBit i = (decide (i < 8) && word.testBit (8 * lane + i)) := by
  rw [byteAt, Nat.testBit_mod_two_pow, Nat.testBit_shiftRight]

@[simp] theorem byteAt_zero (lane : ℕ) : byteAt 0 lane = 0 := by
  simp [byteAt]

theorem byteAt_eq_zero {word lane used : ℕ} (hword : word < 2 ^ (8 * used)) (hlane : used ≤ lane) :
    byteAt word lane = 0 := by
  have hlow : word < 2 ^ (8 * lane) :=
    hword.trans_le (Nat.pow_le_pow_right (by omega) (by omega))
  rw [byteAt, Nat.shiftRight_eq_div_pow, Nat.div_eq_of_lt hlow, Nat.zero_mod]

/-- Adding a byte above the used lanes changes that lane only. -/
theorem byteAt_or_shiftLeft {word byte used : ℕ} (hword : word < 2 ^ (8 * used)) (hbyte : byte < 2 ^ 8)
    (lane : ℕ) :
    byteAt (word ||| byte <<< (8 * used)) lane = if lane = used then byte else byteAt word lane := by
  apply Nat.eq_of_testBit_eq
  intro i
  rw [testBit_byteAt, Nat.testBit_or, Nat.testBit_shiftLeft]
  have hbig : ∀ j, 8 ≤ j → byte.testBit j = false := fun j hj =>
    Nat.testBit_lt_two_pow (hbyte.trans_le (Nat.pow_le_pow_right (by omega) hj))
  split_ifs with hlane
  · subst hlane
    have habove : word.testBit (8 * lane + i) = false :=
      Nat.testBit_lt_two_pow (hword.trans_le (Nat.pow_le_pow_right (by omega) (by omega)))
    by_cases hi : i < 8
    · simp [habove, hi]
    · simp [hi, hbig i (by omega)]
  · rw [testBit_byteAt]
    by_cases hi : i < 8
    · rcases Nat.lt_or_gt_of_ne hlane with hlt | hgt
      · have hlow : ¬8 * used ≤ 8 * lane + i := by omega
        simp [hlow]
      · simp [hbig (8 * lane + i - 8 * used) (by omega)]
    · simp [hi]

theorem or_shiftLeft_lt {word byte used : ℕ} (hword : word < 2 ^ (8 * used)) (hbyte : byte < 2 ^ 8) :
    word ||| byte <<< (8 * used) < 2 ^ (8 * (used + 1)) := by
  have hshift : byte <<< (8 * used) < 2 ^ (8 * (used + 1)) := by
    rw [Nat.shiftLeft_eq, mul_add, mul_one, pow_add, mul_comm]
    exact Nat.mul_lt_mul_of_pos_left hbyte (Nat.two_pow_pos _)
  have hwide : word < 2 ^ (8 * (used + 1)) :=
    hword.trans_le (Nat.pow_le_pow_right (by omega) (by omega))
  exact Nat.or_lt_two_pow hwide hshift

/-! ### Cutting a range into aligned blocks -/

/-- Two aligned blocks that share a point are nested. -/
theorem Aligned.nested {base size base' size' a : ℕ} (h : Aligned base size) (h' : Aligned base' size')
    (hle : size ≤ size') (ha : base ≤ a ∧ a < base + size) (ha' : base' ≤ a ∧ a < base' + size') :
    base' ≤ base ∧ base + size ≤ base' + size' := by
  have hdvd : size ∣ size' := by
    obtain ⟨k, rfl⟩ := h.isPow
    obtain ⟨k', rfl⟩ := h'.isPow
    exact pow_dvd_pow 2 ((Nat.pow_le_pow_iff_right (by omega)).mp hle)
  obtain ⟨q, rfl⟩ := h.dvd
  obtain ⟨r, rfl⟩ := hdvd.trans h'.dvd
  obtain ⟨t, rfl⟩ := hdvd
  have hlow : size * r < size * (q + 1) := by
    rw [mul_add, mul_one]
    omega
  have hhigh : size * q < size * (r + t) := by
    rw [mul_add]
    omega
  have hlow' : r ≤ q := Nat.lt_succ_iff.mp (Nat.lt_of_mul_lt_mul_left hlow)
  have hhigh' : q + 1 ≤ r + t := Nat.lt_of_mul_lt_mul_left hhigh
  refine ⟨Nat.mul_le_mul_left _ hlow', ?_⟩
  calc size * q + size = size * (q + 1) := by ring
    _ ≤ size * (r + t) := Nat.mul_le_mul_left _ hhigh'
    _ = size * r + size * t := by ring

/-- Point `a` lies in the block. -/
def Within (block : ℕ × ℕ) (a : ℕ) : Prop := block.1 ≤ a ∧ a < block.1 + block.2

instance (block : ℕ × ℕ) (a : ℕ) : Decidable (Within block a) := inferInstanceAs (Decidable (_ ∧ _))

/-- Aligned blocks, in any order and possibly overlapping, whose union is exactly the range. -/
structure ExactCover (base size : ℕ) (blocks : List (ℕ × ℕ)) : Prop where
  aligned : ∀ block ∈ blocks, Aligned block.1 block.2
  covers : ∀ a, (∃ block ∈ blocks, Within block a) ↔ Within (base, size) a

/-- The range is cut from the left, and each cut is the largest aligned block that fits. -/
inductive Greedy : ℕ → ℕ → List (ℕ × ℕ) → Prop where
  | nil (addr : ℕ) : Greedy addr 0 []
  | cons {addr chunk rem : ℕ} {chunks : List (ℕ × ℕ)} (haligned : Aligned addr chunk)
      (hlargest : ∀ size, Aligned addr size → size ≤ chunk + rem → size ≤ chunk)
      (hrest : Greedy (addr + chunk) rem chunks) : Greedy addr (chunk + rem) ((addr, chunk) :: chunks)

/-- Blocks that cover a range, and of which none sticks out where it meets the range, are at least as
many as the greedy cuts. The induction is over the cuts: the blocks that meet the first cut lie in it,
so the rest of the range is covered by the others. -/
theorem Greedy.length_le_of_covering {addr rem : ℕ} {chunks : List (ℕ × ℕ)} (h : Greedy addr rem chunks)
    {blocks : List (ℕ × ℕ)} (haligned : ∀ block ∈ blocks, Aligned block.1 block.2)
    (hcovers : ∀ a, Within (addr, rem) a → ∃ block ∈ blocks, Within block a)
    (hinside : ∀ block ∈ blocks, ∀ a, Within (addr, rem) a → Within block a →
      addr ≤ block.1 ∧ block.1 + block.2 ≤ addr + rem) : chunks.length ≤ blocks.length := by
  induction h generalizing blocks with
  | nil addr => exact Nat.zero_le _
  | @cons addr chunk rem chunks hchunk hlargest hrest ih =>
      have hpos := hchunk.pos
      have hsmall : ∀ block ∈ blocks, ∀ a, Within (addr, chunk) a → Within block a →
          block.1 + block.2 ≤ addr + chunk := by
        intro block hblock a ha hwithin
        have hrange : Within (addr, chunk + rem) a := ⟨ha.1, by have := ha.2; simp only at *; omega⟩
        obtain ⟨hstart, hend⟩ := hinside block hblock a hrange hwithin
        rcases Nat.le_total block.2 chunk with hle | hle
        · exact ((haligned block hblock).nested hchunk hle hwithin ha).2
        · have hnested := hchunk.nested (haligned block hblock) hle ha hwithin
          have heq : block.1 = addr := by omega
          have hfits := hlargest block.2 (heq ▸ haligned block hblock) (by omega)
          omega
      let others := blocks.filter fun block => decide (addr + chunk ≤ block.1)
      have hmem : ∀ {block}, block ∈ others ↔ block ∈ blocks ∧ addr + chunk ≤ block.1 := by
        intro block
        simp [others]
      have hothers : chunks.length ≤ others.length := by
        refine ih (fun block hblock => haligned block (hmem.mp hblock).1) ?_ ?_
        · intro a ha
          have hrange : Within (addr, chunk + rem) a := ⟨by have := ha.1; simp only at *; omega,
            by have := ha.2; simp only at *; omega⟩
          obtain ⟨block, hblock, hwithin⟩ := hcovers a hrange
          refine ⟨block, hmem.mpr ⟨hblock, ?_⟩, hwithin⟩
          by_contra hstart
          have hin := hinside block hblock a hrange hwithin
          have hfirst : Within (addr, chunk) block.1 := ⟨hin.1, Nat.not_le.mp hstart⟩
          have hend := hsmall block hblock block.1 hfirst
            ⟨Nat.le_refl _, Nat.lt_add_of_pos_right (haligned block hblock).pos⟩
          have hlow : addr + chunk ≤ a := ha.1
          have hhigh : a < block.1 + block.2 := hwithin.2
          omega
        · intro block hblock a ha hwithin
          obtain ⟨hblock, hstart⟩ := hmem.mp hblock
          have hrange : Within (addr, chunk + rem) a := ⟨by have := ha.1; simp only at *; omega,
            by have := ha.2; simp only at *; omega⟩
          have := (hinside block hblock a hrange hwithin).2
          exact ⟨hstart, by omega⟩
      obtain ⟨first, hfirst, hwithin⟩ := hcovers addr ⟨Nat.le_refl _, by simp only; omega⟩
      have hdropped : others.length < blocks.length := by
        refine List.length_filter_lt_length_iff_exists.mpr ⟨first, hfirst, ?_⟩
        have := hwithin.1
        simp only [decide_eq_true_eq]
        omega
      rw [List.length_cons]
      omega

/-- No list of aligned blocks with the same union is shorter than the greedy cuts. -/
theorem Greedy.length_le {addr rem : ℕ} {chunks blocks : List (ℕ × ℕ)} (h : Greedy addr rem chunks)
    (hblocks : ExactCover addr rem blocks) : chunks.length ≤ blocks.length := by
  refine h.length_le_of_covering hblocks.aligned (fun a ha => (hblocks.covers a).mpr ha) ?_
  intro block hblock a _ _
  have hpos := (hblocks.aligned block hblock).pos
  have hfirst := (hblocks.covers block.1).mp ⟨block, hblock, Nat.le_refl _, by omega⟩
  have hlast := (hblocks.covers (block.1 + block.2 - 1)).mp ⟨block, hblock, by omega, by omega⟩
  have hlow : addr ≤ block.1 := hfirst.1
  have hhigh : block.1 + block.2 - 1 < addr + rem := hlast.2
  exact ⟨hlow, by omega⟩

end Napot
