import Riescue.AddrgenTypes
import Riescue.LibBitfields
import Riescue.Pma
import Riescue.RandNum
import Mathlib.Tactic.Positivity

/-! An address inside a PMA region, `Generator._generate_address_in_pma_region`: a drawn address is rounded
down to the alignment of the constraint, and where that leaves the region it is to be rounded up. -/

namespace Riescue.Pma
open Addrgen Bitfields

/-- The rest of `_generate_address_in_pma_region`, from the drawn address on. -/
def alignInPmaRegion (region : PmaInfo) (constraints : AddressConstraint) (address : ℤ) : Option ℤ :=
  let minAddr := region.pmaAddress
  let mask : ℤ := constraints.mask
  let address := Int.land address mask
  let address := if address < minAddr then Int.land (minAddr + mask) (Int.lnot mask) else address
  if region.getEndAddress < address + constraints.size then none else some address

/-- `_generate_address_in_pma_region`. The `ValueError` of an empty range is caught. -/
def generateAddressInPmaRegion (region : PmaInfo) (constraints : AddressConstraint) (rng : RandNum) :
    Option ℤ × RandNum :=
  let minAddr := region.pmaAddress
  let maxAddr := region.getEndAddress - constraints.size
  if maxAddr < minAddr ∨ region.pmaSize < constraints.size then (none, rng)
  else if maxAddr ≤ minAddr then (none, rng)
  else
    match rng.randomInRange minAddr maxAddr with
    | (none, rng) => (none, rng)
    | (some address, rng) => (alignInPmaRegion region constraints address, rng)

/-- The mask is a contiguous alignment mask: of every address of the region it clears the `k` lowest bits
and keeps the others. -/
structure AlignmentMask (region : PmaInfo) (constraints : AddressConstraint) (k bits : ℕ) : Prop where
  le : k ≤ bits
  mask : constraints.mask = 2 ^ bits - 2 ^ k
  nonneg : 0 ≤ region.pmaAddress
  below : region.getEndAddress ≤ 2 ^ bits

/-- The address is one that the mask keeps. -/
def Aligned (constraints : AddressConstraint) (address : ℤ) : Prop :=
  Int.land address constraints.mask = address

instance (constraints : AddressConstraint) (address : ℤ) : Decidable (Aligned constraints address) :=
  inferInstanceAs (Decidable (_ = _))

/-- An aligned slot of the requested size inside the region. -/
structure Slot (region : PmaInfo) (constraints : AddressConstraint) (address : ℤ) : Prop where
  start : region.pmaAddress ≤ address
  stop : address + constraints.size ≤ region.getEndAddress
  aligned : Aligned constraints address

/-- What is returned is a slot, and nothing is only returned where there is none. -/
structure FindsSlot (region : PmaInfo) (constraints : AddressConstraint) (out : Option ℤ) : Prop where
  slot : ∀ address, out = some address → Slot region constraints address
  none : out = none → ¬∃ address, Slot region constraints address

/-! ### The masks as arithmetic -/

variable {region : PmaInfo} {constraints : AddressConstraint} {k bits : ℕ}

theorem AlignmentMask.land (h : AlignmentMask region constraints k bits) {address : ℤ} (hlo : 0 ≤ address)
    (hhi : address < 2 ^ bits) :
    Int.land address constraints.mask = 2 ^ k * (address / 2 ^ k) := by
  obtain ⟨n, rfl⟩ := Int.eq_ofNat_of_zero_le hlo
  have hn : n < 2 ^ bits := by exact_mod_cast hhi
  have hnat : Int.land (n : ℤ) constraints.mask = ((n &&& constraints.mask : ℕ) : ℤ) := rfl
  rw [hnat, h.mask, and_highBits h.le hn]
  push_cast
  rfl

/-- Rounding down does not pass an aligned address. -/
theorem AlignmentMask.le_land (h : AlignmentMask region constraints k bits) {start address : ℤ}
    (hstart : 0 ≤ start) (hle : start ≤ address) (hhi : address < 2 ^ bits)
    (haligned : Aligned constraints start) : start ≤ Int.land address constraints.mask := by
  rw [h.land (hstart.trans hle) hhi]
  calc start = Int.land start constraints.mask := haligned.symm
    _ = 2 ^ k * (start / 2 ^ k) := h.land hstart (hle.trans_lt hhi)
    _ ≤ 2 ^ k * (address / 2 ^ k) := by
      have hpos : (0 : ℤ) < 2 ^ k := by positivity
      exact mul_le_mul_of_nonneg_left (Int.ediv_le_ediv hpos hle) hpos.le

theorem AlignmentMask.land_le (h : AlignmentMask region constraints k bits) {address : ℤ} (hlo : 0 ≤ address)
    (hhi : address < 2 ^ bits) : Int.land address constraints.mask ≤ address := by
  rw [h.land hlo hhi]
  exact Int.mul_ediv_self_le (by positivity)

theorem AlignmentMask.aligned_land (h : AlignmentMask region constraints k bits) {address : ℤ}
    (hlo : 0 ≤ address) (hhi : address < 2 ^ bits) :
    Aligned constraints (Int.land address constraints.mask) := by
  have hle := h.land_le hlo hhi
  have hnonneg : 0 ≤ Int.land address constraints.mask := by
    rw [h.land hlo hhi]
    have hdiv : 0 ≤ address / 2 ^ k := Int.ediv_nonneg hlo (by positivity)
    positivity
  rw [Aligned, h.land hnonneg (hle.trans_lt hhi), h.land hlo hhi,
    Int.mul_ediv_cancel_left _ (by positivity : (2 : ℤ) ^ k ≠ 0)]

/-- What the code computes to round up: in the first aligned block it is the start of the region itself,
and elsewhere an address beyond all the region's. -/
theorem AlignmentMask.roundUp (h : AlignmentMask region constraints k bits) (hhi : region.pmaAddress < 2 ^ bits)
    (haligned : ¬Aligned constraints region.pmaAddress) :
    (Int.land region.pmaAddress constraints.mask = 0 ∧
      Int.land (region.pmaAddress + constraints.mask) (Int.lnot constraints.mask) = region.pmaAddress) ∨
    (Int.land region.pmaAddress constraints.mask ≠ 0 ∧
      2 ^ bits < Int.land (region.pmaAddress + constraints.mask) (Int.lnot constraints.mask)) := by
  have hland := h.land h.nonneg hhi
  obtain ⟨start, hstart⟩ := Int.eq_ofNat_of_zero_le h.nonneg
  have hpos : 0 < 2 ^ k := Nat.two_pow_pos k
  have hle : 2 ^ k ≤ 2 ^ bits := Nat.pow_le_pow_right (by omega) h.le
  have hlt : start < 2 ^ bits := by
    rw [hstart] at hhi
    exact_mod_cast hhi
  have hmod : start % 2 ^ k ≠ 0 := by
    intro hzero
    apply haligned
    rw [Aligned, hland, hstart]
    exact Int.mul_ediv_cancel' (by exact_mod_cast Nat.dvd_of_mod_eq_zero hzero)
  have hnat : Int.land (region.pmaAddress + constraints.mask) (Int.lnot constraints.mask) =
      (Nat.ldiff (start + constraints.mask) constraints.mask : ℕ) := by
    rw [hstart]
    rfl
  rw [hnat, hland, hstart, h.mask]
  by_cases hfirst : start < 2 ^ k
  · left
    have hsum : start + (2 ^ bits - 2 ^ k) = 2 ^ bits * 0 + (start + (2 ^ bits - 2 ^ k)) := by omega
    have hself : (start + (2 ^ bits - 2 ^ k)) % 2 ^ k = start := by
      obtain ⟨d, rfl⟩ := Nat.exists_eq_add_of_le h.le
      have hsplit : 2 ^ (k + d) - 2 ^ k = 2 ^ k * (2 ^ d - 1) := by
        rw [pow_add, Nat.mul_sub, Nat.mul_one]
      rw [hsplit, Nat.add_mul_mod_self_left, Nat.mod_eq_of_lt hfirst]
    rw [hsum, ldiff_highBits h.le 0 (by omega), hself]
    refine ⟨?_, by simp⟩
    have hdiv : (start : ℤ) / 2 ^ k = 0 := Int.ediv_eq_zero_of_lt (by omega) (by exact_mod_cast hfirst)
    rw [hdiv, mul_zero]
  · right
    have hsum : start + (2 ^ bits - 2 ^ k) = 2 ^ bits * 1 + (start - 2 ^ k) := by omega
    have hself : (start - 2 ^ k) % 2 ^ k = start % 2 ^ k := by
      conv_rhs => rw [← Nat.sub_add_cancel (Nat.not_lt.mp hfirst), Nat.add_mod_right]
    rw [hsum, ldiff_highBits h.le 1 (by omega), hself]
    constructor
    · have hdiv : (1 : ℤ) ≤ (start : ℤ) / 2 ^ k :=
        Int.le_ediv_of_mul_le (by positivity) (by rw [one_mul]; exact_mod_cast Nat.not_lt.mp hfirst)
      have hprod : (0 : ℤ) < 2 ^ k * ((start : ℤ) / 2 ^ k) := by positivity
      exact hprod.ne'
    · have hlow : 0 < start % 2 ^ k := Nat.pos_of_ne_zero hmod
      have hlt : 2 ^ bits < 2 ^ bits * 1 + start % 2 ^ k := by omega
      exact_mod_cast hlt

/-! ### The outcomes -/

/-- From a drawn address of the region whose aligned block starts in it, a slot is found. -/
theorem AlignmentMask.alignInPmaRegion_slot (h : AlignmentMask region constraints k bits) {address : ℤ}
    (hlo : region.pmaAddress ≤ address) (hhi : address + constraints.size ≤ region.getEndAddress)
    (hlimit : address < 2 ^ bits) (hstart : region.pmaAddress ≤ Int.land address constraints.mask) :
    ∃ found, alignInPmaRegion region constraints address = some found ∧ Slot region constraints found := by
  have hnonneg := h.nonneg.trans hlo
  have hle := h.land_le hnonneg hlimit
  refine ⟨Int.land address constraints.mask, ?_, hstart, by omega, h.aligned_land hnonneg hlimit⟩
  unfold alignInPmaRegion
  dsimp only
  rw [if_neg (not_lt.mpr hstart), if_neg (by omega)]

/-- Elsewhere the code gives up, or returns the unaligned start of the region. -/
theorem AlignmentMask.alignInPmaRegion_below (h : AlignmentMask region constraints k bits) {address : ℤ}
    (hlo : region.pmaAddress ≤ address) (hhi : address + constraints.size < region.getEndAddress)
    (hlimit : region.pmaAddress < 2 ^ bits) (haligned : ¬Aligned constraints region.pmaAddress)
    (hbelow : Int.land address constraints.mask < region.pmaAddress) :
    alignInPmaRegion region constraints address =
      if Int.land region.pmaAddress constraints.mask = 0 then some region.pmaAddress else none := by
  unfold alignInPmaRegion
  dsimp only
  rw [if_pos hbelow]
  rcases h.roundUp hlimit haligned with ⟨hfirst, hup⟩ | ⟨hfirst, hup⟩
  · rw [hup, if_neg (by omega), if_pos hfirst]
  · have hend := h.below
    rw [if_pos (by omega), if_neg hfirst]

/-- A drawn address is what `random_in_range` returned, so it lies in the range that was asked for. -/
theorem generateAddressInPmaRegion_of_lt (hsize : (constraints.size : ℤ) < region.pmaSize) (rng : RandNum) :
    ∃ address, region.pmaAddress ≤ address ∧ address + constraints.size < region.getEndAddress ∧
      (generateAddressInPmaRegion region constraints rng).1 = alignInPmaRegion region constraints address := by
  have hend : region.getEndAddress = region.pmaAddress + region.pmaSize := rfl
  unfold generateAddressInPmaRegion
  dsimp only
  rw [if_neg (by omega), if_neg (by omega)]
  rcases hdraw : rng.randomInRange region.pmaAddress (region.getEndAddress - constraints.size) with ⟨_ | address, rng'⟩
  · unfold RandNum.randomInRange at hdraw
    rw [if_neg (by omega)] at hdraw
    cases congrArg Prod.fst hdraw
  · have hbounds := RandNum.randomInRange_bounds (congrArg Prod.fst hdraw)
    exact ⟨address, hbounds.1, by omega, rfl⟩

theorem generateAddressInPmaRegion_of_le (hsize : region.pmaSize ≤ (constraints.size : ℤ)) (rng : RandNum) :
    (generateAddressInPmaRegion region constraints rng).1 = none := by
  have hend : region.getEndAddress = region.pmaAddress + region.pmaSize := rfl
  unfold generateAddressInPmaRegion
  dsimp only
  split_ifs
  · rfl
  · rfl
  · omega

/-- Every address that leaves room behind it is drawn by some generator. -/
theorem exists_generateAddressInPmaRegion {address : ℤ} (hlo : region.pmaAddress ≤ address)
    (hhi : address + constraints.size < region.getEndAddress) :
    ∃ rng, (generateAddressInPmaRegion region constraints rng).1 =
      alignInPmaRegion region constraints address := by
  have hend : region.getEndAddress = region.pmaAddress + region.pmaSize := rfl
  have hroom : address < region.getEndAddress - constraints.size := by omega
  obtain ⟨draw, hdraw⟩ := RandNum.exists_randomInRange hlo hroom
  refine ⟨⟨[draw]⟩, ?_⟩
  unfold generateAddressInPmaRegion
  dsimp only
  rw [if_neg (by omega), if_neg (by omega), hdraw []]

/-- The region has no slot, it has one and starts aligned with room to spare, or it starts behind the
first aligned block and has no slot. -/
def Servable (region : PmaInfo) (constraints : AddressConstraint) : Prop :=
  region.pmaSize < constraints.size ∨
    (region.pmaSize = constraints.size ∧ ¬Aligned constraints region.pmaAddress) ∨
    (constraints.size < region.pmaSize ∧
      (Aligned constraints region.pmaAddress ∨
        (Int.land region.pmaAddress constraints.mask ≠ 0 ∧ ¬∃ address, Slot region constraints address)))

/-- The routine does what it should for every draw exactly on such regions: an exact fit is refused, and
from an unaligned start the search for the next aligned address fails. -/
theorem generateAddressInPmaRegion_findsSlot_iff (h : AlignmentMask region constraints k bits) :
    (∀ rng, FindsSlot region constraints (generateAddressInPmaRegion region constraints rng).1) ↔
      Servable region constraints := by
  have hend : region.getEndAddress = region.pmaAddress + region.pmaSize := rfl
  have hbelow := h.below
  constructor
  · intro hfinds
    rcases lt_trichotomy region.pmaSize (constraints.size : ℤ) with hsize | hsize | hsize
    · exact Or.inl hsize
    · refine Or.inr (Or.inl ⟨hsize, fun haligned => ?_⟩)
      have hnone := generateAddressInPmaRegion_of_le hsize.le ⟨[]⟩
      exact (hfinds ⟨[]⟩).none hnone ⟨region.pmaAddress, le_rfl, by omega, haligned⟩
    · refine Or.inr (Or.inr ⟨hsize, ?_⟩)
      by_cases haligned : Aligned constraints region.pmaAddress
      · exact Or.inl haligned
      · right
        have hlimit : region.pmaAddress < 2 ^ bits := by omega
        have hland := h.land_le h.nonneg hlimit
        have hround : Int.land region.pmaAddress constraints.mask < region.pmaAddress :=
          lt_of_le_of_ne hland haligned
        have hroom : region.pmaAddress + constraints.size < region.getEndAddress := by omega
        obtain ⟨rng, hrng⟩ := exists_generateAddressInPmaRegion le_rfl hroom
        have hout := hfinds rng
        rw [hrng, h.alignInPmaRegion_below le_rfl (by omega) hlimit haligned hround] at hout
        by_cases hzero : Int.land region.pmaAddress constraints.mask = 0
        · rw [if_pos hzero] at hout
          exact absurd (hout.slot _ rfl).aligned haligned
        · rw [if_neg hzero] at hout
          exact ⟨hzero, hout.none rfl⟩
  · intro hservable rng
    rcases hservable with hsize | ⟨hsize, haligned⟩ | ⟨hsize, hcase⟩
    · rw [generateAddressInPmaRegion_of_le hsize.le rng]
      refine ⟨fun _ hfound => (nomatch hfound), fun _ => ?_⟩
      rintro ⟨address, hslot⟩
      have := hslot.start
      have := hslot.stop
      omega
    · rw [generateAddressInPmaRegion_of_le hsize.le rng]
      refine ⟨fun _ hfound => (nomatch hfound), fun _ => ?_⟩
      rintro ⟨address, hslot⟩
      have hstart := hslot.start
      have hstop := hslot.stop
      obtain rfl : address = region.pmaAddress := by omega
      exact haligned hslot.aligned
    · obtain ⟨address, hlo, hhi, hout⟩ := generateAddressInPmaRegion_of_lt hsize rng
      have hlimit : address < 2 ^ bits := by omega
      rw [hout]
      by_cases hround : region.pmaAddress ≤ Int.land address constraints.mask
      · obtain ⟨found, hfound, hslot⟩ := h.alignInPmaRegion_slot hlo (by omega) hlimit hround
        rw [hfound]
        exact ⟨fun other hother => Option.some.inj hother ▸ hslot, fun hnone => (nomatch hnone)⟩
      · rcases hcase with haligned | ⟨hzero, hslots⟩
        · exact absurd (h.le_land h.nonneg hlo hlimit haligned) hround
        · have haligned : ¬Aligned constraints region.pmaAddress := by
            intro haligned
            exact hround (h.le_land h.nonneg hlo hlimit haligned)
          rw [h.alignInPmaRegion_below hlo (by omega) (by omega) haligned (not_le.mp hround), if_neg hzero]
          exact ⟨fun _ hfound => (nomatch hfound), fun _ => hslots⟩

/-- A region of sixteen pages serves a request for a page. -/
theorem generateAddressInPmaRegion_findsSlot_pages :
    FindsSlot { pmaAddress := 0x80000000, pmaSize := 0x10000 } {}
      (generateAddressInPmaRegion { pmaAddress := 0x80000000, pmaSize := 0x10000 } {} ⟨[0x1234]⟩).1 := by
  have hmask : AlignmentMask { pmaAddress := 0x80000000, pmaSize := 0x10000 } {} 12 64 :=
    ⟨by decide, by decide, by decide, by decide⟩
  exact (generateAddressInPmaRegion_findsSlot_iff hmask).mpr
    (Or.inr (Or.inr ⟨by decide, Or.inl (by decide +kernel)⟩)) ⟨[0x1234]⟩

/-- A region of one page does not serve a request for a page. -/
theorem not_findsSlot_exactFit :
    ¬∀ (region : PmaInfo) (constraints : AddressConstraint) (k bits : ℕ),
      AlignmentMask region constraints k bits →
        ∀ rng, FindsSlot region constraints (generateAddressInPmaRegion region constraints rng).1 := by
  intro h
  have hfinds := h { pmaAddress := 0x80000000, pmaSize := 0x1000 } {} 12 64
    ⟨by decide, by decide, by decide, by decide⟩ ⟨[]⟩
  exact hfinds.none (by decide) ⟨0x80000000, by decide, by decide, by decide +kernel⟩

end Riescue.Pma
