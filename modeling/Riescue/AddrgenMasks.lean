import Riescue.AddrgenAtomic

/-! The masks of a constraint. A random address gets the bits of `or_mask`, an address next to an allocated range
does not. -/

namespace Riescue.Addrgen
open Spans AddressCluster

/-- An integer is determined by its bits. -/
theorem eq_of_testBit_eq {a b : ℤ} (h : ∀ n, a.testBit n = b.testBit n) : a = b := by
  have hhigh : ∀ m : ℕ, m.testBit m = false := fun m => Nat.testBit_lt_two_pow Nat.lt_two_pow_self
  have hmax : ∀ m k : ℕ, m.testBit (max m k) = false := fun m k =>
    Nat.testBit_lt_two_pow (Nat.lt_two_pow_self.trans_le (Nat.pow_le_pow_right two_pos (le_max_left m k)))
  have hmax' : ∀ m k : ℕ, k.testBit (max m k) = false := fun m k => max_comm k m ▸ hmax k m
  cases a with
  | ofNat m =>
      cases b with
      | ofNat k => exact congrArg Int.ofNat (Nat.eq_of_testBit_eq h)
      | negSucc k =>
          have hbit := h (max m k)
          simp [Int.testBit, hmax, hmax'] at hbit
  | negSucc m =>
      cases b with
      | ofNat k =>
          have hbit := h (max m k)
          simp [Int.testBit, hmax, hmax'] at hbit
      | negSucc k =>
          refine congrArg Int.negSucc (Nat.eq_of_testBit_eq fun n => ?_)
          have hbit := h n
          simpa [Int.testBit] using hbit

/-- The address has the bits of `or_mask`, and no others than those of the two masks. -/
structure ObeysMasks (constraint : AddressConstraint) (a : ℤ) : Prop where
  orMask : Int.land a constraint.orMask = constraint.orMask
  mask : Int.land a (Int.lnot (Int.lor constraint.mask constraint.orMask)) = 0

theorem testBit_zero_int (n : ℕ) : (0 : ℤ).testBit n = false := Nat.zero_testBit n

theorem obeysMasks_anywhere (constraint : AddressConstraint) (address : ℤ) :
    ObeysMasks constraint (Int.lor (Int.land address constraint.mask) constraint.orMask) := by
  constructor <;> refine eq_of_testBit_eq fun n => ?_
  all_goals
    simp only [Int.testBit_land, Int.testBit_lor, Int.testBit_lnot, testBit_zero_int]
    cases Int.testBit address n <;> cases Int.testBit constraint.mask n <;> cases Int.testBit constraint.orMask n <;> rfl

/-- Masking alone keeps an address within the masks. -/
theorem land_mask_within (constraint : AddressConstraint) (address : ℤ) :
    Int.land (Int.land address constraint.mask) (Int.lnot (Int.lor constraint.mask constraint.orMask)) = 0 := by
  refine eq_of_testBit_eq fun n => ?_
  simp only [Int.testBit_land, Int.testBit_lor, Int.testBit_lnot, testBit_zero_int]
  cases Int.testBit address n <;> cases Int.testBit constraint.mask n <;> cases Int.testBit constraint.orMask n <;> rfl

namespace AddressSpace
variable {space : AddressSpace} {constraint : AddressConstraint}

/-- Whatever the random choices, an address that the space returns obeys the masks. -/
def MasksObeyed (space : AddressSpace) (constraint : AddressConstraint) : Prop :=
  ∀ rng a, (space.generateAddress constraint rng).1 = .ok a → ObeysMasks constraint a

/-- In no candidate cluster the request fits next to an allocated range at an address that lacks a bit of
`or_mask`. -/
def NearHasOrMask (space : AddressSpace) (constraint : AddressConstraint) : Prop :=
  ∀ constraint' clusters, ∀ i : Fin 64, ∀ uclusters a, Completion space constraint constraint' →
    space.candidates constraint' = .ok clusters → i.val ∈ clusters →
    (space.clusters i).findUcluster constraint' = .ok uclusters →
    Fits constraint' uclusters a → (space.clusters i).Near constraint' a →
    Int.land a constraint.orMask = constraint.orMask

/-- The masks are obeyed exactly when the placement next to an allocated range cannot miss `or_mask`. -/
theorem masksObeyed_iff (hvalid : constraint.validateConstraints = .ok ()) :
    MasksObeyed space constraint ↔ NearHasOrMask space constraint := by
  have hsize := (validateConstraints_ok hvalid).1
  constructor
  · intro hobeyed constraint' clusters i uclusters a hcompletion hclusters hi hfind hfits hnear
    obtain ⟨rng, hresult⟩ := (serves_iff hsize).mp
      ⟨constraint', clusters, i, uclusters, hcompletion, hclusters, hi, hfind, hfits, .inr hnear⟩
    exact (hobeyed rng a hresult).orMask
  · intro hnear rng a hresult
    obtain ⟨constraint', clusters, i, uclusters, hcompletion, hclusters, hi, hfind, hfits, hplaced⟩ :=
      (serves_iff hsize).mpr ⟨rng, hresult⟩
    rcases hplaced with ⟨u, _, address, _, _, rfl⟩ | hplaced
    · obtain ⟨_, rfl⟩ := hcompletion.fields
      exact obeysMasks_anywhere constraint address
    · refine ⟨hnear constraint' clusters i uclusters a hcompletion hclusters hi hfind hfits hplaced, ?_⟩
      obtain ⟨⟨entry, _, rfl | rfl⟩, _⟩ := hplaced
      all_goals
        obtain ⟨_, rfl⟩ := hcompletion.fields
        exact land_mask_within constraint _

/-- A page of DRAM whose first 256 bytes are reserved. -/
def reservedPage : AddressSpace :=
  ((AddressSpace.init.defineSegment .addressDram 0x1000 0x1fff).2.reserveMemory 0x1000 0x10ff false).2

theorem reservedPage_reachable :
    Reachable [.reserved 0x1000 0x10ff, .segment .addressDram 0x1000 0x1fff] reservedPage :=
  (Reachable.fresh.defineSegment .addressDram 0x1000 0x1fff).reserveMemory 0x1000 0x10ff false

/-- A request of 256 bytes with bit 11 set. -/
def bitElevenSet : AddressConstraint :=
  { type := .physical, size := 0x100, mask := 0xFFFFFFFFFFFFFF00, orMask := 0x800, qualifiers := [.addressDram] }

/-- A page of DRAM, all of it free. -/
def freePage : AddressSpace := (AddressSpace.init.defineSegment .addressDram 0x1000 0x1fff).2

/-- Nothing is allocated, so no request is placed next to an allocated range. -/
theorem masksObeyed_freePage :
    (freePage.generateAddress bitElevenSet ⟨[]⟩).1 = .ok 0x1800 ∧ MasksObeyed freePage bitElevenSet := by
  have hspans : ∀ i : Fin 64, (freePage.clusters i).allocatedAddresses.spans = [] := by decide +kernel
  refine ⟨by decide +kernel, (masksObeyed_iff rfl).mpr fun _ _ i _ _ _ _ _ _ _ hnear => ?_⟩
  obtain ⟨⟨entry, hentry, _⟩, _⟩ := hnear
  rw [SpanSet.mem_iff, hspans i] at hentry
  exact absurd hentry List.not_mem_nil

/-- Right behind the reserved bytes the request is placed at an address without bit 11. -/
theorem not_masksObeyed_reservedPage :
    (∃ history, Reachable history reservedPage) ∧ bitElevenSet.validateConstraints = .ok () ∧
      ¬MasksObeyed reservedPage bitElevenSet := by
  refine ⟨⟨_, reservedPage_reachable⟩, rfl, fun hobeyed => ?_⟩
  have hresult : (reservedPage.generateAddress bitElevenSet ⟨[0, 90, 0, 0, 50]⟩).1 = .ok 0x1100 := by decide +kernel
  have hmissing : ¬Int.land 0x1100 bitElevenSet.orMask = bitElevenSet.orMask := by decide +kernel
  exact hmissing (hobeyed _ _ hresult).orMask

end AddressSpace
end Riescue.Addrgen
