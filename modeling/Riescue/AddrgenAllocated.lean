import Riescue.AddrgenReserved
import Riescue.LibExcept

/-! What a successful call of the address generator allocates in its two address spaces. -/

namespace Riescue.Addrgen
open Fallible

/-- Only bytes of clusters are allocated. -/
theorem Allocated.nonneg {history : List Event} {space : AddressSpace} (h : Reachable history space) {b : ℤ}
    (hallocated : Allocated space b) : 0 ≤ b := by
  obtain ⟨i, hcovered⟩ := hallocated
  obtain ⟨n, rfl, -⟩ := (((h.inv i).allocated b).mp hcovered).1.exists_nat
  exact Int.natCast_nonneg n

theorem Grows.allocated {history : List Event} {space space' : AddressSpace} (h : Reachable history space)
    (hgrows : Grows space space') {b : ℤ} (hb : 0 ≤ b) (hallocated : Allocated space b) : Allocated space' b := by
  obtain ⟨later, hlater, _⟩ := hgrows.reachable h
  exact (allocated_iff hlater hb).mpr (((allocated_iff h hb).mp hallocated).append later)

theorem allocated_reserveMemory {history : List Event} {space : AddressSpace} (h : Reachable history space)
    {start stop : ℕ} {interestingAddress : Bool} (hle : start ≤ stop)
    (hok : (space.reserveMemory start stop interestingAddress).1 = .ok ()) {b : ℤ} (hb : 0 ≤ b) :
    Allocated (space.reserveMemory start stop interestingAddress).2 b ↔
      ((start : ℤ) ≤ b ∧ b ≤ stop) ∨ Allocated space b := by
  rw [allocated_iff (h.reserveMemory start stop interestingAddress) hb, allocated_iff h hb, taken_cons]
  have hlt := reserveMemory_lt hle hok
  refine or_congr_left ⟨fun htakes => ⟨htakes.1, htakes.2.1⟩, fun htakes => ⟨htakes.1, htakes.2, ?_⟩⟩
  omega

theorem allocated_generateAddress {history : List Event} {space : AddressSpace} (h : Reachable history space)
    {constraint : AddressConstraint} (hallocate : constraint.dontAllocate = false) {rng : RandNum} {a : ℤ}
    (ha : (space.generateAddress constraint rng).1 = .ok a) {b : ℤ} (hb : 0 ≤ b) :
    Allocated (space.generateAddress constraint rng).2.1 b ↔
      (a ≤ b ∧ b ≤ a + constraint.size - 1) ∨ Allocated space b := by
  have hreach := h.generateAddress constraint rng
  rw [ha] at hreach
  rw [allocated_iff hreach hb, allocated_iff h hb, taken_cons]
  exact or_congr_left ⟨fun htakes => htakes.2, fun htakes => ⟨hallocate, htakes⟩⟩

namespace AddrGen
variable {gen gen' : AddrGen} {start size : ℕ}

theorem Steps.allocated (h : Traced gen) (hsteps : Steps gen gen') {b : ℤ} (hb : 0 ≤ b) :
    (Allocated gen.linearAddrSpace b → Allocated gen'.linearAddrSpace b) ∧
      (Allocated gen.physicalAddrSpace b → Allocated gen'.physicalAddrSpace b) := by
  obtain ⟨_, hlinear⟩ := h.linear
  obtain ⟨_, hphysical⟩ := h.physical
  exact ⟨hsteps.linear.allocated hlinear.reachable hb, hsteps.physical.allocated hphysical hb⟩

theorem reserveMemory_linear (h : Traced gen) (hsize : 0 < size)
    (hok : gen.reserveMemory .linear start size false = (.ok (), gen')) :
    gen'.physicalAddrSpace = gen.physicalAddrSpace ∧ ∀ b : ℤ, 0 ≤ b →
      (Allocated gen'.linearAddrSpace b ↔ ((start : ℤ) ≤ b ∧ b < start + size) ∨ Allocated gen.linearAddrSpace b) := by
  obtain ⟨history, htrace⟩ := h.linear
  unfold reserveMemory reserveLinear at hok
  dsimp only at hok
  rw [if_neg (by omega)] at hok
  obtain ⟨hresult, rfl⟩ := Prod.mk.inj hok
  refine ⟨rfl, fun b hb => ?_⟩
  refine (allocated_reserveMemory htrace.reachable (by omega) (mapError_ok hresult) hb).trans (or_congr_left ?_)
  omega

theorem reserveMemory_physical (h : Traced gen) (hsize : 0 < size)
    (hok : gen.reserveMemory .physical start size false = (.ok (), gen')) :
    gen'.linearAddrSpace = gen.linearAddrSpace ∧ ∀ b : ℤ, 0 ≤ b →
      (Allocated gen'.physicalAddrSpace b ↔
        ((start : ℤ) ≤ b ∧ b < start + size) ∨ Allocated gen.physicalAddrSpace b) := by
  obtain ⟨history, hreach⟩ := h.physical
  unfold reserveMemory reservePhysical at hok
  dsimp only at hok
  rw [if_neg (by omega)] at hok
  obtain ⟨hresult, rfl⟩ := Prod.mk.inj hok
  refine ⟨rfl, fun b hb => ?_⟩
  refine (allocated_reserveMemory hreach (by omega) (mapError_ok hresult) hb).trans (or_congr_left ?_)
  omega

/-- A successful call hands out what the space of the type hands out. -/
theorem generateAddress_ok {constraint : AddressConstraint} {rng rng' : RandNum} {a : ℤ}
    (hok : gen.generateAddress constraint none rng = (.ok a, gen', rng')) :
    constraint.validateConstraints = .ok () ∧ ∃ middle, gen.generateFor constraint rng = (.ok a, middle, rng') ∧
      gen'.linearAddrSpace = middle.linearAddrSpace ∧ gen'.physicalAddrSpace = middle.physicalAddrSpace := by
  unfold generateAddress resolveCustomRegion at hok
  dsimp only at hok
  cases hvalid : constraint.validateConstraints with
  | error fault =>
      rw [hvalid] at hok
      cases hok
  | ok _ =>
      rw [hvalid] at hok
      obtain ⟨result, middle, rng'', hgenerated⟩ : ∃ result middle rng'',
        gen.generateFor constraint rng = (result, middle, rng'') :=
        ⟨_, _, _, rfl⟩
      rw [hgenerated] at hok
      cases result with
      | error fault => cases hok
      | ok address =>
          obtain ⟨hlinear, hphysical⟩ := restrict_spaces middle constraint address
          obtain ⟨hresult, hrest⟩ := Prod.mk.inj hok
          obtain ⟨rfl, rfl⟩ := Prod.mk.inj hrest
          have haddress : address = a := by
            unfold restrict at hresult
            split_ifs at hresult
            all_goals exact Except.ok.inj hresult
          exact ⟨rfl, middle, haddress ▸ hgenerated, hlinear, hphysical⟩

/-- What a linear request gets: a free range below the top of its bits, and nothing else changes. -/
theorem generateAddress_linear (h : Traced gen) {constraint : AddressConstraint} (htype : constraint.type = .linear)
    (hallocate : constraint.dontAllocate = false) {rng rng' : RandNum} {a : ℤ}
    (hok : gen.generateAddress constraint none rng = (.ok a, gen', rng')) :
    0 < constraint.size ∧ 0 ≤ a ∧ a + constraint.size - 1 < 2 ^ constraint.bits ∧
      gen'.physicalAddrSpace = gen.physicalAddrSpace ∧
      (∀ b, a ≤ b → b < a + constraint.size → ¬Allocated gen.linearAddrSpace b) ∧
      ∀ b : ℤ, 0 ≤ b → (Allocated gen'.linearAddrSpace b ↔
        (a ≤ b ∧ b < a + constraint.size) ∨ Allocated gen.linearAddrSpace b) := by
  obtain ⟨history, htrace⟩ := h.linear
  obtain ⟨hvalid, middle, hfor, hlinear, hphysical⟩ := generateAddress_ok hok
  obtain ⟨hsize, _⟩ := validateConstraints_ok hvalid
  unfold generateFor at hfor
  rw [htype] at hfor
  obtain ⟨hresult, hrest⟩ := Prod.mk.inj hfor
  obtain ⟨rfl, _⟩ := Prod.mk.inj hrest
  have hpicked := mapError_ok hresult
  obtain ⟨hnonneg, _, hfree⟩ := linear_picked htrace hpicked
  have hreach := htrace.reachable.generateAddress constraint rng
  rw [hpicked] at hreach
  have hpromised := hreach.promised (List.nil_append _).symm
  refine ⟨hsize, hnonneg, hpromised.top, hphysical, fun b hlo hhi hallocated => ?_, fun b hb => ?_⟩
  · exact hfree b hlo (by omega) ((allocated_iff htrace.reachable (hnonneg.trans hlo)).mp hallocated)
  · rw [hlinear]
    refine (allocated_generateAddress htrace.reachable hallocate hpicked hb).trans (or_congr_left ?_)
    omega

/-- What a physical request with a qualifier gets: a free range below the top of its bits, and nothing else
changes. -/
theorem generateAddress_physical_free (h : Traced gen) {constraint : AddressConstraint}
    (htype : constraint.type = .physical) (hallocate : constraint.dontAllocate = false)
    (hqualifiers : constraint.qualifiers ≠ []) {rng rng' : RandNum} {a : ℤ}
    (hok : gen.generateAddress constraint none rng = (.ok a, gen', rng')) :
    0 < constraint.size ∧ 0 ≤ a ∧ a + constraint.size - 1 < 2 ^ constraint.bits ∧
      gen'.linearAddrSpace = gen.linearAddrSpace ∧
      (∀ b, a ≤ b → b < a + constraint.size → ¬Allocated gen.physicalAddrSpace b) ∧
      ∀ b : ℤ, 0 ≤ b → (Allocated gen'.physicalAddrSpace b ↔
        (a ≤ b ∧ b < a + constraint.size) ∨ Allocated gen.physicalAddrSpace b) := by
  obtain ⟨history, hbefore⟩ := h.physical
  obtain ⟨hvalid, middle, hfor, hlinear, hphysical⟩ := generateAddress_ok hok
  obtain ⟨hsize, _⟩ := validateConstraints_ok hvalid
  unfold generateFor at hfor
  rw [htype] at hfor
  obtain ⟨hresult, hrest⟩ := Prod.mk.inj hfor
  obtain ⟨rfl, _⟩ := Prod.mk.inj hrest
  have hpicked := mapError_ok hresult
  have hreach := hbefore.generateAddress constraint rng
  rw [hpicked] at hreach
  have hpromised := hreach.promised (List.nil_append _).symm
  obtain ⟨q, hq⟩ := List.exists_mem_of_ne_nil _ hqualifiers
  obtain ⟨start, stop, _, hstart, _⟩ := hpromised.segment q hq
  have hnonneg : 0 ≤ a := (Int.natCast_nonneg start).trans hstart
  refine ⟨hsize, hnonneg, hpromised.top, hlinear, fun b hlo hhi hallocated => ?_, fun b hb => ?_⟩
  · exact hpromised.free b hlo (by omega) ((allocated_iff hbefore (hnonneg.trans hlo)).mp hallocated)
  · rw [hphysical]
    refine (allocated_generateAddress hbefore hallocate hpicked hb).trans (or_congr_left ?_)
    omega

theorem generateAddress_physical (h : Traced gen) {constraint : AddressConstraint}
    (htype : constraint.type = .physical) (hallocate : constraint.dontAllocate = false)
    (hqualifiers : constraint.qualifiers ≠ []) {rng rng' : RandNum} {a : ℤ}
    (hok : gen.generateAddress constraint none rng = (.ok a, gen', rng')) :
    0 < constraint.size ∧ 0 ≤ a ∧ gen'.linearAddrSpace = gen.linearAddrSpace ∧
      ∀ b : ℤ, 0 ≤ b → (Allocated gen'.physicalAddrSpace b ↔
        (a ≤ b ∧ b < a + constraint.size) ∨ Allocated gen.physicalAddrSpace b) := by
  obtain ⟨hsize, hnonneg, -, hlinear, -, hallocated⟩ :=
    generateAddress_physical_free h htype hallocate hqualifiers hok
  exact ⟨hsize, hnonneg, hlinear, hallocated⟩

/-- A named custom region only changes the bounds and the qualifier. -/
theorem generateAddress_resolved {constraint : AddressConstraint} {customRegion : Option String}
    {rng rng' : RandNum} {a : ℤ} (hok : gen.generateAddress constraint customRegion rng = (.ok a, gen', rng')) :
    ∃ start stop qualifiers, (qualifiers = constraint.qualifiers ∨ qualifiers = [.addressCustom]) ∧
      gen.generateAddress { constraint with start := start, stop := stop, qualifiers := qualifiers } none rng =
        (.ok a, gen', rng') := by
  cases customRegion with
  | none => exact ⟨_, _, _, .inl rfl, hok⟩
  | some name =>
      unfold generateAddress resolveCustomRegion at hok
      dsimp only at hok
      cases hregion : OrderedDict.get? gen.customRegions name with
      | none =>
          rw [hregion] at hok
          cases hok
      | some bounds =>
          rw [hregion] at hok
          exact ⟨bounds.1, bounds.2, [.addressCustom], .inr rfl, hok⟩

end AddrGen
end Riescue.Addrgen
