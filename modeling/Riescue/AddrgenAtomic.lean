import Riescue.AddrgenRuns

/-! Whether a call of `AddrGen.generate_address` that raises has left the address spaces alone. The restrictions
on a linear address are checked after the address has been allocated, and `_generate_and_reserve_memory` tests
for an overlap with what its own call to the linear space has just allocated. -/

namespace Riescue.Addrgen
open Spans AddressCluster

/-! ### Allocated bytes -/

/-- Some cluster of the space has the byte in an allocated range. -/
def Allocated (space : AddressSpace) (b : ℤ) : Prop := ∃ i, b ∈ (space.clusters i).allocatedAddresses.covered

theorem allocated_iff {history : List Event} {space : AddressSpace} (h : Reachable history space) {b : ℤ}
    (hb : 0 ≤ b) : Allocated space b ↔ Taken history b := by
  constructor
  · rintro ⟨i, hcovered⟩
    exact (((h.inv i).allocated b).mp hcovered).2
  · intro htaken
    obtain ⟨n, rfl⟩ := Int.eq_ofNat_of_zero_le hb
    have hlt := addressToCluster_lt (n := 63) (by exact_mod_cast h.taken_lt htaken : n < 2 ^ 64)
    exact ⟨⟨_, hlt⟩, ((h.inv ⟨_, hlt⟩).allocated n).mpr ⟨inCluster_addressToCluster n, htaken⟩⟩

/-- The allocated ranges and the counters of every cluster are the same. -/
def SameRanges (space space' : AddressSpace) : Prop :=
  ∀ i, (space'.clusters i).allocatedAddresses = (space.clusters i).allocatedAddresses ∧
    (space'.clusters i).availableMemory = (space.clusters i).availableMemory ∧
    (space'.clusters i).qualifierSize = (space.clusters i).qualifierSize

theorem SameRanges.refl (space : AddressSpace) : SameRanges space space := fun _ => ⟨rfl, rfl, rfl⟩

theorem SameRanges.trans {a b c : AddressSpace} (hab : SameRanges a b) (hbc : SameRanges b c) : SameRanges a c := by
  intro i
  obtain ⟨hallocated, havailable, hqualifier⟩ := hab i
  obtain ⟨hallocated', havailable', hqualifier'⟩ := hbc i
  exact ⟨hallocated'.trans hallocated, havailable'.trans havailable, hqualifier'.trans hqualifier⟩

theorem SameMemory.sameRanges {space space' : AddressSpace} (h : SameMemory space space') :
    SameRanges space space' := by
  intro i
  obtain ⟨_, _, heq⟩ := h i
  rw [heq]
  exact ⟨rfl, rfl, rfl⟩

theorem SameRanges.allocated {space space' : AddressSpace} (h : SameRanges space space') {b : ℤ} :
    Allocated space' b ↔ Allocated space b := by
  unfold Allocated
  simp only [(h _).1]

/-- A call that allocates nothing, or raises, leaves the ranges and counters of its space alone. -/
theorem generateAddress_sameRanges {space : AddressSpace} {constraint : AddressConstraint} {rng : RandNum}
    (h : constraint.dontAllocate = true ∨ ∃ fault, (space.generateAddress constraint rng).1 = .error fault) :
    SameRanges space (space.generateAddress constraint rng).2.1 := by
  obtain ⟨herror, hok⟩ := generateAddress_outcome space constraint rng
  cases hresult : (space.generateAddress constraint rng).1 with
  | error fault => exact (herror fault hresult).sameRanges
  | ok a =>
      have hdont : constraint.dontAllocate = true := by
        rcases h with hdont | ⟨fault, hfault⟩
        · exact hdont
        · rw [hresult] at hfault
          cases hfault
      obtain ⟨constraint', clusters, i, hcompletion, _, _, hrecorded⟩ := hok a hresult
      obtain ⟨_, rfl⟩ := hcompletion.fields
      obtain ⟨drawn, hdrawn, hrecord⟩ := hrecorded.recorded
      rw [AddressCluster.record, if_pos hdont] at hrecord
      have hsame : SameMemory space (space.generateAddress constraint rng).2.1 := by
        intro j
        by_cases hj : j = i
        · subst hj
          have hkept : drawn = (space.generateAddress constraint rng).2.1.clusters j := congrArg Prod.snd hrecord
          exact hkept ▸ hdrawn
        · exact hrecorded.others j hj
      exact hsame.sameRanges

namespace AddrGen
variable {gen : AddrGen} {constraint : AddressConstraint} {history : List Event} {space : AddressSpace} {a : ℤ}

/-- What the linear space picks lies in its segment and was not taken. -/
theorem linear_picked (h : LinearTrace history space) {rng : RandNum}
    (ha : (space.generateAddress constraint rng).1 = .ok a) :
    0 ≤ a ∧ a + constraint.size ≤ 2 ^ 57 ∧ ∀ b, a ≤ b → b ≤ a + constraint.size - 1 → ¬Taken history b := by
  obtain ⟨constraint', clusters, i, hcompletion, hclusters, hi, hrecorded⟩ :=
    (generateAddress_outcome space constraint rng).2 a ha
  obtain ⟨uclusters, hfind, hfits, _⟩ := hrecorded.found
  have hbits := possibleClusters_lt (AddressSpace.candidates_possible hclusters hi)
  obtain ⟨hpromised, hcluster⟩ := promised_of_fits (h.reachable.inv i) hfind hfits hbits
  obtain ⟨q, hq⟩ := qualifiers_ne_nil hfind
  obtain ⟨start, stop, hsegment, hstart, hstop⟩ := hpromised.segment q hq
  obtain ⟨_, rfl⟩ := hcompletion.fields
  have hlast := h.segments q start stop hsegment
  have hfree := hpromised.free
  dsimp only at hstop hfree
  refine ⟨by omega, ?_, hfree⟩
  have hcast : (stop : ℤ) = 2 ^ 57 - 1 := by
    rw [hlast]
    norm_num
  omega

/-- The picked range is allocated afterwards. -/
theorem linear_taken (hallocate : constraint.dontAllocate = false) (hsize : 0 < constraint.size) :
    Taken (.generated constraint (.ok a) :: history) a :=
  taken_cons.mpr (.inl ⟨hallocate, le_rfl, by omega⟩)

/-- A space in which a free byte has been taken since does not have the same ranges. -/
theorem not_sameRanges {later : List Event} {space' : AddressSpace} (h : Addrgen.Reachable history space)
    (h' : Addrgen.Reachable later space') (ha : 0 ≤ a) (hfree : ¬Taken history a) (htaken : Taken later a) :
    ¬SameRanges space space' := by
  intro hsame
  have hallocated := (allocated_iff h' ha).mpr htaken
  exact hfree ((allocated_iff h ha).mp (hsame.allocated.mp hallocated))

/-! ### Testing for an overlap -/

theorem checkOverlap_total {space : AddressSpace} {start stop : ℕ} (hstop : stop < 2 ^ 64) :
    ∃ overlaps, space.checkOverlap start stop = .ok overlaps := by
  have hindices : ∀ i ∈ AddressSpace.clusterRange (AddressSpace.addressToCluster start)
      (AddressSpace.addressToCluster stop), i < 64 := by
    intro i hi
    have hupper := (pieces_clusterRange start stop).upper i hi
    have hlt := addressToCluster_lt (n := 63) hstop
    omega
  unfold AddressSpace.checkOverlap
  generalize AddressSpace.clusterRange _ _ = indices at hindices
  induction indices with
  | nil => exact ⟨false, rfl⟩
  | cons i rest ih =>
      rw [AddressSpace.checkOverlapLoop, cluster_of_lt space (hindices i List.mem_cons_self)]
      dsimp only
      split_ifs
      · exact ⟨true, rfl⟩
      · exact ih fun j hj => hindices j (List.mem_cons_of_mem i hj)

theorem generateLinear_ok {rng : RandNum} (ha : (gen.generateLinear constraint rng).1 = .ok a) :
    (gen.linearAddrSpace.generateAddress constraint rng).1 = .ok a := by
  cases hresult : (gen.linearAddrSpace.generateAddress constraint rng).1 with
  | error inner =>
      simp only [generateLinear, hresult, Except.mapError] at ha
      cases ha
  | ok b =>
      simp only [generateLinear, hresult, Except.mapError] at ha
      rw [Except.ok.inj ha]

/-- Right behind the call that has allocated the range, the linear space is not free there. -/
theorem bothFree_after_pick (h : Traced gen) (hsize : 0 < constraint.size)
    (hallocate : constraint.dontAllocate = false) {rng : RandNum}
    (ha : (gen.linearAddrSpace.generateAddress constraint rng).1 = .ok a) :
    (gen.generateLinear constraint rng).2.1.bothFree a constraint.size = .ok false := by
  obtain ⟨history, htrace⟩ := h.linear
  obtain ⟨hnonneg, hupper, _⟩ := linear_picked htrace ha
  have hreach := htrace.reachable.generateAddress constraint rng
  rw [ha] at hreach
  have hstop : a.toNat + constraint.size < 2 ^ 64 := by
    have hcast := Int.toNat_of_nonneg hnonneg
    omega
  obtain ⟨physical, hphysical⟩ : ∃ overlaps,
      gen.physicalAddrSpace.checkOverlap a.toNat (a.toNat + constraint.size) = .ok overlaps := checkOverlap_total hstop
  have hlinear : (gen.linearAddrSpace.generateAddress constraint rng).2.1.checkOverlap a.toNat
      (a.toNat + constraint.size) = .ok true := by
    refine (checkOverlap_iff hreach _ _).mpr ⟨a, linear_taken hallocate hsize, ?_, ?_⟩
    · rw [Int.toNat_of_nonneg hnonneg]
    · push_cast
      rw [Int.toNat_of_nonneg hnonneg]
      omega
  simp only [bothFree, generateLinear, hphysical, hlinear]
  cases physical <;> rfl

/-! ### The exceptions of the generator -/

end AddrGen

/-- The exceptions that are an `AddrGenError`. -/
def GenerateFault.isAddrGenError : GenerateFault → Bool
  | .customRegionNotFound _ _ | .invalidConstraint _ | .restricted _ | .noPhysicalAddress => true
  | .addressSpace fault => fault.isAddrGenError
  | .unknownAddressType => false

/-- A valid constraint has a size and ordered bounds. -/
theorem validateConstraints_ok {constraint : AddressConstraint} (h : constraint.validateConstraints = .ok ()) :
    0 < constraint.size ∧ constraint.start ≤ constraint.stop := by
  unfold AddressConstraint.validateConstraints at h
  split_ifs at h
  omega

namespace AddrGen
variable {gen : AddrGen} {constraint : AddressConstraint} {history : List Event} {space : AddressSpace} {a : ℤ}

theorem generateLinear_fault (h : Traced gen) (hvalid : constraint.validateConstraints = .ok ()) {rng : RandNum}
    {fault : GenerateFault} (hfault : (gen.generateLinear constraint rng).1 = .error fault) :
    fault.isAddrGenError = true := by
  obtain ⟨hsize, hbounds⟩ := validateConstraints_ok hvalid
  obtain ⟨_, htrace⟩ := h.linear
  cases hresult : (gen.linearAddrSpace.generateAddress constraint rng).1 with
  | error inner =>
      simp only [generateLinear, hresult, Except.mapError] at hfault
      obtain rfl := Except.error.inj hfault
      exact generateAddress_fault htrace.keys hbounds hsize hresult
  | ok a =>
      simp only [generateLinear, hresult, Except.mapError] at hfault
      cases hfault

/-- With allocation `_generate_and_reserve_memory` never succeeds. -/
theorem generateAndReserveMemory_raises (h : Traced gen) (hvalid : constraint.validateConstraints = .ok ())
    (hallocate : constraint.dontAllocate = false) (tries : ℕ) (rng : RandNum) :
    ∃ fault, (generateAndReserveMemory constraint tries gen rng).1 = .error fault ∧ fault.isAddrGenError = true := by
  induction tries generalizing gen rng with
  | zero => exact ⟨_, rfl, rfl⟩
  | succ tries ih =>
      have hsteps := h.steps (generateLinear_steps gen constraint rng)
      have hfaults : ∀ fault, (gen.generateLinear constraint rng).1 = .error fault → fault.isAddrGenError = true :=
        fun _ => generateLinear_fault h hvalid
      have hpick : ∀ a, (gen.generateLinear constraint rng).1 = .ok a →
          (gen.generateLinear constraint rng).2.1.bothFree a constraint.size = .ok false := by
        intro a ha
        exact bothFree_after_pick h (validateConstraints_ok hvalid).1 hallocate (generateLinear_ok ha)
      rw [generateAndReserveMemory]
      generalize gen.generateLinear constraint rng = drawn at hsteps hfaults hpick
      obtain ⟨fault | a, middle, rng⟩ := drawn
      · exact ⟨fault, rfl, hfaults fault rfl⟩
      · have hoverlap : middle.bothFree a constraint.size = .ok false := hpick a rfl
        simp only [hoverlap]
        exact ih hsteps rng

/-! ### Atomicity -/

/-- Both spaces have kept their ranges and counters. -/
structure Kept (gen gen' : AddrGen) : Prop where
  linear : SameRanges gen.linearAddrSpace gen'.linearAddrSpace
  physical : SameRanges gen.physicalAddrSpace gen'.physicalAddrSpace

theorem Kept.refl (gen : AddrGen) : Kept gen gen := ⟨.refl _, .refl _⟩

theorem Kept.trans {a b c : AddrGen} (hab : Kept a b) (hbc : Kept b c) : Kept a c :=
  ⟨hab.linear.trans hbc.linear, hab.physical.trans hbc.physical⟩

theorem Kept.restrict {gen gen' : AddrGen} (h : Kept gen gen') (constraint : AddressConstraint) (address : ℤ) :
    Kept gen (gen'.restrict constraint address).2 := by
  obtain ⟨hlinear, hphysical⟩ := restrict_spaces gen' constraint address
  exact ⟨hlinear ▸ h.linear, hphysical ▸ h.physical⟩

/-- A call that raises `AddrGenError` leaves both spaces as they were, whatever the random choices. -/
def Atomic (gen : AddrGen) (constraint : AddressConstraint) (customRegion : Option String) : Prop :=
  ∀ rng fault, (gen.generateAddress constraint customRegion rng).1 = .error fault → fault.isAddrGenError = true →
    Kept gen (gen.generateAddress constraint customRegion rng).2.1

/-- No failure comes after an allocation: with allocation, a linear request can get no restricted address, and a
request for both spaces can get no address of the linear space at all. -/
def FailsFirst (gen : AddrGen) (constraint : AddressConstraint) (customRegion : Option String) : Prop :=
  ∀ resolved, gen.resolveCustomRegion constraint customRegion = .ok resolved →
    resolved.validateConstraints = .ok () → resolved.dontAllocate = false →
    (resolved.type = .linear → ∀ a, Serves gen.linearAddrSpace resolved a →
      gen.checkLinearAddrRestrictions a = false) ∧
    (resolved.type = .memory → ∀ a, ¬Serves gen.linearAddrSpace resolved a)

theorem generateLinear_kept {rng : RandNum}
    (h : constraint.dontAllocate = true ∨ ∃ fault, (gen.generateLinear constraint rng).1 = .error fault) :
    Kept gen (gen.generateLinear constraint rng).2.1 := by
  refine ⟨generateAddress_sameRanges (h.imp_right fun ⟨fault, hfault⟩ => ?_), .refl _⟩
  cases hresult : (gen.linearAddrSpace.generateAddress constraint rng).1 with
  | error inner => exact ⟨inner, rfl⟩
  | ok a =>
      simp only [generateLinear, hresult, Except.mapError] at hfault
      cases hfault

theorem generatePhysical_kept {rng : RandNum}
    (h : constraint.dontAllocate = true ∨ ∃ fault, (gen.generatePhysical constraint rng).1 = .error fault) :
    Kept gen (gen.generatePhysical constraint rng).2.1 := by
  refine ⟨.refl _, generateAddress_sameRanges (h.imp_right fun ⟨fault, hfault⟩ => ?_)⟩
  cases hresult : (gen.physicalAddrSpace.generateAddress constraint rng).1 with
  | error inner => exact ⟨inner, rfl⟩
  | ok a =>
      simp only [generatePhysical, hresult, Except.mapError] at hfault
      cases hfault

theorem generateAndReserveMemory_kept (hdont : constraint.dontAllocate = true) (tries : ℕ) (gen : AddrGen)
    (rng : RandNum) : Kept gen (generateAndReserveMemory constraint tries gen rng).2.1 := by
  induction tries generalizing gen rng with
  | zero => exact .refl gen
  | succ tries ih =>
      have hdrawn : Kept gen (gen.generateLinear constraint rng).2.1 := generateLinear_kept (.inl hdont)
      rw [generateAndReserveMemory]
      generalize gen.generateLinear constraint rng = drawn at hdrawn
      obtain ⟨fault | address, middle, rng⟩ := drawn
      · exact hdrawn
      · dsimp only
        split
        · exact hdrawn
        · exact hdrawn.trans (ih _ _)
        · rw [if_pos hdont]
          exact hdrawn

theorem generateFor_kept (hdont : constraint.dontAllocate = true) (gen : AddrGen) (rng : RandNum) :
    Kept gen (gen.generateFor constraint rng).2.1 := by
  unfold generateFor
  split
  · exact generateAndReserveMemory_kept hdont _ _ _
  · exact generateLinear_kept (.inl hdont)
  · exact generatePhysical_kept (.inl hdont)
  · exact .refl gen

/-- What the linear space returns for some random choices is what it can serve. -/
theorem serves_of_generateLinear (hvalid : constraint.validateConstraints = .ok ()) {rng : RandNum}
    (ha : (gen.generateLinear constraint rng).1 = .ok a) : Serves gen.linearAddrSpace constraint a := by
  exact (serves_iff (validateConstraints_ok hvalid).1).mpr ⟨rng, generateLinear_ok ha⟩

theorem exists_generateLinear (hvalid : constraint.validateConstraints = .ok ())
    (ha : Serves gen.linearAddrSpace constraint a) : ∃ rng, (gen.generateLinear constraint rng).1 = .ok a := by
  obtain ⟨rng, hresult⟩ := (serves_iff (validateConstraints_ok hvalid).1).mp ha
  exact ⟨rng, by simp only [generateLinear, hresult, Except.mapError]⟩

/-- Drawing the address fails before it allocates, unless a request for both spaces gets a linear address. -/
theorem kept_of_noMemory {resolved : AddressConstraint} {rng : RandNum}
    (hvalid : resolved.validateConstraints = .ok ())
    (hmemory : resolved.type = .memory → ∀ a, ¬Serves gen.linearAddrSpace resolved a)
    {fault : GenerateFault} {gen' : AddrGen} {rng' : RandNum}
    (hdrawn : gen.generateFor resolved rng = (.error fault, gen', rng')) : Kept gen gen' := by
  have hkept : Kept gen (gen.generateFor resolved rng).2.1 := by
    have hfault : (gen.generateFor resolved rng).1 = .error fault := congrArg Prod.fst hdrawn
    unfold generateFor at hfault ⊢
    cases htype : resolved.type <;> rw [htype] at hfault <;> dsimp only at hfault ⊢
    case linear => exact generateLinear_kept (.inr ⟨fault, hfault⟩)
    case physical => exact generatePhysical_kept (.inr ⟨fault, hfault⟩)
    case memory =>
      have hnone : ∀ a, (gen.generateLinear resolved rng).1 ≠ .ok a :=
        fun a ha => hmemory htype a (serves_of_generateLinear hvalid ha)
      have hfirst : ∀ inner, (gen.generateLinear resolved rng).1 = .error inner →
          Kept gen (gen.generateLinear resolved rng).2.1 := fun inner hinner => generateLinear_kept (.inr ⟨inner, hinner⟩)
      rw [generateAndReserveMemory]
      generalize gen.generateLinear resolved rng = drawn at hnone hfirst
      obtain ⟨inner | a, middle, rng⟩ := drawn
      · exact hfirst inner rfl
      · exact absurd rfl (hnone a)
    all_goals exact .refl gen
  rw [hdrawn] at hkept
  exact hkept

/-- An attempt that has drawn an address collides with it and is followed by the next attempt. -/
theorem generateAndReserveMemory_retries (h : Traced gen) (hsize : 0 < constraint.size)
    (hallocate : constraint.dontAllocate = false) {rng : RandNum}
    (ha : (gen.generateLinear constraint rng).1 = .ok a) (tries : ℕ) :
    generateAndReserveMemory constraint (tries + 1) gen rng =
      generateAndReserveMemory constraint tries (gen.generateLinear constraint rng).2.1
        (gen.generateLinear constraint rng).2.2 := by
  have hpick := bothFree_after_pick h hsize hallocate (generateLinear_ok ha)
  rw [generateAndReserveMemory]
  generalize gen.generateLinear constraint rng = drawn at ha hpick
  obtain ⟨result, middle, rng⟩ := drawn
  obtain rfl : result = .ok a := ha
  dsimp only at hpick ⊢
  rw [hpick]

/-- A range that was free and has been allocated since is not undone by further calls. -/
theorem not_kept_of_drawn {gen' : AddrGen} {rng : RandNum} (h : Traced gen) (hsize : 0 < constraint.size)
    (hallocate : constraint.dontAllocate = false) (ha : (gen.generateLinear constraint rng).1 = .ok a)
    (hsteps : Steps (gen.generateLinear constraint rng).2.1 gen') : ¬Kept gen gen' := by
  intro hkept
  obtain ⟨history, htrace⟩ := h.linear
  have hresult := generateLinear_ok ha
  obtain ⟨hnonneg, _, hfree⟩ := linear_picked htrace hresult
  have hreach := htrace.reachable.generateAddress constraint rng
  rw [hresult] at hreach
  obtain ⟨later, hlater, _⟩ := hsteps.linear.reachable hreach
  exact not_sameRanges htrace.reachable hlater hnonneg (hfree a le_rfl (by omega))
    ((linear_taken hallocate hsize).append later) hkept.linear

/-- A drawn address passes the restrictions when a linear request can get no restricted one. -/
theorem restrict_ok {resolved : AddressConstraint} {rng rng' : RandNum} {gen' : AddrGen} (h : Reachable gen)
    (hvalid : resolved.validateConstraints = .ok ()) (hallocate : resolved.dontAllocate = false)
    (hlinear : resolved.type = .linear → ∀ a, Serves gen.linearAddrSpace resolved a →
      gen.checkLinearAddrRestrictions a = false)
    (hdrawn : gen.generateFor resolved rng = (.ok a, gen', rng')) (fault : GenerateFault) :
    (gen'.restrict resolved a).1 ≠ .error fault := by
  have ha : (gen.generateFor resolved rng).1 = .ok a := congrArg Prod.fst hdrawn
  have hgen : (gen.generateFor resolved rng).2.1 = gen' := by rw [hdrawn]
  unfold generateFor at ha hgen
  cases htype : resolved.type <;> rw [htype] at ha hgen <;> dsimp only at ha hgen
  case linear =>
    have hcheck : gen'.checkLinearAddrRestrictions a = false :=
      hgen ▸ hlinear htype a (serves_of_generateLinear hvalid ha)
    unfold restrict
    simp only [hcheck, Bool.false_eq_true, if_false]
    split_ifs <;> exact fun hfault => nomatch hfault
  case physical =>
    unfold restrict
    rw [if_pos htype]
    exact fun hfault => nomatch hfault
  case memory =>
    obtain ⟨inner, hinner, _⟩ := generateAndReserveMemory_raises h.traced hvalid hallocate 10 rng
    rw [hinner] at ha
    cases ha
  all_goals cases ha

/-- Address generation is atomic on failure exactly for the requests whose failures all come first. -/
theorem atomic_iff_failsFirst {customRegion : Option String} (h : Reachable gen) :
    Atomic gen constraint customRegion ↔ FailsFirst gen constraint customRegion := by
  constructor
  · intro hatomic resolved hresolve hvalid hallocate
    have hsize := (validateConstraints_ok hvalid).1
    constructor
    · intro htype a hserves
      by_contra hcheck
      obtain ⟨rng, hdrawn⟩ := exists_generateLinear hvalid hserves
      have hrestricted : (gen.generateLinear resolved rng).2.1.checkLinearAddrRestrictions a = true :=
        Bool.eq_true_of_not_eq_false hcheck
      have hcall : gen.generateAddress constraint customRegion rng =
          (.error (.restricted a), (gen.generateLinear resolved rng).2) := by
        unfold generateAddress generateFor
        simp only [hresolve, hvalid, htype]
        generalize gen.generateLinear resolved rng = drawn at hdrawn hrestricted
        obtain ⟨result, middle, rng⟩ := drawn
        obtain rfl : result = .ok a := hdrawn
        simp [restrict, htype, hrestricted]
      have hkept := hatomic rng (.restricted a) (by rw [hcall]) rfl
      rw [hcall] at hkept
      exact not_kept_of_drawn h.traced hsize hallocate hdrawn (.refl _) hkept
    · intro htype a hserves
      obtain ⟨rng, hdrawn⟩ := exists_generateLinear hvalid hserves
      obtain ⟨fault, hfault, herror⟩ := generateAndReserveMemory_raises h.traced hvalid hallocate 10 rng
      have hsteps := generateAndReserveMemory_steps resolved 9 (gen.generateLinear resolved rng).2.1
        (gen.generateLinear resolved rng).2.2
      rw [← generateAndReserveMemory_retries h.traced hsize hallocate hdrawn] at hsteps
      have hcall : gen.generateAddress constraint customRegion rng =
          (.error fault, (generateAndReserveMemory resolved 10 gen rng).2) := by
        unfold generateAddress generateFor
        simp only [hresolve, hvalid, htype]
        generalize generateAndReserveMemory resolved 10 gen rng = drawn at hfault
        obtain ⟨result, middle, rng⟩ := drawn
        obtain rfl : result = .error fault := hfault
        rfl
      have hkept := hatomic rng fault (by rw [hcall]) herror
      rw [hcall] at hkept
      exact not_kept_of_drawn h.traced hsize hallocate hdrawn hsteps hkept
  · intro hfirst rng fault hfault _
    unfold generateAddress at hfault ⊢
    cases hresolve : gen.resolveCustomRegion constraint customRegion with
    | error inner => exact .refl gen
    | ok resolved =>
        simp only [hresolve] at hfault ⊢
        cases hvalid : resolved.validateConstraints with
        | error inner => exact .refl gen
        | ok _ =>
            simp only [hvalid] at hfault ⊢
            by_cases hdont : resolved.dontAllocate = true
            · have hkept := generateFor_kept hdont gen rng
              generalize gen.generateFor resolved rng = drawn at hkept
              obtain ⟨inner | address, middle, rng⟩ := drawn
              · exact hkept
              · exact hkept.restrict resolved address
            · have hallocate : resolved.dontAllocate = false := Bool.eq_false_of_not_eq_true hdont
              obtain ⟨hlinear, hmemory⟩ := hfirst resolved hresolve hvalid hallocate
              obtain ⟨result, middle, rng', hdrawn⟩ : ∃ result middle rng',
                  gen.generateFor resolved rng = (result, middle, rng') := ⟨_, _, _, rfl⟩
              simp only [hdrawn] at hfault ⊢
              cases result with
              | error inner => exact kept_of_noMemory hvalid hmemory hdrawn
              | ok address =>
                  exact absurd hfault (restrict_ok h hvalid hallocate hlinear hdrawn fault)

/-! ### A generator for a memory map without ranges -/

def noRanges : Memory := ⟨[], [], [], [], []⟩

def freshGen : AddrGen where
  linearAddrSpace := (AddressSpace.init.defineSegment .addressLinear 0 (2 ^ 57 - 1)).2
  physicalAddrSpace := AddressSpace.init
  limitIndices := false
  limitWayPredictorMultihit := false
  restrictedIndices := fun _ => 0
  customRegions := []

theorem init_freshGen : init noRanges false false = .ok freshGen := rfl

/-- A physical request fails before anything is allocated. -/
theorem atomic_physical_freshGen : Atomic freshGen { type := .physical } none := by
  refine (atomic_iff_failsFirst (.init init_freshGen)).mpr fun resolved hresolve _ _ => ?_
  obtain rfl := Except.ok.inj hresolve
  exact ⟨fun htype => (nomatch htype), fun htype => (nomatch htype)⟩

/-- The first request for both spaces raises and leaves ten pages allocated in the linear space. -/
theorem not_atomic_memory : Reachable freshGen ∧ ¬Atomic freshGen { type := .memory } none := by
  refine ⟨.init init_freshGen, fun hatomic => ?_⟩
  have hfault : (freshGen.generateAddress { type := .memory } none ⟨[]⟩).1 = .error .noPhysicalAddress := by
    decide +kernel
  have hspans : ((freshGen.generateAddress { type := .memory } none ⟨[]⟩).2.1.linearAddrSpace.clusters
      12).allocatedAddresses.spans ≠ (freshGen.linearAddrSpace.clusters 12).allocatedAddresses.spans := by
    decide +kernel
  exact hspans (congrArg SpanSet.spans ((hatomic ⟨[]⟩ _ hfault rfl).linear 12).1)

end AddrGen
end Riescue.Addrgen
