import Riescue.AddrgenAllocated
import Riescue.RandomAddrs

/-! Random physical addresses that all come from the address generator do not overlap. An address that is
taken from a pre-allocated PMA region is not allocated, and overlaps others. -/

namespace Riescue.RandomAddrs
open Addrgen Pma Paging Fallible

/-! ### Bit 55 -/

/-- The address without the mark of a secure one. -/
def clearSecure (address : ℤ) : ℤ := Int.ldiff address (2 ^ 55)

theorem ldiff_or_two_pow {n k : ℕ} (h : n < 2 ^ k) : Nat.ldiff (n ||| 2 ^ k) (2 ^ k) = n := by
  apply Nat.eq_of_testBit_eq
  intro i
  rw [Nat.testBit_ldiff, Nat.testBit_or, Nat.testBit_two_pow]
  by_cases hi : k = i
  · subst hi
    simp [Nat.testBit_lt_two_pow h]
  · simp [hi]

theorem ldiff_two_pow {n k : ℕ} (h : n < 2 ^ k) : Nat.ldiff n (2 ^ k) = n := by
  apply Nat.eq_of_testBit_eq
  intro i
  rw [Nat.testBit_ldiff, Nat.testBit_two_pow]
  by_cases hi : k = i
  · subst hi
    simp [Nat.testBit_lt_two_pow h]
  · simp [hi]

theorem clearSecure_markAddress {a : ℤ} (hnonneg : 0 ≤ a) (hlt : a < 2 ^ 55) (secure : Bool) :
    clearSecure (markAddress secure a) = a := by
  obtain ⟨n, rfl⟩ := Int.eq_ofNat_of_zero_le hnonneg
  have hn : n < 2 ^ 55 := by exact_mod_cast hlt
  cases secure with
  | false => exact congrArg Int.ofNat (ldiff_two_pow hn)
  | true => exact congrArg Int.ofNat (ldiff_or_two_pow hn)

/-! ### What is to hold -/

/-- The range of a recorded address. -/
def Recorded.bytes (entry : Recorded) : Set ℤ :=
  Set.Ico (clearSecure entry.address) (clearSecure entry.address + entry.size)

/-- The recorded ranges are apart from one another and allocated in the physical address space. -/
structure Sound (state : State) : Prop where
  pooled : ∀ entry ∈ state.recorded, OrderedDict.get? state.pool.randomAddrs entry.name = some entry.address
  disjoint : state.recorded.Pairwise fun entry other => Disjoint entry.bytes other.bytes
  allocated : ∀ entry ∈ state.recorded, ∀ b ∈ entry.bytes, Allocated state.addrgen.physicalAddrSpace b

/-- The region has no address yet, is too small, or yields no aligned address whatever is drawn. -/
def Unusable (info : PmaInfo) (constraint : AddressConstraint) : Prop :=
  info.pmaAddress ≠ 0 → (constraint.size : ℤ) ≤ info.pmaSize →
    ∀ rng, (generateAddressInPmaRegion info constraint rng).1 = none

/-- A call whose address comes from the address generator: the pre-allocated region of the request, if any, is
unusable before and after the regions of the pool have been consolidated. The address has no bit 55 of its own,
and what is allocated is as large as what was asked for. -/
structure Allocates (setup : Setup) (name : String) (state : State) : Prop where
  region : ∀ request region, OrderedDict.get? state.pool.parsedRandomAddrs name = some request →
    OrderedDict.get? state.pool.preAllocatedPmaRegions name = some region →
    Unusable (state.pool.heap.objects region) (constraint setup name request false) ∧
      Unusable (state.pool.heap.consolidatedEntries.2.objects region) (constraint setup name request false)
  bits : addrBits setup name ≤ 55
  size : ∀ request, OrderedDict.get? state.pool.parsedRandomAddrs name = some request →
    request.size ≤ (requirement setup name request).1

/-! ### One call -/

theorem reuse_eq_none {pool : PmaPool} {name : String} {constraint : AddressConstraint}
    (h : ∀ region, OrderedDict.get? pool.preAllocatedPmaRegions name = some region →
      Unusable (pool.heap.objects region) constraint) (rng : RandNum) :
    (reuse pool name constraint rng).1 = none := by
  unfold reuse
  cases hregion : OrderedDict.get? pool.preAllocatedPmaRegions name with
  | none => rfl
  | some region =>
      dsimp only
      split_ifs with husable
      · exact h region hregion husable.1 husable.2 rng
      · rfl

/-- A generated address stays when the region is unusable. -/
theorem settle_address {pool : PmaPool} {heap : PmaHeap} {name : String} {constraint : AddressConstraint}
    (h : ∀ region, OrderedDict.get? pool.preAllocatedPmaRegions name = some region →
      Unusable (heap.objects region) constraint)
    {address : ℤ} {rng : RandNum} {out : ℤ × PmaHeap × RandNum}
    (hout : settle pool heap name constraint address rng = .ok out) : out.1 = address := by
  unfold settle at hout
  cases hregion : OrderedDict.get? pool.preAllocatedPmaRegions name with
  | none =>
      rw [hregion] at hout
      obtain rfl := Except.ok.inj hout
      rfl
  | some region =>
      rw [hregion] at hout
      dsimp only at hout
      split_ifs at hout with haddress husable
      · split at hout
        · cases hout
        · obtain rfl := Except.ok.inj hout
          rfl
      · have hnone := h region hregion haddress husable.1 rng
        obtain rfl := Except.ok.inj hout
        exact congrArg (Option.getD · address) hnone
      · obtain rfl := Except.ok.inj hout
        rfl

/-- A free range that has been allocated by the step from one generator to another. -/
structure Takes (gen gen' : AddrGen) (start : ℤ) (size : ℕ) : Prop where
  nonneg : 0 ≤ start
  free : ∀ b, start ≤ b → b < start + size → ¬Allocated gen.physicalAddrSpace b
  allocated : ∀ b, start ≤ b → b < start + size → Allocated gen'.physicalAddrSpace b
  steps : AddrGen.Steps gen gen'

theorem generateAddress_takes {gen gen' : AddrGen} (htraced : gen.Traced) {setup : Setup} {name : String}
    {request : ParsedRandomAddress} {secure : Bool} {customRegion : Option String} {rng rng' : RandNum} {a : ℤ}
    (hok : gen.generateAddress (constraint setup name request secure) customRegion rng = (.ok a, gen', rng')) :
    Takes gen gen' a (requirement setup name request).1 ∧
      a + (requirement setup name request).1 ≤ 2 ^ addrBits setup name := by
  have hsteps := gen.generateAddress_steps (constraint setup name request secure) customRegion rng
  rw [hok] at hsteps
  obtain ⟨start, stop, qualifiers', hqualifiers, hresolved⟩ := AddrGen.generateAddress_resolved hok
  have hne : qualifiers' ≠ [] := by
    rcases hqualifiers with rfl | rfl
    · simp only [constraint, qualifiers]
      split_ifs <;> exact List.cons_ne_nil _ _
    · exact List.cons_ne_nil _ _
  obtain ⟨-, hnonneg, htop, -, hfree, hallocated⟩ :=
    AddrGen.generateAddress_physical_free htraced rfl rfl hne hresolved
  refine ⟨⟨hnonneg, hfree, fun b hlo hhi => ?_, hsteps⟩, Int.sub_one_lt_iff.mp htop⟩
  exact (hallocated b (hnonneg.trans hlo)).mpr (.inl ⟨hlo, hhi⟩)

theorem Takes.later {gen gen' gen'' : AddrGen} {start : ℤ} {size : ℕ} (h : Takes gen gen' start size)
    (htraced : gen.Traced) (hsteps : AddrGen.Steps gen' gen'') : Takes gen gen'' start size := by
  refine ⟨h.nonneg, h.free, fun b hlo hhi => ?_, h.steps.trans hsteps⟩
  exact (hsteps.allocated (htraced.steps h.steps) (h.nonneg.trans hlo)).2 (h.allocated b hlo hhi)

theorem reserveIdentically_steps {setup : Setup} {address : ℤ} {size : ℕ} {gen gen' : AddrGen}
    (h : reserveIdentically setup address size gen = .ok gen') : AddrGen.Steps gen gen' := by
  unfold reserveIdentically at h
  split_ifs at h
  · have hphysical := gen.reserveMemory_steps .physical address.toNat size false
    generalize gen.reserveMemory .physical address.toNat size false = out at h hphysical
    obtain ⟨fault | _, middle⟩ := out
    · cases h
    · have hlinear := middle.reserveMemory_steps .linear address.toNat size false
      dsimp only at h
      generalize middle.reserveMemory .linear address.toNat size false = out at h hlinear
      obtain ⟨fault | _, last⟩ := out
      · cases h
      · obtain rfl := Except.ok.inj h
        exact hphysical.trans hlinear
  · obtain rfl := Except.ok.inj h
    exact .refl gen

theorem Takes.mono {gen gen' : AddrGen} {start : ℤ} {size size' : ℕ} (h : Takes gen gen' start size)
    (hle : size' ≤ size) : Takes gen gen' start size' := by
  refine ⟨h.nonneg, fun b hlo hhi => ?_, fun b hlo hhi => ?_, h.steps⟩
  · exact h.free b hlo (by omega)
  · exact h.allocated b hlo (by omega)

/-- Looking at the mapped pages only changes the parsed addresses. -/
theorem growPhysical_frame (setup : Setup) (pages : List MappedPage) (pool : PmaPool) :
    ∃ parsed, pages.foldl (fun pool page => growPhysical setup page pool) pool =
      { pool with parsedRandomAddrs := parsed } := by
  induction pages generalizing pool with
  | nil => exact ⟨pool.parsedRandomAddrs, rfl⟩
  | cons page pages ih =>
      obtain ⟨parsed, hpage⟩ : ∃ parsed, growPhysical setup page pool = { pool with parsedRandomAddrs := parsed } := by
        unfold growPhysical
        dsimp only
        split
        · exact ⟨pool.parsedRandomAddrs, rfl⟩
        · split_ifs
          · exact ⟨_, rfl⟩
          · exact ⟨pool.parsedRandomAddrs, rfl⟩
      obtain ⟨last, hpages⟩ := ih (growPhysical setup page pool)
      refine ⟨last, hpages.trans ?_⟩
      rw [hpage]

theorem generatePhysical_takes {setup : Setup} {name : String} {request : ParsedRandomAddress} {secure : Bool}
    {state state' : State} {a : ℤ} (htraced : state.addrgen.Traced)
    (hregion : ∀ region, OrderedDict.get? state.pool.preAllocatedPmaRegions name = some region →
      Unusable (state.pool.heap.objects region) (constraint setup name request secure) ∧
        Unusable (state.pool.heap.consolidatedEntries.2.objects region) (constraint setup name request secure))
    (h : generatePhysical setup name (constraint setup name request secure) state = .ok (a, state')) :
    Takes state.addrgen state'.addrgen a (requirement setup name request).1 ∧
      a + (requirement setup name request).1 ≤ 2 ^ addrBits setup name ∧ state'.recorded = state.recorded ∧
      ∃ heap, state'.pool = { state.pool with heap := heap } := by
  have hreuse := reuse_eq_none (fun region hfound => (hregion region hfound).1) state.rng
  unfold generatePhysical at h
  rcases hout : reuse state.pool name (constraint setup name request secure) state.rng with ⟨found, rng⟩
  rw [hout] at hreuse h
  subst hreuse
  unfold generateNormally at h
  dsimp only at h
  rcases hgenerated : state.addrgen.generateAddress (constraint setup name request secure)
    (setup.details name).customRegion rng with ⟨fault | address, addrgen, rng'⟩
  · rw [hgenerated] at h
    cases h
  · rw [hgenerated] at h
    obtain ⟨htakes, htop⟩ := generateAddress_takes htraced hgenerated
    dsimp only at h
    rcases hfound : state.pool.heap.findRegionForAddress address with ⟨fault | found, heap⟩
    · rw [hfound] at h
      cases h
    · rw [hfound] at h
      have hheap : heap = state.pool.heap.consolidatedEntries.2 := (congrArg Prod.snd hfound).symm
      obtain ⟨out, hsettle, h⟩ := bind_ok h
      obtain ⟨rfl, rfl⟩ := Prod.mk.inj (Except.ok.inj h)
      rw [settle_address (fun region hfound => hheap ▸ (hregion region hfound).2) hsettle]
      exact ⟨htakes, htop, rfl, out.2.1, rfl⟩

/-- A new name is recorded in the pool. -/
theorem addRandomAddr_ok {pool pool' : PmaPool} {name : String} {address : ℤ}
    (h : pool.addRandomAddr name address = .ok pool') :
    OrderedDict.get? pool.randomAddrs name = none ∧
      ∃ heap, pool' = { pool with heap := heap, randomAddrs := OrderedDict.insert pool.randomAddrs name address } := by
  unfold PmaPool.addRandomAddr at h
  split_ifs at h with hname
  dsimp only at h
  refine ⟨by simpa using hname, ?_⟩
  split at h
  · obtain rfl := Except.ok.inj h
    exact ⟨pool.heap, rfl⟩
  · obtain ⟨heap, -, rfl⟩ := map_ok h
    exact ⟨heap, rfl⟩

/-- What a call records is a free range that it allocates. -/
theorem handleRandomAddr_takes {setup : Setup} {name : String} {state state' : State}
    (htraced : state.addrgen.Traced) (hallocates : Allocates setup name state)
    (h : handleRandomAddr setup name state = .ok state') :
    ∃ a size secure, Takes state.addrgen state'.addrgen a size ∧ a + size ≤ 2 ^ 55 ∧
      state'.recorded = ⟨name, markAddress secure a, size⟩ :: state.recorded ∧
      OrderedDict.get? state.pool.randomAddrs name = none ∧
      state'.pool.randomAddrs = OrderedDict.insert state.pool.randomAddrs name (markAddress secure a) ∧
      state'.pool.preAllocatedPmaRegions = state.pool.preAllocatedPmaRegions := by
  unfold handleRandomAddr at h
  cases hrequest : OrderedDict.get? state.pool.parsedRandomAddrs name with
  | none =>
      rw [hrequest] at h
      cases h
  | some request =>
      rw [hrequest] at h
      rcases hdrawn : drawSecure setup name state.rng with ⟨secure, rng⟩
      obtain ⟨parsed, hpool⟩ := growPhysical_frame setup (mappedPages setup name) state.pool
      rw [hdrawn, hpool] at h
      obtain ⟨⟨a, middle⟩, hgenerated, h⟩ := bind_ok h
      let asked : State := { state with pool := { state.pool with parsedRandomAddrs := parsed }, rng := rng }
      have hunusable : ∀ region, OrderedDict.get? asked.pool.preAllocatedPmaRegions name = some region →
          Unusable (asked.pool.heap.objects region) (constraint setup name request secure) ∧
            Unusable (asked.pool.heap.consolidatedEntries.2.objects region) (constraint setup name request secure) :=
        fun region hfound => hallocates.region request region hrequest hfound
      have hasked : asked.addrgen.Traced := htraced
      obtain ⟨htakes, htop, hrecorded, heap, hgrown⟩ := generatePhysical_takes hasked hunusable hgenerated
      unfold record at h
      obtain ⟨pool, hadded, h⟩ := bind_ok h
      obtain ⟨hnew, heap', rfl⟩ := addRandomAddr_ok (mapError_ok hadded)
      rw [hgrown] at hnew
      obtain ⟨addrgen, hreserved, h⟩ := bind_ok h
      obtain rfl := Except.ok.inj h
      have hsize := hallocates.size request hrequest
      have hpow : (2 : ℤ) ^ addrBits setup name ≤ 2 ^ 55 := pow_le_pow_right₀ (by norm_num) hallocates.bits
      refine ⟨a, request.size, markedSecure (setup.details name) secure,
        (htakes.later htraced (reserveIdentically_steps hreserved)).mono hsize, ?_, ?_,
        hnew, ?_, ?_⟩
      · omega
      · rw [hrecorded]
      · rw [hgrown]
      · rw [hgrown]

/-! ### Whole runs -/

/-- One call keeps what is recorded apart and allocated. -/
theorem Sound.handleRandomAddr {setup : Setup} {name : String} {state state' : State} (hsound : Sound state)
    (htraced : state.addrgen.Traced) (hallocates : Allocates setup name state)
    (h : handleRandomAddr setup name state = .ok state') : Sound state' ∧ state'.addrgen.Traced := by
  obtain ⟨a, size, secure, htakes, htop, hrecorded, hnew, hadded, -⟩ := handleRandomAddr_takes htraced hallocates h
  have hbytes : ∀ b, b ∈ (Recorded.mk name (markAddress secure a) size).bytes → a ≤ b ∧ b < a + size := by
    intro b hb
    by_cases hsize : size = 0
    · subst hsize
      exact absurd (hb.1.trans_lt hb.2) (by simp)
    · have hclear : clearSecure (markAddress secure a) = a := clearSecure_markAddress htakes.nonneg (by omega) secure
      unfold Recorded.bytes at hb
      rw [hclear] at hb
      exact hb
  refine ⟨⟨fun entry hentry => ?_, ?_, fun entry hentry b hb => ?_⟩, htraced.steps htakes.steps⟩
  · rw [hadded]
    rw [hrecorded] at hentry
    rcases List.mem_cons.mp hentry with rfl | hentry
    · exact OrderedDict.get?_insert_self _ _ _
    · have hold := hsound.pooled entry hentry
      have hne : entry.name ≠ name := fun heq => nomatch (heq ▸ hold).symm.trans hnew
      exact (OrderedDict.get?_insert_ne _ _ hne).trans hold
  · rw [hrecorded]
    refine List.pairwise_cons.mpr ⟨fun other hother => ?_, hsound.disjoint⟩
    refine Set.disjoint_left.mpr fun b hb hb' => ?_
    obtain ⟨hlo, hhi⟩ := hbytes b hb
    exact htakes.free b hlo hhi (hsound.allocated other hother b hb')
  · rw [hrecorded] at hentry
    rcases List.mem_cons.mp hentry with rfl | hentry
    · obtain ⟨hlo, hhi⟩ := hbytes b hb
      exact htakes.allocated b hlo hhi
    · have hold := hsound.allocated entry hentry b hb
      obtain ⟨_, hreach⟩ := htraced.physical
      exact (htakes.steps.allocated htraced (hold.nonneg hreach)).2 hold

/-- Every call of a run allocates what it records. -/
def AllAllocate (setup : Setup) : List String → State → Prop
  | [], _ => True
  | name :: names, state =>
      Allocates setup name state ∧ ∀ next, handleRandomAddr setup name state = .ok next → AllAllocate setup names next

theorem Sound.handleRandomAddrs {setup : Setup} {names : List String} {state final : State} (hsound : Sound state)
    (htraced : state.addrgen.Traced) (hall : AllAllocate setup names state)
    (h : handleRandomAddrs setup names state = .ok final) : Sound final := by
  induction names generalizing state with
  | nil =>
      obtain rfl := Except.ok.inj h
      exact hsound
  | cons name names ih =>
      obtain ⟨next, hnext, h⟩ := bind_ok h
      obtain ⟨hsound', htraced'⟩ := hsound.handleRandomAddr htraced hall.1 hnext
      exact ih hsound' htraced' (hall.2 next hnext) h

/-- From any state of the address generator and any pool: when every call allocates, the recorded ranges are
apart and allocated. -/
theorem handleRandomAddrs_sound {setup : Setup} {names : List String} {start final : State}
    (hreach : start.addrgen.Reachable) (hempty : start.recorded = []) (hall : AllAllocate setup names start)
    (h : handleRandomAddrs setup names start = .ok final) : Sound final := by
  have hsound : Sound start := by
    refine ⟨?_, ?_, ?_⟩
    · simp [hempty]
    · simp [hempty]
    · simp [hempty]
  exact hsound.handleRandomAddrs hreach.traced hall h

/-- Requests without a pre-allocated region and without a mapping, of at most 55 bits, always allocate. -/
theorem Allocates.plain {setup : Setup} {name : String} {state : State}
    (hregions : state.pool.preAllocatedPmaRegions = []) (hmappings : setup.pageMappings = [])
    (hbits : addrBits setup name ≤ 55) : Allocates setup name state := by
  refine ⟨fun request region _ hregion => ?_, hbits, fun request _ => ?_⟩
  · rw [hregions] at hregion
    cases hregion
  · have hnone : mappedPages setup name = [] := by
      unfold mappedPages
      rw [hmappings]
      split_ifs <;> rfl
    rw [requirement, hnone]
    exact le_rfl

theorem AllAllocate.plain {setup : Setup} {names : List String} {state : State} (htraced : state.addrgen.Traced)
    (hregions : state.pool.preAllocatedPmaRegions = []) (hmappings : setup.pageMappings = [])
    (hbits : ∀ name, addrBits setup name ≤ 55) : AllAllocate setup names state := by
  induction names generalizing state with
  | nil => trivial
  | cons name names ih =>
      have hallocates : Allocates setup name state := .plain hregions hmappings (hbits name)
      refine ⟨hallocates, fun next hnext => ?_⟩
      obtain ⟨_, _, _, htakes, -, -, -, -, hsame⟩ := handleRandomAddr_takes htraced hallocates hnext
      exact ih (htraced.steps htakes.steps) (hsame.trans hregions)

/-- A pool with one DRAM region and two parsed addresses. -/
def twoAddrs (preAllocated : List (String × ℕ)) : PmaPool where
  heap := ⟨fun _ => { pmaName := "dram", pmaAddress := 0x80000000, pmaSize := 0x10000 }, 1, [0]⟩
  parsedRandomAddrs := [("first", { name := "first" }), ("second", { name := "second" })]
  randomAddrs := []
  preAllocatedPmaRegions := preAllocated

/-- 64 KB of DRAM. -/
def smallMemory : Memory where
  dramRanges := [⟨0x80000000, 0x10000, by decide⟩]
  ioRanges := []
  secureRanges := []
  reservedRanges := []
  customRanges := []

/-- Two requests from the same memory, without regions. -/
theorem handleRandomAddrs_sound_twoAddrs :
    ∃ gen final, AddrGen.init smallMemory false false = .ok gen ∧
      handleRandomAddrs {} ["first", "second"] ⟨twoAddrs [], gen, ⟨[3, 100, 0, 7]⟩, []⟩ = .ok final ∧
      final.recorded.length = 2 ∧ Sound final := by
  have hruns : ((AddrGen.init smallMemory false false).toOption.any fun gen =>
      (handleRandomAddrs {} ["first", "second"] ⟨twoAddrs [], gen, ⟨[3, 100, 0, 7]⟩, []⟩).toOption.any fun final =>
        decide (final.recorded.length = 2)) = true := by
    decide +kernel
  obtain ⟨gen, hgen, hruns⟩ := (Option.any_eq_true _ _).mp hruns
  obtain ⟨final, hfinal, hlength⟩ := (Option.any_eq_true _ _).mp hruns
  have hreach : gen.Reachable := .init (toOption_some hgen)
  refine ⟨gen, final, toOption_some hgen, toOption_some hfinal, of_decide_eq_true hlength, ?_⟩
  have hbits : ∀ name, addrBits {} name ≤ 55 := fun _ => (by decide : 52 ≤ 55)
  exact handleRandomAddrs_sound hreach rfl (.plain hreach.traced rfl rfl hbits) (toOption_some hfinal)

/-- Two requests that share a pre-allocated region: both get its first address, and it is not allocated. -/
theorem not_handleRandomAddrs_sound :
    ¬∀ (setup : Setup) (names : List String) (start final : State), start.addrgen.Reachable →
      start.recorded = [] → handleRandomAddrs setup names start = .ok final → Sound final := by
  intro h
  have hruns : ((AddrGen.init smallMemory false false).toOption.any fun gen =>
      (handleRandomAddrs {} ["first", "second"] ⟨twoAddrs [("first", 0), ("second", 0)], gen, ⟨[]⟩, []⟩).toOption.any
        fun final => decide (final.recorded.map (fun entry => (entry.address, entry.size)) =
          [(0x80000000, 0x1000), (0x80000000, 0x1000)])) = true := by
    decide +kernel
  obtain ⟨gen, hgen, hruns⟩ := (Option.any_eq_true _ _).mp hruns
  obtain ⟨final, hfinal, hsame⟩ := (Option.any_eq_true _ _).mp hruns
  have hsound := h _ _ _ final (.init (toOption_some hgen)) rfl (toOption_some hfinal)
  obtain ⟨second, _, hrecorded, hsecond, hrest⟩ := List.map_eq_cons_iff.mp (of_decide_eq_true hsame)
  obtain ⟨first, _, rfl, hfirst, -⟩ := List.map_eq_cons_iff.mp hrest
  have hmem : ∀ entry : Recorded, (entry.address, entry.size) = (0x80000000, 0x1000) → 0x80000000 ∈ entry.bytes := by
    rintro ⟨_, address, size⟩ hentry
    obtain ⟨rfl, rfl⟩ := Prod.mk.inj hentry
    have hclear : clearSecure 0x80000000 = 0x80000000 := clearSecure_markAddress (by decide) (by decide) false
    refine ⟨hclear.le, ?_⟩
    change 0x80000000 < clearSecure 0x80000000 + 0x1000
    rw [hclear]
    decide
  have hdisjoint := hsound.disjoint
  rw [hrecorded] at hdisjoint
  have hapart := (List.pairwise_cons.mp hdisjoint).1 first List.mem_cons_self
  exact Set.disjoint_left.mp hapart (hmem second hsecond) (hmem first hfirst)

end Riescue.RandomAddrs
