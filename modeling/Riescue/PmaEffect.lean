import Riescue.PmaRequests

/-! The requests of a test, from the parsed pool over the pre-allocation to the last recorded address. -/

namespace Riescue.Pma
open PmaInfo Fallible OrderedDict

/-- A physical request as it is parsed, with the attributes it asks for. -/
structure PmaRequest where
  name : String
  size : ℕ := 0x1000
  andMask : ℕ := 0xFFFFFFFFFFFFFFFF
  inPma : Bool := true
  pmaInfo : Option PmaInfo := some {}
  deriving DecidableEq, Repr

namespace PmaPool

/-- The pool with the default and hint regions. -/
def initialPool (regions : List PmaInfo) : PmaPool where
  heap := ⟨fun id => regions.getD id {}, regions.length, List.range regions.length⟩
  parsedRandomAddrs := []
  randomAddrs := []
  preAllocatedPmaRegions := []

/-- `add_parsed_addr`, with the `PmaInfo` object that the parser makes. -/
def addParsedAddr (pool : PmaPool) (request : PmaRequest) : PmaPool :=
  let parsed : ParsedRandomAddress := ⟨request.name, request.size, request.andMask, request.inPma, none⟩
  match request.pmaInfo with
  | none => { pool with parsedRandomAddrs := insert pool.parsedRandomAddrs request.name parsed }
  | some info =>
      let (region, heap) := pool.heap.alloc info
      { pool with
        heap := heap
        parsedRandomAddrs :=
          insert pool.parsedRandomAddrs request.name { parsed with pmaInfo := some region } }

def parsedPool (regions : List PmaInfo) (requests : List PmaRequest) : PmaPool :=
  requests.foldl addParsedAddr (initialPool regions)

/-- The attributes that a parsed request asks for; without any, those of a new `PmaInfo`. -/
def asked (start : PmaPool) (request : ParsedRandomAddress) : AttrKey :=
  (request.pmaInfo.elim {} start.heap.objects).attrKey

/-- Every byte of every recorded request is looked up with the attributes that were asked for. -/
def TakesEffect (start pool : PmaPool) : Prop :=
  ∀ name request a, get? start.parsedRandomAddrs name = some request → request.inPma = true →
    get? pool.randomAddrs name = some a → ∀ b, a ≤ b → b < a + request.size →
      ∃ found heap', pool.heap.findRegionForAddress b = (.ok (some found), heap') ∧
        (heap'.objects found).attrKey = start.asked request

/-- The request has its address, and its bytes are to be in the region. -/
structure Recorded (pool : PmaPool) (name : String) (request : ParsedRandomAddress) (region : ℕ) (a : ℤ) : Prop where
  parsed : get? pool.parsedRandomAddrs name = some request
  inPma : request.inPma = true
  info : request.pmaInfo = some region
  recorded : get? pool.randomAddrs name = some a

/-- The size of the region when a request is recorded, `addr_inst.size` if there was none. -/
def regionSize (info : PmaInfo) (request : ParsedRandomAddress) : ℤ :=
  if info.pmaSize = 0 then request.size else info.pmaSize

/-- The region can move to the address `a` of a request. -/
structure Fits (pool : PmaPool) (heap : PmaHeap) (request : ParsedRandomAddress) (region : ℕ) (a : ℤ) : Prop where
  /-- It has room for the request. -/
  room : 0 < regionSize (heap.objects region) request ∧ (request.size : ℤ) ≤ regionSize (heap.objects region) request
  /-- No entry of other attributes is there already. -/
  unshadowed : ∀ entry ∈ heap.entries, (heap.objects entry).attrKey ≠ (heap.objects region).attrKey →
    ¬(heap.objects entry).containsAddress a = true
  /-- No earlier request of other attributes has a region that starts there. -/
  shadowsNone : ∀ name request' region' a', pool.Recorded name request' region' a' →
    (heap.objects region').attrKey ≠ (heap.objects region).attrKey →
    ¬(a ≤ (heap.objects region').pmaAddress ∧
      (heap.objects region').pmaAddress < a + regionSize (heap.objects region) request)
  /-- The earlier requests that share the region stay inside it. -/
  sharers : ∀ name request' a', pool.Recorded name request' region a' →
    a ≤ a' ∧ a' + request'.size ≤ a + regionSize (heap.objects region) request

/-- A region without an address joins the entries at the generated address. -/
structure Joins (pool : PmaPool) (request : ParsedRandomAddress) (region : ℕ) (address a : ℤ) : Prop where
  /-- Address 0 stands for no address. -/
  placed : address ≠ 0
  unlisted : region ∉ pool.heap.entries
  /-- A region is only added when none starts at the address; a pre-allocated one is added before the address is
  marked as secure. -/
  added : ¬pool.heap.settled.StartsAt (if (get? pool.preAllocatedPmaRegions request.name).isSome then address else a)
  fits : pool.Fits pool.heap.settled.settled request region a

/-- The region of the request keeps everything in effect when the request is handled. -/
def Keeps (pool : PmaPool) (name : String) (outcome : Outcome) : Prop :=
  ∀ request region address heap, get? pool.parsedRandomAddrs name = some request → request.inPma = true →
    request.pmaInfo = some region → pool.generatePhysical request outcome = .ok (address, heap) →
    if (pool.heap.objects region).pmaAddress = 0 then pool.Joins request region address (markSecure outcome address)
    else region ∈ pool.heap.entries ∧ pool.Fits heap request region (markSecure outcome address)

/-- The requests are handled one after another, in any order. -/
inductive Run (Allowed : PmaPool → String → Outcome → Prop) (start : PmaPool) : PmaPool → Prop where
  | start : Run Allowed start start
  | step {pool pool' : PmaPool} {name : String} {outcome : Outcome} (hrun : Run Allowed start pool)
      (hallowed : Allowed pool name outcome) (hstep : pool.handleRandomAddr name outcome = .ok pool') :
      Run Allowed start pool'

/-! ### What a step does -/

theorem handleRandomAddr_cases {pool pool' : PmaPool} {name : String} {outcome : Outcome}
    (h : pool.handleRandomAddr name outcome = .ok pool') :
    ∃ request address heap heap', get? pool.parsedRandomAddrs name = some request ∧
      pool.generatePhysical request outcome = .ok (address, heap) ∧ get? pool.randomAddrs name = none ∧
      updatePma heap request (markSecure outcome address) = .ok heap' ∧
      pool' = { pool with
        heap := heap'
        randomAddrs := insert pool.randomAddrs name (markSecure outcome address) } := by
  unfold handleRandomAddr at h
  cases hparsed : get? pool.parsedRandomAddrs name with
  | none =>
      rw [hparsed] at h
      cases h
  | some request =>
      simp only [hparsed] at h
      cases hgenerated : pool.generatePhysical request outcome with
      | error fault =>
          rw [hgenerated] at h
          cases h
      | ok result =>
          obtain ⟨address, heap⟩ := result
          simp only [hgenerated, addRandomAddr, hparsed] at h
          split_ifs at h with hrecorded
          obtain ⟨heap', hupdate, rfl⟩ := map_ok h
          exact ⟨request, address, heap, heap', rfl, hgenerated, by simpa using hrecorded, hupdate, rfl⟩

theorem reuse_some {pool : PmaPool} {request : ParsedRandomAddress} {rng rng' : RandNum} {address : ℤ}
    (h : pool.reuse request rng = (some address, rng')) :
    ∃ region, get? pool.preAllocatedPmaRegions request.name = some region ∧
      (pool.heap.objects region).pmaAddress ≠ 0 := by
  unfold reuse at h
  split at h
  · cases h
  · rename_i region hregion
    dsimp only at h
    split_ifs at h with hroom
    · exact ⟨region, hregion, hroom.1⟩
    · cases h

/-- The address comes from the region as it is, from `AddrGen` or again from the region, or the region of the
request has been given the address that `AddrGen` generated. -/
theorem generatePhysical_cases {pool : PmaPool} {request : ParsedRandomAddress} {outcome : Outcome} {address : ℤ}
    {heap : PmaHeap} (h : pool.generatePhysical request outcome = .ok (address, heap)) :
    (∃ region, get? pool.preAllocatedPmaRegions request.name = some region ∧
      (pool.heap.objects region).pmaAddress ≠ 0 ∧ heap = pool.heap) ∨
    ∃ kept, pool.heap.consolidatedEntries = (.ok kept, pool.heap.settled) ∧
      ((get? pool.preAllocatedPmaRegions request.name = none ∧ heap = pool.heap.settled) ∨
        ∃ region, get? pool.preAllocatedPmaRegions request.name = some region ∧
          (((pool.heap.settled.objects region).pmaAddress ≠ 0 ∧ heap = pool.heap.settled) ∨
            ((pool.heap.settled.objects region).pmaAddress = 0 ∧
              (pool.heap.settled.setAddress region address).addUnlessFound region address = .ok heap))) := by
  unfold generatePhysical at h
  split at h
  · rename_i found rng' hreuse
    obtain ⟨region, hregion, hplaced⟩ := reuse_some hreuse
    exact .inl ⟨region, hregion, hplaced, (congrArg Prod.snd (Except.ok.inj h)).symm⟩
  · rename_i rng' hreuse
    right
    unfold generateNormally at h
    cases hgenerated : outcome.generated with
    | none =>
        rw [hgenerated] at h
        cases h
    | some generated =>
        simp only [hgenerated] at h
        obtain ⟨found, looked, hlooked⟩ : ∃ found looked, pool.heap.findRegionForAddress generated = (found, looked) :=
          ⟨_, _, rfl⟩
        obtain rfl : pool.heap.settled = looked := congrArg Prod.snd hlooked
        rw [hlooked] at h
        cases found with
        | error fault => cases h
        | ok found =>
            obtain ⟨kept, hkept⟩ : ∃ kept, pool.heap.consolidatedEntries = (.ok kept, pool.heap.settled) := by
              obtain ⟨kept, hkept⟩ := map_ok (congrArg Prod.fst hlooked)
              exact ⟨kept, Prod.ext hkept.1 rfl⟩
            refine ⟨kept, hkept, ?_⟩
            dsimp only at h
            cases hregion : get? pool.preAllocatedPmaRegions request.name with
            | none =>
                rw [hregion] at h
                exact .inl ⟨rfl, (congrArg Prod.snd (Except.ok.inj h)).symm⟩
            | some region =>
                simp only [hregion] at h
                refine .inr ⟨region, rfl, ?_⟩
                split_ifs at h with hunset hroom
                · cases hadd : (pool.heap.settled.setAddress region generated).addUnlessFound region generated with
                  | error fault =>
                      rw [hadd] at h
                      cases h
                  | ok added =>
                      rw [hadd] at h
                      obtain ⟨rfl, rfl⟩ := Prod.mk.inj (Except.ok.inj h)
                      exact .inr ⟨hunset, hadd⟩
                · exact .inl ⟨hunset, (congrArg Prod.snd (Except.ok.inj h)).symm⟩
                · exact .inl ⟨hunset, (congrArg Prod.snd (Except.ok.inj h)).symm⟩

/-- `add_random_addr` first gives the region a size. -/
theorem setSize_regionSize (heap : PmaHeap) (request : ParsedRandomAddress) (region : ℕ) :
    (if (heap.objects region).pmaSize = 0 then heap.setSize region request.size else heap) =
      heap.assign region { heap.objects region with pmaSize := regionSize (heap.objects region) request } := by
  unfold regionSize
  split_ifs with hsize
  · rfl
  · unfold PmaHeap.assign
    rw [Function.update_eq_self]

theorem assign_setAddress (heap : PmaHeap) (region : ℕ) (size a : ℤ) :
    (heap.assign region { heap.objects region with pmaSize := size }).setAddress region a =
      heap.assign region { heap.objects region with pmaAddress := a, pmaSize := size } := by
  unfold PmaHeap.setAddress PmaHeap.assign
  simp only [Function.update_self, Function.update_idem]

section UpdatePma
variable {heap heap' : PmaHeap} {request : ParsedRandomAddress} {region : ℕ} {a : ℤ}

theorem updatePma_eq (hinPma : request.inPma = true) (hinfo : request.pmaInfo = some region) :
    let info : PmaInfo := { heap.objects region with pmaSize := regionSize (heap.objects region) request }
    updatePma heap request a =
      if info.pmaAddress = 0 then
        match (heap.assign region { info with pmaAddress := a }).addUnlessFound region a with
        | .error fault => .error (.pma fault)
        | .ok heap => .ok heap
      else if info.pmaAddress ≠ a then .ok (heap.assign region { info with pmaAddress := a })
      else .ok (heap.assign region info) := by
  unfold updatePma
  have hself : ∀ info, (heap.assign region info).objects region = info := fun info => Function.update_self ..
  simp only [hinPma, hinfo, if_true, setSize_regionSize, assign_setAddress]
  rewrite [hself]
  rfl

theorem updatePma_listed (hinPma : request.inPma = true) (hinfo : request.pmaInfo = some region)
    (hlisted : region ∈ heap.entries) (hplaced : (heap.objects region).pmaAddress ≠ 0)
    (h : updatePma heap request a = .ok heap') :
    heap' = heap.place region (regionSize (heap.objects region) request) a := by
  have hassign : ∀ info, info = { heap.objects region with
      pmaAddress := a, pmaSize := regionSize (heap.objects region) request } →
      heap.assign region info = heap.place region (regionSize (heap.objects region) request) a := by
    rintro info rfl
    unfold PmaHeap.assign PmaHeap.place
    rw [if_pos hlisted]
  rw [updatePma_eq hinPma hinfo] at h
  dsimp only at h
  rw [if_neg hplaced] at h
  split_ifs at h with hmoved
  · exact (Except.ok.inj h).symm.trans (hassign _ rfl)
  · exact (Except.ok.inj h).symm.trans (hassign _ (by rw [← not_not.mp hmoved]))

theorem updatePma_unset (hinPma : request.inPma = true) (hinfo : request.pmaInfo = some region)
    (hunlisted : region ∉ heap.entries) (hunset : (heap.objects region).pmaAddress = 0) (hstarts : ¬heap.StartsAt a)
    (h : updatePma heap request a = .ok heap') :
    heap' = heap.settled.place region (regionSize (heap.objects region) request) a := by
  rw [updatePma_eq hinPma hinfo] at h
  dsimp only at h
  rw [if_pos hunset] at h
  cases hadd : (heap.assign region { heap.objects region with
      pmaAddress := a, pmaSize := regionSize (heap.objects region) request }).addUnlessFound region a with
  | error fault =>
      rw [hadd] at h
      cases h
  | ok added =>
      rw [hadd] at h
      obtain rfl := Except.ok.inj h
      exact PmaHeap.addUnlessFound_place hunlisted hstarts hadd

end UpdatePma

/-- A request that keeps everything moves its region, after the lookups, to the address that is recorded. -/
theorem handleRandomAddr_place {pool pool' : PmaPool} {name : String} {outcome : Outcome}
    {request : ParsedRandomAddress} {region : ℕ} (hparsed : get? pool.parsedRandomAddrs name = some request)
    (hinPma : request.inPma = true) (hinfo : request.pmaInfo = some region)
    (hagree : ∀ other, get? pool.preAllocatedPmaRegions request.name = some other → other = region)
    (hkeeps : pool.Keeps name outcome) (h : pool.handleRandomAddr name outcome = .ok pool') :
    ∃ base a, pool.heap.Lookups base ∧ pool.Fits base request region a ∧
      pool' = { pool with
        heap := base.place region (regionSize (base.objects region) request) a
        randomAddrs := insert pool.randomAddrs name a } := by
  obtain ⟨request', address, heap, heap', hparsed', hgenerated, _, hupdate, rfl⟩ := handleRandomAddr_cases h
  obtain rfl : request = request' := Option.some.inj (hparsed.symm.trans hparsed')
  have hfits := hkeeps request region address heap hparsed hinPma hinfo hgenerated
  have hsettled := (PmaHeap.lookups_settled pool.heap).keep
  have hsettledAddress := (hsettled.2.2.1 region).address
  suffices hplace : ∃ base, pool.heap.Lookups base ∧ pool.Fits base request region (markSecure outcome address) ∧
      heap' = base.place region (regionSize (base.objects region) request) (markSecure outcome address) by
    obtain ⟨base, hbase, hfits, rfl⟩ := hplace
    exact ⟨base, _, hbase, hfits, rfl⟩
  by_cases hunset : (pool.heap.objects region).pmaAddress = 0
  · rw [if_pos hunset] at hfits
    have hunlisted : region ∉ pool.heap.settled.entries := fun hmem => hfits.unlisted ((hsettled.2.1 region).mp hmem)
    have hsize : regionSize (pool.heap.settled.objects region) request =
        regionSize (pool.heap.settled.settled.objects region) request := by
      rw [PmaHeap.settled_outside hunlisted]
    refine ⟨pool.heap.settled.settled,
      (PmaHeap.lookups_settled _).trans (PmaHeap.lookups_settled _), hfits.fits, ?_⟩
    rw [← hsize]
    rcases generatePhysical_cases hgenerated with ⟨other, hother, hplaced, _⟩ | ⟨kept, hkept, hcases⟩
    · rw [hagree other hother] at hplaced
      exact absurd hunset hplaced
    · rcases hcases with ⟨hnone, rfl⟩ | ⟨other, hother, ⟨hplaced, _⟩ | ⟨_, hadd⟩⟩
      · have hstarts := hfits.added
        rw [hnone, if_neg (by simp)] at hstarts
        exact updatePma_unset hinPma hinfo hunlisted (hsettledAddress.trans hunset) hstarts hupdate
      · rw [hagree other hother, hsettledAddress] at hplaced
        exact absurd hunset hplaced
      · obtain rfl := hagree other hother
        have hstarts := hfits.added
        rw [hother, if_pos (by simp)] at hstarts
        have hheap : heap = pool.heap.settled.settled.place other (pool.heap.settled.objects other).pmaSize address :=
          PmaHeap.addUnlessFound_place hunlisted hstarts hadd
        have hplaced : (heap.objects other).pmaAddress ≠ 0 := by
          rw [hheap, PmaHeap.place_self]
          exact hfits.placed
        have hlisted : other ∈ heap.entries := hheap ▸ PmaHeap.mem_place.mpr (.inl rfl)
        have hmoved := updatePma_listed hinPma hinfo hlisted hplaced hupdate
        have hkept : regionSize (heap.objects other) request = regionSize (pool.heap.settled.objects other) request := by
          rw [hheap, PmaHeap.place_self]
          rfl
        rw [hmoved, hkept, hheap, PmaHeap.place_place]
  · rw [if_neg hunset] at hfits
    obtain ⟨hlisted, hfits⟩ := hfits
    have hheap : heap = pool.heap ∨ heap = pool.heap.settled := by
      rcases generatePhysical_cases hgenerated with ⟨_, _, _, hheap⟩ | ⟨kept, hkept, hcases⟩
      · exact .inl hheap
      · rcases hcases with ⟨_, hheap⟩ | ⟨other, hother, ⟨_, hheap⟩ | ⟨hzero, _⟩⟩
        · exact .inr hheap
        · exact .inr hheap
        · rw [hagree other hother, hsettledAddress] at hzero
          exact absurd hzero hunset
    have hbase : pool.heap.Lookups heap := by
      rcases hheap with rfl | rfl
      · exact .refl
      · exact PmaHeap.lookups_settled _
    have hkeep := hbase.keep
    refine ⟨heap, hbase, hfits, updatePma_listed hinPma hinfo ((hkeep.2.1 region).mpr hlisted) ?_ hupdate⟩
    rw [(hkeep.2.2.1 region).address]
    exact hunset

/-- A request outside the PMA regions only looks up regions. -/
theorem handleRandomAddr_outside {pool pool' : PmaPool} {name : String} {outcome : Outcome}
    {request : ParsedRandomAddress} (hparsed : get? pool.parsedRandomAddrs name = some request)
    (hinPma : request.inPma = false) (hnone : get? pool.preAllocatedPmaRegions request.name = none)
    (h : pool.handleRandomAddr name outcome = .ok pool') :
    ∃ base a, pool.heap.Lookups base ∧
      pool' = { pool with heap := base, randomAddrs := insert pool.randomAddrs name a } := by
  obtain ⟨request', address, heap, heap', hparsed', hgenerated, _, hupdate, rfl⟩ := handleRandomAddr_cases h
  obtain rfl : request = request' := Option.some.inj (hparsed.symm.trans hparsed')
  obtain rfl : heap = heap' := by
    unfold updatePma at hupdate
    simp only [hinPma, Bool.false_eq_true, if_false] at hupdate
    exact Except.ok.inj hupdate
  refine ⟨heap, _, ?_, rfl⟩
  rcases generatePhysical_cases hgenerated with ⟨_, _, _, rfl⟩ | ⟨_, _, ⟨_, rfl⟩ | ⟨other, hother, _⟩⟩
  · exact .refl
  · exact PmaHeap.lookups_settled _
  · rw [hnone] at hother
    cases hother

/-! ### The invariant -/

structure Held (start pool : PmaPool) : Prop where
  positive : pool.heap.Positive
  named : ∀ name request, get? pool.parsedRandomAddrs name = some request → request.name = name
  /-- The requests are those of the start, each with a region of the attributes that it asks for. -/
  asks : ∀ name request, get? start.parsedRandomAddrs name = some request →
    ∃ info, get? pool.parsedRandomAddrs name = some { request with pmaInfo := info } ∧
      (request.inPma = true → ∀ region, info = some region → (pool.heap.objects region).attrKey = start.asked request)
  assigned : ∀ name region, get? pool.preAllocatedPmaRegions name = some region →
    ∃ request, get? pool.parsedRandomAddrs name = some request ∧ request.inPma = true ∧ request.pmaInfo = some region
  holds : ∀ name request a, get? pool.parsedRandomAddrs name = some request → request.inPma = true →
    get? pool.randomAddrs name = some a → ∃ region, request.pmaInfo = some region ∧ pool.heap.Holds region a request.size

theorem Held.takesEffect {start pool : PmaPool} (hheld : Held start pool) : TakesEffect start pool := by
  intro name request a hparsed hinPma hrecorded b hlo hhi
  obtain ⟨info, hcurrent, hasks⟩ := hheld.asks name request hparsed
  obtain ⟨region, rfl, hholds⟩ := hheld.holds name _ a hcurrent hinPma hrecorded
  obtain ⟨found, heap', hfound, hkey⟩ := hholds.lookup hheld.positive hlo hhi
  exact ⟨found, heap', hfound, hkey.trans (hasks hinPma region rfl)⟩

/-- The requests keep their attributes on any heap with the same ones. -/
theorem Held.asks_of_same {start pool : PmaPool} (hheld : Held start pool) {heap : PmaHeap}
    (hsame : ∀ id, (heap.objects id).attrKey = (pool.heap.objects id).attrKey) (name : String)
    (request : ParsedRandomAddress) (hparsed : get? start.parsedRandomAddrs name = some request) :
    ∃ info, get? pool.parsedRandomAddrs name = some { request with pmaInfo := info } ∧
      (request.inPma = true → ∀ region, info = some region → (heap.objects region).attrKey = start.asked request) := by
  obtain ⟨info, hcurrent, hasks⟩ := hheld.asks name request hparsed
  exact ⟨info, hcurrent, fun hinPma region hregion => (hsame region).trans (hasks hinPma region hregion)⟩

theorem Held.outside {start pool : PmaPool} {name : String} {request : ParsedRandomAddress} {base : PmaHeap} {a : ℤ}
    (hheld : Held start pool) (hparsed : get? pool.parsedRandomAddrs name = some request)
    (hinPma : request.inPma = false) (hbase : pool.heap.Lookups base) :
    Held start { pool with heap := base, randomAddrs := insert pool.randomAddrs name a } := by
  obtain ⟨_, hentries, hgrown, hkeep⟩ := hbase.keep
  obtain ⟨hpositive, hkeep⟩ := hkeep hheld.positive
  refine ⟨hpositive, hheld.named, hheld.asks_of_same fun id => (hgrown id).attributes, hheld.assigned, ?_⟩
  intro name' request' a' hparsed' hinPma' hrecorded'
  have hne : name' ≠ name := by
    rintro rfl
    rw [Option.some.inj (hparsed'.symm.trans hparsed), hinPma] at hinPma'
    cases hinPma'
  rw [get?_insert_ne _ _ hne] at hrecorded'
  obtain ⟨region, hinfo, hholds⟩ := hheld.holds name' request' a' hparsed' hinPma' hrecorded'
  exact ⟨region, hinfo, hkeep region a' _ hholds⟩

theorem Held.move {start pool : PmaPool} {name : String} {request : ParsedRandomAddress} {region : ℕ}
    {base : PmaHeap} {a : ℤ} (hheld : Held start pool) (hparsed : get? pool.parsedRandomAddrs name = some request)
    (hinfo : request.pmaInfo = some region) (hbase : pool.heap.Lookups base) (hfits : pool.Fits base request region a) :
    Held start { pool with
      heap := base.place region (regionSize (base.objects region) request) a
      randomAddrs := insert pool.randomAddrs name a } := by
  obtain ⟨_, hentries, hgrown, hkeep⟩ := hbase.keep
  obtain ⟨hpositive, hkeep⟩ := hkeep hheld.positive
  refine ⟨PmaHeap.place_positive hpositive hfits.room.1, hheld.named,
    hheld.asks_of_same fun id => (PmaHeap.place_attrKey id).trans (hgrown id).attributes, hheld.assigned, ?_⟩
  intro name' request' a' hparsed' hinPma' hrecorded'
  by_cases hname : name' = name
  · subst hname
    rw [get?_insert_self] at hrecorded'
    obtain rfl := Option.some.inj hrecorded'
    obtain rfl : request = request' := Option.some.inj (hparsed.symm.trans hparsed')
    have hroom := hfits.room.2
    exact ⟨region, hinfo, PmaHeap.place_holds_self le_rfl (by omega) hfits.unshadowed⟩
  · rw [get?_insert_ne _ _ hname] at hrecorded'
    obtain ⟨region', hinfo', hholds⟩ := hheld.holds name' request' a' hparsed' hinPma' hrecorded'
    refine ⟨region', hinfo', ?_⟩
    by_cases hregion : region' = region
    · subst hregion
      obtain ⟨hstart, hstop⟩ := hfits.sharers name' request' a' ⟨hparsed', hinPma', hinfo', hrecorded'⟩
      exact PmaHeap.place_holds_self hstart hstop hfits.unshadowed
    · exact (hkeep region' a' _ hholds).place hregion
        (hfits.shadowsNone name' request' region' a' ⟨hparsed', hinPma', hinfo', hrecorded'⟩)

theorem Held.step {start pool pool' : PmaPool} {name : String} {outcome : Outcome} (hheld : Held start pool)
    (hkeeps : pool.Keeps name outcome) (h : pool.handleRandomAddr name outcome = .ok pool') : Held start pool' := by
  obtain ⟨request, address, heap, heap', hparsed, _, _, hupdate, _⟩ := handleRandomAddr_cases h
  have hassigned : ∀ other, get? pool.preAllocatedPmaRegions request.name = some other →
      request.inPma = true ∧ request.pmaInfo = some other := by
    intro other hother
    rw [hheld.named name request hparsed] at hother
    obtain ⟨request', hparsed', hinPma', hinfo'⟩ := hheld.assigned name other hother
    obtain rfl : request = request' := Option.some.inj (hparsed.symm.trans hparsed')
    exact ⟨hinPma', hinfo'⟩
  by_cases hinPma : request.inPma = true
  · cases hinfo : request.pmaInfo with
    | none =>
        unfold updatePma at hupdate
        simp only [hinPma, hinfo, if_true] at hupdate
        cases hupdate
    | some region =>
        obtain ⟨base, a, hbase, hfits, rfl⟩ := handleRandomAddr_place hparsed hinPma hinfo
          (fun other hother => Option.some.inj ((hassigned other hother).2.symm.trans hinfo)) hkeeps h
        exact hheld.move hparsed hinfo hbase hfits
  · have hnone : get? pool.preAllocatedPmaRegions request.name = none := by
      cases hother : get? pool.preAllocatedPmaRegions request.name with
      | none => rfl
      | some other => exact absurd (hassigned other hother).1 hinPma
    obtain ⟨base, a, hbase, rfl⟩ := handleRandomAddr_outside hparsed (Bool.not_eq_true _ ▸ hinPma) hnone h
    exact hheld.outside hparsed (Bool.not_eq_true _ ▸ hinPma) hbase

theorem Held.run {start pool pool' : PmaPool} (hheld : Held start pool) (hrun : Run Keeps pool pool') :
    Held start pool' := by
  induction hrun with
  | start => exact hheld
  | step _ hkeeps hstep ih => exact ih.step hkeeps hstep

end PmaPool
end Riescue.Pma
