import Riescue.Pma
import Riescue.LibOrderedDict
import Riescue.RandNum
import Mathlib.Data.Int.Bitwise
import Mathlib.Logic.Function.Basic

/-! The PMA regions of the pool while physical addresses are generated: `generator.py` from the pre-allocation of
regions to `handle_random_addr`, and `Pool.add_random_addr`. `PmaInfo` objects are shared by reference, so a heap
holds them and everything else refers to them by number. The address that `AddrGen` generates for a request is an
input, and so is whether the address is marked secure. -/

namespace Riescue.Pma
open StableSort

/-- The `PmaInfo` objects, the first unused number, and `_entries` of the `PmaRegion` of the pool. -/
structure PmaHeap where
  objects : ℕ → PmaInfo
  fresh : ℕ
  entries : List ℕ

namespace PmaHeap

/-- The loop of `consolidated_entries` from the last region on, over the objects themselves. -/
def consolidateFrom (last : ℕ) : List ℕ → (ℕ → PmaInfo) → List ℕ × (ℕ → PmaInfo)
  | [], objects => ([last], objects)
  | entry :: entries, objects =>
      match turn (objects last) (objects entry) with
      | .append =>
          let (kept, objects) := consolidateFrom entry entries objects
          (last :: kept, objects)
      | .skip => consolidateFrom last entries objects
      | .grow pmaSize =>
          consolidateFrom last entries (Function.update objects last ((objects last).resize pmaSize))

/-- `consolidated_entries` -/
def consolidatedEntries (heap : PmaHeap) : Except PmaFault (List ℕ) × PmaHeap :=
  match sortBy (fun entry => (heap.objects entry).pmaAddress) heap.entries with
  | [] => (.error .indexError, heap)
  | first :: rest =>
      let (kept, objects) := consolidateFrom first rest heap.objects
      (.ok kept, { heap with objects := objects, entries := first :: rest })

/-- `find_region_for_address` -/
def findRegionForAddress (heap : PmaHeap) (address : ℤ) : Except PmaFault (Option ℕ) × PmaHeap :=
  let (result, heap) := heap.consolidatedEntries
  (result.map fun kept => kept.find? fun region => (heap.objects region).containsAddress address, heap)

/-- `add_entry` -/
def addEntry (heap : PmaHeap) (region : ℕ) : PmaHeap := { heap with entries := heap.entries ++ [region] }

/-- A new object. -/
def alloc (heap : PmaHeap) (info : PmaInfo) : ℕ × PmaHeap :=
  (heap.fresh, { heap with objects := Function.update heap.objects heap.fresh info, fresh := heap.fresh + 1 })

/-- Assignment to `pma_address`. -/
def setAddress (heap : PmaHeap) (region : ℕ) (address : ℤ) : PmaHeap :=
  { heap with objects := Function.update heap.objects region { heap.objects region with pmaAddress := address } }

/-- Assignment to `pma_size`. -/
def setSize (heap : PmaHeap) (region : ℕ) (size : ℤ) : PmaHeap :=
  { heap with objects := Function.update heap.objects region ((heap.objects region).resize size) }

/-- "Only add to pool if not already added": not when the first region with the address also starts there. -/
def addUnlessFound (heap : PmaHeap) (region : ℕ) (address : ℤ) : Except PmaFault PmaHeap :=
  match heap.findRegionForAddress address with
  | (.error fault, _) => .error fault
  | (.ok none, heap) => .ok (heap.addEntry region)
  | (.ok (some existing), heap) =>
      if (heap.objects existing).pmaAddress ≠ address then .ok (heap.addEntry region) else .ok heap

end PmaHeap

/-- `ParsedRandomAddress` of a physical address: the fields read for it here. -/
structure ParsedRandomAddress where
  name : String
  size : ℕ := 0x1000
  andMask : ℕ := 0xFFFFFFFFFFFFFFFF
  inPma : Bool := false
  pmaInfo : Option ℕ := none
  deriving DecidableEq, Repr

/-- What is left to chance for one request: the result of `AddrGen.generate_address`, `none` when it raises,
whether the address is marked secure, and the draws inside a region. -/
structure Outcome where
  generated : Option ℤ
  markedSecure : Bool
  rng : RandNum

inductive PoolFault where
  | pma (fault : PmaFault)
  /-- "Encountered exception generating physical address" -/
  | notGenerated (name : String)
  /-- "already exist in random_addr, trying to add again" -/
  | alreadyExists (name : String)
  /-- "PMA info is not specified" -/
  | noPmaInfo (name : String)
  /-- `KeyError` of a name that was never parsed -/
  | notParsed (name : String)
  deriving DecidableEq, Repr

/-- The parts of the generator and its pool that take part. -/
structure PmaPool where
  heap : PmaHeap
  parsedRandomAddrs : List (String × ParsedRandomAddress)
  randomAddrs : List (String × ℤ)
  preAllocatedPmaRegions : List (String × ℕ)

/-- The attributes that requests are compared by, `attr_key`. -/
structure AttrKey where
  memoryType : MemoryType
  cacheability : Cacheability
  combining : Combining
  read : Bool
  write : Bool
  execute : Bool
  amoType : AmoType
  routingTo : RoutingTo
  deriving DecidableEq, Repr

def PmaInfo.attrKey (info : PmaInfo) : AttrKey where
  memoryType := info.pmaMemoryType
  cacheability := info.pmaCacheability
  combining := info.pmaCombining
  read := info.pmaRead
  write := info.pmaWrite
  execute := info.pmaExecute
  amoType := info.pmaAmoType
  routingTo := info.pmaRoutingTo

namespace PmaPool

/-! ### Pre-allocation -/

/-- `_find_matching_pma_region`, with the heap that `consolidated_entries` leaves. -/
def findMatchingPmaRegion (heap : PmaHeap) (pmaInfo : PmaInfo) : Except PmaFault (Option ℕ) × PmaHeap :=
  let (result, heap) := heap.consolidatedEntries
  (result.map fun kept => kept.find? fun region =>
    decide ((heap.objects region).attrKey = pmaInfo.attrKey ∧ pmaInfo.pmaSize ≤ (heap.objects region).pmaSize), heap)

/-- The variables of the loop of `_pre_allocate_pma_regions_for_in_pma`. -/
structure PreAllocation where
  pool : PmaPool
  byAttrs : List (AttrKey × ℕ)
  availableSlots : ℤ

/-- "Ensure pma_info exists", and the default of its size. -/
def ensurePmaInfo (heap : PmaHeap) (parsed : ParsedRandomAddress) : ℕ × PmaHeap :=
  let (info, heap) :=
    match parsed.pmaInfo with
    | some info => (info, heap)
    | none => heap.alloc {}
  (info, if (heap.objects info).pmaSize = 0 then heap.setSize info parsed.size else heap)

/-- The region of the same attributes that was pre-allocated before, when it is large enough. -/
def sharedRegion (byAttrs : List (AttrKey × ℕ)) (heap : PmaHeap) (info : PmaInfo) : Option ℕ :=
  match OrderedDict.get? byAttrs info.attrKey with
  | none => none
  | some existing => if info.pmaSize ≤ (heap.objects existing).pmaSize then some existing else none

/-- One turn of the loop, for an address with `in_pma`. -/
def preAllocateOne (state : PreAllocation) (addrName : String) (parsed : ParsedRandomAddress) :
    Except PmaFault PreAllocation :=
  if state.availableSlots ≤ 0 then .ok state
  else
    let (info, heap) := ensurePmaInfo state.pool.heap parsed
    match findMatchingPmaRegion heap (heap.objects info) with
    | (.error fault, _) => .error fault
    | (.ok matching, heap) =>
        let assign (heap : PmaHeap) (region : ℕ) : PmaPool :=
          { state.pool with
            heap := heap
            parsedRandomAddrs :=
              OrderedDict.insert state.pool.parsedRandomAddrs addrName { parsed with pmaInfo := some region }
            preAllocatedPmaRegions := OrderedDict.insert state.pool.preAllocatedPmaRegions addrName region }
        match matching.orElse fun _ => sharedRegion state.byAttrs heap (heap.objects info) with
        | some region => .ok { state with pool := assign heap region }
        | none =>
            -- the placeholder address 0 is replaced when the address is generated
            let (region, heap) := heap.alloc
              { heap.objects info with pmaName := "pma_" ++ addrName, pmaAddress := 0 }
            .ok
              { pool := assign heap region
                byAttrs := OrderedDict.insert state.byAttrs (heap.objects region).attrKey region
                availableSlots := state.availableSlots - 1 }

/-- `_pre_allocate_pma_regions_for_in_pma` -/
def preAllocate (pool : PmaPool) (maxRegions : ℕ) : Except PmaFault PmaPool :=
  match pool.heap.consolidatedEntries with
  | (.error fault, _) => .error fault
  | (.ok kept, heap) =>
      let inPmaAddresses := pool.parsedRandomAddrs.filter fun entry => entry.2.inPma
      let start : PreAllocation := ⟨{ pool with heap := heap }, [], (maxRegions : ℤ) - kept.length⟩
      (inPmaAddresses.foldlM (fun state entry => preAllocateOne state entry.1 entry.2) start).map
        PreAllocation.pool

/-! ### Generating the address of a request -/

/-- `_generate_address_in_pma_region` -/
def generateAddressInPmaRegion (region : PmaInfo) (size mask : ℕ) (rng : RandNum) : Option ℤ × RandNum :=
  let minAddr := region.pmaAddress
  let regionEnd := region.getEndAddress
  let maxAddr := regionEnd - size
  if maxAddr < minAddr ∨ region.pmaSize < size then (none, rng)
  else if maxAddr ≤ minAddr then (none, rng)
  else
    match rng.randomInRange minAddr maxAddr with
    | (none, rng) => (none, rng)
    | (some address, rng) =>
        let address := Int.land address mask
        let address := if address < minAddr then Int.land (minAddr + mask) (Int.lnot mask) else address
        (if regionEnd < address + size then none else some address, rng)

/-- A region that already has an address and room for the request is tried first. -/
def reuse (pool : PmaPool) (request : ParsedRandomAddress) (rng : RandNum) : Option ℤ × RandNum :=
  match OrderedDict.get? pool.preAllocatedPmaRegions request.name with
  | none => (none, rng)
  | some region =>
      let info := pool.heap.objects region
      if info.pmaAddress ≠ 0 ∧ (request.size : ℤ) ≤ info.pmaSize then
        generateAddressInPmaRegion info request.size request.andMask rng
      else (none, rng)

/-- "Normal address generation", with what it does to a pre-allocated region. -/
def generateNormally (pool : PmaPool) (request : ParsedRandomAddress) (generated : Option ℤ) (rng : RandNum) :
    Except PoolFault (ℤ × PmaHeap) :=
  match generated with
  | none => .error (.notGenerated request.name)
  | some address =>
      -- `generate_address` looks up the region of the address for its log
      match pool.heap.findRegionForAddress address with
      | (.error fault, _) => .error (.pma fault)
      | (.ok _, heap) =>
          match OrderedDict.get? pool.preAllocatedPmaRegions request.name with
          | none => .ok (address, heap)
          | some region =>
              if (heap.objects region).pmaAddress = 0 then
                match (heap.setAddress region address).addUnlessFound region address with
                | .error fault => .error (.pma fault)
                | .ok heap => .ok (address, heap)
              else
                let info := heap.objects region
                if (request.size : ℤ) ≤ info.pmaSize ∧ info.pmaAddress ≤ info.getEndAddress - request.size then
                  let inRegion := (generateAddressInPmaRegion info request.size request.andMask rng).1
                  .ok (inRegion.getD address, heap)
                else .ok (address, heap)

/-- The address of the request before it is marked secure. -/
def generatePhysical (pool : PmaPool) (request : ParsedRandomAddress) (outcome : Outcome) :
    Except PoolFault (ℤ × PmaHeap) :=
  match pool.reuse request outcome.rng with
  | (some address, _) => .ok (address, pool.heap)
  | (none, rng) => pool.generateNormally request outcome.generated rng

/-- The PMA part of `add_random_addr`. -/
def updatePma (heap : PmaHeap) (parsed : ParsedRandomAddress) (address : ℤ) : Except PoolFault PmaHeap :=
  if parsed.inPma then
    match parsed.pmaInfo with
    | none => .error (.noPmaInfo parsed.name)
    | some region =>
        let heap := if (heap.objects region).pmaSize = 0 then heap.setSize region parsed.size else heap
        if (heap.objects region).pmaAddress = 0 then
          match (heap.setAddress region address).addUnlessFound region address with
          | .error fault => .error (.pma fault)
          | .ok heap => .ok heap
        else if (heap.objects region).pmaAddress ≠ address then .ok (heap.setAddress region address)
        else .ok heap
  else .ok heap

/-- `add_random_addr` of a physical address. -/
def addRandomAddr (pool : PmaPool) (addrName : String) (address : ℤ) : Except PoolFault PmaPool :=
  if (OrderedDict.get? pool.randomAddrs addrName).isSome then .error (.alreadyExists addrName)
  else
    let pool := { pool with randomAddrs := OrderedDict.insert pool.randomAddrs addrName address }
    match OrderedDict.get? pool.parsedRandomAddrs addrName with
    | none => .ok pool
    | some parsed => (updatePma pool.heap parsed address).map fun heap => { pool with heap := heap }

/-- The recorded address: bit 55 marks it as secure. -/
def markSecure (outcome : Outcome) (address : ℤ) : ℤ :=
  if outcome.markedSecure then Int.lor address (2 ^ 55) else address

/-- `handle_random_addr` of a physical address. -/
def handleRandomAddr (pool : PmaPool) (addrName : String) (outcome : Outcome) : Except PoolFault PmaPool :=
  match OrderedDict.get? pool.parsedRandomAddrs addrName with
  | none => .error (.notParsed addrName)
  | some request =>
      match pool.generatePhysical request outcome with
      | .error fault => .error fault
      | .ok (address, heap) => addRandomAddr { pool with heap := heap } addrName (markSecure outcome address)

end PmaPool
end Riescue.Pma
