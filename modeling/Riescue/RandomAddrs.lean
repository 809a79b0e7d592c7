import Riescue.AddrgenFacade
import Riescue.PagingModes
import Riescue.PmaPlacing
import Riescue.PmaPool

/-! Physical random addresses, `Generator.handle_random_addr`. The address of a request comes from the address
generator, which allocates it, or from the PMA region that was pre-allocated for the request, which does not; a
secure address is marked in bit 55. -/

namespace Riescue.RandomAddrs
open Addrgen Pma Paging

/-- The fields of a `ParsedRandomAddress` that no call changes. -/
structure AddrDetails where
  io : Bool := false
  addrBits : Option ℕ := none
  orMask : ℕ := 0
  secure : Bool := false
  customRegion : Option String := none

/-- What is read of a `ParsedPageMapping` after its page size has been drawn. -/
structure MappedPage where
  physName : String
  finalPagesize : RiscvPageSizes
  gstageVsLeafAddressSize : ℕ := 0
  gstageVsLeafAddressMask : ℕ := 0

/-- What is read of the generator and of `featmgr`. -/
structure Setup where
  pagingDisabled : Bool := false
  /-- `paging_g_mode != DISABLE` -/
  gstage : Bool := false
  secureMode : Bool := false
  secureAccessProbability : ℕ := 0
  physicalAddrBits : ℕ := 52
  details : String → AddrDetails := fun _ => {}
  /-- the parsed page mappings by the name of their linear address -/
  pageMappings : List (String × List MappedPage) := []

/-- What `handle_random_addr` can raise. -/
inductive AddrFault where
  /-- `KeyError` of a name that was never parsed -/
  | notParsed (name : String)
  /-- "Encountered exception generating physical address" -/
  | notGenerated (name : String)
  | pma (fault : PmaFault)
  | pool (fault : PoolFault)
  | reserve (fault : GenerateFault)

/-- A recorded address with the size of its request. -/
structure Recorded where
  name : String
  address : ℤ
  size : ℕ

/-- The state that the calls thread through. `recorded` is auxiliary: what was added to the pool. -/
structure State where
  pool : PmaPool
  addrgen : AddrGen
  rng : RandNum
  recorded : List Recorded

/-! ### What is asked for -/

/-- The size and the mask for a page of a mapping. -/
def pageRequirement (setup : Setup) (page : MappedPage) : ℕ × ℕ :=
  let size := page.finalPagesize.memory
  let mask := page.finalPagesize.addressMask
  -- with g-stage paging this is a guest physical address, aligned to the g-stage page too
  if setup.gstage then (max size page.gstageVsLeafAddressSize, min mask page.gstageVsLeafAddressMask)
  else (size, mask)

/-- "also update address_bits/mask for the physical address" -/
def growPhysical (setup : Setup) (page : MappedPage) (pool : PmaPool) : PmaPool :=
  let (size, mask) := pageRequirement setup page
  match OrderedDict.get? pool.parsedRandomAddrs page.physName with
  | none => pool
  | some parsed =>
      if (setup.details page.physName).customRegion = none then
        { pool with
          parsedRandomAddrs :=
            OrderedDict.insert pool.parsedRandomAddrs page.physName
              { parsed with size := max size parsed.size, andMask := mask &&& parsed.andMask } }
      else pool

/-- The mappings whose linear address has the name of the request. -/
def mappedPages (setup : Setup) (name : String) : List MappedPage :=
  if setup.pagingDisabled = false ∧ (setup.details name).customRegion = none then
    (OrderedDict.get? setup.pageMappings name).getD []
  else []

/-- `phys_address_size` and `phys_address_mask`: those of the request, or those of the last mapping. -/
def requirement (setup : Setup) (name : String) (request : ParsedRandomAddress) : ℕ × ℕ :=
  (mappedPages setup name).foldl (fun _ page => pageRequirement setup page) (request.size, request.andMask)

/-- Whether the address is marked secure before `io` and `custom_region` are looked at. -/
def drawSecure (setup : Setup) (name : String) (rng : RandNum) : Bool × RandNum :=
  if setup.secureMode then
    if (setup.details name).secure then (true, rng) else rng.withProbabilityOf setup.secureAccessProbability
  else (false, rng)

/-- `addr_q` -/
def qualifiers (details : AddrDetails) (secure : Bool) : List AddressQualifiers :=
  if details.io then [.addressMmio] else if secure then [.addressSecure] else [.addressDram]

/-- `marked_secure` -/
def markedSecure (details : AddrDetails) (secure : Bool) : Bool :=
  secure && !details.io && decide (details.customRegion = none)

def addrBits (setup : Setup) (name : String) : ℕ := (setup.details name).addrBits.getD setup.physicalAddrBits

/-- The constraint for the address generator. -/
def constraint (setup : Setup) (name : String) (request : ParsedRandomAddress) (secure : Bool) : AddressConstraint :=
  let details := setup.details name
  { type := .physical
    qualifiers := qualifiers details secure
    bits := addrBits setup name
    size := (requirement setup name request).1
    mask := (requirement setup name request).2
    orMask := details.orMask }

/-! ### Where the address comes from -/

/-- An address in a region that has one and is large enough. -/
def reuse (pool : PmaPool) (name : String) (constraint : AddressConstraint) (rng : RandNum) : Option ℤ × RandNum :=
  match OrderedDict.get? pool.preAllocatedPmaRegions name with
  | none => (none, rng)
  | some region =>
      let info := pool.heap.objects region
      if info.pmaAddress ≠ 0 ∧ (constraint.size : ℤ) ≤ info.pmaSize then
        generateAddressInPmaRegion info constraint rng
      else (none, rng)

/-- What becomes of a generated address when a region was pre-allocated: a region without an address takes it,
and in a region that has one another address is tried. -/
def settle (pool : PmaPool) (heap : PmaHeap) (name : String) (constraint : AddressConstraint) (address : ℤ)
    (rng : RandNum) : Except AddrFault (ℤ × PmaHeap × RandNum) :=
  match OrderedDict.get? pool.preAllocatedPmaRegions name with
  | none => .ok (address, heap, rng)
  | some region =>
      let info := heap.objects region
      if info.pmaAddress = 0 then
        match (heap.setAddress region address).addUnlessFound region address with
        | .error fault => .error (.pma fault)
        | .ok heap => .ok (address, heap, rng)
      else if (constraint.size : ℤ) ≤ info.pmaSize ∧ info.pmaAddress ≤ info.getEndAddress - constraint.size then
        let (inRegion, rng) := generateAddressInPmaRegion info constraint rng
        .ok (inRegion.getD address, heap, rng)
      else .ok (address, heap, rng)

/-- "Normal address generation" -/
def generateNormally (setup : Setup) (name : String) (constraint : AddressConstraint) (state : State) :
    Except AddrFault (ℤ × State) :=
  match state.addrgen.generateAddress constraint (setup.details name).customRegion state.rng with
  | (.error _, _, _) => .error (.notGenerated name)
  | (.ok address, addrgen, rng) =>
      -- the region of the address is looked up for a log message
      match state.pool.heap.findRegionForAddress address with
      | (.error _, _) => .error (.notGenerated name)
      | (.ok _, heap) =>
          settle state.pool heap name constraint address rng >>= fun out =>
            .ok (out.1, { state with pool := { state.pool with heap := out.2.1 }, addrgen := addrgen, rng := out.2.2 })

/-- The address of a request, before it is marked. -/
def generatePhysical (setup : Setup) (name : String) (constraint : AddressConstraint) (state : State) :
    Except AddrFault (ℤ × State) :=
  match reuse state.pool name constraint state.rng with
  | (some address, rng) => .ok (address, { state with rng := rng })
  | (none, rng) => generateNormally setup name constraint { state with rng := rng }

/-! ### Recording it -/

/-- `address | (1 << 55)` of a secure address. -/
def markAddress (secure : Bool) (address : ℤ) : ℤ := if secure then Int.lor address (2 ^ 55) else address

/-- With paging disabled the linear address is the physical one, and both are reserved. -/
def reserveIdentically (setup : Setup) (address : ℤ) (size : ℕ) (addrgen : AddrGen) : Except AddrFault AddrGen :=
  if setup.pagingDisabled then
    match addrgen.reserveMemory .physical address.toNat size false with
    | (.error fault, _) => .error (.reserve fault)
    | (.ok _, addrgen) =>
        match addrgen.reserveMemory .linear address.toNat size false with
        | (.error fault, _) => .error (.reserve fault)
        | (.ok _, addrgen) => .ok addrgen
  else .ok addrgen

/-- `add_random_addr`, and the reservations. -/
def record (setup : Setup) (name : String) (size : ℕ) (address : ℤ) (state : State) : Except AddrFault State := do
  let pool ← (state.pool.addRandomAddr name address).mapError .pool
  let addrgen ← reserveIdentically setup address size state.addrgen
  pure { state with pool := pool, addrgen := addrgen, recorded := ⟨name, address, size⟩ :: state.recorded }

/-- `handle_random_addr` for the request of a name. -/
def handleRandomAddr (setup : Setup) (name : String) (state : State) : Except AddrFault State :=
  match OrderedDict.get? state.pool.parsedRandomAddrs name with
  | none => .error (.notParsed name)
  | some request =>
      let pool := (mappedPages setup name).foldl (fun pool page => growPhysical setup page pool) state.pool
      let (secure, rng) := drawSecure setup name state.rng
      let constraint := constraint setup name request secure
      generatePhysical setup name constraint { state with pool := pool, rng := rng } >>= fun out =>
        record setup name request.size (markAddress (markedSecure (setup.details name) secure) out.1) out.2

/-- The requests of a list, one after another. -/
def handleRandomAddrs (setup : Setup) : List String → State → Except AddrFault State
  | [], state => .ok state
  | name :: names, state => handleRandomAddr setup name state >>= handleRandomAddrs setup names

end Riescue.RandomAddrs
