import Riescue.AddrgenSpace
import Riescue.LibOrderedDict

/-! The address generator, `addrgen/address_generator.py`: a linear and a physical address space behind one
interface. The object of the PMA regions is left out, it is only asked for a log message. Methods that change
the generator return it next to their result, also when they raise. -/

namespace Riescue.Addrgen

/-- A memory range, with `end` as `start + size - 1`; the configuration refuses an empty one. -/
structure MemoryRange where
  start : ℕ
  size : ℕ
  pos : 0 < size

theorem twoGigabytes_pos : 0 < 0x80000000 := by decide

def MemoryRange.stop (range : MemoryRange) : ℕ := range.start + range.size - 1

/-- The ranges of the memory map. -/
structure Memory where
  dramRanges : List MemoryRange
  ioRanges : List MemoryRange
  secureRanges : List MemoryRange
  reservedRanges : List MemoryRange
  customRanges : List (String × MemoryRange)

/-- What `generate_address` can raise. All but the last two are an `AddrGenError`, and of the faults of the
address spaces those that are one. -/
inductive GenerateFault where
  | customRegionNotFound (customRegion : String) (known : List String)
  | invalidConstraint (message : String)
  | restricted (address : ℤ)
  | noPhysicalAddress
  | addressSpace (fault : AddrGenFault)
  /-- `TypeError`: "Unknown address type" -/
  | unknownAddressType
  deriving DecidableEq, Repr

/-- `AddrGen` -/
structure AddrGen where
  linearAddrSpace : AddressSpace
  physicalAddrSpace : AddressSpace
  limitIndices : Bool
  limitWayPredictorMultihit : Bool
  restrictedIndices : ℕ → ℕ
  customRegions : List (String × ℕ × ℕ)

/-- `_subtract_inclusive_span` -/
def subtractInclusiveSpan (lo hi holeLo holeHi : ℤ) : List (ℤ × ℤ) :=
  if hi < lo then []
  else
    let hs := max lo holeLo
    let he := min hi holeHi
    if he < hs then [(lo, hi)]
    else (if lo ≤ hs - 1 then [(lo, hs - 1)] else []) ++ if he + 1 ≤ hi then [(he + 1, hi)] else []

/-- `validate_constraints` -/
def AddressConstraint.validateConstraints (constraint : AddressConstraint) : Except GenerateFault Unit :=
  if constraint.type = .none then .error (.invalidConstraint "Address type cannot be NONE")
  else if constraint.size = 0 then .error (.invalidConstraint "Address size cannot be 0")
  else if constraint.mask = 0 then .error (.invalidConstraint "Address mask cannot be 0")
  else if constraint.start > constraint.stop then
    .error (.invalidConstraint "Address start cannot be greater than address end")
  else if constraint.orMask ≠ 0 ∧ bitLength constraint.orMask > bitLength constraint.mask then
    .error (.invalidConstraint "Address or_mask cannot be greater than address and_mask")
  else .ok ()

/-- `common.bits` -/
def bits (value bitHi bitLo : ℕ) : ℕ := (value &&& (2 ^ (bitHi - bitLo + 1) - 1) <<< bitLo) >>> bitLo

/-- `common.bitn` -/
def bitn (value bit : ℕ) : ℕ := value >>> bit &&& 1

/-- The `way_p_hash` of an address. -/
def wayPHash (address : ℕ) : ℕ :=
  bits address 26 16 ^^^ bits address 37 27 ^^^ bits address 48 38 ^^^
    (bits address 18 16 <<< 8 ||| bitn address 56 <<< 7 ||| bitn address 19 <<< 6 ||| bitn address 54 <<< 5 |||
      bitn address 21 <<< 4 ||| bits address 52 49)

namespace AddrGen

/-! ### The constructor -/

/-- A call on an address space inside the constructor, whose exceptions end the construction. -/
def construct (out : Except AddrGenFault Unit × AddressSpace) : Except AddrGenFault AddressSpace :=
  out.1.map fun _ => out.2

/-- `define_segment` for every range of a list. -/
def defineSegments (qualifier : AddressQualifiers) :
    List MemoryRange → AddressSpace → Except AddrGenFault AddressSpace
  | [], space => .ok space
  | range :: ranges, space => do
      let space ← construct (space.defineSegment qualifier range.start range.stop)
      defineSegments qualifier ranges space

/-- The spans of a reserved range outside the custom ranges. -/
def outsideHoles (customRanges : List (String × MemoryRange)) (range : MemoryRange) : List (ℤ × ℤ) :=
  let spanHi : ℤ := range.stop - 1
  customRanges.foldl
    (fun segments custom => segments.flatMap fun segment =>
      subtractInclusiveSpan segment.1 segment.2 custom.2.start custom.2.stop)
    (if (range.start : ℤ) ≤ spanHi then [((range.start : ℤ), spanHi)] else [])

/-- Reserving spans in a space. -/
def reserveSpans : List (ℤ × ℤ) → AddressSpace → Except AddrGenFault AddressSpace
  | [], space => .ok space
  | (lo, hi) :: spans, space =>
      if lo ≤ hi then do
        let space ← construct (space.reserveMemory lo.toNat hi.toNat false)
        reserveSpans spans space
      else reserveSpans spans space

/-- The loop of `__init__` over the reserved ranges, in the physical and the linear space. -/
def reserveRanges (customRanges : List (String × MemoryRange)) :
    List MemoryRange → AddressSpace × AddressSpace → Except AddrGenFault (AddressSpace × AddressSpace)
  | [], spaces => .ok spaces
  | range :: ranges, (physical, linear) => do
      let spans := outsideHoles customRanges range
      let physical ← reserveSpans spans physical
      let linear ← reserveSpans spans linear
      let physical ← construct (physical.defineSegment .addressReserved range.start range.stop)
      reserveRanges customRanges ranges (physical, linear)

/-- `__init__` -/
def init (mem : Memory) (limitIndices limitWayPredictorMultihit : Bool) : Except AddrGenFault AddrGen := do
  let physical ← defineSegments .addressDram mem.dramRanges AddressSpace.init
  let physical ← defineSegments .addressMmio mem.ioRanges physical
  let physical ← defineSegments .addressSecure mem.secureRanges physical
  let spaces ← reserveRanges mem.customRanges mem.reservedRanges (physical, AddressSpace.init)
  let physical ← defineSegments .addressCustom (mem.customRanges.map Prod.snd) spaces.1
  let linear ← construct (spaces.2.defineSegment .addressLinear 0 (2 ^ 57 - 1))
  pure
    { linearAddrSpace := linear
      physicalAddrSpace := physical
      limitIndices := limitIndices
      limitWayPredictorMultihit := limitWayPredictorMultihit
      restrictedIndices := fun _ => 0
      customRegions := mem.customRanges.foldl
        (fun regions custom => OrderedDict.insert regions custom.1 (custom.2.start, custom.2.stop)) [] }

/-! ### Reserving memory -/

/-- `reserve_memory` of the linear space, with the exception of a range that ends below address zero. -/
def reserveLinear (gen : AddrGen) (start stop : ℤ) (interestingAddress : Bool) :
    Except GenerateFault Unit × AddrGen :=
  if stop < 0 then (.error (.addressSpace .nullInterval), gen)
  else
    let out := gen.linearAddrSpace.reserveMemory start.toNat stop.toNat interestingAddress
    (out.1.mapError .addressSpace, { gen with linearAddrSpace := out.2 })

/-- `reserve_memory` of the physical space. -/
def reservePhysical (gen : AddrGen) (start stop : ℤ) (interestingAddress : Bool) :
    Except GenerateFault Unit × AddrGen :=
  if stop < 0 then (.error (.addressSpace .nullInterval), gen)
  else
    let out := gen.physicalAddrSpace.reserveMemory start.toNat stop.toNat interestingAddress
    (out.1.mapError .addressSpace, { gen with physicalAddrSpace := out.2 })

/-- `reserve_memory` -/
def reserveMemory (gen : AddrGen) (addressType : AddressType) (startAddress size : ℕ) (interestingAddress : Bool) :
    Except GenerateFault Unit × AddrGen :=
  let endAddress : ℤ := startAddress + size - 1
  match addressType with
  | .linear => gen.reserveLinear startAddress endAddress interestingAddress
  | .physical => gen.reservePhysical startAddress endAddress interestingAddress
  | .memory =>
      match gen.reserveLinear startAddress endAddress interestingAddress with
      | (.error fault, gen) => (.error fault, gen)
      | (.ok _, gen) => gen.reservePhysical startAddress endAddress interestingAddress
  | _ => (.error .unknownAddressType, gen)

/-! ### Generating an address -/

/-- `_check_linear_addr_restrictions`: with `limit_indices` the check is left at once. -/
def checkLinearAddrRestrictions (gen : AddrGen) (address : ℤ) : Bool :=
  if gen.limitIndices then false
  else if gen.limitWayPredictorMultihit then decide (wayPHash address.toNat = 0)
  else false

/-- A call of `generate_address` on the linear space. -/
def generateLinear (gen : AddrGen) (constraint : AddressConstraint) (rng : RandNum) :
    Except GenerateFault ℤ × AddrGen × RandNum :=
  let out := gen.linearAddrSpace.generateAddress constraint rng
  (out.1.mapError .addressSpace, { gen with linearAddrSpace := out.2.1 }, out.2.2)

/-- A call of `generate_address` on the physical space. -/
def generatePhysical (gen : AddrGen) (constraint : AddressConstraint) (rng : RandNum) :
    Except GenerateFault ℤ × AddrGen × RandNum :=
  let out := gen.physicalAddrSpace.generateAddress constraint rng
  (out.1.mapError .addressSpace, { gen with physicalAddrSpace := out.2.1 }, out.2.2)

/-- Whether neither space has something allocated at the address; the linear space is not asked when the
physical one has. -/
def bothFree (gen : AddrGen) (address : ℤ) (size : ℕ) : Except AddrGenFault Bool := do
  let physical ← gen.physicalAddrSpace.checkOverlap address.toNat (address.toNat + size)
  if physical then pure false
  else
    let linear ← gen.linearAddrSpace.checkOverlap address.toNat (address.toNat + size)
    pure !linear

/-- The loop of `_generate_and_reserve_memory`, which tries ten times. -/
def generateAndReserveMemory (constraint : AddressConstraint) :
    ℕ → AddrGen → RandNum → Except GenerateFault ℤ × AddrGen × RandNum
  | 0, gen, rng => (.error .noPhysicalAddress, gen, rng)
  | tries + 1, gen, rng =>
      match gen.generateLinear constraint rng with
      | (.error fault, gen, rng) => (.error fault, gen, rng)
      | (.ok address, gen, rng) =>
          match gen.bothFree address constraint.size with
          | .error fault => (.error (.addressSpace fault), gen, rng)
          | .ok false => generateAndReserveMemory constraint tries gen rng
          | .ok true =>
              if constraint.dontAllocate then (.ok address, gen, rng)
              else
                match gen.reserveLinear address (address + constraint.size) false with
                | (.error fault, gen) => (.error fault, gen, rng)
                | (.ok _, gen) =>
                    let out := gen.reservePhysical address (address + constraint.size) false
                    (out.1.map fun _ => address, out.2, rng)

/-- The bounds and the qualifier of a named custom region. -/
def resolveCustomRegion (gen : AddrGen) (constraint : AddressConstraint) :
    Option String → Except GenerateFault AddressConstraint
  | none => .ok constraint
  | some customRegion =>
      match OrderedDict.get? gen.customRegions customRegion with
      | none => .error (.customRegionNotFound customRegion (gen.customRegions.map Prod.fst))
      | some (start, stop) =>
          .ok { constraint with start := start, stop := stop, qualifiers := [.addressCustom] }

/-- The address before the restrictions are checked. -/
def generateFor (gen : AddrGen) (constraint : AddressConstraint) (rng : RandNum) :
    Except GenerateFault ℤ × AddrGen × RandNum :=
  match constraint.type with
  | .memory => generateAndReserveMemory constraint 10 gen rng
  | .linear => gen.generateLinear constraint rng
  | .physical => gen.generatePhysical constraint rng
  | _ => (.error .unknownAddressType, gen, rng)

/-- The restrictions on a linear address, checked after it has been allocated. -/
def restrict (gen : AddrGen) (constraint : AddressConstraint) (address : ℤ) : Except GenerateFault ℤ × AddrGen :=
  if constraint.type = .physical then (.ok address, gen)
  else if gen.checkLinearAddrRestrictions address then (.error (.restricted address), gen)
  else if gen.limitIndices then
    let index := bits address.toNat 15 6
    (.ok address,
      { gen with restrictedIndices := Function.update gen.restrictedIndices index (gen.restrictedIndices index + 1) })
  else (.ok address, gen)

/-- `generate_address`, for a constraint with an optional `custom_region`. -/
def generateAddress (gen : AddrGen) (constraint : AddressConstraint) (customRegion : Option String)
    (rng : RandNum) : Except GenerateFault ℤ × AddrGen × RandNum :=
  match gen.resolveCustomRegion constraint customRegion with
  | .error fault => (.error fault, gen, rng)
  | .ok constraint =>
      match constraint.validateConstraints with
      | .error fault => (.error fault, gen, rng)
      | .ok _ =>
          match gen.generateFor constraint rng with
          | (.error fault, gen, rng) => (.error fault, gen, rng)
          | (.ok address, gen, rng) =>
              let out := gen.restrict constraint address
              (out.1, out.2, rng)

end AddrGen
end Riescue.Addrgen
