import Riescue.LibNapot

/-! The PMP registers, `lib/pmp.py`: regions are split into naturally aligned power-of-two entries, and
`encode` packs the entries into `pmpaddr` and `pmpcfg` registers. The memory configuration only admits
addresses that are not negative, so addresses are natural numbers here. -/

namespace Riescue.Pmp
open Napot

inductive Xlen where
  | xlen32 | xlen64
  deriving DecidableEq, Repr

def Xlen.value : Xlen → ℕ
  | .xlen32 => 32
  | .xlen64 => 64

inductive PmpAttributes where
  | r | rW | rX | rWX | none
  deriving DecidableEq, Repr

def PmpAttributes.bits : PmpAttributes → ℕ
  | .r => 1
  | .rW => 3
  | .rX => 5
  | .rWX => 7
  | .none => 0

inductive RiscvPmpAddressMatchingModes where
  | off | tor | na4 | napot
  deriving DecidableEq, Repr

namespace RiscvPmpAddressMatchingModes

def value : RiscvPmpAddressMatchingModes → ℕ
  | .off => 0
  | .tor => 1
  | .na4 => 2
  | .napot => 3

def encode (mode : RiscvPmpAddressMatchingModes) : ℕ := mode.value <<< 3

end RiscvPmpAddressMatchingModes

/-- The exceptions raised here, with their texts. -/
inductive PyError where
  | valueError (text : String)
  | typeError (text : String)
  deriving DecidableEq, Repr

/-- The subclasses of `BaseMem`. -/
inductive MemKind where
  | dramRange | customRange | ioRange
  deriving DecidableEq, Repr

/-- A memory range, with the fields that `add_region` reads. -/
structure BaseMem where
  kind : MemKind
  start : ℕ
  size : ℕ
  permissions : PmpAttributes
  deriving DecidableEq, Repr

/-- `DramRange.make_secure`: bit 55 marks the range secure. -/
def BaseMem.makeSecure (range : BaseMem) : BaseMem :=
  { range with start := range.start ||| 0x0080000000000000 }

structure PmpCfg where
  name : String
  value : ℕ
  xlen : Xlen
  deriving DecidableEq, Repr

structure PmpAddr where
  name : String
  address : ℕ
  xlen : Xlen
  addrMatching : RiscvPmpAddressMatchingModes
  deriving DecidableEq, Repr

/-- `PmpAddr.range`: the range that the register describes, as its debug output shows it. -/
def PmpAddr.range (addr : PmpAddr) : Except PyError (ℕ × ℕ) :=
  match addr.addrMatching with
  | .napot =>
      let ones := trailingOnes addr.address
      .ok (Nat.ldiff addr.address ((1 <<< ones) - 1) <<< 2, 1 <<< (ones + 3))
  | .na4 => .ok (Nat.ldiff addr.address 3 * 4, 4)
  | .off => .ok (0, 0)
  | .tor => .error (.valueError "TOR mode not supported for PmpAddr.range()")

structure PmpRegisters where
  cfg : PmpCfg
  addr : List PmpAddr
  deriving DecidableEq, Repr

def pmpaddrName (idx : ℕ) : String := s!"pmpaddr{idx}"

def pmpcfgName (idx : ℕ) : String := s!"pmpcfg{idx}"

structure PmpEntry where
  base : ℕ
  size : ℕ
  perms : PmpAttributes
  addrMatching : RiscvPmpAddressMatchingModes
  deriving DecidableEq, Repr

namespace PmpEntry

/-- `PMP_GRANULE` -/
def pmpGranule : ℕ := 4

def encodeAddr (entry : PmpEntry) : Except PyError ℕ :=
  match entry.addrMatching with
  | .off => .ok 0
  | .tor => .ok ((entry.base + entry.size) / pmpGranule)
  | .na4 =>
      if entry.size ≠ 4 then .error (.valueError "NA4 requires size == 4 bytes")
      else .ok ((entry.base / pmpGranule) ||| 1)
  | .napot =>
      if entry.size < 8 ∨ entry.size &&& (entry.size - 1) ≠ 0 then
        .error (.valueError "NAPOT size must be power-of-two ≥ 8 bytes")
      else
        let sizeGran := entry.size / pmpGranule
        let mask := (sizeGran - 1) >>> 1
        .ok ((entry.base / pmpGranule) ||| mask)

def toPmpaddr (entry : PmpEntry) (idx : ℕ) : Except PyError PmpAddr :=
  entry.encodeAddr.map fun address =>
    { name := pmpaddrName idx, address := address, xlen := .xlen64, addrMatching := entry.addrMatching }

def encodeCfg (entry : PmpEntry) : ℕ := entry.perms.bits ||| entry.addrMatching.encode

end PmpEntry

/-- `PMP_NAPOT_GRANULE` -/
def pmpNapotGranule : ℕ := 8

/-- `NUM_ENTRIES` -/
def numEntries : ℕ := 64

/-- The local variables of the `encode` loop. -/
structure EncodeState where
  registers : List PmpRegisters
  addrRegisters : List PmpAddr
  cfgValue : ℕ
  deriving DecidableEq, Repr

/-- The registers for the pending entries, of which `cfgIdx` is the last. -/
def EncodeState.pending (xlen : Xlen) (cfgIdx : ℕ) (state : EncodeState) : PmpRegisters :=
  let nextCfgIdx := cfgIdx / (xlen.value / 8)
  let nextCfgIdx := if xlen = .xlen64 then nextCfgIdx * 2 else nextCfgIdx
  { cfg := { name := pmpcfgName nextCfgIdx, value := state.cfgValue, xlen := xlen }
    addr := state.addrRegisters }

structure PmpRegion where
  padNapot : Bool
  entries : List PmpEntry
  xlen : Xlen
  deriving DecidableEq, Repr

namespace PmpRegion

/-- `PmpRegion(pad_napot, xlen)` -/
def new (padNapot : Bool) (xlen : Xlen) : PmpRegion := { padNapot, entries := [], xlen }

def isNapot (base size : ℕ) : Bool :=
  if size < pmpNapotGranule then false
  else if size &&& (size - 1) ≠ 0 then false
  else decide (base &&& (size - 1) = 0)

def napotPad (base size : ℕ) : Except PyError (List (ℕ × ℕ)) :=
  let coverSize := 1 <<< Nat.size ((base : ℤ) + size - 1).natAbs
  if coverSize < pmpNapotGranule then
    .error (.valueError "cover_size is less than PMP_NAPOT_GRANULE")
  else .ok [(Nat.ldiff base (coverSize - 1), coverSize)]

/-- The chunk that one turn of the `napot_cover` loop takes. -/
def napotChunk (addr rem : ℕ) : ℕ :=
  let align := lowestBit addr
  let span := 1 <<< (Nat.size rem - 1)
  if span ≤ align ∨ align = 0 then span else align

/-- `napot_cover`, the loop over the address and the remaining length. -/
def napotCover (addr rem : ℕ) : Except PyError (List (ℕ × ℕ)) :=
  if rem = 0 then .ok []
  else
    let chunk := napotChunk addr rem
    if chunk < pmpNapotGranule then
      .error (.valueError s!"chunk size {chunk} is less than PMP_NAPOT_GRANULE {pmpNapotGranule}")
    else (napotCover (addr + chunk) (rem - chunk)).map ((addr, chunk) :: ·)
termination_by rem
decreasing_by
  simp only [pmpNapotGranule] at *
  omega

def alignNapot (region : PmpRegion) (base size : ℕ) : Except PyError (List (ℕ × ℕ)) :=
  if region.padNapot then napotPad base size else napotCover base size

/-- The range that a call of `add_region` adds. -/
def targetRange (range : BaseMem) (secure : Bool) : Except PyError BaseMem :=
  if secure then
    if range.kind ≠ .dramRange then .error (.typeError "PMP requires a DramRange to mark region secure")
    else .ok range.makeSecure
  else .ok range

def addRegion (region : PmpRegion) (range : BaseMem) (secure : Bool) : Except PyError PmpRegion := do
  let range ← targetRange range secure
  if numEntries ≤ region.entries.length then
    .error (.valueError "no PMP slots left. Consolidate regions before adding more")
  else if isNapot range.start range.size then
    .ok { region with entries := region.entries ++ [⟨range.start, range.size, range.permissions, .napot⟩] }
  else
    let alignedNapot ← region.alignNapot range.start range.size
    .ok { region with
      entries := region.entries ++
        alignedNapot.map fun napot => ⟨napot.1, napot.2, range.permissions, .napot⟩ }

/-- A sequence of `add_region` calls. -/
def addRegions : PmpRegion → List (BaseMem × Bool) → Except PyError PmpRegion
  | region, [] => .ok region
  | region, (range, secure) :: calls => do
      let region ← region.addRegion range secure
      addRegions region calls

def encodeLoop (xlen : Xlen) : ℕ → List PmpEntry → EncodeState → Except PyError EncodeState
  | _, [], state => .ok state
  | cfgIdx, entry :: entries, state => do
      let addr ← entry.toPmpaddr cfgIdx
      let state : EncodeState :=
        { state with
          cfgValue := state.cfgValue ||| entry.encodeCfg <<< (8 * (cfgIdx % (xlen.value / 8)))
          addrRegisters := state.addrRegisters ++ [addr] }
      if state.addrRegisters.length = xlen.value / 8 then
        encodeLoop xlen (cfgIdx + 1) entries
          { registers := state.registers ++ [state.pending xlen cfgIdx], addrRegisters := [], cfgValue := 0 }
      else encodeLoop xlen (cfgIdx + 1) entries state

def encode (region : PmpRegion) : Except PyError (List PmpRegisters) := do
  let state ← encodeLoop region.xlen 0 region.entries ⟨[], [], 0⟩
  if region.entries = [] then .error (.valueError "no PMP entries but Pmp requsted")
  else if state.addrRegisters ≠ [] then
    .ok (state.registers ++ [state.pending region.xlen (region.entries.length - 1)])
  else .ok state.registers

end PmpRegion

end Riescue.Pmp
