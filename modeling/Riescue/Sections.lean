import Riescue.AddrgenFacade
import Riescue.PagingModes

/-! The sections of a test and their pages: `handle_sections` and `add_section_handler` of `generator.py`. A section
of several pages is first placed as one block, then its further pages are added one by one, each behind the page
before it. -/

namespace Riescue.Sections
open Addrgen Paging OrderedDict

inductive RiscvPrivileges where
  | machine | super | user
  deriving DecidableEq, Repr

/-- A device with its address and its size, or its stride from hart to hart. -/
structure IoRegion where
  addr : ℕ
  size : ℕ

/-- What the sections depend on: fields of `featmgr`, of the parsed test and of the page maps. -/
structure SectionConfig where
  pagingMode : RiscvPagingModes
  pagingGMode : RiscvPagingModes
  virtualized : Bool
  privMode : RiscvPrivileges
  supportedPrivModes : List RiscvPrivileges
  wysiwyg : Bool
  cUsed : Bool
  moreOsPages : Bool
  randomizeCodeLocation : Bool
  identityMapCode : Bool
  bigBss : Bool
  smallBss : Bool
  addGccCstdlibSections : Bool
  selfcheck : Bool
  logTestExecution : Bool
  resetPc : ℕ
  numCpus : ℕ
  repeatTimes : ℕ
  discreteTests : ℕ
  hartContextTotalSize : ℕ
  physicalAddrBits : ℕ
  /-- The smallest number of address bits of the page maps. -/
  pageMapLinearAddrBits : ℕ
  pageMapPhysicalAddrBits : ℕ
  ioHtifAddr : Option ℕ
  ioMaplic : Option IoRegion
  ioSaplic : Option IoRegion
  ioImsicMfile : Option IoRegion
  ioImsicSfile : Option IoRegion
  /-- Only in debug mode. -/
  debugRom : Option IoRegion
  discreteDebugTest : Bool

/-- `Page`, as far as the handler fills it in: executable, executable for the hypervisor, and the user bit when it
is set at all. -/
structure Page where
  name : String
  physName : String
  linAddr : ℕ
  physAddr : ℕ
  xLevel0 : Bool
  xGLevel0 : Bool
  uLevel0 : Option Bool
  deriving DecidableEq, Repr

/-- The parts of the generator and the pool that the sections change. Every page is added to all page maps, so one
dictionary stands for them; a section has a VMA and an LMA. -/
structure Layout where
  gen : AddrGen
  rng : RandNum
  randomAddrs : List (String × AddressType × ℕ)
  pages : List (String × Page)
  sections : List (String × ℕ × ℕ)
  runtimeEndAddr : Option ℕ
  nextCSectionLinAddr : Option ℕ

inductive SectionFault where
  | addrGen (fault : GenerateFault)
  /-- "already exist in random_addr, trying to add again" -/
  | alreadyExists (name : String)
  /-- `AttributeError` of `runtime_end_addr` before the runtime is placed -/
  | noRuntimeEndAddr
  deriving DecidableEq, Repr

/-- The arguments of `add_section_handler`. -/
structure SectionCall where
  name : String
  size : ℕ
  iscode : Bool
  startAddr : Option ℕ := none
  startLinAddr : Option ℕ := none
  identityMap : Bool := false
  alwaysSuper : Bool := false
  alwaysUser : Bool := false
  physName : String := ""
  skipLinker : Bool := false
  skipPageMap : Bool := false

/-- `canonicalize_lin_addr` -/
def SectionConfig.canonicalizeLinAddr (cfg : SectionConfig) (linAddr : ℕ) : ℕ :=
  if cfg.pagingMode = .disable then linAddr
  else
    let linearAddrBits := cfg.pagingMode.linearAddrBits
    if bitn linAddr (linearAddrBits - 1) = 1 then
      linAddr ||| (2 ^ (64 - linearAddrBits) - 1) <<< linearAddrBits
    else linAddr

/-- `address_mask_from_size` -/
def addressMaskFromSize (size : ℕ) : ℕ := 0xFFFFFFFFFFFFFFFF <<< (bitLength size - 1) &&& 0xFFFFFFFFFFFFFFFF

/-! ### Addresses of a section -/

namespace Layout

/-- `reserve_memory` -/
def reserve (layout : Layout) (addressType : AddressType) (startAddress size : ℕ) : Except SectionFault Layout :=
  match layout.gen.reserveMemory addressType startAddress size false with
  | (.error fault, _) => .error (.addrGen fault)
  | (.ok _, gen) => .ok { layout with gen := gen }

/-- `generate_address` -/
def generate (layout : Layout) (constraint : AddressConstraint) : Except SectionFault (ℕ × Layout) :=
  match layout.gen.generateAddress constraint none layout.rng with
  | (.error fault, _, _) => .error (.addrGen fault)
  | (.ok address, gen, rng) => .ok (address.toNat, { layout with gen := gen, rng := rng })

end Layout

namespace SectionConfig
variable (cfg : SectionConfig)

def linAddrBits : ℕ := min cfg.pagingMode.linearAddrBits cfg.pageMapLinearAddrBits

/-- For an identity map the physical address has to be a linear one that needs no canonicalization. -/
def physAddrBits (identityMap : Bool) : ℕ :=
  let physAddrBits := min cfg.physicalAddrBits cfg.pageMapPhysicalAddrBits
  if identityMap then min physAddrBits (cfg.linAddrBits - 1) else physAddrBits

def physAddrConstraint (size : ℕ) (identityMap : Bool) : AddressConstraint where
  type := .physical
  qualifiers := [.addressDram]
  bits := cfg.physAddrBits identityMap
  mask := addressMaskFromSize size
  size := size

def linAddrConstraint (size : ℕ) : AddressConstraint where
  type := .linear
  bits := cfg.linAddrBits
  mask := addressMaskFromSize size
  size := size

/-- Neither stage of translation is on. -/
def noPaging : Bool := decide (cfg.pagingMode = .disable ∧ cfg.pagingGMode = .disable)

/-- No page tables for the section. -/
def skips (call : SectionCall) : Bool := call.skipPageMap || cfg.noPaging

/-- The linear address has to be the physical one. -/
def identityMaps (call : SectionCall) : Bool := call.identityMap || decide (cfg.pagingMode = .disable)

/-- The physical start after the normalization of an identity map. -/
def startOf (call : SectionCall) : Option ℕ :=
  if cfg.identityMaps call then call.startAddr.or call.startLinAddr else call.startAddr

def startLinOf (call : SectionCall) : Option ℕ := if cfg.identityMaps call then none else call.startLinAddr

end SectionConfig

/-- The address part of `add_section_handler`: the linear and the physical address. -/
def allocate (cfg : SectionConfig) (call : SectionCall) (layout : Layout) :
    Except SectionFault (ℕ × ℕ × Layout) :=
  let identityMap := cfg.identityMaps call
  let size := call.size
  match cfg.skips call, cfg.startOf call, cfg.startLinOf call with
  | true, some startAddr, some startLinAddr => do
      let layout ← layout.reserve .physical startAddr size
      let layout ← layout.reserve .linear startLinAddr size
      pure (startLinAddr, startAddr, layout)
  | true, some startAddr, none => do
      let layout ← layout.reserve .physical startAddr size
      let layout ← layout.reserve .linear startAddr size
      pure (startAddr, startAddr, layout)
  | true, none, some startLinAddr => do
      let layout ← layout.reserve .physical startLinAddr size
      let layout ← layout.reserve .linear startLinAddr size
      pure (startLinAddr, startLinAddr, layout)
  | true, none, none => do
      let (physAddr, layout) ← layout.generate (cfg.physAddrConstraint size identityMap)
      let layout ← if identityMap then layout.reserve .linear physAddr size else pure layout
      pure (physAddr, physAddr, layout)
  | false, some startAddr, some startLinAddr => do
      let layout ← layout.reserve .physical startAddr size
      let layout ← layout.reserve .linear startLinAddr size
      pure (startLinAddr, startAddr, layout)
  | false, some startAddr, none => do
      let layout ← layout.reserve .physical startAddr size
      if identityMap then
        let layout ← layout.reserve .linear startAddr size
        pure (startAddr, startAddr, layout)
      else
        let (linAddr, layout) ← layout.generate (cfg.linAddrConstraint size)
        pure (cfg.canonicalizeLinAddr linAddr, startAddr, layout)
  | false, none, some startLinAddr => do
      let layout ← layout.reserve .linear startLinAddr size
      if identityMap then
        let layout ← layout.reserve .physical startLinAddr size
        pure (startLinAddr, startLinAddr, layout)
      else
        let (physAddr, layout) ← layout.generate (cfg.physAddrConstraint size false)
        pure (startLinAddr, physAddr, layout)
  | false, none, none => do
      let (physAddr, layout) ← layout.generate (cfg.physAddrConstraint size identityMap)
      if identityMap then
        let layout ← layout.reserve .linear physAddr size
        pure (physAddr, physAddr, layout)
      else
        let (linAddr, layout) ← layout.generate (cfg.linAddrConstraint size)
        pure (cfg.canonicalizeLinAddr linAddr, physAddr, layout)

/-! ### Registration -/

namespace Layout

/-- `add_random_addr` -/
def addRandomAddr (layout : Layout) (addrName : String) (addr : AddressType × ℕ) : Except SectionFault Layout :=
  if (get? layout.randomAddrs addrName).isSome then .error (.alreadyExists addrName)
  else .ok { layout with randomAddrs := insert layout.randomAddrs addrName addr }

end Layout

def SectionCall.physAddrName (call : SectionCall) : String :=
  if call.physName = "" then call.name ++ "_phys" else call.physName

/-- The user bit: never set explicitly without paging, unless one of the later cases asks for it. -/
def SectionConfig.userBit (cfg : SectionConfig) (call : SectionCall) : Option Bool :=
  if call.alwaysUser then some true
  else if call.alwaysSuper = false ∧ cfg.privMode = .user then some true
  else if cfg.pagingMode = .disable then none
  else some false

/-- `add_section_handler`. A section of a physical address has it as its VMA and its LMA, one of a linear address
has both from its page. -/
def addSectionHandler (cfg : SectionConfig) (call : SectionCall) (layout : Layout) :
    Except SectionFault (ℕ × ℕ × Layout) := do
  let (linAddr, physAddr, layout) ← allocate cfg call layout
  let skips := cfg.skips call
  let layout ← layout.addRandomAddr call.name (if skips then .physical else .linear, linAddr)
  let layout ← layout.addRandomAddr call.physAddrName (.physical, physAddr)
  let page : Page :=
    { name := call.name
      physName := call.physAddrName
      linAddr := linAddr
      physAddr := physAddr
      xLevel0 := call.iscode
      xGLevel0 := call.iscode && cfg.virtualized && decide (cfg.pagingGMode ≠ .disable)
      uLevel0 := cfg.userBit call }
  let pages := if skips then layout.pages else insert layout.pages call.name page
  let sections :=
    if call.skipLinker then layout.sections
    else insert layout.sections call.name (linAddr, if skips then linAddr else physAddr)
  pure (linAddr, physAddr, { layout with pages := pages, sections := sections })

/-! ### The loops over the pages -/

/-- Further pages from number `i` on, the first of them at the given addresses. The next page is behind the addresses
that the handler has returned, or one step behind those that were asked for. -/
def addPages (cfg : SectionConfig) (fromReturned : Bool) (call : ℕ → ℕ → ℕ → SectionCall) :
    ℕ → ℕ → ℕ → ℕ → Layout → Except SectionFault (ℕ × ℕ × Layout)
  | 0, _, linAddr, physAddr, layout => .ok (linAddr, physAddr, layout)
  | count + 1, i, allocLinAddr, allocPhysAddr, layout => do
      let (linAddr, physAddr, layout) ← addSectionHandler cfg (call i allocLinAddr allocPhysAddr) layout
      if fromReturned then addPages cfg fromReturned call count (i + 1) (linAddr + 0x1000) (physAddr + 0x1000) layout
      else addPages cfg fromReturned call count (i + 1) (allocLinAddr + 0x1000) (allocPhysAddr + 0x1000) layout

/-- A page at both addresses. -/
def pageCall (name : ℕ → String) (physName : ℕ → String) (iscode alwaysSuper alwaysUser skipLinker skipPageMap : Bool)
    (i allocLinAddr allocPhysAddr : ℕ) : SectionCall where
  name := name i
  size := 0x1000
  iscode := iscode
  startAddr := some allocPhysAddr
  startLinAddr := some allocLinAddr
  alwaysSuper := alwaysSuper
  alwaysUser := alwaysUser
  physName := physName i
  skipLinker := skipLinker
  skipPageMap := skipPageMap

end Riescue.Sections
