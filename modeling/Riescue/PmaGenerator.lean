import Riescue.AddrgenFacade
import Riescue.LibExcept
import Riescue.Pma
import Riescue.RandNum

/-! The generator of PMA regions, `lib/pma_generator.py`: the configured regions first, then those of the hints, then the
auto-generated ones. A generated region remembers how its place was found. The warnings are left out, and with them
`min_regions` of a hint, which nothing else reads. -/

namespace Riescue.PmaGenerator
open Pma
open Addrgen (Memory MemoryRange)

/-- A dictionary of attributes, `{"memory_type": …, "rwx": …, …}`. -/
structure Combo where
  name : Option String := none
  memoryType : Option MemoryType := none
  cacheability : Option Cacheability := none
  combining : Option Combining := none
  rwx : Option String := none
  amoType : Option AmoType := none
  routing : Option RoutingTo := none
  deriving DecidableEq, Repr

structure ParsedPmaHint where
  name : String := ""
  combinations : List Combo := []
  memoryTypes : List MemoryType := []
  cacheability : List Cacheability := []
  combining : List Combining := []
  rwxCombos : List String := []
  amoTypes : List AmoType := []
  routing : List RoutingTo := []
  adjacent : Bool := false
  maxRegions : Option ℤ := none
  size : Option ℤ := none

/-- `PmaAttributes`, with the defaults of `__post_init__` filled in. -/
structure PmaAttributes where
  memoryType : MemoryType := .memory
  cacheability : Option Cacheability := none
  combining : Option Combining := none
  read : Bool := true
  write : Bool := true
  execute : Bool := true
  amoType : AmoType := .arithmetic
  routing : RoutingTo := .coherent
  deriving DecidableEq, Repr

/-- `PmaRegionConfig`; the configuration refuses an empty name, an empty size and a negative base. -/
structure PmaRegionConfig where
  name : String
  base : Option ℤ := none
  size : Option ℤ := none
  attributes : PmaAttributes := {}
  adjacentTo : Option String := none
  autoGenerate : Bool := false
  name_ne : name ≠ "" := by decide
  size_pos : ∀ bytes ∈ size, 0 < bytes := by decide
  base_nonneg : ∀ address ∈ base, 0 ≤ address := by decide

structure PmaHintConfig where
  name : String
  combinations : List Combo := []
  adjacent : Bool := false
  maxRegions : Option ℤ := none
  size : Option ℤ := none
  name_ne : name ≠ "" := by decide
  maxRegions_nonneg : ∀ count ∈ maxRegions, 0 ≤ count := by decide

structure PmaConfig where
  regions : List PmaRegionConfig := []
  hints : List PmaHintConfig := []
  maxRegions : ℤ := 15
  maxRegions_range : 1 ≤ maxRegions ∧ maxRegions ≤ 15 := by decide
  regions_nodup : (regions.map PmaRegionConfig.name).Nodup := by decide
  hints_nodup : (hints.map PmaHintConfig.name).Nodup := by decide

/-- How the base of a region was chosen: it is configured, next to another region, or found by the generator. -/
inductive Placement where
  | base | adjacent | found
  deriving DecidableEq, Repr

structure Region where
  placement : Placement
  info : PmaInfo
  deriving DecidableEq, Repr

inductive GenerateFault where
  /-- `KeyError`: a combination without `memory_type` -/
  | keyError
  /-- `ValueError` of `random_in_range` -/
  | emptyRange
  deriving DecidableEq, Repr

/-- `PmaGenerator`; its random number generator is passed from method to method. -/
structure Generator where
  maxRegions : ℤ
  memory : Memory
  usedRegions : ℤ
  generatedRegions : List Region
  lastRegion : Option Region

def Generator.new (pmaConfig : PmaConfig) (memory : Memory) : Generator where
  maxRegions := pmaConfig.maxRegions
  memory := memory
  usedRegions := 0
  generatedRegions := []
  lastRegion := none

def defaultRegionSize : ℤ := 0x1000000

/-- `(base + 0xFFF) & ~0xFFF` -/
def align4k (base : ℤ) : ℤ := (base + 0xFFF) / 0x1000 * 0x1000

/-- `xs[:stop]`, which counts from the end when `stop` is negative. -/
def sliceTo {α : Type} (stop : ℤ) (xs : List α) : List α :=
  xs.take (if 0 ≤ stop then stop else xs.length + stop).toNat

/-- `_convert_json_hint_to_parsed` -/
def convertJsonHintToParsed (hintCfg : PmaHintConfig) : ParsedPmaHint where
  name := hintCfg.name
  combinations := hintCfg.combinations
  adjacent := hintCfg.adjacent
  maxRegions := hintCfg.maxRegions
  size := hintCfg.size

/-- `xs or [default]` -/
def orDefault {α : Type} (xs : List α) (default : α) : List α := if xs = [] then [default] else xs

/-- `_expand_combinations` -/
def expandCombinations (hint : ParsedPmaHint) : List Combo :=
  if hint.combinations ≠ [] then hint.combinations
  else
    (orDefault hint.memoryTypes .memory).flatMap fun memType =>
      (orDefault hint.rwxCombos "rwx").flatMap fun rwx =>
        (orDefault hint.amoTypes .arithmetic).flatMap fun amo =>
          (orDefault hint.routing .coherent).flatMap fun route =>
            let combo : Combo := { memoryType := some memType, rwx := some rwx, amoType := some amo, routing := some route }
            match memType with
            | .memory => (orDefault hint.cacheability .cacheable).map fun cache => { combo with cacheability := some cache }
            | .io => (orDefault hint.combining .noncombining).map fun comb => { combo with combining := some comb }
            | .ch0 | .ch1 => [combo]

namespace Generator

/-- `max(r.pma_address + r.pma_size for r in self.generated_regions)` -/
def lastEnd (gen : Generator) : Option ℤ :=
  (gen.generatedRegions.map fun region => region.info.getEndAddress).max?

/-- The second half of `_find_free_space`: a location of the range, whatever stands there. -/
def randomLocation (start rangeSize neededSize : ℤ) (rng : RandNum) : Except GenerateFault (ℤ × RandNum) :=
  let maxStart := start + rangeSize - neededSize
  if maxStart < start then .ok (start, rng)
  else
    let num4kPages := (maxStart - start) / 0x1000
    if num4kPages ≤ 0 then .ok (start, rng)
    else
      match rng.randomInRange 0 (num4kPages - 1) with
      | (some randomPage, rng) => .ok (start + randomPage * 0x1000, rng)
      | (none, _) => .error .emptyRange

/-- `_find_free_space` -/
def findFreeSpace (gen : Generator) (start rangeSize neededSize : ℤ) (rng : RandNum) :
    Except GenerateFault (ℤ × RandNum) :=
  match gen.lastEnd with
  | some lastEnd =>
      if lastEnd + neededSize < start + rangeSize then .ok (lastEnd, rng)
      else randomLocation start rangeSize neededSize rng
  | none => randomLocation start rangeSize neededSize rng

/-- The ranges for a memory type, and the base where there is no range. -/
def spaceOf (gen : Generator) : MemoryType → List MemoryRange × ℤ
  | .memory => (gen.memory.dramRanges, 0x80000000)
  | _ => (gen.memory.ioRanges, 0x10000000)

/-- `_find_address_space`: how the base is chosen, the base and the size. -/
def findAddressSpace (gen : Generator) (memoryType : Option MemoryType) (adjacent : Bool) (hintSize : Option ℤ)
    (rng : RandNum) : Except GenerateFault ((Placement × ℤ × ℤ) × RandNum) :=
  let size := hintSize.getD defaultRegionSize
  match adjacent, gen.lastRegion with
  | true, some lastRegion => .ok ((.adjacent, align4k lastRegion.info.getEndAddress, size), rng)
  | _, _ =>
      match memoryType with
      | none => .error .keyError
      | some memoryType =>
          match gen.spaceOf memoryType with
          | ([], default) => .ok ((.found, align4k default, size), rng)
          | (range :: _, _) => do
              let (base, rng) ← gen.findFreeSpace range.start range.size size rng
              pure ((.found, align4k base, size), rng)

/-- The region of a combination, with the defaults of its keys. -/
def comboInfo (combo : Combo) (hint : ParsedPmaHint) (idx : ℕ) (memoryType : MemoryType) (base size : ℤ) : PmaInfo :=
  let rwx := combo.rwx.getD "rwx"
  { pmaName := combo.name.getD ("pma_" ++ hint.name ++ "_" ++ toString idx)
    pmaAddress := base
    pmaSize := size
    pmaMemoryType := memoryType
    pmaRead := rwx.toList.contains 'r'
    pmaWrite := rwx.toList.contains 'w'
    pmaExecute := rwx.toList.contains 'x'
    pmaAmoType := combo.amoType.getD .arithmetic
    pmaCacheability := combo.cacheability.getD .cacheable
    pmaCombining := combo.combining.getD .noncombining
    pmaRoutingTo := combo.routing.getD .coherent }

/-- `_generate_region` -/
def generateRegion (gen : Generator) (combo : Combo) (hint : ParsedPmaHint) (idx : ℕ) (rng : RandNum) :
    Except GenerateFault (Region × RandNum) := do
  let ((placement, base, size), rng) ← gen.findAddressSpace combo.memoryType hint.adjacent hint.size rng
  match combo.memoryType with
  | none => .error .keyError
  | some memoryType => .ok (⟨placement, comboInfo combo hint idx memoryType base size⟩, rng)

/-- `to_pma_info_dict`: the cacheability of memory and the combining of IO; the other keeps its default. -/
def pmaInfoOf (attributes : PmaAttributes) (name : String) (base size : ℤ) : PmaInfo where
  pmaName := name
  pmaAddress := base
  pmaSize := size
  pmaMemoryType := attributes.memoryType
  pmaRead := attributes.read
  pmaWrite := attributes.write
  pmaExecute := attributes.execute
  pmaAmoType := attributes.amoType
  pmaRoutingTo := attributes.routing
  pmaCacheability := if attributes.memoryType = .memory then attributes.cacheability.getD .cacheable else .cacheable
  pmaCombining := if attributes.memoryType = .io then attributes.combining.getD .noncombining else .noncombining

/-- The region that `adjacent_to` names, when it is set. -/
def adjacentRegion (gen : Generator) (regionCfg : PmaRegionConfig) : Option Region :=
  match regionCfg.adjacentTo with
  | none => none
  | some adjacentTo =>
      if adjacentTo = "" then none
      else gen.generatedRegions.find? fun region => region.info.pmaName = adjacentTo

/-- `_create_pma_from_config`. A region that the space is found for gets the default size. -/
def createPmaFromConfig (gen : Generator) (regionCfg : PmaRegionConfig) (rng : RandNum) :
    Except GenerateFault (Region × RandNum) :=
  let size := regionCfg.size.getD defaultRegionSize
  let region placement base size := (⟨placement, pmaInfoOf regionCfg.attributes regionCfg.name base size⟩ : Region)
  match gen.adjacentRegion regionCfg, regionCfg.base with
  | some other, _ => .ok (region .adjacent (align4k other.info.getEndAddress) size, rng)
  | none, some base => .ok (region .base base size, rng)
  | none, none => do
      let ((placement, base, size), rng) ← gen.findAddressSpace regionCfg.attributes.memoryType false none rng
      pure (region placement base size, rng)

/-- The bookkeeping for a new region; `track` says whether it goes to `generated_regions`. -/
def addRegion (gen : Generator) (region : Region) (track : Bool) : Generator :=
  { gen with
    generatedRegions := if track then gen.generatedRegions ++ [region] else gen.generatedRegions
    usedRegions := gen.usedRegions + 1
    lastRegion := some region }

/-- The loops of `generate_all` over the configured regions; those that are auto-generated are not tracked. -/
def configuredRegions (auto : Bool) :
    List PmaRegionConfig → Generator → RandNum → Except GenerateFault ((List Region × Generator) × RandNum)
  | [], gen, rng => .ok (([], gen), rng)
  | regionCfg :: regions, gen, rng =>
      if regionCfg.autoGenerate = auto then do
        let (region, rng) ← gen.createPmaFromConfig regionCfg rng
        let ((rest, gen), rng) ← configuredRegions auto regions (gen.addRegion region !auto) rng
        pure ((region :: rest, gen), rng)
      else configuredRegions auto regions gen rng

/-- The combinations of a hint that get a region. -/
def limitedCombinations (maxRegions usedRegions : ℤ) (hint : ParsedPmaHint) : List Combo :=
  let combinations := expandCombinations hint
  let combinations :=
    match hint.maxRegions with
    | none => combinations
    | some maxRegions => sliceTo maxRegions combinations
  let available := maxRegions - usedRegions
  if available < combinations.length then sliceTo available combinations else combinations

/-- The loop of `generate_from_hint`. -/
def generateCombinations (hint : ParsedPmaHint) :
    ℕ → List Combo → Generator → RandNum → Except GenerateFault ((List Region × Generator) × RandNum)
  | _, [], gen, rng => .ok (([], gen), rng)
  | idx, combo :: combinations, gen, rng => do
      let (region, rng) ← gen.generateRegion combo hint idx rng
      let ((rest, gen), rng) ← generateCombinations hint (idx + 1) combinations (gen.addRegion region false) rng
      pure ((region :: rest, gen), rng)

/-- `generate_from_hint` -/
def generateFromHint (gen : Generator) (hint : ParsedPmaHint) (rng : RandNum) :
    Except GenerateFault ((List Region × Generator) × RandNum) :=
  generateCombinations hint 0 (limitedCombinations gen.maxRegions gen.usedRegions hint) gen rng

/-- The loop of `generate_all` over the hints. -/
def generateFromHints :
    List ParsedPmaHint → Generator → RandNum → Except GenerateFault ((List Region × Generator) × RandNum)
  | [], gen, rng => .ok (([], gen), rng)
  | hint :: hints, gen, rng => do
      let ((regions, gen), rng) ← gen.generateFromHint hint rng
      let ((rest, gen), rng) ← generateFromHints hints gen rng
      pure ((regions ++ rest, gen), rng)

end Generator

/-- `generate_all` -/
def generateAll (pmaConfig : PmaConfig) (memory : Memory) (rng : RandNum) (hints : List ParsedPmaHint) :
    Except GenerateFault (List Region) := do
  let ((configured, gen), rng) ← Generator.configuredRegions false pmaConfig.regions (Generator.new pmaConfig memory) rng
  let ((hinted, gen), rng) ←
    Generator.generateFromHints (hints ++ pmaConfig.hints.map convertJsonHintToParsed) gen rng
  let ((auto, _), _) ← Generator.configuredRegions true pmaConfig.regions gen rng
  pure (configured ++ hinted ++ auto)

end Riescue.PmaGenerator
