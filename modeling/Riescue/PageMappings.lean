import Riescue.LibOrderedDict
import Riescue.Pagetables
import Mathlib.Data.List.Infix

/-! The page size of a page mapping: `pick_pagesize`, `pt_attrs_helper` and `randomize_pagesize` of
`generator.py`, with g-stage paging disabled. The size decides how much address space the mapping reserves,
and an attribute of a non-leaf level enlarges the reservation to all that the changed entry covers. -/

namespace Riescue.PageMappings
open Paging Pagetables

/-- What the page sizes depend on: fields of `featmgr`. -/
structure FeatMgr where
  pagingMode : RiscvPagingModes
  /-- `is_feature_enabled("svnapot")` -/
  svnapot : Bool := false
  all4kbPages : Bool := false
  /-- `priv_mode == SUPER` -/
  superMode : Bool := false

/-- What is read and written of a `ParsedPageMapping`. A flag of Python is the number 0 or 1. -/
structure ParsedPageMapping where
  linName : String := ""
  physName : String := ""
  /-- the attribute under its own name -/
  plain : Attr → Option ℕ
  /-- `{attr}_nonleaf` -/
  nonleaf : Attr → Option ℕ
  /-- `{attr}_level{level}` -/
  level : Attr → ℕ → Option ℕ
  pagesizes : List String := []
  modifyPt : ℕ := 0
  modifyLeafPt : ℕ := 0
  modifyNonleafPt : ℕ := 0
  finalPagesize : Option RiscvPageSizes := none
  addressSize : ℕ := 0x1000
  addressMask : ℕ := 0xFFFFFFFFFFFFF000
  physAddressSize : ℕ := 0x1000
  physAddressMask : ℕ := 0xFFFFFFFFFFFFF000

/-- The mapping of a test that gives no attributes: the defaults of the class. Of the fields of the
levels only the values that are set later count: the class has defaults for some of them (`v_level0` is 1, `g_level0` is
0), but no function here reads these, and they stand as nothing. -/
def ParsedPageMapping.default : ParsedPageMapping where
  plain
    | .v | .r | .x => some 1
    | .w | .g | .rsw | .reserved | .pbmt => some 0
    | .a | .d | .u | .n => none
  nonleaf
    | .v | .a | .d | .r => some 1
    | .g | .pbmt | .n => some 0
    | .w | .x | .u | .rsw | .reserved => none
  level _ _ := none

/-- What `randomize_pagesize` can raise. -/
inductive PageFault where
  /-- `ValueError` of a random choice from nothing -/
  | emptyChoice
  /-- `IndexError` of an empty list of levels -/
  | noLevel
  | indexBits (fault : NoIndexBits)
  /-- the g-stage page size that `modify_leaf_pt` and `modify_nonleaf_pt` ask for does not exist -/
  | noGstage
  deriving DecidableEq, Repr

/-! ### Picking a size -/

/-- `pagesize in s` for strings. -/
def within (part word : String) : Bool := decide (part.toList <:+: word.toList)

/-- The size that a requested word selects: the first valid one whose name, followed by `page`, contains
the word. The name is turned back into the size it came from. -/
def selectedPagesize (validPagesizes : List RiscvPageSizes) (pagesize : String) : Option RiscvPageSizes :=
  validPagesizes.find? fun valid => within pagesize (valid.word ++ "page")

/-- `allowed_pagesizes`, with the weights. -/
def allowedPagesizes (validPagesizes : List RiscvPageSizes) (specifiedPagesizes : List String) :
    List (RiscvPageSizes × ℕ) :=
  specifiedPagesizes.foldl
    (fun allowed pagesize =>
      match selectedPagesize validPagesizes pagesize with
      | none => allowed
      | some selected => OrderedDict.insert allowed selected selected.weights) []

/-- The sizes a mode has, and 4 KB when paging is disabled. -/
def validPagesizes (napotSupported : Bool) (mode : RiscvPagingModes) : List RiscvPageSizes :=
  let supported := mode.supportedPagesizes napotSupported
  if supported = [] then [.s4kb] else supported

/-- The sizes to draw from when the request names none that can be drawn. -/
def defaultPagesizes (napotSupported : Bool) (mode : RiscvPagingModes) (specifiedPagesizes : List String)
    (excludeLargest : Bool) : List RiscvPageSizes :=
  let valid := validPagesizes napotSupported mode
  let valid := if "256tb" ∈ specifiedPagesizes then valid else valid.erase .s256tb
  -- a page of the largest size has its leaf in the root table
  if excludeLargest then valid.filter fun pagesize => decide (pagesize.ptLeafLevel + 1 ≠ mode.maxLevels) else valid

/-- The weighted sizes that the final one is drawn from. -/
def weightedPagesizes (napotSupported : Bool) (mode : RiscvPagingModes) (specifiedPagesizes : List String)
    (excludeLargest : Bool) : List (RiscvPageSizes × ℕ) :=
  let allowed := allowedPagesizes (validPagesizes napotSupported mode) specifiedPagesizes
  if allowed.any fun choice => decide (0 < choice.2) then allowed
  else
    (defaultPagesizes napotSupported mode specifiedPagesizes excludeLargest).map fun pagesize =>
      (pagesize, pagesize.weights)

/-- `pick_pagesize`: the size, its memory and its mask. `hasLinkedPages` says that the pool has a mapping of
this name with linked ones. -/
def pickPagesize (featmgr : FeatMgr) (specifiedPagesizes : List String) (mode : RiscvPagingModes)
    (hasLinkedPages excludeLargest : Bool) (rng : RandNum) :
    Except PageFault (RiscvPageSizes × ℕ × ℕ) × RandNum :=
  match rng.randomChoiceWeighted (weightedPagesizes featmgr.svnapot mode specifiedPagesizes excludeLargest) with
  | (none, rng) => (.error .emptyChoice, rng)
  | (some pagesize, rng) =>
      let finalPagesize := if featmgr.all4kbPages ∧ ¬hasLinkedPages then .s4kb else pagesize
      (.ok (finalPagesize, finalPagesize.memory, finalPagesize.addressMask), rng)

/-! ### The attributes of the levels -/

/-- `insignificant_value` and `leaf_bit_val` of `pt_attrs_helper`. -/
def bitValues (featmgr : FeatMgr) (mode : RiscvPagingModes) (attr : Attr) : ℕ × ℕ :=
  match attr with
  | .g | .n | .pbmt => (0, 1)
  | .u =>
      let insignificant := if featmgr.superMode then 0 else 1
      (insignificant, if mode = .disable then 1 else insignificant)
  | _ => (1, 1)

def insignificantValue (featmgr : FeatMgr) (mode : RiscvPagingModes) (attr : Attr) : ℕ :=
  (bitValues featmgr mode attr).1

def leafBitVal (featmgr : FeatMgr) (mode : RiscvPagingModes) (attr : Attr) : ℕ :=
  (bitValues featmgr mode attr).2

namespace ParsedPageMapping

/-- `setattr(page_mapping, f"{attr}_level{level}", value)` -/
def setLevel (mapping : ParsedPageMapping) (attr : Attr) (level : ℕ) (value : Option ℕ) : ParsedPageMapping :=
  { mapping with level := Function.update mapping.level attr (Function.update (mapping.level attr) level value) }

/-- The leaf value at the leaf and 0 above, for the attributes that a walk checks. -/
def setDefaults (mapping : ParsedPageMapping) (attr : Attr) (leafLevel leafBitVal : ℕ) (levels : List ℕ) :
    ParsedPageMapping :=
  levels.foldl
    (fun mapping level => mapping.setLevel attr level (some (if level = leafLevel then leafBitVal else 0))) mapping

end ParsedPageMapping

/-- The locals of `randomize_pagesize` that the attributes thread through. `nonleafWrites` is auxiliary: the
levels at which a non-leaf value was written. -/
structure PtState where
  mapping : ParsedPageMapping
  addrSize : ℕ
  addrMask : ℕ
  rng : RandNum
  nonleafWrites : List (Attr × ℕ)

/-- `range(lo, hi)` -/
def levelRange (lo hi : ℕ) : List ℕ := List.range' lo (hi - lo)

/-- `levels_range`: the non-leaf levels of a walk, or with only one level that one and the one below. -/
def levelsRange (mode : RiscvPagingModes) (finalPagesize : RiscvPageSizes) : List ℕ :=
  let mapMaxLevels := mode.maxLevels
  let availablePtLevels := mapMaxLevels - finalPagesize.ptLeafLevel
  if availablePtLevels = 1 then
    let possiblePtLevels := mapMaxLevels - 1
    levelRange (possiblePtLevels - 1) mapMaxLevels
  else
    let possiblePtLevels := mapMaxLevels - availablePtLevels
    levelRange (possiblePtLevels + 1) mapMaxLevels

/-- The level of a non-leaf value: the lowest of the list, and another one with a probability of zero. -/
def drawLevel (levels : List ℕ) (rng : RandNum) : Except PageFault ℕ × RandNum :=
  match levels with
  | [] => (.error .noLevel, rng)
  | lowest :: _ =>
      let (other, rng) := rng.withProbabilityOf 0
      if other then
        let (level, rng) := rng.randomEntryIn levels
        (.ok (level.getD lowest), rng)
      else (.ok lowest, rng)

/-- The size that one entry of a level covers. -/
def entrySize (mode : RiscvPagingModes) (level : ℕ) : Except PageFault ℕ :=
  match mode.indexBits level with
  | .error fault => .error (.indexBits fault)
  | .ok bits => .ok (2 ^ bits.2)

/-- The end of `pt_attrs_helper`: a non-leaf value is written, and the reservation grows to what the entry
covers. -/
def writeNonleaf (mode : RiscvPagingModes) (finalPagesize : RiscvPageSizes) (attr : Attr) (value : ℕ)
    (state : PtState) : Except PageFault PtState :=
  match drawLevel (levelsRange mode finalPagesize) state.rng with
  | (.error fault, _) => .error fault
  | (.ok level, rng) =>
      match entrySize mode level with
      | .error fault => .error fault
      | .ok size =>
          .ok
            { mapping := state.mapping.setLevel attr level (some value)
              addrSize := if size < state.addrSize then state.addrSize else size
              addrMask := if size < state.addrSize then state.addrMask else sizeMask size
              rng := rng
              nonleafWrites := (attr, level) :: state.nonleafWrites }

/-- A value that differs from the insignificant one. -/
def significant (insignificant : ℕ) : Option ℕ → Option ℕ
  | none => none
  | some value => if value = insignificant then none else some value

/-- `pt_attrs_helper`, which `randomize_pt_attrs` calls. -/
def ptAttrsHelper (featmgr : FeatMgr) (mode : RiscvPagingModes) (finalPagesize : RiscvPageSizes) (attr : Attr)
    (state : PtState) : Except PageFault PtState :=
  let leafLevel := finalPagesize.ptLeafLevel
  let insignificant := insignificantValue featmgr mode attr
  let mapping :=
    if attr ∈ [Attr.u, .r, .w, .x, .a, .d] then
      state.mapping.setDefaults attr leafLevel (leafBitVal featmgr mode attr) (levelRange leafLevel mode.maxLevels)
    else state.mapping
  match significant insignificant (mapping.plain attr) with
  | some value => .ok { state with mapping := mapping.setLevel attr leafLevel (some value) }
  | none =>
      match significant insignificant (mapping.nonleaf attr) with
      | none => .ok { state with mapping := mapping }
      | some value => writeNonleaf mode finalPagesize attr value { state with mapping := mapping }

/-- The attributes in the order of `randomize_pagesize`. -/
def attrOrder : List Attr := [.v, .a, .d, .g, .u, .x, .w, .r, .n, .pbmt]

def ptAttrs (featmgr : FeatMgr) (mode : RiscvPagingModes) (finalPagesize : RiscvPageSizes) :
    List Attr → PtState → Except PageFault PtState
  | [], state => .ok state
  | attr :: attrs, state =>
      ptAttrsHelper featmgr mode finalPagesize attr state >>= fun state =>
        ptAttrs featmgr mode finalPagesize attrs state

/-- `_VS_NONLEAF_CHECKS` -/
def vsNonleafChecks : List (Attr × Option ℕ) :=
  [(.v, some 1), (.a, some 1), (.d, some 1), (.r, some 1), (.w, none), (.x, none), (.u, none), (.g, some 0),
    (.pbmt, some 0), (.n, some 0)]

/-- `_has_significant_constraints` with these checks. -/
def hasVsNonleafConstraints (mapping : ParsedPageMapping) : Bool :=
  vsNonleafChecks.any fun check =>
    match check.2, mapping.nonleaf check.1 with
    | _, none => false
    | none, some _ => true
    | some insignificant, some value => decide (value ≠ insignificant)

/-! ### The whole -/

/-- The reservation when the page tables of the page are to be modified: a top level entry. -/
def modifyPt (mode : RiscvPagingModes) (state : PtState) : Except PageFault PtState :=
  if state.mapping.modifyPt = 1 then
    entrySize mode (mode.maxLevels - 1) >>= fun size =>
      .ok { state with addrSize := size, addrMask := sizeMask size }
  else .ok state

/-- The reservation when a non-leaf entry is to be modified. -/
def modifyNonleafPt (mode : RiscvPagingModes) (finalPagesize : RiscvPageSizes) (state : PtState) :
    Except PageFault PtState :=
  if state.mapping.modifyNonleafPt = 1 then
    entrySize mode (finalPagesize.ptLeafLevel + 1) >>= fun size =>
      .ok { state with addrSize := max state.addrSize size, addrMask := state.addrMask &&& sizeMask size }
  else .ok state

/-- The size and the mask of a parsed address. -/
structure ParsedAddr where
  size : ℕ
  andMask : ℕ

/-- The final fields of the mapping, and the request for its physical address. -/
def finish (finalPagesize : RiscvPageSizes) (state : PtState) (physAddr : Option ParsedAddr) :
    Except PageFault (PtState × Option ParsedAddr) :=
  let mapping :=
    { state.mapping with
      finalPagesize := some finalPagesize
      addressSize := state.addrSize
      addressMask := state.addrMask
      physAddressSize := if state.mapping.modifyPt = 1 then finalPagesize.memory else state.addrSize
      physAddressMask := if state.mapping.modifyPt = 1 then finalPagesize.addressMask else state.addrMask }
  if mapping.modifyLeafPt = 1 ∨ mapping.modifyNonleafPt = 1 then .error .noGstage
  else
    .ok ({ state with mapping := mapping }, physAddr.map fun addr =>
      { size := max mapping.physAddressSize addr.size, andMask := min mapping.physAddressMask addr.andMask })

/-- `randomize_pagesize` from the picked size on. -/
def reservePagesize (featmgr : FeatMgr) (mapping : ParsedPageMapping) (physAddr : Option ParsedAddr)
    (picked : RiscvPageSizes × ℕ × ℕ) (rng : RandNum) : Except PageFault (PtState × Option ParsedAddr) := do
  let mode := featmgr.pagingMode
  let (finalPagesize, addrSize, addrMask) := picked
  let state ← ptAttrs featmgr mode finalPagesize attrOrder ⟨mapping, addrSize, addrMask, rng, []⟩
  let state ← modifyPt mode state
  let state ← modifyNonleafPt mode finalPagesize state
  finish finalPagesize state physAddr

/-- `randomize_pagesize`. The size of an address that already exists is read first, but the picked size
replaces it. -/
def randomizePagesize (featmgr : FeatMgr) (mapping : ParsedPageMapping) (hasLinkedPages : Bool)
    (physAddr : Option ParsedAddr) (rng : RandNum) : Except PageFault (PtState × Option ParsedAddr) :=
  if featmgr.pagingMode = .disable then
    .ok (⟨mapping, mapping.addressSize, mapping.addressMask, rng, []⟩, physAddr)
  else
    let excludeLargest := hasVsNonleafConstraints mapping || decide (mapping.modifyNonleafPt ≠ 0)
    match pickPagesize featmgr mapping.pagesizes featmgr.pagingMode hasLinkedPages excludeLargest rng with
    | (.error fault, _) => .error fault
    | (.ok picked, rng) => reservePagesize featmgr mapping physAddr picked rng

end Riescue.PageMappings
