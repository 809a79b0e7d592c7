import Riescue.PmaGeneratorPlan
import Mathlib.Data.List.MinMax

/-! Exactly when the generator stays within its limit and keeps the regions it places itself apart. What it can draw is
described as a set of locations for each branch of the search; a run is then judged request by request. -/

namespace Riescue.PmaGenerator
open Choice Pma
open Addrgen (Memory)

/-! ### What the generator may choose -/

/-- The locations that are left to chance: the pages of the range, or its start. -/
def locations (start rangeSize size : ℤ) : Set ℤ :=
  if rangeSize < size ∨ (rangeSize - size) / 0x1000 ≤ 0 then {start}
  else {base | ∃ page, 0 ≤ page ∧ page < (rangeSize - size) / 0x1000 - 1 ∧ base = start + page * 0x1000}

theorem draws_randomLocation (start rangeSize size : ℤ) :
    Draws (Generator.randomLocation start rangeSize size) (locations start rangeSize size) := by
  have hspan : start + rangeSize - size - start = rangeSize - size := by omega
  by_cases hstart : rangeSize < size ∨ (rangeSize - size) / 0x1000 ≤ 0
  · have heq : Generator.randomLocation start rangeSize size = fun rng => .ok (start, rng) := by
      funext rng
      rw [Generator.randomLocation, hspan]
      dsimp only
      split_ifs with hsmall hpages
      · rfl
      · rfl
      · exact absurd hstart (by omega)
    rw [heq, locations, if_pos hstart]
    exact Draws.pure start
  · have hdrawn : ∀ {rng rng' : RandNum} {page : ℤ},
        rng.randomInRange 0 ((rangeSize - size) / 0x1000 - 1) = (some page, rng') →
          Generator.randomLocation start rangeSize size rng = .ok (start + page * 0x1000, rng') := by
      intro rng rng' page hdraw
      rw [Generator.randomLocation, hspan]
      dsimp only
      rw [if_neg (by omega), if_neg (by omega), hdraw]
    rw [locations, if_neg hstart]
    refine ⟨?_, ?_, ?_⟩
    · rintro ⟨-, page, hpage, hlt, rfl⟩ rng
      cases hdraw : rng.randomInRange 0 ((rangeSize - size) / 0x1000 - 1) with
      | mk value rng' =>
          cases value with
          | none =>
              unfold RandNum.randomInRange at hdraw
              rw [if_neg (by omega)] at hdraw
              cases (Prod.mk.inj hdraw).1
          | some value =>
              have hbounds := RandNum.randomInRange_bounds (by rw [hdraw])
              exact ⟨_, ⟨value, hbounds.1, hbounds.2, rfl⟩, rng', hdrawn hdraw⟩
    · intro hempty rng
      have hpages : (rangeSize - size) / 0x1000 - 1 ≤ 0 := by
        by_contra hpages
        exact Set.eq_empty_iff_forall_notMem.mp hempty start ⟨0, le_refl 0, by omega, by omega⟩
      refine ⟨.emptyRange, ?_⟩
      rw [Generator.randomLocation, hspan]
      dsimp only
      rw [if_neg (by omega), if_neg (by omega), RandNum.randomInRange, if_pos hpages]
    · rintro _ ⟨page, hpage, hlt, rfl⟩ ⟨later⟩
      obtain ⟨draw, hdraw⟩ := RandNum.exists_randomInRange hpage hlt
      exact ⟨⟨draw :: later⟩, hdrawn (hdraw later)⟩

/-- Where `_find_free_space` may place a region. -/
def freeSpaces (gen : Generator) (start rangeSize size : ℤ) : Set ℤ :=
  match gen.lastEnd with
  | some lastEnd => if lastEnd + size < start + rangeSize then {lastEnd} else locations start rangeSize size
  | none => locations start rangeSize size

theorem draws_findFreeSpace (gen : Generator) (start rangeSize size : ℤ) :
    Draws (gen.findFreeSpace start rangeSize size) (freeSpaces gen start rangeSize size) := by
  unfold Generator.findFreeSpace freeSpaces
  cases gen.lastEnd with
  | none => exact draws_randomLocation start rangeSize size
  | some lastEnd =>
      dsimp only
      split_ifs
      · exact Draws.pure lastEnd
      · exact draws_randomLocation start rangeSize size

/-- Where `_find_address_space` may place a region of a memory type, before the alignment. -/
def spaces (gen : Generator) (memoryType : MemoryType) (size : ℤ) : Set ℤ :=
  match gen.spaceOf memoryType with
  | ([], default) => {default}
  | (range :: _, _) => freeSpaces gen range.start range.size size

/-- The generator places the region next to the last one. -/
def nextToLast (gen : Generator) (adjacent : Bool) : Option Region := if adjacent then gen.lastRegion else none

theorem findAddressSpace_adjacent {gen : Generator} {adjacent : Bool} {lastRegion : Region}
    (h : nextToLast gen adjacent = some lastRegion) (memoryType : Option MemoryType) (hintSize : Option ℤ) :
    gen.findAddressSpace memoryType adjacent hintSize = fun rng =>
      .ok ((.adjacent, align4k lastRegion.info.getEndAddress, hintSize.getD defaultRegionSize), rng) := by
  funext rng
  cases adjacent with
  | false => cases h
  | true =>
      have h : gen.lastRegion = some lastRegion := h
      unfold Generator.findAddressSpace
      simp only [h]

theorem findAddressSpace_none {gen : Generator} {adjacent : Bool} (h : nextToLast gen adjacent = none) (hintSize : Option ℤ) :
    gen.findAddressSpace none adjacent hintSize = fun _ => .error .keyError := by
  funext rng
  cases adjacent with
  | false => rfl
  | true =>
      have h : gen.lastRegion = none := h
      unfold Generator.findAddressSpace
      simp only [h]

theorem draws_findAddressSpace {gen : Generator} {adjacent : Bool} (h : nextToLast gen adjacent = none)
    (memoryType : MemoryType) (hintSize : Option ℤ) :
    Draws (gen.findAddressSpace (some memoryType) adjacent hintSize)
      ((fun base => (.found, align4k base, hintSize.getD defaultRegionSize)) ''
        spaces gen memoryType (hintSize.getD defaultRegionSize)) := by
  have hsearch : gen.findAddressSpace (some memoryType) adjacent hintSize =
      gen.findAddressSpace (some memoryType) false hintSize := by
    funext rng
    cases adjacent with
    | false => rfl
    | true =>
        have h : gen.lastRegion = none := h
        unfold Generator.findAddressSpace
        simp only [h]
  rw [hsearch, spaces]
  unfold Generator.findAddressSpace
  dsimp only
  rcases gen.spaceOf memoryType with ⟨_ | ⟨range, rest⟩, default⟩
  · rw [Set.image_singleton]
    exact Draws.pure _
  · exact (draws_findFreeSpace gen range.start range.size (hintSize.getD defaultRegionSize)).map
      fun base => (Placement.found, align4k base, hintSize.getD defaultRegionSize)

/-- The regions that a request may get. -/
def outcomes (gen : Generator) : Request → Set Region
  | .configured regionCfg =>
      let size := regionCfg.size.getD defaultRegionSize
      let info := Generator.pmaInfoOf regionCfg.attributes regionCfg.name
      match gen.adjacentRegion regionCfg, regionCfg.base with
      | some other, _ => {⟨.adjacent, info (align4k other.info.getEndAddress) size⟩}
      | none, some base => {⟨.base, info base size⟩}
      | none, none =>
          (fun base => ⟨.found, info (align4k base) defaultRegionSize⟩) ''
            spaces gen regionCfg.attributes.memoryType defaultRegionSize
  | .combination hint idx combo =>
      let size := hint.size.getD defaultRegionSize
      match combo.memoryType with
      | none => ∅
      | some memoryType =>
          let info := Generator.comboInfo combo hint idx memoryType
          match nextToLast gen hint.adjacent with
          | some lastRegion => {⟨.adjacent, info (align4k lastRegion.info.getEndAddress) size⟩}
          | none => (fun base => ⟨.found, info (align4k base) size⟩) '' spaces gen memoryType size

theorem draws_region (gen : Generator) (request : Request) : Draws (request.region gen) (outcomes gen request) := by
  cases request with
  | configured regionCfg =>
      have hregion : Request.region gen (.configured regionCfg) = gen.createPmaFromConfig regionCfg := rfl
      rw [hregion]
      unfold Generator.createPmaFromConfig outcomes
      dsimp only
      cases gen.adjacentRegion regionCfg with
      | some other => exact Draws.pure _
      | none =>
          cases regionCfg.base with
          | some base => exact Draws.pure _
          | none =>
              have hspace := (@draws_findAddressSpace gen false rfl regionCfg.attributes.memoryType none).map
                fun place => (⟨place.1, Generator.pmaInfoOf regionCfg.attributes regionCfg.name place.2.1 place.2.2⟩ : Region)
              rw [Set.image_image] at hspace
              exact hspace
  | combination hint idx combo =>
      have hregion : Request.region gen (.combination hint idx combo) = gen.generateRegion combo hint idx := rfl
      rw [hregion]
      unfold Generator.generateRegion outcomes
      dsimp only
      cases combo.memoryType with
      | none =>
          have heq : (fun rng => (gen.findAddressSpace none hint.adjacent hint.size rng) >>= fun _ =>
              (.error .keyError : Except GenerateFault (Region × RandNum))) = fun _ => .error .keyError := by
            funext rng
            cases hlast : nextToLast gen hint.adjacent with
            | none => rw [findAddressSpace_none hlast]; rfl
            | some lastRegion => rw [findAddressSpace_adjacent hlast]; rfl
          exact heq ▸ Draws.error GenerateFault.keyError
      | some memoryType =>
          cases hlast : nextToLast gen hint.adjacent with
          | some lastRegion =>
              rw [findAddressSpace_adjacent hlast]
              exact Draws.pure (⟨.adjacent, Generator.comboInfo combo hint idx memoryType
                (align4k lastRegion.info.getEndAddress) (hint.size.getD defaultRegionSize)⟩ : Region)
          | none =>
              have hspace := (draws_findAddressSpace hlast memoryType hint.size).map
                fun place => (⟨place.1, Generator.comboInfo combo hint idx memoryType place.2.1 place.2.2⟩ : Region)
              rw [Set.image_image] at hspace
              exact hspace

theorem draws_place (progress : Progress) (request : Request) :
    Draws (place progress request) (progress.add request '' outcomes progress.gen request) :=
  (draws_region progress.gen request).map (progress.add request)

/-! ### Regions that keep apart -/

/-- No address belongs to both regions. -/
def Region.Disjoint (region other : Region) : Prop :=
  ∀ address, ¬(region.info.containsAddress address = true ∧ other.info.containsAddress address = true)

/-- A region that the generator has found the place for shares no address with another one. -/
def Separate (regions : List Region) : Prop :=
  regions.Pairwise fun region other => region.placement = .found ∨ other.placement = .found → region.Disjoint other

/-- The addresses of a new region are in none of the regions. -/
def ClearOf (regions : List Region) (base size : ℤ) : Prop :=
  ∀ region ∈ regions, ∀ address, base ≤ address → address < base + size → region.info.containsAddress address = false

theorem separate_concat {regions : List Region} {region : Region} : Separate (regions ++ [region]) ↔
    Separate regions ∧ ∀ other ∈ regions, other.placement = .found ∨ region.placement = .found → other.Disjoint region := by
  simp [Separate, List.pairwise_append]

theorem disjoint_iff {region other : Region} : other.Disjoint region ↔
    ∀ address, region.info.pmaAddress ≤ address → address < region.info.pmaAddress + region.info.pmaSize →
      other.info.containsAddress address = false := by
  simp only [Region.Disjoint, @PmaInfo.containsAddress_iff region.info, PmaInfo.getEndAddress, not_and, Bool.eq_false_iff]
  exact forall_congr' fun address => ⟨fun h hlow hhigh hmem => h hmem hlow hhigh, fun h hmem hlow hhigh => h hlow hhigh hmem⟩

/-- A region whose place the generator found has to stay clear of all others. -/
theorem separate_concat_found {regions : List Region} {info : PmaInfo} : Separate (regions ++ [⟨.found, info⟩]) ↔
    Separate regions ∧ ClearOf regions info.pmaAddress info.pmaSize := by
  rw [separate_concat]
  refine and_congr_right fun _ => forall₂_congr fun other _ => ?_
  rw [forall_prop_of_true (Or.inr rfl), disjoint_iff]

/-- Any other region has to stay clear of those. -/
theorem separate_concat_other {regions : List Region} {placement : Placement} {info : PmaInfo} (h : placement ≠ .found) :
    Separate (regions ++ [⟨placement, info⟩]) ↔ Separate regions ∧
      ClearOf (regions.filter fun region => region.placement = .found) info.pmaAddress info.pmaSize := by
  rw [separate_concat]
  refine and_congr_right fun _ => ?_
  simp only [ClearOf, List.mem_filter, decide_eq_true_eq, and_imp, or_iff_left h]
  exact forall₂_congr fun other _ => imp_congr_right fun _ => disjoint_iff

/-! ### The condition -/

/-- Wherever it may draw a location, the region would be clear of the given ones; with a single page to spare there is
nothing to draw from, and drawing raises. -/
def LocationsClear (regions : List Region) (start rangeSize size : ℤ) : Prop :=
  if rangeSize < size ∨ (rangeSize - size) / 0x1000 ≤ 0 then ClearOf regions (align4k start) size
  else (rangeSize - size) / 0x1000 ≠ 1 ∧ ∀ page, 0 ≤ page → page < (rangeSize - size) / 0x1000 - 1 →
    ClearOf regions (align4k (start + page * 0x1000)) size

/-- The regions placed so far that are not in `generated_regions`. -/
def Progress.untracked (progress : Progress) : List Region :=
  progress.regions.filter fun region => region ∉ progress.gen.generatedRegions

/-- Behind the tracked regions only the untracked ones can be in the way; a drawn location has to be clear of all. -/
def FreeSpaceClear (progress : Progress) (start rangeSize size : ℤ) : Prop :=
  match progress.gen.lastEnd with
  | some lastEnd =>
      if lastEnd + size < start + rangeSize then ClearOf progress.untracked (align4k lastEnd) size
      else LocationsClear progress.regions start rangeSize size
  | none => LocationsClear progress.regions start rangeSize size

def SpaceClear (progress : Progress) (memoryType : MemoryType) (size : ℤ) : Prop :=
  match progress.gen.spaceOf memoryType with
  | ([], default) => ClearOf progress.regions (align4k default) size
  | (range :: _, _) => FreeSpaceClear progress range.start range.size size

/-- The regions that the generator has found the place for. -/
def Progress.found (progress : Progress) : List Region :=
  progress.regions.filter fun region => region.placement = .found

/-- A request goes well: a region with a configured base or next to another one is clear of those the generator found the
place for, and where it has to find a place, all it may choose is clear of the regions so far. -/
def RequestClear (progress : Progress) : Request → Prop
  | .configured regionCfg =>
      let size := regionCfg.size.getD defaultRegionSize
      match progress.gen.adjacentRegion regionCfg, regionCfg.base with
      | some other, _ => ClearOf progress.found (align4k other.info.getEndAddress) size
      | none, some base => ClearOf progress.found base size
      | none, none => SpaceClear progress regionCfg.attributes.memoryType defaultRegionSize
  | .combination hint _ combo =>
      let size := hint.size.getD defaultRegionSize
      match combo.memoryType with
      | none => False
      | some memoryType =>
          match nextToLast progress.gen hint.adjacent with
          | some lastRegion => ClearOf progress.found (align4k lastRegion.info.getEndAddress) size
          | none => SpaceClear progress memoryType size

theorem locationsClear_iff {regions : List Region} {start rangeSize size : ℤ} : LocationsClear regions start rangeSize size ↔
    (locations start rangeSize size).Nonempty ∧
      ∀ base ∈ locations start rangeSize size, ClearOf regions (align4k base) size := by
  unfold LocationsClear locations
  split_ifs with hstart
  · simp
  · constructor
    · rintro ⟨hpages, hclear⟩
      refine ⟨⟨start, 0, le_refl 0, by omega, by omega⟩, ?_⟩
      rintro _ ⟨page, hpage, hlt, rfl⟩
      exact hclear page hpage hlt
    · rintro ⟨⟨-, page, hpage, hlt, -⟩, hclear⟩
      exact ⟨by omega, fun page hpage hlt => hclear _ ⟨page, hpage, hlt, rfl⟩⟩

theorem le_align4k (base : ℤ) : base ≤ align4k base := by
  unfold align4k
  omega

theorem getEndAddress_le_lastEnd {gen : Generator} {lastEnd : ℤ} (h : gen.lastEnd = some lastEnd) {region : Region}
    (hregion : region ∈ gen.generatedRegions) : region.info.getEndAddress ≤ lastEnd :=
  (List.max?_eq_some_iff.mp h).2 _ (List.mem_map_of_mem hregion)

theorem clearOf_untracked_iff {progress : Progress} {lastEnd size : ℤ} (h : progress.gen.lastEnd = some lastEnd) :
    ClearOf progress.untracked (align4k lastEnd) size ↔ ClearOf progress.regions (align4k lastEnd) size := by
  constructor
  · intro hclear region hregion address hlow hhigh
    by_cases htracked : region ∈ progress.gen.generatedRegions
    · -- a tracked region ends below
      have hend := getEndAddress_le_lastEnd h htracked
      have halign := le_align4k lastEnd
      rw [Bool.eq_false_iff, ne_eq, PmaInfo.containsAddress_iff]
      omega
    · exact hclear region (List.mem_filter.mpr ⟨hregion, by simpa using htracked⟩) address hlow hhigh
  · exact fun hclear region hregion => hclear region (List.mem_of_mem_filter hregion)

theorem spaceClear_iff {progress : Progress} {memoryType : MemoryType} {size : ℤ} : SpaceClear progress memoryType size ↔
    (spaces progress.gen memoryType size).Nonempty ∧
      ∀ base ∈ spaces progress.gen memoryType size, ClearOf progress.regions (align4k base) size := by
  unfold SpaceClear spaces
  rcases progress.gen.spaceOf memoryType with ⟨_ | ⟨range, rest⟩, default⟩
  · simp
  · dsimp only
    unfold FreeSpaceClear freeSpaces
    cases hlast : progress.gen.lastEnd with
    | none => exact locationsClear_iff
    | some lastEnd =>
        dsimp only
        split_ifs
        · simp [clearOf_untracked_iff hlast]
        · exact locationsClear_iff

/-- The next region keeps apart whatever is drawn, exactly when its request goes well. -/
theorem requestClear_iff {progress : Progress} (hseparate : Separate progress.regions) (request : Request) :
    RequestClear progress request ↔ (progress.add request '' outcomes progress.gen request).Nonempty ∧
      ∀ progress' ∈ progress.add request '' outcomes progress.gen request, Separate progress'.regions := by
  rw [Set.image_nonempty, Set.forall_mem_image]
  have hfound : ∀ {memoryType : MemoryType} {size : ℤ} {info : ℤ → PmaInfo},
      (∀ base, (info base).pmaAddress = align4k base ∧ (info base).pmaSize = size) →
      (SpaceClear progress memoryType size ↔
        ((fun base => (⟨.found, info base⟩ : Region)) '' spaces progress.gen memoryType size).Nonempty ∧
          ∀ region ∈ (fun base => (⟨.found, info base⟩ : Region)) '' spaces progress.gen memoryType size,
            Separate (progress.regions ++ [region])) := by
    intro memoryType size info hinfo
    rw [spaceClear_iff, Set.image_nonempty, Set.forall_mem_image]
    refine and_congr_right fun _ => forall₂_congr fun base _ => ?_
    rw [separate_concat_found, and_iff_right hseparate, (hinfo base).1, (hinfo base).2]
  have hother : ∀ {placement : Placement} {info : PmaInfo} {base size : ℤ}, placement ≠ .found → info.pmaAddress = base →
      info.pmaSize = size → (ClearOf progress.found base size ↔
        ({⟨placement, info⟩} : Set Region).Nonempty ∧
          ∀ region ∈ ({⟨placement, info⟩} : Set Region), Separate (progress.regions ++ [region])) := by
    rintro placement info _ _ hplacement rfl rfl
    simp only [Set.singleton_nonempty, Set.mem_singleton_iff, forall_eq, true_and]
    rw [separate_concat_other hplacement, and_iff_right hseparate]
    rfl
  cases request with
  | configured regionCfg =>
      unfold RequestClear outcomes
      dsimp only
      cases progress.gen.adjacentRegion regionCfg with
      | some other => exact @hother .adjacent _ _ _ (by decide) rfl rfl
      | none =>
          cases regionCfg.base with
          | some base => exact @hother .base _ _ _ (by decide) rfl rfl
          | none => exact hfound fun base => ⟨rfl, rfl⟩
  | combination hint idx combo =>
      unfold RequestClear outcomes
      dsimp only
      cases combo.memoryType with
      | none => simp
      | some memoryType =>
          dsimp only
          cases nextToLast progress.gen hint.adjacent with
          | some lastRegion => exact @hother .adjacent _ _ _ (by decide) rfl rfl
          | none => exact hfound fun base => ⟨rfl, rfl⟩

/-- Within the limit, and with every region that the generator found the place for apart from all others. -/
def Generates (pmaConfig : PmaConfig) (result : Except GenerateFault (List Region)) : Prop :=
  ∃ regions, result = .ok regions ∧ regions.length ≤ pmaConfig.maxRegions ∧ Separate regions

/-- Whatever has been drawn before, every request goes well. -/
def RunsClear (pmaConfig : PmaConfig) (memory : Memory) (hints : List ParsedPmaHint) : Prop :=
  ∀ front request back, requests pmaConfig hints = front ++ request :: back → ∀ rng reached rng',
    run place front (.start pmaConfig memory) rng = .ok (reached, rng') → RequestClear reached request

/-- For every random choice the generator stays within the limit and keeps the regions it places apart, exactly when no
more regions are asked for than the limit allows and every request goes well in every run. -/
theorem generateAll_generates_iff (pmaConfig : PmaConfig) (memory : Memory) (hints : List ParsedPmaHint) :
    (∀ rng, Generates pmaConfig (generateAll pmaConfig memory rng hints)) ↔
      (requests pmaConfig hints).length ≤ pmaConfig.maxRegions ∧ RunsClear pmaConfig memory hints := by
  have hback : ∀ (progress : Progress) (request : Request) (progress' : Progress),
      progress' ∈ progress.add request '' outcomes progress.gen request →
        Separate progress'.regions → Separate progress.regions := by
    rintro progress request _ ⟨region, -, rfl⟩ hseparate
    exact (separate_concat.mp hseparate).1
  have hruns := @forall_run_iff RandNum GenerateFault Progress Request place (fun progress => Separate progress.regions)
    RequestClear (fun progress request => progress.add request '' outcomes progress.gen request) ⟨⟨[]⟩⟩ draws_place hback
    (fun progress request hseparate => requestClear_iff hseparate request) (requests pmaConfig hints)
    (.start pmaConfig memory)
  have hstart : Separate (Progress.start pmaConfig memory).regions := List.Pairwise.nil
  rw [and_iff_right hstart] at hruns
  have hclear : RunsClear pmaConfig memory hints ↔ _ := hruns.symm
  rw [hclear]
  constructor
  · intro hall
    have hrun : ∀ rng, ∃ progress rng', run place (requests pmaConfig hints) (.start pmaConfig memory) rng =
        .ok (progress, rng') ∧ progress.regions.length ≤ pmaConfig.maxRegions ∧ Separate progress.regions := by
      intro rng
      obtain ⟨regions, hregions, hlimit, hseparate⟩ := hall rng
      rw [generateAll_eq] at hregions
      obtain ⟨⟨progress, rng'⟩, hrun, rfl⟩ := Fallible.map_ok hregions
      exact ⟨progress, rng', hrun, hlimit, hseparate⟩
    constructor
    · obtain ⟨progress, rng', hend, hlimit, -⟩ := hrun ⟨[]⟩
      have hlength : progress.regions.length = 0 + (requests pmaConfig hints).length := (run_counts hend).2.2
      omega
    · intro rng
      obtain ⟨progress, rng', hend, -, hseparate⟩ := hrun rng
      exact ⟨progress, rng', hend, hseparate⟩
  · rintro ⟨hlimit, hall⟩ rng
    obtain ⟨progress, rng', hrun, hseparate⟩ := hall rng
    have hlength : progress.regions.length = 0 + (requests pmaConfig hints).length := (run_counts hrun).2.2
    refine ⟨progress.regions, ?_, by omega, hseparate⟩
    rw [generateAll_eq, hrun]
    rfl

/-! ### Concrete configurations -/

/-- One region of 4 KiB at the start of the memory. -/
def oneRegion : PmaConfig := { regions := [{ name := "boot", base := some 0x80000000, size := some 0x1000 }] }

def twoGigabytes : Memory := ⟨[⟨0x80000000, 0x80000000, Addrgen.twoGigabytes_pos⟩], [⟨0, 0x10000000, by decide⟩], [], [], []⟩

/-- A hint for two regions that differ in their permissions. -/
def twoCombinations : ParsedPmaHint := { name := "data", rwxCombos := ["rwx", "r"] }

/-- The regions of one hint are not tracked while it is worked on: both are placed behind the configured one. -/
theorem not_generateAll_generates : ¬∀ (pmaConfig : PmaConfig) (memory : Memory) (rng : RandNum) (hints : List ParsedPmaHint),
    Generates pmaConfig (generateAll pmaConfig memory rng hints) := by
  intro hall
  obtain ⟨regions, hregions, -, hseparate⟩ := hall oneRegion twoGigabytes ⟨[]⟩ [twoCombinations]
  have hrun : (generateAll oneRegion twoGigabytes ⟨[]⟩ [twoCombinations]).toOption.map
      (List.map fun region => (region.placement, region.info.pmaAddress, region.info.pmaSize)) =
      some [(.base, 0x80000000, 0x1000), (.found, 0x80001000, 0x1000000), (.found, 0x80001000, 0x1000000)] := by
    decide +kernel
  rw [hregions] at hrun
  obtain ⟨boot, rest, rfl, -, hrest⟩ := List.map_eq_cons_iff.mp (Option.some.inj hrun)
  obtain ⟨first, rest, rfl, hfirst, hrest⟩ := List.map_eq_cons_iff.mp hrest
  obtain ⟨second, rest, rfl, hsecond, -⟩ := List.map_eq_cons_iff.mp hrest
  have hpair := List.rel_of_pairwise_cons (List.pairwise_cons.mp hseparate).2 (List.mem_cons_self (l := rest))
  simp only [Prod.mk.injEq] at hfirst hsecond
  refine hpair (Or.inl hfirst.1) 0x80001000 ?_
  simp [PmaInfo.containsAddress_iff, PmaInfo.getEndAddress, hfirst, hsecond]

end Riescue.PmaGenerator
