import Riescue.LibChoice
import Riescue.PmaGenerator
import Mathlib.Data.Set.Insert

/-! The run of the generator over its requests. Which regions are asked for, and in which order, follows from the
configuration and the hints alone; the three loops of `generate_all` place them one after the other. -/

namespace Riescue.PmaGenerator
open Fallible Choice Pma
open Addrgen (Memory)

/-- One region to place. -/
inductive Request where
  | configured (regionCfg : PmaRegionConfig)
  | combination (hint : ParsedPmaHint) (idx : ℕ) (combo : Combo)

/-- The generator with the regions placed so far. -/
structure Progress where
  gen : Generator
  regions : List Region

namespace Request

/-- The new region is added to `generated_regions`. -/
def track : Request → Bool
  | configured regionCfg => !regionCfg.autoGenerate
  | combination .. => false

/-- The region for a request. -/
def region (gen : Generator) : Request → RandNum → Except GenerateFault (Region × RandNum)
  | configured regionCfg => gen.createPmaFromConfig regionCfg
  | combination hint idx combo => gen.generateRegion combo hint idx

end Request

def Progress.add (progress : Progress) (request : Request) (region : Region) : Progress :=
  ⟨progress.gen.addRegion region request.track, progress.regions ++ [region]⟩

/-- Places the region for a request. -/
def place (progress : Progress) (request : Request) (rng : RandNum) : Except GenerateFault (Progress × RandNum) :=
  request.region progress.gen rng >>= fun placed => .ok (progress.add request placed.1, placed.2)

def configuredRequests (auto : Bool) (regions : List PmaRegionConfig) : List Request :=
  (regions.filter fun regionCfg => regionCfg.autoGenerate = auto).map Request.configured

def combinationRequests (hint : ParsedPmaHint) : ℕ → List Combo → List Request
  | _, [] => []
  | idx, combo :: combinations => .combination hint idx combo :: combinationRequests hint (idx + 1) combinations

/-- The requests of the hints, with the regions that are in use before each. -/
def hintRequests (maxRegions : ℤ) : ℤ → List ParsedPmaHint → List Request
  | _, [] => []
  | usedRegions, hint :: hints =>
      let requests := combinationRequests hint 0 (Generator.limitedCombinations maxRegions usedRegions hint)
      requests ++ hintRequests maxRegions (usedRegions + requests.length) hints

/-- The requests of `generate_all`. -/
def requests (pmaConfig : PmaConfig) (hints : List ParsedPmaHint) : List Request :=
  let configured := configuredRequests false pmaConfig.regions
  configured ++ hintRequests pmaConfig.maxRegions configured.length (hints ++ pmaConfig.hints.map convertJsonHintToParsed) ++
    configuredRequests true pmaConfig.regions

def Progress.start (pmaConfig : PmaConfig) (memory : Memory) : Progress := ⟨Generator.new pmaConfig memory, []⟩

/-! ### The loops -/

theorem place_ok {progress progress' : Progress} {request : Request} {rng rng' : RandNum}
    (h : place progress request rng = .ok (progress', rng')) :
    ∃ region, request.region progress.gen rng = .ok (region, rng') ∧ progress' = progress.add request region := by
  obtain ⟨⟨region, rng₁⟩, hregion, h⟩ := bind_ok h
  obtain ⟨rfl, rfl⟩ := Prod.mk.inj (Except.ok.inj h)
  exact ⟨region, hregion, rfl⟩

/-- A run keeps the limit and counts the regions. -/
theorem run_counts {requests : List Request} {progress progress' : Progress} {rng rng' : RandNum}
    (h : run place requests progress rng = .ok (progress', rng')) :
    progress'.gen.maxRegions = progress.gen.maxRegions ∧
      progress'.gen.usedRegions = progress.gen.usedRegions + requests.length ∧
      progress'.regions.length = progress.regions.length + requests.length := by
  induction requests generalizing progress rng with
  | nil =>
      obtain ⟨rfl, -⟩ := Prod.mk.inj (Except.ok.inj h)
      simp
  | cons request requests ih =>
      obtain ⟨progress₁, rng₁, hplace, hrest⟩ := run_cons_ok h
      obtain ⟨region, -, rfl⟩ := place_ok hplace
      obtain ⟨hmax, hused, hlength⟩ := ih hrest
      refine ⟨hmax, ?_, ?_⟩
      · rw [hused, Progress.add, Generator.addRegion, List.length_cons]
        push_cast
        omega
      · rw [hlength, Progress.add, List.length_append, List.length_singleton, List.length_cons]
        omega

/-- A loop of the generator does what the run does over the requests, and returns the regions that are new. -/
def Follows (loop : Generator → RandNum → Except GenerateFault ((List Region × Generator) × RandNum))
    (requests : Generator → List Request) : Prop :=
  ∀ gen regions rng, (loop gen rng).map (fun result => (⟨result.1.2, regions ++ result.1.1⟩, result.2)) =
    run place (requests gen) ⟨gen, regions⟩ rng

theorem follows_nil : Follows (fun gen rng => .ok (([], gen), rng)) fun _ => [] := by
  intro gen regions rng
  simp [Except.map, run]

/-- A turn that places one region and goes on. -/
theorem follows_cons {loop : Generator → RandNum → Except GenerateFault ((List Region × Generator) × RandNum)}
    {request : Request} {rest : List Request} (h : Follows loop fun _ => rest) :
    Follows (fun gen rng => do
      let (region, rng) ← request.region gen rng
      let ((regions, gen), rng) ← loop (gen.addRegion region request.track) rng
      pure ((region :: regions, gen), rng)) fun _ => request :: rest := by
  intro gen regions rng
  rw [run, place]
  dsimp only
  cases hregion : request.region gen rng with
  | error fault => rfl
  | ok placed =>
      have hrest := h (gen.addRegion placed.1 request.track) (regions ++ [placed.1]) placed.2
      refine Eq.trans ?_ hrest
      dsimp only [bind, Except.bind]
      cases loop (gen.addRegion placed.1 request.track) placed.2 with
      | error fault => rfl
      | ok result => simp [Except.map, pure, Except.pure]

theorem configuredRegions_follows (auto : Bool) (regions : List PmaRegionConfig) :
    Follows (Generator.configuredRegions auto regions) fun _ => configuredRequests auto regions := by
  induction regions with
  | nil => exact follows_nil
  | cons regionCfg regions ih =>
      by_cases hauto : regionCfg.autoGenerate = auto
      · have hrequests : configuredRequests auto (regionCfg :: regions) =
            .configured regionCfg :: configuredRequests auto regions := by
          simp [configuredRequests, hauto]
        rw [hrequests]
        intro gen placed rng
        rw [← follows_cons ih gen placed rng, Generator.configuredRegions, if_pos hauto]
        simp only [Request.region, Request.track, hauto]
      · have hrequests : configuredRequests auto (regionCfg :: regions) = configuredRequests auto regions := by
          simp [configuredRequests, hauto]
        rw [hrequests]
        intro gen placed rng
        rw [← ih gen placed rng, Generator.configuredRegions, if_neg hauto]

theorem generateCombinations_follows (hint : ParsedPmaHint) (idx : ℕ) (combinations : List Combo) :
    Follows (Generator.generateCombinations hint idx combinations) fun _ => combinationRequests hint idx combinations := by
  induction combinations generalizing idx with
  | nil => exact follows_nil
  | cons combo combinations ih =>
      intro gen placed rng
      exact @follows_cons _ (.combination hint idx combo) _ (ih (idx + 1)) gen placed rng

/-- One loop after the other, where the second one may depend on the counts. -/
theorem follows_append {loop loop' : Generator → RandNum → Except GenerateFault ((List Region × Generator) × RandNum)}
    {requests requests' : Generator → List Request} (h : Follows loop requests) (h' : Follows loop' requests')
    {later : Generator → List Request} (hlater : ∀ gen gen' : Generator, gen'.maxRegions = gen.maxRegions →
      gen'.usedRegions = gen.usedRegions + (requests gen).length → requests' gen' = later gen) :
    Follows (fun gen rng => do
      let ((regions, gen), rng) ← loop gen rng
      let ((rest, gen), rng) ← loop' gen rng
      pure ((regions ++ rest, gen), rng)) fun gen => requests gen ++ later gen := by
  intro gen regions rng
  have hfirst := h gen regions rng
  rw [run_append, ← hfirst]
  dsimp only
  cases hloop : loop gen rng with
  | error fault => rfl
  | ok result =>
      rw [hloop] at hfirst
      obtain ⟨hmax, hused, -⟩ := run_counts hfirst.symm
      have hsecond := h' result.1.2 (regions ++ result.1.1) result.2
      rw [hlater gen result.1.2 hmax hused] at hsecond
      refine Eq.trans ?_ hsecond
      dsimp only [bind, Except.bind]
      cases loop' result.1.2 result.2 with
      | error fault => rfl
      | ok rest => simp [Except.map, pure, Except.pure]

theorem generateFromHints_follows (hints : List ParsedPmaHint) :
    Follows (Generator.generateFromHints hints) fun gen => hintRequests gen.maxRegions gen.usedRegions hints := by
  induction hints with
  | nil => exact follows_nil
  | cons hint hints ih =>
      have hfirst : Follows (fun gen rng => gen.generateFromHint hint rng) fun gen =>
          combinationRequests hint 0 (Generator.limitedCombinations gen.maxRegions gen.usedRegions hint) :=
        fun gen placed rng => generateCombinations_follows hint 0 _ gen placed rng
      exact follows_append hfirst ih fun gen gen' hmax hused => by rw [hmax, hused]

/-- `generate_all` places its requests one after the other. -/
theorem generateAll_eq (pmaConfig : PmaConfig) (memory : Memory) (rng : RandNum) (hints : List ParsedPmaHint) :
    generateAll pmaConfig memory rng hints =
      (run place (requests pmaConfig hints) (.start pmaConfig memory) rng).map fun result => result.1.regions := by
  have hconfigured := configuredRegions_follows false pmaConfig.regions (Generator.new pmaConfig memory) [] rng
  rw [generateAll, requests, Progress.start, run_append, run_append, ← hconfigured]
  cases hloop : Generator.configuredRegions false pmaConfig.regions (Generator.new pmaConfig memory) rng with
  | error fault => rfl
  | ok configured =>
      rw [hloop] at hconfigured
      obtain ⟨hmax, hused, -⟩ := run_counts hconfigured.symm
      have hmax : configured.1.2.maxRegions = pmaConfig.maxRegions := hmax
      have hused : configured.1.2.usedRegions = (configuredRequests false pmaConfig.regions).length := by
        rw [hused]
        exact Int.zero_add _
      have hhinted := generateFromHints_follows (hints ++ pmaConfig.hints.map convertJsonHintToParsed) configured.1.2
        configured.1.1 configured.2
      dsimp only at hhinted
      rw [hmax, hused] at hhinted
      dsimp only [bind, Except.bind, Except.map, List.nil_append]
      rw [← hhinted]
      cases Generator.generateFromHints (hints ++ pmaConfig.hints.map convertJsonHintToParsed) configured.1.2 configured.2 with
      | error fault => rfl
      | ok hinted =>
          have hauto := configuredRegions_follows true pmaConfig.regions hinted.1.2 (configured.1.1 ++ hinted.1.1) hinted.2
          dsimp only [Except.map]
          rw [← hauto]
          cases Generator.configuredRegions true pmaConfig.regions hinted.1.2 hinted.2 with
          | error fault => rfl
          | ok auto => rfl

end Riescue.PmaGenerator
