import Riescue.CanonicalizerConsistent
import Riescue.Expander
import Riescue.MemoryRegistry
import Riescue.PageEmit

/-! Conditional blocks and the PMP regions that they ask for, `ConditionalBlockAction` and `RequestPmpAction`: the request
becomes a data page of the registry when its test is canonicalized, and the block is kept or dropped when it is expanded. -/

namespace Riescue.ConditionalPmp
open Canonicalizer (actionGenerator canonicalize CanonicalTests Canonical Allocation)
open MemoryRegistry (DramRange MemoryMap PmpAttribute rvPmaAttr)
open PageEmit (FlagChoice Page Reservation Sizes)
open Pmp (PmpAttributes)
open TestPlan OrderedDict

/-! ### The registry -/

/-- The arguments of a `MemoryAction`. -/
structure MemoryAction where
  size : ℕ
  pageSize : Sizes
  flags : FlagChoice
  modify : Bool := false
  modifyLeaf : Bool := false
  modifyNonleaf : Bool := false
  numPages : ℕ := 1
  orMask : List Char := []
  nonleaf : FlagChoice := {}
  leafGleaf : FlagChoice := {}
  vleafPageSize : Option Sizes := none
  nonleafGleaf : FlagChoice := {}
  vnonleafPageSize : Option Sizes := none
  leafGnonleaf : FlagChoice := {}
  nonleafGnonleaf : FlagChoice := {}
  deriving DecidableEq, Repr

/-- `RequestPmpAction`. Its step gives no other arguments of a page. -/
structure RequestPmpAction where
  pmpAttributes : PmpAttribute
  size : ℕ
  pageSize : Sizes
  flags : FlagChoice
  orMask : List Char := []
  modify : Bool := false
  deriving DecidableEq, Repr

def RequestPmpAction.memoryAction (request : RequestPmpAction) : MemoryAction where
  size := request.size
  pageSize := request.pageSize
  flags := request.flags
  modify := request.modify
  orMask := request.orMask

/-- The page of a memory action, with the defaults of `Page` where `allocate_data` gives nothing: no start address and, beyond
what its page size asks for, no AND mask. -/
def MemoryAction.page (action : MemoryAction) (name : String) : Page where
  name := name.toList
  size := some action.size
  pageSize := some action.pageSize
  flags := action.flags
  numPages := some action.numPages
  orMask := action.orMask
  modify := action.modify
  modifyLeaf := action.modifyLeaf
  modifyNonleaf := action.modifyNonleaf
  nonleaf := action.nonleaf
  leafGleaf := action.leafGleaf
  vleafPageSize := action.vleafPageSize
  nonleafGleaf := action.nonleafGleaf
  vnonleafPageSize := action.vnonleafPageSize
  leafGnonleaf := action.leafGnonleaf
  nonleafGnonleaf := action.nonleafGnonleaf

/-- The pages of the `MemoryRegistry`. -/
structure Registry where
  data : List (String × Page) := []
  code : List (String × Page) := []

/-- The object of an id: the arguments of a memory action or of a code page, or a request. -/
inductive MemoryObject where
  | memory (action : MemoryAction)
  | request (action : RequestPmpAction)
  deriving DecidableEq, Repr

def MemoryObject.page (name : String) : MemoryObject → Page
  | memory action => action.page name
  | request action => action.memoryAction.page name

/-- `allocate_data` and `allocate_code`, for the actions by their new ids. -/
def Registry.allocate (objects : String → MemoryObject) (registry : Registry) : Allocation → Registry
  | .data name => { registry with data := insert registry.data name ((objects name).page name) }
  | .code name => { registry with code := insert registry.code name ((objects name).page name) }

/-- `request_successful` -/
def Registry.requestSuccessful (registry : Registry) (name : String) : Bool := (get? registry.data name).isSome

/-- The registry when all tests are canonicalized. -/
def registryOf (objects : String → MemoryObject) (result : CanonicalTests) : Registry :=
  result.allocations.foldl (Registry.allocate objects) {}

/-! ### Expansion -/

/-- The instruction catalog: its test of extensions, and the extension that is always enabled. -/
structure Catalog where
  isa : List String
  supportsExtensions : List String → Bool
  supports_iff : ∀ features, supportsExtensions features = true ↔ ∀ feature ∈ features, feature ∈ isa
  base : "I" ∈ isa

/-- `requested_mem` -/
def requestedMem (block : Canonicalizer.Action) : Option String :=
  match get? block.attrs "requested_mem" with
  | some (.str memory) => some memory
  | _ => none

/-- What expansion reads of the context. -/
def environment (env : Expander.Environment) (catalog : Catalog) (registry : Registry) : Expander.Environment :=
  { env with
    supportsExtensions := catalog.supportsExtensions
    requestSuccessful := registry.requestSuccessful }

/-- `ConditionalBlockAction.expand` -/
def expandBlock (env : Expander.Environment) (block : Canonicalizer.Action) (features : List String) (code : List Expander.Action)
    (ctx : Expander.LoweringContext) :
    Except Expander.ExpandFault (Expansion.Outcome Expander.Action × Expander.LoweringContext) :=
  Expander.Action.expand env (.conditionalBlock ⟨block.stepId, features, requestedMem block, false⟩ code) ctx

/-! ### The property and its condition -/

/-- A test before and after it is canonicalized. -/
abbrev TestPair := List Canonicalizer.Action × Canonical

/-- The actions of a test, each with the one that it becomes. -/
def TestPair.actions (test : TestPair) : List (Canonicalizer.Action × Canonicalizer.Action) :=
  (actionGenerator test.1).zip test.2.objects

/-- The map has a DRAM region of the permissions, or a configurable range that is split for them. -/
def Yields (memoryMap : MemoryMap) (permissions : PmpAttributes) (size : ℕ) (region : DramRange) : Prop :=
  (region ∈ memoryMap.dramRanges ∧ region.permissions = permissions) ∨
    (∀ range ∈ memoryMap.dramRanges, range.permissions ≠ permissions) ∧ ∃ range ∈ memoryMap.dramRanges,
      ∃ dram0 newDram, range.split (size / 2) = .ok (dram0, newDram) ∧ region = { newDram with permissions }

/-- The bytes are DRAM of the map. -/
def InDram (memoryMap : MemoryMap) (base size : ℕ) : Prop :=
  ∃ range ∈ memoryMap.dramRanges, range.start ≤ base ∧ base + size ≤ range.start + range.size

/-- Every place in DRAM that the lines of the page admit is in the region. -/
def Inside (memoryMap : MemoryMap) (page : Page) (region : DramRange) : Prop :=
  ∀ emission, page.emission = some emission → ∀ base, emission.phys.Admits base →
    InDram memoryMap base emission.phys.size →
      region.start ≤ base ∧ base + emission.phys.size ≤ region.start + region.size

/-- What the blocks are generated for; the memory actions are given by their new ids. -/
structure Target where
  memoryMap : MemoryMap
  catalog : Catalog
  objects : String → MemoryObject

variable {target : Target} {test : TestPair} {block : Canonicalizer.Action × Canonicalizer.Action}

/-- The block names the request with the new id, which asks for the permissions. -/
structure Requests (target : Target) (test : TestPair) (block : Canonicalizer.Action) (id : String)
    (request : RequestPmpAction) (permissions : PmpAttributes) : Prop where
  named : ∃ pair ∈ test.actions, (∃ stepId attrs, pair.1 = .plain .requestPmp stepId attrs) ∧
    requestedMem block = some pair.1.stepId ∧ pair.2.stepId = id
  object : target.objects id = .request request
  supported : rvPmaAttr request.pmpAttributes = .ok permissions

/-- All features of the block are supported. -/
def Target.Supports (target : Target) (features : List String) : Prop := ∀ feature ∈ features, feature ∈ target.catalog.isa

/-- The condition of a block. -/
def Target.Condition (target : Target) (test : TestPair) (block : Canonicalizer.Action) (features : List String) : Prop :=
  target.Supports features ∧ ∀ id request permissions, Requests target test block id request permissions →
    ∃ region, Yields target.memoryMap permissions request.size region

/-- The code of a block is there exactly when its condition holds, and then the page of the request is inside the region. -/
structure FollowsMap (target : Target) (result : CanonicalTests) (test : TestPair)
    (block : Canonicalizer.Action × Canonicalizer.Action) (features : List String) (code : List Expander.Action)
    (env : Expander.Environment) (ctx : Expander.LoweringContext) : Prop where
  present : target.Condition test block.1 features →
    expandBlock (environment env target.catalog (registryOf target.objects result)) block.2 features code ctx =
      .ok (.replace code, ctx)
  absent : ¬target.Condition test block.1 features →
    expandBlock (environment env target.catalog (registryOf target.objects result)) block.2 features code ctx =
      .ok (.replace [], ctx)
  inside : target.Condition test block.1 features → ∀ id request permissions,
    Requests target test block.1 id request permissions → ∃ region, Yields target.memoryMap permissions request.size region ∧
      ∃ page, get? (registryOf target.objects result).data id = some page ∧ Inside target.memoryMap page region

/-- When a block follows the map: a feature is missing, or all places of the pages that it names are in a region anyway, or it
has no code to drop. -/
inductive Follows (target : Target) (test : TestPair) (block : Canonicalizer.Action) (features : List String)
    (code : List Expander.Action) : Prop
  | unsupported (h : ¬target.Supports features)
  | inside (h : ∀ id request permissions, Requests target test block id request permissions →
      ∃ region, Yields target.memoryMap permissions request.size region ∧
        Inside target.memoryMap (request.memoryAction.page id) region)
  | empty (h : ∃ id request permissions, Requests target test block id request permissions ∧
      ∀ region, ¬Yields target.memoryMap permissions request.size region) (hcode : code = [])

/-! ### The registry of a run -/

theorem get?_allocate {objects : String → MemoryObject} {allocations : List Allocation} {registry : Registry} {id : String}
    (h : get? registry.data id = some ((objects id).page id) ∨ .data id ∈ allocations) :
    get? (allocations.foldl (Registry.allocate objects) registry).data id = some ((objects id).page id) := by
  induction allocations generalizing registry with
  | nil => exact h.resolve_right List.not_mem_nil
  | cons allocation rest ih =>
      refine ih ?_
      cases allocation with
      | code name =>
          exact h.imp_right fun hmem => (List.mem_cons.mp hmem).resolve_left
            fun heq => nomatch (heq : Allocation.data id = .code name)
      | data name =>
          by_cases hname : id = name
          · rw [hname]
            exact .inl (get?_insert_self ..)
          · refine h.imp (fun hdata => (get?_insert_ne _ _ hname).trans hdata) fun hmem => ?_
            exact (List.mem_cons.mp hmem).resolve_left fun heq => hname (Allocation.data.inj heq)

/-- The environment supports what the catalog does; the base extension adds nothing. -/
theorem active_iff (env : Expander.Environment) (registry : Registry) (block : Expander.ConditionalBlockAction) :
    block.active (environment env target.catalog registry) = true ↔ target.Supports block.features := by
  rw [Expander.ConditionalBlockAction.active]
  refine (target.catalog.supports_iff _).trans ?_
  rw [List.forall_mem_cons, and_iff_right target.catalog.base]
  exact Iff.rfl

/-- The features of a block alone decide, whatever the registry is. -/
theorem expandBlock_eq (env : Expander.Environment) (registry : Registry) (block : Canonicalizer.Action) (features : List String)
    (code : List Expander.Action) (ctx : Expander.LoweringContext) [Decidable (target.Supports features)] :
    expandBlock (environment env target.catalog registry) block features code ctx =
      .ok (.replace (if target.Supports features then code else []), ctx) := by
  have hactive := @active_iff target env registry ⟨block.stepId, features, requestedMem block, false⟩
  rw [expandBlock, Expander.Action.expand, if_neg nofun, Expander.ConditionalBlockAction.holds_eq]
  show Except.ok _ = Except.ok _
  by_cases hsupports : target.Supports features
  · rw [if_pos hsupports, hactive.mpr hsupports, if_pos rfl]
  · rw [if_neg hsupports, Bool.eq_false_iff.mpr fun h => hsupports (hactive.mp h), if_neg nofun]

section Run
variable {tests : List (List Canonicalizer.Action)} {tracker tracker' : IdTracker} {result : CanonicalTests}

/-- The page of a request is registered under its new id. -/
theorem get?_registryOf (hrun : canonicalize tests ⟨[], fun _ => [], []⟩ tracker = .ok (result, tracker'))
    (htest : test ∈ tests.zip result.tests) {id : String} {request : RequestPmpAction} {permissions : PmpAttributes}
    (hrequests : Requests target test block.1 id request permissions) :
    get? (registryOf target.objects result).data id = some (request.memoryAction.page id) := by
  have hids := Canonicalizer.nodup_of_canonicalize hrun
  obtain ⟨_, hcanonical⟩ := @Canonicalizer.canonicalize_ok tests ⟨[], fun _ => [], []⟩ tracker hids
  obtain rfl : result = Canonicalizer.canonicalTests tests tracker :=
    (Prod.mk.inj (Except.ok.inj (hrun.symm.trans hcanonical))).1
  obtain ⟨pair, hpair, ⟨stepId, attrs, hclass⟩, -, rfl⟩ := hrequests.named
  have hobject : pair.2 ∈ test.2.objects := (List.of_mem_zip hpair).2
  have hmemory : pair.2.isMemory = true ∧ pair.2.isCodePage = false := by
    obtain ⟨_, -, rfl⟩ := Canonicalizer.mem_zip_canonicalTests htest
    rw [(Canonicalizer.mem_zip_objects.mp hpair).2, Canonicalizer.Action.isMemory_renameIds,
      Canonicalizer.Action.isCodePage_renameIds, hclass]
    exact ⟨rfl, rfl⟩
  have hfilter := Canonicalizer.registered_canonicalTests hids test.2 (List.of_mem_zip htest).2 pair.2 hobject hmemory.1
  rw [hmemory.2, if_neg nofun] at hfilter
  have hmem : Allocation.data pair.2.stepId ∈ (Canonicalizer.canonicalTests tests tracker).allocations :=
    (List.mem_filter.mp (hfilter ▸ List.mem_singleton_self _)).1
  have hget := @get?_allocate target.objects _ {} pair.2.stepId (.inr hmem)
  rw [hrequests.object] at hget
  exact hget

/-- A block follows the memory map exactly when a feature is missing, or a region holds all places of its page anyway, or it has
no code to drop: neither the expansion of the block nor the page of the request reads the map. -/
theorem followsMap_iff (hrun : canonicalize tests ⟨[], fun _ => [], []⟩ tracker = .ok (result, tracker'))
    (htest : test ∈ tests.zip result.tests) (block : Canonicalizer.Action × Canonicalizer.Action) (features : List String)
    (code : List Expander.Action) (env : Expander.Environment) (ctx : Expander.LoweringContext) :
    FollowsMap target result test block features code env ctx ↔ Follows target test block.1 features code := by
  classical
  have hexpand := @expandBlock_eq target env (registryOf target.objects result) block.2 features code ctx
  constructor
  · intro h
    by_cases hsupports : target.Supports features
    · by_cases hcondition : target.Condition test block.1 features
      · refine .inside fun id request permissions hrequests => ?_
        obtain ⟨region, hyields, page, hpage, hinside⟩ := h.inside hcondition id request permissions hrequests
        obtain rfl := Option.some.inj ((get?_registryOf hrun htest hrequests).symm.trans hpage)
        exact ⟨region, hyields, hinside⟩
      · have hdropped := hexpand.symm.trans (h.absent hcondition)
        rw [if_pos hsupports] at hdropped
        have hcode : code = [] := Expansion.Outcome.replace.inj (Prod.mk.inj (Except.ok.inj hdropped)).1
        refine .empty (by_contra fun hall => hcondition ⟨hsupports, fun id request permissions hrequests => ?_⟩) hcode
        exact by_contra fun hnone => hall ⟨id, request, permissions, hrequests, not_exists.mp hnone⟩
    · exact .unsupported hsupports
  · intro h
    refine ⟨fun hcondition => hexpand.trans (by rw [if_pos hcondition.1]), fun hcondition => hexpand.trans ?_, ?_⟩
    · rcases h with hsupports | hinside | ⟨-, rfl⟩
      · rw [if_neg hsupports]
      · have hyields : ∀ id request permissions, Requests target test block.1 id request permissions →
            ∃ region, Yields target.memoryMap permissions request.size region :=
          fun id request permissions hrequests => (hinside id request permissions hrequests).imp fun _ => And.left
        rw [if_neg fun hsupports => hcondition ⟨hsupports, hyields⟩]
      · rw [ite_self]
    · intro hcondition id request permissions hrequests
      rcases h with hsupports | hinside | ⟨⟨id', request', permissions', hrequests', hnone⟩, -⟩
      · exact absurd hcondition.1 hsupports
      · obtain ⟨region, hyields, hinside⟩ := hinside id request permissions hrequests
        exact ⟨region, hyields, _, get?_registryOf hrun htest hrequests, hinside⟩
      · obtain ⟨region, hyields⟩ := hcondition.2 id' request' permissions' hrequests'
        exact absurd hyields (hnone region)

end Run

/-! ### A request that the map cannot serve -/

/-- A machine with the base extension. -/
def baseCatalog : Catalog where
  isa := ["I"]
  supportsExtensions := fun features => features.all fun feature => feature = "I"
  supports_iff := fun features => by simp
  base := List.mem_singleton_self _

/-- A page that may only be read, in a map whose only DRAM range has all permissions. -/
def readOnlyRequest : Target where
  memoryMap := {}
  catalog := baseCatalog
  objects := fun _ => .request
    { pmpAttributes := ⟨true, false, false⟩
      size := 0x1000
      pageSize := .single PageEmit.size4K
      flags := { flags := some [.valid, .read] } }

def requestStep : Canonicalizer.Action := .plain .requestPmp "m0" []

def blockStep : Canonicalizer.Action :=
  .block .conditionalBlock "b0" [("requested_mem", .str "m0")] [.plain .li "t0" [("value", .int 7)]]

/-- A request and a block that depends on it. -/
def conditionalTest : List Canonicalizer.Action := [requestStep, blockStep]

theorem not_yields_readOnly (region : DramRange) : ¬Yields readOnlyRequest.memoryMap .r 0x1000 region := by
  rintro (⟨hmem, hpermissions⟩ | ⟨-, range, hmem, dram0, newDram, hsplit, -⟩)
  · obtain rfl := List.mem_singleton.mp hmem
    exact absurd hpermissions (by decide)
  · obtain rfl := List.mem_singleton.mp hmem
    cases hsplit

def machineEnvironment : Expander.Environment :=
  ⟨.machine, false, 64, fun _ => true, fun _ => true, fun _ _ rng => (⟨"mscratch", Expander.mscratch_length⟩, rng)⟩

def oneTest : IdTracker := ⟨0, 0, 0, fun _ => 0⟩

theorem followsMap_iff_conditionalTest : ∃ result tracker',
    canonicalize [conditionalTest] ⟨[], fun _ => [], []⟩ oneTest = .ok (result, tracker') ∧
      ∀ test ∈ [conditionalTest].zip result.tests, ∀ block code env ctx,
        FollowsMap readOnlyRequest result test block [] code env ctx ↔ Follows readOnlyRequest test block.1 [] code := by
  have hids : ∀ test ∈ [conditionalTest], ((actionGenerator test).map Canonicalizer.Action.stepId).Nodup := by decide +kernel
  obtain ⟨tracker', hrun⟩ := @Canonicalizer.canonicalize_ok _ ⟨[], fun _ => [], []⟩ oneTest hids
  exact ⟨_, tracker', hrun, fun test htest block code env ctx => followsMap_iff hrun htest block [] code env ctx⟩

/-- The code of the block stays although no region has the permissions. -/
theorem not_followsMap_readOnly : ¬ ∀ (target : Target) (tests : List (List Canonicalizer.Action)) (tracker tracker' : IdTracker)
    (result : CanonicalTests), canonicalize tests ⟨[], fun _ => [], []⟩ tracker = .ok (result, tracker') →
    ∀ test ∈ tests.zip result.tests, ∀ block ∈ TestPair.actions test,
      (∃ stepId attrs code, block.1 = .block .conditionalBlock stepId attrs code) →
        ∀ features code env ctx, FollowsMap target result test block features code env ctx := by
  intro hclaim
  have hids : ∀ test ∈ [conditionalTest], ((actionGenerator test).map Canonicalizer.Action.stepId).Nodup := by decide +kernel
  obtain ⟨tracker', hrun⟩ := @Canonicalizer.canonicalize_ok _ ⟨[], fun _ => [], []⟩ oneTest hids
  let canonical := Canonicalizer.canonicalOf oneTest conditionalTest
  let rename := Canonicalizer.Action.renameIds (Canonicalizer.idMapOf oneTest (actionGenerator conditionalTest))
  have hrequest : (requestStep, rename requestStep) ∈ TestPair.actions (conditionalTest, canonical) :=
    Canonicalizer.mem_zip_objects.mpr ⟨List.mem_cons_self, rfl⟩
  have hblock : (blockStep, rename blockStep) ∈ TestPair.actions (conditionalTest, canonical) :=
    Canonicalizer.mem_zip_objects.mpr ⟨List.mem_cons_of_mem _ (List.mem_cons_of_mem _ List.mem_cons_self), rfl⟩
  have hfollows := hclaim readOnlyRequest _ _ _ _ hrun (conditionalTest, canonical) (List.mem_singleton_self _)
    (blockStep, rename blockStep) hblock ⟨_, _, _, rfl⟩ [] [.leaf (.li "t0" (.int 7))]
    machineEnvironment ⟨oneTest, [], ⟨[]⟩⟩
  have hrequests : Requests readOnlyRequest (conditionalTest, canonical) blockStep (rename requestStep).stepId _ .r :=
    ⟨⟨(requestStep, rename requestStep), hrequest, ⟨_, _, rfl⟩, rfl, rfl⟩, rfl, rfl⟩
  have hcondition : ¬readOnlyRequest.Condition (conditionalTest, canonical) blockStep [] := fun hcondition =>
    have ⟨region, hyields⟩ := hcondition.2 _ _ _ hrequests
    not_yields_readOnly region hyields
  classical
  have hdropped := expandBlock_eq .. |>.symm.trans (hfollows.absent hcondition)
  rw [if_pos nofun] at hdropped
  cases hdropped

end Riescue.ConditionalPmp
