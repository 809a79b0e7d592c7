import Riescue.PmaEffect

/-! The pre-allocation gives every request a region of the attributes that it asks for, so a run in which every
request keeps everything makes all requested attributes take effect. -/

namespace Riescue.Pma
open PmaInfo Fallible OrderedDict

namespace PmaHeap

structure Sound (heap : PmaHeap) : Prop where
  positive : heap.Positive
  bounded : ∀ entry ∈ heap.entries, entry < heap.fresh

/-- The heap may have new objects, and the old ones have their attributes. -/
structure Extends (heap heap' : PmaHeap) : Prop where
  fresh : heap.fresh ≤ heap'.fresh
  keys : ∀ id < heap.fresh, (heap'.objects id).attrKey = (heap.objects id).attrKey
  sound : heap.Sound → heap'.Sound

theorem Extends.refl (heap : PmaHeap) : Extends heap heap := ⟨le_rfl, fun _ _ => rfl, id⟩

theorem Extends.trans {a b c : PmaHeap} (hab : Extends a b) (hbc : Extends b c) : Extends a c :=
  ⟨hab.fresh.trans hbc.fresh,
    fun id hid => (hbc.keys id (hid.trans_le hab.fresh)).trans (hab.keys id hid), fun ha => hbc.sound (hab.sound ha)⟩

theorem Lookups.extends {heap heap' : PmaHeap} (h : heap.Lookups heap') : Extends heap heap' := by
  obtain ⟨hfresh, hentries, hgrown, hkeep⟩ := h.keep
  refine ⟨hfresh.ge, fun id _ => (hgrown id).attributes, fun hsound => ⟨(hkeep hsound.positive).1, fun entry hentry => ?_⟩⟩
  rw [hfresh]
  exact hsound.bounded entry ((hentries entry).mp hentry)

theorem alloc_extends (heap : PmaHeap) (info : PmaInfo) : Extends heap (heap.alloc info).2 := by
  have hold : ∀ id < heap.fresh, (heap.alloc info).2.objects id = heap.objects id :=
    fun id hid => Function.update_of_ne hid.ne _ _
  refine ⟨Nat.le_succ _, fun id hid => by rw [hold id hid], fun hsound => ⟨fun entry hentry => ?_, fun entry hentry => ?_⟩⟩
  · rw [hold entry (hsound.bounded entry hentry)]
    exact hsound.positive entry hentry
  · exact (hsound.bounded entry hentry).trans (Nat.lt_succ_self _)

theorem alloc_self (heap : PmaHeap) (info : PmaInfo) : (heap.alloc info).2.objects (heap.alloc info).1 = info :=
  Function.update_self ..

/-- Only an object that is not an entry can be without a size. -/
theorem setSize_extends {heap : PmaHeap} {region : ℕ} {size : ℤ} (hsize : (heap.objects region).pmaSize = 0) :
    Extends heap (heap.setSize region size) := by
  have hkey : ∀ id, ((heap.setSize region size).objects id).attrKey = (heap.objects id).attrKey := by
    intro id
    by_cases hid : id = region
    · subst hid
      rw [show (heap.setSize id size).objects id = (heap.objects id).resize size from Function.update_self ..,
        attrKey_resize]
    · exact congrArg attrKey (Function.update_of_ne hid ..)
  refine ⟨le_rfl, fun id _ => hkey id, fun hsound => ⟨fun entry hentry => ?_, hsound.bounded⟩⟩
  have hpositive := hsound.positive entry hentry
  have hne : entry ≠ region := by
    rintro rfl
    omega
  rw [show (heap.setSize region size).objects entry = heap.objects entry from Function.update_of_ne hne ..]
  exact hpositive

end PmaHeap

namespace PmaPool

theorem ensurePmaInfo_spec {heap heap' : PmaHeap} {parsed : ParsedRandomAddress} {info : ℕ}
    (hbounded : ∀ id, parsed.pmaInfo = some id → id < heap.fresh) (h : ensurePmaInfo heap parsed = (info, heap')) :
    heap.Extends heap' ∧ info < heap'.fresh ∧
      (heap'.objects info).attrKey = (parsed.pmaInfo.elim {} heap.objects).attrKey := by
  -- the object before its size is looked at
  obtain ⟨middle, hextends, hinfo, hkey, hfinal⟩ : ∃ middle, heap.Extends middle ∧ info < middle.fresh ∧
      (middle.objects info).attrKey = (parsed.pmaInfo.elim {} heap.objects).attrKey ∧
      heap' = if (middle.objects info).pmaSize = 0 then middle.setSize info parsed.size else middle := by
    unfold ensurePmaInfo at h
    cases hparsed : parsed.pmaInfo with
    | none =>
        rw [hparsed] at h
        obtain ⟨rfl, rfl⟩ := Prod.mk.inj h
        exact ⟨(heap.alloc {}).2, PmaHeap.alloc_extends heap {}, Nat.lt_succ_self _,
          congrArg attrKey (PmaHeap.alloc_self heap {}), rfl⟩
    | some id =>
        rw [hparsed] at h
        obtain ⟨rfl, rfl⟩ := Prod.mk.inj h
        exact ⟨heap, .refl heap, hbounded id hparsed, rfl, rfl⟩
  by_cases hsize : (middle.objects info).pmaSize = 0
  · rw [if_pos hsize] at hfinal
    subst hfinal
    have hsized : middle.Extends (middle.setSize info parsed.size) := PmaHeap.setSize_extends hsize
    exact ⟨hextends.trans hsized, hinfo, (hsized.keys info hinfo).trans hkey⟩
  · rw [if_neg hsize] at hfinal
    subst hfinal
    exact ⟨hextends, hinfo, hkey⟩

theorem findMatchingPmaRegion_spec {heap heap' : PmaHeap} {pmaInfo : PmaInfo} {matching : Option ℕ}
    (h : findMatchingPmaRegion heap pmaInfo = (.ok matching, heap')) :
    heap.Lookups heap' ∧ ∀ region, matching = some region →
      region ∈ heap.entries ∧ (heap'.objects region).attrKey = pmaInfo.attrKey := by
  unfold findMatchingPmaRegion at h
  obtain ⟨result, heap'', hresult⟩ : ∃ result heap'', heap.consolidatedEntries = (result, heap'') := ⟨_, _, rfl⟩
  rw [hresult] at h
  obtain rfl : heap'' = heap' := congrArg Prod.snd h
  obtain ⟨kept, rfl, rfl⟩ := map_ok (congrArg Prod.fst h)
  have hconsolidated := PmaHeap.consolidatedEntries_ok hresult
  refine ⟨.single ⟨kept, hconsolidated⟩, fun region hregion => ?_⟩
  have hfound := List.find?_some hregion
  simp only [decide_eq_true_eq] at hfound
  exact ⟨hconsolidated.kept region (List.mem_of_find?_eq_some hregion), hfound.1⟩

theorem sharedRegion_spec {byAttrs : List (AttrKey × ℕ)} {heap : PmaHeap} {info : PmaInfo} {region : ℕ}
    (h : sharedRegion byAttrs heap info = some region) : get? byAttrs info.attrKey = some region := by
  unfold sharedRegion at h
  split at h
  · cases h
  · rename_i existing hexisting
    split_ifs at h
    exact hexisting.trans h

/-- What holds before every turn of the loop. -/
structure Prepared (start : PmaPool) (state : PreAllocation) : Prop where
  held : Held start state.pool
  unrecorded : state.pool.randomAddrs = []
  sound : state.pool.heap.Sound
  extends_start : start.heap.Extends state.pool.heap
  shared : ∀ key region, get? state.byAttrs key = some region →
    region < state.pool.heap.fresh ∧ (state.pool.heap.objects region).attrKey = key
  bounded : ∀ name request region, get? state.pool.parsedRandomAddrs name = some request →
    request.pmaInfo = some region → region < state.pool.heap.fresh

/-- The parsed pool: nothing is generated yet, and every request has objects of its own. -/
structure Parsed (start : PmaPool) : Prop where
  sound : start.heap.Sound
  nodup : (start.parsedRandomAddrs.map Prod.fst).Nodup
  named : ∀ name request, get? start.parsedRandomAddrs name = some request → request.name = name
  bounded : ∀ name request region, get? start.parsedRandomAddrs name = some request →
    request.pmaInfo = some region → region < start.heap.fresh
  unrecorded : start.randomAddrs = []
  unassigned : start.preAllocatedPmaRegions = []

theorem Parsed.held {start : PmaPool} (hstart : Parsed start) {heap : PmaHeap} (hheap : start.heap.Extends heap) :
    Held start { start with heap := heap } := by
  refine ⟨(hheap.sound hstart.sound).positive, hstart.named, fun name request hparsed => ?_, ?_, ?_⟩
  · refine ⟨request.pmaInfo, hparsed, fun _ region hregion => ?_⟩
    rw [hheap.keys region (hstart.bounded name request region hparsed hregion), asked, hregion]
    rfl
  · intro name region hassigned
    rw [show ({ start with heap := heap } : PmaPool).preAllocatedPmaRegions = [] from hstart.unassigned] at hassigned
    cases hassigned
  · intro name request a _ _ hrecorded
    rw [show ({ start with heap := heap } : PmaPool).randomAddrs = [] from hstart.unrecorded] at hrecorded
    cases hrecorded

/-- The request is given the region. -/
def assign (pool : PmaPool) (heap : PmaHeap) (name : String) (parsed : ParsedRandomAddress) (region : ℕ) : PmaPool :=
  { pool with
    heap := heap
    parsedRandomAddrs := insert pool.parsedRandomAddrs name { parsed with pmaInfo := some region }
    preAllocatedPmaRegions := insert pool.preAllocatedPmaRegions name region }

/-- A request gets a region of its attributes. -/
theorem Prepared.assign {start : PmaPool} {state : PreAllocation} (hstart : Parsed start)
    (hprepared : Prepared start state) {name : String} {parsed : ParsedRandomAddress}
    (hparsed : get? start.parsedRandomAddrs name = some parsed) (hinPma : parsed.inPma = true) {heap : PmaHeap}
    (hheap : state.pool.heap.Extends heap) {region : ℕ} (hregion : region < heap.fresh)
    (hkey : (heap.objects region).attrKey = start.asked parsed) {byAttrs : List (AttrKey × ℕ)}
    (hshared : ∀ key region, get? byAttrs key = some region →
      region < heap.fresh ∧ (heap.objects region).attrKey = key) (availableSlots : ℤ) :
    Prepared start ⟨state.pool.assign heap name parsed region, byAttrs, availableSlots⟩ := by
  have hsound := hheap.sound hprepared.sound
  have hsame : ∀ other request id, get? state.pool.parsedRandomAddrs other = some request →
      request.pmaInfo = some id → (heap.objects id).attrKey = (state.pool.heap.objects id).attrKey :=
    fun other request id hother hid => hheap.keys id (hprepared.bounded other request id hother hid)
  refine ⟨⟨hsound.positive, ?_, ?_, ?_, ?_⟩, hprepared.unrecorded, hsound, hprepared.extends_start.trans hheap,
    hshared, ?_⟩
  · intro other request hother
    by_cases hname : other = name
    · subst hname
      rw [PmaPool.assign, get?_insert_self] at hother
      rw [← Option.some.inj hother]
      exact hstart.named other parsed hparsed
    · rw [PmaPool.assign, get?_insert_ne _ _ hname] at hother
      exact hprepared.held.named other request hother
  · intro other request hother
    by_cases hname : other = name
    · subst hname
      obtain rfl : parsed = request := Option.some.inj (hparsed.symm.trans hother)
      refine ⟨some region, get?_insert_self .., fun _ id hid => ?_⟩
      rw [← Option.some.inj hid]
      exact hkey
    · obtain ⟨info, hcurrent, hasks⟩ := hprepared.held.asks other request hother
      refine ⟨info, (get?_insert_ne _ _ hname).trans hcurrent, fun hother' id hid => ?_⟩
      exact (hsame other _ id hcurrent hid).trans (hasks hother' id hid)
  · intro other id hother
    by_cases hname : other = name
    · subst hname
      rw [PmaPool.assign, get?_insert_self] at hother
      exact ⟨{ parsed with pmaInfo := some region }, get?_insert_self .., hinPma, hother⟩
    · rw [PmaPool.assign, get?_insert_ne _ _ hname] at hother
      obtain ⟨request, hcurrent, hrequest⟩ := hprepared.held.assigned other id hother
      exact ⟨request, (get?_insert_ne _ _ hname).trans hcurrent, hrequest⟩
  · intro other request a _ _ hrecorded
    rw [PmaPool.assign, hprepared.unrecorded] at hrecorded
    cases hrecorded
  · intro other request id hother hid
    by_cases hname : other = name
    · subst hname
      rw [PmaPool.assign, get?_insert_self] at hother
      rw [← Option.some.inj hother] at hid
      rwa [← Option.some.inj hid]
    · rw [PmaPool.assign, get?_insert_ne _ _ hname] at hother
      exact (hprepared.bounded other request id hother hid).trans_le hheap.fresh

theorem preAllocateOne_prepared {start : PmaPool} {state state' : PreAllocation} (hstart : Parsed start)
    (hprepared : Prepared start state) {name : String} {parsed : ParsedRandomAddress}
    (hparsed : get? start.parsedRandomAddrs name = some parsed) (hinPma : parsed.inPma = true)
    (h : preAllocateOne state name parsed = .ok state') : Prepared start state' := by
  unfold preAllocateOne at h
  split_ifs at h with hslots
  · obtain rfl := Except.ok.inj h
    exact hprepared
  · obtain ⟨info, ensured, hensured⟩ : ∃ info ensured, ensurePmaInfo state.pool.heap parsed = (info, ensured) :=
      ⟨_, _, rfl⟩
    obtain ⟨found, looked, hlooked⟩ : ∃ found looked,
      findMatchingPmaRegion ensured (ensured.objects info) = (found, looked) := ⟨_, _, rfl⟩
    simp only [hensured, hlooked] at h
    cases found with
    | error fault => cases h
    | ok matching =>
        obtain ⟨hextends, hinfo, hkey⟩ := ensurePmaInfo_spec
          (fun id hid => (hstart.bounded name parsed id hparsed hid).trans_le hprepared.extends_start.fresh) hensured
        obtain ⟨hlookups, hmatching⟩ := findMatchingPmaRegion_spec hlooked
        have hall := hextends.trans hlookups.extends
        have hasked : (ensured.objects info).attrKey = start.asked parsed := by
          rw [hkey, asked]
          cases hpmaInfo : parsed.pmaInfo with
          | none => rfl
          | some id => exact hprepared.extends_start.keys id (hstart.bounded name parsed id hparsed hpmaInfo)
        have hlookedKey := (hlookups.extends.keys info hinfo).trans hasked
        have hshared : ∀ key region, get? state.byAttrs key = some region →
            region < looked.fresh ∧ (looked.objects region).attrKey = key := by
          intro key region hregion
          obtain ⟨hlt, hregionKey⟩ := hprepared.shared key region hregion
          exact ⟨hlt.trans_le hall.fresh, (hall.keys region hlt).trans hregionKey⟩
        dsimp only at h
        cases hfound : matching.orElse fun _ => sharedRegion state.byAttrs looked (looked.objects info) with
        | some region =>
            rw [hfound] at h
            obtain rfl := Except.ok.inj h
            have hregion : region < looked.fresh ∧ (looked.objects region).attrKey = start.asked parsed := by
              cases matching with
              | some first =>
                  obtain rfl := Option.some.inj hfound
                  obtain ⟨hentry, hfirstKey⟩ := hmatching first rfl
                  have hbounded := (hextends.sound hprepared.sound).bounded first hentry
                  exact ⟨hbounded.trans_le hlookups.extends.fresh, hfirstKey.trans hasked⟩
              | none =>
                  obtain ⟨hlt, hregionKey⟩ := hshared _ region (sharedRegion_spec hfound)
                  exact ⟨hlt, hregionKey.trans hlookedKey⟩
            exact hprepared.assign hstart hparsed hinPma hall hregion.1 hregion.2 hshared _
        | none =>
            rw [hfound] at h
            obtain rfl := Except.ok.inj h
            have halloc := PmaHeap.alloc_extends looked
              { looked.objects info with pmaName := "pma_" ++ name, pmaAddress := 0 }
            have hnew : ∀ other : PmaInfo, ((looked.alloc other).2.objects (looked.alloc other).1).attrKey = other.attrKey :=
              fun other => congrArg attrKey (PmaHeap.alloc_self looked other)
            refine hprepared.assign hstart hparsed hinPma (hall.trans halloc) (Nat.lt_succ_self _)
              ((hnew _).trans hlookedKey) (fun key region hregion => ?_) _
            rw [hnew] at hregion
            by_cases hkey' : key = (looked.objects info).attrKey
            · subst hkey'
              obtain rfl := Option.some.inj ((get?_insert_self ..).symm.trans hregion)
              exact ⟨Nat.lt_succ_self _, hnew _⟩
            · obtain ⟨hlt, hregionKey⟩ := hshared key region ((get?_insert_ne _ _ hkey').symm.trans hregion)
              exact ⟨hlt.trans_le halloc.fresh, (halloc.keys region hlt).trans hregionKey⟩

theorem preAllocate_held {start pool : PmaPool} {maxRegions : ℕ} (hstart : Parsed start)
    (h : start.preAllocate maxRegions = .ok pool) : Held start pool := by
  unfold preAllocate at h
  obtain ⟨result, heap, hresult⟩ : ∃ result heap, start.heap.consolidatedEntries = (result, heap) := ⟨_, _, rfl⟩
  rw [hresult] at h
  cases result with
  | error fault => cases h
  | ok kept =>
      have hheap : start.heap.Extends heap :=
        PmaHeap.Lookups.extends (.single ⟨kept, PmaHeap.consolidatedEntries_ok hresult⟩)
      obtain ⟨state, hloop, rfl⟩ := map_ok h
      have hfirst : Prepared start ⟨{ start with heap := heap }, [], (maxRegions : ℤ) - kept.length⟩ :=
        ⟨hstart.held hheap, hstart.unrecorded, hheap.sound hstart.sound, hheap,
          fun key region hregion => (nomatch hregion), fun name request region hparsed hregion =>
            (hstart.bounded name request region hparsed hregion).trans_le hheap.fresh⟩
      have hentries : ∀ entry ∈ start.parsedRandomAddrs.filter fun entry => entry.2.inPma,
          get? start.parsedRandomAddrs entry.1 = some entry.2 ∧ entry.2.inPma = true := by
        intro entry hentry
        obtain ⟨hmem, hinPma⟩ := List.mem_filter.mp hentry
        exact ⟨get?_of_mem hstart.nodup hmem, hinPma⟩
      generalize start.parsedRandomAddrs.filter (fun entry => entry.2.inPma) = entries at hloop hentries
      suffices hprepared : ∀ first, Prepared start first →
          entries.foldlM (fun state entry => preAllocateOne state entry.1 entry.2) first = .ok state →
          Prepared start state from (hprepared _ hfirst hloop).held
      clear hloop hfirst
      induction entries with
      | nil =>
          intro first hfirst hloop
          obtain rfl := Except.ok.inj hloop
          exact hfirst
      | cons entry rest ih =>
          intro first hfirst hloop
          obtain ⟨hentry, hrest⟩ := List.forall_mem_cons.mp hentries
          rw [List.foldlM_cons] at hloop
          obtain ⟨middle, hone, hloop⟩ := bind_ok hloop
          exact ih hrest middle (preAllocateOne_prepared hstart hfirst hentry.1 hentry.2 hone) hloop

/-! ### The parsed pool -/

theorem initialPool_parsed {regions : List PmaInfo} (hpositive : ∀ info ∈ regions, 0 < info.pmaSize) :
    Parsed (initialPool regions) := by
  refine ⟨⟨fun entry hentry => ?_, fun entry hentry => List.mem_range.mp hentry⟩, List.nodup_nil,
    fun name request hparsed => (nomatch hparsed), fun name request region hparsed => (nomatch hparsed), rfl, rfl⟩
  have hlt : entry < regions.length := List.mem_range.mp hentry
  change 0 < (regions.getD entry {}).pmaSize
  rw [List.getD_eq_getElem _ _ hlt]
  exact hpositive _ (List.getElem_mem hlt)

theorem Parsed.insert {pool : PmaPool} (hpool : Parsed pool) {heap : PmaHeap} (hheap : pool.heap.Extends heap)
    {name : String} {parsed : ParsedRandomAddress} (hname : parsed.name = name)
    (hbounded : ∀ region, parsed.pmaInfo = some region → region < heap.fresh) :
    Parsed { pool with heap := heap, parsedRandomAddrs := OrderedDict.insert pool.parsedRandomAddrs name parsed } := by
  refine ⟨hheap.sound hpool.sound, nodup_keys_insert hpool.nodup _ _, fun other request hother => ?_,
    fun other request region hother hregion => ?_, hpool.unrecorded, hpool.unassigned⟩
  · by_cases hsame : other = name
    · subst hsame
      rw [get?_insert_self] at hother
      rw [← Option.some.inj hother, hname]
    · rw [get?_insert_ne _ _ hsame] at hother
      exact hpool.named other request hother
  · by_cases hsame : other = name
    · subst hsame
      rw [get?_insert_self] at hother
      obtain rfl := Option.some.inj hother
      exact hbounded region hregion
    · rw [get?_insert_ne _ _ hsame] at hother
      exact (hpool.bounded other request region hother hregion).trans_le hheap.fresh

theorem addParsedAddr_parsed {pool : PmaPool} (hpool : Parsed pool) (request : PmaRequest) :
    Parsed (pool.addParsedAddr request) := by
  unfold addParsedAddr
  cases request.pmaInfo with
  | none => exact hpool.insert (.refl _) rfl fun region hregion => nomatch hregion
  | some info =>
      refine hpool.insert (PmaHeap.alloc_extends pool.heap info) rfl fun region hregion => ?_
      obtain rfl := Option.some.inj hregion
      exact Nat.lt_succ_self _

theorem parsedPool_parsed {regions : List PmaInfo} (hpositive : ∀ info ∈ regions, 0 < info.pmaSize)
    (requests : List PmaRequest) : Parsed (parsedPool regions requests) := by
  unfold parsedPool
  have hinitial := initialPool_parsed hpositive
  generalize initialPool regions = pool at hinitial
  induction requests generalizing pool with
  | nil => exact hinitial
  | cons request rest ih => exact ih _ (addParsedAddr_parsed hinitial request)

/-- In every run in which each request keeps everything in effect, the requested attributes take effect. -/
theorem requestedAttributes_takeEffect {regions : List PmaInfo} (hpositive : ∀ info ∈ regions, 0 < info.pmaSize)
    {requests : List PmaRequest} {maxRegions : ℕ} {pool pool' : PmaPool}
    (hpreAllocate : (parsedPool regions requests).preAllocate maxRegions = .ok pool) (hrun : Run Keeps pool pool') :
    TakesEffect (parsedPool regions requests) pool' :=
  ((preAllocate_held (parsedPool_parsed hpositive requests) hpreAllocate).run hrun).takesEffect

/-- What a lookup after the requests says about a byte. -/
def attributesAt (pool : PmaPool) (b : ℤ) : Option AttrKey :=
  match pool.heap.findRegionForAddress b with
  | (.ok (some found), heap) => some (heap.objects found).attrKey
  | _ => none

/-- The request is to get a region of its own at the address, and neither an entry nor the region of an earlier request
is there. -/
def joinsApart (pool : PmaPool) (name : String) (outcome : Outcome) (request : ParsedRandomAddress) (region : ℕ)
    (address : ℤ) : Bool :=
  let heap := pool.heap.settled.settled
  let size := regionSize (heap.objects region) request
  decide (get? pool.parsedRandomAddrs name = some request ∧ request.pmaInfo = some region ∧
    (pool.generatePhysical request outcome).toOption.map Prod.fst = some address ∧ outcome.markedSecure = false ∧
    (pool.heap.objects region).pmaAddress = 0 ∧ address ≠ 0 ∧ region ∉ pool.heap.entries ∧
    (pool.heap.settled.findRegionForAddress address).1.toOption = some none ∧
    (0 < size ∧ (request.size : ℤ) ≤ size) ∧
    (∀ entry ∈ heap.entries, (heap.objects entry).containsAddress address = false) ∧
    ∀ record ∈ pool.randomAddrs, ∀ parsed ∈ pool.parsedRandomAddrs, parsed.1 = record.1 →
      ∀ other ∈ parsed.2.pmaInfo, other ≠ region ∧
        ¬(address ≤ (heap.objects other).pmaAddress ∧ (heap.objects other).pmaAddress < address + size))

theorem keeps_of_joinsApart {pool : PmaPool} {name : String} {outcome : Outcome} {request : ParsedRandomAddress}
    {region : ℕ} {address : ℤ} (h : pool.joinsApart name outcome request region address = true) :
    pool.Keeps name outcome := by
  obtain ⟨hparsed, hinfo, hgenerated, hmark, hunset, hplaced, hunlisted, hnone, hroom, hclear, hearlier⟩ :=
    of_decide_eq_true h
  have hmarked : markSecure outcome address = address := by rw [markSecure, hmark, if_neg Bool.false_ne_true]
  have hrecorded : ∀ {other request' region' a'}, pool.Recorded other request' region' a' → region' ≠ region ∧ _ :=
    fun hother => hearlier _ (mem_of_get? hother.recorded) _ (mem_of_get? hother.parsed) rfl _ hother.info
  intro request' region' address' heap hparsed' _ hinfo' hgenerated'
  obtain rfl : request = request' := Option.some.inj (hparsed.symm.trans hparsed')
  obtain rfl : region = region' := Option.some.inj (hinfo.symm.trans hinfo')
  rw [hgenerated'] at hgenerated
  obtain rfl : address' = address := Option.some.inj hgenerated
  rw [if_pos hunset, hmarked]
  refine ⟨hplaced, hunlisted, ?_, hroom, fun entry hentry _ hcontains => ?_, fun other request' region' a' hother _ => ?_,
    fun other request' a' hother => absurd rfl (hrecorded hother).1⟩
  · rw [ite_self]
    rintro ⟨existing, heap', hexisting, _⟩
    rw [hexisting] at hnone
    cases hnone
  · rw [hclear entry hentry] at hcontains
    cases hcontains
  · exact (hrecorded hother).2

/-- Beside the cacheable region of the memory, a noncacheable request and one for an I/O region. -/
theorem requestedAttributes_takeEffect_two :
    let regions : List PmaInfo := [{ pmaAddress := 0x80000000, pmaSize := 0x40000000 }]
    let requests : List PmaRequest := [{ name := "a", pmaInfo := some { pmaCacheability := .noncacheable } },
      { name := "b", pmaInfo := some { pmaMemoryType := .io, pmaCacheability := .noncacheable } }]
    ∃ pool', get? pool'.randomAddrs "a" = some 0x100000000 ∧ get? pool'.randomAddrs "b" = some 0x100004000 ∧
      TakesEffect (parsedPool regions requests) pool' := by
  intro regions requests
  let first : Outcome := ⟨some 0x100000000, false, ⟨[]⟩⟩
  let second : Outcome := ⟨some 0x100004000, false, ⟨[]⟩⟩
  have hfacts : (((parsedPool regions requests).preAllocate 15).toOption.bind fun pool =>
      (pool.handleRandomAddr "a" first).toOption.bind fun middle =>
        (middle.handleRandomAddr "b" second).toOption.map fun pool' =>
          pool.joinsApart "a" first ⟨"a", 0x1000, 0xFFFFFFFFFFFFFFFF, true, some 3⟩ 3 0x100000000 &&
          middle.joinsApart "b" second ⟨"b", 0x1000, 0xFFFFFFFFFFFFFFFF, true, some 4⟩ 4 0x100004000 &&
          decide (get? pool'.randomAddrs "a" = some 0x100000000 ∧ get? pool'.randomAddrs "b" = some 0x100004000)) =
        some true := by
    decide +kernel
  obtain ⟨pool, hpool, hfacts⟩ := Option.bind_eq_some_iff.mp hfacts
  obtain ⟨middle, hfirst, hfacts⟩ := Option.bind_eq_some_iff.mp hfacts
  obtain ⟨pool', hsecond, hfacts⟩ := Option.map_eq_some_iff.mp hfacts
  rw [Bool.and_eq_true, Bool.and_eq_true, decide_eq_true_eq] at hfacts
  obtain ⟨⟨hkeepsFirst, hkeepsSecond⟩, hrecordedFirst, hrecordedSecond⟩ := hfacts
  have hrun : Run Keeps pool pool' :=
    .step (.step .start (keeps_of_joinsApart hkeepsFirst) (toOption_some hfirst)) (keeps_of_joinsApart hkeepsSecond)
      (toOption_some hsecond)
  exact ⟨pool', hrecordedFirst, hrecordedSecond,
    requestedAttributes_takeEffect (by decide) (toOption_some hpool) hrun⟩

/-- Two requests of the same attributes share a region of the size of one of them. -/
theorem requestedAttributes_rebased :
    ¬∀ (regions : List PmaInfo) (requests : List PmaRequest) (maxRegions : ℕ) (pool pool' : PmaPool),
      (∀ info ∈ regions, 0 < info.pmaSize) → (parsedPool regions requests).preAllocate maxRegions = .ok pool →
      Run (fun _ _ _ => True) pool pool' → TakesEffect (parsedPool regions requests) pool' := by
  intro h
  let regions : List PmaInfo := [{ pmaAddress := 0x80000000, pmaSize := 0x40000000 }]
  let noncacheable : PmaInfo := { pmaCacheability := .noncacheable }
  let requests : List PmaRequest :=
    [{ name := "a", pmaInfo := some noncacheable }, { name := "b", pmaInfo := some noncacheable }]
  let first : Outcome := ⟨some 0x100000000, false, ⟨[]⟩⟩
  let second : Outcome := ⟨some 0x100004000, false, ⟨[]⟩⟩
  have hruns : (((parsedPool regions requests).preAllocate 15).toOption.bind fun pool =>
      (pool.handleRandomAddr "a" first).toOption.bind fun middle =>
        (middle.handleRandomAddr "b" second).toOption.map fun pool' =>
          (get? pool'.randomAddrs "a", pool'.attributesAt 0x100000000)) = some (some 0x100000000, none) := by
    decide +kernel
  obtain ⟨pool, hpool, hruns⟩ := Option.bind_eq_some_iff.mp hruns
  obtain ⟨middle, hfirst, hruns⟩ := Option.bind_eq_some_iff.mp hruns
  obtain ⟨pool', hsecond, hruns⟩ := Option.map_eq_some_iff.mp hruns
  obtain ⟨hrecorded, hlookup⟩ := Prod.mk.inj hruns
  have hrun : Run (fun _ _ _ => True) pool pool' :=
    .step (.step .start trivial (toOption_some hfirst)) trivial (toOption_some hsecond)
  obtain ⟨found, heap', hfound, _⟩ := h regions requests 15 pool pool' (by decide) (toOption_some hpool) hrun "a"
    ⟨"a", 0x1000, 0xFFFFFFFFFFFFFFFF, true, some 1⟩ 0x100000000 (by decide) rfl hrecorded 0x100000000 le_rfl (by decide)
  rw [attributesAt, hfound] at hlookup
  cases hlookup

end PmaPool
end Riescue.Pma
