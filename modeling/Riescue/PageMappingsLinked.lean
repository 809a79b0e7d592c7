import Riescue.PageMappingsPick
import Riescue.AddrgenFacade
import Riescue.LibTraversal

/-! Linked page mappings: `handle_page_mappings` of `generator.py`. The pages of a test are created after their
addresses have been generated, and a mapping `name+offset` is placed at an offset from the page of `name`,
inside what was reserved for that page. The sizes of the linked pages are only drawn now. -/

namespace Riescue.PageMappings
open Paging Addrgen

/-- What is read of `featmgr` and of the page maps of the pool. -/
structure Setup extends FeatMgr where
  /-- `env == TEST_ENV_VIRTUALIZED` -/
  virtualized : Bool := false
  pagingGMode : RiscvPagingModes := .disable
  pageMaps : List String := ["map_os"]

/-- An entry of `linked_page_mappings`. -/
structure LinkedPageMapping where
  mapping : ParsedPageMapping
  pageMaps : List String := []
  linkedPpmOffset : ℕ

/-- An entry of the parsed page mappings under `lin_map_name[0]`. -/
structure NamedPageMapping where
  linMapName : String
  mapping : ParsedPageMapping
  pageMaps : List String := []
  resolvePriority : ℕ := 0
  hasLinkedPpms : Bool := false
  linkedPageMappings : List LinkedPageMapping := []

/-- The linked mappings that are handled. -/
def NamedPageMapping.linked (entry : NamedPageMapping) : List LinkedPageMapping :=
  if entry.hasLinkedPpms then entry.linkedPageMappings else []

/-- `Page`, without the attributes of its entries. -/
structure Page where
  name : String
  physName : String
  maps : List String
  linAddr : ℕ
  physAddr : ℕ
  size : ℕ
  pagesize : Option RiscvPageSizes

/-- What `handle_page_mappings` can raise, with the faults of `randomize_pagesize` as a parameter. -/
inductive HandleFault (ε : Type) where
  /-- `KeyError` of a name without an address -/
  | unknownAddr (name : String)
  /-- `KeyError` of a page map that the pool does not have -/
  | unknownPageMap (name : String)
  | reserve (fault : GenerateFault)
  | pagesize (fault : ε)
  | notReserved (message : String)

/-- The addresses of the pool and the address generator. -/
structure Store where
  randomAddrs : List (String × ℕ)
  addrgen : AddrGen

section Handling
variable {σ ε : Type}

/-- `page_maps`: everything goes in `map_os`, and in `map_hyp` when only the g-stage translates. -/
def pageMapNames (setup : Setup) (own : List String) : List String :=
  let hyp := setup.virtualized ∧ setup.pagingMode = .disable ∧ setup.pagingGMode ≠ .disable
  "map_os" :: (if hyp then ["map_hyp"] else []) ++ own

/-- `get_random_addr(name).address` -/
def getRandomAddr (addrs : List (String × ℕ)) (name : String) : Except (HandleFault ε) ℕ :=
  match OrderedDict.get? addrs name with
  | none => .error (.unknownAddr name)
  | some address => .ok address

/-- `get_page_map` of every name: the first for the constructor of `Page`, then all for `add_page`. -/
def getPageMaps (setup : Setup) (names : List String) : Except (HandleFault ε) Unit :=
  match names.find? (fun name => decide (name ∉ setup.pageMaps)) with
  | none => .ok ()
  | some name => .error (.unknownPageMap name)

/-- A reservation, whose exceptions end the call. -/
def reserved (out : Except GenerateFault Unit × AddrGen) : Except (HandleFault ε) AddrGen :=
  match out.1 with
  | .error fault => .error (.reserve fault)
  | .ok _ => .ok out.2

/-- With paging disabled the page is at its physical address, in both spaces. -/
def mapIdentically (setup : Setup) (page : Page) (store : Store) : Except (HandleFault ε) (Page × Store) :=
  if setup.pagingMode = .disable then
    reserved (store.addrgen.reserveMemory .physical page.physAddr page.size false) >>= fun addrgen =>
      reserved (addrgen.reserveMemory .linear page.physAddr page.size false) >>= fun addrgen =>
        .ok ({ page with linAddr := page.physAddr },
          { randomAddrs := OrderedDict.insert store.randomAddrs page.name page.physAddr, addrgen := addrgen })
  else .ok (page, store)

/-- The page of a mapping itself. -/
def placePage (setup : Setup) (entry : NamedPageMapping) (store : Store) :
    Except (HandleFault ε) (Page × Store) := do
  let pageMaps := pageMapNames setup entry.pageMaps
  getPageMaps setup (pageMaps.take 1)
  let linAddr ← getRandomAddr store.randomAddrs entry.linMapName
  let physAddr ← getRandomAddr store.randomAddrs entry.mapping.physName
  let page :=
    { name := entry.linMapName
      physName := entry.mapping.physName
      maps := pageMaps
      linAddr := linAddr
      physAddr := physAddr
      size := entry.mapping.addressSize
      pagesize := entry.mapping.finalPagesize }
  let out ← mapIdentically setup page store
  getPageMaps setup pageMaps
  pure out

/-- `x` in a format string -/
def hex (value : ℕ) : String := String.ofList (Nat.toDigits 16 value)

/-- The text of the error of a linked page. -/
def notReservedMessage (parent sized : ParsedPageMapping) (offset : ℕ) : String :=
  "Enough memory was not reserved for " ++ parent.linName ++ ". This is because " ++ sized.linName ++
    " is continuous page to " ++ parent.linName ++ ", which needs 0x" ++ hex offset ++ " memory on top of 0x" ++
    hex parent.addressSize ++ " specified int the " ++ parent.linName

/-- `p_linked`; `sized` is the linked mapping after its size has been drawn. -/
def linkedPage (setup : Setup) (page : Page) (linked : LinkedPageMapping) (sized : ParsedPageMapping) : Page where
  name := sized.linName
  physName := sized.physName
  maps := pageMapNames setup linked.pageMaps
  linAddr := page.linAddr + linked.linkedPpmOffset
  physAddr := page.physAddr + linked.linkedPpmOffset
  size := linked.linkedPpmOffset
  pagesize := sized.finalPagesize

variable (randomize : ParsedPageMapping → σ → Except ε (ParsedPageMapping × σ)) (setup : Setup)

/-- One linked page. `randomize` is `randomize_pagesize` with everything that it reads and changes. -/
def linkPage (parent : ParsedPageMapping) (page : Page) (linked : LinkedPageMapping) (source : σ) :
    Except (HandleFault ε) (Page × σ) := do
  let (sized, source) ← (randomize linked.mapping source).mapError HandleFault.pagesize
  let offset := linked.linkedPpmOffset
  -- the check that enough memory is reserved for the original page
  if page.size + offset ≤ parent.addressSize then
    .error (.notReserved (notReservedMessage parent sized offset))
  else
    let pageLinked := linkedPage setup page linked sized
    getPageMaps setup pageLinked.maps
    pure (pageLinked, source)

/-- One mapping: its page and the pages of the linked mappings. -/
def handlePageMapping (entry : NamedPageMapping) (state : Store × σ) :
    Except (HandleFault ε) ((Page × List Page) × Store × σ) := do
  let (page, store) ← placePage setup entry state.1
  let (linkedPages, source) ← Traversal.run (linkPage randomize setup entry.mapping page) entry.linked state.2
  pure ((page, linkedPages), store, source)

/-- The mappings that the call handles. -/
def resolved (parsedPageMappings : List NamedPageMapping) : List NamedPageMapping :=
  parsedPageMappings.filter fun entry => decide (entry.resolvePriority = 0)

/-- `handle_page_mappings`: the pages that are added to the pool, each with its linked pages. -/
def handlePageMappings (parsedPageMappings : List NamedPageMapping) (state : Store × σ) :
    Except (HandleFault ε) (List (Page × List Page) × Store × σ) :=
  Traversal.run (handlePageMapping randomize setup) (resolved parsedPageMappings) state

/-! ### What a call does -/

/-- The page maps of a mapping exist. -/
def KnownMaps (own : List String) : Prop := ∀ name ∈ pageMapNames setup own, name ∈ setup.pageMaps

variable {setup} in
theorem getPageMaps_ok_iff {own : List String} :
    getPageMaps (ε := ε) setup (pageMapNames setup own) = .ok () ↔ KnownMaps setup own := by
  unfold getPageMaps KnownMaps
  cases hfind : (pageMapNames setup own).find? (fun name => decide (name ∉ setup.pageMaps)) with
  | none => simpa using hfind
  | some name =>
      have hmem := List.mem_of_find?_eq_some hfind
      have hunknown : name ∉ setup.pageMaps := by simpa using List.find?_some hfind
      exact iff_of_false (by simp) fun h => hunknown (h name hmem)

/-- What a linked mapping needs besides a size: an offset, since the check refuses no other, and its maps. -/
def Linkable (linked : LinkedPageMapping) : Prop :=
  linked.linkedPpmOffset ≠ 0 ∧ KnownMaps setup linked.pageMaps

variable {randomize setup}

theorem linkPage_ok_iff {parent : ParsedPageMapping} {page result : Page} (hsize : page.size = parent.addressSize)
    {linked : LinkedPageMapping} {source next : σ} :
    linkPage randomize setup parent page linked source = .ok (result, next) ↔
      ∃ sized, randomize linked.mapping source = .ok (sized, next) ∧ Linkable setup linked ∧
        result = linkedPage setup page linked sized := by
  unfold linkPage
  cases hdraw : randomize linked.mapping source with
  | error fault => exact iff_of_false (fun h => nomatch h) fun ⟨_, h, _⟩ => nomatch h
  | ok drawn =>
      obtain ⟨sized, later⟩ := drawn
      simp only [Except.mapError, bind, Except.bind]
      by_cases hoffset : linked.linkedPpmOffset = 0
      · rw [if_pos (by omega)]
        exact iff_of_false (fun h => nomatch h) fun ⟨_, _, hlinkable, _⟩ => hlinkable.1 hoffset
      · rw [if_neg (by omega)]
        cases hmaps : getPageMaps (ε := ε) setup (linkedPage setup page linked sized).maps with
        | error fault =>
            refine iff_of_false (fun h => nomatch h) fun ⟨_, _, hlinkable, _⟩ => ?_
            exact nomatch hmaps.symm.trans (getPageMaps_ok_iff.mpr hlinkable.2)
        | ok _ =>
            constructor
            · intro h
              obtain ⟨rfl, rfl⟩ := Prod.mk.inj (Except.ok.inj h)
              exact ⟨sized, rfl, ⟨hoffset, getPageMaps_ok_iff.mp hmaps⟩, rfl⟩
            · rintro ⟨_, h, -, rfl⟩
              obtain ⟨rfl, rfl⟩ := Prod.mk.inj (Except.ok.inj h)
              rfl

theorem mapIdentically_size {page placed : Page} {store later : Store}
    (h : mapIdentically (ε := ε) setup page store = .ok (placed, later)) : placed.size = page.size := by
  unfold mapIdentically at h
  split_ifs at h
  · obtain ⟨_, -, h⟩ := Fallible.bind_ok h
    obtain ⟨_, -, h⟩ := Fallible.bind_ok h
    obtain ⟨rfl, -⟩ := Prod.mk.inj (Except.ok.inj h)
    rfl
  · obtain ⟨rfl, -⟩ := Prod.mk.inj (Except.ok.inj h)
    rfl

theorem placePage_size {entry : NamedPageMapping} {page : Page} {store later : Store}
    (h : placePage (ε := ε) setup entry store = .ok (page, later)) : page.size = entry.mapping.addressSize := by
  unfold placePage at h
  obtain ⟨_, -, h⟩ := Fallible.bind_ok h
  obtain ⟨_, -, h⟩ := Fallible.bind_ok h
  obtain ⟨_, -, h⟩ := Fallible.bind_ok h
  obtain ⟨⟨placed, _⟩, hmapped, h⟩ := Fallible.bind_ok h
  obtain ⟨_, -, h⟩ := Fallible.bind_ok h
  obtain ⟨rfl, -⟩ := Prod.mk.inj (Except.ok.inj h)
  exact mapIdentically_size hmapped

theorem placePages_size {entries : List NamedPageMapping} {pages : List Page} {store later : Store}
    (h : Traversal.run (placePage (ε := ε) setup) entries store = .ok (pages, later)) :
    List.Forall₂ (fun entry page => page.size = entry.mapping.addressSize) entries pages :=
  Traversal.run_results (fun entry page => page.size = entry.mapping.addressSize) placePage_size h

variable (randomize) in
/-- The linked mappings of one entry with their sizes drawn. -/
def drawLinked (entry : NamedPageMapping) (source : σ) : Except ε (List ParsedPageMapping × σ) :=
  Traversal.run (fun linked => randomize linked.mapping) entry.linked source

theorem linkPages_ok_iff {entry : NamedPageMapping} {page : Page} (hsize : page.size = entry.mapping.addressSize)
    {source next : σ} {linkedPages : List Page} :
    Traversal.run (linkPage randomize setup entry.mapping page) entry.linked source = .ok (linkedPages, next) ↔
      ∃ sized, drawLinked randomize entry source = .ok (sized, next) ∧
        (∀ linked ∈ entry.linked, Linkable setup linked) ∧
        linkedPages = List.zipWith (linkedPage setup page) entry.linked sized := by
  have hstep : ∀ linked source result next,
      linkPage randomize setup entry.mapping page linked source = .ok (result, next) ↔
        ∃ sized, randomize linked.mapping source = .ok (sized, next) ∧ Linkable setup linked ∧
          result = linkedPage setup page linked sized := fun _ _ _ _ => linkPage_ok_iff hsize
  exact Traversal.run_guarded hstep

variable (setup) in
/-- The pages of one entry. -/
def family (entry : NamedPageMapping) (page : Page) (sized : List ParsedPageMapping) : Page × List Page :=
  (page, List.zipWith (linkedPage setup page) entry.linked sized)

theorem handlePageMapping_ok_iff {entry : NamedPageMapping} {store store' : Store} {source source' : σ}
    {result : Page × List Page} :
    handlePageMapping randomize setup entry (store, source) = .ok (result, store', source') ↔
      ∃ page sized, placePage (ε := ε) setup entry store = .ok (page, store') ∧
        drawLinked randomize entry source = .ok (sized, source') ∧
        (∀ linked ∈ entry.linked, Linkable setup linked) ∧ result = family setup entry page sized := by
  constructor
  · intro h
    obtain ⟨⟨page, later⟩, hplaced, h⟩ := Fallible.bind_ok h
    obtain ⟨⟨linkedPages, last⟩, hlinked, h⟩ := Fallible.bind_ok h
    obtain ⟨rfl, hstate⟩ := Prod.mk.inj (Except.ok.inj h)
    obtain ⟨rfl, rfl⟩ := Prod.mk.inj hstate
    obtain ⟨sized, hdrawn, hlinkable, rfl⟩ := (linkPages_ok_iff (placePage_size hplaced)).mp hlinked
    exact ⟨page, sized, hplaced, hdrawn, hlinkable, rfl⟩
  · rintro ⟨page, sized, hplaced, hdrawn, hlinkable, rfl⟩
    have hlinked := (linkPages_ok_iff (placePage_size hplaced)).mpr ⟨sized, hdrawn, hlinkable, rfl⟩
    simp only [handlePageMapping, bind, Except.bind, hplaced, hlinked]
    rfl

/-- A call succeeds when the pages can be placed, the sizes can be drawn and every linked mapping has an
offset and its maps, each on its own. -/
theorem handlePageMappings_ok_iff {parsedPageMappings : List NamedPageMapping} {store store' : Store}
    {source source' : σ} {families : List (Page × List Page)} :
    handlePageMappings randomize setup parsedPageMappings (store, source) = .ok (families, store', source') ↔
      ∃ pages drawn,
        Traversal.run (placePage (ε := ε) setup) (resolved parsedPageMappings) store = .ok (pages, store') ∧
        Traversal.run (drawLinked randomize) (resolved parsedPageMappings) source = .ok (drawn, source') ∧
        (∀ entry ∈ resolved parsedPageMappings, ∀ linked ∈ entry.linked, Linkable setup linked) ∧
        families = List.zipWith (fun entry parts => family setup entry parts.1 parts.2)
          (resolved parsedPageMappings) (pages.zip drawn) := by
  have hstep : ∀ entry store source result store' source',
      handlePageMapping randomize setup entry (store, source) = .ok (result, store', source') ↔
        ∃ page sized, placePage (ε := ε) setup entry store = .ok (page, store') ∧
          drawLinked randomize entry source = .ok (sized, source') ∧
          (∀ linked ∈ entry.linked, Linkable setup linked) ∧ result = family setup entry page sized :=
    fun _ _ _ _ _ _ => handlePageMapping_ok_iff
  exact Traversal.run_parts hstep

/-! ### Inside the reservation -/

/-- The bytes that a page maps: none when it has no size. -/
def Page.bytes (page : Page) : ℕ := page.pagesize.elim 0 RiscvPageSizes.memory

/-- A linked page is inside what was reserved for its parent, in both address spaces. -/
structure Page.Inside (linked parent : Page) : Prop where
  linear : Set.Ico linked.linAddr (linked.linAddr + linked.bytes) ⊆
    Set.Ico parent.linAddr (parent.linAddr + parent.size)
  physical : Set.Ico linked.physAddr (linked.physAddr + linked.bytes) ⊆
    Set.Ico parent.physAddr (parent.physAddr + parent.size)

/-- The call raises, or all linked pages are inside the reservations of their parents. -/
def LinkedInside (out : Except (HandleFault ε) (List (Page × List Page) × Store × σ)) : Prop :=
  ∀ families state, out = .ok (families, state) →
    ∀ pages ∈ families, ∀ linked ∈ pages.2, linked.Inside pages.1

/-- A drawn size fits between the offset and the end of the reservation. -/
def Fits (entry : NamedPageMapping) (linked : LinkedPageMapping) (sized : ParsedPageMapping) : Prop :=
  ∀ pagesize, sized.finalPagesize = some pagesize →
    linked.linkedPpmOffset + pagesize.memory ≤ entry.mapping.addressSize

theorem linkedPage_inside_iff {entry : NamedPageMapping} {page : Page}
    (hsize : page.size = entry.mapping.addressSize) {linked : LinkedPageMapping} {sized : ParsedPageMapping} :
    (linkedPage setup page linked sized).Inside page ↔ Fits entry linked sized := by
  have hcovers : ∀ start bytes, 0 < bytes →
      (Set.Ico (start + linked.linkedPpmOffset) (start + linked.linkedPpmOffset + bytes) ⊆
        Set.Ico start (start + page.size) ↔ linked.linkedPpmOffset + bytes ≤ entry.mapping.addressSize) := by
    intro start bytes hpos
    rw [Set.Ico_subset_Ico_iff (by omega), hsize]
    omega
  cases hpagesize : sized.finalPagesize with
  | none =>
      refine iff_of_true ⟨?_, ?_⟩ fun pagesize h => nomatch hpagesize.symm.trans h
      · simp [Page.bytes, linkedPage, hpagesize]
      · simp [Page.bytes, linkedPage, hpagesize]
  | some pagesize =>
      have hbytes : (linkedPage setup page linked sized).bytes = pagesize.memory := by
        simp [Page.bytes, linkedPage, hpagesize]
      have hpos : 0 < pagesize.memory := by cases pagesize <;> decide
      have hfits : Fits entry linked sized ↔
          linked.linkedPpmOffset + pagesize.memory ≤ entry.mapping.addressSize := by
        simp [Fits, hpagesize]
      rw [hfits]
      constructor
      · intro hinside
        have hlinear := hinside.linear
        rw [hbytes] at hlinear
        exact (hcovers _ _ hpos).mp hlinear
      · intro hle
        refine ⟨?_, ?_⟩
        · rw [hbytes]
          exact (hcovers _ _ hpos).mpr hle
        · rw [hbytes]
          exact (hcovers _ _ hpos).mpr hle

theorem family_inside_iff {entry : NamedPageMapping} {page : Page} (hsize : page.size = entry.mapping.addressSize)
    {sized : List ParsedPageMapping} :
    (∀ linked ∈ (family setup entry page sized).2, linked.Inside (family setup entry page sized).1) ↔
      ∀ pair ∈ entry.linked.zip sized, Fits entry pair.1 pair.2 := by
  simp only [family, ← List.map_uncurry_zip_eq_zipWith, List.forall_mem_map]
  exact forall₂_congr fun _ _ => linkedPage_inside_iff hsize

theorem families_inside_iff {entries : List NamedPageMapping} {pages : List Page}
    (hsizes : List.Forall₂ (fun entry page => page.size = entry.mapping.addressSize) entries pages)
    {drawn : List (List ParsedPageMapping)} :
    (∀ placed ∈ List.zipWith (fun entry parts => family setup entry parts.1 parts.2) entries (pages.zip drawn),
        ∀ linked ∈ placed.2, linked.Inside placed.1) ↔
      ∀ pair ∈ entries.zip drawn, ∀ link ∈ pair.1.linked.zip pair.2, Fits pair.1 link.1 link.2 := by
  induction hsizes generalizing drawn with
  | nil => simp
  | cons hsize _ ih =>
      cases drawn with
      | nil => simp
      | cons sized drawn =>
          simp only [List.zip_cons_cons, List.zipWith_cons_cons, List.forall_mem_cons]
          exact and_congr (family_inside_iff hsize) ih

variable (randomize setup) in
/-- Nothing else stops the call: the pages can be placed, the sizes are drawn, and every linked mapping has a
positive offset and its maps. -/
structure Completes (parsedPageMappings : List NamedPageMapping) (store : Store) (source : σ)
    (drawn : List (List ParsedPageMapping)) : Prop where
  placed : ∃ out, Traversal.run (placePage (ε := ε) setup) (resolved parsedPageMappings) store = .ok out
  sized : ∃ source', Traversal.run (drawLinked randomize) (resolved parsedPageMappings) source = .ok (drawn, source')
  linkable : ∀ entry ∈ resolved parsedPageMappings, ∀ linked ∈ entry.linked, Linkable setup linked

/-- The check refuses only a linked page at offset zero: with nothing else to stop the call, the linked pages
are inside exactly when the drawn sizes happen to fit. -/
theorem handlePageMappings_linkedInside_iff
    (randomize : ParsedPageMapping → σ → Except ε (ParsedPageMapping × σ)) (setup : Setup)
    (parsedPageMappings : List NamedPageMapping) (store : Store) (source : σ) :
    LinkedInside (handlePageMappings randomize setup parsedPageMappings (store, source)) ↔
      ∀ drawn, Completes randomize setup parsedPageMappings store source drawn →
        ∀ pair ∈ (resolved parsedPageMappings).zip drawn, ∀ link ∈ pair.1.linked.zip pair.2,
          Fits pair.1 link.1 link.2 := by
  constructor
  · rintro hinside drawn ⟨⟨⟨pages, store'⟩, hplaced⟩, ⟨source', hsized⟩, hlinkable⟩
    have hout := handlePageMappings_ok_iff.mpr ⟨pages, drawn, hplaced, hsized, hlinkable, rfl⟩
    exact (families_inside_iff (placePages_size hplaced)).mp (hinside _ _ hout)
  · rintro hfits families ⟨store', source'⟩ hout
    obtain ⟨pages, drawn, hplaced, hsized, hlinkable, rfl⟩ := handlePageMappings_ok_iff.mp hout
    exact (families_inside_iff (placePages_size hplaced)).mpr
      (hfits drawn ⟨⟨_, hplaced⟩, ⟨source', hsized⟩, hlinkable⟩)

end Handling

/-- `randomize_pagesize` of a linked mapping with g-stage paging disabled. No mapping of the pool has its
name. -/
def randomizeLinked (featmgr : FeatMgr) (mapping : ParsedPageMapping)
    (source : List (String × ParsedAddr) × RandNum) :
    Except PageFault (ParsedPageMapping × List (String × ParsedAddr) × RandNum) := do
  let (addrs, rng) := source
  let (state, physAddr) ← randomizePagesize featmgr mapping false (OrderedDict.get? addrs mapping.physName) rng
  let addrs := physAddr.elim addrs (OrderedDict.insert addrs mapping.physName)
  pure (state.mapping, addrs, state.rng)

/-- A 4 KB page with a linked one right behind it: nothing was reserved for the second page. -/
theorem not_handlePageMappings_linkedInside :
    ¬∀ (setup : Setup) (parsedPageMappings : List NamedPageMapping) (store : Store)
      (source : List (String × ParsedAddr) × RandNum),
      LinkedInside (handlePageMappings (randomizeLinked setup.toFeatMgr) setup parsedPageMappings (store, source)) := by
  intro h
  let parent : ParsedPageMapping :=
    { ParsedPageMapping.default with
      linName := "lin1", physName := "phys1", pagesizes := ["4kb"], finalPagesize := some .s4kb }
  let behind : ParsedPageMapping :=
    { ParsedPageMapping.default with linName := "lin1+0x1000", physName := "phys2", pagesizes := ["4kb"] }
  let store : Store :=
    { randomAddrs := [("lin1", 0x100000), ("phys1", 0x80000000)]
      addrgen := ⟨AddressSpace.init, AddressSpace.init, false, false, fun _ => 0, []⟩ }
  let entry : NamedPageMapping := ⟨"lin1", parent, [], 0, true, [⟨behind, [], 0x1000⟩]⟩
  let out :=
    handlePageMappings (randomizeLinked { pagingMode := .sv39 }) { pagingMode := .sv39 } [entry] (store, [], ⟨[]⟩)
  have hoverrun : (out.toOption.any fun done => done.1.any fun pages => pages.2.any fun linked =>
      decide (0 < linked.bytes ∧ pages.1.linAddr + pages.1.size < linked.linAddr + linked.bytes)) = true := by
    decide +kernel
  obtain ⟨⟨families, final⟩, hdone, hfamilies⟩ := (Option.any_eq_true _ _).mp hoverrun
  obtain ⟨pages, hpages, hlinked⟩ := List.any_eq_true.mp hfamilies
  obtain ⟨linked, hmem, hpast⟩ := List.any_eq_true.mp hlinked
  obtain ⟨hpos, hpast⟩ := of_decide_eq_true hpast
  have hinside := h { pagingMode := .sv39 } [entry] store ([], ⟨[]⟩) families final
    (Fallible.toOption_some hdone) pages hpages linked hmem
  have hlast := (Set.Ico_subset_Ico_iff (by omega)).mp hinside.linear
  omega

end Riescue.PageMappings
