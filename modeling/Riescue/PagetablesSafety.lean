import Riescue.PagetablesProgress
import Mathlib.Data.List.Nodup

/-! `PageMap.create_pagetables` on pages with disjoint ranges: in the finished tables a walk maps every
page to its own leaf and everything else to a missing entry, whatever the order of the pages. -/

namespace Riescue.Pagetables
open Paging Fallible Radix

/-- Both addresses of the page are there and multiples of its size. -/
def Page.Aligned (page : Page) : Prop :=
  ∃ linAddr physAddr, page.linAddr = some linAddr ∧ page.physAddr = some physAddr ∧
    page.pagesize.memory ∣ linAddr ∧ page.pagesize.memory ∣ physAddr

/-- The base address a page's leaf should have: the physical address, marked secure for a secure page; a
64K leaf has the value 8 in the low four bits of its page number. -/
def Page.mapped (page : Page) : ℕ :=
  let physAddr := page.physAddr.getD 0
  let physAddr := if page.attrs.secure.getD 0 ≠ 0 then physAddr ||| secureBit else physAddr
  if page.pagesize = .s64kb then physAddr + 0x8000 else physAddr

/-- On an address aligned to 64K the NAPOT encoding is an addition. -/
theorem napot_encoding {physAddr : ℕ} (h : 2 ^ 16 ∣ physAddr) :
    Nat.ldiff physAddr 0xF000 ||| 0x8000 = physAddr + 0x8000 := by
  obtain ⟨block, rfl⟩ := h
  have hclear : Nat.ldiff (2 ^ 16 * block) 0xF000 = 2 ^ 16 * block := by
    apply Nat.eq_of_testBit_eq
    intro i
    rw [Nat.testBit_ldiff, Nat.testBit_two_pow_mul]
    by_cases hlow : 16 ≤ i
    · have hhigh : Nat.testBit 0xF000 i = false :=
        Nat.testBit_lt_two_pow (lt_of_lt_of_le (by decide) (Nat.pow_le_pow_right (by decide) hlow))
      simp [hhigh]
    · simp [hlow]
  have hlt : 0x8000 < 2 ^ 16 := by decide
  rw [hclear, Nat.two_pow_add_eq_or_of_lt hlt]

theorem Page.leafBase_eq_mapped {page : Page} (h : page.pagesize.memory ∣ page.physAddr.getD 0) :
    page.leafBase (page.physAddr.getD 0) = page.mapped := by
  unfold Page.leafBase Page.mapped
  dsimp only
  by_cases hsize : page.pagesize = .s64kb
  · rw [if_pos hsize, if_pos hsize]
    rw [hsize] at h
    refine napot_encoding ?_
    split_ifs with hsecure
    · obtain ⟨block, hblock⟩ := h
      have hmod : (page.physAddr.getD 0 ||| secureBit) % 2 ^ 16 = 0 := by
        rw [Nat.or_mod_two_pow, hblock]
        have hzero : RiscvPageSizes.s64kb.memory * block % 2 ^ 16 = 0 := Nat.mul_mod_right _ _
        rw [hzero]
        rfl
      exact Nat.dvd_of_mod_eq_zero hmod
    · exact h
  · rw [if_neg hsize, if_neg hsize]

variable {featmgr : FeatMgr} {info : MapInfo} {root : PTTable} {state state' : State}

/-- One page: it exists, it joins the entries of the tree, and the tree grows by its tables. -/
theorem createPagetables_represents {page : Page} {root' : PTTable} {entries : List (List ℕ × ℕ)}
    (hsupported : page.pagesize ∈ info.pagingMode.supportedPagesizes true)
    (hplaced : ∃ linAddr physAddr, page.linAddr = some linAddr ∧ page.physAddr = some physAddr)
    (h : createPagetables featmgr info page (some root) state = .ok (root', state'))
    (hfree : PrefixFree (page.entries info.pagingMode ++ entries))
    (hrep : Represents PTTable.slot info.pagingMode.maxLevels root entries) :
    Represents PTTable.slot info.pagingMode.maxLevels root' (page.entries info.pagingMode ++ entries) := by
  have hlevel : page.ptLeafLevel < info.pagingMode.maxLevels := (memory_of_supported hsupported).1
  have hlast : info.pagingMode.maxLevels - 1 + 1 = info.pagingMode.maxLevels := by omega
  obtain ⟨linAddr, physAddr, hlin, hphys⟩ := hplaced
  rw [Page.entries, hlin, hphys, Option.getD_some, Option.getD_some] at hfree ⊢
  rw [← hlast] at hrep ⊢
  exact createLevels_represents (by omega) (by omega) hlin hphys h hfree hrep

/-- A list of pages: the entries of all of them join the tree. -/
theorem createAll_represents {pages : List Page} {result : Option PTTable} {entries : List (List ℕ × ℕ)}
    (hsupported : ∀ page ∈ pages, page.pagesize ∈ info.pagingMode.supportedPagesizes true)
    (hplaced : ∀ page ∈ pages,
      ∃ linAddr physAddr, page.linAddr = some linAddr ∧ page.physAddr = some physAddr)
    (h : createAll featmgr info pages (some root) state = .ok (result, state'))
    (hfree : PrefixFree (pages.flatMap (Page.entries info.pagingMode) ++ entries))
    (hrep : Represents PTTable.slot info.pagingMode.maxLevels root entries) :
    ∃ root', result = some root' ∧ Represents PTTable.slot info.pagingMode.maxLevels root'
      (pages.flatMap (Page.entries info.pagingMode) ++ entries) := by
  induction pages generalizing root state entries with
  | nil =>
      cases h
      exact ⟨root, rfl, hrep⟩
  | cons page rest ih =>
      obtain ⟨⟨middle, current⟩, hpage, hrest⟩ := bind_ok h
      have hswap : (rest.flatMap (Page.entries info.pagingMode) ++
          (page.entries info.pagingMode ++ entries)).Perm
            ((page :: rest).flatMap (Page.entries info.pagingMode) ++ entries) := by
        rw [List.flatMap_cons, ← List.append_assoc]
        exact List.perm_append_comm.append_right _
      have hfree' := hfree.perm hswap.symm
      obtain ⟨root', hresult, hrep'⟩ :=
        ih (fun other hmem => hsupported other (List.mem_cons_of_mem _ hmem))
          (fun other hmem => hplaced other (List.mem_cons_of_mem _ hmem)) hrest hfree'
          (createPagetables_represents (hsupported page List.mem_cons_self)
            (hplaced page List.mem_cons_self) hpage (List.pairwise_append.mp hfree').2.1 hrep)
      exact ⟨root', hresult, hrep'.perm hswap⟩

/-- What a list of pages takes from the generator, and the tables it adds. -/
theorem createAll_progress {pages : List Page} {result : Option PTTable}
    (h : createAll featmgr info pages (some root) state = .ok (result, state'))
    (hmode : info.pagingMode ≠ .disable) :
    ∃ root' fresh, result = some root' ∧ root'.baseAddr = root.baseAddr ∧
      Progress (∀ page ∈ pages, page.Quiet info) state state' fresh ∧
      ∀ addr, (addresses info.pagingMode.maxLevels root').count addr ≤
        fresh.count addr + (addresses info.pagingMode.maxLevels root).count addr := by
  have hlast : info.pagingMode.maxLevels - 1 + 1 = info.pagingMode.maxLevels := by
    cases hinfo : info.pagingMode with
    | disable => exact absurd hinfo hmode
    | _ => decide
  induction pages generalizing root state with
  | nil =>
      cases h
      exact ⟨root, [], rfl, rfl, Progress.rng _ state' state'.rng, fun addr => by simp⟩
  | cons page rest ih =>
      obtain ⟨⟨middle, current⟩, hpage, hrest⟩ := bind_ok h
      obtain ⟨fresh, hprogress, hcount⟩ := createLevels_progress hpage
      obtain ⟨root', fresh', hresult, haddr, hprogress', hcount'⟩ := ih hrest
      refine ⟨root', fresh ++ fresh', hresult, haddr.trans (createLevels_baseAddr hpage), ?_, fun addr => ?_⟩
      · exact (hprogress.mono fun hquiet => hquiet page List.mem_cons_self).trans
          (hprogress'.mono fun hquiet other hmem => hquiet other (List.mem_cons_of_mem _ hmem))
      · have hpageCount := hcount addr
        rw [hlast] at hpageCount
        have hrestCount := hcount' addr
        rw [List.count_append]
        omega

/-- A map with its pages, before any table exists. -/
def PageMap.new (info : MapInfo) (pages : List (String × Page)) : PageMap := ⟨info, pages, [], none⟩

/-- The pages of a map and the pages added to map its tables. -/
def PageMap.allPages (map : PageMap) (pages : List (String × Page)) : List Page :=
  (pages ++ map.ptPages).map Prod.snd

variable {pages : List (String × Page)} {map' : PageMap} {sptbr : ℕ}

theorem Page.Raw.supported {page : Page} (h : page.Raw) {mode : RiscvPagingModes} (hmode : mode ≠ .disable) :
    page.pagesize ∈ mode.supportedPagesizes true := by
  rw [h.pagesize]
  cases mode with
  | disable => exact absurd rfl hmode
  | _ => decide

theorem Page.Raw.leafBase_eq_mapped {page : Page} (h : page.Raw) :
    page.leafBase (page.physAddr.getD 0) = page.mapped := by
  have hsize : page.pagesize ≠ .s64kb := by
    rw [h.pagesize]
    decide
  unfold Page.leafBase Page.mapped
  rw [if_neg hsize, if_neg hsize]

/-- The two loops of `PageMap.create_pagetables` together run over all pages of the finished map. -/
theorem createPagetables_runs (hmode : info.pagingMode ≠ .disable)
    (h : ((PageMap.new info pages).createBaseTable sptbr).createPagetables featmgr state = .ok (map', state')) :
    (∀ pair ∈ map'.ptPages, pair.2.Raw) ∧
    ((∀ pair ∈ pages, pair.2.Quiet info) → map'.ptPages = []) ∧
    ∃ root root' current, map'.basetable = some root' ∧ root'.baseAddr = sptbr ∧
      createAll featmgr info (pages.map Prod.snd) (some (PTTable.fresh sptbr false))
        { state with ptPages := [] } = .ok (some root, current) ∧
      createAll featmgr info (map'.ptPages.map Prod.snd) (some root) current = .ok (some root', state') ∧
      (((sptbr :: state.physical).map frame).Nodup →
        (addresses info.pagingMode.maxLevels root').Nodup) := by
  unfold PageMap.createPagetables at h
  obtain ⟨⟨middle, current⟩, hfirst, h⟩ := bind_ok h
  obtain ⟨⟨result, final⟩, hsecond, h⟩ := bind_ok h
  cases h
  obtain ⟨root, fresh, hroot, haddr, hprogress, hcount⟩ := createAll_progress hfirst hmode
  obtain rfl : middle = some root := hroot
  obtain ⟨root', fresh', hroot', haddr', hprogress', hcount'⟩ := createAll_progress hsecond hmode
  obtain rfl : result = some root' := hroot'
  have hraw : ∀ pair ∈ current.ptPages, pair.2.Raw := fun pair hpair =>
    (hprogress.ptPages pair hpair).resolve_left List.not_mem_nil
  have hsame : state'.ptPages = current.ptPages := by
    refine hprogress'.same fun page hpage => ?_
    obtain ⟨pair, hpair, rfl⟩ := List.mem_map.mp hpage
    refine Or.inl ?_
    rw [(hraw pair hpair).modifyPt]
    rfl
  have hquiet : (∀ pair ∈ pages, pair.2.Quiet info) → current.ptPages = [] := by
    intro hpages
    refine hprogress.same fun page hpage => ?_
    obtain ⟨pair, hpair, rfl⟩ := List.mem_map.mp hpage
    exact hpages pair hpair
  rw [hsame]
  refine ⟨hraw, hquiet, root, root', current, rfl, haddr'.trans haddr, hfirst, hsecond, fun hnodup => ?_⟩
  have htaken : state.physical.map frame =
      (fresh ++ fresh').map frame ++ state'.physical.map frame := by
    rw [List.map_append, List.append_assoc, ← hprogress'.physical]
    exact hprogress.physical
  rw [List.map_cons, htaken, ← List.cons_append] at hnodup
  have hused : (sptbr :: (fresh ++ fresh')).Nodup := List.Nodup.of_map frame (List.nodup_append.mp hnodup).1
  refine List.nodup_iff_count_le_one.mpr fun addr => ?_
  have hroot : (addresses info.pagingMode.maxLevels (PTTable.fresh sptbr false)).count addr ≤
      [sptbr].count addr := by
    cases info.pagingMode.maxLevels with
    | zero => exact Nat.zero_le _
    | succ depth => rw [addresses_fresh]
  have hlimit := List.nodup_iff_count_le_one.mp hused addr
  have hone : (addresses info.pagingMode.maxLevels root).count addr ≤ fresh.count addr +
      (addresses info.pagingMode.maxLevels (PTTable.fresh sptbr false)).count addr := hcount addr
  have htwo : (addresses info.pagingMode.maxLevels root').count addr ≤
      fresh'.count addr + (addresses info.pagingMode.maxLevels root).count addr := hcount' addr
  have hsplit : (sptbr :: (fresh ++ fresh')).count addr =
      fresh.count addr + fresh'.count addr + [sptbr].count addr := by
    rw [List.count_cons, List.count_append, List.count_singleton]
  omega

/-- After `create_pagetables` the walk through the tables, and the one through memory when the generated
table addresses are distinct, take every address of a page to the leaf of the page at its level, and every
other address to a missing entry. -/
theorem createPagetables_maps (hmode : info.pagingMode ≠ .disable)
    (hsupported : ∀ pair ∈ pages, pair.2.pagesize ∈ info.pagingMode.supportedPagesizes true)
    (haligned : ∀ pair ∈ pages, pair.2.Aligned)
    (h : ((PageMap.new info pages).createBaseTable sptbr).createPagetables featmgr state = .ok (map', state'))
    (hdisjoint : (map'.allPages pages).Pairwise (Page.DisjointFrom info.pagingMode)) :
    ((∀ pair ∈ pages, pair.2.Quiet info) → map'.ptPages = []) ∧
    ∃ root, map'.basetable = some root ∧
      Maps info.pagingMode (walk info.pagingMode (info.pagingMode.maxLevels - 1) root) Page.mapped
        (map'.allPages pages) ∧
      (((sptbr :: state.physical).map frame).Nodup →
        Maps info.pagingMode (hardwareWalk info.pagingMode (entryAt (tables info.pagingMode.maxLevels root))
          (info.pagingMode.maxLevels - 1) sptbr) Page.mapped (map'.allPages pages)) := by
  obtain ⟨hraw, hquiet, middle, root, current, hroot, haddr, hfirst, hsecond, hdistinct⟩ :=
    createPagetables_runs hmode h
  have hlast : info.pagingMode.maxLevels - 1 + 1 = info.pagingMode.maxLevels := by
    cases hinfo : info.pagingMode with
    | disable => exact absurd hinfo hmode
    | _ => decide
  have hpages : ∀ page ∈ map'.allPages pages, page.pagesize ∈ info.pagingMode.supportedPagesizes true ∧
      (∃ linAddr physAddr, page.linAddr = some linAddr ∧ page.physAddr = some physAddr) ∧
      page.leafBase (page.physAddr.getD 0) = page.mapped := by
    intro page hpage
    obtain ⟨pair, hpair, rfl⟩ := List.mem_map.mp hpage
    rcases List.mem_append.mp hpair with hlisted | hadded
    · obtain ⟨linAddr, physAddr, hlin, hphys, -, hdvd⟩ := haligned pair hlisted
      refine ⟨hsupported pair hlisted, ⟨linAddr, physAddr, hlin, hphys⟩, Page.leafBase_eq_mapped ?_⟩
      rwa [hphys]
    · have hpage := hraw pair hadded
      exact ⟨hpage.supported hmode, hpage.placed, hpage.leafBase_eq_mapped⟩
  have hfree := prefixFree_of_disjoint (fun page hpage => (hpages page hpage).1) hdisjoint
  have hsplit : map'.allPages pages = pages.map Prod.snd ++ map'.ptPages.map Prod.snd := List.map_append
  have hlisted : ∀ page ∈ pages.map Prod.snd, page ∈ map'.allPages pages := fun page hpage => by
    rw [hsplit]
    exact List.mem_append_left _ hpage
  have hadded : ∀ page ∈ map'.ptPages.map Prod.snd, page ∈ map'.allPages pages := fun page hpage => by
    rw [hsplit]
    exact List.mem_append_right _ hpage
  have hswap : ((map'.allPages pages).flatMap (Page.entries info.pagingMode)).Perm
      ((map'.ptPages.map Prod.snd).flatMap (Page.entries info.pagingMode) ++
        ((pages.map Prod.snd).flatMap (Page.entries info.pagingMode) ++ [])) := by
    rw [hsplit, List.flatMap_append, List.append_nil]
    exact List.perm_append_comm
  have hempty : Represents PTTable.slot info.pagingMode.maxLevels (PTTable.fresh sptbr false) [] := by
    rw [← hlast]
    exact Represents.empty fun index => PTTable.slot_fresh sptbr false index
  have hfree' := hfree.perm hswap
  obtain ⟨middle', hmiddle, hrep⟩ := createAll_represents
    (fun page hpage => (hpages page (hlisted page hpage)).1)
    (fun page hpage => (hpages page (hlisted page hpage)).2.1) hfirst (List.pairwise_append.mp hfree').2.1 hempty
  obtain rfl := Option.some.inj hmiddle
  obtain ⟨root', hroot', hrep'⟩ := createAll_represents
    (fun page hpage => (hpages page (hadded page hpage)).1)
    (fun page hpage => (hpages page (hadded page hpage)).2.1) hsecond hfree' hrep
  obtain rfl := Option.some.inj hroot'
  have hmaps := (maps_of_represents hmode (fun page hpage => (hpages page hpage).1)
    (hrep'.perm hswap.symm)).congr (fun _ => rfl) fun page hpage => (hpages page hpage).2.2.symm
  refine ⟨hquiet, root, hroot, hmaps, fun hnodup => hmaps.congr (fun va => ?_) fun _ _ => rfl⟩
  rw [← haddr]
  refine hardwareWalk_eq (hdistinct hnodup) _ _ ?_ va
  rw [hlast]
  exact List.Subset.refl _

/-- A page with the attributes of `Page.__init__`. -/
def Page.new (name : String) (pagesize : RiscvPageSizes) (linAddr physAddr : ℕ) : Page :=
  { name, pagesize, linAddr := some linAddr, physAddr := some physAddr, attrs := PageAttrs.default 0 }

/-- A generator that still returns the given addresses. -/
def State.supply (physical linear : List ℕ) : State := ⟨⟨[]⟩, physical, linear, [], []⟩

/-- The walk of an address after the pages of an sv39 map were created. -/
def walkAfter (pages : List (String × Page)) (state : State) (va : ℕ) : Option WalkResult :=
  (((PageMap.new ⟨"map_os", .sv39, false⟩ pages).createBaseTable 0x90000000).createPagetables {} state).toOption.bind
    fun result => result.1.basetable.map fun root => walk .sv39 2 root va

/-- Pages of four sizes, small ones before and after large ones, one in the upper half. -/
def mixedPages : List (String × Page) :=
  [("code", .new "code" .s4kb 0x1000 0x80001000), ("data", .new "data" .s1gb 0x40000000 0xC0000000),
    ("heap", .new "heap" .s64kb 0x10000 0x80010000),
    ("high", .new "high" .s2mb 0xFFFFFFC000000000 0x80200000)]

theorem createPagetables_maps_mixed :
    ∃ map' state' root,
      ((PageMap.new ⟨"map_os", .sv39, false⟩ mixedPages).createBaseTable 0x90000000).createPagetables {}
        (State.supply [0x90001000, 0x90002000, 0x90003000] []) = .ok (map', state') ∧
      map'.basetable = some root ∧
      walk .sv39 2 root 0x1ABC = .leaf 0 0x80001000 ∧ walk .sv39 2 root 0x1F123 = .leaf 0 0x80018000 ∧
      walk .sv39 2 root 0xFFFFFFC000123456 = .leaf 1 0x80200000 ∧ walk .sv39 2 root 0x2000 = .missing ∧
      hardwareWalk .sv39 (entryAt (tables 3 root)) 2 0x90000000 0x41234567 = .leaf 2 0xC0000000 := by
  have hok : (((PageMap.new ⟨"map_os", .sv39, false⟩ mixedPages).createBaseTable 0x90000000).createPagetables {}
      (State.supply [0x90001000, 0x90002000, 0x90003000] [])).toOption.isSome := by decide +kernel
  obtain ⟨⟨map', state'⟩, h⟩ := exists_ok hok
  have hnone : map'.ptPages = [] := (createPagetables_runs (by decide) h).2.1 (by
    simp only [mixedPages, List.forall_mem_cons, List.not_mem_nil, false_implies, implies_true, and_true]
    exact ⟨Or.inl rfl, Or.inl rfl, Or.inl rfl, Or.inl rfl⟩)
  have hall : map'.allPages mixedPages = mixedPages.map Prod.snd := by
    rw [PageMap.allPages, hnone, List.append_nil]
  have haligned : ∀ pair ∈ mixedPages, pair.2.Aligned := by
    simp only [mixedPages, List.forall_mem_cons, List.not_mem_nil, false_implies, implies_true, and_true]
    exact ⟨⟨_, _, rfl, rfl, by decide, by decide⟩, ⟨_, _, rfl, rfl, by decide, by decide⟩,
      ⟨_, _, rfl, rfl, by decide, by decide⟩, ⟨_, _, rfl, rfl, by decide, by decide⟩⟩
  obtain ⟨-, root, hroot, hmaps, hmemory⟩ := createPagetables_maps (by decide) (by decide +kernel) haligned h (by
    rw [hall]
    decide +kernel)
  rw [hall] at hmaps hmemory
  refine ⟨map', state', root, h, hroot, ?_, ?_, ?_, ?_, ?_⟩
  · exact hmaps.1 _ (.head _) _ (by decide +kernel)
  · exact hmaps.1 _ (.tail _ (.tail _ (.head _))) _ (by decide +kernel)
  · exact hmaps.1 _ (.tail _ (.tail _ (.tail _ (.head _)))) _ (by decide +kernel)
  · exact hmaps.2 _ (by decide +kernel)
  · exact (hmemory (by decide +kernel)).1 _ (.tail _ (.head _)) _ (by decide +kernel)

/-- Three sets of pages at which the plain reading fails: a second page whose linear address differs above bit 38 only,
a secure page, and a page that asks for its entries to be mapped. -/
theorem createPagetables_not_plain :
    walkAfter [("low", .new "low" .s4kb 0 0x80000000), ("alias", .new "alias" .s4kb (2 ^ 39) 0x80001000)]
        (State.supply [0x90001000, 0x90002000] []) 0 = some (.leaf 0 0x80001000) ∧
    walkAfter [("low", { Page.new "low" .s4kb 0 0x80000000 with
        attrs := { PageAttrs.default 0 with secure := some 1 } })]
        (State.supply [0x90001000, 0x90002000] []) 0 = some (.leaf 0 0x80000080000000) ∧
    walkAfter [("low", { Page.new "low" .s4kb 0 0x80000000 with
        attrs := { PageAttrs.default 0 with modifyPt := some 1 } })]
        (State.supply [0x90001000, 0x90002000] [0x5000, 0x6000, 0x7000]) 0x5000 =
          some (.leaf 0 0x90000000) := by
  decide +kernel

end Riescue.Pagetables
