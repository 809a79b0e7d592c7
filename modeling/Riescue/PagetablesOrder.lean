import Riescue.PagetablesSafety

/-! Pages whose linear ranges may overlap. Creating a page maps its own addresses and unmaps none: a leaf
that stands on the way already maps them, and a leaf that replaces a table maps all that the table did. So
the mapped addresses are those of the pages, in whatever order the pages are created. -/

namespace Riescue.Pagetables
open Paging Fallible Radix

/-- The walk of the address ends at a leaf. -/
def ReachesLeaf (mode : RiscvPagingModes) (level : ℕ) (base : PTTable) (va : ℕ) : Prop :=
  ∃ leafLevel baseAddr, walk mode level base va = .leaf leafLevel baseAddr

/-- The addresses a page maps below a table of a level: those that share its indices down to its leaf. -/
def Page.CoversAt (mode : RiscvPagingModes) (page : Page) (linAddr va : ℕ) : ℕ → Prop
  | 0 => walkIndex mode 0 va ∈ page.leafIndices (walkIndex mode 0 linAddr)
  | level + 1 =>
      if level + 1 = page.ptLeafLevel then
        walkIndex mode (level + 1) va ∈ page.leafIndices (walkIndex mode (level + 1) linAddr)
      else walkIndex mode (level + 1) va = walkIndex mode (level + 1) linAddr ∧
        CoversAt mode page linAddr va level

variable {mode : RiscvPagingModes} {base base' : PTTable} {level va : ℕ}

theorem reachesLeaf_zero :
    ReachesLeaf mode 0 base va ↔ ∃ baseAddr, base.slot (walkIndex mode 0 va) = .leaf baseAddr := by
  unfold ReachesLeaf
  rw [walk, PTTable.slot]
  cases base.getEntry (walkIndex mode 0 va) with
  | none => simp
  | some entry => cases hleaf : entry.leaf <;> simp [hleaf]

theorem reachesLeaf_succ :
    ReachesLeaf mode (level + 1) base va ↔
      (∃ baseAddr, base.slot (walkIndex mode (level + 1) va) = .leaf baseAddr) ∨
      ∃ next, base.slot (walkIndex mode (level + 1) va) = .table next ∧ ReachesLeaf mode level next va := by
  unfold ReachesLeaf
  rw [walk, PTTable.slot]
  cases base.getEntry (walkIndex mode (level + 1) va) with
  | none => simp
  | some entry => cases hleaf : entry.leaf <;> simp [hleaf]

theorem not_reachesLeaf_fresh (baseAddr : ℕ) (leaf : Bool) (level : ℕ) :
    ¬ReachesLeaf mode level (PTTable.fresh baseAddr leaf) va := by
  cases level with
  | zero => simp [reachesLeaf_zero]
  | succ level => simp [reachesLeaf_succ]

/-- The slot of the address at a level decides whether a walk from there reaches a leaf. -/
theorem reachesLeaf_congr (h : base'.slot (walkIndex mode level va) = base.slot (walkIndex mode level va)) :
    ReachesLeaf mode level base' va ↔ ReachesLeaf mode level base va := by
  cases level with
  | zero => rw [reachesLeaf_zero, reachesLeaf_zero, h]
  | succ level => rw [reachesLeaf_succ, reachesLeaf_succ, h]

theorem reachesLeaf_of_leaf {baseAddr : ℕ} (h : base.slot (walkIndex mode level va) = .leaf baseAddr) :
    ReachesLeaf mode level base va := by
  cases level with
  | zero => exact reachesLeaf_zero.mpr ⟨_, h⟩
  | succ level => exact reachesLeaf_succ.mpr (Or.inl ⟨_, h⟩)

theorem reachesLeaf_of_table {next : PTTable} (h : base.slot (walkIndex mode (level + 1) va) = .table next) :
    ReachesLeaf mode (level + 1) base va ↔ ReachesLeaf mode level next va := by
  rw [reachesLeaf_succ, h]
  simp

theorem reachesLeaf_of_missing (h : base.slot (walkIndex mode level va) = .missing) :
    ¬ReachesLeaf mode level base va := by
  cases level with
  | zero => simp [reachesLeaf_zero, h]
  | succ level => simp [reachesLeaf_succ, h]

variable {featmgr : FeatMgr} {info : MapInfo} {page : Page} {linAddr : ℕ} {state state' : State}

theorem calcIndexFromVa_walkIndex {index : ℕ} (hlevel : level < info.pagingMode.maxLevels)
    (hlin : page.linAddr = some linAddr) (h : calcIndexFromVa info.pagingMode page level = .ok index) :
    index = walkIndex info.pagingMode level linAddr := by
  obtain ⟨linAddr', hlin', rfl⟩ := calcIndexFromVa_ok hlevel h
  obtain rfl := Option.some.inj (hlin.symm.trans hlin')
  exact (walkIndex_eq hlevel linAddr).symm

theorem createPtLeaf_reaches (hlevel : level < info.pagingMode.maxLevels) (hlin : page.linAddr = some linAddr)
    (h : createPtLeaf featmgr info page level base state = .ok (base', state')) (va : ℕ) :
    ReachesLeaf info.pagingMode level base' va ↔ ReachesLeaf info.pagingMode level base va ∨
      walkIndex info.pagingMode level va ∈ page.leafIndices (walkIndex info.pagingMode level linAddr) := by
  obtain ⟨⟨physAddr, index, -, hindex, hslots⟩, -⟩ := createPtLeaf_ok h
  obtain rfl := calcIndexFromVa_walkIndex hlevel hlin hindex
  have hslot := hslots (walkIndex info.pagingMode level va)
  by_cases hmem : walkIndex info.pagingMode level va ∈
      page.leafIndices (walkIndex info.pagingMode level linAddr)
  · rw [if_pos hmem] at hslot
    exact iff_of_true (reachesLeaf_of_leaf hslot) (Or.inr hmem)
  · rw [if_neg hmem] at hslot
    rw [reachesLeaf_congr hslot]
    exact (or_iff_left hmem).symm

/-- Creating a page maps exactly its own addresses in addition. -/
theorem createLevels_reaches (hlevel : level < info.pagingMode.maxLevels) (hlin : page.linAddr = some linAddr)
    (h : createLevels featmgr info page level base state = .ok (base', state')) (va : ℕ) :
    ReachesLeaf info.pagingMode level base' va ↔ ReachesLeaf info.pagingMode level base va ∨
      page.CoversAt info.pagingMode linAddr va level := by
  induction level generalizing base base' state state' with
  | zero => exact createPtLeaf_reaches hlevel hlin h va
  | succ level ih =>
      rw [Page.CoversAt]
      by_cases hhere : level + 1 = page.ptLeafLevel
      · rw [createLevels, if_pos hhere] at h
        rw [if_pos hhere]
        exact createPtLeaf_reaches hlevel hlin h va
      · rw [if_neg hhere]
        obtain ⟨index, hindex, hcase⟩ := createLevels_succ_ok hhere h
        obtain rfl := calcIndexFromVa_walkIndex hlevel hlin hindex
        rcases hcase with ⟨rfl, baseAddr, hmet⟩ | ⟨sub, sub', current, final, hsub, hafter, hother, hbefore⟩
        · -- the leaf that was met maps what the page would
          refine (or_iff_left_of_imp ?_).symm
          rintro ⟨hsame, -⟩
          rw [← hsame] at hmet
          exact reachesLeaf_of_leaf hmet
        · by_cases hsame : walkIndex info.pagingMode (level + 1) va = walkIndex info.pagingMode (level + 1) linAddr
          · rw [← hsame] at hafter hbefore
            rw [reachesLeaf_of_table hafter, ih (by omega) hsub]
            have hold : ReachesLeaf info.pagingMode (level + 1) base va ↔
                ReachesLeaf info.pagingMode level sub va := by
              rcases hbefore with htable | ⟨hmissing, baseAddr, rfl⟩
              · exact reachesLeaf_of_table htable
              · exact iff_of_false (reachesLeaf_of_missing hmissing) (not_reachesLeaf_fresh _ _ _)
            rw [hold]
            simp [hsame]
          · rw [reachesLeaf_congr (hother _ hsame)]
            simp [hsame]

/-- The addresses a page maps. -/
def Page.Covers (mode : RiscvPagingModes) (page : Page) (va : ℕ) : Prop :=
  page.CoversAt mode (page.linAddr.getD 0) va (mode.maxLevels - 1)

theorem createLevels_linAddr (h : createLevels featmgr info page level base state = .ok (base', state')) :
    info.pagingMode ≠ .disable ∧ ∃ linAddr, page.linAddr = some linAddr := by
  have hindex : ∃ level index, calcIndexFromVa info.pagingMode page level = .ok index := by
    cases level with
    | zero =>
        obtain ⟨⟨-, index, -, hindex, -⟩, -⟩ := createPtLeaf_ok h
        exact ⟨_, index, hindex⟩
    | succ level =>
        by_cases hhere : level + 1 = page.ptLeafLevel
        · rw [createLevels, if_pos hhere] at h
          obtain ⟨⟨-, index, -, hindex, -⟩, -⟩ := createPtLeaf_ok h
          exact ⟨_, index, hindex⟩
        · obtain ⟨index, hindex, -⟩ := createLevels_succ_ok hhere h
          exact ⟨_, index, hindex⟩
  obtain ⟨level, index, hindex⟩ := hindex
  unfold calcIndexFromVa at hindex
  cases hbits : info.pagingMode.indexBits level with
  | error fault =>
      rw [hbits] at hindex
      cases hindex
  | ok range =>
      refine ⟨fun hdisable => ?_, ?_⟩
      · rw [hdisable, RiscvPagingModes.indexBits] at hbits
        cases hbits
      · rw [hbits] at hindex
        cases hlin : page.linAddr with
        | none =>
            simp only [hlin] at hindex
            cases hindex
        | some linAddr => exact ⟨linAddr, rfl⟩

/-- The walk from the root of a map. -/
def MapInfo.Reaches (info : MapInfo) (root : PTTable) (va : ℕ) : Prop :=
  ReachesLeaf info.pagingMode (info.pagingMode.maxLevels - 1) root va

theorem createPagetables_reaches {root root' : PTTable}
    (h : createPagetables featmgr info page (some root) state = .ok (root', state')) (va : ℕ) :
    info.Reaches root' va ↔ info.Reaches root va ∨ page.Covers info.pagingMode va := by
  obtain ⟨hmode, linAddr, hlin⟩ := createLevels_linAddr h
  have hpos : info.pagingMode.maxLevels - 1 < info.pagingMode.maxLevels := by
    cases hinfo : info.pagingMode with
    | disable => exact absurd hinfo hmode
    | _ => decide
  rw [Page.Covers, hlin]
  exact createLevels_reaches hpos hlin h va

/-- The mapped addresses after a list of pages. -/
theorem createAll_reaches {pages : List Page} {root : PTTable} {result : Option PTTable}
    (h : createAll featmgr info pages (some root) state = .ok (result, state')) :
    ∃ root', result = some root' ∧ ∀ va,
      info.Reaches root' va ↔ info.Reaches root va ∨ ∃ page ∈ pages, page.Covers info.pagingMode va := by
  induction pages generalizing root state with
  | nil =>
      cases h
      exact ⟨root, rfl, fun va => by simp⟩
  | cons page rest ih =>
      obtain ⟨⟨middle, current⟩, hpage, hrest⟩ := bind_ok h
      obtain ⟨root', hresult, hreaches⟩ := ih hrest
      refine ⟨root', hresult, fun va => ?_⟩
      rw [hreaches, createPagetables_reaches hpage, List.exists_mem_cons_iff, or_assoc]

theorem createAll_of_disable {pages : List Page} {root : PTTable} {result : Option PTTable}
    (hmode : info.pagingMode = .disable)
    (h : createAll featmgr info pages (some root) state = .ok (result, state')) :
    pages = [] ∧ result = some root ∧ state' = state := by
  cases pages with
  | nil =>
      cases h
      exact ⟨rfl, rfl, rfl⟩
  | cons page rest =>
      obtain ⟨⟨middle, current⟩, hpage, -⟩ := bind_ok h
      exact absurd hmode (createLevels_linAddr hpage).1

variable {pages pages' : List (String × Page)} {map' map'' : PageMap} {sptbr : ℕ}

/-- The finished tables map the addresses of the map's pages and of the pages added for its tables. -/
theorem createPagetables_covers
    (h : ((PageMap.new info pages).createBaseTable sptbr).createPagetables featmgr state = .ok (map', state')) :
    ∃ root, map'.basetable = some root ∧
      (∀ va, info.Reaches root va ↔ ∃ page ∈ map'.allPages pages, page.Covers info.pagingMode va) ∧
      ((∀ pair ∈ pages, pair.2.Quiet info) → map'.ptPages = []) := by
  by_cases hmode : info.pagingMode = .disable
  · unfold PageMap.createPagetables at h
    obtain ⟨⟨middle, current⟩, hfirst, h⟩ := bind_ok h
    obtain ⟨⟨result, final⟩, hsecond, h⟩ := bind_ok h
    cases h
    obtain ⟨hpages, rfl, rfl⟩ := createAll_of_disable hmode hfirst
    obtain ⟨-, rfl, rfl⟩ := createAll_of_disable hmode hsecond
    obtain rfl := List.map_eq_nil_iff.mp hpages
    refine ⟨_, rfl, fun va => iff_of_false (not_reachesLeaf_fresh _ _ _) ?_, fun _ => rfl⟩
    rintro ⟨page, hmem, -⟩
    cases hmem
  · obtain ⟨-, hquiet, middle, root, current, hroot, -, hfirst, hsecond, -⟩ := createPagetables_runs hmode h
    obtain ⟨middle', hmiddle, hfirstReaches⟩ := createAll_reaches hfirst
    obtain rfl := Option.some.inj hmiddle
    obtain ⟨root', hroot', hsecondReaches⟩ := createAll_reaches hsecond
    obtain rfl := Option.some.inj hroot'
    refine ⟨root, hroot, fun va => ?_, hquiet⟩
    have hempty : ¬info.Reaches (PTTable.fresh sptbr false) va := not_reachesLeaf_fresh _ _ _
    rw [hsecondReaches, hfirstReaches, or_iff_right hempty, PageMap.allPages, List.map_append]
    simp only [List.mem_append, or_and_right, exists_or]

/-- Pages that ask for no mapping of their entries map the same addresses in every order, whatever the
generator and the random choices return, and no page unmaps an address. -/
theorem createPagetables_order (hperm : pages.Perm pages') (hquiet : ∀ pair ∈ pages, pair.2.Quiet info)
    {state₁ state₂ final₁ final₂ : State}
    (h : ((PageMap.new info pages).createBaseTable sptbr).createPagetables featmgr state₁ = .ok (map', final₁))
    (h' : ((PageMap.new info pages').createBaseTable sptbr).createPagetables featmgr state₂ =
      .ok (map'', final₂)) :
    (∃ root root', map'.basetable = some root ∧ map''.basetable = some root' ∧
      ∀ va, info.Reaches root va ↔ info.Reaches root' va) ∧
    ∀ (page : Page) (root root' : PTTable) (state state' : State),
      createPagetables featmgr info page (some root) state = .ok (root', state') →
      ∀ va, info.Reaches root va → info.Reaches root' va := by
  constructor
  · obtain ⟨root, hroot, hreaches, hnone⟩ := createPagetables_covers h
    obtain ⟨root', hroot', hreaches', hnone'⟩ := createPagetables_covers h'
    refine ⟨root, root', hroot, hroot', fun va => ?_⟩
    rw [hreaches, hreaches', PageMap.allPages, PageMap.allPages, hnone hquiet,
      hnone' fun pair hpair => hquiet pair (hperm.mem_iff.mpr hpair), List.append_nil, List.append_nil]
    have hsame : ∀ page, page ∈ pages.map Prod.snd ↔ page ∈ pages'.map Prod.snd := fun page =>
      (hperm.map Prod.snd).mem_iff
    simp only [hsame]
  · intro page root root' state state' hpage va hva
    exact (createPagetables_reaches hpage va).mpr (Or.inl hva)

/-- A 2M page over a 4K page, and the other way round. -/
theorem createPagetables_order_nested :
    ∃ root root', (∃ map' final, ((PageMap.new ⟨"map_os", .sv39, false⟩
        [("small", .new "small" .s4kb 0x1000 0x80001000), ("large", .new "large" .s2mb 0 0x80200000)]).createBaseTable
          0x90000000).createPagetables {} (State.supply [0x90001000, 0x90002000] []) = .ok (map', final) ∧
        map'.basetable = some root) ∧
      (∃ map' final, ((PageMap.new ⟨"map_os", .sv39, false⟩
        [("large", .new "large" .s2mb 0 0x80200000), ("small", .new "small" .s4kb 0x1000 0x80001000)]).createBaseTable
          0x90000000).createPagetables {} (State.supply [0x90001000] []) = .ok (map', final) ∧
        map'.basetable = some root') ∧
      ∀ va, MapInfo.Reaches ⟨"map_os", .sv39, false⟩ root va ↔ MapInfo.Reaches ⟨"map_os", .sv39, false⟩ root' va := by
  have hok : (((PageMap.new ⟨"map_os", .sv39, false⟩
      [("small", .new "small" .s4kb 0x1000 0x80001000), ("large", .new "large" .s2mb 0 0x80200000)]).createBaseTable
        0x90000000).createPagetables {} (State.supply [0x90001000, 0x90002000] [])).toOption.isSome := by
    decide +kernel
  have hok' : (((PageMap.new ⟨"map_os", .sv39, false⟩
      [("large", .new "large" .s2mb 0 0x80200000), ("small", .new "small" .s4kb 0x1000 0x80001000)]).createBaseTable
        0x90000000).createPagetables {} (State.supply [0x90001000] [])).toOption.isSome := by
    decide +kernel
  obtain ⟨⟨map', final⟩, h⟩ := exists_ok hok
  obtain ⟨⟨map'', final'⟩, h'⟩ := exists_ok hok'
  obtain ⟨root, root', hroot, hroot', hreaches⟩ := (createPagetables_order (.swap _ _ []) (by
    simp only [List.forall_mem_cons, List.not_mem_nil, false_implies, implies_true, and_true]
    exact ⟨Or.inl rfl, Or.inl rfl⟩) h h').1
  exact ⟨root, root', ⟨map', final, h, hroot⟩, ⟨map'', final', h', hroot'⟩, hreaches⟩

/-- With `modify_pt` the order matters: the page added for a table exists only when the page that asks for
it is the one that makes the table. -/
theorem createPagetables_order_modifyPt :
    (walkAfter [("first", { Page.new "first" .s4kb 0 0x80000000 with
        attrs := { PageAttrs.default 0 with modifyPt := some 1 } }), ("second", .new "second" .s4kb 0x1000 0x80001000)]
        (State.supply [0x90001000, 0x90002000] [0x5000, 0x6000, 0x7000]) 0x6000 =
          some (.leaf 0 0x90001000)) ∧
    walkAfter [("second", .new "second" .s4kb 0x1000 0x80001000), ("first", { Page.new "first" .s4kb 0 0x80000000 with
        attrs := { PageAttrs.default 0 with modifyPt := some 1 } })]
        (State.supply [0x90001000, 0x90002000] [0x5000, 0x6000, 0x7000]) 0x6000 = some .missing := by
  decide +kernel

end Riescue.Pagetables
