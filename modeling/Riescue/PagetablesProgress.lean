import Riescue.PagetablesWalk

/-! What the builder takes from its surroundings: every new table lies at an address the generator
returned, with the secure bit set or not, and a page is added to `pt_pages` only for a page that asks for
it. -/

namespace Riescue.Pagetables
open Paging Fallible

/-- A table address with the secure bit set, so that an address and its secure alias agree. -/
def frame (addr : ℕ) : ℕ := addr ||| secureBit

theorem frame_secure (addr : ℕ) (secure : Bool) : frame (if secure then addr ||| secureBit else addr) = frame addr := by
  cases secure with
  | true => simp only [frame, if_true, Nat.or_assoc, Nat.or_self]
  | false => rfl

/-- A page as `add_raw_pt_page` makes it. -/
structure Page.Raw (page : Page) : Prop where
  pagesize : page.pagesize = .s4kb
  placed : ∃ linAddr physAddr, page.linAddr = some linAddr ∧ page.physAddr = some physAddr
  secure : page.attrs.secure = some 0
  modifyPt : page.attrs.modifyPt = some 0

/-- From one state to a later one, with the addresses of the tables made between them. `quiet` says that
no page in between asks for its entries to be mapped. -/
structure Progress (quiet : Prop) (state state' : State) (fresh : List ℕ) : Prop where
  physical : state.physical.map frame = fresh.map frame ++ state'.physical.map frame
  ptPages : ∀ pair ∈ state'.ptPages, pair ∈ state.ptPages ∨ pair.2.Raw
  same : quiet → state'.ptPages = state.ptPages

namespace Progress
variable {quiet : Prop} {state state' state'' : State} {fresh fresh' : List ℕ}

theorem rng (quiet : Prop) (state : State) (rng : RandNum) : Progress quiet state { state with rng } [] :=
  ⟨rfl, fun _ => Or.inl, fun _ => rfl⟩

theorem trans (h : Progress quiet state state' fresh) (h' : Progress quiet state' state'' fresh') :
    Progress quiet state state'' (fresh ++ fresh') where
  physical := by rw [h.physical, h'.physical, List.map_append, List.append_assoc]
  ptPages pair hpair := by
    rcases h'.ptPages pair hpair with hmem | hraw
    · exact h.ptPages pair hmem
    · exact Or.inr hraw
  same hquiet := (h'.same hquiet).trans (h.same hquiet)

theorem mono {quiet' : Prop} (h : Progress quiet state state' fresh) (himp : quiet' → quiet) :
    Progress quiet' state state' fresh :=
  ⟨h.physical, h.ptPages, fun hquiet => h.same (himp hquiet)⟩

end Progress

variable {featmgr : FeatMgr} {map : MapInfo} {page : Page} {level index : ℕ} {base base' : PTTable}
  {state state' : State}

/-- No page is added for the tables of a page. -/
def Page.Quiet (map : MapInfo) (page : Page) : Prop := page.attrs.modifyPt.getD 0 = 0 ∨ map.gMap = true

theorem generateTable_ok {generated : ℕ × State} (h : state.generateTable page level = .ok generated) :
    state.physical = generated.1 :: generated.2.physical ∧ generated.2.ptPages = state.ptPages := by
  unfold State.generateTable at h
  split at h
  · cases h
  · rename_i hlist
    cases h
    exact ⟨hlist, rfl⟩

theorem addRandomAddr_ok {name : String} (h : state.addRandomAddr name = .ok state') :
    state'.physical = state.physical ∧ state'.ptPages = state.ptPages := by
  unfold State.addRandomAddr at h
  split_ifs at h
  cases h
  exact ⟨rfl, rfl⟩

theorem addRawPtPage_ok {linearName physicalName : String} {linearAddr physicalAddr : ℕ}
    (h : state.addRawPtPage featmgr linearName physicalName linearAddr physicalAddr = .ok state') :
    state'.physical = state.physical ∧
      ∀ pair ∈ state'.ptPages, pair ∈ state.ptPages ∨ pair.2.Raw := by
  unfold State.addRawPtPage at h
  obtain ⟨middle, hlinear, hphysical⟩ := bind_ok h
  obtain ⟨hsame, hpages⟩ := addRandomAddr_ok hlinear
  obtain ⟨hsame', hpages'⟩ := addRandomAddr_ok hphysical
  refine ⟨hsame'.trans hsame, fun pair hpair => ?_⟩
  rw [hpages', hpages] at hpair
  refine (OrderedDict.mem_insert hpair).imp_right fun hvalue => ?_
  rw [hvalue]
  refine ⟨rfl, ⟨_, _, rfl, rfl⟩, ?_, ?_⟩
  · dsimp only
    split_ifs <;> rfl
  · dsimp only
    split_ifs <;> rfl

theorem addModifyPage_ok {ptAttr : PTAttrs} (hattr : ptAttr.modifyPt = page.attrs.modifyPt.getD 0)
    (h : state.addModifyPage featmgr map ptAttr page level base index = .ok state') :
    Progress (page.Quiet map) state state' [] := by
  unfold State.addModifyPage at h
  split_ifs at h with hmodify
  · obtain ⟨⟨linAddr, generated⟩, hlinear, hraw⟩ := bind_ok h
    obtain ⟨hphysical, hpages⟩ := addRawPtPage_ok hraw
    unfold State.generateLinear at hlinear
    cases hlist : state.linear with
    | nil =>
        rw [hlist] at hlinear
        cases hlinear
    | cons addr rest =>
        rw [hlist] at hlinear
        cases hlinear
        refine ⟨by rw [hphysical]; rfl, hpages, fun hquiet => ?_⟩
        rw [hattr] at hmodify
        rcases hquiet with hquiet | hquiet
        · exact absurd hquiet hmodify.1
        · exact absurd hquiet hmodify.2
  · cases h
    exact Progress.rng _ state state.rng

theorem createPtLeaf_progress (h : createPtLeaf featmgr map page level base state = .ok (base', state')) :
    Progress (page.Quiet map) state state' [] := by
  unfold createPtLeaf at h
  obtain ⟨index, -, h⟩ := bind_ok h
  obtain ⟨current, hmodify, h⟩ := bind_ok h
  have hstep := addModifyPage_ok (leafAttrs_fixed state.rng featmgr level page).2 hmodify
  cases hphys : page.physAddr with
  | none =>
      rw [hphys] at h
      cases h
  | some physAddr =>
      rw [hphys] at h
      obtain ⟨-, rfl⟩ := Prod.mk.inj (Except.ok.inj h)
      exact ((Progress.rng _ state _).trans hstep).trans (Progress.rng _ current _)

/-! The addresses of the tables below a table. -/

/-- The addresses of the tables an entry leads to. -/
def entryAddresses (depth : ℕ) (entry : PTEntry) : List ℕ :=
  if entry.leaf then [] else addresses depth entry.basetable

theorem addresses_succ (depth : ℕ) (base : PTTable) :
    addresses (depth + 1) base =
      base.baseAddr :: base.table.flatMap fun pair => entryAddresses depth pair.2 := by
  rw [addresses, tables, List.map_cons, List.map_flatMap]
  congr 2
  funext pair
  unfold entryAddresses
  split_ifs <;> rfl

@[simp] theorem addresses_fresh (depth baseAddr : ℕ) (leaf : Bool) :
    addresses (depth + 1) (PTTable.fresh baseAddr leaf) = [baseAddr] := by
  rw [addresses_succ]
  rfl

/-- An assignment adds the tables its entry leads to beyond those of the entry it replaces. -/
theorem count_addresses_insertEntry_le {depth addr extra : ℕ} {entry : PTEntry}
    (h : (entryAddresses depth entry).count addr ≤
      extra + ((base.getEntry index).elim 0 fun old => (entryAddresses depth old).count addr)) :
    (addresses (depth + 1) (base.insertEntry entry index)).count addr ≤
      extra + (addresses (depth + 1) base).count addr := by
  have hdict : ((OrderedDict.insert base.table index entry).flatMap
      fun pair => entryAddresses depth pair.2).count addr ≤
        extra + (base.table.flatMap fun pair => entryAddresses depth pair.2).count addr :=
    OrderedDict.count_flatMap_insert_le h
  have hafter : addresses (depth + 1) (base.insertEntry entry index) = base.baseAddr ::
      (OrderedDict.insert base.table index entry).flatMap fun pair => entryAddresses depth pair.2 :=
    addresses_succ depth (base.insertEntry entry index)
  rw [hafter, addresses_succ depth base, List.count_cons, List.count_cons]
  omega

theorem count_addresses_insertLeaf_le {entry : PTEntry} (hleaf : entry.leaf = true) (base : PTTable)
    (depth index addr : ℕ) :
    (addresses (depth + 1) (base.insertEntry entry index)).count addr ≤
      (addresses (depth + 1) base).count addr := by
  have hnone : entryAddresses depth entry = [] := if_pos hleaf
  have hcount : (entryAddresses depth entry).count addr ≤
      0 + ((base.getEntry index).elim 0 fun old => (entryAddresses depth old).count addr) := by
    rw [hnone]
    exact Nat.zero_le _
  have hle := count_addresses_insertEntry_le hcount
  omega

theorem count_addresses_insertNapot_le {n : Option ℕ} {napotPhysAddr baseIndex : ℕ} (numbers : List ℕ)
    (base : PTTable) (rng : RandNum) (depth addr : ℕ) :
    (addresses (depth + 1)
      (insertNapot featmgr page level n napotPhysAddr baseIndex numbers base rng).1).count addr ≤
        (addresses (depth + 1) base).count addr := by
  induction numbers generalizing base rng with
  | nil => exact Nat.le_refl _
  | cons i numbers ih =>
      rw [insertNapot]
      exact (ih _ _).trans (count_addresses_insertLeaf_le rfl base depth _ addr)

theorem count_addresses_insert_le (ptAttr : PTAttrs) (physAddr index : ℕ) (base : PTTable) (rng : RandNum)
    (depth addr : ℕ) :
    (addresses (depth + 1) (insertLeaf featmgr page level ptAttr physAddr index base rng).1).count addr ≤
      (addresses (depth + 1) base).count addr := by
  by_cases hsize : page.pagesize = .s64kb
  · simp only [insertLeaf, hsize, if_true]
    exact count_addresses_insertNapot_le _ base rng depth addr
  · simp only [insertLeaf, hsize, if_false]
    exact count_addresses_insertLeaf_le rfl base depth index addr

theorem count_addresses_leaf_le (h : createPtLeaf featmgr map page level base state = .ok (base', state'))
    (depth addr : ℕ) : (addresses (depth + 1) base').count addr ≤ (addresses (depth + 1) base).count addr := by
  unfold createPtLeaf at h
  obtain ⟨index, -, h⟩ := bind_ok h
  obtain ⟨current, -, h⟩ := bind_ok h
  cases hphys : page.physAddr with
  | none =>
      rw [hphys] at h
      cases h
  | some physAddr =>
      rw [hphys] at h
      obtain ⟨rfl, -⟩ := Prod.mk.inj (Except.ok.inj h)
      exact count_addresses_insert_le _ physAddr index base _ depth addr

/-- A non-leaf request adds the table it makes, if it makes one. -/
theorem createPtNonLeaf_progress {next : Option (ℕ × PTEntry)}
    (h : createPtNonLeaf featmgr map page level base state = .ok (base', next, state')) :
    ∃ fresh, Progress (page.Quiet map) state state' fresh ∧
      (∀ depth addr, (addresses (depth + 1 + 1) base').count addr ≤
        fresh.count addr + (addresses (depth + 1 + 1) base).count addr) ∧
      ∀ index entry, next = some (index, entry) → base'.getEntry index = some entry ∧ entry.leaf = false := by
  unfold createPtNonLeaf at h
  obtain ⟨index, hindex, h⟩ := bind_ok h
  cases hentry : base.getEntry index with
  | some entry =>
      rw [hentry] at h
      cases h
      refine ⟨[], Progress.rng _ state _, fun depth addr => ?_, ?_⟩
      · rw [List.count_nil, Nat.zero_add]
      · intro index' entry' hnext
        split_ifs at hnext with hleaf
        cases hnext
        exact ⟨hentry, by simpa using hleaf⟩
  | none =>
      rw [hentry] at h
      obtain ⟨generated, hgenerate, h⟩ := bind_ok h
      obtain ⟨added, hmodify, h⟩ := bind_ok h
      cases h
      have hmodified := addModifyPage_ok (PTAttrs.init_fixed state.rng featmgr level page false).2 hmodify
      obtain ⟨hphysical, hpages⟩ := generateTable_ok hgenerate
      generalize hsecure : (drawSecure featmgr (PTAttrs.init state.rng featmgr level page false).2).1 = secure
      refine ⟨[if secure then generated.1 ||| secureBit else generated.1], ⟨?_, ?_, ?_⟩,
        fun depth addr => ?_, ?_⟩
      · rw [List.map_singleton, frame_secure, List.singleton_append]
        exact (congrArg (List.map frame) hphysical).trans (congrArg _ hmodified.physical)
      · intro pair hpair
        rw [show state.ptPages = generated.2.ptPages from hpages.symm]
        exact hmodified.ptPages pair hpair
      · exact fun hquiet => (hmodified.same hquiet).trans hpages
      · refine count_addresses_insertEntry_le ?_
        rw [hentry]
        simp [entryAddresses]
      · intro index' entry' hnext
        cases hnext
        exact ⟨PTTable.getEntry_insertEntry_self _ _ _, rfl⟩

/-- Creating a page adds the tables that were made for it. -/
theorem createLevels_progress (h : createLevels featmgr map page level base state = .ok (base', state')) :
    ∃ fresh, Progress (page.Quiet map) state state' fresh ∧
      ∀ addr, (addresses (level + 1) base').count addr ≤
        fresh.count addr + (addresses (level + 1) base).count addr := by
  induction level generalizing base base' state state' with
  | zero =>
      refine ⟨[], createPtLeaf_progress h, fun addr => ?_⟩
      simpa using count_addresses_leaf_le h 0 addr
  | succ level ih =>
      by_cases hhere : level + 1 = page.ptLeafLevel
      · rw [createLevels, if_pos hhere] at h
        refine ⟨[], createPtLeaf_progress h, fun addr => ?_⟩
        simpa using count_addresses_leaf_le h (level + 1) addr
      · rw [createLevels, if_neg hhere] at h
        obtain ⟨⟨middle, next, current⟩, hnonleaf, hrest⟩ := bind_ok h
        obtain ⟨fresh, hprogress, hcount, hnext⟩ := createPtNonLeaf_progress hnonleaf
        cases next with
        | none =>
            cases hrest
            exact ⟨fresh, hprogress, hcount level⟩
        | some pair =>
            obtain ⟨index, entry⟩ := pair
            obtain ⟨hentry, hleaf⟩ := hnext index entry rfl
            obtain ⟨⟨sub, final⟩, hsub, hfinal⟩ := bind_ok hrest
            cases hfinal
            obtain ⟨fresh', hprogress', hcount'⟩ := ih hsub
            refine ⟨fresh ++ fresh', hprogress.trans hprogress', fun addr => ?_⟩
            have hassign : (addresses (level + 1 + 1)
                (middle.insertEntry { entry with basetable := sub } index)).count addr ≤
                  fresh'.count addr + (addresses (level + 1 + 1) middle).count addr := by
              refine count_addresses_insertEntry_le ?_
              rw [hentry]
              simpa [entryAddresses, hleaf] using hcount' addr
            have hmiddle := hcount level addr
            rw [List.count_append]
            omega

end Riescue.Pagetables
