import Riescue.LibExcept
import Riescue.LibRadix
import Riescue.Pagetables

/-! What the steps of the page table builder do to the entries of a table: a leaf request sets the
indices of the page, a non-leaf request keeps a leaf it meets and otherwise leads into the one table
under its index. -/

namespace Riescue.Pagetables
open Paging Fallible

/-- What a table shows under an index. -/
def PTTable.slot (base : PTTable) (index : ℕ) : Radix.Slot PTTable ℕ :=
  match base.getEntry index with
  | none => .missing
  | some entry => if entry.leaf then .leaf entry.basetable.baseAddr else .table entry.basetable

namespace PTTable
variable {base : PTTable} {entry : PTEntry} {index other : ℕ}

@[simp] theorem slot_fresh (baseAddr : ℕ) (leaf : Bool) (index : ℕ) :
    (fresh baseAddr leaf).slot index = .missing := rfl

theorem slot_of_none (h : base.getEntry index = none) : base.slot index = .missing := by
  rw [slot, h]

theorem slot_of_leaf (h : base.getEntry index = some entry) (hleaf : entry.leaf = true) :
    base.slot index = .leaf entry.basetable.baseAddr := by
  rw [slot, h]
  exact if_pos hleaf

theorem slot_of_table (h : base.getEntry index = some entry) (hleaf : entry.leaf = false) :
    base.slot index = .table entry.basetable := by
  rw [slot, h]
  simp [hleaf]

theorem slot_insertEntry_ne (hne : other ≠ index) :
    (base.insertEntry entry index).slot other = base.slot other := by
  rw [slot, slot, getEntry_insertEntry_ne base entry hne]

end PTTable

namespace PTAttrs

theorem resolveAccessed_fixed (featmgr : FeatMgr) (attrs : PTAttrs) (rng : RandNum) (attr : Attr) :
    (resolveAccessed featmgr attrs rng attr).1.secure = attrs.secure ∧
      (resolveAccessed featmgr attrs rng attr).1.modifyPt = attrs.modifyPt := by
  unfold resolveAccessed
  split_ifs <;> exact ⟨rfl, rfl⟩

theorem setLevel_fixed (featmgr : FeatMgr) (level : ℕ) (names : List Attr) (attrs : PTAttrs) (rng : RandNum) :
    (setLevel featmgr level names attrs rng).1.secure = attrs.secure ∧
      (setLevel featmgr level names attrs rng).1.modifyPt = attrs.modifyPt := by
  induction names generalizing attrs rng with
  | nil => exact ⟨rfl, rfl⟩
  | cons attr names ih =>
      obtain ⟨hsecure, hmodify⟩ := resolveAccessed_fixed featmgr attrs rng attr
      rw [setLevel]
      exact ⟨(ih _ _).1.trans hsecure, (ih _ _).2.trans hmodify⟩

/-- The random choices of an entry's attributes do not touch `secure` and `modify_pt`. -/
theorem init_fixed (rng : RandNum) (featmgr : FeatMgr) (level : ℕ) (page : Page) (leaf : Bool) :
    (init rng featmgr level page leaf).1.secure = page.attrs.secure.getD 0 ∧
      (init rng featmgr level page leaf).1.modifyPt = page.attrs.modifyPt.getD 0 :=
  setLevel_fixed featmgr level Attr.all (ofPage page leaf) rng

end PTAttrs

/-- The base address of a page's leaf. -/
def Page.leafBase (page : Page) (physAddr : ℕ) : ℕ :=
  let physAddr := if page.attrs.secure.getD 0 ≠ 0 then physAddr ||| secureBit else physAddr
  if page.pagesize = .s64kb then Nat.ldiff physAddr 0xF000 ||| 0x8000 else physAddr

/-- The indices a page's leaf stands at. -/
def Page.leafIndices (page : Page) (index : ℕ) : List ℕ :=
  if page.pagesize = .s64kb then (List.range 16).map (Nat.ldiff index 0xF + ·) else [index]

variable {featmgr : FeatMgr} {map : MapInfo} {page : Page} {level index : ℕ} {base base' : PTTable}
  {state state' : State}

theorem calcIndexFromVa_ok (hlevel : level < map.pagingMode.maxLevels)
    (h : calcIndexFromVa map.pagingMode page level = .ok index) :
    ∃ linAddr, page.linAddr = some linAddr ∧
      index = linAddr / 2 ^ 12 / map.pagingMode.fanout ^ level % map.pagingMode.fanout := by
  rw [calcIndexFromVa, RiscvPagingModes.indexBits_of_lt hlevel] at h
  dsimp only at h
  cases hlin : page.linAddr with
  | none =>
      rw [hlin] at h
      cases h
  | some linAddr =>
      rw [hlin] at h
      exact ⟨linAddr, rfl, (Except.ok.inj h).symm.trans (bits_indexBits _ _ _)⟩

theorem insertNapot_slot {n : Option ℕ} {napotPhysAddr baseIndex : ℕ} (numbers : List ℕ) (base : PTTable)
    (rng : RandNum) (other : ℕ) :
    (insertNapot featmgr page level n napotPhysAddr baseIndex numbers base rng).1.slot other =
      if other ∈ numbers.map (baseIndex + ·) then .leaf napotPhysAddr else base.slot other := by
  induction numbers generalizing base rng with
  | nil => rfl
  | cons i numbers ih =>
      rw [insertNapot]
      dsimp only
      rw [ih, List.map_cons]
      by_cases hrest : other ∈ numbers.map (baseIndex + ·)
      · rw [if_pos hrest, if_pos (List.mem_cons_of_mem _ hrest)]
      · rw [if_neg hrest]
        by_cases hhere : other = baseIndex + i
        · rw [if_pos (List.mem_cons.mpr (Or.inl hhere)), hhere]
          exact PTTable.slot_of_leaf (PTTable.getEntry_insertEntry_self _ _ _) rfl
        · have hnot : other ∉ (baseIndex + i) :: numbers.map (baseIndex + ·) := by
            rw [List.mem_cons, not_or]
            exact ⟨hhere, hrest⟩
          rw [if_neg hnot]
          exact PTTable.slot_insertEntry_ne hhere

theorem leafAttrs_fixed (rng : RandNum) (featmgr : FeatMgr) (level : ℕ) (page : Page) :
    (leafAttrs rng featmgr level page).1.secure = page.attrs.secure.getD 0 ∧
      (leafAttrs rng featmgr level page).1.modifyPt = page.attrs.modifyPt.getD 0 := by
  have hinit := PTAttrs.init_fixed rng featmgr level page true
  unfold leafAttrs
  dsimp only
  split_ifs <;> exact hinit

theorem insertLeaf_slot {ptAttr : PTAttrs} (hsecure : ptAttr.secure = page.attrs.secure.getD 0)
    (physAddr index : ℕ) (base : PTTable) (rng : RandNum) (other : ℕ) :
    (insertLeaf featmgr page level ptAttr physAddr index base rng).1.slot other =
      if other ∈ page.leafIndices index then .leaf (page.leafBase physAddr) else base.slot other := by
  by_cases hsize : page.pagesize = .s64kb
  · simp only [insertLeaf, Page.leafIndices, Page.leafBase, hsize, if_true, hsecure, insertNapot_slot]
  · simp only [insertLeaf, Page.leafIndices, Page.leafBase, hsize, if_false, hsecure, List.mem_singleton]
    by_cases hindex : other = index
    · rw [if_pos hindex, hindex]
      exact PTTable.slot_of_leaf (PTTable.getEntry_insertEntry_self _ _ _) rfl
    · rw [if_neg hindex]
      exact PTTable.slot_insertEntry_ne hindex

theorem insertNapot_baseAddr {n : Option ℕ} {napotPhysAddr baseIndex : ℕ} (numbers : List ℕ) (base : PTTable)
    (rng : RandNum) :
    (insertNapot featmgr page level n napotPhysAddr baseIndex numbers base rng).1.baseAddr = base.baseAddr := by
  induction numbers generalizing base rng with
  | nil => rfl
  | cons i numbers ih =>
      rw [insertNapot]
      exact ih _ _

theorem insertLeaf_baseAddr (ptAttr : PTAttrs) (physAddr index : ℕ) (base : PTTable) (rng : RandNum) :
    (insertLeaf featmgr page level ptAttr physAddr index base rng).1.baseAddr = base.baseAddr := by
  by_cases hsize : page.pagesize = .s64kb
  · simp only [insertLeaf, hsize, if_true]
    exact insertNapot_baseAddr _ base rng
  · simp only [insertLeaf, hsize, if_false]
    rfl

/-- A leaf request sets the indices of the page to its leaf, whatever stood there. -/
theorem createPtLeaf_ok (h : createPtLeaf featmgr map page level base state = .ok (base', state')) :
    (∃ physAddr index, page.physAddr = some physAddr ∧
      calcIndexFromVa map.pagingMode page level = .ok index ∧
      ∀ other, base'.slot other =
        if other ∈ page.leafIndices index then .leaf (page.leafBase physAddr) else base.slot other) ∧
      base'.baseAddr = base.baseAddr := by
  unfold createPtLeaf at h
  obtain ⟨index, hindex, h⟩ := bind_ok h
  obtain ⟨current, -, h⟩ := bind_ok h
  cases hphys : page.physAddr with
  | none =>
      rw [hphys] at h
      cases h
  | some physAddr =>
      rw [hphys] at h
      obtain ⟨rfl, -⟩ := Prod.mk.inj (Except.ok.inj h)
      exact ⟨⟨physAddr, index, rfl, hindex, fun other =>
        insertLeaf_slot (leafAttrs_fixed _ _ _ _).1 physAddr index base _ other⟩,
        insertLeaf_baseAddr _ physAddr index base _⟩

/-- A non-leaf request that succeeds either meets a leaf and changes nothing, or leads into the table
under the index: the one that stands there, or a new empty one. -/
theorem createPtNonLeaf_ok {next : Option (ℕ × PTEntry)}
    (h : createPtNonLeaf featmgr map page level base state = .ok (base', next, state')) :
    base'.baseAddr = base.baseAddr ∧ ∃ index, calcIndexFromVa map.pagingMode page level = .ok index ∧
      ((next = none ∧ base' = base ∧ ∃ baseAddr, base.slot index = .leaf baseAddr) ∨
        ∃ entry, next = some (index, entry) ∧ entry.leaf = false ∧
          (∀ other, other ≠ index → base'.slot other = base.slot other) ∧
          (base.slot index = .table entry.basetable ∨
            base.slot index = .missing ∧ ∃ baseAddr, entry.basetable = PTTable.fresh baseAddr false)) := by
  unfold createPtNonLeaf at h
  obtain ⟨index, hindex, h⟩ := bind_ok h
  cases hentry : base.getEntry index with
  | some entry =>
      rw [hentry] at h
      cases h
      refine ⟨rfl, index, hindex, ?_⟩
      cases hleaf : entry.leaf with
      | true => exact Or.inl ⟨rfl, rfl, _, PTTable.slot_of_leaf hentry hleaf⟩
      | false =>
          exact Or.inr ⟨entry, rfl, hleaf, fun _ _ => rfl, Or.inl (PTTable.slot_of_table hentry hleaf)⟩
  | none =>
      rw [hentry] at h
      obtain ⟨generated, -, h⟩ := bind_ok h
      obtain ⟨added, -, h⟩ := bind_ok h
      cases h
      refine ⟨rfl, index, hindex, ?_⟩
      exact Or.inr ⟨_, rfl, rfl, fun _ hne => PTTable.slot_insertEntry_ne hne,
        Or.inr ⟨PTTable.slot_of_none hentry, _, rfl⟩⟩

/-- One turn of the loop above the leaf level. -/
theorem createLevels_succ_ok (hlevel : level + 1 ≠ page.ptLeafLevel)
    (h : createLevels featmgr map page (level + 1) base state = .ok (base', state')) :
    ∃ index, calcIndexFromVa map.pagingMode page (level + 1) = .ok index ∧
      ((base' = base ∧ ∃ baseAddr, base.slot index = .leaf baseAddr) ∨
        ∃ sub sub' current final, createLevels featmgr map page level sub current = .ok (sub', final) ∧
          base'.slot index = .table sub' ∧
          (∀ other, other ≠ index → base'.slot other = base.slot other) ∧
          (base.slot index = .table sub ∨
            base.slot index = .missing ∧ ∃ baseAddr, sub = PTTable.fresh baseAddr false)) := by
  rw [createLevels, if_neg hlevel] at h
  obtain ⟨⟨middle, next, current⟩, hnonleaf, hrest⟩ := bind_ok h
  obtain ⟨-, index, hindex, hcase⟩ := createPtNonLeaf_ok hnonleaf
  refine ⟨index, hindex, ?_⟩
  rcases hcase with ⟨rfl, rfl, hmet⟩ | ⟨entry, rfl, hleaf, hother, hnext⟩
  · cases hrest
    exact Or.inl ⟨rfl, hmet⟩
  · obtain ⟨⟨sub', final⟩, hsub, hfinal⟩ := bind_ok hrest
    cases hfinal
    refine Or.inr ⟨entry.basetable, sub', current, state', hsub, ?_, fun other hne => ?_, hnext⟩
    · exact PTTable.slot_of_table (PTTable.getEntry_insertEntry_self _ _ _) hleaf
    · exact (PTTable.slot_insertEntry_ne hne).trans (hother other hne)

/-- A page leaves the table it starts from at its address. -/
theorem createLevels_baseAddr (h : createLevels featmgr map page level base state = .ok (base', state')) :
    base'.baseAddr = base.baseAddr := by
  cases level with
  | zero => exact (createPtLeaf_ok h).2
  | succ level =>
      rw [createLevels] at h
      split_ifs at h
      · exact (createPtLeaf_ok h).2
      · obtain ⟨⟨middle, next, current⟩, hnonleaf, hrest⟩ := bind_ok h
        have hmiddle := (createPtNonLeaf_ok hnonleaf).1
        cases next with
        | none =>
            cases hrest
            exact hmiddle
        | some pair =>
            obtain ⟨sub, -, hfinal⟩ := bind_ok hrest
            cases hfinal
            exact hmiddle

end Riescue.Pagetables
