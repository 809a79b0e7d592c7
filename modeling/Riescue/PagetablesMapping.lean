import Riescue.PagetablesStep

/-! The entries that pages put into the table tree. A page stands for one key, the indices on the way to
its leaf, or for sixteen neighbouring keys; creating it adds these keys to a tree that holds the keys of
other pages, as long as no key of it is the beginning of another. -/

namespace Riescue.Pagetables
open Paging Fallible Radix

theorem fanout_pos (mode : RiscvPagingModes) : 0 < mode.fanout := Nat.two_pow_pos _

theorem sixteen_dvd_fanout (mode : RiscvPagingModes) : 16 ∣ mode.fanout := by cases mode <;> decide

/-- Clearing the low bits rounds down. -/
theorem ldiff_low (value width : ℕ) : Nat.ldiff value (2 ^ width - 1) = 2 ^ width * (value / 2 ^ width) := by
  apply Nat.eq_of_testBit_eq
  intro i
  rw [Nat.testBit_ldiff, Nat.testBit_two_pow_sub_one, Nat.testBit_two_pow_mul, Nat.testBit_div_two_pow]
  by_cases hlow : i < width
  · simp [hlow, Nat.not_le.mpr hlow]
  · have hle : width ≤ i := Nat.not_lt.mp hlow
    simp [hlow, hle, Nat.sub_add_cancel hle]

/-- The numbers of the 4K pages whose index paths lead to the leaf entries of a page. -/
def Page.slots (page : Page) (linAddr : ℕ) : List ℕ :=
  if page.pagesize = .s64kb then (List.range 16).map (16 * (linAddr / 2 ^ 12 / 16) + ·)
  else [linAddr / 2 ^ 12]

/-- The keys of a page below a table of a level, with the base address of its leaf. -/
def Page.entriesAt (mode : RiscvPagingModes) (page : Page) (linAddr physAddr level : ℕ) :
    List (List ℕ × ℕ) :=
  (page.slots linAddr).map fun number =>
    ((digits mode.fanout (level + 1) number).take (level + 1 - page.ptLeafLevel), page.leafBase physAddr)

theorem Page.slots_ne_nil (page : Page) (linAddr : ℕ) : page.slots linAddr ≠ [] := by
  unfold Page.slots
  split_ifs <;> simp

theorem Page.ptLeafLevel_of_napot {page : Page} (h : page.pagesize = .s64kb) : page.ptLeafLevel = 0 := by
  rw [Page.ptLeafLevel, h]
  rfl

/-- Above level 0 all keys of a page go through one index. -/
theorem Page.slots_index {mode : RiscvPagingModes} {page : Page} {linAddr number level : ℕ}
    (hmem : number ∈ page.slots linAddr) :
    number / mode.fanout ^ (level + 1) = linAddr / 2 ^ 12 / mode.fanout ^ (level + 1) := by
  unfold Page.slots at hmem
  split_ifs at hmem with hsize
  · obtain ⟨i, hi, rfl⟩ := List.mem_map.mp hmem
    have hlt : i < 16 := List.mem_range.mp hi
    obtain ⟨rest, hrest⟩ : 16 ∣ mode.fanout ^ (level + 1) :=
      (sixteen_dvd_fanout mode).trans (Dvd.intro_left _ (Nat.pow_succ mode.fanout level).symm)
    rw [hrest, ← Nat.div_div_eq_div_mul, ← Nat.div_div_eq_div_mul]
    congr 1
    omega
  · rw [List.mem_singleton.mp hmem]

/-- At its leaf level a page stands for the indices of its leaf. -/
theorem Page.entriesAt_leaf (mode : RiscvPagingModes) (page : Page) (linAddr physAddr : ℕ) :
    page.entriesAt mode linAddr physAddr page.ptLeafLevel =
      (page.leafIndices (linAddr / 2 ^ 12 / mode.fanout ^ page.ptLeafLevel % mode.fanout)).map fun index =>
        ([index], page.leafBase physAddr) := by
  have hone : page.ptLeafLevel + 1 - page.ptLeafLevel = 1 := by omega
  unfold Page.entriesAt Page.slots Page.leafIndices
  rw [hone]
  by_cases hsize : page.pagesize = .s64kb
  · rw [if_pos hsize, if_pos hsize, List.map_map, List.map_map]
    refine List.map_congr_left fun i hi => ?_
    have hlt : i < 16 := List.mem_range.mp hi
    have hround : Nat.ldiff (linAddr / 2 ^ 12 % mode.fanout) 0xF =
        2 ^ 4 * (linAddr / 2 ^ 12 % mode.fanout / 2 ^ 4) := ldiff_low _ 4
    obtain ⟨rest, hrest⟩ := sixteen_dvd_fanout mode
    simp only [Function.comp_apply, Page.ptLeafLevel_of_napot hsize, digits, Nat.pow_zero, Nat.div_one,
      List.take_succ_cons, List.take_zero, hround, Prod.mk.injEq, List.cons.injEq, and_true]
    rw [hrest]
    generalize linAddr / 2 ^ 12 = number
    have hsplit : number % (16 * rest) = number % 16 + 16 * (number / 16 % rest) := Nat.mod_mul
    have hsplit' : (16 * (number / 16) + i) % (16 * rest) =
        (16 * (number / 16) + i) % 16 + 16 * ((16 * (number / 16) + i) / 16 % rest) := Nat.mod_mul
    have hblock : (16 * (number / 16) + i) / 16 = number / 16 := by omega
    rw [hsplit', hblock]
    omega
  · rw [if_neg hsize, if_neg hsize]
    rfl

/-- Above its leaf level a page stands for keys that begin with its index there. -/
theorem Page.entriesAt_succ (mode : RiscvPagingModes) {page : Page} (linAddr physAddr : ℕ) {level : ℕ}
    (hlevel : page.ptLeafLevel ≤ level) :
    (∀ entry ∈ page.entriesAt mode linAddr physAddr (level + 1), ∃ key,
        entry.1 = linAddr / 2 ^ 12 / mode.fanout ^ (level + 1) % mode.fanout :: key ∧ key ≠ []) ∧
      below (linAddr / 2 ^ 12 / mode.fanout ^ (level + 1) % mode.fanout)
        (page.entriesAt mode linAddr physAddr (level + 1)) = page.entriesAt mode linAddr physAddr level := by
  have hcount : level + 1 + 1 - page.ptLeafLevel = (level + 1 - page.ptLeafLevel) + 1 := by omega
  have hkeys : ∀ number ∈ page.slots linAddr,
      (digits mode.fanout (level + 1 + 1) number).take (level + 1 + 1 - page.ptLeafLevel) =
        linAddr / 2 ^ 12 / mode.fanout ^ (level + 1) % mode.fanout ::
          (digits mode.fanout (level + 1) number).take (level + 1 - page.ptLeafLevel) := by
    intro number hmem
    rw [hcount, digits, List.take_succ_cons, Page.slots_index hmem]
  constructor
  · intro entry hentry
    obtain ⟨number, hmem, rfl⟩ := List.mem_map.mp hentry
    refine ⟨_, hkeys number hmem, ?_⟩
    rw [← List.length_pos_iff, List.length_take, length_digits]
    omega
  · refine below_map_cons fun number hmem => ?_
    rw [hkeys number hmem]

variable {featmgr : FeatMgr} {map : MapInfo} {page : Page} {level linAddr physAddr : ℕ}
  {base base' : PTTable} {state state' : State} {entries : List (List ℕ × ℕ)}

/-- The leaf request of a page that is apart from what the table holds. -/
theorem createPtLeaf_represents (hlevel : level < map.pagingMode.maxLevels)
    (hleaf : level = page.ptLeafLevel) (hlin : page.linAddr = some linAddr)
    (hphys : page.physAddr = some physAddr)
    (h : createPtLeaf featmgr map page level base state = .ok (base', state'))
    (hfree : PrefixFree (page.entriesAt map.pagingMode linAddr physAddr level ++ entries))
    (hrep : Represents PTTable.slot (level + 1) base entries) :
    Represents PTTable.slot (level + 1) base'
      (page.entriesAt map.pagingMode linAddr physAddr level ++ entries) := by
  obtain ⟨physAddr', index, hphys', hindex, hslots⟩ := (createPtLeaf_ok h).1
  obtain ⟨linAddr', hlin', rfl⟩ := calcIndexFromVa_ok hlevel hindex
  obtain rfl := Option.some.inj (hlin.symm.trans hlin')
  obtain rfl := Option.some.inj (hphys.symm.trans hphys')
  subst hleaf
  rw [Page.entriesAt_leaf] at hfree ⊢
  exact hrep.insert_leaves hfree hslots

/-- Creating a page that is apart from what the tree holds adds the page and keeps the rest. -/
theorem createLevels_represents (hlevel : level < map.pagingMode.maxLevels)
    (hleaf : page.ptLeafLevel ≤ level) (hlin : page.linAddr = some linAddr)
    (hphys : page.physAddr = some physAddr)
    (h : createLevels featmgr map page level base state = .ok (base', state'))
    (hfree : PrefixFree (page.entriesAt map.pagingMode linAddr physAddr level ++ entries))
    (hrep : Represents PTTable.slot (level + 1) base entries) :
    Represents PTTable.slot (level + 1) base'
      (page.entriesAt map.pagingMode linAddr physAddr level ++ entries) := by
  induction level generalizing base base' state state' entries with
  | zero =>
      exact createPtLeaf_represents hlevel (Nat.le_zero.mp hleaf).symm hlin hphys h hfree hrep
  | succ level ih =>
      by_cases hhere : level + 1 = page.ptLeafLevel
      · rw [createLevels, if_pos hhere] at h
        exact createPtLeaf_represents hlevel hhere hlin hphys h hfree hrep
      · have hbelow : page.ptLeafLevel ≤ level := by omega
        obtain ⟨index, hindex, hcase⟩ := createLevels_succ_ok hhere h
        obtain ⟨linAddr', hlin', rfl⟩ := calcIndexFromVa_ok hlevel hindex
        obtain rfl := Option.some.inj (hlin.symm.trans hlin')
        obtain ⟨hkeys, hrest⟩ := Page.entriesAt_succ map.pagingMode linAddr physAddr hbelow
        set index := linAddr / 2 ^ 12 / map.pagingMode.fanout ^ (level + 1) % map.pagingMode.fanout
        have hsome : page.entriesAt map.pagingMode linAddr physAddr (level + 1) ≠ [] := by
          rw [Page.entriesAt, Ne, List.map_eq_nil_iff]
          exact page.slots_ne_nil linAddr
        rcases hcase with ⟨rfl, baseAddr, hmet⟩ | ⟨sub, sub', current, final, hsub, hafter, hother, hbefore⟩
        · obtain ⟨entry, hentry⟩ := List.exists_mem_of_ne_nil _ hsome
          obtain ⟨key, hkey, -⟩ := hkeys entry hentry
          have hapart : ∀ other ∈ entries, Apart (index :: key) other.1 := by
            intro other hmem
            rw [← hkey]
            exact hfree.apart hentry hmem
          exact absurd hmet (hrep.child_ne_leaf hapart baseAddr)
        · have hsubrep : Represents PTTable.slot (level + 1) sub (below index entries) := by
            rcases hbefore with htable | ⟨hmissing, fresh, rfl⟩
            · exact (hrep.below_of_table htable).2
            · rw [hrep.below_of_missing hmissing]
              exact Represents.empty fun _ => PTTable.slot_fresh fresh false _
          have hsubfree := hfree.below index
          rw [below_append, hrest] at hsubfree
          refine hrep.descend hfree hsome hkeys hafter hother ?_
          rw [hrest]
          exact ih (by omega) hbelow hsub hsubfree hsubrep

end Riescue.Pagetables
