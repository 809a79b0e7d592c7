import Riescue.PagetablesRange

/-! The walk of the hardware through the tables of a map, once over the tables as they hang together and
once over memory, where an entry holds the address of the next table. Where no two tables share an
address the two agree. -/

namespace Riescue.Pagetables
open Paging Radix

/-- Where a walk ends: at a leaf of a level with its base address, at a missing entry, or at an entry of
the last level that is no leaf. -/
inductive WalkResult where
  | leaf (level baseAddr : ℕ)
  | missing
  | noLeaf
  deriving DecidableEq, Repr

/-- The index of an address at a level, the field that `index_bits` names. -/
def walkIndex (mode : RiscvPagingModes) (level va : ℕ) : ℕ :=
  match mode.indexBits level with
  | .ok (indexHi, indexLo) => bits va indexHi indexLo
  | .error _ => 0

/-- The walk from a table of a level. -/
def walk (mode : RiscvPagingModes) : ℕ → PTTable → ℕ → WalkResult
  | 0, base, va =>
      match base.getEntry (walkIndex mode 0 va) with
      | none => .missing
      | some entry => if entry.leaf then .leaf 0 entry.basetable.baseAddr else .noLeaf
  | level + 1, base, va =>
      match base.getEntry (walkIndex mode (level + 1) va) with
      | none => .missing
      | some entry =>
          if entry.leaf then .leaf (level + 1) entry.basetable.baseAddr
          else walk mode level entry.basetable va

theorem walkIndex_eq {mode : RiscvPagingModes} {level : ℕ} (hlevel : level < mode.maxLevels) (va : ℕ) :
    walkIndex mode level va = va / 2 ^ 12 / mode.fanout ^ level % mode.fanout := by
  rw [walkIndex, RiscvPagingModes.indexBits_of_lt hlevel]
  exact bits_indexBits mode level va

/-- The end of a walk, as a descent along the index path shows it. -/
def WalkResult.ofOutcome : Outcome ℕ ℕ → WalkResult
  | .found baseAddr rest => .leaf rest.length baseAddr
  | .missing => .missing
  | .exhausted => .noLeaf

theorem walk_eq_lookup {mode : RiscvPagingModes} {level : ℕ} (hlevel : level < mode.maxLevels)
    (base : PTTable) (va : ℕ) :
    walk mode level base va =
      .ofOutcome (lookup PTTable.slot base (digits mode.fanout (level + 1) (va / 2 ^ 12))) := by
  induction level generalizing base with
  | zero =>
      rw [walk, walkIndex_eq hlevel, digits, lookup, PTTable.slot]
      cases base.getEntry (va / 2 ^ 12 / mode.fanout ^ 0 % mode.fanout) with
      | none => rfl
      | some entry => cases hleaf : entry.leaf <;> simp [hleaf, digits, lookup, WalkResult.ofOutcome]
  | succ level ih =>
      rw [walk, walkIndex_eq hlevel, digits, lookup, PTTable.slot]
      cases base.getEntry (va / 2 ^ 12 / mode.fanout ^ (level + 1) % mode.fanout) with
      | none => rfl
      | some entry =>
          cases hleaf : entry.leaf with
          | true => simp [hleaf, WalkResult.ofOutcome]
          | false => simpa [hleaf] using ih (by omega) entry.basetable

/-- A walk maps the addresses of every page to the page's leaf, and no other address. -/
def Maps (mode : RiscvPagingModes) (walk : ℕ → WalkResult) (leafOf : Page → ℕ) (pages : List Page) : Prop :=
  (∀ page ∈ pages, ∀ va, page.Contains mode va → walk va = .leaf page.ptLeafLevel (leafOf page)) ∧
  ∀ va, (∀ page ∈ pages, ¬page.Contains mode va) → walk va = .missing

theorem Maps.congr {mode : RiscvPagingModes} {walk walk' : ℕ → WalkResult} {leafOf leafOf' : Page → ℕ}
    {pages : List Page} (h : Maps mode walk leafOf pages) (hwalk : ∀ va, walk' va = walk va)
    (hleaf : ∀ page ∈ pages, leafOf' page = leafOf page) : Maps mode walk' leafOf' pages := by
  refine ⟨fun page hpage va hva => ?_, fun va hva => (hwalk va).trans (h.2 va hva)⟩
  rw [hwalk, hleaf page hpage]
  exact h.1 page hpage va hva

theorem Page.entries_ne_nil (mode : RiscvPagingModes) (page : Page) :
    ∀ entry ∈ page.entries mode, page.pagesize ∈ mode.supportedPagesizes true → entry.1 ≠ [] := by
  intro entry hentry h
  have hlevel : page.ptLeafLevel < mode.maxLevels := (memory_of_supported h).1
  rw [Page.entries_eq h] at hentry
  obtain ⟨number, -, rfl⟩ := List.mem_map.mp hentry
  rw [← List.length_pos_iff, List.length_take, length_digits]
  omega

/-- A tree that holds the keys of the pages maps the pages. -/
theorem maps_of_represents {mode : RiscvPagingModes} {root : PTTable} {pages : List Page}
    (hmode : mode ≠ .disable)
    (hsupported : ∀ page ∈ pages, page.pagesize ∈ mode.supportedPagesizes true)
    (h : Represents PTTable.slot mode.maxLevels root (pages.flatMap (Page.entries mode))) :
    Maps mode (walk mode (mode.maxLevels - 1) root) (fun page => page.leafBase (page.physAddr.getD 0)) pages := by
  have hpos : 0 < mode.maxLevels := by
    cases mode with
    | disable => exact absurd rfl hmode
    | _ => decide
  have hlast : mode.maxLevels - 1 + 1 = mode.maxLevels := Nat.sub_add_cancel hpos
  have hwalk : ∀ va, walk mode (mode.maxLevels - 1) root va =
      .ofOutcome (lookup PTTable.slot root (digits mode.fanout mode.maxLevels (va / 2 ^ 12))) := by
    intro va
    rw [walk_eq_lookup (by omega), hlast]
  constructor
  · intro page hpage va hva
    have hsize := hsupported page hpage
    have hlevel : page.ptLeafLevel < mode.maxLevels := (memory_of_supported hsize).1
    obtain ⟨entry, hentry, rest, hword⟩ := (Page.contains_iff_key hsize va).mp hva
    have hfound : lookup PTTable.slot root (entry.1 ++ rest) = .found entry.2 rest :=
      h.lookup_found (List.mem_flatMap.mpr ⟨page, hpage, hentry⟩)
        (Page.entries_ne_nil mode page entry hentry hsize)
    rw [hwalk, ← hword, hfound]
    have hlength := congrArg List.length hword
    rw [Page.entries_eq hsize] at hentry
    obtain ⟨number, -, rfl⟩ := List.mem_map.mp hentry
    rw [List.length_append, List.length_take, length_digits, length_digits] at hlength
    rw [WalkResult.ofOutcome, WalkResult.leaf.injEq]
    exact ⟨by omega, rfl⟩
  · intro va hva
    rw [hwalk, h.lookup_missing (length_digits _ _ _)]
    · rfl
    · intro entry hentry hkey
      obtain ⟨page, hpage, hentry⟩ := List.mem_flatMap.mp hentry
      exact hva page hpage ((Page.contains_iff_key (hsupported page hpage) va).mpr ⟨entry, hentry, hkey⟩)

/-! Tables in memory. -/

/-- The tables below a table, with the table itself, in the order in which they are emitted. -/
def tables : ℕ → PTTable → List PTTable
  | 0, _ => []
  | depth + 1, base =>
      base :: base.table.flatMap fun pair => if pair.2.leaf then [] else tables depth pair.2.basetable

/-- The addresses at which tables are emitted. -/
def addresses (depth : ℕ) (base : PTTable) : List ℕ := (tables depth base).map PTTable.baseAddr

/-- The entry that memory holds for an index of the table at an address: the address it points to, and
whether it is a leaf. -/
def entryAt (emitted : List PTTable) (baseAddr index : ℕ) : Option (ℕ × Bool) :=
  (emitted.find? fun base => base.baseAddr = baseAddr).bind fun base =>
    (base.getEntry index).map fun entry => (entry.basetable.baseAddr, entry.leaf)

/-- The walk through memory from the table at an address. -/
def hardwareWalk (mode : RiscvPagingModes) (entryAt : ℕ → ℕ → Option (ℕ × Bool)) : ℕ → ℕ → ℕ → WalkResult
  | 0, baseAddr, va =>
      match entryAt baseAddr (walkIndex mode 0 va) with
      | none => .missing
      | some (next, leaf) => if leaf then .leaf 0 next else .noLeaf
  | level + 1, baseAddr, va =>
      match entryAt baseAddr (walkIndex mode (level + 1) va) with
      | none => .missing
      | some (next, leaf) => if leaf then .leaf (level + 1) next else hardwareWalk mode entryAt level next va

theorem entryAt_of_mem {emitted : List PTTable} (hdistinct : (emitted.map PTTable.baseAddr).Nodup)
    {base : PTTable} (hbase : base ∈ emitted) (index : ℕ) :
    entryAt emitted base.baseAddr index =
      (base.getEntry index).map fun entry => (entry.basetable.baseAddr, entry.leaf) := by
  have hfind : emitted.find? (fun other => other.baseAddr = base.baseAddr) = some base := by
    induction emitted with
    | nil => cases hbase
    | cons head rest ih =>
        obtain ⟨hhead, hrest⟩ := List.nodup_cons.mp hdistinct
        rcases List.mem_cons.mp hbase with rfl | hmem
        · exact List.find?_cons_of_pos (decide_eq_true rfl)
        · have hne : head.baseAddr ≠ base.baseAddr := by
            intro heq
            exact hhead (heq ▸ List.mem_map_of_mem hmem)
          rw [List.find?_cons_of_neg (by simpa using hne)]
          exact ih hrest hmem
  rw [entryAt, hfind]
  rfl

/-- The tables of an entry's table are tables of the table it stands in. -/
theorem tables_subset {depth index : ℕ} {base : PTTable} {entry : PTEntry}
    (hentry : base.getEntry index = some entry) (hleaf : entry.leaf = false) :
    tables depth entry.basetable ⊆ tables (depth + 1) base := by
  intro table htable
  refine List.mem_cons_of_mem _ (List.mem_flatMap.mpr ⟨_, OrderedDict.mem_of_get? hentry, ?_⟩)
  simpa [hleaf] using htable

/-- Where no two tables share an address, the walk through memory is the walk through the tables. -/
theorem hardwareWalk_eq {emitted : List PTTable} (hdistinct : (emitted.map PTTable.baseAddr).Nodup)
    (mode : RiscvPagingModes) (level : ℕ) {base : PTTable} (hbase : tables (level + 1) base ⊆ emitted) (va : ℕ) :
    hardwareWalk mode (entryAt emitted) level base.baseAddr va = walk mode level base va := by
  have hmem : ∀ {depth : ℕ} {base : PTTable}, base ∈ tables (depth + 1) base := List.mem_cons_self
  induction level generalizing base with
  | zero =>
      rw [hardwareWalk, walk, entryAt_of_mem hdistinct (hbase hmem)]
      cases base.getEntry (walkIndex mode 0 va) <;> rfl
  | succ level ih =>
      rw [hardwareWalk, walk, entryAt_of_mem hdistinct (hbase hmem)]
      cases hentry : base.getEntry (walkIndex mode (level + 1) va) with
      | none => rfl
      | some entry =>
          cases hleaf : entry.leaf with
          | true => simp [hleaf]
          | false => simpa [hleaf] using ih fun table htable => hbase (tables_subset hentry hleaf htable)

end Riescue.Pagetables
