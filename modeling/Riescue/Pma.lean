import Riescue.LibStableSort
import Mathlib.Data.Int.Init
import Mathlib.Data.Int.Order.Basic

/-! The PMA regions, `lib/pma.py`. `consolidated_entries` returns some of the stored entries themselves
and grows them in place, so the model keeps each returned region together with the stored entries it has
swallowed: the blocks of one call are both the result of the call and the entries stored after it. -/

namespace Riescue.Pma
open StableSort

inductive MemoryType where
  | memory | io | ch0 | ch1
  deriving DecidableEq, Repr

inductive AmoType where
  | none | logical | swap | arithmetic
  deriving DecidableEq, Repr

inductive Cacheability where
  | cacheable | noncacheable
  deriving DecidableEq, Repr

inductive Combining where
  | combining | noncombining
  deriving DecidableEq, Repr

inductive RoutingTo where
  | coherent | noncoherent
  deriving DecidableEq, Repr

/-- `PmaInfo`, without `pma_valid`, which only the CSR value reads. -/
structure PmaInfo where
  pmaName : String := ""
  pmaRead : Bool := true
  pmaWrite : Bool := true
  pmaExecute : Bool := true
  pmaMemoryType : MemoryType := .memory
  pmaAmoType : AmoType := .arithmetic
  pmaCacheability : Cacheability := .cacheable
  pmaCombining : Combining := .noncombining
  pmaRoutingTo : RoutingTo := .coherent
  pmaAddress : ℤ := 0
  pmaSize : ℤ := 0
  deriving DecidableEq, Repr

namespace PmaInfo

/-- `attrib_matches` -/
def attribMatches (info other : PmaInfo) : Bool :=
  if info.pmaMemoryType ≠ other.pmaMemoryType then false
  else if info.pmaAmoType ≠ other.pmaAmoType then false
  else if info.pmaCacheability ≠ other.pmaCacheability then false
  else if info.pmaCombining ≠ other.pmaCombining then false
  else if info.pmaRoutingTo ≠ other.pmaRoutingTo then false
  else if info.pmaRead ≠ other.pmaRead then false
  else if info.pmaWrite ≠ other.pmaWrite then false
  else if info.pmaExecute ≠ other.pmaExecute then false
  else true

def getEndAddress (info : PmaInfo) : ℤ := info.pmaAddress + info.pmaSize

/-- `contains_address` -/
def containsAddress (info : PmaInfo) (address : ℤ) : Bool :=
  decide (info.pmaAddress ≤ address ∧ address < info.getEndAddress)

/-- `contains` -/
def contains (info other : PmaInfo) : Bool :=
  decide (info.pmaAddress ≤ other.pmaAddress ∧ other.getEndAddress ≤ info.getEndAddress)

def isIo (info : PmaInfo) : Bool := decide (info.pmaMemoryType = .io)

/-- A named hint: `entry.pma_name and entry.pma_name.startswith("pma_")`. -/
def isNamedHint (info : PmaInfo) : Bool :=
  decide (info.pmaName ≠ "") && info.pmaName.startsWith "pma_"

theorem attribMatches_iff {info other : PmaInfo} :
    info.attribMatches other = true ↔
      info.pmaMemoryType = other.pmaMemoryType ∧ info.pmaAmoType = other.pmaAmoType ∧
      info.pmaCacheability = other.pmaCacheability ∧ info.pmaCombining = other.pmaCombining ∧
      info.pmaRoutingTo = other.pmaRoutingTo ∧ info.pmaRead = other.pmaRead ∧
      info.pmaWrite = other.pmaWrite ∧ info.pmaExecute = other.pmaExecute := by
  unfold attribMatches
  split_ifs <;> simp_all

theorem attribMatches_refl (info : PmaInfo) : info.attribMatches info = true := by
  simp [attribMatches_iff]

theorem attribMatches_symm {info other : PmaInfo} (h : info.attribMatches other = true) :
    other.attribMatches info = true := by
  rw [attribMatches_iff] at h ⊢
  obtain ⟨h1, h2, h3, h4, h5, h6, h7, h8⟩ := h
  exact ⟨h1.symm, h2.symm, h3.symm, h4.symm, h5.symm, h6.symm, h7.symm, h8.symm⟩

theorem attribMatches_trans {a b c : PmaInfo} (hab : a.attribMatches b = true)
    (hbc : b.attribMatches c = true) : a.attribMatches c = true := by
  rw [attribMatches_iff] at hab hbc ⊢
  obtain ⟨h1, h2, h3, h4, h5, h6, h7, h8⟩ := hab
  obtain ⟨k1, k2, k3, k4, k5, k6, k7, k8⟩ := hbc
  exact ⟨h1.trans k1, h2.trans k2, h3.trans k3, h4.trans k4, h5.trans k5, h6.trans k6, h7.trans k7,
    h8.trans k8⟩

theorem isIo_congr {info other : PmaInfo} (h : info.attribMatches other = true) :
    info.isIo = other.isIo := by
  rw [isIo, isIo, (attribMatches_iff.mp h).1]

theorem containsAddress_iff {info : PmaInfo} {address : ℤ} :
    info.containsAddress address = true ↔
      info.pmaAddress ≤ address ∧ address < info.getEndAddress := by
  simp [containsAddress]

theorem contains_iff {info other : PmaInfo} :
    info.contains other = true ↔
      info.pmaAddress ≤ other.pmaAddress ∧ other.getEndAddress ≤ info.getEndAddress := by
  simp [contains]

end PmaInfo
open PmaInfo

/-! ### Consolidation -/

/-- What one turn of the loop of `consolidated_entries` does with an entry. -/
inductive Turn where
  /-- `c_entries.append(entry)` -/
  | append
  /-- `pass` -/
  | skip
  /-- `c_entries[-1].pma_size` is set. -/
  | grow (pmaSize : ℤ)
  deriving DecidableEq, Repr

/-- The body of the loop, with `last` for `c_entries[-1]`. -/
def turn (last entry : PmaInfo) : Turn :=
  if last.attribMatches entry = false then .append
  else if last.contains entry then
    -- named hint regions (pma_*) are preserved even if contained
    if entry.isNamedHint then .append else .skip
  else if last.getEndAddress = entry.pmaAddress then .grow (last.pmaSize + entry.pmaSize)
  else if last.isIo then
    -- io regions are merged even if they are not directly adjacent
    .grow (last.pmaSize + ((entry.pmaAddress - last.getEndAddress) + entry.pmaSize))
  else .append

/-- A returned region, with the stored entries between it and the next returned region. -/
structure Block where
  region : PmaInfo
  swallowed : List PmaInfo
  deriving DecidableEq, Repr

/-- The stored entries of a block, in their order. -/
def Block.entries (block : Block) : List PmaInfo := block.region :: block.swallowed

/-- The region with another size, as the assignment to `pma_size` leaves it. -/
def PmaInfo.resize (info : PmaInfo) (pmaSize : ℤ) : PmaInfo := { info with pmaSize := pmaSize }

/-- The loop of `consolidated_entries` from the last region on. -/
def consolidateLoop (last : Block) : List PmaInfo → List Block
  | [] => [last]
  | entry :: entries =>
      match turn last.region entry with
      | .append => last :: consolidateLoop ⟨entry, []⟩ entries
      | .skip => consolidateLoop ⟨last.region, last.swallowed ++ [entry]⟩ entries
      | .grow pmaSize =>
          consolidateLoop ⟨last.region.resize pmaSize, last.swallowed ++ [entry]⟩ entries

inductive PmaFault where
  /-- `IndexError` of `self._entries[0]` -/
  | indexError
  deriving DecidableEq, Repr

/-- `PmaRegion` -/
structure PmaRegion where
  entries : List PmaInfo := []
  deriving DecidableEq, Repr

namespace PmaRegion

/-- `add_entry` -/
def addEntry (region : PmaRegion) (pmaInfo : PmaInfo) : PmaRegion :=
  ⟨region.entries ++ [pmaInfo]⟩

/-- `add_region`; the defaults of the keyword arguments are those of `PmaInfo`. -/
def addRegion (region : PmaRegion) (base size : ℤ) (type : MemoryType) (read : Bool := true)
    (write : Bool := true) (execute : Bool := true) (routingTo : RoutingTo := .coherent)
    (combining' : Combining := .noncombining) (cacheability : Cacheability := .cacheable)
    (amoType : AmoType := .arithmetic) : PmaRegion :=
  region.addEntry
    { pmaAddress := base, pmaSize := size, pmaMemoryType := type, pmaRead := read, pmaWrite := write,
      pmaExecute := execute, pmaRoutingTo := routingTo, pmaCombining := combining',
      pmaCacheability := cacheability, pmaAmoType := amoType }

/-- `self._entries.sort(key=lambda entry: entry.pma_address)` -/
def sortedEntries (region : PmaRegion) : List PmaInfo := sortBy pmaAddress region.entries

/-- `consolidated_entries`: the result, and the region set with its entries sorted and grown. -/
def consolidatedEntries (region : PmaRegion) : Except PmaFault (List PmaInfo) × PmaRegion :=
  match region.sortedEntries with
  | [] => (.error .indexError, region)
  | first :: rest =>
      let blocks := consolidateLoop ⟨first, []⟩ rest
      (.ok (blocks.map Block.region), ⟨blocks.flatMap Block.entries⟩)

/-- `find_region_for_address` -/
def findRegionForAddress (region : PmaRegion) (address : ℤ) :
    Except PmaFault (Option PmaInfo) × PmaRegion :=
  let (result, region) := region.consolidatedEntries
  (result.map fun regions => regions.find? (·.containsAddress address), region)

end PmaRegion

/-! ### What a turn decides -/

/-- A region grows exactly to the end of the entry it takes in, which lies beyond its own. -/
theorem turn_spec {last entry : PmaInfo} (hle : last.pmaAddress ≤ entry.pmaAddress) :
    (turn last entry = .append ∧ (last.attribMatches entry = false ∨
      (last.contains entry = true ∧ entry.isNamedHint = true) ∨
      (last.getEndAddress < entry.getEndAddress ∧ last.getEndAddress ≠ entry.pmaAddress ∧
        last.isIo = false))) ∨
    (turn last entry = .skip ∧ last.attribMatches entry = true ∧ entry.isNamedHint = false ∧
      entry.getEndAddress ≤ last.getEndAddress) ∨
    ∃ pmaSize, turn last entry = .grow pmaSize ∧ last.attribMatches entry = true ∧
      last.getEndAddress < entry.getEndAddress ∧
      last.pmaAddress + pmaSize = entry.getEndAddress ∧
      (last.getEndAddress = entry.pmaAddress ∨ last.isIo = true) := by
  have hend : ∀ info : PmaInfo, info.getEndAddress = info.pmaAddress + info.pmaSize := fun _ => rfl
  unfold turn
  by_cases hmatch : last.attribMatches entry = true
  · rw [if_neg (by simp [hmatch])]
    by_cases hcontains : last.contains entry = true
    · rw [if_pos hcontains]
      cases hhint : entry.isNamedHint with
      | true => exact Or.inl ⟨rfl, Or.inr (Or.inl ⟨hcontains, rfl⟩)⟩
      | false => exact Or.inr (Or.inl ⟨rfl, hmatch, rfl, (contains_iff.mp hcontains).2⟩)
    · rw [if_neg hcontains]
      have hlt : last.getEndAddress < entry.getEndAddress :=
        not_le.mp fun h => hcontains (contains_iff.mpr ⟨hle, h⟩)
      by_cases hadjacent : last.getEndAddress = entry.pmaAddress
      · rw [if_pos hadjacent]
        refine Or.inr (Or.inr ⟨_, rfl, hmatch, hlt, ?_, Or.inl hadjacent⟩)
        rw [hend] at hadjacent ⊢
        omega
      · rw [if_neg hadjacent]
        cases hio : last.isIo with
        | true =>
            refine Or.inr (Or.inr ⟨_, rfl, hmatch, hlt, ?_, Or.inr rfl⟩)
            rw [hend, hend]
            omega
        | false => exact Or.inl ⟨rfl, Or.inr (Or.inr ⟨hlt, hadjacent, rfl⟩)⟩
  · have hfalse : last.attribMatches entry = false := by simpa using hmatch
    exact Or.inl ⟨by simp [hfalse], Or.inl hfalse⟩

/-! ### Entries in order -/

/-- The entries are in order and none lies before the region. -/
def Ordered (last : PmaInfo) (entries : List PmaInfo) : Prop :=
  (last :: entries).Pairwise fun left right => left.pmaAddress ≤ right.pmaAddress

theorem Ordered.head {last entry : PmaInfo} {entries : List PmaInfo}
    (h : Ordered last (entry :: entries)) : last.pmaAddress ≤ entry.pmaAddress :=
  (List.pairwise_cons.mp h).1 entry List.mem_cons_self

theorem Ordered.next {last entry : PmaInfo} {entries : List PmaInfo}
    (h : Ordered last (entry :: entries)) : Ordered entry entries :=
  (List.pairwise_cons.mp h).2

theorem Ordered.skip {last entry : PmaInfo} {entries : List PmaInfo}
    (h : Ordered last (entry :: entries)) : Ordered last entries :=
  h.sublist (List.Sublist.cons_cons last (List.sublist_cons_self entry entries))

theorem Ordered.resize {last : PmaInfo} {entries : List PmaInfo} (h : Ordered last entries)
    (pmaSize : ℤ) : Ordered (last.resize pmaSize) entries :=
  List.pairwise_cons.mpr (List.pairwise_cons.mp h)

end Riescue.Pma
