import Riescue.PagetablesMapping
import Mathlib.Tactic.Ring

/-! The linear range of a page. A mode translates the low bits of a linear address only, so ranges are
read on these bits. An address lies in the range of a page exactly when its index path begins with a key
of the page; pages with disjoint ranges have keys none of which begins another. -/

namespace Riescue.Pagetables
open Paging Radix

/-- The linear address a page starts at, of which the mode translates `linear_addr_bits` bits. A page is
mapped from a multiple of its size; an aligned address is its own start. -/
def Page.start (mode : RiscvPagingModes) (page : Page) : ℕ :=
  let linAddr := page.linAddr.getD 0
  (linAddr - linAddr % page.pagesize.memory) % 2 ^ mode.linearAddrBits

/-- The end of the range of a page. -/
def Page.stop (mode : RiscvPagingModes) (page : Page) : ℕ := page.start mode + page.pagesize.memory

/-- The translated bits of the address lie in the range of the page. -/
def Page.Contains (mode : RiscvPagingModes) (page : Page) (va : ℕ) : Prop :=
  page.start mode ≤ va % 2 ^ mode.linearAddrBits ∧ va % 2 ^ mode.linearAddrBits < page.stop mode

instance (mode : RiscvPagingModes) (page : Page) (va : ℕ) : Decidable (page.Contains mode va) :=
  inferInstanceAs (Decidable (_ ∧ _))

/-- The ranges of two pages have no address in common. -/
def Page.DisjointFrom (mode : RiscvPagingModes) (page other : Page) : Prop :=
  page.stop mode ≤ other.start mode ∨ other.stop mode ≤ page.start mode

instance (mode : RiscvPagingModes) (page other : Page) : Decidable (page.DisjointFrom mode other) :=
  inferInstanceAs (Decidable (_ ∨ _))

/-- A size of the mode spans the entries of its leaf level, sixteen of them for 64K. -/
theorem memory_of_supported {mode : RiscvPagingModes} {size : RiscvPageSizes}
    (h : size ∈ mode.supportedPagesizes true) :
    size.ptLeafLevel < mode.maxLevels ∧
      size.memory = 2 ^ 12 * mode.fanout ^ size.ptLeafLevel * (if size = .s64kb then 16 else 1) := by
  cases mode <;> cases size <;> revert h <;> decide

theorem linearAddrBits_eq {mode : RiscvPagingModes} (h : mode ≠ .disable) :
    2 ^ mode.linearAddrBits = 2 ^ 12 * mode.fanout ^ mode.maxLevels := by
  cases mode with
  | disable => exact absurd rfl h
  | _ => decide

theorem ne_disable_of_supported {mode : RiscvPagingModes} {size : RiscvPageSizes}
    (h : size ∈ mode.supportedPagesizes true) : mode ≠ .disable := by
  rintro rfl
  cases size <;> revert h <;> decide

/-- Blocks of pages and blocks of addresses. -/
theorem block_eq (mode : RiscvPagingModes) (va level : ℕ) :
    va % (2 ^ 12 * mode.fanout ^ mode.maxLevels) / (2 ^ 12 * mode.fanout ^ level) =
      va / 2 ^ 12 % mode.fanout ^ mode.maxLevels / mode.fanout ^ level := by
  rw [← Nat.div_div_eq_div_mul, Nat.mod_mul_right_div_self]

/-- A range that starts at a multiple of its size is a block. -/
theorem mem_block_iff {value size base : ℕ} (hsize : 0 < size) :
    base - base % size ≤ value ∧ value < base - base % size + size ↔ value / size = base / size := by
  have hbase := Nat.div_add_mod base size
  have hstart : base - base % size = size * (base / size) := by omega
  rw [hstart]
  constructor
  · rintro ⟨hlow, hhigh⟩
    refine Nat.div_eq_of_lt_le ?_ ?_
    · rwa [Nat.mul_comm]
    · rwa [Nat.succ_mul, Nat.mul_comm]
  · intro heq
    have hvalue := Nat.div_add_mod value size
    have hlt := Nat.mod_lt value hsize
    rw [heq] at hvalue
    omega

theorem Page.start_eq {mode : RiscvPagingModes} {page : Page}
    (h : page.pagesize.memory ∣ 2 ^ mode.linearAddrBits) :
    page.start mode = page.linAddr.getD 0 % 2 ^ mode.linearAddrBits -
      page.linAddr.getD 0 % 2 ^ mode.linearAddrBits % page.pagesize.memory := by
  obtain ⟨count, hcount⟩ := h
  rw [Page.start, Nat.mod_mod_of_dvd _ ⟨count, hcount⟩, hcount]
  generalize page.linAddr.getD 0 = value
  generalize page.pagesize.memory = size
  have hsplit : value % (size * count) = value % size + size * (value / size % count) := Nat.mod_mul
  have hround : value - value % size = size * (value / size) := by
    have := Nat.div_add_mod value size
    omega
  rw [hround, Nat.mul_mod_mul_left, hsplit, Nat.add_sub_cancel_left]

variable {mode : RiscvPagingModes} {page other : Page}

/-- The range of a page is one block of the page's size. -/
theorem Page.contains_iff_block (h : page.pagesize ∈ mode.supportedPagesizes true) (va : ℕ) :
    page.Contains mode va ↔
      va % 2 ^ mode.linearAddrBits / page.pagesize.memory =
        page.linAddr.getD 0 % 2 ^ mode.linearAddrBits / page.pagesize.memory := by
  obtain ⟨hlevel, hmemory⟩ := memory_of_supported h
  have hpos : 0 < page.pagesize.memory := by cases page.pagesize <;> decide
  have hdvd : page.pagesize.memory ∣ 2 ^ mode.linearAddrBits := by
    cases mode <;> revert h <;> cases page.pagesize <;> decide
  rw [Page.Contains, Page.stop, Page.start_eq hdvd]
  exact mem_block_iff hpos

/-- An address lies in a page exactly when it is in the leaf block of one of the page's slots. -/
theorem Page.contains_iff (h : page.pagesize ∈ mode.supportedPagesizes true) (va : ℕ) :
    page.Contains mode va ↔ ∃ number ∈ page.slots (page.linAddr.getD 0),
      number % mode.fanout ^ mode.maxLevels / mode.fanout ^ page.ptLeafLevel =
        va / 2 ^ 12 % mode.fanout ^ mode.maxLevels / mode.fanout ^ page.ptLeafLevel := by
  obtain ⟨hlevel, hmemory⟩ := memory_of_supported h
  rw [Page.contains_iff_block h, hmemory, linearAddrBits_eq (ne_disable_of_supported h)]
  unfold Page.slots
  by_cases hsize : page.pagesize = .s64kb
  · have hleaf : page.pagesize.ptLeafLevel = 0 := Page.ptLeafLevel_of_napot hsize
    have hleaf' : page.ptLeafLevel = 0 := hleaf
    have hblocks : ∀ value,
        value % (2 ^ 12 * mode.fanout ^ mode.maxLevels) / (2 ^ 12 * mode.fanout ^ page.pagesize.ptLeafLevel * 16) =
          value / 2 ^ 12 % mode.fanout ^ mode.maxLevels / mode.fanout ^ page.pagesize.ptLeafLevel / 16 := by
      intro value
      rw [← Nat.div_div_eq_div_mul, block_eq]
    rw [if_pos hsize, if_pos hsize, hblocks, hblocks, hleaf, hleaf']
    obtain ⟨rest, hrest⟩ : 16 ∣ mode.fanout ^ mode.maxLevels :=
      (sixteen_dvd_fanout mode).trans (dvd_pow_self _ (by omega))
    simp only [Nat.pow_zero, Nat.div_one, List.mem_map, List.mem_range, hrest]
    generalize page.linAddr.getD 0 / 2 ^ 12 = start
    generalize va / 2 ^ 12 = number
    have hblock : ∀ value i, i < 16 → (16 * (value / 16) + i) % (16 * rest) = 16 * (value / 16 % rest) + i := by
      intro value i hi
      have hmod : (16 * (value / 16) + i) % (16 * rest) =
          (16 * (value / 16) + i) % 16 + 16 * ((16 * (value / 16) + i) / 16 % rest) := Nat.mod_mul
      have hdiv : (16 * (value / 16) + i) / 16 = value / 16 := by omega
      rw [hmod, hdiv]
      omega
    have hmod : ∀ value, value % (16 * rest) = value % 16 + 16 * (value / 16 % rest) := fun value => Nat.mod_mul
    constructor
    · intro heq
      refine ⟨_, ⟨number % 16, Nat.mod_lt _ (by omega), rfl⟩, ?_⟩
      rw [hblock _ _ (Nat.mod_lt _ (by omega))]
      have hleft := hmod number
      have hright := hmod start
      omega
    · rintro ⟨_, ⟨i, hi, rfl⟩, heq⟩
      rw [hblock _ _ hi] at heq
      have hright := hmod start
      omega
  · rw [if_neg hsize, if_neg hsize, Nat.mul_one, block_eq, block_eq]
    constructor
    · intro heq
      exact ⟨_, List.mem_singleton_self _, heq.symm⟩
    · rintro ⟨number, hmem, heq⟩
      rw [List.mem_singleton.mp hmem] at heq
      exact heq.symm

/-- The keys of a page in the whole tree. -/
def Page.entries (mode : RiscvPagingModes) (page : Page) : List (List ℕ × ℕ) :=
  page.entriesAt mode (page.linAddr.getD 0) (page.physAddr.getD 0) (mode.maxLevels - 1)

theorem Page.entries_eq (h : page.pagesize ∈ mode.supportedPagesizes true) :
    page.entries mode = (page.slots (page.linAddr.getD 0)).map fun number =>
      ((digits mode.fanout mode.maxLevels number).take (mode.maxLevels - page.ptLeafLevel),
        page.leafBase (page.physAddr.getD 0)) := by
  have hlevel := (memory_of_supported h).1
  have hlast : mode.maxLevels - 1 + 1 = mode.maxLevels := by omega
  rw [Page.entries, Page.entriesAt, hlast]

/-- The index path of an address begins with a key of a page exactly when the page contains it. -/
theorem Page.contains_iff_key (h : page.pagesize ∈ mode.supportedPagesizes true) (va : ℕ) :
    page.Contains mode va ↔
      ∃ entry ∈ page.entries mode, entry.1 <+: digits mode.fanout mode.maxLevels (va / 2 ^ 12) := by
  have hlevel : page.ptLeafLevel < mode.maxLevels := (memory_of_supported h).1
  have hrest : mode.maxLevels - (mode.maxLevels - page.ptLeafLevel) = page.ptLeafLevel := by omega
  rw [Page.contains_iff h, Page.entries_eq h]
  constructor
  · rintro ⟨number, hmem, hblock⟩
    refine ⟨_, List.mem_map.mpr ⟨number, hmem, rfl⟩, ?_⟩
    rw [take_digits_isPrefix_iff (fanout_pos mode) (Nat.sub_le _ _), hrest]
    exact hblock
  · rintro ⟨_, hentry, hkey⟩
    obtain ⟨number, hmem, rfl⟩ := List.mem_map.mp hentry
    rw [take_digits_isPrefix_iff (fanout_pos mode) (Nat.sub_le _ _), hrest] at hkey
    exact ⟨number, hmem, hkey⟩

/-- Slots of two pages in the same block of the larger page: the ranges meet. -/
theorem exists_contains_of_block (h : page.pagesize ∈ mode.supportedPagesizes true)
    (hother : other.pagesize ∈ mode.supportedPagesizes true) {number number' : ℕ}
    (hnumber : number ∈ page.slots (page.linAddr.getD 0))
    (hnumber' : number' ∈ other.slots (other.linAddr.getD 0))
    (hblock : number % mode.fanout ^ mode.maxLevels / mode.fanout ^ other.ptLeafLevel =
      number' % mode.fanout ^ mode.maxLevels / mode.fanout ^ other.ptLeafLevel) :
    ∃ va, page.Contains mode va ∧ other.Contains mode va := by
  have hva : number * 2 ^ 12 / 2 ^ 12 = number := Nat.mul_div_cancel _ (Nat.two_pow_pos 12)
  refine ⟨number * 2 ^ 12, (Page.contains_iff h _).mpr ⟨number, hnumber, ?_⟩,
    (Page.contains_iff hother _).mpr ⟨number', hnumber', ?_⟩⟩
  · rw [hva]
  · rw [hva, hblock]

theorem not_contains_of_disjointFrom (h : page.DisjointFrom mode other) {va : ℕ}
    (hpage : page.Contains mode va) (hother : other.Contains mode va) : False := by
  unfold Page.Contains at hpage hother
  rcases h with h | h <;> omega

theorem apart_of_disjointFrom (h : page.pagesize ∈ mode.supportedPagesizes true)
    (hother : other.pagesize ∈ mode.supportedPagesizes true) (hdisjoint : page.DisjointFrom mode other)
    {entry entry' : List ℕ × ℕ} (hentry : entry ∈ page.entries mode) (hentry' : entry' ∈ other.entries mode) :
    Apart entry.1 entry'.1 := by
  rw [Page.entries_eq h] at hentry
  rw [Page.entries_eq hother] at hentry'
  obtain ⟨number, hnumber, rfl⟩ := List.mem_map.mp hentry
  obtain ⟨number', hnumber', rfl⟩ := List.mem_map.mp hentry'
  have hlevel : page.ptLeafLevel < mode.maxLevels := (memory_of_supported h).1
  have hlevel' : other.ptLeafLevel < mode.maxLevels := (memory_of_supported hother).1
  refine apart_take_digits (fanout_pos mode) (Nat.sub_le _ _) (Nat.sub_le _ _) fun hblock => ?_
  rcases Nat.le_total page.ptLeafLevel other.ptLeafLevel with hle | hle
  · have hmin : mode.maxLevels - min (mode.maxLevels - page.ptLeafLevel)
        (mode.maxLevels - other.ptLeafLevel) = other.ptLeafLevel := by omega
    rw [hmin] at hblock
    obtain ⟨va, hpage, hva⟩ := exists_contains_of_block h hother hnumber hnumber' hblock
    exact not_contains_of_disjointFrom hdisjoint hpage hva
  · have hmin : mode.maxLevels - min (mode.maxLevels - page.ptLeafLevel)
        (mode.maxLevels - other.ptLeafLevel) = page.ptLeafLevel := by omega
    rw [hmin] at hblock
    obtain ⟨va, hva, hpage⟩ := exists_contains_of_block hother h hnumber' hnumber hblock.symm
    exact not_contains_of_disjointFrom hdisjoint hpage hva

/-- The keys of one page are apart: there is one, or they differ in the last index. -/
theorem Page.prefixFree_entries (h : page.pagesize ∈ mode.supportedPagesizes true) :
    PrefixFree (page.entries mode) := by
  have hlevel : page.ptLeafLevel < mode.maxLevels := (memory_of_supported h).1
  rw [Page.entries_eq h, Page.slots]
  by_cases hsize : page.pagesize = .s64kb
  · rw [if_pos hsize, Page.ptLeafLevel_of_napot hsize, PrefixFree, List.pairwise_map, List.pairwise_map]
    refine List.Pairwise.imp_of_mem ?_ (List.nodup_range (n := 16))
    intro i j hi hj hne
    have hi' : i < 16 := List.mem_range.mp hi
    have hj' : j < 16 := List.mem_range.mp hj
    refine apart_take_digits (fanout_pos mode) (Nat.sub_le _ _) (Nat.sub_le _ _) fun hblock => ?_
    obtain ⟨rest, hrest⟩ : 16 ∣ mode.fanout ^ mode.maxLevels :=
      (sixteen_dvd_fanout mode).trans (dvd_pow_self _ (by omega))
    rw [Nat.sub_zero, Nat.min_self, Nat.sub_self, Nat.pow_zero, Nat.div_one, Nat.div_one, hrest] at hblock
    have hlow := congrArg (· % 16) hblock
    simp only [Nat.mod_mul_right_mod] at hlow
    omega
  · rw [if_neg hsize]
    exact List.pairwise_singleton _ _

/-- Pages with pairwise disjoint ranges have pairwise apart keys. -/
theorem prefixFree_of_disjoint {pages : List Page}
    (hsupported : ∀ page ∈ pages, page.pagesize ∈ mode.supportedPagesizes true)
    (hdisjoint : pages.Pairwise (Page.DisjointFrom mode)) :
    PrefixFree (pages.flatMap (Page.entries mode)) := by
  rw [PrefixFree, List.pairwise_flatMap]
  refine ⟨fun page hpage => Page.prefixFree_entries (hsupported page hpage), ?_⟩
  refine hdisjoint.imp_of_mem ?_
  intro page other hpage hother hapart entry hentry entry' hentry'
  exact apart_of_disjointFrom (hsupported _ hpage) (hsupported _ hother) hapart hentry hentry'

end Riescue.Pagetables
