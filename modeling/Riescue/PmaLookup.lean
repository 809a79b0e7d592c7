import Riescue.Pma

/-! Consolidation answers attribute lookups as the sorted entries do. The loop is followed from its last
region on: growing that region adds exactly the addresses of the entry it takes in, and, between two IO
entries, the gap in front of it. -/

namespace Riescue.Pma
open StableSort PmaInfo

/-- The first region of the list that contains the address. -/
def firstMatch (regions : List PmaInfo) (address : ℤ) : Option PmaInfo :=
  regions.find? fun region => region.containsAddress address

/-- Some region of the list contains the address. -/
def Covers (regions : List PmaInfo) (address : ℤ) : Prop :=
  ∃ region ∈ regions, region.containsAddress address = true

/-- Both lists find a region for the address, and the two regions have the same attributes. -/
def SameLookup (regions entries : List PmaInfo) (address : ℤ) : Prop :=
  ∃ region entry, firstMatch regions address = some region ∧
    firstMatch entries address = some entry ∧ region.attribMatches entry = true

/-- The entries that are not passed over by the loop, in sorted order. -/
def keptLoop (last : PmaInfo) : List PmaInfo → List PmaInfo
  | [] => []
  | entry :: entries =>
      match turn last entry with
      | .append => entry :: keptLoop entry entries
      | .skip => keptLoop last entries
      | .grow pmaSize => entry :: keptLoop (last.resize pmaSize) entries

/-- The entries kept by one call of `consolidated_entries`, in sorted order. -/
def keptEntries : List PmaInfo → List PmaInfo
  | [] => []
  | first :: rest => first :: keptLoop first rest

/-- The address lies between two IO entries of equal attributes, next to each other in the list. -/
def InIoGap (kept : List PmaInfo) (address : ℤ) : Prop :=
  ∃ left right, [left, right] <:+: kept ∧ left.isIo = true ∧ right.isIo = true ∧
    left.attribMatches right = true ∧ left.getEndAddress ≤ address ∧ address < right.pmaAddress

theorem InIoGap.cons {kept : List PmaInfo} {address : ℤ} (h : InIoGap kept address)
    (entry : PmaInfo) : InIoGap (entry :: kept) address := by
  obtain ⟨left, right, hinfix, hgap⟩ := h
  exact ⟨left, right, hinfix.trans (List.infix_cons (List.infix_refl kept)), hgap⟩

theorem covers_cons {region : PmaInfo} {regions : List PmaInfo} {address : ℤ} :
    Covers (region :: regions) address ↔
      region.containsAddress address = true ∨ Covers regions address := by
  simp [Covers]

theorem firstMatch_of_contains {region : PmaInfo} {regions : List PmaInfo} {address : ℤ}
    (h : region.containsAddress address = true) :
    firstMatch (region :: regions) address = some region := List.find?_cons_of_pos h

theorem firstMatch_of_not_contains {region : PmaInfo} {regions : List PmaInfo} {address : ℤ}
    (h : ¬region.containsAddress address = true) :
    firstMatch (region :: regions) address = firstMatch regions address :=
  List.find?_cons_of_neg h

theorem SameLookup.trans {regions middle entries : List PmaInfo} {address : ℤ}
    (h : SameLookup regions middle address) (h' : SameLookup middle entries address) :
    SameLookup regions entries address := by
  obtain ⟨region, common, hregion, hcommon, hmatch⟩ := h
  obtain ⟨common', entry, hcommon', hentry, hmatch'⟩ := h'
  obtain rfl := Option.some.inj (hcommon.symm.trans hcommon')
  exact ⟨region, entry, hregion, hentry, attribMatches_trans hmatch hmatch'⟩

theorem sameLookup_of_covers {regions : List PmaInfo} {address : ℤ} (h : Covers regions address) :
    SameLookup regions regions address := by
  obtain ⟨region, hfound⟩ := Option.isSome_iff_exists.mp (List.find?_isSome.mpr h)
  exact ⟨region, region, hfound, hfound, attribMatches_refl region⟩

/-- A region in front of both lists hides the same addresses in both. -/
theorem SameLookup.cons {region : PmaInfo} {regions entries : List PmaInfo} {address : ℤ}
    (h : ¬region.containsAddress address = true → SameLookup regions entries address) :
    SameLookup (region :: regions) (region :: entries) address := by
  by_cases hcontains : region.containsAddress address = true
  · exact ⟨region, region, firstMatch_of_contains hcontains, firstMatch_of_contains hcontains,
      attribMatches_refl region⟩
  · obtain ⟨found, entry, hfound, hentry, hmatch⟩ := h hcontains
    refine ⟨found, entry, ?_, ?_, hmatch⟩
    · rw [firstMatch_of_not_contains hcontains, hfound]
    · rw [firstMatch_of_not_contains hcontains, hentry]

theorem resize_attribMatches {info : PmaInfo} (pmaSize : ℤ) :
    (info.resize pmaSize).attribMatches info = true := attribMatches_refl info

section Loop
variable {last : Block} {entries : List PmaInfo} {address : ℤ}

/-- An entry inside the region in front of it answers no lookup. -/
theorem sameLookup_skip {last entry : PmaInfo} (hordered : Ordered last (entry :: entries))
    (hend : entry.getEndAddress ≤ last.getEndAddress)
    (hcovers : Covers (last :: entry :: entries) address) :
    Covers (last :: entries) address ∧
      SameLookup (last :: entries) (last :: entry :: entries) address := by
  have hle := hordered.head
  have hinside : ¬last.containsAddress address = true → ¬entry.containsAddress address = true := by
    simp only [containsAddress_iff]
    omega
  have hrest : ¬last.containsAddress address = true → Covers entries address := fun hnot =>
    ((covers_cons.mp ((covers_cons.mp hcovers).resolve_left hnot))).resolve_left (hinside hnot)
  refine ⟨covers_cons.mpr (or_iff_not_imp_left.mpr hrest), SameLookup.cons fun hnot => ?_⟩
  obtain ⟨found, _, hfound, -, -⟩ := sameLookup_of_covers (hrest hnot)
  refine ⟨found, found, hfound, ?_, attribMatches_refl found⟩
  rw [firstMatch_of_not_contains (hinside hnot), hfound]

/-- A region grown to the end of the next entry answers the lookups of both. -/
theorem sameLookup_grow {last entry grown : PmaInfo} (hordered : Ordered last (entry :: entries))
    (hgrown : grown.attribMatches last = true) (hmatch : last.attribMatches entry = true)
    (hstart : grown.pmaAddress = last.pmaAddress)
    (hend : grown.getEndAddress = entry.getEndAddress)
    (hlt : last.getEndAddress < entry.getEndAddress)
    (hcovers : Covers (last :: entry :: entries) address) :
    Covers (grown :: entries) address ∧
      SameLookup (grown :: entries) (last :: entry :: entries) address := by
  have hle := hordered.head
  by_cases hlast : last.containsAddress address = true
  · have hcontains : grown.containsAddress address = true := by
      rw [containsAddress_iff] at hlast ⊢
      omega
    exact ⟨covers_cons.mpr (Or.inl hcontains), grown, last, firstMatch_of_contains hcontains,
      firstMatch_of_contains hlast, hgrown⟩
  · by_cases hentry : entry.containsAddress address = true
    · have hcontains : grown.containsAddress address = true := by
        rw [containsAddress_iff] at hentry ⊢
        omega
      refine ⟨covers_cons.mpr (Or.inl hcontains), grown, entry, firstMatch_of_contains hcontains, ?_,
        attribMatches_trans hgrown hmatch⟩
      rw [firstMatch_of_not_contains hlast, firstMatch_of_contains hentry]
    · have hrest := (covers_cons.mp ((covers_cons.mp hcovers).resolve_left hlast)).resolve_left hentry
      obtain ⟨found, hmem, hcontains⟩ := hrest
      -- later entries start after the grown part, which `last` and `entry` would have to cover
      have hafter := (List.pairwise_cons.mp hordered.next).1 found hmem
      have hnot : ¬grown.containsAddress address = true := by
        rw [containsAddress_iff] at hlast hentry hcontains ⊢
        omega
      obtain ⟨first, _, hfirst, -, -⟩ := sameLookup_of_covers ⟨found, hmem, hcontains⟩
      refine ⟨covers_cons.mpr (Or.inr ⟨found, hmem, hcontains⟩), first, first, ?_, ?_,
        attribMatches_refl first⟩
      · rw [firstMatch_of_not_contains hnot, hfirst]
      · rw [firstMatch_of_not_contains hlast, firstMatch_of_not_contains hentry, hfirst]

/-- The loop answers a lookup as the last region and the remaining entries would. -/
theorem consolidateLoop_lookup (hordered : Ordered last.region entries)
    (hcovers : Covers (last.region :: entries) address) :
    SameLookup ((consolidateLoop last entries).map Block.region) (last.region :: entries)
      address := by
  induction entries generalizing last with
  | nil => exact sameLookup_of_covers hcovers
  | cons entry entries ih =>
      rw [consolidateLoop]
      rcases turn_spec hordered.head with ⟨hturn, -⟩ | ⟨hturn, -, -, hend⟩ |
        ⟨pmaSize, hturn, hmatch, hlt, hgrown, -⟩
      · rw [hturn]
        refine SameLookup.cons fun hnot => ih hordered.next ?_
        exact (covers_cons.mp hcovers).resolve_left hnot
      · rw [hturn]
        obtain ⟨hcovers', hsame⟩ := sameLookup_skip hordered hend hcovers
        exact SameLookup.trans (ih hordered.skip hcovers') hsame
      · rw [hturn]
        obtain ⟨hcovers', hsame⟩ := sameLookup_grow hordered (resize_attribMatches pmaSize) hmatch rfl
          hgrown hlt hcovers
        exact SameLookup.trans (ih (hordered.skip.resize pmaSize) hcovers') hsame

/-- The loop covers more than its entries only in gaps between IO entries. `left` is the kept entry
that the last region ends with. -/
theorem consolidateLoop_gap {left : PmaInfo} (hordered : Ordered last.region entries)
    (hend : left.getEndAddress = last.region.getEndAddress)
    (hleft : left.attribMatches last.region = true)
    (hcovers : Covers ((consolidateLoop last entries).map Block.region) address)
    (hnone : ¬Covers (last.region :: entries) address) :
    InIoGap (left :: keptLoop last.region entries) address := by
  induction entries generalizing last left with
  | nil => exact absurd hcovers hnone
  | cons entry entries ih =>
      rw [consolidateLoop] at hcovers
      rw [keptLoop]
      simp only [covers_cons, not_or] at hnone
      obtain ⟨hlast, hentry, hrest⟩ := hnone
      rcases turn_spec hordered.head with ⟨hturn, -⟩ | ⟨hturn, -, -, -⟩ |
        ⟨pmaSize, hturn, hmatch, hlt, hgrown, hgap⟩
      · simp only [hturn] at hcovers ⊢
        refine InIoGap.cons (ih hordered.next rfl (attribMatches_refl entry)
          ((covers_cons.mp hcovers).resolve_left hlast) ?_) left
        exact fun h => (covers_cons.mp h).elim hentry hrest
      · simp only [hturn] at hcovers ⊢
        exact @ih ⟨last.region, last.swallowed ++ [entry]⟩ left hordered.skip hend hleft hcovers
          fun h => (covers_cons.mp h).elim hlast hrest
      · simp only [hturn] at hcovers ⊢
        by_cases hin : (last.region.resize pmaSize).containsAddress address = true
        · -- the address is in the part that was added in front of `entry`
          rw [containsAddress_iff] at hlast hentry hin
          have hle := hordered.head
          have hbefore : last.region.getEndAddress ≤ address ∧ address < entry.pmaAddress := by
            have hstart : (last.region.resize pmaSize).pmaAddress = last.region.pmaAddress := rfl
            have hstop : (last.region.resize pmaSize).getEndAddress = entry.getEndAddress := hgrown
            omega
          have hio : last.region.isIo = true := hgap.resolve_left (by omega)
          refine ⟨left, entry, (List.prefix_append [left, entry] _).isInfix, ?_, ?_, ?_, ?_, hbefore.2⟩
          · rw [isIo_congr hleft, hio]
          · rw [← isIo_congr hmatch, hio]
          · exact attribMatches_trans hleft hmatch
          · rw [hend]
            exact hbefore.1
        · refine InIoGap.cons (@ih ⟨last.region.resize pmaSize, last.swallowed ++ [entry]⟩ entry
            (hordered.skip.resize pmaSize) hgrown.symm (attribMatches_symm hmatch) hcovers ?_) left
          exact fun h => (covers_cons.mp h).elim hin hrest

end Loop

/-- The call returns a list that answers every lookup of an address of some entry with the attributes of
the first sorted entry with that address, and that covers no other address except in the gap between
two IO entries. -/
def ConsolidatesFaithfully (region : PmaRegion) : Prop :=
  ∃ regions, region.consolidatedEntries.1 = .ok regions ∧ ∀ address,
    (Covers region.entries address → SameLookup regions region.sortedEntries address) ∧
    (¬Covers region.entries address → Covers regions address →
      InIoGap (keptEntries region.sortedEntries) address)

theorem consolidatesFaithfully_of_ne_nil {region : PmaRegion} (h : region.entries ≠ []) :
    ConsolidatesFaithfully region := by
  have hcovers : ∀ address, Covers region.entries address ↔ Covers region.sortedEntries address := by
    simp only [Covers, PmaRegion.sortedEntries, mem_sortBy, implies_true]
  have hsorted := sortBy_sorted pmaAddress region.entries
  simp only [ConsolidatesFaithfully, PmaRegion.consolidatedEntries, hcovers]
  unfold PmaRegion.sortedEntries
  cases hentries : sortBy pmaAddress region.entries with
  | nil => exact absurd (sortBy_eq_nil.mp hentries) h
  | cons first rest =>
      rw [hentries] at hsorted
      have hordered : Ordered (Block.mk first []).region rest := hsorted
      refine ⟨_, rfl, fun address => ⟨fun hcovered => ?_, fun hnone hcovered => ?_⟩⟩
      · exact consolidateLoop_lookup hordered hcovered
      · exact consolidateLoop_gap hordered rfl (attribMatches_refl first) hcovered hnone

/-- Consolidation is faithful for every set of entries but the empty one, where it raises. -/
theorem consolidatesFaithfully_iff (region : PmaRegion) :
    ConsolidatesFaithfully region ↔ region.entries ≠ [] := by
  refine ⟨?_, consolidatesFaithfully_of_ne_nil⟩
  rintro ⟨regions, hregions, -⟩ hnil
  rw [PmaRegion.consolidatedEntries, PmaRegion.sortedEntries, sortBy_eq_nil.mpr hnil] at hregions
  cases hregions

/-- The empty set: `self._entries[0]` raises. -/
theorem not_consolidatesFaithfully_empty :
    (PmaRegion.consolidatedEntries ⟨[]⟩).1 = .error .indexError ∧ ¬ConsolidatesFaithfully ⟨[]⟩ := by
  refine ⟨rfl, ?_⟩
  rintro ⟨regions, hregions, -⟩
  cases hregions

/-! ### The lookup of one address -/

/-- `find_region_for_address` returns without error a region with the address when some entry has it, and nothing when
the address is in no entry and in no gap between merged IO entries. -/
def FindsExactly (region : PmaRegion) (address : ℤ) : Prop :=
  ∃ found, (region.findRegionForAddress address).1 = .ok found ∧
    (Covers region.entries address → ∃ info, found = some info ∧ info.containsAddress address = true) ∧
    (¬Covers region.entries address → ¬InIoGap (keptEntries region.sortedEntries) address → found = none)

theorem findRegionForAddress_eq {region : PmaRegion} {regions : List PmaInfo}
    (h : region.consolidatedEntries.1 = .ok regions) (address : ℤ) :
    (region.findRegionForAddress address).1 = .ok (firstMatch regions address) := by
  rw [PmaRegion.findRegionForAddress]
  dsimp only
  rw [h]
  rfl

/-- The lookup is total and exact for every set of entries but the empty one, where it raises. -/
theorem findsExactly_iff (region : PmaRegion) (address : ℤ) : FindsExactly region address ↔ region.entries ≠ [] := by
  constructor
  · rintro ⟨found, hfound, -⟩ hnil
    rw [PmaRegion.findRegionForAddress, PmaRegion.consolidatedEntries, PmaRegion.sortedEntries,
      sortBy_eq_nil.mpr hnil] at hfound
    cases hfound
  · intro hne
    obtain ⟨regions, hregions, hfaithful⟩ := consolidatesFaithfully_of_ne_nil hne
    obtain ⟨hlookup, hgap⟩ := hfaithful address
    refine ⟨firstMatch regions address, findRegionForAddress_eq hregions address, fun hcovers => ?_, fun hnone hnoGap => ?_⟩
    · obtain ⟨info, -, hinfo, -, -⟩ := hlookup hcovers
      have hcontains := List.find?_some (p := fun region : PmaInfo => region.containsAddress address) hinfo
      exact ⟨info, hinfo, hcontains⟩
    · -- a region with the address would be in a gap
      refine List.find?_eq_none.mpr fun info hinfo hcontains => hnoGap (hgap hnone ⟨info, hinfo, hcontains⟩)

/-- The lookup in a set without entries raises. -/
theorem not_findsExactly_empty :
    (PmaRegion.findRegionForAddress ⟨[]⟩ 0x80000000).1 = .error .indexError ∧ ¬FindsExactly ⟨[]⟩ 0x80000000 := by
  refine ⟨rfl, ?_⟩
  rintro ⟨found, hfound, -⟩
  cases hfound

end Riescue.Pma
