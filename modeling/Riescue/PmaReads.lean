import Riescue.Pma

/-! Reading the PMA set. Consolidation grows stored entries, so a read is only harmless when it grows
nothing, or when nothing is added after it and no named hint takes part in the growth: then a second
consolidation finds the same regions again. -/

namespace Riescue.Pma
open StableSort PmaInfo

/-! ### What a call of consolidation changes -/

/-- Some turn of the loop grows the last region. -/
def growsLoop (last : PmaInfo) : List PmaInfo → Bool
  | [] => false
  | entry :: entries =>
      match turn last entry with
      | .append => growsLoop entry entries
      | .skip => growsLoop last entries
      | .grow _ => true

/-- Some turn of the loop grows a named hint, or grows a region by one. -/
def hintGrowsLoop (last : PmaInfo) : List PmaInfo → Bool
  | [] => false
  | entry :: entries =>
      match turn last entry with
      | .append => hintGrowsLoop entry entries
      | .skip => hintGrowsLoop last entries
      | .grow pmaSize =>
          last.isNamedHint || entry.isNamedHint || hintGrowsLoop (last.resize pmaSize) entries

namespace PmaRegion

/-- Consolidating the set grows a stored entry. -/
def grows (region : PmaRegion) : Bool :=
  match region.sortedEntries with
  | [] => false
  | first :: rest => growsLoop first rest

/-- Consolidating the set grows a named hint, or swallows one by growing. -/
def hintGrows (region : PmaRegion) : Bool :=
  match region.sortedEntries with
  | [] => false
  | first :: rest => hintGrowsLoop first rest

end PmaRegion

/-- Without growth the loop keeps every entry as it is. -/
theorem consolidateLoop_entries {last : Block} {entries : List PmaInfo}
    (h : growsLoop last.region entries = false) :
    (consolidateLoop last entries).flatMap Block.entries = last.entries ++ entries := by
  induction entries generalizing last with
  | nil => simp [consolidateLoop]
  | cons entry entries ih =>
      rw [growsLoop] at h
      rw [consolidateLoop]
      cases hturn : turn last.region entry with
      | append =>
          simp only [hturn] at h ⊢
          rw [List.flatMap_cons, ih h]
          rfl
      | skip =>
          simp only [hturn] at h ⊢
          rw [@ih ⟨last.region, last.swallowed ++ [entry]⟩ h]
          simp [Block.entries]
      | grow pmaSize =>
          simp only [hturn] at h
          cases h

/-- The entries a region has swallowed are passed over when they are met again. -/
def Passed (region : PmaInfo) (swallowed : List PmaInfo) : Prop :=
  ∀ entry ∈ swallowed, turn region entry = .skip

theorem turn_skip_iff {last entry : PmaInfo} :
    turn last entry = .skip ↔
      last.attribMatches entry = true ∧ last.contains entry = true ∧ entry.isNamedHint = false := by
  unfold turn
  split_ifs <;> simp_all

theorem consolidateLoop_passed {region : PmaInfo} {swallowed : List PmaInfo}
    (h : Passed region swallowed) (front back : List PmaInfo) :
    consolidateLoop ⟨region, front⟩ (swallowed ++ back) =
      consolidateLoop ⟨region, front ++ swallowed⟩ back := by
  induction swallowed generalizing front with
  | nil => simp
  | cons entry swallowed ih =>
      have hentry := h entry List.mem_cons_self
      rw [List.cons_append, consolidateLoop]
      simp only [hentry]
      rw [ih (fun other hother => h other (List.mem_cons_of_mem entry hother))]
      simp

/-- An entry that may have grown, but only at its end and only if it is no named hint. -/
structure GrownFrom (entry grown : PmaInfo) : Prop where
  same : grown = entry.resize grown.pmaSize
  le : entry.pmaSize ≤ grown.pmaSize
  hint : entry.isNamedHint = true → grown = entry

theorem GrownFrom.refl (entry : PmaInfo) : GrownFrom entry entry := ⟨rfl, le_rfl, fun _ => rfl⟩

/-- A turn that started a new region does so again after the entry has grown. -/
theorem turn_append_of_grown {last entry grown : PmaInfo} (hle : last.pmaAddress ≤ entry.pmaAddress)
    (h : turn last entry = .append) (hgrown : GrownFrom entry grown) :
    turn last grown = .append := by
  obtain ⟨hsame, hsize, hhint⟩ := hgrown
  have hmatch : last.attribMatches grown = last.attribMatches entry := by rw [hsame]; rfl
  have haddress : grown.pmaAddress = entry.pmaAddress := by rw [hsame]; rfl
  rcases turn_spec hle with ⟨-, hcase⟩ | ⟨hskip, -⟩ | ⟨pmaSize, hgrow, -⟩
  · rcases hcase with hdiffer | ⟨-, hnamed⟩ | ⟨hlt, hne, hio⟩
    · rw [turn, hmatch, if_pos hdiffer]
    · rw [hhint hnamed]
      exact h
    · have hnot : last.contains grown = false := by
        rw [← Bool.not_eq_true, contains_iff]
        unfold getEndAddress at hlt ⊢
        omega
      simp [turn, hnot, haddress, hne, hio]
  · rw [h] at hskip
    cases hskip
  · rw [h] at hgrow
    cases hgrow

theorem GrownFrom.trans {entry middle grown : PmaInfo} (h : GrownFrom entry middle)
    (h' : GrownFrom middle grown) : GrownFrom entry grown := by
  refine ⟨?_, h.le.trans h'.le, fun hhint => ?_⟩
  · rw [h'.same, h.same]
    rfl
  · rw [h'.hint (h.hint hhint ▸ hhint), h.hint hhint]

/-- A region that grows still passes over what it has swallowed, and over the entry it grew by. -/
theorem Passed.grow {last entry : PmaInfo} {swallowed : List PmaInfo} {pmaSize : ℤ}
    (h : Passed last swallowed) (hle : last.pmaAddress ≤ entry.pmaAddress)
    (hmatch : last.attribMatches entry = true) (hhint : entry.isNamedHint = false)
    (hend : last.pmaAddress + pmaSize = entry.getEndAddress)
    (hlt : last.getEndAddress < entry.getEndAddress) :
    Passed (last.resize pmaSize) (swallowed ++ [entry]) := by
  intro other hother
  refine turn_skip_iff.mpr ?_
  rcases List.mem_append.mp hother with hother | hother
  · obtain ⟨hsame, hcontains, hnot⟩ := turn_skip_iff.mp (h other hother)
    refine ⟨hsame, ?_, hnot⟩
    rw [contains_iff] at hcontains ⊢
    exact ⟨hcontains.1, (hcontains.2.trans hlt.le).trans hend.ge⟩
  · rw [List.mem_singleton.mp hother]
    exact ⟨hmatch, contains_iff.mpr ⟨hle, hend.ge⟩, hhint⟩

/-- Consolidating what a consolidation left behind finds the same blocks again. -/
theorem consolidateLoop_again {last : Block} {entries : List PmaInfo}
    (hordered : Ordered last.region entries) (hpassed : Passed last.region last.swallowed)
    (hhint : hintGrowsLoop last.region entries = false) :
    ∃ grown swallowed blocks, consolidateLoop last entries = ⟨grown, swallowed⟩ :: blocks ∧
      GrownFrom last.region grown ∧
      consolidateLoop ⟨grown, []⟩ (swallowed ++ blocks.flatMap Block.entries) =
        ⟨grown, swallowed⟩ :: blocks := by
  induction entries generalizing last with
  | nil =>
      refine ⟨last.region, last.swallowed, [], rfl, GrownFrom.refl _, ?_⟩
      rw [consolidateLoop_passed hpassed]
      rfl
  | cons entry entries ih =>
      rw [hintGrowsLoop] at hhint
      rw [consolidateLoop]
      rcases turn_spec hordered.head with ⟨hturn, -⟩ | ⟨hturn, -⟩ |
        ⟨pmaSize, hturn, hmatch, hlt, hend, -⟩
      · simp only [hturn] at hhint ⊢
        obtain ⟨grown, swallowed, blocks, hblocks, hgrown, hagain⟩ :=
          @ih ⟨entry, []⟩ hordered.next (fun _ h => absurd h List.not_mem_nil) hhint
        refine ⟨last.region, last.swallowed, _, rfl, GrownFrom.refl _, ?_⟩
        rw [consolidateLoop_passed hpassed, hblocks, List.flatMap_cons, Block.entries,
          List.cons_append, consolidateLoop]
        simp only [turn_append_of_grown hordered.head hturn hgrown, List.nil_append]
        rw [hagain]
      · simp only [hturn] at hhint ⊢
        refine @ih ⟨last.region, last.swallowed ++ [entry]⟩ hordered.skip ?_ hhint
        intro other hother
        rcases List.mem_append.mp hother with hother | hother
        · exact hpassed other hother
        · rw [List.mem_singleton.mp hother]
          exact hturn
      · simp only [hturn, Bool.or_eq_false_iff] at hhint ⊢
        obtain ⟨⟨hlast, hentry⟩, hrest⟩ := hhint
        obtain ⟨grown, swallowed, blocks, hblocks, hgrown, hagain⟩ :=
          @ih ⟨last.region.resize pmaSize, last.swallowed ++ [entry]⟩
            (hordered.skip.resize pmaSize) (hpassed.grow hordered.head hmatch hentry hend hlt) hrest
        have hstep : GrownFrom last.region (last.region.resize pmaSize) := by
          refine ⟨rfl, ?_, fun h => absurd h (by simp [hlast])⟩
          unfold getEndAddress at hlt hend
          change last.region.pmaSize ≤ pmaSize
          omega
        exact ⟨grown, swallowed, blocks, hblocks, hstep.trans hgrown, hagain⟩

/-- No address changes, so the stored entries stay in order. -/
theorem consolidateLoop_addresses (last : Block) (entries : List PmaInfo) :
    ((consolidateLoop last entries).flatMap Block.entries).map pmaAddress =
      (last.entries ++ entries).map pmaAddress := by
  induction entries generalizing last with
  | nil => simp [consolidateLoop]
  | cons entry entries ih =>
      rw [consolidateLoop]
      cases turn last.region entry with
      | append =>
          simp only [List.flatMap_cons, List.map_append, ih]
          simp [Block.entries]
      | skip =>
          simp only [ih]
          simp [Block.entries]
      | grow pmaSize =>
          simp only [ih]
          simp [Block.entries, PmaInfo.resize]

/-! ### Runs -/

/-- A call on the PMA set. -/
inductive Call where
  | addEntry (pmaInfo : PmaInfo)
  | addRegion (base size : ℤ) (type : MemoryType) (read write execute : Bool) (routingTo : RoutingTo)
      (combining' : Combining) (cacheability : Cacheability) (amoType : AmoType)
  | findRegionForAddress (address : ℤ)
  | consolidatedEntries
  deriving DecidableEq

/-- The call reads the set. -/
def Call.isRead : Call → Bool
  | .addEntry _ => false
  | .addRegion .. => false
  | .findRegionForAddress _ => true
  | .consolidatedEntries => true

namespace PmaRegion

/-- The set after a call. A call that raises leaves it as it was. -/
def step (region : PmaRegion) : Call → PmaRegion
  | .addEntry pmaInfo => region.addEntry pmaInfo
  | .addRegion base size type read write execute routingTo combining' cacheability amoType =>
      region.addRegion base size type read write execute routingTo combining' cacheability amoType
  | .findRegionForAddress address => (region.findRegionForAddress address).2
  | .consolidatedEntries => region.consolidatedEntries.2

def run (region : PmaRegion) (calls : List Call) : PmaRegion := calls.foldl step region

/-- Every read of the run grows nothing, or is followed by reads only and grows no named hint and by
no named hint. -/
def HarmlessReads (region : PmaRegion) : List Call → Prop
  | [] => True
  | call :: calls =>
      (call.isRead = true → region.grows = false ∨
        (region.hintGrows = false ∧ ∀ later ∈ calls, later.isRead = true)) ∧
      HarmlessReads (region.step call) calls

instance decidableHarmlessReads : (calls : List Call) → (region : PmaRegion) →
    Decidable (region.HarmlessReads calls)
  | [], _ => isTrue trivial
  | call :: calls, region =>
      have := decidableHarmlessReads calls (region.step call)
      inferInstanceAs (Decidable (_ ∧ _))

theorem step_read {region : PmaRegion} {call : Call} (h : call.isRead = true) :
    region.step call = region.consolidatedEntries.2 := by
  cases call with
  | addEntry => cases h
  | addRegion => cases h
  | findRegionForAddress address => rfl
  | consolidatedEntries => rfl

theorem step_add {call : Call} (h : call.isRead = false) :
    ∃ pmaInfo, ∀ region : PmaRegion, region.step call = region.addEntry pmaInfo := by
  cases call with
  | addEntry pmaInfo => exact ⟨pmaInfo, fun _ => rfl⟩
  | addRegion => exact ⟨_, fun _ => rfl⟩
  | findRegionForAddress => cases h
  | consolidatedEntries => cases h

theorem consolidatedEntries_congr {region region' : PmaRegion}
    (h : region.sortedEntries = region'.sortedEntries) :
    region.consolidatedEntries.1 = region'.consolidatedEntries.1 := by
  unfold consolidatedEntries
  rw [h]
  cases region'.sortedEntries <;> rfl

theorem sortedEntries_addEntry {region region' : PmaRegion}
    (h : region.sortedEntries = region'.sortedEntries) (pmaInfo : PmaInfo) :
    (region.addEntry pmaInfo).sortedEntries = (region'.addEntry pmaInfo).sortedEntries :=
  sortBy_append_congr h [pmaInfo]

/-- A read that grows nothing only sorts the entries. -/
theorem sortedEntries_read {region : PmaRegion} (h : region.grows = false) :
    region.consolidatedEntries.2.sortedEntries = region.sortedEntries := by
  unfold grows at h
  unfold consolidatedEntries
  cases hsorted : region.sortedEntries with
  | nil => exact hsorted
  | cons first rest =>
      rw [hsorted] at h
      have hentries := @consolidateLoop_entries ⟨first, []⟩ rest h
      simp only [sortedEntries, hentries]
      have hpairwise := sortBy_sorted pmaAddress region.entries
      rw [← sortedEntries, hsorted] at hpairwise
      exact sortBy_of_sorted hpairwise

/-- After a read that grows no named hint, consolidating again changes nothing and finds the same. -/
theorem consolidatedEntries_again {region : PmaRegion} (h : region.hintGrows = false) :
    region.consolidatedEntries.2.consolidatedEntries = region.consolidatedEntries := by
  unfold hintGrows at h
  cases hsorted : region.sortedEntries with
  | nil =>
      have hfails : region.consolidatedEntries = (.error .indexError, region) := by
        rw [consolidatedEntries, hsorted]
      rw [hfails, hfails]
  | cons first rest =>
      rw [hsorted] at h
      have hpairwise := sortBy_sorted pmaAddress region.entries
      rw [← sortedEntries, hsorted] at hpairwise
      obtain ⟨grown, swallowed, blocks, hblocks, -, hagain⟩ :=
        @consolidateLoop_again ⟨first, []⟩ rest hpairwise (fun _ h => absurd h List.not_mem_nil) h
      have hresult : region.consolidatedEntries = (.ok ((⟨grown, swallowed⟩ :: blocks).map Block.region),
          ⟨(⟨grown, swallowed⟩ :: blocks).flatMap Block.entries⟩) := by
        simp only [consolidatedEntries, hsorted, hblocks]
      -- the stored entries are in order already, so the second call meets the same blocks
      have hstored : PmaRegion.sortedEntries ⟨(⟨grown, swallowed⟩ :: blocks).flatMap Block.entries⟩ =
          (⟨grown, swallowed⟩ :: blocks).flatMap Block.entries := by
        refine sortBy_of_sorted (List.pairwise_map.mp ?_)
        rw [← hblocks, consolidateLoop_addresses]
        exact List.pairwise_map.mpr hpairwise
      rw [hresult, consolidatedEntries, hstored, List.flatMap_cons, Block.entries, List.cons_append]
      simp only [hagain]
      rfl

theorem run_reads {region : PmaRegion} (h : region.consolidatedEntries.2 = region)
    {calls : List Call} (hreads : ∀ call ∈ calls, call.isRead = true) : region.run calls = region := by
  induction calls with
  | nil => rfl
  | cons call calls ih =>
      rw [run, List.foldl_cons, step_read (hreads call List.mem_cons_self), h]
      exact ih fun later hlater => hreads later (List.mem_cons_of_mem call hlater)

/-- A run with harmless reads ends like the run of its additions alone. -/
theorem run_harmless {region region' : PmaRegion} {calls : List Call}
    (hsame : region.sortedEntries = region'.sortedEntries) (hharmless : region.HarmlessReads calls) :
    (region.run calls).consolidatedEntries.1 =
      (region'.run (calls.filter fun call => !call.isRead)).consolidatedEntries.1 := by
  induction calls generalizing region region' with
  | nil => exact consolidatedEntries_congr hsame
  | cons call calls ih =>
      obtain ⟨hcall, hcalls⟩ := hharmless
      cases hread : call.isRead with
      | false =>
          obtain ⟨pmaInfo, hadd⟩ := step_add hread
          rw [List.filter_cons_of_pos (by simp [hread])]
          refine ih ?_ hcalls
          rw [hadd, hadd]
          exact sortedEntries_addEntry hsame pmaInfo
      | true =>
          rw [List.filter_cons_of_neg (by simp [hread])]
          rcases hcall hread with hgrows | ⟨hhint, hreads⟩
          · refine ih ?_ hcalls
            rw [step_read hread, sortedEntries_read hgrows, hsame]
          · have hagain := consolidatedEntries_again hhint
            rw [List.filter_eq_nil_iff.mpr fun later hlater => by simp [hreads later hlater]]
            change ((region.step call).run calls).consolidatedEntries.1 = _
            rw [step_read hread, run_reads (congrArg Prod.snd hagain) hreads, hagain]
            exact consolidatedEntries_congr hsame

end PmaRegion

/-- Two runs with the same additions and harmless reads agree on the next consolidation. -/
theorem consolidatedEntries_of_harmless {region : PmaRegion} {calls calls' : List Call}
    (hadds : calls.filter (fun call => !call.isRead) = calls'.filter fun call => !call.isRead)
    (hharmless : region.HarmlessReads calls) (hharmless' : region.HarmlessReads calls') :
    (region.run calls).consolidatedEntries.1 = (region.run calls').consolidatedEntries.1 := by
  rw [PmaRegion.run_harmless rfl hharmless, PmaRegion.run_harmless rfl hharmless', hadds]

def memoryEntry (address size : ℤ) : PmaInfo := { pmaAddress := address, pmaSize := size }

def ioEntry (address size : ℤ) : PmaInfo :=
  { pmaMemoryType := .io, pmaAddress := address, pmaSize := size }

/-- A read between two additions and one at the end, where it grows the memory entry, change nothing. -/
theorem consolidatedEntries_of_harmless_reads :
    (PmaRegion.run ⟨[]⟩ [.addEntry (memoryEntry 0x1000 0x1000), .findRegionForAddress 0x1800,
        .addEntry (ioEntry 0x8000 0x1000), .addEntry (memoryEntry 0x2000 0x1000),
        .consolidatedEntries]).consolidatedEntries.1 =
      (PmaRegion.run ⟨[]⟩ [.addEntry (memoryEntry 0x1000 0x1000), .addEntry (ioEntry 0x8000 0x1000),
        .addEntry (memoryEntry 0x2000 0x1000)]).consolidatedEntries.1 := by
  exact consolidatedEntries_of_harmless (by decide +kernel) (by decide +kernel) (by decide +kernel)

/-- A memory region and a named hint right after it. -/
def hintCalls : List Call :=
  [.addEntry (memoryEntry 0x1000 0x1000),
    .addEntry { memoryEntry 0x2000 0x1000 with pmaName := "pma_hint" }]

/-- A named hint that the first consolidation merges into its neighbour comes back in the second one, and
an IO entry that a read has grown over a gap hides the entry added there afterwards. -/
theorem consolidatedEntries_depends_on_reads :
    (PmaRegion.run ⟨[]⟩ (hintCalls ++ [.consolidatedEntries])).consolidatedEntries.1 ≠
      (PmaRegion.run ⟨[]⟩ hintCalls).consolidatedEntries.1 ∧
    (PmaRegion.run ⟨[]⟩ [.addEntry (ioEntry 0x1000 0x1000), .addEntry (ioEntry 0x3000 0x1000),
        .findRegionForAddress 0x1000, .addEntry (memoryEntry 0x2000 0x1000)]).consolidatedEntries.1 ≠
      (PmaRegion.run ⟨[]⟩ [.addEntry (ioEntry 0x1000 0x1000), .addEntry (ioEntry 0x3000 0x1000),
        .addEntry (memoryEntry 0x2000 0x1000)]).consolidatedEntries.1 := by
  decide +kernel

end Riescue.Pma
