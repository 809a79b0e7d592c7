import Riescue.LibExcept
import Riescue.PageMappingsPick

/-! The non-leaf entries that a page mapping changes. A page whose walk is made to fault at a non-leaf level
must be alone under that entry, so it reserves all that the entry covers; the level is the one above the
leaf, unless the page has its leaf in the root table. -/

namespace Riescue.PageMappings
open Paging Pagetables Fallible

/-- A non-leaf value is significant and the plain value of the attribute is not: only then is it written. -/
def TakesEffect (featmgr : FeatMgr) (mapping : ParsedPageMapping) (attr : Attr) : Prop :=
  significant (insignificantValue featmgr featmgr.pagingMode attr) (mapping.plain attr) = none ∧
    significant (insignificantValue featmgr featmgr.pagingMode attr) (mapping.nonleaf attr) ≠ none

/-- The level that `pt_attrs_helper` picks: the one above the leaf, but below it for a leaf in the root. -/
def lowestLevel (mode : RiscvPagingModes) (finalPagesize : RiscvPageSizes) : ℕ :=
  if finalPagesize.ptLeafLevel + 1 = mode.maxLevels then finalPagesize.ptLeafLevel - 1
  else finalPagesize.ptLeafLevel + 1

section Helper
variable {featmgr : FeatMgr} {finalPagesize : RiscvPageSizes}

theorem levelsRange_eq {mode : RiscvPagingModes} (hleaf : finalPagesize.ptLeafLevel < mode.maxLevels)
    (hmode : 2 ≤ mode.maxLevels) :
    ∃ rest, levelsRange mode finalPagesize = lowestLevel mode finalPagesize :: rest := by
  have hcons : ∀ {lo hi : ℕ}, lo < hi → ∃ rest, levelRange lo hi = lo :: rest := by
    intro lo hi hlt
    obtain ⟨count, hcount⟩ := Nat.exists_eq_add_of_le' (show 1 ≤ hi - lo by omega)
    exact ⟨_, by rw [levelRange, hcount, List.range'_succ]⟩
  unfold levelsRange lowestLevel
  dsimp only
  split_ifs with honly hroot hroot
  · have hlevel : mode.maxLevels - 1 - 1 = finalPagesize.ptLeafLevel - 1 := by omega
    rw [hlevel]
    exact hcons (by omega)
  · omega
  · omega
  · have hlevel : mode.maxLevels - (mode.maxLevels - finalPagesize.ptLeafLevel) + 1 =
        finalPagesize.ptLeafLevel + 1 := by omega
    rw [hlevel]
    exact hcons (by omega)

/-- Another level is drawn with a probability of zero. -/
theorem drawLevel_cons (lowest : ℕ) (rest : List ℕ) (rng : RandNum) :
    (drawLevel (lowest :: rest) rng).1 = .ok lowest := by
  have hnever : (rng.withProbabilityOf 0).1 = false := by
    simp [RandNum.withProbabilityOf]
  unfold drawLevel
  rcases hdraw : rng.withProbabilityOf 0 with ⟨other, rng'⟩
  rw [hdraw] at hnever
  obtain rfl : other = false := hnever
  rfl

theorem entrySize_of_lt {mode : RiscvPagingModes} {level : ℕ} (h : level < mode.maxLevels) :
    entrySize mode level = .ok (2 ^ mode.indexShift level) := by
  rw [entrySize, RiscvPagingModes.indexBits_of_lt h]

theorem lowestLevel_lt {mode : RiscvPagingModes} (hleaf : finalPagesize.ptLeafLevel < mode.maxLevels) :
    lowestLevel mode finalPagesize < mode.maxLevels := by
  unfold lowestLevel
  split_ifs <;> omega

/-- Two mappings that ask for the same: they differ in the attributes of the levels only. -/
def SameRequest (mapping mapping' : ParsedPageMapping) : Prop :=
  ∃ level, mapping' = { mapping with level := level }

theorem SameRequest.trans {a b c : ParsedPageMapping} (hab : SameRequest a b) (hbc : SameRequest b c) :
    SameRequest a c := by
  obtain ⟨level, rfl⟩ := hab
  obtain ⟨level', rfl⟩ := hbc
  exact ⟨level', rfl⟩

theorem sameRequest_setLevel (mapping : ParsedPageMapping) (attr : Attr) (level : ℕ) (value : Option ℕ) :
    SameRequest mapping (mapping.setLevel attr level value) := ⟨_, rfl⟩

theorem sameRequest_setDefaults (mapping : ParsedPageMapping) (attr : Attr) (leafLevel leafBitVal : ℕ)
    (levels : List ℕ) : SameRequest mapping (mapping.setDefaults attr leafLevel leafBitVal levels) := by
  unfold ParsedPageMapping.setDefaults
  induction levels generalizing mapping with
  | nil => exact ⟨mapping.level, rfl⟩
  | cons level levels ih => exact (sameRequest_setLevel mapping attr level _).trans (ih _)

theorem SameRequest.takesEffect {mapping mapping' : ParsedPageMapping} (h : SameRequest mapping mapping')
    (featmgr : FeatMgr) (attr : Attr) : TakesEffect featmgr mapping' attr ↔ TakesEffect featmgr mapping attr := by
  obtain ⟨level, rfl⟩ := h
  exact Iff.rfl

/-- The reservation is a power of two with its mask. -/
def Sized (addrSize addrMask : ℕ) : Prop := ∃ k ≤ 64, addrSize = 2 ^ k ∧ addrMask = sizeMask (2 ^ k)

theorem indexShift_le {mode : RiscvPagingModes} {level : ℕ} (h : level < mode.maxLevels) :
    mode.indexShift level ≤ 64 := by
  have hwidth : mode.indexWidth ≤ 10 ∧ mode.maxLevels ≤ 5 := by cases mode <;> decide
  calc mode.indexShift level = 12 + mode.indexWidth * level := rfl
    _ ≤ 12 + 10 * 4 := Nat.add_le_add_left (Nat.mul_le_mul hwidth.1 (by omega)) 12
    _ ≤ 64 := by omega

/-- What one attribute does: without effect it leaves the reservation alone, and otherwise it writes at the
lowest level and the reservation covers the entry. -/
structure AttrStep (featmgr : FeatMgr) (finalPagesize : RiscvPageSizes) (attr : Attr)
    (state state' : PtState) : Prop where
  request : SameRequest state.mapping state'.mapping
  writes : state'.nonleafWrites = state.nonleafWrites ∧ ¬TakesEffect featmgr state.mapping attr ∨
    state'.nonleafWrites = (attr, lowestLevel featmgr.pagingMode finalPagesize) :: state.nonleafWrites ∧
      TakesEffect featmgr state.mapping attr
  size : state.addrSize ≤ state'.addrSize
  covers : TakesEffect featmgr state.mapping attr →
    2 ^ featmgr.pagingMode.indexShift (lowestLevel featmgr.pagingMode finalPagesize) ≤ state'.addrSize
  sized : Sized state.addrSize state.addrMask → Sized state'.addrSize state'.addrMask

theorem writeNonleaf_spec (hleaf : finalPagesize.ptLeafLevel < featmgr.pagingMode.maxLevels)
    (hmode : 2 ≤ featmgr.pagingMode.maxLevels) (attr : Attr) (value : ℕ) (state : PtState)
    (heffect : TakesEffect featmgr state.mapping attr) :
    ∃ state', writeNonleaf featmgr.pagingMode finalPagesize attr value state = .ok state' ∧
      AttrStep featmgr finalPagesize attr state state' := by
  obtain ⟨rest, hrange⟩ := levelsRange_eq hleaf hmode
  have hlevel := lowestLevel_lt hleaf
  have hdraw := drawLevel_cons (lowestLevel featmgr.pagingMode finalPagesize) rest state.rng
  unfold writeNonleaf
  rw [hrange]
  rcases hdrawn : drawLevel (lowestLevel featmgr.pagingMode finalPagesize :: rest) state.rng with ⟨level, rng⟩
  rw [hdrawn] at hdraw
  subst hdraw
  dsimp only
  rw [entrySize_of_lt hlevel]
  refine ⟨_, rfl, sameRequest_setLevel _ _ _ _, Or.inr ⟨rfl, heffect⟩, ?_, fun _ => ?_, fun hsized => ?_⟩
  · dsimp only
    split_ifs <;> omega
  · dsimp only
    split_ifs <;> omega
  · dsimp only
    split_ifs
    · exact hsized
    · exact ⟨_, indexShift_le hlevel, rfl, rfl⟩

theorem ptAttrsHelper_spec (hleaf : finalPagesize.ptLeafLevel < featmgr.pagingMode.maxLevels)
    (hmode : 2 ≤ featmgr.pagingMode.maxLevels) (attr : Attr) (state : PtState) :
    ∃ state', ptAttrsHelper featmgr featmgr.pagingMode finalPagesize attr state = .ok state' ∧
      AttrStep featmgr finalPagesize attr state state' := by
  unfold ptAttrsHelper
  dsimp only
  generalize hmapping : (if attr ∈ [Attr.u, .r, .w, .x, .a, .d] then
    state.mapping.setDefaults attr finalPagesize.ptLeafLevel (leafBitVal featmgr featmgr.pagingMode attr)
      (levelRange finalPagesize.ptLeafLevel featmgr.pagingMode.maxLevels) else state.mapping) = mapping
  have hrequest : SameRequest state.mapping mapping := by
    rw [← hmapping]
    split_ifs
    · exact sameRequest_setDefaults _ _ _ _ _
    · exact ⟨_, rfl⟩
  have hsame := hrequest.takesEffect featmgr attr
  cases hplain : significant (insignificantValue featmgr featmgr.pagingMode attr) (mapping.plain attr) with
  | some value =>
      have hnot : ¬TakesEffect featmgr state.mapping attr := by
        intro heffect
        have hnone := (hsame.mpr heffect).1
        rw [hplain] at hnone
        cases hnone
      exact ⟨_, rfl, hrequest.trans (sameRequest_setLevel _ _ _ _), Or.inl ⟨rfl, hnot⟩, le_rfl,
        fun heffect => absurd heffect hnot, id⟩
  | none =>
      cases hnonleaf : significant (insignificantValue featmgr featmgr.pagingMode attr) (mapping.nonleaf attr) with
      | none =>
          have hnot : ¬TakesEffect featmgr state.mapping attr :=
            fun heffect => (hsame.mpr heffect).2 hnonleaf
          exact ⟨_, rfl, hrequest, Or.inl ⟨rfl, hnot⟩, le_rfl, fun heffect => absurd heffect hnot, id⟩
      | some value =>
          have heffect : TakesEffect featmgr mapping attr := ⟨hplain, by rw [hnonleaf]; exact Option.some_ne_none _⟩
          obtain ⟨state', hrun, hstep⟩ :=
            writeNonleaf_spec hleaf hmode attr value { state with mapping := mapping } heffect
          refine ⟨state', hrun, hrequest.trans hstep.request, ?_, hstep.size, fun h => hstep.covers (hsame.mpr h),
            hstep.sized⟩
          rcases hstep.writes with ⟨-, hnot⟩ | ⟨hwrites, -⟩
          · exact absurd heffect hnot
          · exact Or.inr ⟨hwrites, hsame.mp heffect⟩

/-- What a list of attributes does. -/
structure AttrsRun (featmgr : FeatMgr) (finalPagesize : RiscvPageSizes) (attrs : List Attr)
    (state state' : PtState) : Prop where
  request : SameRequest state.mapping state'.mapping
  writes : ∀ write, write ∈ state'.nonleafWrites ↔ write ∈ state.nonleafWrites ∨
    (write.1 ∈ attrs ∧ TakesEffect featmgr state.mapping write.1 ∧
      write.2 = lowestLevel featmgr.pagingMode finalPagesize)
  size : state.addrSize ≤ state'.addrSize
  covers : ∀ attr ∈ attrs, TakesEffect featmgr state.mapping attr →
    2 ^ featmgr.pagingMode.indexShift (lowestLevel featmgr.pagingMode finalPagesize) ≤ state'.addrSize
  sized : Sized state.addrSize state.addrMask → Sized state'.addrSize state'.addrMask

/-- The loop over the attributes, by induction on them. -/
theorem ptAttrs_spec (hleaf : finalPagesize.ptLeafLevel < featmgr.pagingMode.maxLevels)
    (hmode : 2 ≤ featmgr.pagingMode.maxLevels) (attrs : List Attr) (state : PtState) :
    ∃ state', ptAttrs featmgr featmgr.pagingMode finalPagesize attrs state = .ok state' ∧
      AttrsRun featmgr finalPagesize attrs state state' := by
  induction attrs generalizing state with
  | nil => exact ⟨state, rfl, ⟨_, rfl⟩, by simp, le_rfl, by simp, id⟩
  | cons attr attrs ih =>
      obtain ⟨middle, hfirst, hstep⟩ := ptAttrsHelper_spec hleaf hmode attr state
      obtain ⟨state', hrest, hrun⟩ := ih middle
      have hsame := fun other => hstep.request.takesEffect featmgr other
      refine ⟨state', ?_, hstep.request.trans hrun.request, fun write => ?_, hstep.size.trans hrun.size, ?_,
        fun hsized => hrun.sized (hstep.sized hsized)⟩
      · rw [ptAttrs, hfirst]
        exact hrest
      · rw [hrun.writes, hsame, List.mem_cons]
        rcases hstep.writes with ⟨hwrites, hnot⟩ | ⟨hwrites, heffect⟩
        · rw [hwrites]
          refine or_congr_right ⟨fun h => ⟨Or.inr h.1, h.2⟩, ?_⟩
          rintro ⟨hattr | hattr, heffect, hlevel⟩
          · exact absurd (hattr ▸ heffect) hnot
          · exact ⟨hattr, heffect, hlevel⟩
        · rw [hwrites, List.mem_cons]
          constructor
          · rintro ((rfl | hold) | ⟨hattr, hlater⟩)
            · exact Or.inr ⟨Or.inl rfl, heffect, rfl⟩
            · exact Or.inl hold
            · exact Or.inr ⟨Or.inr hattr, hlater⟩
          · rintro (hold | ⟨hattr | hattr, hlater, hlevel⟩)
            · exact Or.inl (Or.inr hold)
            · exact Or.inl (Or.inl (Prod.ext hattr hlevel))
            · exact Or.inr ⟨hattr, hlater, hlevel⟩
      · intro other hother heffect
        rcases List.mem_cons.mp hother with rfl | hother
        · exact (hstep.covers heffect).trans hrun.size
        · exact hrun.covers other hother ((hsame other).mpr heffect)

end Helper

/-! ### The whole reservation -/

/-- The checks before the size is picked notice every non-leaf value that takes effect. -/
theorem hasVsNonleafConstraints_of_takesEffect {featmgr : FeatMgr} {mapping : ParsedPageMapping} {attr : Attr}
    (hattr : attr ∈ attrOrder) (h : TakesEffect featmgr mapping attr) :
    hasVsNonleafConstraints mapping = true := by
  obtain ⟨value, hvalue, hne⟩ : ∃ value, mapping.nonleaf attr = some value ∧
      value ≠ insignificantValue featmgr featmgr.pagingMode attr := by
    have hnonleaf := h.2
    cases hvalue : mapping.nonleaf attr with
    | none =>
        rw [hvalue] at hnonleaf
        exact absurd rfl hnonleaf
    | some value =>
        refine ⟨value, rfl, fun heq => hnonleaf ?_⟩
        rw [hvalue, significant, if_pos heq]
  have hcheck : ∃ check ∈ vsNonleafChecks, check.1 = attr ∧ ∀ insignificant, check.2 = some insignificant →
      insignificant = insignificantValue featmgr featmgr.pagingMode attr := by
    simp only [attrOrder, List.mem_cons, List.not_mem_nil, or_false] at hattr
    rcases hattr with rfl | rfl | rfl | rfl | rfl | rfl | rfl | rfl | rfl | rfl <;>
      simp [vsNonleafChecks, insignificantValue, bitValues]
  obtain ⟨check, hmem, rfl, hinsignificant⟩ := hcheck
  refine List.any_eq_true.mpr ⟨check, hmem, ?_⟩
  rw [hvalue]
  cases hsecond : check.2 with
  | none => rfl
  | some insignificant =>
      rw [hinsignificant insignificant hsecond]
      exact decide_eq_true hne

theorem memory_eq_two_pow (pagesize : RiscvPageSizes) : ∃ k ≤ 64, pagesize.memory = 2 ^ k := by
  cases pagesize with
  | s4kb => exact ⟨12, by decide, rfl⟩
  | s64kb => exact ⟨16, by decide, rfl⟩
  | s4mb => exact ⟨22, by decide, rfl⟩
  | s2mb => exact ⟨21, by decide, rfl⟩
  | s1gb => exact ⟨30, by decide, rfl⟩
  | s512gb => exact ⟨39, by decide, rfl⟩
  | s256tb => exact ⟨48, by decide, rfl⟩

theorem sized_memory (pagesize : RiscvPageSizes) : Sized pagesize.memory pagesize.addressMask := by
  obtain ⟨k, hk, hmemory⟩ := memory_eq_two_pow pagesize
  exact ⟨k, hk, hmemory, by rw [RiscvPageSizes.addressMask, hmemory]⟩

theorem ptLeafLevel_lt {napotSupported : Bool} {mode : RiscvPagingModes} (hmode : mode ≠ .disable)
    {pagesize : RiscvPageSizes} (h : pagesize ∈ validPagesizes napotSupported mode) :
    pagesize.ptLeafLevel < mode.maxLevels := by
  have hall : mode = .disable ∨ ∀ pagesize ∈ validPagesizes napotSupported mode,
      pagesize.ptLeafLevel < mode.maxLevels := by
    cases napotSupported <;> cases mode <;> decide
  exact hall.resolve_left hmode pagesize h

theorem two_le_maxLevels {mode : RiscvPagingModes} (hmode : mode ≠ .disable) : 2 ≤ mode.maxLevels := by
  cases mode with
  | disable => exact absurd rfl hmode
  | sv32 | sv39 | sv48 | sv57 => decide

theorem Drawable.valid {napotSupported : Bool} {mode : RiscvPagingModes} {specified : List String}
    {excludeLargest : Bool} {pagesize : RiscvPageSizes}
    (h : Drawable napotSupported mode specified excludeLargest pagesize) :
    pagesize ∈ validPagesizes napotSupported mode := by
  rcases h with ⟨-, word, -, hselected⟩ | ⟨-, -, hdefault⟩
  · exact List.mem_of_find?_eq_some hselected
  · unfold defaultPagesizes at hdefault
    dsimp only at hdefault
    split_ifs at hdefault
    · exact (List.mem_filter.mp hdefault).1
    · exact List.mem_of_mem_erase (List.mem_filter.mp hdefault).1
    · exact hdefault
    · exact List.mem_of_mem_erase hdefault

theorem forced_lt {featmgr : FeatMgr} (hmode : featmgr.pagingMode ≠ .disable) {excludeLargest : Bool}
    {specified : List String} {drawn : RiscvPageSizes}
    (h : Drawable featmgr.svnapot featmgr.pagingMode specified excludeLargest drawn) (hasLinkedPages : Bool) :
    (forced featmgr hasLinkedPages drawn).ptLeafLevel < featmgr.pagingMode.maxLevels := by
  have htwo := two_le_maxLevels hmode
  unfold forced
  split_ifs
  · exact Nat.lt_of_lt_of_le (by decide) htwo
  · exact ptLeafLevel_lt hmode h.valid

/-- The entry that a level of the walk of the mapping goes through belongs to the mapping alone: it is
above the leaf, and the mapping reserves all that it covers. -/
structure OwnsEntry (mode : RiscvPagingModes) (mapping : ParsedPageMapping) (level : ℕ) : Prop where
  aboveLeaf : ∃ pagesize, mapping.finalPagesize = some pagesize ∧ pagesize.ptLeafLevel < level
  inWalk : level < mode.maxLevels
  size : ∃ bits, mode.indexBits level = .ok bits ∧ 2 ^ bits.2 ≤ mapping.addressSize
  mask : ∃ k ≤ 64, mapping.addressSize = 2 ^ k ∧ mapping.addressMask = 2 ^ 64 - 2 ^ k

/-- Every non-leaf value that was written is at a level whose entry the mapping owns. -/
def OwnsWrites (mode : RiscvPagingModes) (state : PtState) : Prop :=
  ∀ write ∈ state.nonleafWrites, OwnsEntry mode state.mapping write.2

/-- The reservation after the attributes: `modify_pt` replaces it by a top level entry, which is the largest
there is. -/
theorem reservePagesize_ok {featmgr : FeatMgr} (hmode : featmgr.pagingMode ≠ .disable)
    {mapping : ParsedPageMapping} {finalPagesize : RiscvPageSizes}
    (hleaf : finalPagesize.ptLeafLevel < featmgr.pagingMode.maxLevels) (physAddr : Option ParsedAddr)
    (rng : RandNum) (hmodifyLeaf : mapping.modifyLeafPt ≠ 1) (hmodifyNonleaf : mapping.modifyNonleafPt ≠ 1) :
    ∃ state phys, reservePagesize featmgr mapping physAddr
        (finalPagesize, finalPagesize.memory, finalPagesize.addressMask) rng = .ok (state, phys) ∧
      state.mapping.finalPagesize = some finalPagesize ∧
      (∀ write, write ∈ state.nonleafWrites ↔ write.1 ∈ attrOrder ∧ TakesEffect featmgr mapping write.1 ∧
        write.2 = lowestLevel featmgr.pagingMode finalPagesize) ∧
      Sized state.mapping.addressSize state.mapping.addressMask ∧
      ∀ attr ∈ attrOrder, TakesEffect featmgr mapping attr →
        2 ^ featmgr.pagingMode.indexShift (lowestLevel featmgr.pagingMode finalPagesize) ≤
          state.mapping.addressSize := by
  have htwo := two_le_maxLevels hmode
  obtain ⟨state, hattrs, hrun⟩ := ptAttrs_spec hleaf htwo attrOrder
    ⟨mapping, finalPagesize.memory, finalPagesize.addressMask, rng, []⟩
  have hsized := hrun.sized (sized_memory finalPagesize)
  obtain ⟨level, hrequest⟩ := hrun.request
  have hfinal : ∀ state : PtState, state.mapping.modifyLeafPt ≠ 1 → state.mapping.modifyNonleafPt ≠ 1 →
      ∃ phys, (modifyNonleafPt featmgr.pagingMode finalPagesize state >>= fun state =>
        finish finalPagesize state physAddr) = .ok phys ∧
        phys.1.mapping.finalPagesize = some finalPagesize ∧ phys.1.nonleafWrites = state.nonleafWrites ∧
        phys.1.mapping.addressSize = state.addrSize ∧ phys.1.mapping.addressMask = state.addrMask := by
    intro state hleafPt hnonleafPt
    unfold modifyNonleafPt finish
    rw [if_neg hnonleafPt]
    exact ⟨_, if_neg (by simp [hleafPt, hnonleafPt]), rfl, rfl, rfl, rfl⟩
  have hstart : reservePagesize featmgr mapping physAddr
      (finalPagesize, finalPagesize.memory, finalPagesize.addressMask) rng =
        (modifyPt featmgr.pagingMode state >>= fun state =>
          modifyNonleafPt featmgr.pagingMode finalPagesize state >>= fun state =>
            finish finalPagesize state physAddr) := by
    unfold reservePagesize
    dsimp only
    rw [hattrs]
    rfl
  have hwrites : ∀ write, write ∈ state.nonleafWrites ↔ write.1 ∈ attrOrder ∧
      TakesEffect featmgr mapping write.1 ∧ write.2 = lowestLevel featmgr.pagingMode finalPagesize := by
    intro write
    rw [hrun.writes]
    simp
  have hkeepLeaf : state.mapping.modifyLeafPt ≠ 1 := by
    rw [hrequest]
    exact hmodifyLeaf
  have hkeepNonleaf : state.mapping.modifyNonleafPt ≠ 1 := by
    rw [hrequest]
    exact hmodifyNonleaf
  rw [hstart]
  unfold modifyPt
  split_ifs with hmodify
  · have htop : featmgr.pagingMode.maxLevels - 1 < featmgr.pagingMode.maxLevels := by omega
    rw [entrySize_of_lt htop]
    obtain ⟨phys, hrest, hsize, hlist, haddr, hmask⟩ := hfinal
      { state with
        addrSize := 2 ^ featmgr.pagingMode.indexShift (featmgr.pagingMode.maxLevels - 1)
        addrMask := sizeMask (2 ^ featmgr.pagingMode.indexShift (featmgr.pagingMode.maxLevels - 1)) }
      hkeepLeaf hkeepNonleaf
    refine ⟨phys.1, phys.2, hrest, hsize, by simpa only [hlist] using hwrites, ?_, fun attr _ _ => ?_⟩
    · rw [haddr, hmask]
      exact ⟨_, indexShift_le htop, rfl, rfl⟩
    · have hlowest := lowestLevel_lt hleaf
      rw [haddr]
      refine Nat.pow_le_pow_right (by omega) ?_
      exact Nat.add_le_add_left (Nat.mul_le_mul_left _ (by omega)) 12
  · obtain ⟨phys, hrest, hsize, hlist, haddr, hmask⟩ := hfinal state hkeepLeaf hkeepNonleaf
    refine ⟨phys.1, phys.2, hrest, hsize, by simpa only [hlist] using hwrites, ?_, fun attr hattr heffect => ?_⟩
    · rw [haddr, hmask]
      exact hsized
    · rw [haddr]
      exact hrun.covers attr hattr heffect

theorem modifyPt_ok {mode : RiscvPagingModes} {state state' : PtState} (h : modifyPt mode state = .ok state') :
    state'.mapping = state.mapping := by
  unfold modifyPt at h
  split_ifs at h
  · obtain ⟨size, -, h⟩ := bind_ok h
    obtain rfl := Except.ok.inj h
    rfl
  · rw [Except.ok.inj h]

theorem modifyNonleafPt_ok {mode : RiscvPagingModes} {finalPagesize : RiscvPageSizes} {state state' : PtState}
    (h : modifyNonleafPt mode finalPagesize state = .ok state') : state'.mapping = state.mapping := by
  unfold modifyNonleafPt at h
  split_ifs at h
  · obtain ⟨size, -, h⟩ := bind_ok h
    obtain rfl := Except.ok.inj h
    rfl
  · rw [Except.ok.inj h]

theorem finish_ok {finalPagesize : RiscvPageSizes} {state : PtState} {physAddr : Option ParsedAddr}
    {out : PtState × Option ParsedAddr} (h : finish finalPagesize state physAddr = .ok out) :
    ¬(state.mapping.modifyLeafPt = 1 ∨ state.mapping.modifyNonleafPt = 1) := by
  intro hmodify
  unfold finish at h
  dsimp only at h
  rw [if_pos hmodify] at h
  cases h

/-- A page whose entries are to be modified needs g-stage page sizes, so for it the call raises. -/
theorem reservePagesize_modify {featmgr : FeatMgr} (hmode : featmgr.pagingMode ≠ .disable)
    {mapping : ParsedPageMapping} {picked : RiscvPageSizes × ℕ × ℕ}
    (hleaf : picked.1.ptLeafLevel < featmgr.pagingMode.maxLevels) {physAddr : Option ParsedAddr} {rng : RandNum}
    {out : PtState × Option ParsedAddr} (h : reservePagesize featmgr mapping physAddr picked rng = .ok out) :
    mapping.modifyLeafPt ≠ 1 ∧ mapping.modifyNonleafPt ≠ 1 := by
  obtain ⟨state, hattrs, hrun⟩ := ptAttrs_spec hleaf (two_le_maxLevels hmode) attrOrder
    ⟨mapping, picked.2.1, picked.2.2, rng, []⟩
  obtain ⟨first, hfirst, h⟩ := bind_ok h
  obtain rfl := Except.ok.inj (hattrs.symm.trans hfirst)
  obtain ⟨second, hsecond, h⟩ := bind_ok h
  obtain ⟨third, hthird, h⟩ := bind_ok h
  have hmapping : third.mapping = state.mapping := (modifyNonleafPt_ok hthird).trans (modifyPt_ok hsecond)
  have hmodify := finish_ok h
  obtain ⟨level, hrequest⟩ := hrun.request
  rw [hmapping, hrequest] at hmodify
  exact not_or.mp hmodify

/-- The mapping writes a non-leaf value, the request selects the size that has its leaf in the root table,
and nothing keeps the call from using it. -/
structure Exposed (featmgr : FeatMgr) (mapping : ParsedPageMapping) (hasLinkedPages : Bool) : Prop where
  paging : featmgr.pagingMode ≠ .disable
  kept : featmgr.all4kbPages = true → hasLinkedPages = true
  modify : mapping.modifyLeafPt ≠ 1 ∧ mapping.modifyNonleafPt ≠ 1
  effect : ∃ attr ∈ attrOrder, TakesEffect featmgr mapping attr
  root : ∃ pagesize, Selectable featmgr.svnapot featmgr.pagingMode mapping.pagesizes pagesize ∧
    pagesize.ptLeafLevel + 1 = featmgr.pagingMode.maxLevels

/-- What `randomize_pagesize` does once the size is drawn. -/
theorem randomizePagesize_eq {featmgr : FeatMgr} (hmode : featmgr.pagingMode ≠ .disable)
    {mapping : ParsedPageMapping} {hasLinkedPages : Bool} {physAddr : Option ParsedAddr} {rng rng' : RandNum}
    {picked : RiscvPageSizes × ℕ × ℕ}
    (h : pickPagesize featmgr mapping.pagesizes featmgr.pagingMode hasLinkedPages
      (hasVsNonleafConstraints mapping || decide (mapping.modifyNonleafPt ≠ 0)) rng = (.ok picked, rng')) :
    randomizePagesize featmgr mapping hasLinkedPages physAddr rng =
      reservePagesize featmgr mapping physAddr picked rng' := by
  unfold randomizePagesize
  rw [if_neg hmode]
  dsimp only
  rw [h]

/-- A size that leaves a non-leaf level: the written values are at the level above the leaf. -/
theorem ownsWrites_of_lt {featmgr : FeatMgr} (hmode : featmgr.pagingMode ≠ .disable)
    {mapping : ParsedPageMapping} {finalPagesize : RiscvPageSizes}
    (hleaf : finalPagesize.ptLeafLevel < featmgr.pagingMode.maxLevels)
    (hroot : (∃ attr ∈ attrOrder, TakesEffect featmgr mapping attr) →
      finalPagesize.ptLeafLevel + 1 ≠ featmgr.pagingMode.maxLevels)
    {physAddr : Option ParsedAddr} {rng : RandNum} {out : PtState × Option ParsedAddr}
    (h : reservePagesize featmgr mapping physAddr
      (finalPagesize, finalPagesize.memory, finalPagesize.addressMask) rng = .ok out) :
    OwnsWrites featmgr.pagingMode out.1 := by
  obtain ⟨hmodifyLeaf, hmodifyNonleaf⟩ := reservePagesize_modify hmode hleaf h
  obtain ⟨state, phys, hrun, hfinal, hwrites, hsized, hcovers⟩ :=
    reservePagesize_ok hmode hleaf physAddr rng hmodifyLeaf hmodifyNonleaf
  obtain rfl := Except.ok.inj (hrun.symm.trans h)
  intro write hwrite
  obtain ⟨hattr, heffect, hlevel⟩ := (hwrites write).mp hwrite
  have hnotRoot := hroot ⟨write.1, hattr, heffect⟩
  have hlowest : write.2 = finalPagesize.ptLeafLevel + 1 := by rw [hlevel, lowestLevel, if_neg hnotRoot]
  have hinWalk : write.2 < featmgr.pagingMode.maxLevels := by omega
  obtain ⟨k, hk, hsize, hmask⟩ := hsized
  refine ⟨⟨finalPagesize, hfinal, by omega⟩, hinWalk, ⟨_, RiscvPagingModes.indexBits_of_lt hinWalk, ?_⟩,
    k, hk, hsize, by rw [hmask, sizeMask_two_pow hk]⟩
  rw [hlevel]
  exact hcovers write.1 hattr heffect

/-- An exposed mapping is given the size with its leaf in the root table by some random choice, and the value
is then written below the leaf. -/
theorem Exposed.exists_not_ownsWrites {featmgr : FeatMgr} {mapping : ParsedPageMapping} {hasLinkedPages : Bool}
    (h : Exposed featmgr mapping hasLinkedPages) (physAddr : Option ParsedAddr) :
    ∃ rng out, randomizePagesize featmgr mapping hasLinkedPages physAddr rng = .ok out ∧
      ¬OwnsWrites featmgr.pagingMode out.1 := by
  obtain ⟨attr, hattr, heffect⟩ := h.effect
  obtain ⟨pagesize, hselectable, hroot⟩ := h.root
  have hkept : forced featmgr hasLinkedPages pagesize = pagesize :=
    if_neg fun hforced => hforced.2 (h.kept hforced.1)
  have hdrawable : Drawable featmgr.svnapot featmgr.pagingMode mapping.pagesizes
      (hasVsNonleafConstraints mapping || decide (mapping.modifyNonleafPt ≠ 0)) pagesize := Or.inl hselectable
  obtain ⟨draw, hdraw⟩ := exists_pickPagesize hdrawable hasLinkedPages
  have hpick := hdraw []
  rw [hkept] at hpick
  have hleaf : pagesize.ptLeafLevel < featmgr.pagingMode.maxLevels := by omega
  obtain ⟨state, phys, hrun, hfinal, hwrites, -, -⟩ :=
    reservePagesize_ok h.paging hleaf physAddr ⟨[]⟩ h.modify.1 h.modify.2
  refine ⟨⟨[draw]⟩, (state, phys), (randomizePagesize_eq h.paging hpick).trans hrun, fun howns => ?_⟩
  have hwrite := (hwrites (attr, lowestLevel featmgr.pagingMode pagesize)).mpr ⟨hattr, heffect, rfl⟩
  obtain ⟨other, hother, habove⟩ := (howns _ hwrite).aboveLeaf
  obtain rfl := Option.some.inj (hfinal.symm.trans hother)
  rw [lowestLevel, if_pos hroot] at habove
  omega

/-- With a non-leaf value that takes effect the largest size is excluded, so only the request can select it. -/
theorem ownsWrites_of_not_exposed {featmgr : FeatMgr} {mapping : ParsedPageMapping} {hasLinkedPages : Bool}
    (hnot : ¬Exposed featmgr mapping hasLinkedPages) {physAddr : Option ParsedAddr} {rng : RandNum}
    {out : PtState × Option ParsedAddr}
    (h : randomizePagesize featmgr mapping hasLinkedPages physAddr rng = .ok out) :
    OwnsWrites featmgr.pagingMode out.1 := by
  by_cases hmode : featmgr.pagingMode = .disable
  · unfold randomizePagesize at h
    rw [if_pos hmode] at h
    obtain rfl := Except.ok.inj h
    intro write hwrite
    cases hwrite
  · obtain ⟨drawn, hdrawn, hpicked⟩ := pickPagesize_spec featmgr mapping.pagesizes featmgr.pagingMode
      hasLinkedPages (hasVsNonleafConstraints mapping || decide (mapping.modifyNonleafPt ≠ 0)) rng
    have hleaf := forced_lt hmode hdrawn hasLinkedPages
    rcases hpick : pickPagesize featmgr mapping.pagesizes featmgr.pagingMode hasLinkedPages
      (hasVsNonleafConstraints mapping || decide (mapping.modifyNonleafPt ≠ 0)) rng with ⟨result, rng'⟩
    rw [hpick] at hpicked
    subst hpicked
    rw [randomizePagesize_eq hmode hpick] at h
    refine ownsWrites_of_lt hmode hleaf ?_ h
    rintro ⟨attr, hattr, htakes⟩ hroot
    have htwo := two_le_maxLevels hmode
    by_cases hforced : featmgr.all4kbPages ∧ ¬hasLinkedPages
    · rw [forced, if_pos hforced] at hroot
      have hzero : RiscvPageSizes.s4kb.ptLeafLevel = 0 := rfl
      omega
    · rw [forced, if_neg hforced] at hroot
      rcases hdrawn with hselectable | ⟨-, -, hdefault⟩
      · refine hnot ⟨hmode, fun hall => ?_, reservePagesize_modify hmode hleaf h, ⟨attr, hattr, htakes⟩, drawn,
          hselectable, hroot⟩
        by_contra hlinked
        exact hforced ⟨hall, hlinked⟩
      · have hexclude : (hasVsNonleafConstraints mapping || decide (mapping.modifyNonleafPt ≠ 0)) = true := by
          rw [hasVsNonleafConstraints_of_takesEffect hattr htakes, Bool.true_or]
        unfold defaultPagesizes at hdefault
        dsimp only at hdefault
        rw [if_pos hexclude] at hdefault
        have hfilter := (List.mem_filter.mp hdefault).2
        simp only [decide_eq_true_eq] at hfilter
        exact hfilter hroot

/-- Non-leaf entries are owned, for all random choices, by every mapping that is not exposed, and by no
other. -/
theorem randomizePagesize_ownsWrites_iff (featmgr : FeatMgr) (mapping : ParsedPageMapping) (hasLinkedPages : Bool)
    (physAddr : Option ParsedAddr) :
    (∀ rng out, randomizePagesize featmgr mapping hasLinkedPages physAddr rng = .ok out →
      OwnsWrites featmgr.pagingMode out.1) ↔ ¬Exposed featmgr mapping hasLinkedPages := by
  constructor
  · intro howns hexposed
    obtain ⟨rng, out, hrun, hnot⟩ := hexposed.exists_not_ownsWrites physAddr
    exact hnot (howns rng out hrun)
  · intro hnot rng out hrun
    exact ownsWrites_of_not_exposed hnot hrun

/-- A page of one gigabyte in Sv39 with `v_nonleaf=0`: the bit is cleared at level 1, below the leaf. -/
theorem not_ownsWrites :
    ¬∀ (featmgr : FeatMgr) (mapping : ParsedPageMapping) (hasLinkedPages : Bool) (physAddr : Option ParsedAddr)
      (rng : RandNum) (out : PtState × Option ParsedAddr),
      randomizePagesize featmgr mapping hasLinkedPages physAddr rng = .ok out →
        OwnsWrites featmgr.pagingMode out.1 := by
  intro h
  let mapping : ParsedPageMapping := { ParsedPageMapping.default with
    nonleaf := fun attr => if attr = .v then some 0 else ParsedPageMapping.default.nonleaf attr
    pagesizes := ["1gb"] }
  have hexposed : Exposed { pagingMode := .sv39 } mapping false :=
    ⟨by decide, by decide, ⟨by decide, by decide⟩, ⟨.v, by decide, by decide, by decide⟩, .s1gb,
      ⟨by decide, "1gb", by decide, by decide +kernel⟩, rfl⟩
  obtain ⟨rng, out, hrun, hnot⟩ := hexposed.exists_not_ownsWrites none
  exact hnot (h _ _ _ _ rng out hrun)

end Riescue.PageMappings
