import Riescue.PageMappings

/-! What `pick_pagesize` makes of a request. The sizes are drawn by weight from those the request names, or
from all sizes of the mode when none of the named ones has a weight. -/

namespace Riescue.PageMappings
open Paging

theorem mem_keys_allowedPagesizes {valid : List RiscvPageSizes} {specified : List String}
    {pagesize : RiscvPageSizes} :
    pagesize ∈ (allowedPagesizes valid specified).map Prod.fst ↔
      ∃ word ∈ specified, selectedPagesize valid word = some pagesize := by
  unfold allowedPagesizes
  induction specified using List.reverseRecOn with
  | nil => simp
  | append_singleton specified word ih =>
      rw [List.foldl_concat]
      simp only [List.mem_append, List.mem_singleton, or_and_right, exists_or, exists_eq_left]
      cases hword : selectedPagesize valid word with
      | none => simp only [ih, reduceCtorEq, or_false]
      | some selected =>
          simp only [OrderedDict.mem_keys_insert, ih, Option.some.injEq]
          exact or_comm.trans (or_congr_right eq_comm)

theorem weights_of_mem_allowedPagesizes {valid : List RiscvPageSizes} {specified : List String}
    {choice : RiscvPageSizes × ℕ} (h : choice ∈ allowedPagesizes valid specified) :
    choice.2 = choice.1.weights := by
  unfold allowedPagesizes at h
  induction specified using List.reverseRecOn with
  | nil => cases h
  | append_singleton specified word ih =>
      rw [List.foldl_concat] at h
      cases hword : selectedPagesize valid word with
      | none =>
          rw [hword] at h
          exact ih h
      | some selected =>
          rw [hword] at h
          rcases OrderedDict.eq_or_mem_of_mem_insert h with hold | rfl
          · exact ih hold
          · rfl

/-- The sizes allowed by a request are those that its words select, with their weights. -/
theorem mem_allowedPagesizes {valid : List RiscvPageSizes} {specified : List String} {pagesize : RiscvPageSizes}
    {weight : ℕ} :
    (pagesize, weight) ∈ allowedPagesizes valid specified ↔
      weight = pagesize.weights ∧ ∃ word ∈ specified, selectedPagesize valid word = some pagesize := by
  constructor
  · intro h
    exact ⟨weights_of_mem_allowedPagesizes h, mem_keys_allowedPagesizes.mp (List.mem_map_of_mem h)⟩
  · rintro ⟨rfl, hselected⟩
    obtain ⟨choice, hmem, rfl⟩ := List.mem_map.mp (mem_keys_allowedPagesizes.mpr hselected)
    rw [← weights_of_mem_allowedPagesizes hmem]
    exact hmem

/-- A size that the request selects and that can be drawn. -/
def Selectable (napotSupported : Bool) (mode : RiscvPagingModes) (specified : List String)
    (pagesize : RiscvPageSizes) : Prop :=
  0 < pagesize.weights ∧
    ∃ word ∈ specified, selectedPagesize (validPagesizes napotSupported mode) word = some pagesize

/-- The sizes that `pick_pagesize` can draw: the selectable ones, or without any the default ones that have
a weight. -/
def Drawable (napotSupported : Bool) (mode : RiscvPagingModes) (specified : List String)
    (excludeLargest : Bool) (pagesize : RiscvPageSizes) : Prop :=
  Selectable napotSupported mode specified pagesize ∨
    ((¬∃ other, Selectable napotSupported mode specified other) ∧ 0 < pagesize.weights ∧
      pagesize ∈ defaultPagesizes napotSupported mode specified excludeLargest)

section Drawing
variable {napotSupported : Bool} {mode : RiscvPagingModes} {specified : List String} {excludeLargest : Bool}

theorem any_allowedPagesizes_iff :
    (allowedPagesizes (validPagesizes napotSupported mode) specified).any (fun choice => decide (0 < choice.2)) =
        true ↔
      ∃ pagesize, Selectable napotSupported mode specified pagesize := by
  simp only [List.any_eq_true, decide_eq_true_eq, Prod.exists, mem_allowedPagesizes, Selectable]
  constructor
  · rintro ⟨pagesize, weight, ⟨rfl, hselected⟩, hpos⟩
    exact ⟨pagesize, hpos, hselected⟩
  · rintro ⟨pagesize, hpos, hselected⟩
    exact ⟨pagesize, _, ⟨rfl, hselected⟩, hpos⟩

theorem drawable_iff {pagesize : RiscvPageSizes} :
    Drawable napotSupported mode specified excludeLargest pagesize ↔
      ∃ weight, 0 < weight ∧
        (pagesize, weight) ∈ weightedPagesizes napotSupported mode specified excludeLargest := by
  unfold weightedPagesizes Drawable
  dsimp only
  split_ifs with hany
  · have hsome := any_allowedPagesizes_iff.mp hany
    simp only [mem_allowedPagesizes, hsome, not_true_eq_false, false_and, or_false]
    constructor
    · rintro ⟨hpos, hselected⟩
      exact ⟨_, hpos, rfl, hselected⟩
    · rintro ⟨weight, hpos, rfl, hselected⟩
      exact ⟨hpos, hselected⟩
  · have hnone : ¬∃ other, Selectable napotSupported mode specified other :=
      fun hsome => hany (any_allowedPagesizes_iff.mpr hsome)
    simp only [List.mem_map, Prod.mk.injEq]
    constructor
    · rintro (hselectable | ⟨-, hpos, hmem⟩)
      · exact absurd ⟨_, hselectable⟩ hnone
      · exact ⟨_, hpos, pagesize, hmem, rfl, rfl⟩
    · rintro ⟨weight, hpos, other, hmem, rfl, rfl⟩
      exact Or.inr ⟨hnone, hpos, hmem⟩

/-- 4 KB is always among the default sizes. -/
theorem s4kb_mem_defaultPagesizes : .s4kb ∈ defaultPagesizes napotSupported mode specified excludeLargest := by
  have hvalid : .s4kb ∈ (validPagesizes napotSupported mode).erase .s256tb ∧
      .s4kb ∈ validPagesizes napotSupported mode := by
    cases napotSupported <;> cases mode <;> decide
  have hleaf : RiscvPageSizes.s4kb.ptLeafLevel + 1 ≠ mode.maxLevels := by cases mode <;> decide
  unfold defaultPagesizes
  dsimp only
  split_ifs
  · exact List.mem_filter.mpr ⟨hvalid.2, by simpa using hleaf⟩
  · exact List.mem_filter.mpr ⟨hvalid.1, by simpa using hleaf⟩
  · exact hvalid.2
  · exact hvalid.1

theorem exists_drawable : ∃ pagesize, Drawable napotSupported mode specified excludeLargest pagesize := by
  by_cases h : ∃ other, Selectable napotSupported mode specified other
  · obtain ⟨other, hother⟩ := h
    exact ⟨other, Or.inl hother⟩
  · exact ⟨.s4kb, Or.inr ⟨h, by decide, s4kb_mem_defaultPagesizes⟩⟩

end Drawing

/-- The size that is kept after the draw. -/
def forced (featmgr : FeatMgr) (hasLinkedPages : Bool) (pagesize : RiscvPageSizes) : RiscvPageSizes :=
  if featmgr.all4kbPages ∧ ¬hasLinkedPages then .s4kb else pagesize

/-- A call returns one of the drawable sizes, with its memory and its mask. -/
theorem pickPagesize_spec (featmgr : FeatMgr) (specified : List String) (mode : RiscvPagingModes)
    (hasLinkedPages excludeLargest : Bool) (rng : RandNum) :
    ∃ drawn, Drawable featmgr.svnapot mode specified excludeLargest drawn ∧
      (pickPagesize featmgr specified mode hasLinkedPages excludeLargest rng).1 =
        .ok (forced featmgr hasLinkedPages drawn, (forced featmgr hasLinkedPages drawn).memory,
          (forced featmgr hasLinkedPages drawn).addressMask) := by
  have hexists : ∃ pagesize, Drawable featmgr.svnapot mode specified excludeLargest pagesize := exists_drawable
  obtain ⟨pagesize, hpagesize⟩ := hexists
  obtain ⟨weight, hpos, hmem⟩ := drawable_iff.mp hpagesize
  obtain ⟨drawn, hdrawn⟩ := rng.randomChoiceWeighted_isSome hpos hmem
  refine ⟨drawn, drawable_iff.mpr (RandNum.randomChoiceWeighted_mem hdrawn), ?_⟩
  unfold pickPagesize
  rcases hchoice : rng.randomChoiceWeighted _ with ⟨choice, rng'⟩
  rw [hchoice] at hdrawn
  subst hdrawn
  rfl

/-- Every drawable size is returned for some draw, whatever is drawn later. -/
theorem exists_pickPagesize {featmgr : FeatMgr} {specified : List String} {mode : RiscvPagingModes}
    {excludeLargest : Bool} {drawn : RiscvPageSizes}
    (h : Drawable featmgr.svnapot mode specified excludeLargest drawn) (hasLinkedPages : Bool) :
    ∃ draw, ∀ later, pickPagesize featmgr specified mode hasLinkedPages excludeLargest ⟨draw :: later⟩ =
      (.ok (forced featmgr hasLinkedPages drawn, (forced featmgr hasLinkedPages drawn).memory,
        (forced featmgr hasLinkedPages drawn).addressMask), ⟨later⟩) := by
  obtain ⟨weight, hpos, hmem⟩ := drawable_iff.mp h
  obtain ⟨draw, hdraw⟩ := RandNum.exists_randomChoiceWeighted hpos hmem
  refine ⟨draw, fun later => ?_⟩
  unfold pickPagesize
  rw [hdraw later]
  rfl

/-! ### Requests by name -/

end Riescue.PageMappings
