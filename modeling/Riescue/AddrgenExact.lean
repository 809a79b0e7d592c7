import Riescue.LibRuns
import Riescue.LibExcept
import Riescue.AddrgenSafety
import Riescue.LibSpanCount

/-! Which free ranges `find_ucluster` returns: the maximal free runs of the intersected segments, but an
intersection of one byte is left out, and so is a run of one byte behind the last allocated range. -/

namespace Riescue.Addrgen
open Spans Fallible

namespace AddressCluster

/-! ### Intersections -/

/-- The span holds exactly the integers that two spans have in common. -/
def IsMeet (i j span : Span) : Prop := ∀ x, x ∈ span ↔ x ∈ i ∧ x ∈ j

theorem isMeet_iff {i j span : Span} : IsMeet i j span ↔ span.lo = max i.lo j.lo ∧ span.hi = min i.hi j.hi := by
  have hle := span.le
  constructor
  · intro hmeet
    have hlo := (hmeet span.lo).mp span.lo_mem
    have hhi := (hmeet span.hi).mp span.hi_mem
    simp only [Span.mem_iff] at hlo hhi
    have hmin := (hmeet (min i.hi j.hi)).mpr (by simp only [Span.mem_iff]; omega)
    have hmax := (hmeet (max i.lo j.lo)).mpr (by simp only [Span.mem_iff]; omega)
    simp only [Span.mem_iff] at hmin hmax
    omega
  · rintro ⟨hlo, hhi⟩ x
    simp only [Span.mem_iff]
    omega

/-- `_get_intersection` returns the pairwise intersections of more than one byte. -/
theorem mem_getIntersection {a b : AddressRangeSet} {span : Span} :
    span ∈ getIntersection a b ↔ ∃ i ∈ a, ∃ j ∈ b, IsMeet i j span ∧ span.lo < span.hi := by
  have hinner : ∀ (i : Span) (js : List Span) (set : AddressRangeSet),
      span ∈ js.foldl (fun ilist j => if hlt : max i.lo j.lo < min i.hi j.hi then
          ilist.insert ⟨max i.lo j.lo, min i.hi j.hi, hlt.le⟩ else ilist) set ↔
        span ∈ set ∨ ∃ j ∈ js, IsMeet i j span ∧ span.lo < span.hi := by
    intro i js
    induction js with
    | nil => simp
    | cons j js ih =>
        intro set
        rw [List.foldl_cons, ih, List.exists_mem_cons_iff, ← or_assoc]
        refine or_congr_left ?_
        simp only [isMeet_iff]
        split_ifs with hlt
        · rw [SpanSet.mem_insert, or_comm]
          refine or_congr_right ⟨fun heq => ?_, fun hspan => ?_⟩
          · rw [heq]
            exact ⟨⟨rfl, rfl⟩, hlt⟩
          · cases span
            simp only [Span.mk.injEq]
            exact hspan.1
        · refine ⟨.inl, fun h => h.resolve_right fun hspan => hlt ?_⟩
          rw [← hspan.1.1, ← hspan.1.2]
          exact hspan.2
  have houter : ∀ (is : List Span) (set : AddressRangeSet),
      span ∈ is.foldl (fun ilist i => b.spans.foldl (fun ilist j => if hlt : max i.lo j.lo < min i.hi j.hi then
          ilist.insert ⟨max i.lo j.lo, min i.hi j.hi, hlt.le⟩ else ilist) ilist) set ↔
        span ∈ set ∨ ∃ i ∈ is, ∃ j ∈ b, IsMeet i j span ∧ span.lo < span.hi := by
    intro is
    induction is with
    | nil => simp
    | cons i is ih =>
        intro set
        rw [List.foldl_cons, ih, hinner, List.exists_mem_cons_iff, or_assoc]
        exact Iff.rfl
  unfold getIntersection
  rw [houter]
  exact or_iff_right (SpanSet.not_mem_empty span)

theorem exists_isMeet {i j : Span} {x : ℤ} (hi : x ∈ i) (hj : x ∈ j) : ∃ common, IsMeet i j common := by
  rw [Span.mem_iff] at hi hj
  exact ⟨⟨max i.lo j.lo, min i.hi j.hi, by omega⟩, isMeet_iff.mpr ⟨rfl, rfl⟩⟩

/-- Spans with a common integer intersect in a span. -/
theorem exists_meet (first : Span) (rest : List Span) {b : ℤ} (hb : ∀ segment ∈ first :: rest, b ∈ segment) :
    ∃ common : Span, ∀ x, x ∈ common ↔ ∀ segment ∈ first :: rest, x ∈ segment := by
  induction rest generalizing first with
  | nil => exact ⟨first, fun x => by rw [List.forall_mem_singleton]⟩
  | cons segment rest ih =>
      simp only [List.forall_mem_cons] at hb
      obtain ⟨common, hmeet⟩ := exists_isMeet hb.1 hb.2.1
      obtain ⟨span, hspan⟩ := ih common (List.forall_mem_cons.mpr ⟨(hmeet b).mpr ⟨hb.1, hb.2.1⟩, hb.2.2⟩)
      refine ⟨span, fun x => ?_⟩
      rw [hspan, List.forall_mem_cons, List.forall_mem_cons, List.forall_mem_cons, hmeet, and_assoc]

/-- One segment for each qualifier. -/
abbrev Picks (cluster : AddressCluster) (picks : List Span) (qualifiers : List AddressQualifiers) : Prop :=
  List.Forall₂ (fun segment q => segment ∈ cluster.superCluster q) picks qualifiers

theorem mem_foldl_getIntersection {cluster : AddressCluster} (qualifiers : List AddressQualifiers)
    (set : AddressRangeSet) {span : Span} :
    span ∈ qualifiers.foldl (fun clusterRange q => getIntersection clusterRange (cluster.superCluster q)) set ↔
      ∃ first ∈ set, ∃ picks, cluster.Picks picks qualifiers ∧
        (∀ x, x ∈ span ↔ ∀ segment ∈ first :: picks, x ∈ segment) ∧
        (qualifiers ≠ [] → span.lo < span.hi) := by
  induction qualifiers generalizing set with
  | nil =>
      simp only [List.foldl_nil, List.forall₂_nil_right_iff, exists_eq_left, List.forall_mem_singleton, ne_eq,
        not_true_eq_false, false_imp_iff, and_true]
      constructor
      · exact fun hspan => ⟨span, hspan, fun _ => Iff.rfl⟩
      · rintro ⟨first, hfirst, hiff⟩
        have hmeet := isMeet_iff.mp (fun x => (hiff x).trans (and_self_iff (a := x ∈ first)).symm)
        cases span
        cases first
        simp only [max_self, min_self] at hmeet
        obtain ⟨rfl, rfl⟩ := hmeet
        exact hfirst
  | cons q qualifiers ih =>
      rw [List.foldl_cons, ih]
      constructor
      · rintro ⟨common, hcommon, picks, hpicks, hiff, hlt⟩
        obtain ⟨first, hfirst, segment, hsegment, hmeet, hwide⟩ := mem_getIntersection.mp hcommon
        refine ⟨first, hfirst, segment :: picks, .cons hsegment hpicks, fun x => ?_, fun _ => ?_⟩
        · rw [hiff, List.forall_mem_cons, List.forall_mem_cons, List.forall_mem_cons, hmeet, and_assoc]
        · cases qualifiers with
          | nil =>
              obtain rfl := List.forall₂_nil_right_iff.mp hpicks
              have hlo := (hiff common.lo).mpr fun s hs => List.mem_singleton.mp hs ▸ common.lo_mem
              have hhi := (hiff common.hi).mpr fun s hs => List.mem_singleton.mp hs ▸ common.hi_mem
              rw [Span.mem_iff] at hlo hhi
              omega
          | cons q' qualifiers => exact hlt (List.cons_ne_nil _ _)
      · rintro ⟨first, hfirst, _, hpicks, hiff, hlt⟩
        obtain ⟨segment, picks, hsegment, hrest, rfl⟩ := List.forall₂_cons_right_iff.mp hpicks
        have hwide := hlt (List.cons_ne_nil _ _)
        have hlo := (hiff span.lo).mp span.lo_mem
        have hhi := (hiff span.hi).mp span.hi_mem
        simp only [List.forall_mem_cons, Span.mem_iff] at hlo hhi
        obtain ⟨common, hmeet⟩ : ∃ common, IsMeet first segment common :=
          exists_isMeet (x := span.lo) ⟨by omega, by omega⟩ ⟨by omega, by omega⟩
        obtain ⟨hcommonLo, hcommonHi⟩ := isMeet_iff.mp hmeet
        refine ⟨common, mem_getIntersection.mpr ⟨first, hfirst, segment, hsegment, hmeet, ?_⟩, picks, hrest,
          fun x => ?_, fun _ => hwide⟩
        · omega
        · rw [hiff, List.forall_mem_cons, List.forall_mem_cons, List.forall_mem_cons, hmeet, and_assoc]

/-- The byte lies in every picked segment and in the bounds. -/
def InSegments (constraint : AddressConstraint) (picks : List Span) (x : ℤ) : Prop :=
  (∀ segment ∈ picks, x ∈ segment) ∧ (constraint.HasBounds → (constraint.start : ℤ) ≤ x ∧ x ≤ constraint.stop)

/-- More than one list of ranges is intersected. -/
def Several (constraint : AddressConstraint) : Prop := 2 ≤ constraint.qualifiers.length ∨ constraint.HasBounds

section Cluster
variable {cluster : AddressCluster} {constraint : AddressConstraint}

theorem mem_commonRange {clusterRange : AddressRangeSet} (h : cluster.commonRange constraint = .ok clusterRange)
    {span : Span} :
    span ∈ clusterRange ↔ ∃ picks, cluster.Picks picks constraint.qualifiers ∧
      (∀ x, x ∈ span ↔ InSegments constraint picks x) ∧ (Several constraint → span.lo < span.hi) := by
  unfold commonRange at h
  cases hqualifiers : constraint.qualifiers with
  | nil =>
      rw [hqualifiers] at h
      cases h
  | cons first qualifiers =>
      rw [hqualifiers] at h
      dsimp only at h
      have hbase := fun span => @mem_foldl_getIntersection cluster qualifiers (cluster.superCluster first) span
      generalize qualifiers.foldl _ _ = base at h hbase
      have hlength : 2 ≤ constraint.qualifiers.length ↔ qualifiers ≠ [] := by
        rw [hqualifiers, List.length_cons, ← List.length_pos_iff]
        omega
      by_cases hbounds : constraint.HasBounds
      · rw [if_pos hbounds] at h
        obtain ⟨bounds, hbound, h⟩ := bind_ok h
        obtain rfl := Except.ok.inj h
        obtain ⟨hle, rfl⟩ := addRange_ok hbound
        have hboundary : ∀ j, j ∈ SpanSet.empty.insert ⟨constraint.start, constraint.stop, hle⟩ ↔
            j = ⟨constraint.start, constraint.stop, hle⟩ := fun j =>
          SpanSet.mem_insert.trans (or_iff_left (SpanSet.not_mem_empty j))
        simp only [mem_getIntersection, hboundary, exists_eq_left]
        constructor
        · rintro ⟨i, hi, hmeet, hwide⟩
          obtain ⟨segment, hsegment, picks, hpicks, hiff, _⟩ := (hbase i).mp hi
          refine ⟨segment :: picks, .cons hsegment hpicks, fun x => ?_, fun _ => hwide⟩
          rw [hmeet, hiff, Span.mem_iff]
          exact and_congr_right fun _ => ⟨fun hx _ => hx, fun hx => hx hbounds⟩
        · rintro ⟨_, hpicks, hiff, hwide⟩
          obtain ⟨segment, picks, hsegment, hrest, rfl⟩ := List.forall₂_cons_right_iff.mp hpicks
          have hlo := (hiff span.lo).mp span.lo_mem
          have hhi := (hiff span.hi).mp span.hi_mem
          obtain ⟨i, hi⟩ := exists_meet segment picks hlo.1
          have hmem := And.intro ((hi span.lo).mpr hlo.1) ((hi span.hi).mpr hhi.1)
          simp only [Span.mem_iff] at hmem
          have hwide := hwide (.inr hbounds)
          refine ⟨i, (hbase i).mpr ⟨segment, hsegment, picks, hrest, hi, fun _ => by omega⟩, fun x => ?_, hwide⟩
          rw [hiff, InSegments, hi, Span.mem_iff]
          exact and_congr_right fun _ => ⟨fun hx => hx hbounds, fun hx _ => hx⟩
      · rw [if_neg hbounds] at h
        obtain rfl := Except.ok.inj h
        have hinside : ∀ picks x, InSegments constraint picks x ↔ ∀ segment ∈ picks, x ∈ segment :=
          fun picks x => and_iff_left fun hb => absurd hb hbounds
        simp only [hbase, hinside, Several, hlength, or_iff_left hbounds]
        constructor
        · rintro ⟨segment, hsegment, picks, hpicks, hiff, hwide⟩
          exact ⟨segment :: picks, .cons hsegment hpicks, hiff, hwide⟩
        · rintro ⟨_, hpicks, hiff, hwide⟩
          obtain ⟨segment, picks, hsegment, hrest, rfl⟩ := List.forall₂_cons_right_iff.mp hpicks
          exact ⟨segment, hsegment, picks, hrest, hiff, hwide⟩

theorem qualifiers_ne_nil_of_commonRange {clusterRange : AddressRangeSet}
    (h : cluster.commonRange constraint = .ok clusterRange) : constraint.qualifiers ≠ [] := by
  intro hnil
  rw [commonRange, hnil] at h
  cases h

/-- The intersection of segments with a common byte is a span. -/
theorem exists_inSegments (hqualifiers : constraint.qualifiers ≠ []) {picks : List Span}
    (hpicks : cluster.Picks picks constraint.qualifiers) {b : ℤ} (hb : InSegments constraint picks b) :
    ∃ i : Span, ∀ x, x ∈ i ↔ InSegments constraint picks x := by
  have hlength := hpicks.length_eq
  obtain ⟨first, rest, rfl⟩ : ∃ first rest, picks = first :: rest :=
    List.exists_cons_of_ne_nil fun hnil => hqualifiers (List.length_eq_zero_iff.mp (by rw [← hlength, hnil]; rfl))
  obtain ⟨common, hcommon⟩ := exists_meet first rest hb.1
  by_cases hbounds : constraint.HasBounds
  · have hbounded := hb.2 hbounds
    obtain ⟨i, hi⟩ := exists_isMeet ((hcommon b).mpr hb.1)
      (show b ∈ Span.mk constraint.start constraint.stop (by omega) from hbounded)
    refine ⟨i, fun x => ?_⟩
    rw [hi, hcommon, Span.mem_iff]
    exact and_congr_right fun _ => ⟨fun hx _ => hx, fun hx => hx hbounds⟩
  · refine ⟨common, fun x => ?_⟩
    rw [hcommon]
    exact (and_iff_left fun h => absurd h hbounds).symm

/-! ### Free runs -/

theorem mem_freeGaps {newList : AddressRangeSet} {start stop : ℤ} {obstacles : List Span}
    (hsorted : obstacles.Pairwise Span.Before) (hstop : ∀ j ∈ obstacles, j.lo ≤ stop) {span : Span} :
    span ∈ freeGaps newList start stop obstacles ↔
      span ∈ newList ∨ MaximalRun (Clear start stop obstacles) span.lo span.hi ∧ span.lo < stop := by
  induction obstacles generalizing newList start with
  | nil =>
      rw [freeGaps, maximalRun_clear_nil]
      split_ifs with hlt
      · rw [SpanSet.mem_insert, or_comm]
        refine or_congr_right ⟨fun heq => ?_, fun hspan => ?_⟩
        · rw [heq]
          exact ⟨⟨hlt.le, rfl, rfl⟩, hlt⟩
        · cases span
          simp only [Span.mk.injEq]
          exact hspan.1.2
      · exact (or_iff_left fun hspan => by omega).symm
  | cons j obstacles ih =>
      obtain ⟨hfirst, hrest⟩ := List.pairwise_cons.mp hsorted
      have hj := hstop j List.mem_cons_self
      rw [freeGaps, maximalRun_clear_cons hj fun other hother => Span.lo_le_of_before (hfirst other hother)]
      rw [ih hrest fun other hother => hstop other (List.mem_cons_of_mem j hother), or_and_right, ← or_assoc]
      refine or_congr_left ?_
      split_ifs with hlt
      · rw [SpanSet.mem_insert, or_comm]
        refine or_congr_right ⟨fun heq => ?_, fun hspan => ?_⟩
        · rw [heq]
          exact ⟨⟨hlt, rfl, rfl⟩, hlt.trans_le hj⟩
        · cases span
          simp only [Span.mk.injEq]
          exact hspan.1.2
      · exact (or_iff_left fun hspan => hlt hspan.1.1).symm

/-- A run of a common range is left out when it is the last byte of a longer range. -/
theorem mem_addFree_iff {allocated newList : AddressRangeSet} {i span : Span} :
    span ∈ addFree allocated newList i ↔
      span ∈ newList ∨ MaximalRun (fun x => x ∈ i ∧ x ∉ allocated.covered) span.lo span.hi ∧
        (span.lo = i.hi → i.lo = i.hi) := by
  have hclear : ∀ x, Clear i.lo i.hi (allocated.overlap i.lo i.hi) x ↔ x ∈ i ∧ x ∉ allocated.covered := by
    intro x
    rw [Clear, ← and_assoc, ← Span.mem_iff]
    refine and_congr_right fun hx => ⟨?_, ?_⟩
    · rintro hout ⟨j, hj, hxj⟩
      exact hout j (SpanSet.mem_overlap.mpr ⟨hj, Span.meets_iff.mpr ⟨x, hxj, hx⟩⟩) hxj
    · exact fun hout j hj hxj => hout ⟨j, (SpanSet.mem_overlap.mp hj).1, hxj⟩
  have hle := i.le
  rw [addFree, ← MaximalRun.congr hclear]
  by_cases hempty : allocated.overlap i.lo i.hi = []
  · rw [if_pos (List.length_eq_zero_iff.mpr hempty), hempty, maximalRun_clear_nil, SpanSet.mem_insert, or_comm]
    refine or_congr_right ⟨fun heq => ?_, fun hspan => ?_⟩
    · rw [heq]
      exact ⟨⟨hle, rfl, rfl⟩, id⟩
    · cases span
      cases i
      simp only [Span.mk.injEq]
      exact hspan.1.2
  · rw [if_neg fun hlength => hempty (List.length_eq_zero_iff.mp hlength),
      mem_freeGaps (SpanSet.overlap_sorted _ _ _) fun j hj => (SpanSet.mem_overlap.mp hj).2.1]
    refine or_congr_right (and_congr_right fun hrun => ?_)
    have hlo := (hclear span.lo).mp (hrun.all span.lo le_rfl hrun.le)
    have hspan := Span.mem_iff.mp hlo.1
    constructor
    · exact fun hlt heq => by omega
    · intro hwhole
      by_contra hge
      have hlast : span.lo = i.hi := by omega
      have hsingle := hwhole hlast
      obtain ⟨b, hcovered, hb⟩ := SpanSet.overlap_ne_nil_iff.mp hempty
      have hbyte : b = span.lo := by omega
      exact hlo.2 (hbyte ▸ hcovered)

/-- The byte lies in every picked segment and is not allocated. -/
def FreeByte (cluster : AddressCluster) (constraint : AddressConstraint) (picks : List Span) (x : ℤ) : Prop :=
  InSegments constraint picks x ∧ x ∉ cluster.allocatedAddresses.covered

/-- The run that starts here is left out: it starts on the last byte of the intersection, which either goes on
before it or has been formed from several lists. -/
def Dropped (constraint : AddressConstraint) (picks : List Span) (x : ℤ) : Prop :=
  ¬InSegments constraint picks (x + 1) ∧ (InSegments constraint picks (x - 1) ∨ Several constraint)

theorem mem_foldl_addFree {allocated : AddressRangeSet} (ranges : List Span) (newList : AddressRangeSet) {span : Span} :
    span ∈ ranges.foldl (addFree allocated) newList ↔
      span ∈ newList ∨ ∃ i ∈ ranges, MaximalRun (fun x => x ∈ i ∧ x ∉ allocated.covered) span.lo span.hi ∧
        (span.lo = i.hi → i.lo = i.hi) := by
  induction ranges generalizing newList with
  | nil => simp
  | cons i ranges ih => rw [List.foldl_cons, ih, mem_addFree_iff, List.exists_mem_cons_iff, or_assoc]

theorem mem_foldl_filter (size : ℤ) (ranges : List Span) (newList : AddressRangeSet) {span : Span} :
    span ∈ ranges.foldl (fun newAddrRange span =>
        if size ≤ span.hi - span.lo + 1 then newAddrRange.insert span else newAddrRange) newList ↔
      span ∈ newList ∨ span ∈ ranges ∧ size ≤ span.hi - span.lo + 1 := by
  induction ranges generalizing newList with
  | nil => simp
  | cons i ranges ih =>
      rw [List.foldl_cons, ih, List.mem_cons, or_and_right, ← or_assoc]
      refine or_congr_left ?_
      split_ifs with hsize
      · rw [SpanSet.mem_insert, or_comm]
        exact or_congr_right ⟨fun heq => ⟨heq, heq ▸ hsize⟩, And.left⟩
      · exact (or_iff_left fun hspan : span = i ∧ _ => hsize (hspan.1 ▸ hspan.2)).symm

/-- `find_ucluster` returns the free runs of the intersections, long enough and not dropped. -/
theorem mem_findUcluster {uclusters : AddressRangeSet} (h : cluster.findUcluster constraint = .ok uclusters)
    {span : Span} :
    span ∈ uclusters ↔ (constraint.size : ℤ) ≤ span.hi - span.lo + 1 ∧
      ∃ picks, cluster.Picks picks constraint.qualifiers ∧
        MaximalRun (cluster.FreeByte constraint picks) span.lo span.hi ∧ ¬Dropped constraint picks span.lo := by
  unfold findUcluster at h
  obtain ⟨clusterRange, hcommon, h⟩ := bind_ok h
  obtain rfl := Except.ok.inj h
  rw [mem_foldl_filter, or_iff_right (SpanSet.not_mem_empty span), and_comm, ← SpanSet.mem_iff, mem_foldl_addFree,
    or_iff_right (SpanSet.not_mem_empty span)]
  refine and_congr_right fun _ => ⟨?_, ?_⟩
  · rintro ⟨i, hi, hrun, hwhole⟩
    obtain ⟨picks, hpicks, hiff, hwide⟩ := (mem_commonRange hcommon).mp hi
    refine ⟨picks, hpicks, (MaximalRun.congr fun x => and_congr_left fun _ => hiff x).mp hrun, ?_⟩
    have hle := i.le
    have hlo := Span.mem_iff.mp (hrun.all span.lo le_rfl hrun.le).1
    rintro ⟨hlast, hbefore | hseveral⟩
    all_goals
      rw [← hiff, Span.mem_iff] at hlast
      have hsingle := hwhole (by omega)
    · rw [← hiff, Span.mem_iff] at hbefore
      omega
    · have hlt := hwide hseveral
      omega
  · rintro ⟨picks, hpicks, hrun, hkept⟩
    have hlo := (hrun.all span.lo le_rfl hrun.le).1
    obtain ⟨i, hi⟩ := exists_inSegments (qualifiers_ne_nil_of_commonRange hcommon) hpicks hlo
    have hlo' := Span.mem_iff.mp ((hi span.lo).mpr hlo)
    rw [Dropped, ← hi, ← hi, Span.mem_iff, Span.mem_iff] at hkept
    refine ⟨i, (mem_commonRange hcommon).mpr ⟨picks, hpicks, hi, fun hseveral => ?_⟩,
      (MaximalRun.congr fun x => and_congr_left fun _ => hi x).mpr hrun, fun hlast => ?_⟩
    · by_contra hge
      exact hkept ⟨by omega, .inr hseveral⟩
    · by_contra hne
      exact hkept ⟨by omega, .inl (by omega)⟩

/-! ### Exactness -/

/-- The bytes of the maximal free runs of the intersections that have room for the constraint. -/
def freeRunBytes (cluster : AddressCluster) (constraint : AddressConstraint) : Set ℤ :=
  {b | ∃ picks, cluster.Picks picks constraint.qualifiers ∧
    ∃ lo hi, MaximalRun (cluster.FreeByte constraint picks) lo hi ∧ (constraint.size : ℤ) ≤ hi - lo + 1 ∧
      lo ≤ b ∧ b ≤ hi}

/-- The byte is a free run of its own that `find_ucluster` leaves out. -/
def Lost (cluster : AddressCluster) (constraint : AddressConstraint) (picks : List Span) (b : ℤ) : Prop :=
  ¬cluster.FreeByte constraint picks (b - 1) ∧ Dropped constraint picks b

/-- Every free byte of an intersection is one of an intersection in which it is not left out. -/
def NothingLost (cluster : AddressCluster) (constraint : AddressConstraint) : Prop :=
  ∀ b, (∃ picks, cluster.Picks picks constraint.qualifiers ∧ cluster.FreeByte constraint picks b) →
    ∃ picks, cluster.Picks picks constraint.qualifiers ∧ cluster.FreeByte constraint picks b ∧
      ¬cluster.Lost constraint picks b

theorem mem_covered_findUcluster {uclusters : AddressRangeSet} (h : cluster.findUcluster constraint = .ok uclusters)
    {b : ℤ} :
    b ∈ uclusters.covered ↔ ∃ picks, cluster.Picks picks constraint.qualifiers ∧
      ∃ lo hi, MaximalRun (cluster.FreeByte constraint picks) lo hi ∧ (constraint.size : ℤ) ≤ hi - lo + 1 ∧
        ¬Dropped constraint picks lo ∧ lo ≤ b ∧ b ≤ hi := by
  constructor
  · rintro ⟨span, hspan, hb⟩
    obtain ⟨hsize, picks, hpicks, hrun, hkept⟩ := (mem_findUcluster h).mp hspan
    exact ⟨picks, hpicks, span.lo, span.hi, hrun, hsize, hkept, hb⟩
  · rintro ⟨picks, hpicks, lo, hi, hrun, hsize, hkept, hb⟩
    exact ⟨⟨lo, hi, hrun.le⟩, (mem_findUcluster h).mpr ⟨hsize, picks, hpicks, hrun, hkept⟩, hb⟩

theorem exists_freeRun (hqualifiers : constraint.qualifiers ≠ []) {picks : List Span}
    (hpicks : cluster.Picks picks constraint.qualifiers) {b : ℤ} (hb : cluster.FreeByte constraint picks b) :
    ∃ lo hi, MaximalRun (cluster.FreeByte constraint picks) lo hi ∧ lo ≤ b ∧ b ≤ hi := by
  obtain ⟨i, hi⟩ := exists_inSegments hqualifiers hpicks hb.1
  exact exists_maximalRun (fun x hx => Span.mem_iff.mp ((hi x).mpr hx.1)) hb

/-- A run that is left out is a single byte. -/
theorem Dropped.single {picks : List Span} {lo hi : ℤ} (h : Dropped constraint picks lo)
    (hrun : MaximalRun (cluster.FreeByte constraint picks) lo hi) : lo = hi := by
  by_contra hne
  have hle := hrun.le
  exact h.1 (hrun.all (lo + 1) (by omega) (by omega)).1

/-- `find_ucluster` is exact for requests of two bytes and more; for a single byte, exactly when no free byte
is lost. -/
theorem findUcluster_exact_iff {uclusters : AddressRangeSet} (h : cluster.findUcluster constraint = .ok uclusters) :
    uclusters.covered = cluster.freeRunBytes constraint ↔ 2 ≤ constraint.size ∨ cluster.NothingLost constraint := by
  obtain ⟨q, hq⟩ := qualifiers_ne_nil h
  have hqualifiers := List.ne_nil_of_mem hq
  have hsubset : uclusters.covered ⊆ cluster.freeRunBytes constraint := by
    intro b hb
    obtain ⟨picks, hpicks, lo, hi, hrun, hsize, _, hbounds⟩ := (mem_covered_findUcluster h).mp hb
    exact ⟨picks, hpicks, lo, hi, hrun, hsize, hbounds⟩
  constructor
  · intro hexact
    refine (Nat.lt_or_ge 1 constraint.size).imp id fun hsize b => ?_
    rintro ⟨picks, hpicks, hb⟩
    obtain ⟨lo, hi, hrun, hlo, hhi⟩ := exists_freeRun hqualifiers hpicks hb
    have hle := hrun.le
    have hmem : b ∈ uclusters.covered := by
      rw [hexact]
      exact ⟨picks, hpicks, lo, hi, hrun, by omega, hlo, hhi⟩
    obtain ⟨picks, hpicks, lo, hi, hrun, _, hkept, hlo, hhi⟩ := (mem_covered_findUcluster h).mp hmem
    refine ⟨picks, hpicks, hrun.all b hlo hhi, fun hlost => ?_⟩
    rcases hlo.lt_or_eq with hlt | rfl
    · exact hlost.1 (hrun.all (b - 1) (by omega) (by omega))
    · exact hkept hlost.2
  · intro hwhen
    refine hsubset.antisymm ?_
    rintro b ⟨picks, hpicks, lo, hi, hrun, hsize, hlo, hhi⟩
    rcases Nat.lt_or_ge 1 constraint.size with hlarge | hsmall
    · refine (mem_covered_findUcluster h).mpr ⟨picks, hpicks, lo, hi, hrun, hsize, fun hdropped => ?_, hlo, hhi⟩
      have hsingle := hdropped.single hrun
      omega
    · have hnothing := hwhen.resolve_left (by omega)
      obtain ⟨picks, hpicks, hb, hkept⟩ := hnothing b ⟨picks, hpicks, hrun.all b hlo hhi⟩
      obtain ⟨lo, hi, hrun, hlo, hhi⟩ := exists_freeRun hqualifiers hpicks hb
      have hle := hrun.le
      refine (mem_covered_findUcluster h).mpr ⟨picks, hpicks, lo, hi, hrun, by omega, fun hdropped => ?_, hlo, hhi⟩
      have hsingle := hdropped.single hrun
      obtain rfl : b = lo := by omega
      exact hkept ⟨hrun.before, hdropped⟩

end Cluster

/-- A cluster with the segment `[8, 9]`, of which byte 8 is allocated. -/
def lastByteFree : AddressCluster :=
  { AddressCluster.init 3 with
    superCluster := fun _ => SpanSet.empty.insert ⟨8, 9, by decide⟩
    allocatedAddresses := SpanSet.empty.insert ⟨8, 8, by decide⟩ }

/-- A request of one byte of DRAM. -/
def oneByte : AddressConstraint := { type := .physical, size := 1, qualifiers := [.addressDram] }

/-- A page of which the first 256 bytes are allocated. -/
def partlyAllocated : AddressCluster :=
  { AddressCluster.init 12 with
    superCluster := fun _ => SpanSet.empty.insert ⟨0x1000, 0x1fff, by decide⟩
    allocatedAddresses := SpanSet.empty.insert ⟨0x1000, 0x10ff, by decide⟩ }

/-- The rest of the page has room for a request. -/
theorem findUcluster_exact_page : ∃ uclusters, partlyAllocated.findUcluster { oneByte with size := 0x800 } = .ok uclusters ∧
    (uclusters.spans.map fun span => (span.lo, span.hi)) = [(0x1100, 0x1fff)] ∧
    uclusters.covered = partlyAllocated.freeRunBytes { oneByte with size := 0x800 } := by
  have hspans : (partlyAllocated.findUcluster { oneByte with size := 0x800 }).toOption.map (fun uclusters =>
      (uclusters.spans.map fun span => (span.lo, span.hi))) = some [(0x1100, 0x1fff)] := by decide +kernel
  obtain ⟨uclusters, hfind, hspans⟩ := Option.map_eq_some_iff.mp hspans
  exact ⟨uclusters, toOption_some hfind, hspans, (findUcluster_exact_iff (toOption_some hfind)).mpr (.inl (by decide))⟩

/-- Byte 9 is free and a run of its own, and nothing is returned. -/
theorem findUcluster_not_exact :
    ∃ uclusters, lastByteFree.findUcluster oneByte = .ok uclusters ∧
      uclusters.covered ≠ lastByteFree.freeRunBytes oneByte := by
  refine ⟨SpanSet.empty, rfl, fun hexact => ?_⟩
  have hnine : (9 : ℤ) ∈ lastByteFree.freeRunBytes oneByte := by
    have hpick : (⟨8, 9, by decide⟩ : Span) ∈ lastByteFree.superCluster .addressDram := List.mem_cons_self
    refine ⟨_, .cons hpick .nil, 9, 9, ⟨le_rfl, fun x hlo hhi => ?_, fun h => ?_, fun h => ?_⟩, by decide, by decide,
      by decide⟩
    · obtain rfl : x = 9 := by omega
      exact ⟨⟨by decide, fun hbounds => absurd hbounds (by decide)⟩, by decide⟩
    · exact h.2 (by decide)
    · exact absurd (h.1.1 _ List.mem_cons_self) (by decide)
  rw [← hexact, SpanSet.covered_empty] at hnine
  exact hnine

end AddressCluster
end Riescue.Addrgen
