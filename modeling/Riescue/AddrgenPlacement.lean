import Riescue.AddrgenSpace

/-! What one cluster can hand out. `findUcluster` only returns spans that every qualifier and the bounds
allow and that hold no allocated byte; each placement strategy returns the start of a range inside one of
them, and changes nothing of the cluster except its two limit flags. -/

namespace Riescue.Addrgen
open Spans

/-- `[lo, hi]` lies in the span. -/
def Inside (lo hi : ℤ) (outer : Span) : Prop := outer.lo ≤ lo ∧ hi ≤ outer.hi

instance (lo hi : ℤ) (outer : Span) : Decidable (Inside lo hi outer) :=
  inferInstanceAs (Decidable (_ ∧ _))

namespace AddressCluster

theorem inside_of_mem_getIntersection {cluster1 cluster2 : AddressRangeSet} {span : Span}
    (h : span ∈ getIntersection cluster1 cluster2) :
    (∃ i ∈ cluster1, Inside span.lo span.hi i) ∧ ∃ j ∈ cluster2, Inside span.lo span.hi j := by
  let Good : AddressRangeSet → Prop := fun ilist => ∀ span ∈ ilist,
    (∃ i ∈ cluster1, Inside span.lo span.hi i) ∧ ∃ j ∈ cluster2, Inside span.lo span.hi j
  have hgood : Good (getIntersection cluster1 cluster2) := by
    refine List.foldlRecOn (motive := Good) _ _ ?_ ?_
    · exact fun span hspan => absurd hspan (SpanSet.not_mem_empty span)
    intro ilist hilist i hi
    refine List.foldlRecOn (motive := Good) _ _ hilist ?_
    intro ilist hilist j hj
    split_ifs with hlt
    · intro span hspan
      rcases SpanSet.mem_insert.mp hspan with rfl | hspan
      · exact ⟨⟨i, hi, le_max_left _ _, min_le_left _ _⟩, j, hj, le_max_right _ _, min_le_right _ _⟩
      · exact hilist span hspan
    · exact hilist
  exact hgood span h

/-- The sweep only adds spans between its bounds, clear of every span it sweeps over. -/
theorem freeGaps_spec {newList : AddressRangeSet} {start stop : ℤ} {overlap : List Span}
    (hsorted : overlap.Pairwise Span.Before) (hstop : ∀ j ∈ overlap, j.lo ≤ stop) {span : Span}
    (h : span ∈ freeGaps newList start stop overlap) :
    span ∈ newList ∨ (start ≤ span.lo ∧ span.hi ≤ stop ∧
      ∀ j ∈ overlap, span.hi < j.lo ∨ j.hi < span.lo) := by
  induction overlap generalizing newList start with
  | nil =>
      rw [freeGaps] at h
      split_ifs at h with hlt
      · rcases SpanSet.mem_insert.mp h with rfl | h
        · exact Or.inr ⟨le_rfl, le_rfl, fun j hj => absurd hj List.not_mem_nil⟩
        · exact Or.inl h
      · exact Or.inl h
  | cons j overlap ih =>
      obtain ⟨hhead, htail⟩ := List.pairwise_cons.mp hsorted
      rw [freeGaps] at h
      rcases ih htail (fun k hk => hstop k (List.mem_cons_of_mem j hk)) h with h | ⟨hlo, hhi, hclear⟩
      · split_ifs at h with hlt
        · rcases SpanSet.mem_insert.mp h with rfl | h
          · -- the gap before `j` ends before every later span too
            have hj := hstop j List.mem_cons_self
            refine Or.inr ⟨le_rfl, by simp only; omega, fun k hk => Or.inl ?_⟩
            rcases List.mem_cons.mp hk with rfl | hk
            · simp only
              omega
            · have := Span.lo_le_of_before (hhead k hk)
              simp only
              omega
          · exact Or.inl h
        · exact Or.inl h
      · refine Or.inr ⟨(le_max_left _ _).trans hlo, hhi, fun k hk => ?_⟩
        rcases List.mem_cons.mp hk with rfl | hk
        · have := (le_max_right start (k.hi + 1)).trans hlo
          exact Or.inr (by omega)
        · exact hclear k hk

theorem mem_addFree {allocated newList : AddressRangeSet} {i span : Span}
    (h : span ∈ addFree allocated newList i) :
    span ∈ newList ∨ (Inside span.lo span.hi i ∧ ∀ b ∈ span, b ∉ allocated.covered) := by
  simp only [addFree] at h
  split_ifs at h with hempty
  · rcases SpanSet.mem_insert.mp h with rfl | h
    · refine Or.inr ⟨⟨le_rfl, le_rfl⟩, fun b hb hcovered => ?_⟩
      exact SpanSet.overlap_ne_nil_iff.mpr ⟨b, hcovered, hb⟩ (List.length_eq_zero_iff.mp hempty)
    · exact Or.inl h
  · have hstop : ∀ j ∈ allocated.overlap i.lo i.hi, j.lo ≤ i.hi :=
      fun j hj => (SpanSet.mem_overlap.mp hj).2.1
    rcases freeGaps_spec (allocated.overlap_sorted i.lo i.hi) hstop h with h | ⟨hlo, hhi, hclear⟩
    · exact Or.inl h
    · refine Or.inr ⟨⟨hlo, hhi⟩, ?_⟩
      rintro b ⟨hb, hb'⟩ ⟨j, hj, hbj, hbj'⟩
      have hmeets : j ∈ allocated.overlap i.lo i.hi :=
        SpanSet.mem_overlap.mpr ⟨hj, Span.meets_iff.mpr ⟨b, ⟨hbj, hbj'⟩, by omega, by omega⟩⟩
      have := hclear j hmeets
      omega

/-- Every common range lies in a segment of every qualifier and between the bounds. -/
theorem commonRange_spec {cluster : AddressCluster} {constraint : AddressConstraint}
    {clusterRange : AddressRangeSet} (h : cluster.commonRange constraint = .ok clusterRange)
    {span : Span} (hspan : span ∈ clusterRange) :
    (∀ q ∈ constraint.qualifiers, ∃ r ∈ cluster.superCluster q, Inside span.lo span.hi r) ∧
      (constraint.HasBounds → (constraint.start : ℤ) ≤ span.lo ∧ span.hi ≤ constraint.stop) := by
  unfold commonRange at h
  split at h
  · cases h
  · rename_i first qualifiers hqualifiers
    let Good : List AddressQualifiers → AddressRangeSet → Prop := fun done clusterRange =>
      ∀ span ∈ clusterRange, ∀ q ∈ done, ∃ r ∈ cluster.superCluster q, Inside span.lo span.hi r
    have hfold : ∀ (rest done : List AddressQualifiers) (clusterRange : AddressRangeSet),
        Good done clusterRange → Good (done ++ rest) (rest.foldl
          (fun clusterRange q => getIntersection clusterRange (cluster.superCluster q))
          clusterRange) := by
      intro rest
      induction rest with
      | nil => intro done clusterRange hgood; simpa using hgood
      | cons q rest ih =>
          intro done clusterRange hgood
          have hnext : Good (done ++ [q])
              (getIntersection clusterRange (cluster.superCluster q)) := by
            intro span hspan p hp
            obtain ⟨⟨i, hi, hi', hi''⟩, hq⟩ := inside_of_mem_getIntersection hspan
            rcases List.mem_append.mp hp with hp | hp
            · obtain ⟨r, hr, hr', hr''⟩ := hgood i hi p hp
              exact ⟨r, hr, hr'.trans hi', hi''.trans hr''⟩
            · rw [List.mem_singleton.mp hp]
              exact hq
          have := ih _ _ hnext
          rwa [List.append_assoc] at this
    have hfirst : Good [first] (cluster.superCluster first) := by
      intro span hspan q hq
      rw [List.mem_singleton.mp hq]
      exact ⟨span, hspan, le_rfl, le_rfl⟩
    have hall := hfold qualifiers [first] _ hfirst
    rw [hqualifiers]
    dsimp only at h
    split_ifs at h with hbounds
    · cases hadd : addRange SpanSet.empty (constraint.start : ℤ) (constraint.stop : ℤ) with
      | error fault => rw [hadd] at h; cases h
      | ok bounds =>
          rw [hadd] at h
          obtain rfl : getIntersection _ bounds = clusterRange := Except.ok.inj h
          obtain ⟨hle, rfl⟩ := addRange_ok hadd
          obtain ⟨⟨i, hi, hi', hi''⟩, j, hj, hj', hj''⟩ := inside_of_mem_getIntersection hspan
          refine ⟨fun q hq => ?_, fun _ => ?_⟩
          · obtain ⟨r, hr, hr', hr''⟩ := hall i hi q hq
            exact ⟨r, hr, hr'.trans hi', hi''.trans hr''⟩
          · rcases SpanSet.mem_insert.mp hj with rfl | hj
            · exact ⟨hj', hj''⟩
            · exact absurd hj (SpanSet.not_mem_empty j)
    · obtain rfl := Except.ok.inj h
      exact ⟨hall span hspan, fun hb => absurd hb hbounds⟩

/-- A micro-cluster is allowed by every qualifier and by the bounds, and holds no allocated byte. -/
structure Free (cluster : AddressCluster) (constraint : AddressConstraint) (span : Span) : Prop where
  qualifier : ∀ q ∈ constraint.qualifiers,
    ∃ r ∈ cluster.superCluster q, Inside span.lo span.hi r
  bounds : constraint.HasBounds → (constraint.start : ℤ) ≤ span.lo ∧ span.hi ≤ constraint.stop
  unallocated : ∀ b ∈ span, b ∉ cluster.allocatedAddresses.covered

theorem findUcluster_free {cluster : AddressCluster} {constraint : AddressConstraint}
    {uclusters : AddressRangeSet} (h : cluster.findUcluster constraint = .ok uclusters) :
    ∀ span ∈ uclusters, cluster.Free constraint span := by
  unfold findUcluster at h
  cases hcommon : cluster.commonRange constraint with
  | error fault => rw [hcommon] at h; cases h
  | ok clusterRange =>
      rw [hcommon] at h
      obtain rfl := Except.ok.inj h
      let Good : AddressRangeSet → Prop := fun set => ∀ span ∈ set, cluster.Free constraint span
      have hnew : Good (clusterRange.spans.foldl (addFree cluster.allocatedAddresses)
          SpanSet.empty) := by
        refine List.foldlRecOn (motive := Good) _ _ ?_ ?_
        · exact fun span hspan => absurd hspan (SpanSet.not_mem_empty span)
        intro newList hgood i hi span hspan
        rcases mem_addFree hspan with hspan | ⟨⟨hlo, hhi⟩, hfree⟩
        · exact hgood span hspan
        · obtain ⟨hqualifier, hbounds⟩ := commonRange_spec hcommon hi
          refine ⟨fun q hq => ?_, fun hb => ?_, hfree⟩
          · obtain ⟨r, hr, hr', hr''⟩ := hqualifier q hq
            exact ⟨r, hr, hr'.trans hlo, hhi.trans hr''⟩
          · exact ⟨(hbounds hb).1.trans hlo, hhi.trans (hbounds hb).2⟩
      refine List.foldlRecOn (motive := Good) _ _ ?_ ?_
      · exact fun span hspan => absurd hspan (SpanSet.not_mem_empty span)
      intro newAddrRange hgood span hspan
      split_ifs
      · intro other hother
        rcases SpanSet.mem_insert.mp hother with rfl | hother
        · exact hnew _ hspan
        · exact hgood other hother
      · exact hgood

/-! ### The placement strategies -/

/-- The range of the constraint's size at `start` lies in one micro-cluster. -/
def Fits (constraint : AddressConstraint) (uclusters : AddressRangeSet) (start : ℤ) : Prop :=
  ∃ u ∈ uclusters, Inside start (start + constraint.size - 1) u

theorem exists_inside_of_overlapLevel {start stop : ℤ} {ucluster : AddressRangeSet}
    (h : overlapLevel start stop ucluster = 1) : ∃ u ∈ ucluster, Inside start stop u := by
  simp only [overlapLevel] at h
  split_ifs at h with hany hnone
  · obtain ⟨u, hu, hinside⟩ := List.any_eq_true.mp hany
    exact ⟨u, (SpanSet.mem_overlap.mp hu).1, of_decide_eq_true hinside⟩
  · cases h

theorem drawInside_fits {constraint : AddressConstraint} {uclusters : AddressRangeSet} {span : Span}
    {tries : ℕ} {rng : RandNum} {start : ℤ}
    (h : (drawInside constraint uclusters span tries rng).1 = .ok (some start)) :
    Fits constraint uclusters start := by
  induction tries generalizing rng with
  | zero => cases h
  | succ tries ih =>
      rw [drawInside] at h
      split at h
      · cases h
      · dsimp only at h
        split_ifs at h with hlevel
        · obtain rfl := Option.some.inj (Except.ok.inj h)
          exact exists_inside_of_overlapLevel hlevel
        · exact ih h

theorem drawAnywhere_fits {constraint : AddressConstraint} {uclusters : AddressRangeSet} {tries : ℕ}
    {uclusterList : List Span} {rng : RandNum} {start : ℤ}
    (h : (drawAnywhere constraint uclusters tries uclusterList rng).1 = .ok (some start)) :
    Fits constraint uclusters start := by
  induction tries generalizing uclusterList rng with
  | zero => cases h
  | succ tries ih =>
      rw [drawAnywhere] at h
      split at h
      · cases h
      · split at h
        · exact ih h
        · exact drawInside_fits h

/-- The two limit flags are the only fields that differ. -/
def SameButFlags (cluster cluster' : AddressCluster) : Prop :=
  ∃ startAllocated endAllocated, cluster' =
    { cluster with startAllocated := startAllocated, endAllocated := endAllocated }

theorem SameButFlags.refl (cluster : AddressCluster) : SameButFlags cluster cluster :=
  ⟨_, _, rfl⟩

theorem SameButFlags.trans {a b c : AddressCluster} (hab : SameButFlags a b)
    (hbc : SameButFlags b c) : SameButFlags a c := by
  obtain ⟨_, _, rfl⟩ := hab
  obtain ⟨_, _, rfl⟩ := hbc
  exact ⟨_, _, rfl⟩

theorem markLimit_same (cluster : AddressCluster) (constraint : AddressConstraint)
    (uclusters : AddressRangeSet) (rng : RandNum) :
    SameButFlags cluster (cluster.markLimit constraint uclusters rng).1 := by
  simp only [markLimit]
  split_ifs <;> exact ⟨_, _, rfl⟩

/-- What a placement leaves behind: a fitting start if it found one, and at most the flags changed. -/
structure Placed (cluster : AddressCluster) (constraint : AddressConstraint)
    (uclusters : AddressRangeSet)
    (result : Except AddrGenFault (Option ℤ) × AddressCluster × RandNum) : Prop where
  fits : ∀ start, result.1 = .ok (some start) → Fits constraint uclusters start
  same : SameButFlags cluster result.2.1

theorem allocateAnywhere_placed (cluster : AddressCluster) (constraint : AddressConstraint)
    (uclusters : AddressRangeSet) (rng : RandNum) :
    Placed cluster constraint uclusters (cluster.allocateAnywhere constraint uclusters rng) :=
  ⟨fun _ h => drawAnywhere_fits h, cluster.markLimit_same constraint uclusters rng⟩

theorem drawNear_fits {cluster : AddressCluster} {constraint : AddressConstraint}
    {uclusters : AddressRangeSet} {entries : List Span} {rng : RandNum} {start : ℤ}
    (h : (cluster.drawNear constraint uclusters entries rng).1 = some start) :
    Fits constraint uclusters start := by
  induction entries generalizing rng with
  | nil => cases h
  | cons entry entries ih =>
      rw [drawNear] at h
      dsimp only at h
      generalize (if rng.percent.1 < 50 then _ else _ : ℤ) = near at h
      split at h
      · exact ih h
      · split at h
        · exact ih h
        · rename_i hany
          obtain rfl := Option.some.inj h
          obtain ⟨u, hu, hinside⟩ := List.any_eq_true.mp (not_not.mp hany)
          exact ⟨u, hu, of_decide_eq_true hinside⟩

theorem allocateNear_placed (cluster : AddressCluster) (constraint : AddressConstraint)
    (uclusters addresses : AddressRangeSet) (rng : RandNum) :
    Placed cluster constraint uclusters
      (cluster.allocateNear constraint uclusters addresses rng) := by
  simp only [allocateNear]
  split_ifs
  · exact allocateAnywhere_placed cluster constraint uclusters rng
  · exact ⟨fun _ h => drawNear_fits (Except.ok.inj h), SameButFlags.refl cluster⟩

theorem pickStrategy_placed (cluster : AddressCluster) (constraint : AddressConstraint)
    (uclusters : AddressRangeSet) (rng : RandNum) :
    Placed cluster constraint uclusters (cluster.pickStrategy constraint uclusters rng) := by
  simp only [pickStrategy]
  split_ifs
  · exact allocateAnywhere_placed cluster constraint uclusters rng
  · exact allocateAnywhere_placed cluster constraint uclusters _
  · exact allocateNear_placed cluster constraint uclusters _ _
  · exact allocateNear_placed cluster constraint uclusters _ _

/-- The allocated ranges of the cluster after an attempt to place the constraint. -/
inductive Attempt (cluster : AddressCluster) (constraint : AddressConstraint)
    (uclusters : AddressRangeSet) :
    Except AddrGenFault (Option ℤ) → AddressCluster → Prop where
  /-- An address is returned and recorded. -/
  | recorded (start : ℤ) (hfits : Fits constraint uclusters start)
      (hallocate : constraint.dontAllocate = false)
      (hle : start ≤ start + constraint.size - 1) (cluster' : AddressCluster)
      (hid : cluster'.clusterId = cluster.clusterId)
      (hsuper : cluster'.superCluster = cluster.superCluster)
      (hallocated : cluster'.allocatedAddresses =
        cluster.allocatedAddresses.insert ⟨start, start + constraint.size - 1, hle⟩) :
      Attempt cluster constraint uclusters (.ok (some start)) cluster'
  /-- An address is returned without being recorded. -/
  | returned (start : ℤ) (hfits : Fits constraint uclusters start)
      (hdont : constraint.dontAllocate = true) (cluster' : AddressCluster)
      (hsame : SameButFlags cluster cluster') :
      Attempt cluster constraint uclusters (.ok (some start)) cluster'
  /-- No address is returned. -/
  | failed (result : Except AddrGenFault (Option ℤ)) (hresult : ∀ start, result ≠ .ok (some start))
      (cluster' : AddressCluster) (hsame : SameButFlags cluster cluster') :
      Attempt cluster constraint uclusters result cluster'

theorem record_attempt {cluster cluster' : AddressCluster} {constraint : AddressConstraint}
    {uclusters : AddressRangeSet} {start : ℤ} (hfits : Fits constraint uclusters start)
    (hsame : SameButFlags cluster cluster') :
    Attempt cluster constraint uclusters (cluster'.record constraint start).1
      (cluster'.record constraint start).2 := by
  obtain ⟨startAllocated, endAllocated, rfl⟩ := hsame
  unfold record
  split_ifs with hdont
  · exact .returned start hfits hdont _ ⟨_, _, rfl⟩
  · split
    · exact .failed _ (by simp) _ ⟨_, _, rfl⟩
    · rename_i allocated hadd
      obtain ⟨hle, rfl⟩ := addRange_ok hadd
      exact .recorded start hfits (by simpa using hdont) hle _ rfl rfl rfl

theorem allocateAddress_attempt (cluster : AddressCluster) (constraint : AddressConstraint)
    (uclusters : AddressRangeSet) (rng : RandNum) :
    Attempt cluster constraint uclusters (cluster.allocateAddress constraint uclusters rng).1
      (cluster.allocateAddress constraint uclusters rng).2.1 := by
  have hpick := pickStrategy_placed cluster constraint uclusters rng
  unfold allocateAddress
  generalize cluster.pickStrategy constraint uclusters rng = picked at hpick
  obtain ⟨result, cluster1, rng1⟩ := picked
  rcases result with fault | (_ | start)
  · exact .failed _ (by simp) _ hpick.same
  · have hany := allocateAnywhere_placed cluster1 constraint uclusters rng1
    dsimp only
    generalize cluster1.allocateAnywhere constraint uclusters rng1 = again at hany
    obtain ⟨result, cluster2, rng2⟩ := again
    have hsame := hpick.same.trans hany.same
    rcases result with fault | (_ | start)
    · exact .failed _ (by simp) _ hsame
    · exact .failed _ (by simp) _ hsame
    · exact record_attempt (hany.fits start rfl) hsame
  · exact record_attempt (hpick.fits start rfl) hpick.same

end AddressCluster
end Riescue.Addrgen
