import Riescue.AddrgenSafety

/-! Which addresses a cluster can hand out. The random strategies only ever return a placeable address, and
every placeable address is returned for some outcome of the random choices. -/

namespace Riescue.Addrgen
open Spans

namespace AddressCluster

/-- `_allocate_anywhere` can draw the address from a micro-cluster. -/
def Anywhere (constraint : AddressConstraint) (uclusters : AddressRangeSet) (a : ℤ) : Prop :=
  ∃ u ∈ uclusters, ∃ address, u.lo ≤ address ∧ address ≤ u.hi - constraint.size + 1 ∧
    a = Int.lor (Int.land address constraint.mask) constraint.orMask

/-- `_allocate_near` can try the address next to an allocated range. -/
def Near (cluster : AddressCluster) (constraint : AddressConstraint) (a : ℤ) : Prop :=
  (∃ entry ∈ cluster.allocatedAddresses, a = Int.land (entry.lo - constraint.size) constraint.mask ∨
    a = Int.land (entry.hi + 1) constraint.mask) ∧
  cluster.startAddress ≤ a ∧ a + constraint.size - 1 ≤ cluster.endAddress

/-- The address fits in a micro-cluster and one of the strategies can come up with it. -/
def Placeable (cluster : AddressCluster) (constraint : AddressConstraint) (uclusters : AddressRangeSet) (a : ℤ) :
    Prop :=
  Fits constraint uclusters a ∧ (Anywhere constraint uclusters a ∨ cluster.Near constraint a)

section Draws
variable {cluster : AddressCluster} {constraint : AddressConstraint} {uclusters : AddressRangeSet} {start : ℤ}

theorem drawInside_anywhere {span : Span} (hspan : span ∈ uclusters) {tries : ℕ} {rng : RandNum}
    (h : (drawInside constraint uclusters span tries rng).1 = .ok (some start)) :
    Anywhere constraint uclusters start := by
  induction tries generalizing rng with
  | zero => cases h
  | succ tries ih =>
      rw [drawInside] at h
      split at h
      · cases h
      · rename_i address rng' hdraw
        dsimp only at h
        split_ifs at h with hlevel
        · obtain rfl := Option.some.inj (Except.ok.inj h)
          obtain ⟨hlo, hhi⟩ := RandNum.randomInRange_bounds (congrArg Prod.fst hdraw)
          exact ⟨span, hspan, address, hlo, by omega, rfl⟩
        · exact ih h

theorem drawAnywhere_anywhere {tries : ℕ} {uclusterList : List Span} (hsubset : ∀ u ∈ uclusterList, u ∈ uclusters)
    {rng : RandNum} (h : (drawAnywhere constraint uclusters tries uclusterList rng).1 = .ok (some start)) :
    Anywhere constraint uclusters start := by
  induction tries generalizing uclusterList rng with
  | zero => cases h
  | succ tries ih =>
      rw [drawAnywhere] at h
      split at h
      · cases h
      · rename_i rndUcluster rng' hdraw
        have hmem := RandNum.randomEntryIn_mem (congrArg Prod.fst hdraw)
        split at h
        · exact ih (fun u hu => hsubset u (List.mem_of_mem_erase hu)) h
        · exact drawInside_anywhere (hsubset _ hmem) h

theorem allocateAnywhere_placeable {rng : RandNum}
    (h : (cluster.allocateAnywhere constraint uclusters rng).1 = .ok (some start)) :
    cluster.Placeable constraint uclusters start :=
  ⟨drawAnywhere_fits h, .inl (drawAnywhere_anywhere (fun _ hu => hu) h)⟩

theorem drawNear_near {entries : List Span} (hsubset : ∀ entry ∈ entries, entry ∈ cluster.allocatedAddresses)
    {rng : RandNum} (h : (cluster.drawNear constraint uclusters entries rng).1 = some start) :
    cluster.Near constraint start := by
  induction entries generalizing rng with
  | nil => cases h
  | cons entry entries ih =>
      have hrest : ∀ e ∈ entries, e ∈ cluster.allocatedAddresses := fun e he =>
        hsubset e (List.mem_cons_of_mem entry he)
      rw [drawNear] at h
      dsimp only at h
      have hside : ∀ near : ℤ, near = (if rng.percent.1 < 50 then Int.land (entry.lo - constraint.size) constraint.mask
          else Int.land (entry.hi + 1) constraint.mask) →
          near = Int.land (entry.lo - constraint.size) constraint.mask ∨
            near = Int.land (entry.hi + 1) constraint.mask := by
        intro near hnear
        split_ifs at hnear
        · exact .inl hnear
        · exact .inr hnear
      generalize hnear : (if rng.percent.1 < 50 then _ else _ : ℤ) = near at h
      split at h
      · exact ih hrest h
      · rename_i hbounds
        split at h
        · exact ih hrest h
        · obtain rfl := Option.some.inj h
          exact ⟨⟨entry, hsubset entry List.mem_cons_self, hside _ hnear.symm⟩, by omega, by omega⟩

theorem percent_lt (rng : RandNum) : rng.percent.1 < 100 := Nat.mod_lt _ (by norm_num)

theorem pickStrategy_placeable {rng : RandNum}
    (h : (cluster.pickStrategy constraint uclusters rng).1 = .ok (some start)) :
    cluster.Placeable constraint uclusters start := by
  have hfits := (pickStrategy_placed cluster constraint uclusters rng).fits start h
  unfold pickStrategy at h
  dsimp only at h
  split_ifs at h with hempty hanywhere hnear
  · exact allocateAnywhere_placeable h
  · exact allocateAnywhere_placeable h
  · unfold allocateNear at h
    rw [if_neg hempty] at h
    refine ⟨hfits, .inr (drawNear_near (fun entry hentry => ?_) (Except.ok.inj h))⟩
    exact (RandNum.shuffle_perm _ _).subset hentry
  · exact absurd (percent_lt _).le hnear

theorem SameButFlags.placeable {cluster' : AddressCluster} (h : SameButFlags cluster cluster')
    (hplaceable : cluster'.Placeable constraint uclusters start) :
    cluster.Placeable constraint uclusters start := by
  obtain ⟨_, _, rfl⟩ := h
  exact hplaceable

end Draws

/-! ### Every placeable address is drawn for some random choices -/

section Outcomes
variable {cluster : AddressCluster} {constraint : AddressConstraint} {uclusters : AddressRangeSet} {a : ℤ}

theorem overlapLevel_of_inside {u : Span} (hu : u ∈ uclusters) {stop : ℤ} (hle : a ≤ stop) (hinside : Inside a stop u) :
    overlapLevel a stop uclusters = 1 := by
  have hmeets : u ∈ uclusters.overlap a stop :=
    SpanSet.mem_overlap.mpr ⟨hu, hinside.1.trans hle, hle.trans hinside.2, hle⟩
  have hany : ((uclusters.overlap a stop).any fun span => decide (span.lo ≤ a ∧ stop ≤ span.hi)) = true :=
    List.any_eq_true.mpr ⟨u, hmeets, decide_eq_true hinside⟩
  rw [overlapLevel, if_pos hany]

theorem exists_drawAnywhere (hsize : 0 < constraint.size) (hfits : Fits constraint uclusters a)
    (hanywhere : Anywhere constraint uclusters a) :
    ∃ draws, (drawAnywhere constraint uclusters uclusters.spans.length uclusters.spans ⟨draws⟩).1 =
      .ok (some a) := by
  obtain ⟨u, hu, address, hlo, hhi, rfl⟩ := hanywhere
  obtain ⟨v, hv, hinside⟩ := hfits
  obtain ⟨entry, hentry⟩ := RandNum.exists_randomEntryIn hu
  obtain ⟨draw, hdraw⟩ := RandNum.exists_randomInRange hlo
    (show address < u.hi - constraint.size + 1 + 1 by omega)
  obtain ⟨count, hcount⟩ : ∃ count, uclusters.spans.length = count + 1 :=
    Nat.exists_eq_succ_of_ne_zero (List.length_pos_of_mem hu).ne'
  have hlevel := overlapLevel_of_inside hv (by omega) hinside
  refine ⟨[entry, draw], ?_⟩
  rw [hcount, drawAnywhere]
  simp only [hentry, drawInside, hdraw, hlevel, if_true]

/-- The look near the limits of the cluster can be left out. -/
theorem exists_markLimit (cluster : AddressCluster) (constraint : AddressConstraint)
    (uclusters : AddressRangeSet) :
    ∃ draws, ∀ later, cluster.markLimit constraint uclusters ⟨draws ++ later⟩ = (cluster, ⟨later⟩) := by
  by_cases hflags : (cluster.startAllocated && cluster.endAllocated) = true
  · exact ⟨[], fun later => by simp only [markLimit, hflags, if_true, List.nil_append]⟩
  · refine ⟨[10], fun later => ?_⟩
    have hpercent : (RandNum.mk ([10] ++ later)).percent = (10, ⟨later⟩) := rfl
    simp only [markLimit, hflags, hpercent]
    rfl

theorem exists_allocateAnywhere (cluster : AddressCluster) (hsize : 0 < constraint.size)
    (hfits : Fits constraint uclusters a) (hanywhere : Anywhere constraint uclusters a) :
    ∃ draws, (cluster.allocateAnywhere constraint uclusters ⟨draws⟩).1 = .ok (some a) := by
  obtain ⟨limit, hlimit⟩ := exists_markLimit cluster constraint uclusters
  obtain ⟨draws, hdraws⟩ := exists_drawAnywhere hsize hfits hanywhere
  refine ⟨limit ++ draws, ?_⟩
  simp only [allocateAnywhere, hlimit, hdraws]

theorem exists_drawNear (hfits : Fits constraint uclusters a)
    (hclear : ∀ u ∈ uclusters, ∀ b ∈ u, b ∉ cluster.allocatedAddresses.covered)
    {entry : Span} (hside : a = Int.land (entry.lo - constraint.size) constraint.mask ∨
      a = Int.land (entry.hi + 1) constraint.mask)
    (hlo : cluster.startAddress ≤ a) (hhi : a + constraint.size - 1 ≤ cluster.endAddress) (entries : List Span) :
    ∃ draws, (cluster.drawNear constraint uclusters (entry :: entries) ⟨draws⟩).1 = some a := by
  obtain ⟨u, hu, hinside⟩ := hfits
  have hempty : ¬(cluster.allocatedAddresses.overlap a (a + constraint.size - 1)).length ≠ 0 := by
    intro hne
    obtain ⟨b, hcovered, hb⟩ := SpanSet.overlap_ne_nil_iff.mp fun hnil => hne (hnil ▸ rfl)
    exact hclear u hu b ⟨hinside.1.trans hb.1, hb.2.trans hinside.2⟩ hcovered
  have hbounds : ¬((cluster.allocatedAddresses.overlap a (a + constraint.size - 1)).length ≠ 0 ∨
      a < cluster.startAddress ∨ cluster.endAddress < a + constraint.size - 1) := by
    rintro (h | h | h)
    · exact hempty h
    · omega
    · omega
  have hany : (uclusters.spans.any fun u => decide (u.lo ≤ a ∧ a + constraint.size - 1 ≤ u.hi)) = true :=
    List.any_eq_true.mpr ⟨u, hu, decide_eq_true hinside⟩
  rcases hside with hbefore | hafter
  · refine ⟨[0], ?_⟩
    have hpercent : (RandNum.mk [0]).percent = (0, ⟨[]⟩) := rfl
    rw [drawNear]
    simp only [hpercent, show (0 < 50) = True by simp, if_true, ← hbefore, if_neg hbounds, hany, not_true_eq_false,
      if_false]
  · refine ⟨[50], ?_⟩
    have hpercent : (RandNum.mk [50]).percent = (50, ⟨[]⟩) := rfl
    rw [drawNear]
    simp only [hpercent, show (50 < 50) = False by simp, if_false, ← hafter, if_neg hbounds, hany, not_true_eq_false]

theorem exists_pickStrategy (hsize : 0 < constraint.size) (hplaceable : cluster.Placeable constraint uclusters a)
    (hclear : ∀ u ∈ uclusters, ∀ b ∈ u, b ∉ cluster.allocatedAddresses.covered) :
    ∃ draws, (cluster.pickStrategy constraint uclusters ⟨draws⟩).1 = .ok (some a) := by
  obtain ⟨hfits, hanywhere | ⟨⟨entry, hentry, hside⟩, hlo, hhi⟩⟩ := hplaceable
  · obtain ⟨draws, hdraws⟩ := exists_allocateAnywhere cluster hsize hfits hanywhere
    by_cases hempty : cluster.allocatedAddresses.spans.length = 0
    · exact ⟨draws, by rw [pickStrategy, if_pos hempty, hdraws]⟩
    · refine ⟨0 :: draws, ?_⟩
      have hpercent : (RandNum.mk (0 :: draws)).percent = (0, ⟨draws⟩) := rfl
      simp only [pickStrategy, hempty, if_false, hpercent, show (0 < 90) = True by simp, if_true, hdraws]
  · obtain ⟨others, hperm⟩ : ∃ others, (entry :: others).Perm cluster.allocatedAddresses.spans :=
      ⟨_, (List.perm_cons_erase hentry).symm⟩
    obtain ⟨order, horder⟩ := RandNum.exists_shuffle_append hperm
    obtain ⟨draws, hdraws⟩ := exists_drawNear hfits hclear hside hlo hhi others
    have hnonempty : ¬cluster.allocatedAddresses.spans.length = 0 := (List.length_pos_of_mem hentry).ne'
    refine ⟨90 :: 0 :: (order ++ draws), ?_⟩
    have hfirst : (RandNum.mk (90 :: 0 :: (order ++ draws))).percent = (90, ⟨0 :: (order ++ draws)⟩) := rfl
    have hsecond : (RandNum.mk (0 :: (order ++ draws))).percent = (0, ⟨order ++ draws⟩) := rfl
    simp only [pickStrategy, allocateNear, hnonempty, if_false, hfirst, hsecond, horder, hdraws,
      show (90 < 90) = False by simp, show (0 ≤ 100) = True by simp, if_true]

/-- Every placeable address is returned for some outcome of the random choices. -/
theorem exists_allocateAddress (hsize : 0 < constraint.size) (hplaceable : cluster.Placeable constraint uclusters a)
    (hclear : ∀ u ∈ uclusters, ∀ b ∈ u, b ∉ cluster.allocatedAddresses.covered) :
    ∃ draws, (cluster.allocateAddress constraint uclusters ⟨draws⟩).1 = .ok (some a) := by
  obtain ⟨draws, hdraws⟩ := exists_pickStrategy hsize hplaceable hclear
  refine ⟨draws, ?_⟩
  obtain ⟨picked, rng, hpick⟩ : ∃ picked rng,
      cluster.pickStrategy constraint uclusters ⟨draws⟩ = (.ok (some a), picked, rng) :=
    ⟨_, _, Prod.ext hdraws rfl⟩
  simp only [allocateAddress, hpick, record]
  split_ifs
  · rfl
  · rw [addRange_of_le _ (by omega)]

end Outcomes
end AddressCluster
end Riescue.Addrgen
