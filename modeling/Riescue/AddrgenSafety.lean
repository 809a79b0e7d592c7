import Riescue.AddrgenInvariant

/-! Every call keeps the invariant, so it holds of every reachable space; what the space promises about
an address follows from it. -/

namespace Riescue.Addrgen
open Spans AddressCluster

theorem ClusterInv.congr {segments segments' : AddressQualifiers → ℤ → ℤ → Prop}
    {taken taken' : ℤ → Prop} {i : ℕ} {cluster : AddressCluster}
    (hinv : ClusterInv segments taken i cluster)
    (hsegments : ∀ qualifier lo hi, segments qualifier lo hi → segments' qualifier lo hi)
    (htaken : ∀ b, InCluster i b → (taken b ↔ taken' b)) : ClusterInv segments' taken' i cluster := by
  refine ⟨hinv.id, fun qualifier range hrange => ?_, fun b => ?_⟩
  · obtain ⟨hlo, hhi, hin⟩ := hinv.segment qualifier range hrange
    exact ⟨hlo, hhi, hsegments _ _ _ hin⟩
  · rw [hinv.allocated b]
    exact and_congr_right (htaken b)

/-- Recording a range inside the cluster takes its bytes. -/
theorem ClusterInv.insert {segments : AddressQualifiers → ℤ → ℤ → Prop} {taken : ℤ → Prop} {i : ℕ}
    {cluster cluster' : AddressCluster} (hinv : ClusterInv segments taken i cluster) {span : Span}
    (hspan : ∀ b ∈ span, InCluster i b) (hid : cluster'.clusterId = cluster.clusterId)
    (hsuper : cluster'.superCluster = cluster.superCluster)
    (hallocated : cluster'.allocatedAddresses = cluster.allocatedAddresses.insert span) :
    ClusterInv segments (fun b => b ∈ span ∨ taken b) i cluster' := by
  refine ⟨hid.trans hinv.id, fun qualifier => ?_, fun b => ?_⟩
  · rw [hsuper]
    exact hinv.segment qualifier
  · rw [hallocated, SpanSet.covered_insert, Set.mem_union, hinv.allocated b]
    constructor
    · rintro (hb | hb)
      · exact ⟨hspan b hb, Or.inl hb⟩
      · exact ⟨hb.1, Or.inr hb.2⟩
    · rintro ⟨hcluster, hb | hb⟩
      · exact Or.inl hb
      · exact Or.inr ⟨hcluster, hb⟩

/-! ### Reserving memory -/

section Reserve
variable {segments : AddressQualifiers → ℤ → ℤ → Prop} {start stop : ℕ}

/-- The loop takes the part of `[start, stop]` in every cluster it visits. When it raises, nothing is
left to take: the failing cluster does not exist, or the range is empty. -/
theorem reserveMemoryLoop_inv {interestingAddress : Bool} {indices : List ℕ}
    (hpieces : Pieces start stop indices) (taken : Fin 64 → ℤ → Prop) {space : AddressSpace}
    (hinv : ∀ j : Fin 64, ClusterInv segments (taken j) j (space.clusters j)) (j : Fin 64) :
    ClusterInv segments (fun b => (j.val ∈ indices ∧ (start : ℤ) ≤ b ∧ b ≤ stop) ∨ taken j b) j
      ((AddressSpace.reserveMemoryLoop start stop interestingAddress
        (AddressSpace.addressToCluster start) (AddressSpace.addressToCluster stop)
        indices space).2.clusters j) := by
  induction indices generalizing taken space with
  | nil => exact (hinv j).congr (fun _ _ _ h => h) fun b _ => by simp
  | cons i rest ih =>
      rw [AddressSpace.reserveMemoryLoop]
      by_cases hi : i < 64
      · rw [cluster_of_lt space hi]
        have hid : (space.clusters ⟨i, hi⟩).clusterId = i := (hinv ⟨i, hi⟩).id
        simp only [startAddress, endAddress, hid]
        rw [← pieceLo, ← pieceHi]
        by_cases hle : pieceLo start i ≤ pieceHi stop i
        · simp only [addRange_of_le _ hle]
          let taken' : Fin 64 → ℤ → Prop := fun k b =>
            (k.val = i ∧ (start : ℤ) ≤ b ∧ b ≤ stop) ∨ taken k b
          refine ClusterInv.congr (ih hpieces.tail taken' ?_) (fun _ _ _ h => h) fun b _ => ?_
          · refine forall_setCluster (P := fun k => ClusterInv segments (taken' k) k) rfl
              (fun _ => ?_) fun k hk => ?_
            · -- the piece goes to its own cluster
              have hspan : ∀ b ∈ Span.mk _ _ hle, InCluster i b :=
                fun b hb => (hpieces.mem_iff.mp hb).2.2
              refine ClusterInv.congr ((hinv ⟨i, hi⟩).insert hspan hid.symm rfl rfl) (fun _ _ _ h => h)
                fun b hb => or_congr_left' fun _ => ?_
              refine (hpieces.mem_iff (b := b)).trans ⟨fun h => ⟨rfl, h.1, h.2.1⟩, ?_⟩
              exact fun h => ⟨h.2.1, h.2.2, hb⟩
            · exact (hinv k).congr (fun _ _ _ h => h) fun b _ => by simp [taken', hk]
          · simp only [taken', List.mem_cons]
            tauto
        · simp only [addRange_of_not_le _ hle]
          obtain rfl := hpieces.eq_nil_of_empty hle
          refine (hinv j).congr (fun _ _ _ h => h) fun b hb => (or_iff_right ?_).symm
          rintro ⟨hj, hstart, hstop⟩
          rw [List.mem_singleton.mp hj] at hb
          obtain ⟨hlo, hhi⟩ := hpieces.mem_iff.mpr ⟨hstart, hstop, hb⟩
          exact hle (hlo.trans hhi)
      · rw [cluster_of_not_lt space hi]
        refine (hinv j).congr (fun _ _ _ h => h) fun b _ => (or_iff_right ?_).symm
        rintro ⟨hj, -⟩
        rcases List.mem_cons.mp hj with hj | hj
        · omega
        · have := (List.pairwise_cons.mp hpieces.sorted).1 _ hj
          omega

end Reserve

theorem SpaceInv.reserveMemory {history : List Event} {space : AddressSpace}
    (hinv : SpaceInv history space) (start stop : ℕ) (interestingAddress : Bool) :
    SpaceInv (.reserved start stop :: history)
      (space.reserveMemory start stop interestingAddress).2 := by
  intro j
  refine (reserveMemoryLoop_inv (pieces_clusterRange start stop) _ hinv j).congr
    (fun _ _ _ h => h.cons _) fun b hb => ?_
  rw [taken_cons]
  refine or_congr_left' fun _ => ?_
  obtain ⟨n, rfl, hn⟩ := hb.exists_nat
  have hlt : (n : ℤ) < 2 ^ 64 := hb.2.trans_le (pow_le_pow_right₀ (by norm_num) (by omega))
  simp only [Event.Takes, AddressSpace.clusterRange, List.mem_range'_1, hlt, and_true]
  constructor
  · exact fun h => h.2
  · rintro ⟨hstart, hstop⟩
    have hlower := addressToCluster_mono (by exact_mod_cast hstart : start ≤ n)
    have hupper := addressToCluster_mono (by exact_mod_cast hstop : n ≤ stop)
    exact ⟨by omega, hstart, hstop⟩

/-! ### Defining segments -/

theorem defineSegmentLoop_inv {history : List Event} {qualifier : AddressQualifiers} {start stop : ℕ}
    {indices : List ℕ} (hpieces : Pieces start stop indices) {space : AddressSpace}
    (hmem : .segment qualifier start stop ∈ history) (hinv : SpaceInv history space) :
    SpaceInv history (AddressSpace.defineSegmentLoop qualifier start stop
        (AddressSpace.addressToCluster start) (AddressSpace.addressToCluster stop)
        indices space).2 := by
  induction indices generalizing space with
  | nil => exact hinv
  | cons i rest ih =>
      rw [AddressSpace.defineSegmentLoop]
      by_cases hi : i < 64
      · rw [cluster_of_lt space hi]
        have hid : (space.clusters ⟨i, hi⟩).clusterId = i := (hinv ⟨i, hi⟩).id
        simp only [startAddress, endAddress, hid]
        rw [← pieceLo, ← pieceHi]
        by_cases hle : pieceLo start i ≤ pieceHi stop i
        · simp only [addRange_of_le _ hle]
          refine ih hpieces.tail ?_
          refine forall_setCluster (P := fun k => ClusterInv _ _ k) rfl (fun _ => ?_) fun k _ => hinv k
          refine ⟨rfl, fun q range hrange => ?_, (hinv ⟨i, hi⟩).allocated⟩
          dsimp only at hrange
          by_cases hq : q = qualifier
          · subst hq
            rw [Function.update_self, SpanSet.mem_insert] at hrange
            rcases hrange with rfl | hrange
            · obtain ⟨hlo, -, hlo'⟩ := hpieces.mem_iff.mp ⟨le_rfl, hle⟩
              obtain ⟨-, hhi, hhi'⟩ := hpieces.mem_iff.mp ⟨hle, le_rfl⟩
              exact ⟨hlo', hhi', start, stop, hmem, hlo, hhi⟩
            · exact (hinv ⟨i, hi⟩).segment q range hrange
          · rw [Function.update_of_ne hq] at hrange
            exact (hinv ⟨i, hi⟩).segment q range hrange
        · simp only [addRange_of_not_le _ hle]
          exact hinv
      · rw [cluster_of_not_lt space hi]
        exact hinv

theorem SpaceInv.defineSegment {history : List Event} {space : AddressSpace}
    (hinv : SpaceInv history space) (qualifier : AddressQualifiers) (start stop : ℕ) :
    SpaceInv (.segment qualifier start stop :: history)
      (space.defineSegment qualifier start stop).2 :=
  defineSegmentLoop_inv (pieces_clusterRange start stop) List.mem_cons_self
    (hinv.cons fun _ h => h)

/-! ### Generating an address -/

/-- What the space promises about an address it returns after the given history. -/
structure Promised (history : List Event) (constraint : AddressConstraint) (a : ℤ) : Prop where
  free : ∀ b, a ≤ b → b ≤ a + constraint.size - 1 → ¬Taken history b
  segment : ∀ q ∈ constraint.qualifiers, InSegment history q a (a + constraint.size - 1)
  bounds : constraint.HasBounds →
    (constraint.start : ℤ) ≤ a ∧ a + constraint.size - 1 ≤ constraint.stop
  top : a + constraint.size - 1 < 2 ^ constraint.bits

theorem qualifiers_ne_nil {cluster : AddressCluster} {constraint : AddressConstraint}
    {uclusters : AddressRangeSet} (h : cluster.findUcluster constraint = .ok uclusters) :
    ∃ q, q ∈ constraint.qualifiers := by
  cases hqualifiers : constraint.qualifiers with
  | nil =>
      rw [findUcluster, commonRange, hqualifiers] at h
      cases h
  | cons q qualifiers => exact ⟨q, List.mem_cons_self⟩

/-- A range that fits keeps every promise, and lies in the cluster it was found in. -/
theorem promised_of_fits {history : List Event} {i : ℕ} {cluster : AddressCluster}
    {constraint : AddressConstraint} {uclusters : AddressRangeSet} {a : ℤ}
    (hinv : ClusterInv (InSegment history) (Taken history) i cluster)
    (hfind : cluster.findUcluster constraint = .ok uclusters) (hfits : Fits constraint uclusters a)
    (hbits : i < constraint.bits) :
    Promised history constraint a ∧ ∀ b, a ≤ b → b ≤ a + constraint.size - 1 → InCluster i b := by
  obtain ⟨u, hu, hlo, hhi⟩ := hfits
  have hfree := findUcluster_free hfind u hu
  have hsegment : ∀ q ∈ constraint.qualifiers, ∃ r : Span, InCluster i r.lo ∧ InCluster i r.hi ∧
      InSegment history q r.lo r.hi ∧ Inside a (a + constraint.size - 1) r := by
    intro q hq
    obtain ⟨r, hr, hrlo, hrhi⟩ := hfree.qualifier q hq
    obtain ⟨hin, hin', hseg⟩ := hinv.segment q r hr
    exact ⟨r, hin, hin', hseg, hrlo.trans hlo, hhi.trans hrhi⟩
  obtain ⟨q, hq⟩ := qualifiers_ne_nil hfind
  obtain ⟨r, hrlo, hrhi, -, hinside⟩ := hsegment q hq
  have hcluster : ∀ b, a ≤ b → b ≤ a + constraint.size - 1 → InCluster i b := fun b hb hb' =>
    hrlo.of_between hrhi (hinside.1.trans hb) (hb'.trans hinside.2)
  refine ⟨⟨fun b hb hb' htaken => ?_, fun q hq => ?_, fun hbounds => ?_, ?_⟩, hcluster⟩
  · exact hfree.unallocated b ⟨hlo.trans hb, hb'.trans hhi⟩
      ((hinv.allocated b).mpr ⟨hcluster b hb hb', htaken⟩)
  · obtain ⟨r, -, -, ⟨start, stop, hmem, hstart, hstop⟩, hinside⟩ := hsegment q hq
    exact ⟨start, stop, hmem, hstart.trans hinside.1, hinside.2.trans hstop⟩
  · exact ⟨(hfree.bounds hbounds).1.trans hlo, hhi.trans (hfree.bounds hbounds).2⟩
  · have hpow : (2 : ℤ) ^ (i + 1) ≤ 2 ^ constraint.bits := pow_le_pow_right₀ (by norm_num) hbits
    exact (hinside.2.trans_lt hrhi.2).trans_le hpow

/-- What a call leaves behind: the promise for the address it returned, and clusters that hold what was
taken before and what the call took. -/
structure Served (history : List Event) (constraint : AddressConstraint)
    (result : Except AddrGenFault ℤ) (space : AddressSpace) : Prop where
  promised : ∀ a, result = .ok a → Promised history constraint a
  inv : ∀ j : Fin 64, ClusterInv (InSegment history)
    (fun b => (Event.generated constraint result).Takes b ∨ Taken history b) j (space.clusters j)
  small : ∀ b, (Event.generated constraint result).Takes b → b < 2 ^ 64

theorem Served.ofNothing {history : List Event} {constraint : AddressConstraint} {space : AddressSpace}
    (hinv : SpaceInv history space) (fault : AddrGenFault) :
    Served history constraint (.error fault) space :=
  ⟨by simp, fun j => (hinv j).congr (fun _ _ _ h => h) fun b _ => by simp [Event.Takes],
    fun _ h => h.elim⟩

theorem SpaceInv.setSame {history : List Event} {space : AddressSpace} (hinv : SpaceInv history space)
    {i : ℕ} (hi : i < 64) {cluster : AddressCluster}
    (hsame : SameButFlags (space.clusters ⟨i, hi⟩) cluster) :
    SpaceInv history (space.setCluster i cluster) :=
  forall_setCluster (P := fun j => ClusterInv _ _ j) rfl (fun _ => (hinv ⟨i, hi⟩).ofSame hsame)
    fun j _ => hinv j

/-- One attempt in cluster `i` that returned an address. -/
theorem served_of_attempt {history : List Event} {space space' : AddressSpace} {i : ℕ} {hi : i < 64}
    {constraint : AddressConstraint} {uclusters : AddressRangeSet} {a : ℤ} {cluster : AddressCluster}
    (hinv : SpaceInv history space) (hbits : i < constraint.bits)
    (hfind : (space.clusters ⟨i, hi⟩).findUcluster constraint = .ok uclusters)
    (hattempt : Attempt (space.clusters ⟨i, hi⟩) constraint uclusters (.ok (some a)) cluster)
    (hset : space'.clusters = (space.setCluster i cluster).clusters) :
    Served history constraint (.ok a) space' := by
  have hfits : Fits constraint uclusters a := by
    cases hattempt with
    | recorded _ hfits => exact hfits
    | returned _ hfits => exact hfits
    | failed _ hresult => exact absurd rfl (hresult a)
  obtain ⟨hpromised, hcluster⟩ := promised_of_fits (hinv ⟨i, hi⟩) hfind hfits hbits
  refine ⟨fun other hother => Except.ok.inj hother ▸ hpromised, ?_, fun b hb =>
    (hcluster b hb.2.1 hb.2.2).2.trans_le (pow_le_pow_right₀ (by norm_num) hi)⟩
  refine forall_setCluster (P := fun j => ClusterInv _ _ j) hset (fun _ => ?_) fun j hj => ?_
  · cases hattempt with
    | recorded _ _ hallocate hle _ hid hsuper hallocated =>
        refine ((hinv ⟨i, hi⟩).insert (fun b hb => hcluster b hb.1 hb.2) hid hsuper
          hallocated).congr (fun _ _ _ h => h) fun b _ => or_congr_left' fun _ => ?_
        exact ⟨fun hb => ⟨hallocate, hb⟩, fun hb => hb.2⟩
    | returned _ _ hdont _ hsame =>
        refine ((hinv ⟨i, hi⟩).ofSame hsame).congr (fun _ _ _ h => h) fun b _ => ?_
        simp [Event.Takes, hdont]
    | failed _ hresult => exact absurd rfl (hresult a)
  · refine (hinv j).congr (fun _ _ _ h => h) fun b hb => (or_iff_right ?_).symm
    rintro ⟨-, hlo, hhi⟩
    have hi' := hcluster b hlo hhi
    exact hj (le_antisymm (hb.mono hi' le_rfl) (hi'.mono hb le_rfl))

theorem tryClusters_served {history : List Event} {constraint : AddressConstraint} {indices : List ℕ}
    (hbits : ∀ i ∈ indices, i < constraint.bits) {space : AddressSpace} {rng : RandNum}
    (hinv : SpaceInv history space) :
    Served history constraint (AddressSpace.tryClusters constraint indices space rng).1
      (AddressSpace.tryClusters constraint indices space rng).2.1 := by
  induction indices generalizing space rng with
  | nil => exact Served.ofNothing hinv _
  | cons i rest ih =>
      have hrest : ∀ j ∈ rest, j < constraint.bits := fun j hj => hbits j (List.mem_cons_of_mem i hj)
      rw [AddressSpace.tryClusters]
      by_cases hi : i < 64
      · rw [cluster_of_lt space hi]
        dsimp only
        cases hfind : (space.clusters ⟨i, hi⟩).findUcluster constraint with
        | error fault => exact Served.ofNothing hinv _
        | ok uclusters =>
            dsimp only
            split_ifs with hempty
            · have hattempt := allocateAddress_attempt (space.clusters ⟨i, hi⟩) constraint uclusters rng
              generalize (space.clusters ⟨i, hi⟩).allocateAddress constraint uclusters rng = attempt
                at hattempt ⊢
              obtain ⟨result, cluster, rng⟩ := attempt
              rcases result with fault | (_ | a)
              · cases hattempt with
                | failed _ _ _ hsame => exact Served.ofNothing (hinv.setSame hi hsame) _
              · cases hattempt with
                | failed _ _ _ hsame => exact ih hrest (hinv.setSame hi hsame)
              · exact served_of_attempt hinv (hbits i List.mem_cons_self) hfind hattempt rfl
            · exact ih hrest hinv
      · rw [cluster_of_not_lt space hi]
        exact Served.ofNothing hinv _

/-! ### Finding clusters -/

theorem possibleClusters_lt {addressMask addressBits i : ℕ}
    (h : i ∈ AddressSpace.possibleClusters addressMask addressBits) : i < addressBits := by
  have := List.mem_range.mp (List.mem_filter.mp h).1
  omega

/-- `find_clusters` only adds qualifiers to the constraint. -/
def Completes (constraint constraint' : AddressConstraint) : Prop :=
  ∃ qualifiers, constraint.qualifiers ⊆ qualifiers ∧
    constraint' = { constraint with qualifiers := qualifiers }

theorem defaultQualifiers_completes {space : AddressSpace} {constraint constraint' : AddressConstraint}
    {rng : RandNum} (h : (space.defaultQualifiers constraint rng).1 = .ok constraint') :
    Completes constraint constraint' := by
  have hnil : constraint.qualifiers.length = 0 → ∀ qualifiers,
      Completes constraint { constraint with qualifiers := qualifiers } := fun hempty qualifiers =>
    ⟨qualifiers, by rw [List.length_eq_zero_iff.mp hempty]; exact List.nil_subset _, rfl⟩
  unfold AddressSpace.defaultQualifiers at h
  split_ifs at h with hempty hphysical
  · exact Except.ok.inj h ▸ hnil hempty _
  · split at h
    · cases h
    · exact Except.ok.inj h ▸ hnil hempty _
  · exact Except.ok.inj h ▸ ⟨constraint.qualifiers, List.Subset.refl _, rfl⟩

theorem Served.ofCompletes {history : List Event} {constraint constraint' : AddressConstraint}
    {result : Except AddrGenFault ℤ} {space : AddressSpace} (hcompletes : Completes constraint constraint')
    (hserved : Served history constraint' result space) : Served history constraint result space := by
  obtain ⟨qualifiers, hsubset, rfl⟩ := hcompletes
  refine ⟨fun a ha => ?_, ?_, ?_⟩
  · obtain ⟨hfree, hsegment, hbounds, htop⟩ := hserved.promised a ha
    exact ⟨hfree, fun q hq => hsegment q (hsubset hq), hbounds, htop⟩
  · cases result <;> exact hserved.inv
  · cases result <;> exact hserved.small

theorem filterQualifiers_subset {space : AddressSpace} {qualifiers : List AddressQualifiers}
    {clusters clusters' : List ℕ} (h : space.filterQualifiers qualifiers clusters = .ok clusters') :
    clusters' ⊆ clusters := by
  induction qualifiers generalizing clusters with
  | nil => exact Except.ok.inj h ▸ List.Subset.refl _
  | cons q qualifiers ih =>
      simp only [AddressSpace.filterQualifiers] at h
      split_ifs at h with hempty
      exact List.Subset.trans (ih h) List.filter_sublist.subset

theorem findClusters_spec {space : AddressSpace} {constraint constraint' : AddressConstraint}
    {clusters : List ℕ} {rng : RandNum}
    (h : (space.findClusters constraint rng).1 = .ok (clusters, constraint')) :
    (∀ i ∈ clusters, i < constraint'.bits) ∧ Completes constraint constraint' := by
  unfold AddressSpace.findClusters at h
  split at h
  · cases h
  · rename_i completed rng' hdefault
    have hcompletes := defaultQualifiers_completes (congrArg Prod.fst hdefault)
    dsimp only at h
    split at h
    · cases h
    · split at h
      · cases h
      · rename_i filtered hfilter
        obtain ⟨rfl, rfl⟩ := Prod.mk.inj (Except.ok.inj h)
        refine ⟨fun i hi => ?_, hcompletes⟩
        have hmem : i ∈ filtered := by
          have := (List.mem_filter.mp hi).1
          split_ifs at this
          · exact (List.mem_filter.mp this).1
          · exact this
        exact possibleClusters_lt (List.mem_filter.mp (filterQualifiers_subset hfilter hmem)).1

theorem generateAddress_served {history : List Event} {space : AddressSpace}
    (hinv : SpaceInv history space) (constraint : AddressConstraint) (rng : RandNum) :
    Served history constraint (space.generateAddress constraint rng).1
      (space.generateAddress constraint rng).2.1 := by
  unfold AddressSpace.generateAddress
  cases hfind : space.findClusters constraint rng with
  | mk found rng' =>
      cases found with
      | error fault => exact Served.ofNothing hinv _
      | ok found =>
          obtain ⟨clusters, constraint'⟩ := found
          obtain ⟨hbits, hcompletes⟩ := findClusters_spec (congrArg Prod.fst hfind)
          dsimp only
          split_ifs with hempty
          · exact Served.ofNothing hinv _
          · exact (tryClusters_served
              (fun i hi => hbits i ((rng'.shuffle_perm clusters).subset hi)) hinv).ofCompletes hcompletes

theorem SpaceInv.generateAddress {history : List Event} {space : AddressSpace}
    (hinv : SpaceInv history space) (constraint : AddressConstraint) (rng : RandNum) :
    SpaceInv (.generated constraint (space.generateAddress constraint rng).1 :: history)
      (space.generateAddress constraint rng).2.1 := fun j =>
  ((generateAddress_served hinv constraint rng).inv j).congr (fun _ _ _ h => h.cons _)
    fun _ _ => taken_cons.symm

/-! ### Whole runs -/

theorem Reachable.inv {history : List Event} {space : AddressSpace} (h : Reachable history space) :
    SpaceInv history space := by
  induction h with
  | fresh => exact spaceInv_init
  | defineSegment _ qualifier start stop ih => exact ih.defineSegment qualifier start stop
  | reserveMemory _ start stop interestingAddress ih =>
      exact ih.reserveMemory start stop interestingAddress
  | generateAddress _ constraint rng ih => exact ih.generateAddress constraint rng

/-- Every address of the history kept its promise when it was returned. -/
theorem Reachable.promised {history : List Event} {space : AddressSpace} (h : Reachable history space)
    {later earlier : List Event} {constraint : AddressConstraint} {a : ℤ}
    (hsplit : history = later ++ .generated constraint (.ok a) :: earlier) :
    Promised earlier constraint a := by
  induction h generalizing later with
  | fresh => cases later <;> cases hsplit
  | @defineSegment history _ _ _ _ _ ih =>
      cases later with
      | nil => cases hsplit
      | cons event later => exact ih (List.cons.inj hsplit).2
  | @reserveMemory _ _ _ _ _ _ ih =>
      cases later with
      | nil => cases hsplit
      | cons event later => exact ih (List.cons.inj hsplit).2
  | @generateAddress history space hreach constraint' rng ih =>
      cases later with
      | nil =>
          obtain ⟨hevent, rfl⟩ := List.cons.inj hsplit
          obtain ⟨rfl, hresult⟩ := Event.generated.inj hevent
          exact (generateAddress_served hreach.inv _ rng).promised a hresult
      | cons event later => exact ih (List.cons.inj hsplit).2

/-- No byte beyond the last cluster is ever taken. -/
theorem Reachable.taken_lt {history : List Event} {space : AddressSpace} (h : Reachable history space)
    {b : ℤ} (htaken : Taken history b) : b < 2 ^ 64 := by
  induction h with
  | fresh => simp [Taken] at htaken
  | defineSegment _ _ _ _ ih => exact ih ((taken_cons.mp htaken).resolve_left id)
  | reserveMemory _ _ _ _ ih => exact (taken_cons.mp htaken).elim (fun hb => hb.2.2) ih
  | generateAddress hreach constraint rng ih =>
      exact (taken_cons.mp htaken).elim
        ((generateAddress_served hreach.inv constraint rng).small b) ih

theorem checkOverlapLoop_iff {space : AddressSpace} {lo hi : ℕ} {indices : List ℕ}
    (hsorted : indices.Pairwise (· < ·)) :
    space.checkOverlapLoop lo hi indices = .ok true ↔
      ∃ i : Fin 64, i.val ∈ indices ∧
        ∃ b ∈ (space.clusters i).allocatedAddresses.covered, (lo : ℤ) ≤ b ∧ b ≤ hi := by
  induction indices with
  | nil => simp [AddressSpace.checkOverlapLoop]
  | cons i rest ih =>
      rw [AddressSpace.checkOverlapLoop]
      by_cases hlt : i < 64
      · rw [cluster_of_lt space hlt]
        dsimp only
        split_ifs with hoverlap
        · have hfound := SpanSet.overlap_ne_nil_iff.mp fun h => hoverlap (h ▸ rfl)
          exact iff_of_true rfl ⟨⟨i, hlt⟩, List.mem_cons_self, hfound⟩
        · rw [ih hsorted.of_cons]
          have hnone := mt SpanSet.overlap_ne_nil_iff.mpr
            (not_not.mpr (List.length_eq_zero_iff.mp (not_not.mp hoverlap)))
          constructor
          · rintro ⟨j, hj, hfound⟩
            exact ⟨j, List.mem_cons_of_mem i hj, hfound⟩
          · rintro ⟨j, hj, hfound⟩
            rcases List.mem_cons.mp hj with rfl | hj
            · exact absurd hfound hnone
            · exact ⟨j, hj, hfound⟩
      · rw [cluster_of_not_lt space hlt]
        refine iff_of_false (by simp) ?_
        rintro ⟨j, hj, -⟩
        rcases List.mem_cons.mp hj with hj | hj
        · omega
        · have := (List.pairwise_cons.mp hsorted).1 _ hj
          omega

/-- In every reachable state `check_overlap` says whether a taken byte lies in the interval. -/
theorem checkOverlap_iff {history : List Event} {space : AddressSpace} (h : Reachable history space)
    (lo hi : ℕ) :
    space.checkOverlap lo hi = .ok true ↔ ∃ b, Taken history b ∧ (lo : ℤ) ≤ b ∧ b ≤ hi := by
  unfold AddressSpace.checkOverlap
  rw [checkOverlapLoop_iff (pieces_clusterRange lo hi).sorted]
  constructor
  · rintro ⟨i, -, b, hb, hbounds⟩
    exact ⟨b, (((h.inv i).allocated b).mp hb).2, hbounds⟩
  · rintro ⟨b, htaken, hlo, hhi⟩
    obtain ⟨n, rfl⟩ := Int.eq_ofNat_of_zero_le ((Int.natCast_nonneg lo).trans hlo)
    have hlt := addressToCluster_lt (n := 63) (by exact_mod_cast h.taken_lt htaken : n < 2 ^ 64)
    have hlower := addressToCluster_mono (by exact_mod_cast hlo : lo ≤ n)
    have hupper := addressToCluster_mono (by exact_mod_cast hhi : n ≤ hi)
    refine ⟨⟨_, hlt⟩, List.mem_range'_1.mpr ⟨hlower, by dsimp only; omega⟩, n, ?_, hlo, hhi⟩
    exact ((h.inv _).allocated n).mpr ⟨inCluster_addressToCluster n, htaken⟩

/-- The range of a returned address. -/
def addressRange (constraint : AddressConstraint) (a : ℤ) : Set ℤ :=
  Set.Icc a (a + constraint.size - 1)

/-- In every run, every returned address keeps its promise with respect to all earlier calls, the ranges
of later calls stay clear of it when it was allocated, and `check_overlap` reports exactly the bytes
taken so far. -/
theorem addressSpace_safe {history : List Event} {space : AddressSpace} (h : Reachable history space) :
    (∀ later earlier constraint a, history = later ++ .generated constraint (.ok a) :: earlier →
      Promised earlier constraint a) ∧
    (∀ latest between earlier constraint a constraint' a',
      history = latest ++ .generated constraint' (.ok a') :: between ++
        .generated constraint (.ok a) :: earlier →
      constraint.dontAllocate = false →
      Disjoint (addressRange constraint a) (addressRange constraint' a')) ∧
    ∀ lo hi, space.checkOverlap lo hi = .ok true ↔ ∃ b, Taken history b ∧ (lo : ℤ) ≤ b ∧ b ≤ hi := by
  refine ⟨fun later earlier constraint a hsplit => h.promised hsplit, ?_, checkOverlap_iff h⟩
  intro latest between earlier constraint a constraint' a' hsplit hallocate
  rw [List.append_assoc] at hsplit
  have hpromised := h.promised hsplit
  refine Set.disjoint_left.mpr fun b hb hb' => hpromised.free b hb'.1 hb'.2 ?_
  exact ⟨_, List.mem_append_right _ List.mem_cons_self, hallocate, hb.1, hb.2⟩

/-- One page of DRAM with a reserved byte in it. -/
def reservedPage : AddressSpace :=
  ((AddressSpace.init.defineSegment .addressDram 0x1000 0x1fff).2.reserveMemory 0x1100 0x1100 false).2

/-- A request for 256 aligned bytes below `2^14`. -/
def smallRequest : AddressConstraint :=
  { bits := 14, size := 0x100, mask := 0xffffffffffffff00, qualifiers := [.addressDram] }

/-- Two requests served from the page: the answers are disjoint, and the reserved byte is seen. -/
theorem addressSpace_safe_reservedPage :
    Disjoint (addressRange smallRequest 0x1000) (addressRange smallRequest 0x1200) ∧
      ((reservedPage.generateAddress smallRequest ⟨[3, 100, 0, 99, 3, 1]⟩).2.1.checkOverlap
        0x1100 0x11ff = .ok true) := by
  let next := (reservedPage.generateAddress smallRequest ⟨[3, 100, 0, 99, 3, 1]⟩).2.1
  have hpage : Reachable [.reserved 0x1100 0x1100, .segment .addressDram 0x1000 0x1fff] reservedPage :=
    (Reachable.fresh.defineSegment .addressDram 0x1000 0x1fff).reserveMemory 0x1100 0x1100 false
  have hfirst := hpage.generateAddress smallRequest ⟨[3, 100, 0, 99, 3, 1]⟩
  have hsecond := hfirst.generateAddress smallRequest ⟨[0, 50, 0, 20, 1, 0xeff]⟩
  have hanswer : (reservedPage.generateAddress smallRequest ⟨[3, 100, 0, 99, 3, 1]⟩).1 =
      .ok 0x1000 := by decide +kernel
  have hanswer' : (next.generateAddress smallRequest ⟨[0, 50, 0, 20, 1, 0xeff]⟩).1 =
      .ok 0x1200 := by decide +kernel
  refine ⟨?_, ((addressSpace_safe hfirst).2.2 0x1100 0x11ff).mpr ⟨0x1100, ?_, by norm_num, by norm_num⟩⟩
  · refine (addressSpace_safe hsecond).2.1 [] [] [.reserved 0x1100 0x1100,
      .segment .addressDram 0x1000 0x1fff] smallRequest _ smallRequest _ ?_ rfl
    rw [hanswer, hanswer']
    rfl
  · exact ⟨.reserved 0x1100 0x1100, by simp, by norm_num [Event.Takes]⟩

end Riescue.Addrgen
