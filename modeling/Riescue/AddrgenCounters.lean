import Riescue.AddrgenOutcome
import Riescue.LibSpanCount

/-! The memory counters of the clusters against the bytes that are still free. A counter goes down by the length
of every range that is reserved or allocated, so it keeps up with the free bytes as long as no byte is
counted twice and no byte outside the cluster is counted. -/

namespace Riescue.Addrgen
open Spans AddressCluster

namespace AddressCluster

/-- The bytes `[start_address, end_address]` that no reserved or allocated range covers. -/
def freeBytes (cluster : AddressCluster) : Finset ℤ :=
  cluster.allocatedAddresses.uncovered (between cluster.startAddress cluster.endAddress)

/-- The free bytes inside the segments of a qualifier. -/
def freeBytesOf (cluster : AddressCluster) (qualifier : AddressQualifiers) : Finset ℤ :=
  cluster.freeBytes.filter (· ∈ (cluster.superCluster qualifier).covered)

end AddressCluster

/-- No false out-of-memory: the counters are at least the free bytes, and `find_clusters` rejects no cluster on
its counters in which every requested qualifier has enough free bytes. -/
structure NoFalseOutOfMemory (space : AddressSpace) : Prop where
  available : ∀ i, ((space.clusters i).freeBytes.card : ℤ) ≤ (space.clusters i).availableMemory
  qualifier : ∀ i q, ((space.clusters i).freeBytesOf q).card ≤ (space.clusters i).qualifierSize q
  hasMemory : ∀ (constraint : AddressConstraint) (i : Fin 64), constraint.qualifiers ≠ [] →
    (∀ q ∈ constraint.qualifiers, constraint.size ≤ ((space.clusters i).freeBytesOf q).card) →
    space.hasMemory constraint i = true

/-- The call counts no byte twice and no byte outside the clusters: a reservation takes bytes that are not
taken and not address zero, and a one-byte request that may go to cluster 0 finds no segment with address
zero, which `_address_to_cluster` puts in cluster 0 although it starts at address 1. -/
def Event.CountedOnce (earlier : List Event) : Event → Prop
  | .segment _ _ _ => True
  | .reserved start stop => start ≠ 0 ∧ ∀ b : ℤ, start ≤ b → b ≤ stop → ¬Taken earlier b
  | .generated constraint _ =>
      constraint.dontAllocate = true ∨ 1 < constraint.size ∨
        0 ∉ AddressSpace.possibleClusters constraint.mask constraint.bits ∨
        ∀ q start stop, .segment q start stop ∈ earlier → start ≠ 0

/-- Every call of the run counts its bytes once. -/
def CountedOnce : List Event → Prop
  | [] => True
  | event :: earlier => event.CountedOnce earlier ∧ CountedOnce earlier

/-! ### The invariant -/

/-- The addresses of cluster `i`, with address zero in cluster 0. -/
def addresses (i : ℕ) : Finset ℤ := between (if i = 0 then 0 else 2 ^ i) (2 ^ (i + 1) - 1)

theorem mem_addresses {i : ℕ} {b : ℤ} : b ∈ addresses i ↔ InCluster i b := by
  unfold addresses InCluster
  rw [mem_between]
  exact and_congr_right fun _ => Int.le_sub_one_iff

namespace AddressCluster

/-- The addresses of cluster `i` in the segments of a qualifier. -/
def segmentBytes (cluster : AddressCluster) (i : ℕ) (qualifier : AddressQualifiers) : Finset ℤ :=
  (addresses i).filter (· ∈ (cluster.superCluster qualifier).covered)

/-- The counters of cluster `i` keep up with its free bytes. -/
structure Counted (i : ℕ) (cluster : AddressCluster) : Prop where
  id : cluster.clusterId = i
  available : (cluster.freeBytes.card : ℤ) ≤ cluster.availableMemory
  bounded : cluster.availableMemory ≤ 2 ^ i
  qualifier : ∀ q, ((cluster.allocatedAddresses.uncovered (cluster.segmentBytes i q)).card : ℤ) ≤
    cluster.qualifierSize q

theorem counted_init (i : ℕ) : Counted i (init i) where
  id := rfl
  available := by
    have hcard : ((freeBytes (init i)).card : ℤ) ≤ (between ((2 : ℤ) ^ i) (2 ^ (i + 1) - 1)).card := by
      exact_mod_cast Finset.card_filter_le _ _
    have hpow : (2 : ℤ) ^ (i + 1) = 2 * 2 ^ i := pow_succ' 2 i
    have hpos : (0 : ℤ) < 2 ^ i := by positivity
    have havailable : (init i).availableMemory = 2 ^ i := rfl
    rw [card_between (by omega)] at hcard
    omega
  bounded := le_rfl
  qualifier q := by
    have hempty : (init i).segmentBytes i q = ∅ := by
      rw [segmentBytes, Finset.filter_eq_empty_iff]
      exact fun b _ => by simp [init]
    rw [hempty]
    exact le_rfl

theorem Counted.ofSame {i : ℕ} {cluster cluster' : AddressCluster} (h : Counted i cluster)
    (hsame : SameButFlags cluster cluster') : Counted i cluster' := by
  obtain ⟨_, _, rfl⟩ := hsame
  exact ⟨h.id, h.available, h.bounded, h.qualifier⟩

/-- The free bytes of a qualifier are among those that its counter covers. -/
theorem Counted.freeBytesOf_le {i : ℕ} {cluster : AddressCluster} (h : Counted i cluster) (q : AddressQualifiers) :
    ((cluster.freeBytesOf q).card : ℤ) ≤ cluster.qualifierSize q := by
  refine le_trans ?_ (h.qualifier q)
  have hsubset : cluster.freeBytesOf q ⊆ cluster.allocatedAddresses.uncovered (cluster.segmentBytes i q) := by
    intro b hb
    obtain ⟨hfree, hseg⟩ := Finset.mem_filter.mp hb
    obtain ⟨hcluster, hclear⟩ := SpanSet.mem_uncovered.mp hfree
    refine SpanSet.mem_uncovered.mpr ⟨Finset.mem_filter.mpr ⟨?_, hseg⟩, hclear⟩
    simp only [startAddress, endAddress, h.id, mem_between] at hcluster
    rw [addresses, mem_between]
    have hpos : (0 : ℤ) < 2 ^ i := by positivity
    split_ifs <;> omega
  exact_mod_cast Finset.card_le_card hsubset

/-- Taking a range of free bytes and counting its length keeps the counters right. -/
theorem Counted.take {i : ℕ} {cluster cluster' : AddressCluster} (h : Counted i cluster) {span : Span}
    (hfree : span.ints ⊆ cluster.freeBytes) (hid : cluster'.clusterId = cluster.clusterId)
    (hsuper : cluster'.superCluster = cluster.superCluster)
    (hallocated : cluster'.allocatedAddresses = cluster.allocatedAddresses.insert span)
    (havailable : cluster'.availableMemory = cluster.availableMemory - (span.hi - span.lo + 1))
    (hqualifier : ∀ q, cluster'.qualifierSize q = cluster.qualifierSize q ∨
      (span.ints ⊆ cluster.allocatedAddresses.uncovered (cluster.segmentBytes i q) ∧
        cluster'.qualifierSize q = cluster.qualifierSize q - (span.hi - span.lo + 1))) :
    Counted i cluster' where
  id := hid.trans h.id
  available := by
    have hcard := SpanSet.card_uncovered_insert hfree
    have hbefore := h.available
    rw [havailable]
    simp only [freeBytes, hallocated, startAddress, endAddress, hid] at hbefore hcard ⊢
    omega
  bounded := by
    have hle := span.le
    have hbefore := h.bounded
    omega
  qualifier q := by
    have hbytes : cluster'.segmentBytes i q = cluster.segmentBytes i q := by
      rw [segmentBytes, segmentBytes, hsuper]
    have hbefore := h.qualifier q
    rw [hbytes, hallocated]
    rcases hqualifier q with hkept | ⟨hinside, hcounted⟩
    · have hsubset := Finset.card_le_card (SpanSet.uncovered_insert_subset cluster.allocatedAddresses span
        (cluster.segmentBytes i q))
      omega
    · rw [SpanSet.card_uncovered_insert hinside]
      omega

end AddressCluster

/-- The counters of every cluster are right. -/
def SpaceCounted (space : AddressSpace) : Prop := ∀ i : Fin 64, (space.clusters i).Counted i

theorem SpaceCounted.sound {space : AddressSpace} (h : SpaceCounted space) :
    NoFalseOutOfMemory space where
  available i := (h i).available
  qualifier i q := (h i).freeBytesOf_le q
  hasMemory constraint i hqualifiers hfree := by
    obtain ⟨q, hq⟩ := List.exists_mem_of_ne_nil _ hqualifiers
    have hsub : ((space.clusters i).freeBytesOf q).card ≤ (space.clusters i).freeBytes.card :=
      Finset.card_filter_le _ _
    have havailable := (h i).available
    have hsize := hfree q hq
    have hcluster : space.cluster i = .ok (space.clusters i) := cluster_of_lt space i.isLt
    rw [AddressSpace.hasMemory, hcluster]
    simp only [Bool.and_eq_true, decide_eq_true_eq, List.all_eq_true]
    refine ⟨by omega, fun q' hq' => ?_⟩
    have hcounter := (h i).freeBytesOf_le q'
    have hsize' := hfree q' hq'
    omega

/-! ### Reserving memory -/

theorem SpaceCounted.setCluster {space space' : AddressSpace} (h : SpaceCounted space) {i : ℕ}
    {cluster : AddressCluster} (hset : space'.clusters = (space.setCluster i cluster).clusters)
    (hcluster : cluster.Counted i) : SpaceCounted space' :=
  forall_setCluster (P := fun j cluster => cluster.Counted j) hset (fun _ => hcluster) fun j _ => h j

theorem reserveMemoryLoop_counted {start stop : ℕ} {interestingAddress : Bool} {indices : List ℕ}
    (hpieces : Pieces start stop indices) {space : AddressSpace} (h : SpaceCounted space)
    (hfree : ∀ i : Fin 64, i.val ∈ indices → ∀ b, pieceLo start i ≤ b → b ≤ pieceHi stop i →
      b ∈ (space.clusters i).freeBytes) :
    SpaceCounted (AddressSpace.reserveMemoryLoop start stop interestingAddress
      (AddressSpace.addressToCluster start) (AddressSpace.addressToCluster stop) indices space).2 := by
  induction indices generalizing space with
  | nil => exact h
  | cons i rest ih =>
      rw [AddressSpace.reserveMemoryLoop]
      by_cases hi : i < 64
      · rw [cluster_of_lt space hi]
        have hid : (space.clusters ⟨i, hi⟩).clusterId = i := (h ⟨i, hi⟩).id
        simp only [startAddress, endAddress, hid]
        rw [← pieceLo, ← pieceHi]
        by_cases hle : pieceLo start i ≤ pieceHi stop i
        · simp only [addRange_of_le _ hle]
          have hpiece := hfree ⟨i, hi⟩ List.mem_cons_self
          have hints : (Span.mk _ _ hle).ints ⊆ (space.clusters ⟨i, hi⟩).freeBytes := fun b hb =>
            hpiece b (Span.mem_ints.mp hb).1 (Span.mem_ints.mp hb).2
          refine ih hpieces.tail
            (h.setCluster rfl ((h ⟨i, hi⟩).take hints hid.symm rfl rfl rfl fun q => .inl rfl)) ?_
          intro j hj b hlo hhi
          have hne : j.val ≠ i := Nat.ne_of_gt ((List.pairwise_cons.mp hpieces.sorted).1 j hj)
          simp only [AddressSpace.setCluster, hne, if_false]
          exact hfree j (List.mem_cons_of_mem i hj) b hlo hhi
        · simp only [addRange_of_not_le _ hle]
          exact h
      · rw [cluster_of_not_lt space hi]
        exact h

theorem SpaceCounted.reserveMemory {history : List Event} {space : AddressSpace} (h : SpaceCounted space)
    (hinv : SpaceInv history space) {start stop : ℕ} (interestingAddress : Bool)
    (honce : (Event.reserved start stop).CountedOnce history) :
    SpaceCounted (space.reserveMemory start stop interestingAddress).2 := by
  have hpieces := pieces_clusterRange start stop
  refine reserveMemoryLoop_counted hpieces h fun i hi b hlo hhi => ?_
  obtain ⟨hstart, hstop, hin⟩ := (inCluster_piece (hpieces.lower i hi) (hpieces.upper i hi)).mp ⟨hlo, hhi⟩
  obtain ⟨hzero, huntaken⟩ := honce
  refine SpanSet.mem_uncovered.mpr ⟨?_, fun hcovered => ?_⟩
  · rw [mem_between, startAddress, endAddress, (h i).id]
    obtain ⟨hlower, hupper⟩ := hin
    refine ⟨?_, by omega⟩
    split_ifs at hlower with hfirst
    · -- cluster 0 starts at address 1
      rw [hfirst, pow_zero]
      omega
    · exact hlower
  · exact huntaken b hstart hstop (((hinv i).allocated b).mp hcovered).2

/-! ### Defining segments -/

/-- A segment adds at most its length to the bytes of its qualifier. -/
theorem AddressCluster.Counted.addSegment {i : ℕ} {cluster cluster' : AddressCluster} (h : cluster.Counted i)
    {qualifier : AddressQualifiers} {span : Span} (hid : cluster'.clusterId = cluster.clusterId)
    (havailable : cluster'.availableMemory = cluster.availableMemory)
    (hallocated : cluster'.allocatedAddresses = cluster.allocatedAddresses)
    (hsuper : cluster'.superCluster = Function.update cluster.superCluster qualifier
      ((cluster.superCluster qualifier).insert span))
    (hqualifier : cluster'.qualifierSize = Function.update cluster.qualifierSize qualifier
      (cluster.qualifierSize qualifier + (span.hi - span.lo + 1))) : cluster'.Counted i where
  id := hid.trans h.id
  available := by
    simp only [freeBytes, startAddress, endAddress, hid, hallocated, havailable]
    exact h.available
  bounded := havailable ▸ h.bounded
  qualifier q := by
    have hbefore := h.qualifier q
    rw [hallocated, hqualifier]
    by_cases hq : q = qualifier
    · subst hq
      have hsubset : cluster.allocatedAddresses.uncovered (cluster'.segmentBytes i q) ⊆
          cluster.allocatedAddresses.uncovered (cluster.segmentBytes i q) ∪ span.ints := by
        intro b hb
        obtain ⟨hbytes, hclear⟩ := SpanSet.mem_uncovered.mp hb
        obtain ⟨haddress, hseg⟩ := Finset.mem_filter.mp hbytes
        rw [hsuper, Function.update_self, SpanSet.covered_insert] at hseg
        rcases hseg with hseg | hseg
        · exact Finset.mem_union_right _ (Span.mem_ints.mpr hseg)
        · exact Finset.mem_union_left _ (SpanSet.mem_uncovered.mpr
            ⟨Finset.mem_filter.mpr ⟨haddress, hseg⟩, hclear⟩)
      have hcard := (Finset.card_le_card hsubset).trans (Finset.card_union_le _ _)
      have hlength := span.card_ints
      rw [Function.update_self]
      omega
    · have hbytes : cluster'.segmentBytes i q = cluster.segmentBytes i q := by
        rw [segmentBytes, segmentBytes, hsuper, Function.update_of_ne hq]
      rw [Function.update_of_ne hq, hbytes]
      exact hbefore

theorem defineSegmentLoop_counted {qualifier : AddressQualifiers} {start stop startCluster endCluster : ℕ}
    {indices : List ℕ} {space : AddressSpace} (h : SpaceCounted space) :
    SpaceCounted (AddressSpace.defineSegmentLoop qualifier start stop startCluster endCluster indices space).2 := by
  induction indices generalizing space with
  | nil => exact h
  | cons i rest ih =>
      rw [AddressSpace.defineSegmentLoop]
      by_cases hi : i < 64
      · rw [cluster_of_lt space hi]
        dsimp only
        split
        · exact h
        · rename_i superCluster hadd
          obtain ⟨hle, rfl⟩ := addRange_ok hadd
          refine ih (h.setCluster rfl ?_)
          exact (h ⟨i, hi⟩).addSegment rfl rfl rfl rfl rfl
      · rw [cluster_of_not_lt space hi]
        exact h

/-! ### Generating an address -/

/-- Recording an address of free bytes inside every requested qualifier's segments keeps the counters right. -/
theorem AddressCluster.Counted.record {i : ℕ} {cluster cluster' : AddressCluster} (h : cluster.Counted i)
    {constraint : AddressConstraint} {a : ℤ}
    (hrecord : cluster.record constraint a = (.ok (some a), cluster'))
    (hfree : constraint.dontAllocate = false → ∀ b, a ≤ b → b ≤ a + constraint.size - 1 → b ∈ cluster.freeBytes)
    (hsegments : ∀ q ∈ constraint.qualifiers, ∀ b, a ≤ b → b ≤ a + constraint.size - 1 →
      b ∈ cluster.allocatedAddresses.uncovered (cluster.segmentBytes i q)) : cluster'.Counted i := by
  unfold AddressCluster.record at hrecord
  split_ifs at hrecord with hdont
  · obtain rfl : cluster = cluster' := congrArg Prod.snd hrecord
    exact h
  · split at hrecord
    · cases hrecord
    · rename_i allocated hadd
      obtain ⟨hle, rfl⟩ := addRange_ok hadd
      obtain rfl := congrArg Prod.snd hrecord
      have hdont : constraint.dontAllocate = false := Bool.eq_false_iff.mpr hdont
      have hlength : a + (constraint.size : ℤ) - 1 - a + 1 = constraint.size := by omega
      have hints : (Span.mk a (a + constraint.size - 1) hle).ints ⊆ cluster.freeBytes := fun b hb =>
        hfree hdont b (Span.mem_ints.mp hb).1 (Span.mem_ints.mp hb).2
      refine h.take hints rfl rfl rfl ?_ fun q => ?_
      · simp only [hlength]
      · by_cases hq : q ∈ constraint.qualifiers
        · refine .inr ⟨fun b hb => ?_, by simp only [hq, if_true, hlength]⟩
          exact hsegments q hq b (Span.mem_ints.mp hb).1 (Span.mem_ints.mp hb).2
        · exact .inl (by simp only [hq, if_false])

/-- A request that counts its bytes once is not served from address zero. -/
theorem pos_of_countedOnce {history : List Event} {space : AddressSpace} (h : SpaceCounted space)
    {constraint constraint' : AddressConstraint} {result : Except AddrGenFault ℤ} {clusters : List ℕ} {a : ℤ}
    (honce : (Event.generated constraint result).CountedOnce history)
    (hallocate : constraint.dontAllocate = false) (hcompletion : Completion space constraint constraint')
    (hclusters : space.candidates constraint' = .ok clusters) (hmem : 0 ∈ clusters)
    (hpromised : Promised history constraint' a) {q : AddressQualifiers} (hq : q ∈ constraint'.qualifiers) :
    1 ≤ a := by
  obtain ⟨qualifiers, rfl⟩ := hcompletion.fields
  rcases honce with hdont | hsize | hmask | hsegments
  · simp [hallocate] at hdont
  · -- cluster 0 never counts more than one byte
    have hmemory := AddressSpace.candidates_hasMemory hclusters hmem
    have hbound := (h 0).bounded
    rw [AddressSpace.hasMemory, cluster_of_lt space (by omega : 0 < 64)] at hmemory
    simp only [Bool.and_eq_true, decide_eq_true_eq] at hmemory
    have havailable := hmemory.1
    simp only [Fin.val_zero, pow_zero] at hbound
    have hcluster : space.clusters ⟨0, by omega⟩ = space.clusters 0 := rfl
    rw [hcluster] at havailable
    omega
  · exact absurd (AddressSpace.candidates_possible hclusters hmem) hmask
  · obtain ⟨start, stop, hsegment, hstart, -⟩ := hpromised.segment q hq
    have hne := hsegments q start stop hsegment
    omega

theorem SpaceCounted.generateAddress {history : List Event} {space : AddressSpace} (h : SpaceCounted space)
    (hinv : SpaceInv history space) (constraint : AddressConstraint) (rng : RandNum)
    (honce : (Event.generated constraint (space.generateAddress constraint rng).1).CountedOnce history) :
    SpaceCounted (space.generateAddress constraint rng).2.1 := by
  obtain ⟨herror, hok⟩ := generateAddress_outcome space constraint rng
  cases hresult : (space.generateAddress constraint rng).1 with
  | error fault => exact fun j => (h j).ofSame (herror fault hresult j)
  | ok a =>
      obtain ⟨constraint', clusters, i, hcompletion, hclusters, hmem, hrecorded⟩ := hok a hresult
      obtain ⟨uclusters, hfind, hfits, -⟩ := hrecorded.found
      obtain ⟨drawn, hdrawn, hrecord⟩ := hrecorded.recorded
      have hbits : i.val < constraint'.bits :=
        possibleClusters_lt (AddressSpace.candidates_possible hclusters hmem)
      obtain ⟨hpromised, hcluster⟩ := promised_of_fits (hinv i) hfind hfits hbits
      have hdrawnInv := (hinv i).ofSame hdrawn
      have hclear : ∀ b, a ≤ b → b ≤ a + constraint'.size - 1 → b ∉ drawn.allocatedAddresses.covered :=
        fun b hlo hhi hcovered => hpromised.free b hlo hhi ((hdrawnInv.allocated b).mp hcovered).2
      obtain ⟨u, hu, hinside⟩ := hfits
      have hdont : constraint'.dontAllocate = constraint.dontAllocate := by
        obtain ⟨_, rfl⟩ := hcompletion.fields
        rfl
      intro j
      by_cases hj : j = i
      · subst hj
        refine ((h j).ofSame hdrawn).record hrecord (fun hallocate b hlo hhi => ?_) fun q hq b hlo hhi => ?_
        · refine SpanSet.mem_uncovered.mpr ⟨?_, hclear b hlo hhi⟩
          obtain ⟨hlower, hupper⟩ := hcluster b hlo hhi
          rw [mem_between, startAddress, endAddress, hdrawnInv.id]
          refine ⟨?_, by omega⟩
          split_ifs at hlower with hzero
          · obtain ⟨q, hq⟩ := qualifiers_ne_nil hfind
            have hpos := pos_of_countedOnce h honce (hdont ▸ hallocate) hcompletion hclusters (hzero ▸ hmem)
              hpromised hq
            rw [hzero, pow_zero]
            omega
          · exact hlower
        · obtain ⟨r, hr, hrlo, hrhi⟩ := (findUcluster_free hfind u hu).qualifier q hq
          refine SpanSet.mem_uncovered.mpr ⟨Finset.mem_filter.mpr ⟨?_, r, ?_, ?_⟩, hclear b hlo hhi⟩
          · exact mem_addresses.mpr (hcluster b hlo hhi)
          · obtain ⟨_, _, rfl⟩ := hdrawn
            exact hr
          · exact ⟨(hrlo.trans hinside.1).trans hlo, hhi.trans (hinside.2.trans hrhi)⟩
      · exact (h j).ofSame (hrecorded.others j hj)

/-- In every run whose calls count their bytes once, no counter falls below the free bytes. -/
theorem noFalseOutOfMemory {history : List Event} {space : AddressSpace} (h : Reachable history space)
    (honce : CountedOnce history) : NoFalseOutOfMemory space := by
  have hcounted : SpaceCounted space := by
    induction h with
    | fresh => exact fun i => counted_init i
    | defineSegment _ _ _ _ ih => exact defineSegmentLoop_counted (ih honce.2)
    | reserveMemory h _ _ interestingAddress ih =>
        exact (ih honce.2).reserveMemory h.inv interestingAddress honce.1
    | generateAddress h constraint rng ih => exact (ih honce.2).generateAddress h.inv constraint rng honce.1
  exact hcounted.sound

/-- Eight bytes of DRAM, half of them reserved. -/
def halfReserved : AddressSpace :=
  ((AddressSpace.init.defineSegment .addressDram 8 15).2.reserveMemory 8 11 false).2

theorem halfReserved_reachable :
    Reachable [.reserved 8 11, .segment .addressDram 8 15] halfReserved :=
  (Reachable.fresh.defineSegment .addressDram 8 15).reserveMemory 8 11 false

/-- The run that reserves four bytes once keeps its counters. -/
theorem noFalseOutOfMemory_halfReserved : NoFalseOutOfMemory halfReserved := by
  refine noFalseOutOfMemory halfReserved_reachable ⟨⟨by decide, fun b _ _ htaken => ?_⟩, trivial, trivial⟩
  obtain ⟨event, hevent, htakes⟩ := htaken
  rw [List.mem_singleton.mp hevent] at htakes
  exact htakes

/-- Reserving the four bytes once more counts them again: four bytes are free, and the counter says that none
is left. -/
theorem noFalseOutOfMemory_reserved_twice :
    Reachable [.reserved 8 11, .reserved 8 11, .segment .addressDram 8 15]
        (halfReserved.reserveMemory 8 11 false).2 ∧
      ¬NoFalseOutOfMemory (halfReserved.reserveMemory 8 11 false).2 := by
  refine ⟨halfReserved_reachable.reserveMemory 8 11 false, fun hsound => ?_⟩
  have havailable := hsound.available 3
  revert havailable
  decide +kernel

end Riescue.Addrgen
