import Riescue.AddrgenOutcome

/-! When `generate_address` of an address space can return an address, said without the random choices, and
which exceptions it can raise: on a well-formed constraint only those that it raises itself. -/

namespace Riescue.Addrgen
open Spans AddressCluster

/-- The space can hand out the address: it is placeable in a candidate cluster of a completed constraint. -/
def Serves (space : AddressSpace) (constraint : AddressConstraint) (a : ℤ) : Prop :=
  ∃ constraint' clusters, ∃ i : Fin 64, ∃ uclusters, Completion space constraint constraint' ∧
    space.candidates constraint' = .ok clusters ∧ i.val ∈ clusters ∧
    (space.clusters i).findUcluster constraint' = .ok uclusters ∧
    (space.clusters i).Placeable constraint' uclusters a

theorem exists_defaultQualifiers {space : AddressSpace} {constraint constraint' : AddressConstraint}
    (h : Completion space constraint constraint') :
    ∃ draws, ∀ later, space.defaultQualifiers constraint ⟨draws ++ later⟩ = (.ok constraint', ⟨later⟩) := by
  unfold Completion at h
  by_cases hempty : constraint.qualifiers = []
  · have hlength : constraint.qualifiers.length = 0 := by rw [hempty]; rfl
    rw [if_pos hempty] at h
    obtain ⟨q, hq, rfl⟩ := h
    by_cases hphysical : constraint.type = .physical
    · rw [if_pos hphysical] at hq
      refine ⟨[], fun later => ?_⟩
      rw [AddressSpace.defaultQualifiers, if_pos hlength, if_pos hphysical, hq]
      rfl
    · rw [if_neg hphysical] at hq
      obtain ⟨draw, hdraw⟩ := RandNum.exists_randomEntryIn hq
      refine ⟨[draw], fun later => ?_⟩
      rw [AddressSpace.defaultQualifiers, if_pos hlength, if_neg hphysical, List.singleton_append, hdraw]
  · have hlength : ¬constraint.qualifiers.length = 0 := fun h => hempty (List.length_eq_zero_iff.mp h)
    rw [if_neg hempty] at h
    refine ⟨[], fun later => ?_⟩
    rw [AddressSpace.defaultQualifiers, if_neg hlength, h]
    rfl

/-- An address can be handed out exactly when some outcome of the random choices returns it. -/
theorem serves_iff {space : AddressSpace} {constraint : AddressConstraint} (hsize : 0 < constraint.size) {a : ℤ} :
    Serves space constraint a ↔ ∃ rng, (space.generateAddress constraint rng).1 = .ok a := by
  constructor
  · rintro ⟨constraint', clusters, i, uclusters, hcompletion, hclusters, hi, hfind, hplaceable⟩
    have hsize' : 0 < constraint'.size := by
      obtain ⟨_, rfl⟩ := hcompletion.fields
      exact hsize
    obtain ⟨pick, hpick⟩ := exists_defaultQualifiers hcompletion
    obtain ⟨order, horder⟩ := RandNum.exists_shuffle_append (List.perm_cons_erase hi).symm
    obtain ⟨draws, hdraws⟩ := exists_allocateAddress hsize' hplaceable
      fun u hu => (findUcluster_free hfind u hu).unallocated
    have hnonempty : ¬clusters.length = 0 := (List.length_pos_of_mem hi).ne'
    have hfound : uclusters.spans.length ≠ 0 := by
      obtain ⟨⟨u, hu, -⟩, -⟩ := hplaceable
      exact (List.length_pos_of_mem hu).ne'
    obtain ⟨cluster, rng, hallocate⟩ : ∃ cluster rng,
        (space.clusters i).allocateAddress constraint' uclusters ⟨draws⟩ = (.ok (some a), cluster, rng) :=
      ⟨_, _, Prod.ext hdraws rfl⟩
    refine ⟨⟨pick ++ (order ++ draws)⟩, ?_⟩
    rw [AddressSpace.generateAddress, AddressSpace.findClusters_eq, hpick]
    simp only [hclusters, Except.map, hnonempty, if_false, horder, AddressSpace.tryClusters]
    rw [cluster_of_lt space i.isLt]
    simp only [Fin.eta, hfind, hfound, ne_eq, not_false_eq_true, if_true, hallocate]
  · rintro ⟨rng, ha⟩
    obtain ⟨constraint', clusters, i, hcompletion, hclusters, hi, hrecorded⟩ :=
      (generateAddress_outcome space constraint rng).2 a ha
    obtain ⟨uclusters, hfind, hplaceable⟩ := hrecorded.found
    exact ⟨constraint', clusters, i, uclusters, hcompletion, hclusters, hi, hfind, hplaceable⟩

/-! ### The exceptions -/

/-- The exceptions that are an `AddrGenError`. -/
def AddrGenFault.isAddrGenError : AddrGenFault → Bool
  | .noMatchingClusters | .subClustersNotSetUp _ | .noCompatibleClusters | .couldNotPickCluster => true
  | .noCluster _ | .nullInterval | .emptyChoice => false

namespace AddressCluster
variable {constraint : AddressConstraint} {uclusters : AddressRangeSet}

/-- The span has room for the constraint. -/
def HasRoom (constraint : AddressConstraint) (span : Span) : Prop := (constraint.size : ℤ) ≤ span.hi - span.lo + 1

theorem findUcluster_hasRoom {cluster : AddressCluster} (h : cluster.findUcluster constraint = .ok uclusters) :
    ∀ span ∈ uclusters, HasRoom constraint span := by
  unfold findUcluster at h
  cases hcommon : cluster.commonRange constraint with
  | error fault => rw [hcommon] at h; cases h
  | ok clusterRange =>
      rw [hcommon] at h
      obtain rfl := Except.ok.inj h
      refine List.foldlRecOn (motive := fun set : AddressRangeSet => ∀ span ∈ set, HasRoom constraint span) _ _ ?_ ?_
      · exact fun span hspan => absurd hspan (SpanSet.not_mem_empty span)
      intro newAddrRange hgood span _
      split_ifs with hroom
      · intro other hother
        rcases SpanSet.mem_insert.mp hother with rfl | hother
        · exact hroom
        · exact hgood other hother
      · exact hgood

theorem exists_findUcluster (cluster : AddressCluster) {q : AddressQualifiers} (hq : q ∈ constraint.qualifiers)
    (hbounds : constraint.start ≤ constraint.stop) : ∃ uclusters, cluster.findUcluster constraint = .ok uclusters := by
  obtain ⟨first, qualifiers, hqualifiers⟩ := List.exists_cons_of_ne_nil (List.ne_nil_of_mem hq)
  have hcommon : ∃ clusterRange, cluster.commonRange constraint = .ok clusterRange := by
    unfold commonRange
    rw [hqualifiers]
    dsimp only
    split_ifs
    · rw [addRange_of_le _ (by exact_mod_cast hbounds)]
      exact ⟨_, rfl⟩
    · exact ⟨_, rfl⟩
  obtain ⟨clusterRange, hrange⟩ := hcommon
  exact ⟨_, by rw [findUcluster, hrange]; rfl⟩

theorem drawInside_ok {span : Span} (hroom : HasRoom constraint span) (tries : ℕ) (rng : RandNum) :
    ∃ found, (drawInside constraint uclusters span tries rng).1 = .ok found := by
  induction tries generalizing rng with
  | zero => exact ⟨none, rfl⟩
  | succ tries ih =>
      have hrange : ¬span.hi - constraint.size + 1 + 1 ≤ span.lo := by
        have hle := hroom
        unfold HasRoom at hle
        omega
      rw [drawInside, RandNum.randomInRange, if_neg hrange]
      dsimp only
      split_ifs
      · exact ⟨_, rfl⟩
      · exact ih _

theorem drawAnywhere_ok {uclusterList : List Span} (hroom : ∀ span ∈ uclusterList, HasRoom constraint span)
    (rng : RandNum) :
    ∃ found, (drawAnywhere constraint uclusters uclusterList.length uclusterList rng).1 = .ok found := by
  generalize hcount : uclusterList.length = count
  induction count generalizing uclusterList rng with
  | zero => exact ⟨none, rfl⟩
  | succ count ih =>
      have hnonempty : uclusterList ≠ [] := fun hnil => by simp [hnil] at hcount
      obtain ⟨entry, hentry⟩ := RandNum.randomEntryIn_isSome rng hnonempty
      obtain ⟨rng', hdraw⟩ : ∃ rng', rng.randomEntryIn uclusterList = (some entry, rng') := ⟨_, Prod.ext hentry rfl⟩
      have hmem := RandNum.randomEntryIn_mem hentry
      obtain ⟨found, hfound⟩ : ∃ found, (drawInside constraint uclusters entry 10 rng').1 = .ok found :=
        drawInside_ok (hroom entry hmem) 10 rng'
      rw [drawAnywhere, hdraw]
      dsimp only
      split
      · refine ih (fun span hspan => hroom span (List.mem_of_mem_erase hspan)) _ ?_
        rw [List.length_erase_of_mem hmem, hcount, Nat.add_sub_cancel]
      · exact ⟨found, hfound⟩

theorem allocateAnywhere_ok (cluster : AddressCluster) (hroom : ∀ span ∈ uclusters, HasRoom constraint span)
    (rng : RandNum) : ∃ found, (cluster.allocateAnywhere constraint uclusters rng).1 = .ok found :=
  drawAnywhere_ok hroom _

theorem pickStrategy_ok (cluster : AddressCluster) (hroom : ∀ span ∈ uclusters, HasRoom constraint span)
    (rng : RandNum) : ∃ found, (cluster.pickStrategy constraint uclusters rng).1 = .ok found := by
  have hnear : ∀ addresses rng', ∃ found,
      (cluster.allocateNear constraint uclusters addresses rng').1 = .ok found := by
    intro addresses rng'
    unfold allocateNear
    split_ifs
    · exact allocateAnywhere_ok cluster hroom rng'
    · exact ⟨_, rfl⟩
  unfold pickStrategy
  dsimp only
  split_ifs
  · exact allocateAnywhere_ok cluster hroom _
  · exact allocateAnywhere_ok cluster hroom _
  · exact hnear _ _
  · exact hnear _ _

theorem record_ok (cluster : AddressCluster) (hsize : 0 < constraint.size) (start : ℤ) :
    (cluster.record constraint start).1 = .ok (some start) := by
  unfold record
  split_ifs
  · rfl
  · rw [addRange_of_le _ (by omega)]

theorem allocateAddress_ok (cluster : AddressCluster) (hsize : 0 < constraint.size)
    (hroom : ∀ span ∈ uclusters, HasRoom constraint span) (rng : RandNum) :
    ∃ found, (cluster.allocateAddress constraint uclusters rng).1 = .ok found := by
  obtain ⟨found, hfound⟩ := pickStrategy_ok cluster hroom rng
  unfold allocateAddress
  generalize cluster.pickStrategy constraint uclusters rng = picked at hfound
  obtain ⟨result, picked, rng⟩ := picked
  obtain rfl : result = .ok found := hfound
  cases found with
  | some start => exact ⟨_, record_ok picked hsize start⟩
  | none =>
      obtain ⟨found, hfound⟩ := allocateAnywhere_ok picked hroom rng
      dsimp only
      generalize picked.allocateAnywhere constraint uclusters rng = again at hfound
      obtain ⟨result, drawn, rng⟩ := again
      obtain rfl : result = .ok found := hfound
      cases found with
      | some start => exact ⟨_, record_ok drawn hsize start⟩
      | none => exact ⟨none, rfl⟩

end AddressCluster

section Faults
variable {space : AddressSpace} {constraint : AddressConstraint}

theorem tryClusters_fault {q : AddressQualifiers} (hq : q ∈ constraint.qualifiers)
    (hbounds : constraint.start ≤ constraint.stop) (hsize : 0 < constraint.size) {indices : List ℕ}
    (hindices : ∀ i ∈ indices, i < 64) {rng : RandNum} {fault : AddrGenFault}
    (h : (AddressSpace.tryClusters constraint indices space rng).1 = .error fault) : fault.isAddrGenError = true := by
  induction indices generalizing space rng with
  | nil =>
      obtain rfl := Except.error.inj h
      rfl
  | cons i rest ih =>
      have hrest : ∀ j ∈ rest, j < 64 := fun j hj => hindices j (List.mem_cons_of_mem i hj)
      have hi := hindices i List.mem_cons_self
      obtain ⟨uclusters, hfind⟩ := exists_findUcluster (space.clusters ⟨i, hi⟩) hq hbounds
      obtain ⟨found, hfound⟩ := allocateAddress_ok (space.clusters ⟨i, hi⟩) hsize (findUcluster_hasRoom hfind) rng
      rw [AddressSpace.tryClusters, cluster_of_lt space hi] at h
      simp only [hfind] at h
      split_ifs at h
      · generalize (space.clusters ⟨i, hi⟩).allocateAddress constraint uclusters rng = attempt at h hfound
        obtain ⟨result, cluster, rng⟩ := attempt
        obtain rfl : result = .ok found := hfound
        cases found with
        | none => exact ih hrest h
        | some a => cases h
      · exact ih hrest h

theorem filterQualifiers_fault {qualifiers : List AddressQualifiers} {clusters : List ℕ} {fault : AddrGenFault}
    (h : space.filterQualifiers qualifiers clusters = .error fault) : fault.isAddrGenError = true := by
  induction qualifiers generalizing clusters with
  | nil => cases h
  | cons q qualifiers ih =>
      simp only [AddressSpace.filterQualifiers] at h
      split_ifs at h
      · obtain rfl := Except.error.inj h
        rfl
      · exact ih h

theorem candidates_fault {fault : AddrGenFault} (h : space.candidates constraint = .error fault) :
    fault.isAddrGenError = true := by
  unfold AddressSpace.candidates at h
  dsimp only at h
  split_ifs at h
  · obtain rfl := Except.error.inj h
    rfl
  all_goals
    split at h
    · rename_i hfilter
      obtain rfl := Except.error.inj h
      exact filterQualifiers_fault hfilter
    · cases h

theorem candidates_lt {clusters : List ℕ} (h : space.candidates constraint = .ok clusters) :
    ∀ i ∈ clusters, i < 64 := by
  intro i hi
  have hmemory := AddressSpace.candidates_hasMemory h hi
  by_contra hlt
  rw [AddressSpace.hasMemory, cluster_of_not_lt space hlt] at hmemory
  cases hmemory

theorem Completion.exists_qualifier {constraint' : AddressConstraint} (h : Completion space constraint constraint') :
    ∃ q, q ∈ constraint'.qualifiers := by
  unfold Completion at h
  by_cases hempty : constraint.qualifiers = []
  · rw [if_pos hempty] at h
    obtain ⟨q, _, rfl⟩ := h
    exact ⟨q, List.mem_singleton_self q⟩
  · rw [if_neg hempty] at h
    exact h ▸ List.exists_mem_of_ne_nil _ hempty

/-- A well-formed constraint on a space with a segment raises nothing but `AddrGenError`. -/
theorem generateAddress_fault (hsegments : space.subClusters ≠ []) (hbounds : constraint.start ≤ constraint.stop)
    (hsize : 0 < constraint.size) {rng : RandNum} {fault : AddrGenFault}
    (h : (space.generateAddress constraint rng).1 = .error fault) : fault.isAddrGenError = true := by
  obtain ⟨found, rng', hdefault⟩ : ∃ found rng', space.defaultQualifiers constraint rng = (found, rng') :=
    ⟨_, _, rfl⟩
  rw [AddressSpace.generateAddress, AddressSpace.findClusters_eq, hdefault] at h
  cases found with
  | error fault' =>
      unfold AddressSpace.defaultQualifiers at hdefault
      have hkeys : space.subClusters.map Prod.fst ≠ [] := by simpa using hsegments
      obtain ⟨key, hkey⟩ := rng.randomEntryIn_isSome hkeys
      have hdraw : rng.randomEntryIn (space.subClusters.map Prod.fst) =
          (some key, (rng.randomEntryIn (space.subClusters.map Prod.fst)).2) := Prod.ext hkey rfl
      rw [hdraw] at hdefault
      split_ifs at hdefault <;> cases hdefault
  | ok constraint' =>
      have hcompletion := completion_of_defaultQualifiers (congrArg Prod.fst hdefault)
      obtain ⟨q, hq⟩ := hcompletion.exists_qualifier
      obtain ⟨_, rfl⟩ := hcompletion.fields
      dsimp only at h
      cases hcandidates : space.candidates { constraint with qualifiers := _ } with
      | error fault' =>
          rw [hcandidates] at h
          obtain rfl := Except.error.inj h
          exact candidates_fault hcandidates
      | ok clusters =>
          rw [hcandidates] at h
          dsimp only [Except.map] at h
          split_ifs at h
          · obtain rfl := Except.error.inj h
            rfl
          · refine tryClusters_fault hq hbounds hsize (fun i hi => ?_) h
            exact candidates_lt hcandidates i ((rng'.shuffle_perm clusters).subset hi)

end Faults
end Riescue.Addrgen
