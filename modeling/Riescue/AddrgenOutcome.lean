import Riescue.AddrgenPlaceable

/-! What one call of `generate_address` does to an address space. A call that raises changes the limit flags
of clusters at most; a call that returns has recorded its address in one cluster, with a constraint whose
qualifiers it has completed. -/

namespace Riescue.Addrgen
open Spans

namespace AddressCluster

/-- The fields that `find_ucluster` reads are not the flags. -/
theorem SameButFlags.findUcluster_eq {cluster cluster' : AddressCluster} (h : SameButFlags cluster cluster')
    (constraint : AddressConstraint) : cluster'.findUcluster constraint = cluster.findUcluster constraint := by
  obtain ⟨_, _, rfl⟩ := h
  rfl

/-- A call of `allocate_address` draws an address, which changes flags only, and records it. -/
inductive Drawn (cluster : AddressCluster) (constraint : AddressConstraint) (uclusters : AddressRangeSet)
    (result : Except AddrGenFault (Option ℤ)) (cluster' : AddressCluster) : Prop where
  | nothing (hresult : ∀ start, result ≠ .ok (some start)) (hsame : SameButFlags cluster cluster')
  | address (start : ℤ) (hplaceable : cluster.Placeable constraint uclusters start) (drawn : AddressCluster)
      (hsame : SameButFlags cluster drawn) (hrecord : drawn.record constraint start = (result, cluster'))

theorem allocateAddress_drawn (cluster : AddressCluster) (constraint : AddressConstraint)
    (uclusters : AddressRangeSet) (rng : RandNum) :
    Drawn cluster constraint uclusters (cluster.allocateAddress constraint uclusters rng).1
      (cluster.allocateAddress constraint uclusters rng).2.1 := by
  have hpick := (pickStrategy_placed cluster constraint uclusters rng).same
  have hpicked : ∀ start, (cluster.pickStrategy constraint uclusters rng).1 = .ok (some start) →
      cluster.Placeable constraint uclusters start := fun _ => pickStrategy_placeable
  unfold allocateAddress
  generalize cluster.pickStrategy constraint uclusters rng = picked at hpick hpicked
  obtain ⟨result, picked, rng1⟩ := picked
  rcases result with fault | (_ | start)
  · exact .nothing (by simp) hpick
  · have hsame := hpick.trans (allocateAnywhere_placed picked constraint uclusters rng1).same
    have hany : ∀ start, (picked.allocateAnywhere constraint uclusters rng1).1 = .ok (some start) →
        picked.Placeable constraint uclusters start := fun _ => allocateAnywhere_placeable
    dsimp only
    generalize picked.allocateAnywhere constraint uclusters rng1 = again at hsame hany
    obtain ⟨result, drawn, rng2⟩ := again
    rcases result with fault | (_ | start)
    · exact .nothing (by simp) hsame
    · exact .nothing (by simp) hsame
    · exact .address start (hpick.placeable (hany start rfl)) drawn hsame rfl
  · exact .address start (hpicked start rfl) picked hpick rfl

/-- `record` returns the address it records. -/
theorem record_eq_ok {cluster cluster' : AddressCluster} {constraint : AddressConstraint} {start a : ℤ}
    (h : cluster.record constraint start = (.ok (some a), cluster')) : a = start := by
  unfold record at h
  split_ifs at h
  · exact (Option.some.inj (Except.ok.inj (congrArg Prod.fst h))).symm
  · split at h
    · cases h
    · exact (Option.some.inj (Except.ok.inj (congrArg Prod.fst h))).symm

theorem record_of_error {cluster cluster' : AddressCluster} {constraint : AddressConstraint} {start : ℤ}
    {result : Except AddrGenFault (Option ℤ)} (h : cluster.record constraint start = (result, cluster'))
    (hresult : ∀ a, result ≠ .ok (some a)) : cluster' = cluster := by
  unfold record at h
  split_ifs at h with hdont
  · exact (congrArg Prod.snd h).symm
  · split at h
    · exact (congrArg Prod.snd h).symm
    · exact absurd (congrArg Prod.fst h).symm (hresult start)

end AddressCluster

open AddressCluster

/-- No range and no counter of the space has changed. -/
def SameMemory (space space' : AddressSpace) : Prop :=
  ∀ j, SameButFlags (space.clusters j) (space'.clusters j)

theorem SameMemory.refl (space : AddressSpace) : SameMemory space space := fun _ => .refl _

theorem SameMemory.trans {a b c : AddressSpace} (hab : SameMemory a b) (hbc : SameMemory b c) : SameMemory a c :=
  fun j => (hab j).trans (hbc j)

theorem SameMemory.setCluster {space : AddressSpace} {i : ℕ} (hi : i < 64) {cluster : AddressCluster}
    (hsame : SameButFlags (space.clusters ⟨i, hi⟩) cluster) : SameMemory space (space.setCluster i cluster) :=
  forall_setCluster (P := fun j cluster => SameButFlags (space.clusters j) cluster) rfl (fun _ => hsame)
    fun _ _ => .refl _

/-- Address `a` has been recorded in cluster `i`; nothing but flags has changed elsewhere. -/
structure RecordedAt (space space' : AddressSpace) (constraint : AddressConstraint) (a : ℤ) (i : Fin 64) :
    Prop where
  others : ∀ j ≠ i, SameButFlags (space.clusters j) (space'.clusters j)
  found : ∃ uclusters, (space.clusters i).findUcluster constraint = .ok uclusters ∧
    (space.clusters i).Placeable constraint uclusters a
  recorded : ∃ drawn, SameButFlags (space.clusters i) drawn ∧
    drawn.record constraint a = (.ok (some a), space'.clusters i)

/-- A range recorded in a space that differs from an earlier one in flags only. -/
theorem RecordedAt.of_same {space middle space' : AddressSpace} {constraint : AddressConstraint} {a : ℤ}
    {i : Fin 64} (hsame : SameMemory space middle) (h : RecordedAt middle space' constraint a i) :
    RecordedAt space space' constraint a i where
  others j hj := (hsame j).trans (h.others j hj)
  found := by
    obtain ⟨uclusters, hfind, hplaceable⟩ := h.found
    exact ⟨uclusters, by rw [← (hsame i).findUcluster_eq, hfind], (hsame i).placeable hplaceable⟩
  recorded := by
    obtain ⟨drawn, hdrawn, hrecord⟩ := h.recorded
    exact ⟨drawn, (hsame i).trans hdrawn, hrecord⟩

/-- What the loop of `generate_address` does with a list of clusters. -/
theorem tryClusters_outcome (constraint : AddressConstraint) (indices : List ℕ) (space : AddressSpace)
    (rng : RandNum) :
    let out := AddressSpace.tryClusters constraint indices space rng
    (∀ fault, out.1 = .error fault → SameMemory space out.2.1) ∧
      ∀ a, out.1 = .ok a → ∃ i : Fin 64, i.val ∈ indices ∧ RecordedAt space out.2.1 constraint a i := by
  induction indices generalizing space rng with
  | nil => exact ⟨fun _ _ => .refl space, fun a ha => by cases ha⟩
  | cons i rest ih =>
      have hskip : ∀ (space' : AddressSpace) (rng' : RandNum), SameMemory space space' →
          let out := AddressSpace.tryClusters constraint rest space' rng'
          (∀ fault, out.1 = .error fault → SameMemory space out.2.1) ∧
            ∀ a, out.1 = .ok a → ∃ j : Fin 64, j.val ∈ i :: rest ∧ RecordedAt space out.2.1 constraint a j := by
        intro space' rng' hsame
        obtain ⟨herror, hok⟩ := ih space' rng'
        refine ⟨fun fault hfault => hsame.trans (herror fault hfault), fun a ha => ?_⟩
        obtain ⟨j, hj, hrecorded⟩ := hok a ha
        exact ⟨j, List.mem_cons_of_mem i hj, hrecorded.of_same hsame⟩
      have hstop : ∀ (space' : AddressSpace) (rng' : RandNum) (fault : AddrGenFault), SameMemory space space' →
          let out : Except AddrGenFault ℤ × AddressSpace × RandNum := (.error fault, space', rng')
          (∀ fault, out.1 = .error fault → SameMemory space out.2.1) ∧
            ∀ a, out.1 = .ok a → ∃ j : Fin 64, j.val ∈ i :: rest ∧ RecordedAt space out.2.1 constraint a j :=
        fun space' rng' fault hsame => ⟨fun _ _ => hsame, fun a ha => by cases ha⟩
      rw [AddressSpace.tryClusters]
      by_cases hi : i < 64
      · rw [cluster_of_lt space hi]
        dsimp only
        cases hfind : (space.clusters ⟨i, hi⟩).findUcluster constraint with
        | error fault => exact hstop _ _ _ (.refl space)
        | ok uclusters =>
            dsimp only
            split_ifs with hempty
            · have hdrawn := allocateAddress_drawn (space.clusters ⟨i, hi⟩) constraint uclusters rng
              generalize (space.clusters ⟨i, hi⟩).allocateAddress constraint uclusters rng = attempt
                at hdrawn ⊢
              obtain ⟨result, cluster, rng⟩ := attempt
              dsimp only at hdrawn ⊢
              have hfailed : (∀ a, result ≠ .ok (some a)) → SameButFlags (space.clusters ⟨i, hi⟩) cluster := by
                intro hresult
                cases hdrawn with
                | nothing _ hsame => exact hsame
                | address start _ drawn hsame hrecord => exact record_of_error hrecord hresult ▸ hsame
              rcases result with fault | (_ | a)
              · exact hstop _ _ _ (.setCluster hi (hfailed (by simp)))
              · exact hskip _ _ (.setCluster hi (hfailed (by simp)))
              · refine ⟨fun _ hfault => (by cases hfault), fun b hb => ?_⟩
                obtain rfl := Except.ok.inj hb
                refine ⟨⟨i, hi⟩, List.mem_cons_self, ?_⟩
                cases hdrawn with
                | nothing hno => exact absurd rfl (hno a)
                | address start hplaceable drawn hsame hrecord =>
                    obtain rfl := record_eq_ok hrecord
                    refine ⟨fun j hj => ?_, ⟨uclusters, hfind, hplaceable⟩, drawn, hsame, ?_⟩
                    · have hne : j.val ≠ i := fun heq => hj (Fin.ext heq)
                      simp [AddressSpace.setCluster, hne, SameButFlags.refl]
                    · simpa [AddressSpace.setCluster] using hrecord
            · exact hskip _ _ (.refl space)
      · rw [cluster_of_not_lt space hi]
        exact hstop _ _ _ (.refl space)

/-! ### The clusters that come into question -/

namespace AddressSpace

/-- The part of `find_clusters` behind the choice of a qualifier, which draws nothing. -/
def candidates (space : AddressSpace) (constraint : AddressConstraint) : Except AddrGenFault (List ℕ) :=
  let missing := constraint.qualifiers.filter fun q => q ∉ space.subClusters.map Prod.fst
  if missing.length ≠ 0 then .error (.subClustersNotSetUp missing)
  else
    match space.filterQualifiers constraint.qualifiers
        (intersectIndices (possibleClusters constraint.mask constraint.bits) space.allValidClusters) with
    | .error fault => .error fault
    | .ok clusters =>
        let clusters :=
          if constraint.HasBounds then
            intersectIndices clusters (clusterRange (addressToCluster constraint.start)
              (addressToCluster constraint.stop))
          else clusters
        .ok (clusters.filter (space.hasMemory constraint))

theorem findClusters_eq (space : AddressSpace) (constraint : AddressConstraint) (rng : RandNum) :
    space.findClusters constraint rng =
      match space.defaultQualifiers constraint rng with
      | (.error fault, rng) => (.error fault, rng)
      | (.ok constraint, rng) => ((space.candidates constraint).map (·, constraint), rng) := by
  unfold findClusters candidates
  rcases space.defaultQualifiers constraint rng with ⟨fault | constraint, rng⟩
  · rfl
  · dsimp only
    split_ifs
    · rfl
    all_goals cases space.filterQualifiers _ _ <;> rfl

theorem candidates_possible {space : AddressSpace} {constraint : AddressConstraint} {clusters : List ℕ}
    (h : space.candidates constraint = .ok clusters) {i : ℕ} (hi : i ∈ clusters) :
    i ∈ possibleClusters constraint.mask constraint.bits := by
  unfold candidates at h
  dsimp only at h
  split_ifs at h
  all_goals
    split at h
    · cases h
    · rename_i filtered hfilter
      obtain rfl := Except.ok.inj h
      have hmem := (List.mem_filter.mp hi).1
      first
        | exact (List.mem_filter.mp (filterQualifiers_subset hfilter (List.mem_filter.mp hmem).1)).1
        | exact (List.mem_filter.mp (filterQualifiers_subset hfilter hmem)).1

theorem candidates_hasMemory {space : AddressSpace} {constraint : AddressConstraint} {clusters : List ℕ}
    (h : space.candidates constraint = .ok clusters) {i : ℕ} (hi : i ∈ clusters) :
    space.hasMemory constraint i = true := by
  unfold candidates at h
  dsimp only at h
  split_ifs at h
  all_goals
    split at h
    · cases h
    · obtain rfl := Except.ok.inj h
      exact (List.mem_filter.mp hi).2

end AddressSpace

/-- The constraint that `find_clusters` goes on with. -/
def Completion (space : AddressSpace) (constraint constraint' : AddressConstraint) : Prop :=
  if constraint.qualifiers = [] then
    ∃ q, (if constraint.type = .physical then q = .addressDram else q ∈ space.subClusters.map Prod.fst) ∧
      constraint' = { constraint with qualifiers := [q] }
  else constraint' = constraint

/-- Only the qualifiers are completed. -/
theorem Completion.fields {space : AddressSpace} {constraint constraint' : AddressConstraint}
    (h : Completion space constraint constraint') :
    ∃ qualifiers, constraint' = { constraint with qualifiers := qualifiers } := by
  unfold Completion at h
  by_cases hempty : constraint.qualifiers = []
  · rw [if_pos hempty] at h
    obtain ⟨q, _, rfl⟩ := h
    exact ⟨[q], rfl⟩
  · rw [if_neg hempty] at h
    exact ⟨constraint.qualifiers, h⟩

theorem completion_of_defaultQualifiers {space : AddressSpace} {constraint constraint' : AddressConstraint}
    {rng : RandNum} (h : (space.defaultQualifiers constraint rng).1 = .ok constraint') :
    Completion space constraint constraint' := by
  unfold AddressSpace.defaultQualifiers at h
  unfold Completion
  by_cases hempty : constraint.qualifiers = []
  · rw [if_pos hempty]
    rw [if_pos (by rw [hempty]; rfl)] at h
    by_cases hphysical : constraint.type = .physical
    · rw [if_pos hphysical] at h
      exact ⟨.addressDram, if_pos hphysical ▸ rfl, (Except.ok.inj h).symm⟩
    · rw [if_neg hphysical] at h
      split at h
      · cases h
      · rename_i q rng' hdraw
        refine ⟨q, ?_, (Except.ok.inj h).symm⟩
        rw [if_neg hphysical]
        exact RandNum.randomEntryIn_mem (congrArg Prod.fst hdraw)
  · rw [if_neg hempty]
    rw [if_neg (fun hlength => hempty (List.length_eq_zero_iff.mp hlength))] at h
    exact (Except.ok.inj h).symm

/-- A call of `generate_address` that raises has changed no memory; one that returns has recorded the address in
a candidate cluster. -/
theorem generateAddress_outcome (space : AddressSpace) (constraint : AddressConstraint) (rng : RandNum) :
    let out := space.generateAddress constraint rng
    (∀ fault, out.1 = .error fault → SameMemory space out.2.1) ∧
      ∀ a, out.1 = .ok a → ∃ constraint' clusters, ∃ i : Fin 64, Completion space constraint constraint' ∧
        space.candidates constraint' = .ok clusters ∧ i.val ∈ clusters ∧
        RecordedAt space out.2.1 constraint' a i := by
  unfold AddressSpace.generateAddress
  rw [AddressSpace.findClusters_eq]
  obtain ⟨found, rng, hdefault⟩ : ∃ found rng', space.defaultQualifiers constraint rng = (found, rng') :=
    ⟨_, _, rfl⟩
  rw [hdefault]
  rcases found with fault | constraint'
  · exact ⟨fun _ _ => .refl space, fun a ha => (by cases ha)⟩
  dsimp only
  cases hcandidates : space.candidates constraint' with
  | error fault => exact ⟨fun _ _ => .refl space, fun a ha => (by cases ha)⟩
  | ok clusters =>
      dsimp only [Except.map]
      split_ifs with hempty
      · exact ⟨fun _ _ => .refl space, fun a ha => (by cases ha)⟩
      · obtain ⟨herror, hok⟩ := tryClusters_outcome constraint' (rng.shuffle clusters).1 space (rng.shuffle clusters).2
        refine ⟨herror, fun a ha => ?_⟩
        obtain ⟨i, hi, hrecorded⟩ := hok a ha
        exact ⟨constraint', clusters, i, completion_of_defaultQualifiers (congrArg Prod.fst hdefault), hcandidates,
          (rng.shuffle_perm clusters).subset hi, hrecorded⟩

end Riescue.Addrgen
