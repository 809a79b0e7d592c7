import Riescue.ParallelInvariant

/-! What the invariant of the parallel scheduler says in every state of every run. -/

namespace Riescue.Parallel
open Interleaving Routines Cumulative
variable {harts tests : ℕ} {repeatTimes : ℕ}

theorem inv_start (seeds : Fin harts → ℕ) :
    Inv repeatTimes (start repeatTimes seeds : Config (Fin harts) (Mem tests) (Hart tests)) where
  lock := by simp [LockHeld, start, total, holds]
  nonneg := fun _ => Int.natCast_nonneg _
  pending := by simp [start, total, owes]
  mutex := fun t => by simp [LockHeld, start, total, owns, ownedTest]
  count := fun t => by simp [start, total, chosen, chosenTest]
  done := fun i hreached => by simp [start] at hreached
  place := fun _ => rfl

theorem Reachable.inv {seeds : Fin harts → ℕ} {config : Config (Fin harts) (Mem tests) (Hart tests)}
    (h : Reachable program (start repeatTimes seeds) config) : Inv repeatTimes config :=
  h.invariant (inv_start seeds) fun _ _ _ hinv hout => hinv.step hout

/-- The guarantees of the scheduler. -/
structure Safe (repeatTimes : ℕ) (config : Config (Fin harts) (Mem tests) (Hart tests)) : Prop where
  free : config.mem.testSelectLock = 0 → config.mem.pendingNumRuns = ∑ t, config.mem.numRuns t
  nonneg : (∀ t, 0 ≤ config.mem.numRuns t) ∧ 0 ≤ config.mem.pendingNumRuns
  selects : ∀ i, (config.locals i).pc ≠ .releaseAndRetry true
  positive : ∀ i k t3, (config.locals i).pc = .loadMutex k t3 → t3 = config.mem.numRuns k ∧ 0 < t3
  lock : ∀ i j, holds (config.locals i) = 1 → holds (config.locals j) = 1 → i = j
  mutex : ∀ i j t, ownedTest (config.locals i) = some t → ownedTest (config.locals j) = some t → i = j
  owner : ∀ t, config.mem.testMutexes t = 0 ↔ ∀ i, ownedTest (config.locals i) ≠ some t
  runs : ∀ i j k, (config.locals i).pc = .runTest (.dtest k) → (config.locals j).pc = .runTest (.dtest k) →
    i = j
  dispatched : 0 < harts → (∀ i, (config.locals i).reachedFinished = true) →
    ∀ t, config.mem.dispatched t = repeatTimes

variable {config : Config (Fin harts) (Mem tests) (Hart tests)}

theorem owes_le_holds (hart : Hart tests) : owes hart ≤ holds hart := by
  unfold owes holds
  split <;> simp [*]

theorem Inv.pending_of_free (h : Inv repeatTimes config) (hfree : config.mem.testSelectLock = 0) :
    config.mem.pendingNumRuns = ∑ t, config.mem.numRuns t := by
  have hholds : total holds config.locals = 0 := by
    have hlock := h.lock
    rwa [LockHeld, if_pos hfree] at hlock
  have howes : total owes config.locals = 0 := by
    refine total_eq_zero_iff.mpr fun i => ?_
    have hi := total_eq_zero_iff.mp hholds i
    have hle := owes_le_holds (config.locals i)
    omega
  have hpending := h.pending
  omega

theorem Inv.mutex_unique (h : Inv repeatTimes config) {i j : Fin harts} {t : Fin tests}
    (hi : ownedTest (config.locals i) = some t) (hj : ownedTest (config.locals j) = some t) : i = j := by
  by_contra hij
  have hpair := add_le_total (owns t) config.locals hij
  have hone := (h.mutex t).le_one
  have hi' : owns t (config.locals i) = 1 := if_pos hi
  have hj' : owns t (config.locals j) = 1 := if_pos hj
  omega

theorem Inv.mutex_free_iff (h : Inv repeatTimes config) (t : Fin tests) :
    config.mem.testMutexes t = 0 ↔ ∀ i, ownedTest (config.locals i) ≠ some t := by
  have hmutex := h.mutex t
  have hnone : total (owns t) config.locals = 0 ↔ ∀ i, ownedTest (config.locals i) ≠ some t := by
    rw [total_eq_zero_iff]
    exact forall_congr' fun i => by simp [owns]
  rw [← hnone]
  unfold LockHeld at hmutex
  split_ifs at hmutex with hzero <;> simp [hzero, hmutex]

/-- A hart that has been at `scheduler__finished` never chooses a test again. -/
theorem chosenTest_of_reached {mem : Mem tests} {hart : Hart tests} (hplace : Place mem hart)
    (hreached : hart.reachedFinished = true) : chosenTest hart = none := by
  unfold Place at hplace
  unfold chosenTest
  split <;> simp_all

theorem Inv.dispatched_eq (h : Inv repeatTimes config) (hpos : 0 < harts)
    (hreached : ∀ i, (config.locals i).reachedFinished = true) (t : Fin tests) :
    config.mem.dispatched t = repeatTimes := by
  have hnone : total (chosen t) config.locals = 0 := by
    refine total_eq_zero_iff.mpr fun i => ?_
    rw [chosen, chosenTest_of_reached (h.place i) (hreached i)]
    rfl
  have hzero := h.done ⟨0, hpos⟩ (hreached _) t
  have hcount := h.count t
  omega

/-- For every number of harts and tests, every initial seed and every interleaving. -/
theorem parallel_safe {seeds : Fin harts → ℕ}
    (h : Reachable program (start repeatTimes seeds) config) : Safe repeatTimes config := by
  have hinv := Reachable.inv h
  refine ⟨hinv.pending_of_free, ⟨hinv.nonneg, ?_⟩, ?_, ?_, ?_, fun i j t => hinv.mutex_unique,
    hinv.mutex_free_iff, ?_, hinv.dispatched_eq⟩
  · have hsum := Finset.sum_nonneg fun t (_ : t ∈ Finset.univ) => hinv.nonneg t
    have hpending := hinv.pending
    omega
  · intro i hpc
    have hplace := hinv.place i
    simp [Place, hpc] at hplace
  · intro i k t3 hpc
    have hplace := hinv.place i
    simp only [Place, hpc] at hplace
    exact hplace.1
  · intro i j hi hj
    by_contra hij
    have hfree := hinv.exclusive hij hj
    omega
  · intro i j k hi hj
    exact hinv.mutex_unique (t := k) (by simp [ownedTest, hi]) (by simp [ownedTest, hj])

/-- Two harts in turn, the second one alone at the end: each runs one of the two tests, one runs `test_cleanup`, and
both end. -/
theorem parallel_safe_run : ∃ config : Config (Fin 2) (Mem 2) (Hart 2),
    (start 1 fun i => 7 + i.val).run program ((List.replicate 48 [0, 1]).flatten ++ List.replicate 6 1) = some config ∧
    ((∀ i, (config.locals i).pc = .ended) ∧ ∀ t, config.mem.dispatched t = 1) ∧ Safe 1 config := by
  have hrun : ((start 1 fun i => 7 + i.val : Config (Fin 2) (Mem 2) (Hart 2)).run program
      ((List.replicate 48 [0, 1]).flatten ++ List.replicate 6 1)).map
      (fun config => decide ((∀ i, (config.locals i).pc = .ended) ∧ ∀ t, config.mem.dispatched t = 1)) = some true := by
    decide +kernel
  obtain ⟨config, hconfig, hends⟩ := Option.map_eq_some_iff.mp hrun
  exact ⟨config, hconfig, of_decide_eq_true hends, parallel_safe (Reachable.start.run hconfig)⟩

end Riescue.Parallel
