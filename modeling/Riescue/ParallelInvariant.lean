import Riescue.LibCumulative
import Riescue.Parallel

/-! The invariant of the parallel scheduler. Five counts over the harts tie the words together: the holders of
the selection lock, the harts between the two decrements, the owner of each test mutex, and the harts that
have counted a test down and not yet jumped to it. -/

namespace Riescue.Parallel
open Interleaving Routines Cumulative
variable {harts tests : ℕ} {repeatTimes : ℕ}

/-- The hart holds `test_select_lock`. -/
def holds (hart : Hart tests) : ℕ :=
  match hart.pc with
  | .loadPending | .loadSeed _ | .storeSeed _ _ | .walk _ _ _ | .loadMutex _ _ | .swapMutex _ _
  | .loadNumRuns _ | .storeNumRuns _ _ | .loadPendingNumRuns _ | .storePendingNumRuns _ _
  | .releaseSelectLock _ | .releaseAndRetry _ | .noTestsReleaseLock => 1
  | _ => 0

/-- The hart has decremented an entry of `num_runs`, but not yet `pending_num_runs`. -/
def owes (hart : Hart tests) : ℕ :=
  match hart.pc with
  | .loadPendingNumRuns _ | .storePendingNumRuns _ _ => 1
  | _ => 0

/-- The test whose mutex the hart holds. -/
def ownedTest (hart : Hart tests) : Option (Fin tests) :=
  match hart.pc with
  | .loadNumRuns k | .storeNumRuns k _ | .loadPendingNumRuns k | .storePendingNumRuns k _
  | .releaseSelectLock k | .storeHeldLock k | .loadTestAddr k | .jumpTest (.dtest k) | .runTest (.dtest k)
  | .releaseLock k => some k
  | .loadHeldLock => hart.heldLock
  | _ => none

def owns (t : Fin tests) (hart : Hart tests) : ℕ := if ownedTest hart = some t then 1 else 0

/-- The test that the hart has counted down and is about to jump to. -/
def chosenTest (hart : Hart tests) : Option (Fin tests) :=
  match hart.pc with
  | .loadPendingNumRuns k | .storePendingNumRuns k _ | .releaseSelectLock k | .storeHeldLock k
  | .loadTestAddr k | .jumpTest (.dtest k) => some k
  | _ => none

def chosen (t : Fin tests) (hart : Hart tests) : ℕ := if chosenTest hart = some t then 1 else 0

/-- The registers and the own words of a hart at its program point. -/
def Place (mem : Mem tests) (hart : Hart tests) : Prop :=
  match hart.pc with
  | .loadHeldLock => hart.reachedFinished = true → hart.heldLock = none
  | .releaseLock mutex => hart.heldLock = some mutex ∧ hart.reachedFinished = false
  | .clearHeldLock => hart.reachedFinished = false
  | .acquire _ | .loadPending => hart.heldLock = none
  | .loadSeed pending | .storeSeed pending _ =>
      (pending = mem.pendingNumRuns ∧ 0 < pending) ∧ hart.heldLock = none ∧ hart.reachedFinished = false
  | .walk k a5 a4 =>
      (a5 = prefixSum mem.numRuns k ∧ a5 ≤ a4 ∧ a4 < mem.pendingNumRuns) ∧
        hart.heldLock = none ∧ hart.reachedFinished = false
  | .loadMutex k t3 | .swapMutex k t3 =>
      (t3 = mem.numRuns k ∧ 0 < t3) ∧ hart.heldLock = none ∧ hart.reachedFinished = false
  | .loadNumRuns k => 0 < mem.numRuns k ∧ hart.heldLock = none ∧ hart.reachedFinished = false
  | .storeNumRuns k t0 =>
      (t0 = mem.numRuns k - 1 ∧ 0 ≤ t0) ∧ hart.heldLock = none ∧ hart.reachedFinished = false
  | .storePendingNumRuns _ t0 =>
      t0 = mem.pendingNumRuns - 1 ∧ hart.heldLock = none ∧ hart.reachedFinished = false
  | .loadPendingNumRuns _ | .releaseSelectLock _ | .storeHeldLock _ =>
      hart.heldLock = none ∧ hart.reachedFinished = false
  | .releaseAndRetry walkedOff =>
      walkedOff = false ∧ hart.heldLock = none ∧ hart.reachedFinished = false
  | .noTestsReleaseLock => mem.pendingNumRuns = 0 ∧ hart.heldLock = none
  | .loadTestAddr k | .jumpTest (.dtest k) | .runTest (.dtest k) =>
      hart.heldLock = some k ∧ hart.reachedFinished = false
  | .jumpTest _ | .runTest _ | .loadCleanupRan | .storeCleanupRan | .loadCleanupPtr | .ended =>
      hart.heldLock = none

structure Inv (repeatTimes : ℕ) (config : Config (Fin harts) (Mem tests) (Hart tests)) : Prop where
  lock : LockHeld config.mem.testSelectLock (total holds config.locals)
  nonneg : ∀ t, 0 ≤ config.mem.numRuns t
  pending : config.mem.pendingNumRuns = ∑ t, config.mem.numRuns t + total owes config.locals
  mutex : ∀ t, LockHeld (config.mem.testMutexes t) (total (owns t) config.locals)
  count : ∀ t, config.mem.dispatched t + total (chosen t) config.locals + config.mem.numRuns t = repeatTimes
  done : ∀ i, (config.locals i).reachedFinished = true → ∀ t, config.mem.numRuns t = 0
  place : ∀ i, Place config.mem (config.locals i)

/-- The registers of a hart depend on the counts only while it holds the lock. -/
theorem Place.frame {mem mem' : Mem tests} {hart : Hart tests} (h : Place mem hart)
    (hmem : (mem'.numRuns = mem.numRuns ∧ mem'.pendingNumRuns = mem.pendingNumRuns) ∨ holds hart = 0) :
    Place mem' hart := by
  rcases hmem with ⟨hnumRuns, hpending⟩ | hfree
  · unfold Place at *
    rwa [hnumRuns, hpending]
  · unfold Place at *
    cases hpc : hart.pc with
    | loadSeed _ | storeSeed _ _ | walk _ _ _ | loadMutex _ _ | swapMutex _ _ | loadNumRuns _
    | storeNumRuns _ _ | storePendingNumRuns _ _ | noTestsReleaseLock => simp [holds, hpc] at hfree
    | jumpTest test =>
        rw [hpc] at h
        cases test <;> exact h
    | runTest test =>
        rw [hpc] at h
        cases test <;> exact h
    | _ =>
        rw [hpc] at h
        exact h

section Step
variable {config : Config (Fin harts) (Mem tests) (Hart tests)} {i : Fin harts}
  {out : Mem tests × Hart tests}

/-- Two harts do not hold the selection lock at once. -/
theorem Inv.exclusive (h : Inv repeatTimes config) {j : Fin harts} (hji : j ≠ i)
    (hi : holds (config.locals i) = 1) : holds (config.locals j) = 0 := by
  have hpair := add_le_total holds config.locals hji
  have hone := h.lock.le_one
  omega

/-- While a hart outside the decrements holds the lock, the total is exact. -/
theorem Inv.pending_eq (h : Inv repeatTimes config) (hi : holds (config.locals i) = 1)
    (howes : owes (config.locals i) = 0) :
    config.mem.pendingNumRuns = ∑ t, config.mem.numRuns t := by
  have hzero : total owes config.locals = 0 := by
    refine total_eq_zero_iff.mpr fun j => ?_
    by_cases hji : j = i
    · rwa [hji]
    · have hfree := h.exclusive hji hi
      unfold holds at hfree
      unfold owes
      split <;> simp_all
  have hpending := h.pending
  omega

/-- What a step of hart `i` has to keep, in terms of what it changes. -/
theorem Inv.set (h : Inv repeatTimes config) {mem' : Mem tests} {hart' : Hart tests}
    (hlock : LockHeld mem'.testSelectLock (total holds (Function.update config.locals i hart')))
    (hmutex : ∀ t, LockHeld (mem'.testMutexes t) (total (owns t) (Function.update config.locals i hart')))
    (hnonneg : ∀ t, 0 ≤ mem'.numRuns t)
    (hpending : mem'.pendingNumRuns + ∑ t, config.mem.numRuns t + owes (config.locals i) =
      config.mem.pendingNumRuns + ∑ t, mem'.numRuns t + owes hart')
    (hcount : ∀ t, mem'.dispatched t + chosen t hart' + mem'.numRuns t =
      config.mem.dispatched t + chosen t (config.locals i) + config.mem.numRuns t)
    (hzero : ∀ t, config.mem.numRuns t = 0 → mem'.numRuns t = 0)
    (hdone : hart'.reachedFinished = true → (config.locals i).reachedFinished = true ∨
      ∀ t, mem'.numRuns t = 0)
    (hothers : (mem'.numRuns = config.mem.numRuns ∧ mem'.pendingNumRuns = config.mem.pendingNumRuns) ∨
      holds (config.locals i) = 1)
    (hplace : Place mem' hart') : Inv repeatTimes (config.set i (mem', hart')) := by
  refine ⟨hlock, hnonneg, ?_, hmutex, ?_, ?_, ?_⟩
  · have hold := h.pending
    have htotal := total_update owes config.locals i hart'
    change mem'.pendingNumRuns = ∑ t, mem'.numRuns t + (total owes (Function.update config.locals i hart') : ℕ)
    omega
  · intro t
    have hold := h.count t
    have htotal := total_update (chosen t) config.locals i hart'
    have hnew := hcount t
    change mem'.dispatched t + (total (chosen t) (Function.update config.locals i hart') : ℕ) +
      mem'.numRuns t = repeatTimes
    omega
  · intro j hj t
    by_cases hji : j = i
    · subst hji
      rw [Config.set_locals_self] at hj
      rcases hdone hj with hold | hnone
      · exact hzero t (h.done j hold t)
      · exact hnone t
    · rw [Config.set_locals_ne _ hji] at hj
      exact hzero t (h.done j hj t)
  · intro j
    by_cases hji : j = i
    · subst hji
      rwa [Config.set_locals_self]
    · rw [Config.set_locals_ne _ hji]
      exact (h.place j).frame (hothers.imp id fun hi => h.exclusive hji hi)

/-- A step that changes at most the lock word and the place of the hart. -/
theorem Inv.set_lock (h : Inv repeatTimes config) (lock : ℤ) {hart' : Hart tests}
    (hlock : LockHeld lock (total holds (Function.update config.locals i hart')))
    (howes : owes hart' = owes (config.locals i))
    (howned : ownedTest hart' = ownedTest (config.locals i))
    (hchosen : chosenTest hart' = chosenTest (config.locals i))
    (hdone : hart'.reachedFinished = true → (config.locals i).reachedFinished = true ∨
      ∀ t, config.mem.numRuns t = 0)
    (hplace : Place config.mem hart') :
    Inv repeatTimes (config.set i ({ config.mem with testSelectLock := lock }, hart')) := by
  refine h.set hlock ?_ h.nonneg (by rw [howes]) ?_ (fun _ => id) hdone (Or.inl ⟨rfl, rfl⟩)
    (hplace.frame (Or.inl ⟨rfl, rfl⟩))
  · intro t
    rw [total_update_of_eq (by unfold owns; rw [howned])]
    exact h.mutex t
  · intro t
    unfold chosen
    rw [hchosen]

/-- A step that changes no word of the shared memory. -/
theorem Inv.set_quiet (h : Inv repeatTimes config) {hart' : Hart tests}
    (hholds : holds hart' = holds (config.locals i)) (howes : owes hart' = owes (config.locals i))
    (howned : ownedTest hart' = ownedTest (config.locals i))
    (hchosen : chosenTest hart' = chosenTest (config.locals i))
    (hdone : hart'.reachedFinished = (config.locals i).reachedFinished)
    (hplace : Place config.mem hart') : Inv repeatTimes (config.set i (config.mem, hart')) := by
  refine h.set_lock config.mem.testSelectLock ?_ howes howned hchosen
    (fun hreached => Or.inl (hdone ▸ hreached)) hplace
  rw [total_update_of_eq hholds]
  exact h.lock

/-- A release of the lock. -/
theorem Inv.set_release (h : Inv repeatTimes config) {hart' : Hart tests}
    (hholds : holds (config.locals i) = 1) (hfree : holds hart' = 0)
    (howes : owes hart' = owes (config.locals i))
    (howned : ownedTest hart' = ownedTest (config.locals i))
    (hchosen : chosenTest hart' = chosenTest (config.locals i))
    (hdone : hart'.reachedFinished = true → (config.locals i).reachedFinished = true ∨
      ∀ t, config.mem.numRuns t = 0)
    (hplace : Place config.mem hart') :
    Inv repeatTimes (config.set i ({ config.mem with testSelectLock := 0 }, hart')) := by
  refine h.set_lock 0 ?_ howes howned hchosen hdone hplace
  have htotal := total_update holds config.locals i hart'
  have hle := le_total holds config.locals i
  have heq : total holds (Function.update config.locals i hart') = total holds config.locals - 1 := by
    omega
  rw [heq]
  exact h.lock.released (by omega)

/-! ### The selection lock -/

theorem Inv.step_acquire (h : Inv repeatTimes config) {state : Acquire}
    (hpc : (config.locals i).pc = .acquire state)
    (hout : program i config.mem (config.locals i) = some out) : Inv repeatTimes (config.set i out) := by
  have hplace := h.place i
  simp only [Place, hpc] at hplace
  simp only [program, hpc] at hout
  split at hout
  · cases hout
  · rename_i lock next hacquire
    obtain rfl := Option.some.inj hout
    refine h.set_lock lock ?_ (by simp [owes, hpc]) (by simp [ownedTest, hpc])
      (by simp [chosenTest, hpc]) Or.inl (by simpa [Place] using hplace)
    rw [total_update_of_eq (by simp [holds, hpc])]
    exact h.lock.waits hacquire
  · rename_i lock hacquire
    obtain rfl := Option.some.inj hout
    refine h.set_lock lock ?_ (by simp [owes, hpc]) (by simp [ownedTest, hpc])
      (by simp [chosenTest, hpc]) Or.inl (by simpa [Place] using hplace)
    have htotal := total_update holds config.locals i { config.locals i with pc := .loadPending }
    have hold : holds (config.locals i) = 0 := by simp [holds, hpc]
    have hnew : holds { config.locals i with pc := .loadPending } = 1 := rfl
    rw [hold, hnew, add_zero] at htotal
    rw [htotal]
    exact h.lock.acquires hacquire

theorem Inv.step_releaseSelectLock (h : Inv repeatTimes config) {k : Fin tests}
    (hpc : (config.locals i).pc = .releaseSelectLock k)
    (hout : program i config.mem (config.locals i) = some out) : Inv repeatTimes (config.set i out) := by
  have hplace := h.place i
  simp only [Place, hpc] at hplace
  simp only [program, hpc] at hout
  obtain rfl := Option.some.inj hout
  exact h.set_release (by simp [holds, hpc]) rfl (by simp [owes, hpc]) (by simp [ownedTest, hpc])
    (by simp [chosenTest, hpc]) Or.inl hplace

theorem Inv.step_releaseAndRetry (h : Inv repeatTimes config) {walkedOff : Bool}
    (hpc : (config.locals i).pc = .releaseAndRetry walkedOff)
    (hout : program i config.mem (config.locals i) = some out) : Inv repeatTimes (config.set i out) := by
  have hplace := h.place i
  simp only [Place, hpc] at hplace
  simp only [program, hpc] at hout
  obtain rfl := Option.some.inj hout
  exact h.set_release (by simp [holds, hpc]) rfl (by simp [owes, hpc]) (by simp [ownedTest, hpc])
    (by simp [chosenTest, hpc]) Or.inl hplace.2.1

/-- A hart goes to `scheduler__finished` when no test has a run left. -/
theorem Inv.step_noTestsReleaseLock (h : Inv repeatTimes config)
    (hpc : (config.locals i).pc = .noTestsReleaseLock)
    (hout : program i config.mem (config.locals i) = some out) : Inv repeatTimes (config.set i out) := by
  have hplace := h.place i
  simp only [Place, hpc] at hplace
  have hsum := h.pending_eq (i := i) (by simp [holds, hpc]) (by simp [owes, hpc])
  have hzero : ∀ t, config.mem.numRuns t = 0 := eq_zero_of_sum_eq_zero h.nonneg (hsum ▸ hplace.1)
  simp only [program, hpc] at hout
  obtain rfl := Option.some.inj hout
  exact h.set_release (by simp [holds, hpc]) rfl (by simp [owes, hpc]) (by simp [ownedTest, hpc])
    (by simp [chosenTest, hpc]) (fun _ => Or.inr hzero) hplace.2

/-! ### The selection -/

theorem Inv.step_loadPending (h : Inv repeatTimes config) (hpc : (config.locals i).pc = .loadPending)
    (hout : program i config.mem (config.locals i) = some out) : Inv repeatTimes (config.set i out) := by
  have hplace := h.place i
  simp only [Place, hpc] at hplace
  have hsum := h.pending_eq (i := i) (by simp [holds, hpc]) (by simp [owes, hpc])
  simp only [program, hpc] at hout
  split_ifs at hout with hzero
  · obtain rfl := Option.some.inj hout
    exact h.set_quiet (by simp [holds, hpc]) (by simp [owes, hpc]) (by simp [ownedTest, hpc])
      (by simp [chosenTest, hpc]) rfl ⟨hzero, hplace⟩
  · obtain rfl := Option.some.inj hout
    have hpos : 0 < config.mem.pendingNumRuns := by
      have := Finset.sum_nonneg fun t (_ : t ∈ Finset.univ) => h.nonneg t
      omega
    have hreached : (config.locals i).reachedFinished = false := by
      by_contra hreached
      have hnone := h.done i (by simpa using hreached)
      simp [hnone, hzero] at hsum
    exact h.set_quiet (by simp [holds, hpc]) (by simp [owes, hpc]) (by simp [ownedTest, hpc])
      (by simp [chosenTest, hpc]) rfl ⟨⟨rfl, hpos⟩, hplace, hreached⟩

theorem Inv.step_loadSeed (h : Inv repeatTimes config) {pending : ℤ}
    (hpc : (config.locals i).pc = .loadSeed pending)
    (hout : program i config.mem (config.locals i) = some out) : Inv repeatTimes (config.set i out) := by
  have hplace := h.place i
  simp only [Place, hpc] at hplace
  simp only [program, hpc] at hout
  obtain rfl := Option.some.inj hout
  exact h.set_quiet (by simp [holds, hpc]) (by simp [owes, hpc]) (by simp [ownedTest, hpc])
    (by simp [chosenTest, hpc]) rfl hplace

/-- The random number is below the total. -/
theorem Inv.step_storeSeed (h : Inv repeatTimes config) {pending : ℤ} {seed : ℕ}
    (hpc : (config.locals i).pc = .storeSeed pending seed)
    (hout : program i config.mem (config.locals i) = some out) : Inv repeatTimes (config.set i out) := by
  have hplace := h.place i
  simp only [Place, hpc] at hplace
  obtain ⟨⟨rfl, hpos⟩, hheld, hreached⟩ := hplace
  simp only [program, hpc] at hout
  obtain ⟨pc, hwalk, rfl⟩ := Option.map_eq_some_iff.mp hout
  unfold startWalk at hwalk
  split_ifs at hwalk with htests
  obtain rfl := Option.some.inj hwalk
  refine h.set_quiet (by simp [holds, hpc]) (by simp [owes, hpc]) (by simp [ownedTest, hpc])
    (by simp [chosenTest, hpc]) rfl ⟨⟨rfl, ?_, ?_⟩, hheld, hreached⟩
  · exact Int.emod_nonneg _ hpos.ne'
  · exact Int.emod_lt_of_pos _ hpos

/-- The walk: the sum so far stays at most the random number until an entry passes it, and that entry is
positive; at the end the sum would be the total, which is above the random number. -/
theorem Inv.step_walk (h : Inv repeatTimes config) {k : Fin tests} {a5 a4 : ℤ}
    (hpc : (config.locals i).pc = .walk k a5 a4)
    (hout : program i config.mem (config.locals i) = some out) : Inv repeatTimes (config.set i out) := by
  have hplace := h.place i
  simp only [Place, hpc] at hplace
  obtain ⟨⟨rfl, hle, hlt⟩, hheld, hreached⟩ := hplace
  have hsum := h.pending_eq (i := i) (by simp [holds, hpc]) (by simp [owes, hpc])
  have hnext := prefixSum_succ config.mem.numRuns k
  simp only [program, hpc] at hout
  obtain rfl := Option.some.inj hout
  rw [← hnext]
  unfold afterWalk
  by_cases hselected : prefixSum config.mem.numRuns (k.val + 1) > a4
  · rw [if_pos hselected]
    exact h.set_quiet (by simp [holds, hpc]) (by simp [owes, hpc]) (by simp [ownedTest, hpc])
      (by simp [chosenTest, hpc]) rfl ⟨⟨rfl, by omega⟩, hheld, hreached⟩
  · rw [if_neg hselected]
    by_cases hmore : k.val + 1 < tests
    · rw [dif_pos hmore]
      exact h.set_quiet (by simp [holds, hpc]) (by simp [owes, hpc]) (by simp [ownedTest, hpc])
        (by simp [chosenTest, hpc]) rfl ⟨⟨rfl, not_lt.mp hselected, hlt⟩, hheld, hreached⟩
    · have hlast : k.val + 1 = tests := by omega
      rw [hlast, prefixSum_all, ← hsum] at hselected
      exact absurd hlt hselected

theorem Inv.step_loadMutex (h : Inv repeatTimes config) {k : Fin tests} {t3 : ℤ}
    (hpc : (config.locals i).pc = .loadMutex k t3)
    (hout : program i config.mem (config.locals i) = some out) : Inv repeatTimes (config.set i out) := by
  have hplace := h.place i
  simp only [Place, hpc] at hplace
  simp only [program, hpc] at hout
  split_ifs at hout <;> obtain rfl := Option.some.inj hout
  · exact h.set_quiet (by simp [holds, hpc]) (by simp [owes, hpc]) (by simp [ownedTest, hpc])
      (by simp [chosenTest, hpc]) rfl ⟨rfl, hplace.2⟩
  · exact h.set_quiet (by simp [holds, hpc]) (by simp [owes, hpc]) (by simp [ownedTest, hpc])
      (by simp [chosenTest, hpc]) rfl hplace

/-! ### The test mutexes -/

/-- A step that changes the word of one mutex. -/
theorem Inv.set_mutex (h : Inv repeatTimes config) {k : Fin tests} {value : ℤ} {hart' : Hart tests}
    (hholds : holds hart' = holds (config.locals i)) (howes : owes hart' = owes (config.locals i))
    (hmutex : LockHeld value (total (owns k) (Function.update config.locals i hart')))
    (howned : ∀ t, t ≠ k → owns t hart' = owns t (config.locals i))
    (hchosen : chosenTest hart' = chosenTest (config.locals i))
    (hdone : hart'.reachedFinished = (config.locals i).reachedFinished)
    (hplace : Place config.mem hart') :
    Inv repeatTimes (config.set i
      ({ config.mem with testMutexes := Function.update config.mem.testMutexes k value }, hart')) := by
  refine h.set ?_ ?_ h.nonneg (by rw [howes]) ?_ (fun _ => id) (fun hreached => Or.inl (hdone ▸ hreached))
    (Or.inl ⟨rfl, rfl⟩) (hplace.frame (Or.inl ⟨rfl, rfl⟩))
  · rw [total_update_of_eq hholds]
    exact h.lock
  · intro t
    by_cases ht : t = k
    · subst ht
      simpa using hmutex
    · rw [total_update_of_eq (howned t ht)]
      simpa [ht] using h.mutex t
  · intro t
    unfold chosen
    rw [hchosen]

/-- The swap takes a free mutex; on a held one it changes the word, but not to zero. -/
theorem Inv.step_swapMutex (h : Inv repeatTimes config) {k : Fin tests} {t3 : ℤ}
    (hpc : (config.locals i).pc = .swapMutex k t3)
    (hout : program i config.mem (config.locals i) = some out) : Inv repeatTimes (config.set i out) := by
  have hplace := h.place i
  simp only [Place, hpc] at hplace
  obtain ⟨⟨rfl, hpos⟩, hheld, hreached⟩ := hplace
  have hmutex := h.mutex k
  simp only [program, hpc] at hout
  split_ifs at hout with hfree <;> obtain rfl := Option.some.inj hout
  · refine h.set_mutex (by simp [holds, hpc]) (by simp [owes, hpc]) ?_
      (fun t _ => by simp [owns, ownedTest, hpc]) (by simp [chosenTest, hpc]) rfl ⟨rfl, hheld, hreached⟩
    rw [total_update_of_eq (by simp [owns, ownedTest, hpc])]
    unfold LockHeld at *
    rw [hmutex, if_neg hfree, if_neg hpos.ne']
  · refine h.set_mutex (by simp [holds, hpc]) (by simp [owes, hpc]) ?_
      (fun t ht => by simp [owns, ownedTest, hpc, ht.symm]) (by simp [chosenTest, hpc]) rfl
      ⟨hpos, hheld, hreached⟩
    have htotal := total_update (owns k) config.locals i { config.locals i with pc := .loadNumRuns k }
    have hold : owns k (config.locals i) = 0 := by simp [owns, ownedTest, hpc]
    have hnew : owns k { config.locals i with pc := .loadNumRuns k } = 1 := by simp [owns, ownedTest]
    rw [hold, hnew, add_zero] at htotal
    unfold LockHeld at *
    rw [htotal, hmutex, if_pos (not_not.mp hfree), if_neg hpos.ne']

/-- The dispatch frees the mutex of the test that the hart has run. -/
theorem Inv.step_releaseLock (h : Inv repeatTimes config) {k : Fin tests}
    (hpc : (config.locals i).pc = .releaseLock k)
    (hout : program i config.mem (config.locals i) = some out) : Inv repeatTimes (config.set i out) := by
  have hplace := h.place i
  simp only [Place, hpc] at hplace
  simp only [program, hpc] at hout
  obtain rfl := Option.some.inj hout
  refine h.set_mutex (by simp [holds, hpc]) (by simp [owes, hpc]) ?_
    (fun t ht => by simp [owns, ownedTest, hpc, ht.symm]) (by simp [chosenTest, hpc]) rfl hplace.2
  have htotal := total_update (owns k) config.locals i { config.locals i with pc := .clearHeldLock }
  have hold : owns k (config.locals i) = 1 := by simp [owns, ownedTest, hpc]
  have hnew : owns k { config.locals i with pc := .clearHeldLock } = 0 := rfl
  have hle := (h.mutex k).le_one
  have hzero : total (owns k)
      (Function.update config.locals i { config.locals i with pc := .clearHeldLock }) = 0 := by
    omega
  rw [LockHeld, if_pos rfl]
  exact hzero

/-! ### The counts -/

theorem Inv.step_loadNumRuns (h : Inv repeatTimes config) {k : Fin tests}
    (hpc : (config.locals i).pc = .loadNumRuns k)
    (hout : program i config.mem (config.locals i) = some out) : Inv repeatTimes (config.set i out) := by
  have hplace := h.place i
  simp only [Place, hpc] at hplace
  simp only [program, hpc] at hout
  obtain rfl := Option.some.inj hout
  exact h.set_quiet (by simp [holds, hpc]) (by simp [owes, hpc]) (by simp [ownedTest, hpc])
    (by simp [chosenTest, hpc]) rfl ⟨⟨rfl, by have := hplace.1; omega⟩, hplace.2⟩

/-- The decrement of the entry: from here on the hart owes the decrement of the total. -/
theorem Inv.step_storeNumRuns (h : Inv repeatTimes config) {k : Fin tests} {t0 : ℤ}
    (hpc : (config.locals i).pc = .storeNumRuns k t0)
    (hout : program i config.mem (config.locals i) = some out) : Inv repeatTimes (config.set i out) := by
  have hplace := h.place i
  simp only [Place, hpc] at hplace
  obtain ⟨⟨rfl, hpos⟩, hheld, hreached⟩ := hplace
  simp only [program, hpc] at hout
  obtain rfl := Option.some.inj hout
  refine h.set ?_ ?_ ?_ ?_ ?_ ?_ Or.inl (Or.inr (by simp [holds, hpc])) ⟨hheld, hreached⟩
  · rw [total_update_of_eq (by simp [holds, hpc])]
    exact h.lock
  · intro t
    rw [total_update_of_eq (by simp [owns, ownedTest, hpc])]
    exact h.mutex t
  · intro t
    by_cases ht : t = k
    · subst ht
      simpa using hpos
    · simpa [ht] using h.nonneg t
  · simp only [sum_update, owes, hpc]
    omega
  · intro t
    by_cases ht : t = k
    · subst ht
      simp [chosen, chosenTest, hpc]
    · simp [chosen, chosenTest, hpc, ht, Ne.symm ht]
  · intro t hzero
    by_cases ht : t = k
    · subst ht
      omega
    · simpa [ht] using hzero

theorem Inv.step_loadPendingNumRuns (h : Inv repeatTimes config) {k : Fin tests}
    (hpc : (config.locals i).pc = .loadPendingNumRuns k)
    (hout : program i config.mem (config.locals i) = some out) : Inv repeatTimes (config.set i out) := by
  have hplace := h.place i
  simp only [Place, hpc] at hplace
  simp only [program, hpc] at hout
  obtain rfl := Option.some.inj hout
  exact h.set_quiet (by simp [holds, hpc]) (by simp [owes, hpc]) (by simp [ownedTest, hpc])
    (by simp [chosenTest, hpc]) rfl ⟨rfl, hplace⟩

/-- The decrement of the total. -/
theorem Inv.step_storePendingNumRuns (h : Inv repeatTimes config) {k : Fin tests} {t0 : ℤ}
    (hpc : (config.locals i).pc = .storePendingNumRuns k t0)
    (hout : program i config.mem (config.locals i) = some out) : Inv repeatTimes (config.set i out) := by
  have hplace := h.place i
  simp only [Place, hpc] at hplace
  obtain ⟨rfl, hheld, hreached⟩ := hplace
  simp only [program, hpc] at hout
  obtain rfl := Option.some.inj hout
  refine h.set ?_ ?_ h.nonneg ?_ ?_ (fun _ => id) Or.inl (Or.inr (by simp [holds, hpc])) ⟨hheld, hreached⟩
  · rw [total_update_of_eq (by simp [holds, hpc])]
    exact h.lock
  · intro t
    rw [total_update_of_eq (by simp [owns, ownedTest, hpc])]
    exact h.mutex t
  · simp only [owes, hpc]
    omega
  · intro t
    simp [chosen, chosenTest, hpc]

/-! ### The jump to the test and back to the dispatch -/

theorem Inv.step_storeHeldLock (h : Inv repeatTimes config) {k : Fin tests}
    (hpc : (config.locals i).pc = .storeHeldLock k)
    (hout : program i config.mem (config.locals i) = some out) : Inv repeatTimes (config.set i out) := by
  have hplace := h.place i
  simp only [Place, hpc] at hplace
  simp only [program, hpc] at hout
  obtain rfl := Option.some.inj hout
  exact h.set_quiet (by simp [holds, hpc]) (by simp [owes, hpc]) (by simp [ownedTest, hpc])
    (by simp [chosenTest, hpc]) rfl ⟨rfl, hplace.2⟩

theorem osTestSequence_getElem? (k : Fin tests) : (osTestSequence tests)[k.val]? = some (.dtest k) := by
  have hlt : k.val < ((List.finRange tests).map Test.dtest).length := by
    rw [List.length_map, List.length_finRange]
    exact k.isLt
  have hget : ((List.finRange tests).map Test.dtest)[k.val] = .dtest k := by
    rw [List.getElem_map, List.getElem_finRange]
    rfl
  rw [osTestSequence, List.getElem?_append_left hlt, List.getElem?_eq_getElem hlt, hget]

theorem Inv.step_loadTestAddr (h : Inv repeatTimes config) {k : Fin tests}
    (hpc : (config.locals i).pc = .loadTestAddr k)
    (hout : program i config.mem (config.locals i) = some out) : Inv repeatTimes (config.set i out) := by
  have hplace := h.place i
  simp only [Place, hpc] at hplace
  simp only [program, hpc, osTestSequence_getElem?, Option.map_some] at hout
  obtain rfl := Option.some.inj hout
  exact h.set_quiet (by simp [holds, hpc]) (by simp [owes, hpc]) (by simp [ownedTest, hpc])
    (by simp [chosenTest, hpc]) rfl hplace

theorem Inv.step_jumpTest (h : Inv repeatTimes config) {test : Test tests}
    (hpc : (config.locals i).pc = .jumpTest test)
    (hout : program i config.mem (config.locals i) = some out) : Inv repeatTimes (config.set i out) := by
  have hplace := h.place i
  simp only [program, hpc] at hout
  obtain rfl := Option.some.inj hout
  refine h.set ?_ ?_ h.nonneg ?_ ?_ (fun _ => id) Or.inl (Or.inl ⟨rfl, rfl⟩) ?_
  · rw [total_update_of_eq (by simp [holds, hpc])]
    exact h.lock
  · intro t
    rw [total_update_of_eq (by cases test <;> simp [owns, ownedTest, hpc])]
    exact h.mutex t
  · simp only [owes, hpc]
  · intro t
    cases test with
    | setup => simp [chosen, chosenTest, hpc]
    | cleanup => simp [chosen, chosenTest, hpc]
    | dtest k =>
        by_cases ht : t = k
        · subst ht
          simp [chosen, chosenTest, hpc]
        · simp [chosen, chosenTest, hpc, ht, Ne.symm ht]
  · cases test <;> simpa only [Place, hpc] using hplace

theorem Inv.step_runTest (h : Inv repeatTimes config) {test : Test tests}
    (hpc : (config.locals i).pc = .runTest test)
    (hout : program i config.mem (config.locals i) = some out) : Inv repeatTimes (config.set i out) := by
  have hplace := h.place i
  simp only [program, hpc] at hout
  obtain rfl := Option.some.inj hout
  cases test <;> simp only [Place, hpc] at hplace <;>
    exact h.set_quiet (by simp [holds, hpc]) (by simp [owes, hpc]) (by simp [ownedTest, hpc, hplace])
      (by simp [chosenTest, hpc]) rfl (by simp [Place, hplace])

theorem Inv.step_loadHeldLock (h : Inv repeatTimes config) (hpc : (config.locals i).pc = .loadHeldLock)
    (hout : program i config.mem (config.locals i) = some out) : Inv repeatTimes (config.set i out) := by
  have hplace := h.place i
  simp only [Place, hpc] at hplace
  simp only [program, hpc] at hout
  split at hout
  · rename_i hheld
    obtain rfl := Option.some.inj hout
    exact h.set_quiet (by simp [holds, hpc]) (by simp [owes, hpc]) (by simp [ownedTest, hpc, hheld])
      (by simp [chosenTest, hpc]) rfl hheld
  · rename_i k hheld
    obtain rfl := Option.some.inj hout
    have hreached : (config.locals i).reachedFinished = false := by
      by_contra hreached
      rw [hplace (by simpa using hreached)] at hheld
      cases hheld
    exact h.set_quiet (by simp [holds, hpc]) (by simp [owes, hpc]) (by simp [ownedTest, hpc, hheld])
      (by simp [chosenTest, hpc]) rfl ⟨hheld, hreached⟩

theorem Inv.step_clearHeldLock (h : Inv repeatTimes config)
    (hpc : (config.locals i).pc = .clearHeldLock)
    (hout : program i config.mem (config.locals i) = some out) : Inv repeatTimes (config.set i out) := by
  simp only [program, hpc] at hout
  obtain rfl := Option.some.inj hout
  exact h.set_quiet (by simp [holds, hpc]) (by simp [owes, hpc]) (by simp [ownedTest, hpc])
    (by simp [chosenTest, hpc]) rfl rfl

/-! ### The end of the schedule -/

/-- The steps of `scheduler__finished` up to the jump. -/
theorem Inv.step_finished (h : Inv repeatTimes config)
    (hpc : (config.locals i).pc = .loadCleanupRan ∨ (config.locals i).pc = .storeCleanupRan ∨
      (config.locals i).pc = .loadCleanupPtr)
    (hout : program i config.mem (config.locals i) = some out) : Inv repeatTimes (config.set i out) := by
  have hplace := h.place i
  rcases hpc with hpc | hpc | hpc <;> simp only [Place, hpc] at hplace <;> simp only [program, hpc] at hout
  · split_ifs at hout <;> obtain rfl := Option.some.inj hout <;>
      exact h.set_quiet (by simp [holds, hpc]) (by simp [owes, hpc]) (by simp [ownedTest, hpc])
        (by simp [chosenTest, hpc]) rfl hplace
  · obtain rfl := Option.some.inj hout
    exact h.set_quiet (by simp [holds, hpc]) (by simp [owes, hpc]) (by simp [ownedTest, hpc])
      (by simp [chosenTest, hpc]) rfl hplace
  · obtain rfl := Option.some.inj hout
    exact h.set_quiet (by simp [holds, hpc]) (by simp [owes, hpc]) (by simp [ownedTest, hpc])
      (by simp [chosenTest, hpc]) rfl hplace

/-- One step of any hart keeps the invariant. -/
theorem Inv.step (h : Inv repeatTimes config)
    (hout : program i config.mem (config.locals i) = some out) : Inv repeatTimes (config.set i out) := by
  cases hpc : (config.locals i).pc with
  | loadHeldLock => exact h.step_loadHeldLock hpc hout
  | releaseLock mutex => exact h.step_releaseLock hpc hout
  | clearHeldLock => exact h.step_clearHeldLock hpc hout
  | acquire state => exact h.step_acquire hpc hout
  | loadPending => exact h.step_loadPending hpc hout
  | loadSeed pending => exact h.step_loadSeed hpc hout
  | storeSeed pending seed => exact h.step_storeSeed hpc hout
  | walk k a5 a4 => exact h.step_walk hpc hout
  | loadMutex k t3 => exact h.step_loadMutex hpc hout
  | swapMutex k t3 => exact h.step_swapMutex hpc hout
  | loadNumRuns k => exact h.step_loadNumRuns hpc hout
  | storeNumRuns k t0 => exact h.step_storeNumRuns hpc hout
  | loadPendingNumRuns k => exact h.step_loadPendingNumRuns hpc hout
  | storePendingNumRuns k t0 => exact h.step_storePendingNumRuns hpc hout
  | releaseSelectLock k => exact h.step_releaseSelectLock hpc hout
  | releaseAndRetry walkedOff => exact h.step_releaseAndRetry hpc hout
  | noTestsReleaseLock => exact h.step_noTestsReleaseLock hpc hout
  | storeHeldLock k => exact h.step_storeHeldLock hpc hout
  | loadTestAddr k => exact h.step_loadTestAddr hpc hout
  | jumpTest test => exact h.step_jumpTest hpc hout
  | runTest test => exact h.step_runTest hpc hout
  | loadCleanupRan => exact h.step_finished (Or.inl hpc) hout
  | storeCleanupRan => exact h.step_finished (Or.inr (Or.inl hpc)) hout
  | loadCleanupPtr => exact h.step_finished (Or.inr (Or.inr hpc)) hout
  | ended => simp [program, hpc] at hout

end Step

end Riescue.Parallel
