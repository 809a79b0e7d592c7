import Riescue.LibInterleaving
import Riescue.Routines
import Mathlib.Data.List.FinRange

/-! The parallel scheduler, `schedulers/parallel.py`: the dispatch code and `scheduler__next_test` that every
hart runs, one atomic memory step at a time. Registers live in the program point; the words that a single
hart uses (its seed, its entry of `held_locks`, its cleanup flag) live with the hart. An offset `a0` into
the arrays is the index of a test. -/

namespace Riescue.Parallel
open Interleaving Routines

/-- What `t1` can point to when the scheduler jumps. -/
inductive Test (tests : ℕ) where
  | setup
  | cleanup
  | dtest (k : Fin tests)
  deriving DecidableEq, Repr

/-- The memory instruction that a hart is about to execute, with the live registers; `jumpTest` and
`runTest` are the jump and the test itself. -/
inductive Pc (tests : ℕ) where
  -- scheduler__dispatch
  | loadHeldLock
  | releaseLock (mutex : Fin tests)
  | clearHeldLock
  -- scheduler__next_test
  | acquire (state : Acquire)
  | loadPending
  | loadSeed (pending : ℤ)
  | storeSeed (pending : ℤ) (seed : ℕ)
  | walk (k : Fin tests) (a5 a4 : ℤ)
  | loadMutex (k : Fin tests) (t3 : ℤ)
  | swapMutex (k : Fin tests) (t3 : ℤ)
  | loadNumRuns (k : Fin tests)
  | storeNumRuns (k : Fin tests) (t0 : ℤ)
  | loadPendingNumRuns (k : Fin tests)
  | storePendingNumRuns (k : Fin tests) (t0 : ℤ)
  | releaseSelectLock (k : Fin tests)
  | releaseAndRetry (walkedOff : Bool)
  | noTestsReleaseLock
  -- back in the dispatch
  | storeHeldLock (k : Fin tests)
  | loadTestAddr (k : Fin tests)
  | jumpTest (t1 : Test tests)
  | runTest (test : Test tests)
  -- scheduler__finished
  | loadCleanupRan
  | storeCleanupRan
  | loadCleanupPtr
  | ended
  deriving DecidableEq, Repr

/-- A hart with its own words. `reachedFinished` records whether it has been at `scheduler__finished`. -/
structure Hart (tests : ℕ) where
  pc : Pc tests
  seed : ℕ
  heldLock : Option (Fin tests)
  testCleanupRan : Bool
  reachedFinished : Bool
  deriving DecidableEq, Repr

/-- The shared words; `dispatched` counts the jumps to each test. -/
structure Mem (tests : ℕ) where
  testSelectLock : ℤ
  pendingNumRuns : ℤ
  numRuns : Fin tests → ℤ
  testMutexes : Fin tests → ℤ
  numHartsEnded : ℤ
  dispatched : Fin tests → ℕ

variable {harts tests : ℕ}

/-- `os_test_sequence`: the tests, then `test_cleanup`. -/
def osTestSequence (tests : ℕ) : List (Test tests) := (List.finRange tests).map .dtest ++ [.cleanup]

/-- `MAX_OS_BARRIER_TRIES` -/
def maxOsBarrierTries : ℤ := 50000

/-- The linear congruential generator on 64-bit words. -/
def nextSeed (seed : ℕ) : ℕ := (seed * 1664525 + 1013904223) % 2 ^ 64

/-- The walk begins at offset 0. -/
def startWalk (a4 : ℤ) : Option (Pc tests) :=
  if h : 0 < tests then some (.walk ⟨0, h⟩ 0 a4) else none

/-- Behind the load of one entry in the walk. -/
def afterWalk (k : Fin tests) (a5 a4 t3 : ℤ) : Pc tests :=
  if a5 > a4 then .loadMutex k t3
  else if h : k.val + 1 < tests then .walk ⟨k.val + 1, h⟩ a5 a4
  else .releaseAndRetry true

def program : Program (Fin harts) (Mem tests) (Hart tests) := fun _ mem hart =>
  match hart.pc with
  | .loadHeldLock =>
      match hart.heldLock with
      | none => some (mem, { hart with pc := .acquire (.start maxOsBarrierTries) })
      | some mutex => some (mem, { hart with pc := .releaseLock mutex })
  | .releaseLock mutex =>
      some ({ mem with testMutexes := Function.update mem.testMutexes mutex 0 },
        { hart with pc := .clearHeldLock })
  | .clearHeldLock =>
      some (mem, { hart with pc := .acquire (.start maxOsBarrierTries), heldLock := none })
  | .acquire state =>
      match acquireStep mem.numHartsEnded mem.testSelectLock state with
      | none => none
      | some (lock, some state) => some ({ mem with testSelectLock := lock }, { hart with pc := .acquire state })
      | some (lock, none) => some ({ mem with testSelectLock := lock }, { hart with pc := .loadPending })
  | .loadPending =>
      if mem.pendingNumRuns = 0 then some (mem, { hart with pc := .noTestsReleaseLock })
      else some (mem, { hart with pc := .loadSeed mem.pendingNumRuns })
  | .loadSeed pending => some (mem, { hart with pc := .storeSeed pending (nextSeed hart.seed) })
  | .storeSeed pending seed =>
      -- remu a4, a3, a0
      (startWalk (seed % pending)).map fun pc => (mem, { hart with pc := pc, seed := seed })
  | .walk k a5 a4 => some (mem, { hart with pc := afterWalk k (a5 + mem.numRuns k) a4 (mem.numRuns k) })
  | .loadMutex k t3 =>
      if mem.testMutexes k ≠ 0 then some (mem, { hart with pc := .releaseAndRetry false })
      else some (mem, { hart with pc := .swapMutex k t3 })
  | .swapMutex k t3 =>
      let mem' := { mem with testMutexes := Function.update mem.testMutexes k t3 }
      if mem.testMutexes k ≠ 0 then some (mem', { hart with pc := .releaseAndRetry false })
      else some (mem', { hart with pc := .loadNumRuns k })
  | .loadNumRuns k => some (mem, { hart with pc := .storeNumRuns k (mem.numRuns k - 1) })
  | .storeNumRuns k t0 =>
      some ({ mem with numRuns := Function.update mem.numRuns k t0 }, { hart with pc := .loadPendingNumRuns k })
  | .loadPendingNumRuns k => some (mem, { hart with pc := .storePendingNumRuns k (mem.pendingNumRuns - 1) })
  | .storePendingNumRuns k t0 =>
      some ({ mem with pendingNumRuns := t0 }, { hart with pc := .releaseSelectLock k })
  | .releaseSelectLock k => some ({ mem with testSelectLock := 0 }, { hart with pc := .storeHeldLock k })
  | .releaseAndRetry _ =>
      some ({ mem with testSelectLock := 0 }, { hart with pc := .acquire (.start maxOsBarrierTries) })
  | .noTestsReleaseLock =>
      some ({ mem with testSelectLock := 0 }, { hart with pc := .loadCleanupRan, reachedFinished := true })
  | .storeHeldLock k => some (mem, { hart with pc := .loadTestAddr k, heldLock := some k })
  | .loadTestAddr k =>
      (osTestSequence tests)[k.val]?.map fun test => (mem, { hart with pc := .jumpTest test })
  | .jumpTest test =>
      let dispatched :=
        match test with
        | .dtest k => Function.update mem.dispatched k (mem.dispatched k + 1)
        | _ => mem.dispatched
      some ({ mem with dispatched := dispatched }, { hart with pc := .runTest test })
  -- the test leaves the variables of the scheduler alone and ends in the dispatch
  | .runTest _ => some (mem, { hart with pc := .loadHeldLock })
  | .loadCleanupRan =>
      if hart.testCleanupRan then some (mem, { hart with pc := .ended })
      else some (mem, { hart with pc := .storeCleanupRan })
  | .storeCleanupRan => some (mem, { hart with pc := .loadCleanupPtr, testCleanupRan := true })
  | .loadCleanupPtr => some (mem, { hart with pc := .jumpTest .cleanup })
  | .ended => none

/-- The initial values: every test has `repeat_times` runs, every hart its own seed and is in `test_setup`. -/
def start (repeatTimes : ℕ) (seeds : Fin harts → ℕ) : Config (Fin harts) (Mem tests) (Hart tests) where
  mem :=
    { testSelectLock := 0, pendingNumRuns := tests * repeatTimes, numRuns := fun _ => repeatTimes
      testMutexes := fun _ => 0, numHartsEnded := 0, dispatched := fun _ => 0 }
  locals := fun i =>
    { pc := .runTest .setup, seed := seeds i, heldLock := none, testCleanupRan := false
      reachedFinished := false }

end Riescue.Parallel
