import Mathlib.Data.Int.Order.Basic
import Mathlib.Tactic.Common

/-! The lock routines of `lib/routines.py`, one atomic memory step at a time. With `use_zawrs` the loads are
`lr.w` and a waiting hart may sleep in `wrs.nto`, which is the same program up to waiting. -/

namespace Riescue.Routines

/-- The memory instructions of `place_acquire_lock`. -/
inductive AcquirePc where
  | checkAnyHartEnded | tryLock | swap
  deriving DecidableEq, Repr

/-- A hart inside `place_acquire_lock`, with its swap value: the number of tries that are left, which is
positive once the timeout has been checked. -/
structure Acquire where
  pc : AcquirePc
  swapVal : ℤ
  pos : pc ≠ .checkAnyHartEnded → 0 < swapVal
  deriving DecidableEq, Repr

def Acquire.start (maxTries : ℤ) : Acquire := ⟨.checkAnyHartEnded, maxTries, fun h => absurd rfl h⟩

/-- One step: the lock word behind it, and where the hart is, unless it has acquired the lock. The bail-out
paths, for another hart that has ended and for a timeout, leave the nominal program. -/
def acquireStep (numHartsEnded lock : ℤ) (acquire : Acquire) : Option (ℤ × Option Acquire) :=
  match hpc : acquire.pc with
  | .checkAnyHartEnded =>
      if numHartsEnded ≠ 0 then none
      else if htimeout : acquire.swapVal - 1 ≤ 0 then none
      else some (lock, some ⟨.tryLock, acquire.swapVal - 1, fun _ => Int.not_le.mp htimeout⟩)
  | .tryLock =>
      if lock ≠ 0 then some (lock, some ⟨.checkAnyHartEnded, acquire.swapVal, fun h => absurd rfl h⟩)
      else some (lock, some ⟨.swap, acquire.swapVal, fun _ => acquire.pos (by simp [hpc])⟩)
  | .swap =>
      if lock ≠ 0 then
        some (acquire.swapVal, some ⟨.checkAnyHartEnded, acquire.swapVal, fun h => absurd rfl h⟩)
      else some (acquire.swapVal, none)

/-- A hart that goes on waiting leaves the lock free or held, as it was; a swap on a held lock changes the
word, but not to zero. -/
theorem acquireStep_waits {numHartsEnded lock lock' : ℤ} {acquire next : Acquire}
    (h : acquireStep numHartsEnded lock acquire = some (lock', some next)) : lock' = 0 ↔ lock = 0 := by
  unfold acquireStep at h
  split at h
  · split_ifs at h
    simp only [Option.some.injEq, Prod.mk.injEq] at h
    rw [h.1]
  · split_ifs at h <;> simp only [Option.some.injEq, Prod.mk.injEq] at h <;> rw [h.1]
  · have hpos := acquire.pos (by simp [*])
    by_cases hlock : lock = 0
    · rw [if_neg (not_not.mpr hlock)] at h
      simp at h
    · rw [if_pos hlock] at h
      simp only [Option.some.injEq, Prod.mk.injEq] at h
      omega

/-- The lock is acquired when it was free. -/
theorem acquireStep_acquires {numHartsEnded lock lock' : ℤ} {acquire : Acquire}
    (h : acquireStep numHartsEnded lock acquire = some (lock', none)) : lock = 0 ∧ lock' ≠ 0 := by
  unfold acquireStep at h
  split at h
  · split_ifs at h
    simp at h
  · split_ifs at h <;> simp at h
  · have hpos := acquire.pos (by simp [*])
    by_cases hlock : lock = 0
    · rw [if_neg (not_not.mpr hlock)] at h
      simp only [Option.some.injEq, Prod.mk.injEq, and_true] at h
      omega
    · rw [if_pos hlock] at h
      simp at h

/-- The lock word agrees with the number of its holders. -/
def LockHeld (lock : ℤ) (holders : ℕ) : Prop := holders = if lock = 0 then 0 else 1

theorem LockHeld.le_one {lock : ℤ} {holders : ℕ} (h : LockHeld lock holders) : holders ≤ 1 := by
  unfold LockHeld at h
  split_ifs at h <;> omega

theorem LockHeld.waits {numHartsEnded lock lock' : ℤ} {acquire next : Acquire} {holders : ℕ}
    (h : LockHeld lock holders) (hstep : acquireStep numHartsEnded lock acquire = some (lock', some next)) :
    LockHeld lock' holders := by
  unfold LockHeld at *
  rw [h]
  exact if_congr (acquireStep_waits hstep).symm rfl rfl

theorem LockHeld.acquires {numHartsEnded lock lock' : ℤ} {acquire : Acquire} {holders : ℕ}
    (h : LockHeld lock holders) (hstep : acquireStep numHartsEnded lock acquire = some (lock', none)) :
    LockHeld lock' (holders + 1) := by
  obtain ⟨hfree, hheld⟩ := acquireStep_acquires hstep
  unfold LockHeld at *
  rw [h, if_pos hfree, if_neg hheld]

/-- `place_release_lock` stores zero. -/
theorem LockHeld.released {lock : ℤ} {holders : ℕ} (h : LockHeld lock holders) (hpos : 0 < holders) :
    LockHeld 0 (holders - 1) := by
  have := h.le_one
  unfold LockHeld
  rw [if_pos rfl]
  omega

end Riescue.Routines
