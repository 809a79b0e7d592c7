import Riescue.LibInterleaving
import Riescue.Routines

/-! The semaphore of `Routines.place_semaphore_acquire_ticket` and `place_semaphore_release_ticket`, one atomic memory
step at a time. Both routines take the word `barrier_lock`: `place_acquire_lock` loads its address. The count is a word
of its own. Every hart makes the calls of a list, and gives back only tickets that it has. -/

namespace Riescue.Semaphore
open Interleaving Routines

inductive Call where
  | acquireTicket (retry : Bool)
  | releaseTicket
  deriving DecidableEq, Repr

/-- The memory instruction that a hart is about to execute; `idle` is between the calls. The value of `work_reg` is kept
from the load of the count to the store. -/
inductive Pc where
  | idle
  | acquire (call : Call) (state : Acquire)
  | loadCount (retry : Bool)
  | storeDecrement (workReg : ℤ)
  | releaseLock (returnVal : ℤ)
  | loadCountRelease
  | storeIncrement (workReg : ℤ)
  | releaseLockRelease
  deriving DecidableEq, Repr

/-- A hart with the calls it will make; the tickets, and whether it holds the lock, are a record of the run. -/
structure Hart where
  pc : Pc
  calls : List Call
  tickets : ℕ
  holdsLock : Bool
  deriving DecidableEq, Repr

structure Mem where
  lock : ℤ
  count : ℤ
  numHartsEnded : ℤ
  deriving DecidableEq, Repr

variable {harts : ℕ}

/-- Where the hart goes on once it holds the lock. -/
def acquired : Call → Pc
  | .acquireTicket retry => .loadCount retry
  | .releaseTicket => .loadCountRelease

/-- `place_acquire_lock` in one of the routines. -/
def acquireAt (call : Call) (mem : Mem) (hart : Hart) (state : Acquire) : Option (Mem × Hart) :=
  match acquireStep mem.numHartsEnded mem.lock state with
  | none => none
  | some (lock, some state) => some ({ mem with lock }, { hart with pc := .acquire call state })
  | some (lock, none) => some ({ mem with lock }, { hart with pc := acquired call, holdsLock := true })

/-- The steps of the two routines. -/
def program (maxTries : ℤ) : Program (Fin harts) Mem Hart := fun _ mem hart =>
  match hart.pc with
  | .idle =>
      match hart.calls with
      | [] => none
      | .acquireTicket retry :: calls =>
          some (mem, { hart with pc := .acquire (.acquireTicket retry) (.start maxTries), calls })
      | .releaseTicket :: calls =>
          if hart.tickets = 0 then some (mem, { hart with calls })
          else some (mem, { hart with pc := .acquire .releaseTicket (.start maxTries), calls })
  | .acquire call state => acquireAt call mem hart state
  | .loadCount retry =>
      if 0 < mem.count then some (mem, { hart with pc := .storeDecrement (mem.count - 1) })
      -- with `retry` the branch goes back to the start of the routine
      else if retry then some (mem, { hart with pc := .acquire (.acquireTicket true) (.start maxTries) })
      else some (mem, { hart with pc := .releaseLock 1 })
  | .storeDecrement workReg => some ({ mem with count := workReg }, { hart with pc := .releaseLock 0 })
  | .releaseLock returnVal =>
      some ({ mem with lock := 0 },
        { hart with pc := .idle, holdsLock := false,
                    tickets := if returnVal = 0 then hart.tickets + 1 else hart.tickets })
  | .loadCountRelease => some (mem, { hart with pc := .storeIncrement (mem.count + 1) })
  | .storeIncrement workReg => some ({ mem with count := workReg }, { hart with pc := .releaseLockRelease })
  | .releaseLockRelease =>
      some ({ mem with lock := 0 }, { hart with pc := .idle, holdsLock := false, tickets := hart.tickets - 1 })

/-- The lock is free, the count is the initial one, and every hart is about to make its calls. -/
def start (initial : ℕ) (calls : Fin harts → List Call) : Config (Fin harts) Mem Hart where
  mem := { lock := 0, count := initial, numHartsEnded := 0 }
  locals := fun i => { pc := .idle, calls := calls i, tickets := 0, holdsLock := false }

/-- A call that retries finds a ticket. -/
def FindsTicket (_ : Fin harts) (mem : Mem) (hart : Hart) : Prop := hart.pc = .loadCount true → 0 < mem.count

instance (i : Fin harts) (mem : Mem) (hart : Hart) : Decidable (FindsTicket i mem hart) :=
  inferInstanceAs (Decidable (_ → _))

/-! ### The invariant -/

/-- The hart holds the lock. -/
def holds (hart : Hart) : ℕ := if hart.holdsLock then 1 else 0

/-- The tickets that the count accounts for: a ticket is taken and given back at the store. -/
def owned (hart : Hart) : ℕ :=
  match hart.pc with
  | .releaseLock returnVal => if returnVal = 0 then hart.tickets + 1 else hart.tickets
  | .releaseLockRelease => hart.tickets - 1
  | _ => hart.tickets

/-- What holds of a hart at its place. -/
def Place (count : ℤ) (hart : Hart) : Prop :=
  match hart.pc with
  | .idle => hart.holdsLock = false
  | .acquire call _ => hart.holdsLock = false ∧ (call = .releaseTicket → 0 < hart.tickets)
  | .loadCount _ => hart.holdsLock = true
  | .storeDecrement workReg => hart.holdsLock = true ∧ workReg = count - 1 ∧ 0 < count
  | .releaseLock _ => hart.holdsLock = true
  | .loadCountRelease => hart.holdsLock = true ∧ 0 < hart.tickets
  | .storeIncrement workReg => hart.holdsLock = true ∧ 0 < hart.tickets ∧ workReg = count + 1
  | .releaseLockRelease => hart.holdsLock = true ∧ 0 < hart.tickets

structure Inv (initial : ℕ) (config : Config (Fin harts) Mem Hart) : Prop where
  lockHeld : LockHeld config.mem.lock (total holds config.locals)
  nonneg : 0 ≤ config.mem.count
  conserved : config.mem.count + total owned config.locals = initial
  place : ∀ i, Place config.mem.count (config.locals i)

theorem inv_start (initial : ℕ) (calls : Fin harts → List Call) : Inv initial (start initial calls) where
  lockHeld := by simp [LockHeld, start, holds, total]
  nonneg := Int.natCast_nonneg initial
  conserved := by simp [start, owned, total]
  place := fun _ => rfl

theorem place_congr {count count' : ℤ} {hart : Hart} (h : Place count hart)
    (hcount : count' = count ∨ hart.holdsLock = false) : Place count' hart := by
  rcases hcount with rfl | hfree
  · exact h
  · unfold Place at h ⊢
    split at h
    · exact h
    · exact h
    · exact h
    · cases h.1.symm.trans hfree
    · exact h
    · exact h
    · cases h.1.symm.trans hfree
    · exact h

section Step
variable {initial : ℕ} {maxTries : ℤ} {config : Config (Fin harts) Mem Hart} {i : Fin harts} {out : Mem × Hart}

/-- A step keeps the invariant when the lock word, the count and the place of the hart fit. -/
theorem Inv.set (h : Inv initial config)
    (hlock : LockHeld out.1.lock (total holds (Function.update config.locals i out.2))) (hnonneg : 0 ≤ out.1.count)
    (howned : out.1.count + owned out.2 = config.mem.count + owned (config.locals i))
    (hplace : Place out.1.count out.2)
    (hothers : ∀ j, j ≠ i → out.1.count = config.mem.count ∨ (config.locals j).holdsLock = false) :
    Inv initial (config.set i out) where
  lockHeld := hlock
  nonneg := hnonneg
  conserved := by
    have htotal := total_update owned config.locals i out.2
    have hconserved := h.conserved
    change out.1.count + (total owned (Function.update config.locals i out.2) : ℕ) = initial
    omega
  place := by
    intro j
    by_cases hji : j = i
    · subst hji
      rw [Config.set_locals_self]
      exact hplace
    · rw [Config.set_locals_ne _ hji]
      exact place_congr (h.place j) (hothers j hji)

theorem LockHeld.keep (h : LockHeld config.mem.lock (total holds config.locals)) {lock : ℤ} {hart : Hart}
    (hlock : lock = config.mem.lock) (hholds : hart.holdsLock = (config.locals i).holdsLock) :
    LockHeld lock (total holds (Function.update config.locals i hart)) := by
  rw [hlock, total_update_of_eq (by rw [holds, holds, hholds])]
  exact h

theorem LockHeld.release (h : LockHeld config.mem.lock (total holds config.locals)) {hart : Hart}
    (hholds : (config.locals i).holdsLock = true) (hfree : hart.holdsLock = false) :
    LockHeld 0 (total holds (Function.update config.locals i hart)) := by
  have htotal := total_update holds config.locals i hart
  have hpos := le_total holds config.locals i
  have hone : holds (config.locals i) = 1 := by rw [holds, hholds]; rfl
  have hzero : holds hart = 0 := by rw [holds, hfree]; rfl
  have heq : total holds (Function.update config.locals i hart) = total holds config.locals - 1 := by omega
  rw [heq]
  exact h.released (by omega)

/-- Two harts do not hold the lock at once. -/
theorem LockHeld.others_free (h : LockHeld config.mem.lock (total holds config.locals))
    (hi : (config.locals i).holdsLock = true) {j : Fin harts} (hji : j ≠ i) : (config.locals j).holdsLock = false := by
  by_contra hj
  have hpair := add_le_total holds config.locals hji
  have hone := h.le_one
  rw [holds, holds, hi, Bool.eq_true_of_not_eq_false hj, if_pos rfl] at hpair
  omega

/-- What a hart at `place_acquire_lock` does: it waits, or acquires the lock. -/
theorem acquireAt_cases {call : Call} {mem : Mem} {hart : Hart} {state : Acquire}
    (hout : acquireAt call mem hart state = some out) :
    ∃ lock next, acquireStep mem.numHartsEnded mem.lock state = some (lock, next) ∧
      out = ({ mem with lock },
        match next with
        | some state => { hart with pc := .acquire call state }
        | none => { hart with pc := acquired call, holdsLock := true }) := by
  unfold acquireAt at hout
  split at hout
  · cases hout
  · exact ⟨_, _, ‹_›, (Option.some.inj hout).symm⟩
  · exact ⟨_, _, ‹_›, (Option.some.inj hout).symm⟩

/-- A hart that calls, or skips a call. -/
theorem Inv.step_idle (h : Inv initial config) (hpc : (config.locals i).pc = .idle)
    (hout : program maxTries i config.mem (config.locals i) = some out) : Inv initial (config.set i out) := by
  have hplace := h.place i
  simp only [Place, hpc] at hplace
  have howned : owned (config.locals i) = (config.locals i).tickets := by rw [owned, hpc]
  simp only [program, hpc] at hout
  split at hout
  · cases hout
  · obtain rfl := Option.some.inj hout
    exact h.set (LockHeld.keep h.lockHeld rfl rfl) h.nonneg (by rw [howned]; rfl) ⟨hplace, fun heq => (nomatch heq)⟩
      fun _ _ => .inl rfl
  · split_ifs at hout with htickets
    · obtain rfl := Option.some.inj hout
      refine h.set (LockHeld.keep h.lockHeld rfl rfl) h.nonneg ?_ ?_ fun _ _ => .inl rfl
      · rw [howned]
        simp only [owned]
      · simpa only [Place, hpc] using hplace
    · obtain rfl := Option.some.inj hout
      exact h.set (LockHeld.keep h.lockHeld rfl rfl) h.nonneg (by rw [howned]; rfl)
        ⟨hplace, fun _ => Nat.pos_of_ne_zero htickets⟩ fun _ _ => .inl rfl

theorem Inv.step_acquire (h : Inv initial config) {call : Call} {state : Acquire}
    (hpc : (config.locals i).pc = .acquire call state)
    (hout : program maxTries i config.mem (config.locals i) = some out) : Inv initial (config.set i out) := by
  have hplace := h.place i
  simp only [Place, hpc] at hplace
  have howned : owned (config.locals i) = (config.locals i).tickets := by rw [owned, hpc]
  simp only [program, hpc] at hout
  obtain ⟨lock, next, hacquire, rfl⟩ := acquireAt_cases hout
  cases next with
  | some next =>
      have heq : total holds (Function.update config.locals i { config.locals i with pc := .acquire call next }) =
          total holds config.locals := total_update_of_eq rfl
      refine h.set ?_ h.nonneg (by rw [howned]; rfl) hplace fun _ _ => .inl rfl
      rw [heq]
      exact h.lockHeld.waits hacquire
  | none =>
      refine h.set ?_ h.nonneg ?_ ?_ fun _ _ => .inl rfl
      · have htotal := total_update holds config.locals i
          { config.locals i with pc := acquired call, holdsLock := true }
        have hzero : holds (config.locals i) = 0 := by rw [holds, hplace.1]; rfl
        have hone : holds { config.locals i with pc := acquired call, holdsLock := true } = 1 := rfl
        have heq : total holds (Function.update config.locals i
            { config.locals i with pc := acquired call, holdsLock := true }) = total holds config.locals + 1 := by
          omega
        rw [heq]
        exact h.lockHeld.acquires hacquire
      · rw [howned]
        cases call <;> rfl
      · cases call with
        | acquireTicket retry => rfl
        | releaseTicket => exact ⟨rfl, hplace.2 rfl⟩

/-- One step of any hart keeps the invariant, unless it retries while it holds the lock. -/
theorem Inv.step (h : Inv initial config) (hfinds : FindsTicket i config.mem (config.locals i))
    (hout : program maxTries i config.mem (config.locals i) = some out) : Inv initial (config.set i out) := by
  have hplace := h.place i
  have hnonneg := h.nonneg
  cases hpc : (config.locals i).pc with
  | idle => exact h.step_idle hpc hout
  | acquire call state => exact h.step_acquire hpc hout
  | loadCount retry =>
      simp only [Place, hpc] at hplace
      have howned : owned (config.locals i) = (config.locals i).tickets := by rw [owned, hpc]
      simp only [program, hpc] at hout
      split_ifs at hout with hcount hretry
      · obtain rfl := Option.some.inj hout
        exact h.set (LockHeld.keep h.lockHeld rfl rfl) hnonneg (by rw [howned]; rfl) ⟨hplace, rfl, hcount⟩ fun _ _ => .inl rfl
      · -- the retry would be made with the lock in hand
        exact absurd (hfinds (hretry ▸ hpc)) hcount
      · obtain rfl := Option.some.inj hout
        exact h.set (LockHeld.keep h.lockHeld rfl rfl) hnonneg (by rw [howned]; rfl) hplace fun _ _ => .inl rfl
  | storeDecrement workReg =>
      simp only [Place, hpc] at hplace
      obtain ⟨hholds, hwork, hpos⟩ := hplace
      have howned : owned (config.locals i) = (config.locals i).tickets := by rw [owned, hpc]
      simp only [program, hpc] at hout
      obtain rfl := Option.some.inj hout
      refine h.set (LockHeld.keep h.lockHeld rfl rfl) ?_ ?_ hholds fun j hji => .inr (LockHeld.others_free h.lockHeld hholds hji)
      · change 0 ≤ workReg
        omega
      · rw [howned]
        change workReg + ((config.locals i).tickets + 1 : ℕ) = _
        omega
  | releaseLock returnVal =>
      simp only [Place, hpc] at hplace
      have howned : owned (config.locals i) =
          if returnVal = 0 then (config.locals i).tickets + 1 else (config.locals i).tickets := by rw [owned, hpc]
      simp only [program, hpc] at hout
      obtain rfl := Option.some.inj hout
      exact h.set (LockHeld.release h.lockHeld hplace rfl) hnonneg (by rw [howned]; rfl) rfl fun _ _ => .inl rfl
  | loadCountRelease =>
      simp only [Place, hpc] at hplace
      have howned : owned (config.locals i) = (config.locals i).tickets := by rw [owned, hpc]
      simp only [program, hpc] at hout
      obtain rfl := Option.some.inj hout
      exact h.set (LockHeld.keep h.lockHeld rfl rfl) hnonneg (by rw [howned]; rfl) ⟨hplace.1, hplace.2, rfl⟩ fun _ _ => .inl rfl
  | storeIncrement workReg =>
      simp only [Place, hpc] at hplace
      obtain ⟨hholds, htickets, hwork⟩ := hplace
      have howned : owned (config.locals i) = (config.locals i).tickets := by rw [owned, hpc]
      simp only [program, hpc] at hout
      obtain rfl := Option.some.inj hout
      refine h.set (LockHeld.keep h.lockHeld rfl rfl) ?_ ?_ ⟨hholds, htickets⟩
        fun j hji => .inr (LockHeld.others_free h.lockHeld hholds hji)
      · change 0 ≤ workReg
        omega
      · rw [howned]
        change workReg + ((config.locals i).tickets - 1 : ℕ) = _
        omega
  | releaseLockRelease =>
      simp only [Place, hpc] at hplace
      have howned : owned (config.locals i) = (config.locals i).tickets - 1 := by rw [owned, hpc]
      simp only [program, hpc] at hout
      obtain rfl := Option.some.inj hout
      exact h.set (LockHeld.release h.lockHeld hplace.1 rfl) hnonneg (by rw [howned]; rfl) rfl fun _ _ => .inl rfl

end Step

theorem ReachableWhile.inv {initial : ℕ} {calls : Fin harts → List Call} {maxTries : ℤ}
    {config : Config (Fin harts) Mem Hart}
    (h : ReachableWhile (program maxTries) FindsTicket (start initial calls) config) : Inv initial config :=
  h.invariant (inv_start initial calls) fun _ _ _ hinv hfinds hout => hinv.step hfinds hout

/-! ### Safety -/

/-- The count is not negative and accounts for the tickets whenever the lock is free, the lock is free unless a hart
holds it, no hart that holds it acquires it, and every call that has returned has released it. -/
structure Safe (initial : ℕ) (config : Config (Fin harts) Mem Hart) : Prop where
  nonneg : 0 ≤ config.mem.count
  conserved : config.mem.lock = 0 → config.mem.count + total Hart.tickets config.locals = initial
  held : config.mem.lock = 0 ↔ ∀ i, (config.locals i).holdsLock = false
  acquires : ∀ i call state, (config.locals i).pc = .acquire call state → (config.locals i).holdsLock = false
  released : ∀ i, (config.locals i).pc = .idle → (config.locals i).holdsLock = false

theorem LockHeld.free_iff {lock : ℤ} {locals : Fin harts → Hart} (h : LockHeld lock (total holds locals)) :
    lock = 0 ↔ ∀ i, (locals i).holdsLock = false := by
  have hzero : lock = 0 ↔ total holds locals = 0 := by
    unfold LockHeld at h
    split_ifs at h with hlock
    · exact iff_of_true hlock h
    · exact iff_of_false hlock (by omega)
  rw [hzero, total_eq_zero_iff]
  refine forall_congr' fun i => ?_
  cases hi : (locals i).holdsLock <;> simp [holds, hi]

/-- Without the lock the count accounts for the tickets that a hart has. -/
theorem owned_of_free {count : ℤ} {hart : Hart} (h : Place count hart) (hfree : hart.holdsLock = false) :
    owned hart = hart.tickets := by
  unfold Place at h
  unfold owned
  split at h <;> rename_i hpc <;> rw [hpc]
  · cases h.symm.trans hfree
  · cases h.1.symm.trans hfree

theorem Inv.safe {initial : ℕ} {config : Config (Fin harts) Mem Hart} (h : Inv initial config) : Safe initial config where
  nonneg := h.nonneg
  conserved := by
    intro hlock
    have hfree := (LockHeld.free_iff h.lockHeld).mp hlock
    have heq : total owned config.locals = total Hart.tickets config.locals :=
      Finset.sum_congr rfl fun i _ => owned_of_free (h.place i) (hfree i)
    rw [← heq]
    exact h.conserved
  held := LockHeld.free_iff h.lockHeld
  acquires := by
    intro i call state hpc
    have hplace := h.place i
    simp only [Place, hpc] at hplace
    exact hplace.1
  released := by
    intro i hpc
    have hplace := h.place i
    simpa only [Place, hpc] using hplace

/-- A retry without a ticket acquires the lock that the hart holds. -/
theorem Inv.not_safe_step {initial : ℕ} {maxTries : ℤ} {config : Config (Fin harts) Mem Hart} (h : Inv initial config)
    {i : Fin harts} {out : Mem × Hart} (hfinds : ¬ FindsTicket i config.mem (config.locals i))
    (hout : program maxTries i config.mem (config.locals i) = some out) : ¬ Safe initial (config.set i out) := by
  obtain ⟨hpc, hcount⟩ := Classical.not_imp.mp hfinds
  have hplace := h.place i
  simp only [Place, hpc] at hplace
  simp only [program, hpc, if_neg hcount, if_pos] at hout
  obtain rfl := Option.some.inj hout
  intro hsafe
  have hfree := hsafe.acquires i (.acquireTicket true) (.start maxTries) (by rw [Config.set_locals_self])
  rw [Config.set_locals_self] at hfree
  cases hplace.symm.trans hfree

/-- Runs in which every retry finds a ticket are safe, and the first one that finds none is not. -/
theorem semaphore_safe {initial : ℕ} {calls : Fin harts → List Call} {maxTries : ℤ}
    {config : Config (Fin harts) Mem Hart}
    (h : ReachableWhile (program maxTries) FindsTicket (start initial calls) config) :
    Safe initial config ∧ ∀ i next, config.step (program maxTries) i = some next →
      (Safe initial next ↔ FindsTicket i config.mem (config.locals i)) := by
  have hinv := ReachableWhile.inv h
  refine ⟨hinv.safe, fun i next hstep => ?_⟩
  obtain ⟨out, hout, rfl⟩ := Config.step_eq_some.mp hstep
  constructor
  · intro hsafe
    by_contra hfinds
    exact hinv.not_safe_step hfinds hout hsafe
  · exact fun hfinds => (hinv.step hfinds hout).safe

/-- Two harts and one ticket: hart 0 takes it and gives it back, then hart 1 takes it. -/
theorem semaphore_safe_handover : ∃ config : Config (Fin 2) Mem Hart,
    (start 1 fun _ => [.acquireTicket true, .releaseTicket]).runWhile (program 500) FindsTicket
      [0, 0, 0, 0, 0, 0, 0, 0, 0, 0, 0, 0, 0, 0, 1, 1, 1, 1, 1, 1, 1] = some config ∧
    (config.mem.count, (config.locals 0).tickets, (config.locals 1).tickets) = (0, 0, 1) ∧
    Safe 1 config ∧ ∀ i next, config.step (program 500) i = some next →
      (Safe 1 next ↔ FindsTicket i config.mem (config.locals i)) := by
  have hrun : ((start 1 fun _ => [.acquireTicket true, .releaseTicket]).runWhile (program 500) FindsTicket
      ([0, 0, 0, 0, 0, 0, 0, 0, 0, 0, 0, 0, 0, 0, 1, 1, 1, 1, 1, 1, 1] : List (Fin 2))).map
        (fun config => (config.mem.count, (config.locals 0).tickets, (config.locals 1).tickets)) = some (0, 0, 1) := by
    decide +kernel
  obtain ⟨config, hconfig, htickets⟩ := Option.map_eq_some_iff.mp hrun
  exact ⟨config, hconfig, htickets, semaphore_safe (ReachableWhile.start.run hconfig)⟩

/-- A hart that retries on an empty semaphore acquires the lock that it holds. -/
theorem not_semaphore_safe :
    ¬ ∀ (initial : ℕ) (calls : Fin 1 → List Call) (maxTries : ℤ) (config : Config (Fin 1) Mem Hart),
      Reachable (program maxTries) (start initial calls) config → Safe initial config := by
  intro h
  have hrun : ((start 0 fun _ => [.acquireTicket true]).run (program 500) ([0, 0, 0, 0, 0] : List (Fin 1))).any
      (fun config => decide ((config.locals 0).pc = .acquire (.acquireTicket true) (.start 500)) &&
        decide ((config.locals 0).holdsLock = true)) = true := by
    decide +kernel
  obtain ⟨config, hconfig, hlocal⟩ := (Option.any_eq_true _ _).mp hrun
  simp only [Bool.and_eq_true, decide_eq_true_eq] at hlocal
  have hsafe := h 0 _ 500 config (Reachable.start.run hconfig)
  cases (hsafe.acquires 0 _ _ hlocal.1).symm.trans hlocal.2

end Riescue.Semaphore
