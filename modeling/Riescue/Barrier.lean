import Riescue.LibInterleaving
import Riescue.LibRoundBarrier
import Riescue.Routines

/-! The barrier that `Routines.place_barrier` emits, one atomic memory step at a time, for harts that call it
any number of times. The program points carry the source's labels; the rounds that every hart has entered
and completed are recorded next to the memory. -/

namespace Riescue.Barrier
open Interleaving RoundBarrier Routines

/-- The three places that acquire the lock, `_0`, `_1` and `_2`. -/
inductive Site where
  | zero | one | two
  deriving DecidableEq, Repr

/-- The memory instruction that a hart is about to execute; `idle` is outside the barrier. The register
`work_reg_1` lives from the `amoadd` on `arrive_counter` to the branch behind the release. -/
inductive Pc where
  | idle
  | acquire (site : Site) (state : Acquire)
  | loadArriveCount
  | loadDepartCount
  | releaseNotNumHarts
  | waitDepartCount
  | setFlagZero
  | arriveCountNotZero
  | releaseArrive (workReg1 : ℤ)
  | resetArriveCount
  | setDepartCount
  | setFlagOne
  | checkHartsEnded
  | loadFlag
  | addDepartCount
  | releaseDepart
  deriving DecidableEq, Repr

/-- The words of the barrier, and the rounds as a record of the calls. -/
structure Mem (harts : ℕ) where
  lock : ℤ
  arriveCounter : ℤ
  departCounter : ℤ
  flag : ℤ
  numHartsEnded : ℤ
  rounds : Rounds (Fin harts)

variable {harts : ℕ}

/-- What the hart goes on with once it holds the lock. -/
def acquired : Site → Pc
  | .zero => .loadArriveCount
  | .one => .setFlagZero
  | .two => .addDepartCount

/-- `place_acquire_lock` at one of the sites. -/
def acquireAt (site : Site) (mem : Mem harts) (state : Acquire) : Option (Mem harts × Pc) :=
  match acquireStep mem.numHartsEnded mem.lock state with
  | none => none
  | some (lock, some state) => some ({ mem with lock := lock }, .acquire site state)
  | some (lock, none) => some ({ mem with lock := lock }, acquired site)

/-- `place_barrier` for `num_cpus` harts; the counters, the flag and the lock are words of their own. -/
def program (maxTries : ℤ) : Program (Fin harts) (Mem harts) Pc := fun i mem pc =>
  match pc with
  | .idle => some ({ mem with rounds := mem.rounds.enter i }, .acquire .zero (.start maxTries))
  | .acquire site state => acquireAt site mem state
  | .loadArriveCount =>
      some (mem, if mem.arriveCounter ≠ 0 then .arriveCountNotZero else .loadDepartCount)
  | .loadDepartCount =>
      some (mem, if mem.departCounter ≠ harts then .releaseNotNumHarts else .setFlagZero)
  | .releaseNotNumHarts => some ({ mem with lock := 0 }, .waitDepartCount)
  | .waitDepartCount =>
      some (mem, if mem.departCounter = harts then .acquire .one (.start maxTries) else .waitDepartCount)
  | .setFlagZero => some ({ mem with flag := 0 }, .arriveCountNotZero)
  | .arriveCountNotZero =>
      some ({ mem with arriveCounter := mem.arriveCounter + 1 }, .releaseArrive (mem.arriveCounter + 1))
  | .releaseArrive workReg1 =>
      some ({ mem with lock := 0 }, if workReg1 ≠ harts then .checkHartsEnded else .resetArriveCount)
  -- the last hart to arrive resets the variables, without the lock
  | .resetArriveCount => some ({ mem with arriveCounter := 0 }, .setDepartCount)
  | .setDepartCount => some ({ mem with departCounter := 1 }, .setFlagOne)
  | .setFlagOne => some ({ mem with flag := 1, rounds := mem.rounds.leave i }, .idle)
  | .checkHartsEnded => if mem.numHartsEnded ≠ 0 then none else some (mem, .loadFlag)
  | .loadFlag => some (mem, if mem.flag ≠ 0 then .acquire .two (.start maxTries) else .checkHartsEnded)
  | .addDepartCount => some ({ mem with departCounter := mem.departCounter + 1 }, .releaseDepart)
  | .releaseDepart => some ({ mem with lock := 0, rounds := mem.rounds.leave i }, .idle)

/-- The initial values, with every hart outside. -/
def start : Config (Fin harts) (Mem harts) Pc where
  mem :=
    { lock := 0, arriveCounter := 0, departCounter := harts, flag := 0, numHartsEnded := 0
      rounds := Rounds.start }
  locals := fun _ => .idle

/-- The hart holds the lock. -/
def holds : Pc → ℕ
  | .loadArriveCount | .loadDepartCount | .releaseNotNumHarts | .setFlagZero | .arriveCountNotZero
  | .releaseArrive _ | .addDepartCount | .releaseDepart => 1
  | _ => 0

end Riescue.Barrier
