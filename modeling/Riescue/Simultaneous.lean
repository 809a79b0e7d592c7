import Riescue.LibInterleaving
import Riescue.LibRoundBarrier
import Mathlib.Data.List.Range

/-! The simultaneous scheduler, `schedulers/simultaneous.py` over the base class in `scheduler.py`: the code
that every hart runs, one atomic memory step at a time. `os_barrier_amo` stands here for the barrier it is
meant to be, which a hart leaves when all have entered. A word holds a natural number, and the registers
`s10`, `s11` and `t1` survive the barrier. -/

namespace Riescue.Simultaneous
open Interleaving RoundBarrier

/-- The places that call `os_barrier_amo`. -/
inductive Site where
  | init | dispatch | execute
  deriving DecidableEq, Repr

inductive Pc where
  | callBarrier (site : Site)
  | inBarrier (site : Site)
  | loadTestSetup
  | jumpTest
  | runTest
  | loadNumRuns
  | storeNumRuns
  | loadTestAddr
  | finished
  deriving DecidableEq, Repr

/-- A hart. `entry` is the entry of `os_test_sequence` that `t1` was loaded from; `loads` and `jumps` record
the values of `num_runs` that the hart has loaded and the tests that it has jumped to. -/
structure Hart where
  pc : Pc
  s10 : ℕ
  t1 : String
  entry : Option ℕ
  loads : List ℕ
  jumps : List (Option ℕ × String)
  deriving DecidableEq, Repr

/-- The shared memory: the word `num_runs` and the state of the barrier. -/
structure Mem (harts : ℕ) where
  numRuns : ℕ
  rounds : Rounds (Fin harts)

/-- `os_test_sequence` -/
def osTestSequence (dtestsSequence : List String) : List String := "test_cleanup" :: dtestsSequence

variable {harts : ℕ}

/-- Where a hart goes on behind the barrier; in the dispatch, `bnez` keeps all but hart 0 off the store. -/
def afterBarrier (i : Fin harts) : Site → Pc
  | .init => .loadTestSetup
  | .dispatch => if i.val ≠ 0 then .loadTestAddr else .storeNumRuns
  | .execute => .jumpTest

def program (dtestsSequence : List String) : Program (Fin harts) (Mem harts) Hart := fun i mem hart =>
  match hart.pc with
  | .callBarrier site => some ({ mem with rounds := mem.rounds.enter i }, { hart with pc := .inBarrier site })
  | .inBarrier site =>
      if mem.rounds.MayLeave i then
        some ({ mem with rounds := mem.rounds.leave i }, { hart with pc := afterBarrier i site })
      else none
  | .loadTestSetup =>
      some (mem, { hart with pc := .callBarrier .execute, t1 := "test_setup", entry := none })
  | .jumpTest => some (mem, { hart with pc := .runTest, jumps := hart.jumps ++ [(hart.entry, hart.t1)] })
  -- the test leaves the variables of the scheduler alone and returns to the dispatch
  | .runTest => some (mem, { hart with pc := .loadNumRuns })
  | .loadNumRuns =>
      let loaded := { hart with s10 := mem.numRuns, loads := hart.loads ++ [mem.numRuns] }
      if mem.numRuns = 0 then some (mem, { loaded with pc := .finished })
      else some (mem, { loaded with pc := .callBarrier .dispatch, s10 := mem.numRuns - 1 })
  | .storeNumRuns => some ({ mem with numRuns := hart.s10 }, { hart with pc := .loadTestAddr })
  | .loadTestAddr =>
      (osTestSequence dtestsSequence)[hart.s10]?.map fun label =>
        (mem, { hart with pc := .callBarrier .execute, t1 := label, entry := some hart.s10 })
  | .finished => none

/-- `scheduler_init`: every hart is about to call the barrier in front of `test_setup`. -/
def start (dtestsSequence : List String) : Config (Fin harts) (Mem harts) Hart where
  mem := { numRuns := dtestsSequence.length + 1, rounds := Rounds.start }
  locals := fun _ =>
    { pc := .callBarrier .init, s10 := 0, t1 := "", entry := none, loads := [], jumps := [] }

/-- The values of `num_runs` in the rounds: they count down to zero. -/
def countdown (dtestsSequence : List String) : List ℕ :=
  (List.range ((osTestSequence dtestsSequence).length + 1)).reverse

/-- The tests in the order in which a hart should run them: `test_setup`, then every entry of the sequence
from the last down to `test_cleanup`. -/
def schedule (dtestsSequence : List String) : List (Option ℕ × String) :=
  (none, "test_setup") ::
    ((osTestSequence dtestsSequence).mapIdx fun idx label => (some idx, label)).reverse

end Riescue.Simultaneous
