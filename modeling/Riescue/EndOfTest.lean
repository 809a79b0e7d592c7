import Riescue.LibInterleaving

/-! The end of the test for several harts, `EndOfTest._mp_end_test` with `passed`, `failed` and `halt`: every
hart counts itself, and the hart that gets `tohost_mutex` polls the two counters and writes the verdict; with
`print_rvcp_failed` it prints a message before it writes the fail value. One step of a hart is one access to
the shared memory with the register instructions around it; the code of the hooks is left out. -/

namespace Riescue.EndOfTest
open Interleaving

/-- What is stored to `tohost`: `eot_pass_value`, `eot_fail_value`, or a word that prints a character. -/
inductive Store where
  | pass | fail
  | print (word : BitVec 64)
  deriving DecidableEq, Repr

def Store.IsVerdict : Store → Bool
  | .pass | .fail => true
  | .print _ => false

/-- What `failed` and `rvcp_print_test_result` read. -/
structure Printing (harts : ℕ) where
  printRvcpFailed : Bool
  testname : String
  dtests : List String
  currentTestIndex : Fin harts → BitVec 64
  /-- `RVMODEL_IO_WRITE_STR` of the macros header: the words that it stores to `tohost` for a string. -/
  writeStr : String → List (BitVec 64)

/-- The macro of `rvmodel_macros_htif.h`. It waits for the host to clear `tohost` before each store; the wait
changes no word and is no step here. -/
def htifWriteStr (text : String) : List (BitVec 64) :=
  text.toList.map fun char => 0x0101000000000000 ||| BitVec.ofNat 64 char.toNat

/-- The macro of `rvmodel_macros_uart.h` stores to the device only. -/
def uartWriteStr (_ : String) : List (BitVec 64) := []

/-- The words that `rvcp_print_test_result` stores to `tohost`. -/
def Printing.rvcpPrintTestResult {harts : ℕ} (printing : Printing harts) (i : Fin harts) (a0 : BitVec 64) :
    List (BitVec 64) :=
  let t0 := printing.currentTestIndex i
  -- `test_setup`, `test_cleanup` and negative indices print nothing
  if t0 = 0xFFFFFFFE ∨ t0 = 0xFFFFFFFF ∨ t0.toInt < 0 then []
  else
    ["RVCP: Test File ", printing.testname, " ", printing.dtests.getD t0.toNat "", " ",
      if a0 ≠ 0 then "FAILED" else "PASSED", "\n"].flatMap printing.writeStr

/-- What `failed` prints in front of the fail value. -/
def Printing.failedWords {harts : ℕ} (printing : Printing harts) (i : Fin harts) : List (BitVec 64) :=
  if printing.printRvcpFailed then printing.rvcpPrintTestResult i 1 else []

/-- The instruction that a hart is about to execute: `running` is before `eot__end_test`, `halt` is the loop at
the end. The register `t4` counts the polls down. -/
inductive Pc where
  | running
  | addHardFails
  | markDone
  | tryLock
  | amoswap
  | waitForOthers (t4 : ℤ)
  | loadHartsEnded (t4 : ℤ)
  | passed
  | failed
  | print (words : List (BitVec 64))
  | halt
  deriving DecidableEq, Repr

/-- The shared words, and the stores to `tohost` so far. -/
structure Mem (harts : ℕ) where
  numHardFails : ℕ
  numHartsEnded : ℕ
  tohostMutex : ℕ
  tohost : List (Fin harts × Store)
  deriving DecidableEq, Repr

variable {harts : ℕ} {timeout : ℤ} {gp : Fin harts → BitVec 64} {printing : Printing harts}

/-- `_mp_end_test` for `num_cpus` harts, with AMO enabled and `eot_wait_for_others_timeout`. -/
def program (timeout : ℤ) (gp : Fin harts → BitVec 64) (printing : Printing harts) :
    Program (Fin harts) (Mem harts) Pc := fun i mem pc =>
  match pc with
  | .running => some (mem, if gp i = 1 then .markDone else .addHardFails)
  | .addHardFails => some ({ mem with numHardFails := mem.numHardFails + 1 }, .markDone)
  | .markDone =>
      -- a hart that bailed early is counted but does not try to write
      some ({ mem with numHartsEnded := mem.numHartsEnded + 1 }, if gp i = 0x80000000 then .halt else .tryLock)
  | .tryLock => some (mem, if mem.tohostMutex ≠ 0 then .halt else .amoswap)
  | .amoswap =>
      some ({ mem with tohostMutex := 1 }, if mem.tohostMutex ≠ 0 then .halt else .waitForOthers timeout)
  | .waitForOthers t4 =>
      if t4 < 0 then some (mem, .failed)
      else some (mem, if mem.numHardFails ≠ 0 then .failed else .loadHartsEnded (t4 - 1))
  | .loadHartsEnded t4 => some (mem, if mem.numHartsEnded ≠ harts then .waitForOthers t4 else .passed)
  | .passed => some ({ mem with tohost := mem.tohost ++ [(i, .pass)] }, .halt)
  | .failed => some (mem, .print (printing.failedWords i))
  | .print (word :: words) => some ({ mem with tohost := mem.tohost ++ [(i, .print word)] }, .print words)
  | .print [] => some ({ mem with tohost := mem.tohost ++ [(i, .fail)] }, .halt)
  | .halt => some (mem, .halt)

/-- The initial values, with every hart in its test. -/
def start : Config (Fin harts) (Mem harts) Pc where
  mem := { numHardFails := 0, numHartsEnded := 0, tohostMutex := 0, tohost := [] }
  locals := fun _ => .running

/-- The hart has counted itself in `num_harts_ended`. -/
def ended : Pc → ℕ
  | .running | .addHardFails | .markDone => 0
  | _ => 1

/-- The hart holds `tohost_mutex` and has not stored a verdict. -/
def holds : Pc → ℕ
  | .waitForOthers _ | .loadHartsEnded _ | .passed | .failed | .print _ => 1
  | _ => 0

/-- The stores of a verdict among the stores to `tohost`. -/
def verdicts (tohost : List (Fin harts × Store)) : ℕ := tohost.countP (·.2.IsVerdict)

/-- The mutex is held or has been; it is never released. -/
def taken (tohostMutex : ℕ) : ℕ := if tohostMutex = 0 then 0 else 1

/-- The hart has not yet counted itself in `num_hard_fails`. -/
def Uncounted (pc : Pc) : Prop := pc = .running ∨ pc = .addHardFails

/-- All harts have passed and have entered `eot__end_test`. -/
def AllPassed (gp : Fin harts → BitVec 64) (config : Config (Fin harts) (Mem harts) Pc) : Prop :=
  ∀ i, config.locals i ≠ .running ∧ gp i = 1

/-! ### What one step does to each counter -/

section Steps
variable {i : Fin harts} {mem : Mem harts} {pc : Pc} {out : Mem harts × Pc}

theorem program_ended (hout : program timeout gp printing i mem pc = some out) :
    out.1.numHartsEnded + ended pc = mem.numHartsEnded + ended out.2 := by
  cases pc <;> simp only [program] at hout
  case waitForOthers t4 =>
    split at hout <;> cases hout
    · rfl
    · split <;> rfl
  case print words => cases words <;> cases hout <;> rfl
  all_goals
    cases hout
    try split
    all_goals simp [ended]

/-- A verdict is stored by the holder of the mutex, which gives up its claim with the store. -/
theorem program_mutex (hout : program timeout gp printing i mem pc = some out) :
    holds out.2 + verdicts out.1.tohost + taken mem.tohostMutex =
      holds pc + verdicts mem.tohost + taken out.1.tohostMutex := by
  cases pc <;> simp only [program] at hout
  case waitForOthers t4 =>
    split at hout <;> cases hout
    · rfl
    · split <;> rfl
  case amoswap =>
    cases hout
    by_cases hfree : mem.tohostMutex = 0 <;> simp [hfree, holds, taken]
    omega
  case print words =>
    cases words <;> cases hout <;> simp [holds, verdicts, Store.IsVerdict]
    omega
  all_goals
    cases hout
    try split
    all_goals simp [holds, verdicts, Store.IsVerdict]
    all_goals omega

/-- A hart that has counted itself stays so. -/
theorem program_ended_mono (hout : program timeout gp printing i mem pc = some out) (hended : ended pc = 1) :
    ended out.2 = 1 := by
  cases pc <;> simp only [program] at hout <;> try cases hended
  case waitForOthers t4 =>
    split at hout <;> cases hout
    · rfl
    · split <;> rfl
  case print words => cases words <;> cases hout <;> rfl
  all_goals
    cases hout
    try split
    all_goals rfl

/-- A hart that failed counts itself in `num_hard_fails` before it goes on. -/
theorem program_uncounted (hout : program timeout gp printing i mem pc = some out) (hfails : out.1.numHardFails = 0)
    (hgp : gp i ≠ 1) (hpc : Uncounted pc) : Uncounted out.2 := by
  rcases hpc with rfl | rfl <;> simp only [program] at hout
  · cases hout
    exact .inr (if_neg hgp)
  · cases hout
    simp at hfails

theorem program_numHardFails (hout : program timeout gp printing i mem pc = some out) (hfails : out.1.numHardFails = 0) :
    mem.numHardFails = 0 := by
  cases pc <;> simp only [program] at hout
  case addHardFails =>
    cases hout
    simp at hfails
  case waitForOthers t4 => split at hout <;> cases hout <;> exact hfails
  case print words => cases words <;> cases hout <;> exact hfails
  all_goals
    cases hout
    exact hfails

/-- The routine that stores the pass value is entered from the load of `num_harts_ended` only. -/
theorem program_passed (hout : program timeout gp printing i mem pc = some out) (hpassed : out.2 = .passed) :
    (∃ t4, pc = .loadHartsEnded t4) ∧ mem.numHartsEnded = harts := by
  cases pc <;> simp only [program] at hout
  case loadHartsEnded t4 =>
    cases hout
    by_cases hall : mem.numHartsEnded = harts
    · exact ⟨⟨t4, rfl⟩, hall⟩
    · simp [hall] at hpassed
  case waitForOthers t4 =>
    split at hout <;> cases hout
    · cases hpassed
    · split at hpassed <;> cases hpassed
  case print words => cases words <;> cases hout <;> cases hpassed
  all_goals
    cases hout
    try split at hpassed
    all_goals cases hpassed

/-- What is stored: the pass value by the routine for it, a word that prints while there are words left. -/
theorem program_tohost (hout : program timeout gp printing i mem pc = some out) {store : Fin harts × Store}
    (hstore : store ∈ out.1.tohost) :
    store ∈ mem.tohost ∨ (pc = .passed ∧ store.2 = .pass) ∨ store.2 = .fail ∨
      ∃ word words, pc = .print (word :: words) ∧ store.2 = .print word := by
  cases pc <;> simp only [program] at hout
  case passed =>
    cases hout
    rcases List.mem_append.mp hstore with hold | hnew
    · exact .inl hold
    · rw [List.mem_singleton.mp hnew]
      exact .inr (.inl ⟨rfl, rfl⟩)
  case print words =>
    cases words with
    | cons word words =>
        cases hout
        rcases List.mem_append.mp hstore with hold | hnew
        · exact .inl hold
        · rw [List.mem_singleton.mp hnew]
          exact .inr (.inr (.inr ⟨word, words, rfl, rfl⟩))
    | nil =>
        cases hout
        rcases List.mem_append.mp hstore with hold | hnew
        · exact .inl hold
        · rw [List.mem_singleton.mp hnew]
          exact .inr (.inr (.inl rfl))
  case waitForOthers t4 => split at hout <;> cases hout <;> exact .inl hstore
  all_goals
    cases hout
    exact .inl hstore

/-- The routine that prints is entered from `eot__failed`. -/
theorem program_print (hout : program timeout gp printing i mem pc = some out) {words : List (BitVec 64)}
    (hprint : out.2 = .print words) :
    (pc = .failed ∧ words = printing.failedWords i) ∨ ∃ word, pc = .print (word :: words) := by
  cases pc <;> simp only [program] at hout
  case failed =>
    cases hout
    cases hprint
    exact .inl ⟨rfl, rfl⟩
  case print rest =>
    cases rest <;> cases hout <;> cases hprint
    exact .inr ⟨_, rfl⟩
  case waitForOthers t4 =>
    split at hout <;> cases hout
    · cases hprint
    · split at hprint <;> cases hprint
  all_goals
    cases hout
    try split at hprint
    all_goals cases hprint

end Steps

/-! ### What holds in every run -/

/-- The counters and the mutex against the places of the harts. -/
structure Counted (gp : Fin harts → BitVec 64) (config : Config (Fin harts) (Mem harts) Pc) : Prop where
  ended : config.mem.numHartsEnded = total ended config.locals
  failing : config.mem.numHardFails = 0 → ∀ i, gp i ≠ 1 → Uncounted (config.locals i)
  mutex : total holds config.locals + verdicts config.mem.tohost = taken config.mem.tohostMutex

theorem counted_start : Counted gp start where
  ended := by simp [start, total, EndOfTest.ended]
  failing _ i _ := .inl rfl
  mutex := by simp [start, total, holds, taken, verdicts]

theorem Counted.step {config : Config (Fin harts) (Mem harts) Pc} {i : Fin harts} {out : Mem harts × Pc}
    (h : Counted gp config) (hout : program timeout gp printing i config.mem (config.locals i) = some out) :
    Counted gp (config.set i out) where
  ended := by
    have hstep := program_ended hout
    have htotal := total_update EndOfTest.ended config.locals i out.2
    have hbefore := h.ended
    simp only [Config.set]
    omega
  failing hfails j hgp := by
    have hbefore := h.failing (program_numHardFails hout hfails)
    by_cases hji : j = i
    · subst hji
      rw [Config.set_locals_self]
      exact program_uncounted hout hfails hgp (hbefore j hgp)
    · rw [Config.set_locals_ne config hji]
      exact hbefore j hgp
  mutex := by
    have hstep := program_mutex hout
    have htotal := total_update holds config.locals i out.2
    have hbefore := h.mutex
    simp only [Config.set]
    omega

theorem counted_of_reachable {config : Config (Fin harts) (Mem harts) Pc}
    (h : Reachable (program timeout gp printing) start config) : Counted gp config :=
  h.invariant counted_start fun _ _ _ hinv hout => hinv.step hout

/-- At most one verdict is stored, whatever the interleaving. -/
theorem verdicts_le_one {config : Config (Fin harts) (Mem harts) Pc}
    (h : Reachable (program timeout gp printing) start config) : verdicts config.mem.tohost ≤ 1 := by
  have hmutex := (counted_of_reachable h).mutex
  have htaken : taken config.mem.tohostMutex ≤ 1 := by
    unfold taken
    split <;> omega
  omega

/-- When all harts have counted themselves and no failure is counted, all have passed. -/
theorem Counted.allPassed {config : Config (Fin harts) (Mem harts) Pc} (h : Counted gp config)
    (hended : config.mem.numHartsEnded = harts) (hfails : config.mem.numHardFails = 0) (i : Fin harts) :
    EndOfTest.ended (config.locals i) = 1 ∧ gp i = 1 := by
  have hcard : total EndOfTest.ended config.locals = Fintype.card (Fin harts) := by
    rw [← h.ended, hended, Fintype.card_fin]
  have hone : EndOfTest.ended (config.locals i) = 1 :=
    eq_one_of_total_eq_card (fun j => by cases config.locals j <;> simp [EndOfTest.ended]) hcard i
  refine ⟨hone, ?_⟩
  by_contra hgp
  rcases h.failing hfails i hgp with hpc | hpc <;> simp [hpc, EndOfTest.ended] at hone

/-- The last poll sees no failure: a hart that is about to load `num_harts_ended` when all harts have counted
themselves does so while `num_hard_fails` is still zero. -/
def NoLateFailure (_ : Fin harts) (mem : Mem harts) : Pc → Prop
  | .loadHartsEnded _ => mem.numHartsEnded = harts → mem.numHardFails = 0
  | _ => True

instance (i : Fin harts) (mem : Mem harts) : ∀ pc, Decidable (NoLateFailure i mem pc)
  | .loadHartsEnded _ => inferInstanceAs (Decidable (mem.numHartsEnded = harts → mem.numHardFails = 0))
  | .running | .addHardFails | .markDone | .tryLock | .amoswap | .waitForOthers _ | .passed | .failed | .print _
  | .halt => .isTrue trivial

/-- A hart that comes to `eot__failed` has nothing to print through `tohost`. -/
def PrintsNothing (printing : Printing harts) (i : Fin harts) : Pc → Prop
  | .failed => printing.failedWords i = []
  | _ => True

instance (printing : Printing harts) (i : Fin harts) : ∀ pc, Decidable (PrintsNothing printing i pc)
  | .failed => inferInstanceAs (Decidable (printing.failedWords i = []))
  | .running | .addHardFails | .markDone | .tryLock | .amoswap | .waitForOthers _ | .loadHartsEnded _ | .passed
  | .print _ | .halt => .isTrue trivial

/-- With the macros of `rvmodel_macros_uart.h` nothing is printed through `tohost`. -/
theorem printsNothing_uart {printing : Printing harts} (huart : printing.writeStr = uartWriteStr) (i : Fin harts) (pc : Pc) :
    PrintsNothing printing i pc := by
  cases pc with
  | failed =>
      show printing.failedWords i = []
      simp [Printing.failedWords, Printing.rvcpPrintTestResult, huart, uartWriteStr]
  | _ => trivial

/-- The condition on the state before a step. -/
def Undisturbed (printing : Printing harts) (i : Fin harts) (mem : Mem harts) (pc : Pc) : Prop :=
  NoLateFailure i mem pc ∧ PrintsNothing printing i pc

instance (printing : Printing harts) (i : Fin harts) (mem : Mem harts) (pc : Pc) :
    Decidable (Undisturbed printing i mem pc) :=
  inferInstanceAs (Decidable (_ ∧ _))

/-- The pass value is on its way or stored only when every hart has counted itself and has passed, and only
verdicts are stored. -/
structure Verdicts (gp : Fin harts → BitVec 64) (config : Config (Fin harts) (Mem harts) Pc) : Prop where
  counted : Counted gp config
  quiet : ∀ i words, config.locals i = .print words → words = []
  verdict : ∀ store ∈ config.mem.tohost, store.2.IsVerdict
  passed : (∃ i, config.locals i = .passed) ∨ (∃ store ∈ config.mem.tohost, store.2 = .pass) →
    ∀ i, ended (config.locals i) = 1 ∧ gp i = 1

theorem verdicts_start : Verdicts gp start where
  counted := counted_start
  quiet i words hwords := by cases hwords
  verdict store hstore := by cases hstore
  passed hpass := by simp [start] at hpass

theorem Verdicts.step {config : Config (Fin harts) (Mem harts) Pc} {i : Fin harts} {out : Mem harts × Pc}
    (h : Verdicts gp config) (hcond : Undisturbed printing i config.mem (config.locals i))
    (hout : program timeout gp printing i config.mem (config.locals i) = some out) : Verdicts gp (config.set i out) where
  counted := h.counted.step hout
  quiet j words hwords := by
    by_cases hji : j = i
    · subst hji
      rw [Config.set_locals_self] at hwords
      rcases program_print hout hwords with ⟨hpc, hprinted⟩ | ⟨word, hpc⟩
      · have hnothing := hcond.2
        rw [hpc] at hnothing
        exact hprinted.trans hnothing
      · cases h.quiet j _ hpc
    · rw [Config.set_locals_ne config hji] at hwords
      exact h.quiet j words hwords
  verdict store hstore := by
    rcases program_tohost hout hstore with hold | ⟨-, hpass⟩ | hfail | ⟨word, words, hpc, -⟩
    · exact h.verdict store hold
    · rw [hpass, Store.IsVerdict]
    · rw [hfail, Store.IsVerdict]
    · cases h.quiet i _ hpc
  passed hpass := by
    have hbefore : ∀ j, ended (config.locals j) = 1 ∧ gp j = 1 := by
      rcases hpass with ⟨j, hj⟩ | ⟨store, hstore, hvalue⟩
      · by_cases hji : j = i
        · subst hji
          rw [Config.set_locals_self] at hj
          obtain ⟨⟨t4, hpc⟩, hended⟩ := program_passed hout hj
          have hlate := hcond.1
          rw [hpc] at hlate
          exact h.counted.allPassed hended (hlate hended)
        · rw [Config.set_locals_ne config hji] at hj
          exact h.passed (.inl ⟨j, hj⟩)
      · rcases program_tohost hout hstore with hold | ⟨hpc, -⟩ | hfail | ⟨word, words, -, hword⟩
        · exact h.passed (.inr ⟨store, hold, hvalue⟩)
        · exact h.passed (.inl ⟨i, hpc⟩)
        · cases hvalue.symm.trans hfail
        · cases hvalue.symm.trans hword
    intro j
    refine ⟨?_, (hbefore j).2⟩
    by_cases hji : j = i
    · subst hji
      rw [Config.set_locals_self]
      exact program_ended_mono hout (hbefore j).1
    · rw [Config.set_locals_ne config hji]
      exact (hbefore j).1

/-- A late failure goes by unseen: the hart that polls goes on to store the pass value. -/
theorem program_of_late_failure {i : Fin harts} {mem : Mem harts} {t4 : ℤ}
    (hlate : ¬ NoLateFailure i mem (.loadHartsEnded t4)) :
    mem.numHardFails ≠ 0 ∧ program timeout gp printing i mem (.loadHartsEnded t4) = some (mem, .passed) := by
  obtain ⟨hended, hfails⟩ := Classical.not_imp.mp hlate
  exact ⟨hfails, by simp [program, hended]⟩

/-- The hart that prints goes through its words and stores the fail value behind them. -/
theorem exists_run_print (words : List (BitVec 64)) {config : Config (Fin harts) (Mem harts) Pc} {i : Fin harts}
    (h : Reachable (program timeout gp printing) start config) (hpc : config.locals i = .print words) :
    ∃ next, Reachable (program timeout gp printing) start next ∧
      next.mem.tohost = config.mem.tohost ++ words.map (i, .print ·) ++ [(i, .fail)] := by
  induction words generalizing config with
  | nil =>
      have hout : program timeout gp printing i config.mem (config.locals i) =
          some ({ config.mem with tohost := config.mem.tohost ++ [(i, .fail)] }, .halt) := by
        rw [hpc, program]
      refine ⟨_, h.step (Config.step_eq_some.mpr ⟨_, hout, rfl⟩), ?_⟩
      simp
  | cons word words ih =>
      have hout : program timeout gp printing i config.mem (config.locals i) =
          some ({ config.mem with tohost := config.mem.tohost ++ [(i, .print word)] }, .print words) := by
        rw [hpc, program]
      obtain ⟨next, hnext, htohost⟩ :=
        ih (h.step (Config.step_eq_some.mpr ⟨_, hout, rfl⟩)) (Config.set_locals_self ..)
      refine ⟨next, hnext, htohost.trans ?_⟩
      simp

/-- A hart that comes to `eot__failed` with a message to print goes on to more than one store. -/
theorem exists_run_failed {config : Config (Fin harts) (Mem harts) Pc} {i : Fin harts}
    (h : Reachable (program timeout gp printing) start config) (hpc : config.locals i = .failed)
    (hprints : ¬ PrintsNothing printing i (config.locals i)) :
    ∃ next, Reachable (program timeout gp printing) start next ∧ 1 < next.mem.tohost.length := by
  have hout : program timeout gp printing i config.mem (config.locals i) =
      some (config.mem, .print (printing.failedWords i)) := by rw [hpc, program]
  obtain ⟨next, hnext, htohost⟩ :=
    exists_run_print (printing.failedWords i) (h.step (Config.step_eq_some.mpr ⟨_, hout, rfl⟩))
      (Config.set_locals_self ..)
  have hwords : 0 < (printing.failedWords i).length := by
    rw [hpc] at hprints
    exact List.length_pos_of_ne_nil hprints
  refine ⟨next, hnext, ?_⟩
  simp only [htohost, Config.set_mem, List.length_append, List.length_map, List.length_singleton]
  omega

/-- In every run without a late failure and without a message through `tohost` at most one store is made, and
the pass value is stored only when all harts have entered the end of the test with `gp` equal to 1. -/
theorem tohost_verdict {config : Config (Fin harts) (Mem harts) Pc}
    (h : ReachableWhile (program timeout gp printing) (Undisturbed printing) start config) :
    config.mem.tohost.length ≤ 1 ∧ (∀ store ∈ config.mem.tohost, store.2 = .pass → AllPassed gp config) := by
  have hverdicts : Verdicts gp config :=
    h.invariant verdicts_start fun _ _ _ hinv hcond hout => hinv.step hcond hout
  constructor
  · have hall : verdicts config.mem.tohost = config.mem.tohost.length :=
      List.countP_eq_length.mpr hverdicts.verdict
    exact hall ▸ verdicts_le_one h.reachable
  · intro store hstore hpass i
    obtain ⟨hended, hgp⟩ := hverdicts.passed (.inr ⟨store, hstore, hpass⟩) i
    exact ⟨fun hpc => by simp [hpc, ended] at hended, hgp⟩

/-- The first hart passes, the second one fails. -/
def oneFails : Fin 2 → BitVec 64
  | 0 => 1
  | 1 => 3

/-- The second hart fails between the two loads of a poll of the first. -/
def lateFailure : List (Fin 2) := [0, 0, 0, 0, 0, 1, 1, 1, 0, 0]

/-- Neither flag is given. -/
def noMessages : Printing 2 where
  printRvcpFailed := false
  testname := "test"
  dtests := ["test01"]
  currentTestIndex _ := 0
  writeStr := htifWriteStr

/-- `--print_rvcp_failed` with the default macros, in the first discrete test. -/
def failMessages : Printing 2 := { noMessages with printRvcpFailed := true }

/-- The second hart counts its failure, takes the mutex and comes to `eot__failed`. -/
def failsFirst : List (Fin 2) := [1, 1, 1, 1, 1, 1]

/-- The pass value is stored although the second hart has failed; and with messages, a failing hart makes more
than one store. -/
theorem tohost_verdict_late_failure :
    (∃ config, Reachable (program 5000000 oneFails noMessages) start config ∧
      config.mem.tohost = [(0, .pass)] ∧ ¬ AllPassed oneFails config) ∧
    ∃ config, Reachable (program 5000000 oneFails failMessages) start config ∧
      1 < config.mem.tohost.length := by
  constructor
  · have hstores : (Config.run (program 5000000 oneFails noMessages) lateFailure start).map (·.mem.tohost) =
        some [(0, .pass)] := by decide
    obtain ⟨config, hrun, hconfig⟩ := Option.map_eq_some_iff.mp hstores
    refine ⟨config, Reachable.start.run hrun, hconfig, fun hall => ?_⟩
    have hgp : oneFails 1 = 1 := (hall 1).2
    exact absurd hgp (by decide)
  · have hfailed : (Config.run (program 5000000 oneFails failMessages) failsFirst start).map (·.locals 1) =
        some .failed := by decide
    obtain ⟨config, hrun, hconfig⟩ := Option.map_eq_some_iff.mp hfailed
    refine exists_run_failed (Reachable.start.run hrun) hconfig ?_
    rw [hconfig]
    decide

/-- Two harts that pass, the second one while the first polls. -/
theorem tohost_verdict_both_pass :
    ∃ config, config.mem.tohost = [((0 : Fin 2), .pass)] ∧ config.mem.tohost.length ≤ 1 ∧
      (∀ store ∈ config.mem.tohost, store.2 = .pass → AllPassed (fun _ => 1) config) := by
  have hstores : (Config.runWhile (program 5000000 (fun _ => 1) failMessages) (Undisturbed failMessages)
      [0, 0, 0, 0, 0, 1, 1, 0, 0] start).map (·.mem.tohost) = some [(0, .pass)] := by decide
  obtain ⟨config, hrun, hconfig⟩ := Option.map_eq_some_iff.mp hstores
  exact ⟨config, hconfig, tohost_verdict (ReachableWhile.start.run hrun)⟩

end Riescue.EndOfTest
