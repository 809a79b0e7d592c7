import Mathlib.Algebra.BigOperators.Group.Finset.Basic
import Mathlib.Algebra.Order.BigOperators.Group.Finset
import Mathlib.Data.Fintype.BigOperators
import Mathlib.Tactic.Common

/-! Threads that take turns at atomic steps on a shared memory. A program says what the next step of a
thread does; a configuration is the memory with the local state of every thread. Invariants are proved by
one step rule. Counting the threads in a kind of state is summing a weight over the threads, and one step
changes one summand. -/

namespace Interleaving
variable {ι M L : Type}

/-- The memory and the local states. -/
@[ext]
structure Config (ι M L : Type) where
  mem : M
  locals : ι → L

/-- The next atomic step of a thread; nothing when the thread cannot move. -/
abbrev Program (ι M L : Type) := ι → M → L → Option (M × L)

section Steps
variable [DecidableEq ι] {program : Program ι M L} {start config next : Config ι M L}

/-- The configuration after a step of thread `i`. -/
def Config.set (config : Config ι M L) (i : ι) (out : M × L) : Config ι M L :=
  { mem := out.1, locals := Function.update config.locals i out.2 }

@[simp] theorem Config.set_mem (config : Config ι M L) (i : ι) (out : M × L) :
    (config.set i out).mem = out.1 := rfl

@[simp] theorem Config.set_locals_self (config : Config ι M L) (i : ι) (out : M × L) :
    (config.set i out).locals i = out.2 := Function.update_self ..

theorem Config.set_locals_ne (config : Config ι M L) {i j : ι} (hji : j ≠ i) (out : M × L) :
    (config.set i out).locals j = config.locals j := Function.update_of_ne hji ..

def Config.step (program : Program ι M L) (i : ι) (config : Config ι M L) : Option (Config ι M L) :=
  (program i config.mem (config.locals i)).map (config.set i)

theorem Config.step_eq_some {i : ι} :
    config.step program i = some next ↔
      ∃ out, program i config.mem (config.locals i) = some out ∧ next = config.set i out := by
  rw [Config.step, Option.map_eq_some_iff]
  exact exists_congr fun out => and_congr_right fun _ => eq_comm

theorem Config.step_eq_none {i : ι} :
    config.step program i = none ↔ program i config.mem (config.locals i) = none := by
  simp [Config.step]

/-- The configurations that runs from `start` meet. -/
inductive Reachable (program : Program ι M L) (start : Config ι M L) : Config ι M L → Prop
  | start : Reachable program start start
  | step {config next : Config ι M L} {i : ι} (h : Reachable program start config)
      (hstep : config.step program i = some next) : Reachable program start next

/-- The invariant rule: what holds at the start and survives each step holds in every run. -/
theorem Reachable.invariant {inv : Config ι M L → Prop} (h : Reachable program start config)
    (hstart : inv start)
    (hstep : ∀ config i out, inv config → program i config.mem (config.locals i) = some out →
      inv (config.set i out)) : inv config := by
  induction h with
  | start => exact hstart
  | step hreach hnext ih =>
      obtain ⟨out, hout, rfl⟩ := Config.step_eq_some.mp hnext
      exact hstep _ _ _ ih hout

/-- The configurations that runs meet in which every step is taken under a condition on the state before it. -/
inductive ReachableWhile (program : Program ι M L) (cond : ι → M → L → Prop) (start : Config ι M L) :
    Config ι M L → Prop
  | start : ReachableWhile program cond start start
  | step {config next : Config ι M L} {i : ι} (h : ReachableWhile program cond start config)
      (hcond : cond i config.mem (config.locals i)) (hstep : config.step program i = some next) :
      ReachableWhile program cond start next

theorem ReachableWhile.reachable {cond : ι → M → L → Prop} (h : ReachableWhile program cond start config) :
    Reachable program start config := by
  induction h with
  | start => exact .start
  | step _ _ hstep ih => exact ih.step hstep

/-- The invariant rule for steps under a condition. -/
theorem ReachableWhile.invariant {cond : ι → M → L → Prop} {inv : Config ι M L → Prop}
    (h : ReachableWhile program cond start config) (hstart : inv start)
    (hstep : ∀ config i out, inv config → cond i config.mem (config.locals i) →
      program i config.mem (config.locals i) = some out → inv (config.set i out)) : inv config := by
  induction h with
  | start => exact hstart
  | step hreach hcond hnext ih =>
      obtain ⟨out, hout, rfl⟩ := Config.step_eq_some.mp hnext
      exact hstep _ _ _ ih hcond hout

/-- The run in which the threads move in the order of a list. -/
def Config.run (program : Program ι M L) : List ι → Config ι M L → Option (Config ι M L)
  | [], config => some config
  | i :: schedule, config => (config.step program i).bind (Config.run program schedule)

theorem Reachable.run {schedule : List ι} (h : Reachable program start config)
    (hrun : config.run program schedule = some next) : Reachable program start next := by
  induction schedule generalizing config with
  | nil => exact Option.some.inj hrun ▸ h
  | cons i schedule ih =>
      obtain ⟨middle, hstep, hrest⟩ := Option.bind_eq_some_iff.mp hrun
      exact ih (.step h hstep) hrest

/-- The run in the order of a list, as long as the condition holds before every step. -/
def Config.runWhile (program : Program ι M L) (cond : ι → M → L → Prop) [∀ i mem l, Decidable (cond i mem l)] :
    List ι → Config ι M L → Option (Config ι M L)
  | [], config => some config
  | i :: schedule, config =>
      if cond i config.mem (config.locals i) then
        (config.step program i).bind (Config.runWhile program cond schedule)
      else none

theorem ReachableWhile.run {cond : ι → M → L → Prop} [∀ i mem l, Decidable (cond i mem l)] {schedule : List ι}
    (h : ReachableWhile program cond start config) (hrun : config.runWhile program cond schedule = some next) :
    ReachableWhile program cond start next := by
  induction schedule generalizing config with
  | nil => exact Option.some.inj hrun ▸ h
  | cons i schedule ih =>
      rw [Config.runWhile] at hrun
      split at hrun
      · obtain ⟨middle, hstep, hrest⟩ := Option.bind_eq_some_iff.mp hrun
        exact ih (.step h ‹_› hstep) hrest
      · cases hrun

/-- An infinite run. -/
structure IsRun (program : Program ι M L) (start : Config ι M L) (run : ℕ → Config ι M L) : Prop where
  start : run 0 = start
  step : ∀ k, ∃ i, (run k).step program i = some (run (k + 1))

theorem IsRun.reachable {run : ℕ → Config ι M L} (h : IsRun program start run) (k : ℕ) :
    Reachable program start (run k) := by
  induction k with
  | zero => exact h.start ▸ .start
  | succ k ih =>
      obtain ⟨i, hi⟩ := h.step k
      exact .step ih hi

end Steps

section Totals
variable [Fintype ι] {w : L → ℕ} {locals : ι → L}

/-- The sum of a weight over the threads; for a weight in {0, 1} the number of threads that have it. -/
def total (w : L → ℕ) (locals : ι → L) : ℕ := ∑ i, w (locals i)

theorem le_total (w : L → ℕ) (locals : ι → L) (i : ι) : w (locals i) ≤ total w locals :=
  Finset.single_le_sum (f := fun j => w (locals j)) (fun _ _ => Nat.zero_le _) (Finset.mem_univ i)

theorem total_eq_zero_iff : total w locals = 0 ↔ ∀ i, w (locals i) = 0 := by
  simp [total]

theorem total_const {a : ℕ} (h : ∀ i, w (locals i) = a) : total w locals = Fintype.card ι * a := by
  simp [total, h]

theorem total_le {a : ℕ} (h : ∀ i, w (locals i) ≤ a) : total w locals ≤ Fintype.card ι * a := by
  have hsum : total w locals ≤ ∑ _i : ι, a := Finset.sum_le_sum fun i _ => h i
  simpa using hsum

/-- All threads have a weight of one when the total is the number of threads. -/
theorem eq_one_of_total_eq_card (h : ∀ i, w (locals i) ≤ 1) (hcard : total w locals = Fintype.card ι)
    (i : ι) : w (locals i) = 1 := by
  by_contra hne
  have hlt : total w locals < ∑ _i : ι, 1 :=
    Finset.sum_lt_sum (fun j _ => h j) ⟨i, Finset.mem_univ i, by have := h i; omega⟩
  simp [hcard] at hlt

variable [DecidableEq ι]

theorem total_eq_add (w : L → ℕ) (locals : ι → L) (i : ι) :
    total w locals = w (locals i) + ∑ j ∈ Finset.univ.erase i, w (locals j) :=
  (Finset.add_sum_erase Finset.univ (fun j => w (locals j)) (Finset.mem_univ i)).symm

/-- A step of thread `i` exchanges one summand. -/
theorem total_update (w : L → ℕ) (locals : ι → L) (i : ι) (l : L) :
    total w (Function.update locals i l) + w (locals i) = total w locals + w l := by
  have hothers : ∀ j ∈ Finset.univ.erase i, w (Function.update locals i l j) = w (locals j) := by
    intro j hj
    rw [Function.update_of_ne (Finset.ne_of_mem_erase hj)]
  rw [total_eq_add w _ i, total_eq_add w locals i, Function.update_self, Finset.sum_congr rfl hothers]
  omega

theorem total_update_of_eq {i : ι} {l : L} (h : w l = w (locals i)) :
    total w (Function.update locals i l) = total w locals := by
  have hsum := total_update w locals i l
  omega

theorem add_le_total (w : L → ℕ) (locals : ι → L) {i j : ι} (hij : i ≠ j) :
    w (locals i) + w (locals j) ≤ total w locals := by
  have hj : w (locals j) ≤ ∑ k ∈ Finset.univ.erase i, w (locals k) :=
    Finset.single_le_sum (f := fun k => w (locals k)) (fun _ _ => Nat.zero_le _)
      (Finset.mem_erase.mpr ⟨hij.symm, Finset.mem_univ j⟩)
  rw [total_eq_add w locals i]
  omega

/-- A weight that every step of a thread increases counts the steps of a run from below. -/
theorem IsRun.le_total {program : Program ι M L} {start : Config ι M L} {run : ℕ → Config ι M L}
    (h : IsRun program start run)
    (hstep : ∀ i mem l out, program i mem l = some out → w l < w out.2) (k : ℕ) :
    k ≤ total w (run k).locals := by
  induction k with
  | zero => exact Nat.zero_le _
  | succ k ih =>
      obtain ⟨i, hi⟩ := h.step k
      obtain ⟨out, hout, hnext⟩ := Config.step_eq_some.mp hi
      have hlt := hstep _ _ _ _ hout
      have hsum := total_update w (run k).locals i out.2
      rw [hnext]
      change k + 1 ≤ total w (Function.update (run k).locals i out.2)
      omega

end Totals

end Interleaving
