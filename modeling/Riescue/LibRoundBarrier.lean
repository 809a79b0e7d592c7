import Mathlib.Data.Fintype.Basic
import Mathlib.Logic.Function.Basic
import Mathlib.Tactic.Common

/-! The meaning of a barrier that is used again and again. Every party counts the rounds that it has entered
and left; a party may leave its round when every party has entered that round. -/

namespace RoundBarrier
variable {ι : Type}

/-- How often each party has entered and left the barrier. -/
structure Rounds (ι : Type) where
  entered : ι → ℕ
  left : ι → ℕ

namespace Rounds

def start : Rounds ι := { entered := fun _ => 0, left := fun _ => 0 }

/-- Every party has entered the round in which party `i` waits. -/
def MayLeave (rounds : Rounds ι) (i : ι) : Prop := ∀ j, rounds.entered i ≤ rounds.entered j

instance [Fintype ι] (rounds : Rounds ι) (i : ι) : Decidable (rounds.MayLeave i) :=
  inferInstanceAs (Decidable (∀ _, _))

/-- No party leaves a round before all have entered it. -/
def Safe (rounds : Rounds ι) : Prop := ∀ i j, rounds.left i ≤ rounds.entered j

theorem safe_start : (start : Rounds ι).Safe := fun _ _ => le_rfl

variable [DecidableEq ι]

def enter (rounds : Rounds ι) (i : ι) : Rounds ι :=
  { rounds with entered := Function.update rounds.entered i (rounds.entered i + 1) }

def leave (rounds : Rounds ι) (i : ι) : Rounds ι :=
  { rounds with left := Function.update rounds.left i (rounds.left i + 1) }

@[simp] theorem enter_left (rounds : Rounds ι) (i : ι) : (rounds.enter i).left = rounds.left := rfl

@[simp] theorem leave_entered (rounds : Rounds ι) (i : ι) : (rounds.leave i).entered = rounds.entered :=
  rfl

@[simp] theorem enter_entered_self (rounds : Rounds ι) (i : ι) :
    (rounds.enter i).entered i = rounds.entered i + 1 := Function.update_self ..

theorem enter_entered_ne (rounds : Rounds ι) {i j : ι} (hji : j ≠ i) :
    (rounds.enter i).entered j = rounds.entered j := Function.update_of_ne hji ..

@[simp] theorem leave_left_self (rounds : Rounds ι) (i : ι) :
    (rounds.leave i).left i = rounds.left i + 1 := Function.update_self ..

theorem leave_left_ne (rounds : Rounds ι) {i j : ι} (hji : j ≠ i) :
    (rounds.leave i).left j = rounds.left j := Function.update_of_ne hji ..

theorem Safe.enter {rounds : Rounds ι} (h : rounds.Safe) (i : ι) : (rounds.enter i).Safe := by
  intro j k
  by_cases hk : k = i
  · subst hk
    have := h j k
    simp only [enter_left, enter_entered_self]
    omega
  · rw [enter_left, enter_entered_ne rounds hk]
    exact h j k

/-- A party that waits in the round it has entered last. -/
theorem Safe.leave {rounds : Rounds ι} (h : rounds.Safe) {i : ι}
    (hinside : rounds.entered i = rounds.left i + 1) (hleave : rounds.MayLeave i) :
    (rounds.leave i).Safe := by
  intro j k
  by_cases hj : j = i
  · subst hj
    rw [leave_left_self, leave_entered, ← hinside]
    exact hleave k
  · rw [leave_left_ne rounds hj]
    exact h j k

end Rounds

/-- The steps of the barrier. -/
inductive Step [DecidableEq ι] : Rounds ι → Rounds ι → Prop
  | enter (rounds : Rounds ι) (i : ι) (houtside : rounds.entered i = rounds.left i) :
      Step rounds (rounds.enter i)
  | leave (rounds : Rounds ι) (i : ι) (hinside : rounds.entered i = rounds.left i + 1)
      (hleave : rounds.MayLeave i) : Step rounds (rounds.leave i)

theorem Step.safe [DecidableEq ι] {rounds next : Rounds ι} (hstep : Step rounds next)
    (h : rounds.Safe) : next.Safe := by
  cases hstep with
  | enter i houtside => exact h.enter i
  | leave i hinside hleave => exact h.leave hinside hleave

end RoundBarrier
