import Mathlib.Algebra.BigOperators.Group.List.Basic
import Mathlib.Algebra.Group.Action.Defs
import Mathlib.Data.Nat.Digits.Defs
import Mathlib.Tactic.Common

/-! Numbers as lists of digits, most significant digit first. -/

namespace Digits

/-- The number that a list of digits stands for. -/
def value (base : ℕ) (digits : List ℕ) : ℕ := Nat.ofDigits base digits.reverse

@[simp] theorem value_nil (base : ℕ) : value base [] = 0 := rfl

theorem value_append (base : ℕ) (front back : List ℕ) :
    value base (front ++ back) = value base front * base ^ back.length + value base back := by
  rw [value, List.reverse_append, Nat.ofDigits_append, List.length_reverse, value, value]
  ring

@[simp] theorem value_singleton (base digit : ℕ) : value base [digit] = digit := by
  simp [value]

theorem value_cons (base digit : ℕ) (digits : List ℕ) :
    value base (digit :: digits) = digit * base ^ digits.length + value base digits := by
  have h := value_append base [digit] digits
  rwa [value_singleton] at h

theorem value_replicate_zero (base count : ℕ) : value base (List.replicate count 0) = 0 := by
  induction count with
  | zero => rfl
  | succ count ih => rw [List.replicate_succ, value_cons, ih, Nat.zero_mul]

/-- Leading zeros do not count. -/
theorem value_pad (base count : ℕ) (digits : List ℕ) : value base (List.replicate count 0 ++ digits) = value base digits := by
  rw [value_append, value_replicate_zero, Nat.zero_mul, Nat.zero_add]

theorem value_lt {base : ℕ} (hbase : 1 < base) {digits : List ℕ} (hdigits : ∀ digit ∈ digits, digit < base) :
    value base digits < base ^ digits.length := by
  have h := Nat.ofDigits_lt_base_pow_length (l := digits.reverse) hbase fun digit hdigit =>
    hdigits digit (List.mem_reverse.mp hdigit)
  rwa [List.length_reverse] at h

/-- A stretch of the digits is a stretch of the number. -/
theorem value_slice {base : ℕ} (hbase : 1 < base) {front middle back : List ℕ}
    (hdigits : ∀ digit ∈ front ++ middle ++ back, digit < base) :
    value base (front ++ middle ++ back) / base ^ back.length % base ^ middle.length = value base middle := by
  rw [List.forall_mem_append, List.forall_mem_append] at hdigits
  obtain ⟨⟨-, hmiddle⟩, hback⟩ := hdigits
  have hpos : 0 < base ^ back.length := Nat.pow_pos (by omega)
  rw [value_append, Nat.add_comm, Nat.add_mul_div_right _ _ hpos, Nat.div_eq_of_lt (value_lt hbase hback), Nat.zero_add,
    value_append, Nat.add_comm, Nat.add_mul_mod_self_right, Nat.mod_eq_of_lt (value_lt hbase hmiddle)]

/-- The lowest `count` digits of a number, most significant first. -/
def lowest (base : ℕ) : ℕ → ℕ → List ℕ
  | 0, _ => []
  | count + 1, number => number / base ^ count % base :: lowest base count number

theorem length_lowest (base count number : ℕ) : (lowest base count number).length = count := by
  induction count with
  | zero => rfl
  | succ count ih => rw [lowest, List.length_cons, ih]

/-- The digits of a number give it back. -/
theorem value_lowest {base : ℕ} (count number : ℕ) : value base (lowest base count number) = number % base ^ count := by
  induction count with
  | zero => rw [pow_zero, Nat.mod_one]; rfl
  | succ count ih =>
      rw [lowest, value_cons, length_lowest, ih, pow_succ, Nat.mod_mul, Nat.mul_comm, Nat.add_comm]

end Digits
