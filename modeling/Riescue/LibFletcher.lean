import Mathlib.Algebra.BigOperators.Group.List.Basic
import Mathlib.Data.Nat.ModEq
import Mathlib.Tactic.Common
import Mathlib.Tactic.Ring

/-! Checksums with end-around carry. Addition on words of `w` bits with the carry added at the bottom is addition modulo
`2 ^ w - 1`, where zero and the word of ones are the same number. Which of the two a sum is depends only on whether
everything added was zero, so sums are known by their residues and their zeros. -/

namespace Fletcher
variable {w : ℕ}

/-- The carry out of an addition, as the comparison of the sum with a summand finds it. -/
def carry (x y : BitVec w) : BitVec w := if x + y < y then 1#w else 0#w

/-- Addition with end-around carry. -/
def endAround (x y : BitVec w) : BitVec w := x + y + carry x y

theorem toNat_carry (hw : 0 < w) (x y : BitVec w) : (carry x y).toNat = if x.toNat + y.toNat < 2 ^ w then 0 else 1 := by
  have hx := x.isLt
  have hy := y.isLt
  have hone : (1#w).toNat = 1 := by
    rw [BitVec.toNat_ofNat, Nat.mod_eq_of_lt (Nat.one_lt_two_pow hw.ne')]
  unfold carry
  by_cases hlt : x.toNat + y.toNat < 2 ^ w
  · have hsum : (x + y).toNat = x.toNat + y.toNat := by rw [BitVec.toNat_add, Nat.mod_eq_of_lt hlt]
    rw [if_pos hlt, if_neg (by rw [BitVec.lt_def, hsum]; omega)]
    rfl
  · have hsum : (x + y).toNat = x.toNat + y.toNat - 2 ^ w := by
      rw [BitVec.toNat_add, Nat.mod_eq_sub_mod (by omega), Nat.mod_eq_of_lt (by omega)]
    rw [if_neg hlt, if_pos (by rw [BitVec.lt_def, hsum]; omega), hone]

/-- Adding the carry does not overflow in turn. -/
theorem carry_not_lost (hw : 0 < w) (x y : BitVec w) : (x + y).toNat + (carry x y).toNat < 2 ^ w := by
  have hx := x.isLt
  have hy := y.isLt
  rw [toNat_carry hw, BitVec.toNat_add]
  split_ifs with hlt
  · rw [Nat.mod_eq_of_lt hlt]
    exact hlt
  · rw [Nat.mod_eq_sub_mod (by omega), Nat.mod_eq_of_lt (by omega)]
    omega

theorem toNat_endAround (hw : 0 < w) (x y : BitVec w) : (endAround x y).toNat =
    if x.toNat + y.toNat < 2 ^ w then x.toNat + y.toNat else x.toNat + y.toNat - (2 ^ w - 1) := by
  have hx := x.isLt
  have hy := y.isLt
  have hpos := Nat.two_pow_pos w
  rw [endAround, BitVec.toNat_add, Nat.mod_eq_of_lt (carry_not_lost hw x y), toNat_carry hw, BitVec.toNat_add]
  split_ifs with hlt
  · rw [Nat.mod_eq_of_lt hlt, Nat.add_zero]
  · rw [Nat.mod_eq_sub_mod (by omega), Nat.mod_eq_of_lt (by omega)]
    omega

theorem endAround_modEq (hw : 0 < w) (x y : BitVec w) :
    (endAround x y).toNat ≡ x.toNat + y.toNat [MOD 2 ^ w - 1] := by
  rw [toNat_endAround hw]
  split_ifs with hlt
  · rfl
  · exact (Nat.modEq_iff_dvd' (Nat.sub_le _ _)).mpr (by
      rw [Nat.sub_sub_self (by omega)])

theorem endAround_eq_zero (hw : 0 < w) {x y : BitVec w} : endAround x y = 0#w ↔ x = 0#w ∧ y = 0#w := by
  have hx := x.isLt
  have hy := y.isLt
  have hpos : 1 < 2 ^ w := Nat.one_lt_two_pow hw.ne'
  have hzero : ∀ z : BitVec w, z = 0#w ↔ z.toNat = 0 := fun z => BitVec.toNat_inj.symm
  rw [hzero, hzero, hzero, toNat_endAround hw]
  split_ifs <;> omega

/-- Two words of the same residue are equal when both or none of them is zero. -/
theorem eq_of_modEq {x y : BitVec w} (hmod : x.toNat ≡ y.toNat [MOD 2 ^ w - 1]) (hzero : x = 0#w ↔ y = 0#w) : x = y := by
  have hx := x.isLt
  have hy := y.isLt
  rw [← BitVec.toNat_inj, ← BitVec.toNat_inj] at hzero
  apply BitVec.eq_of_toNat_eq
  rw [BitVec.toNat_zero] at hzero
  -- a residue has one representative, but for the two of zero
  wlog hle : x.toNat ≤ y.toNat generalizing x y
  · exact (this hmod.symm hzero.symm hy hx (by omega)).symm
  · obtain ⟨k, hk⟩ := (Nat.modEq_iff_dvd' hle).mp hmod
    rcases k with _ | _ | k
    · omega
    · omega
    · have hbig : (2 ^ w - 1) * (k + 1 + 1) = (2 ^ w - 1) * k + 2 * (2 ^ w - 1) := by ring
      omega

/-! ### The two sums -/

/-- The sum, and the sum of the sums. -/
def update (sums : BitVec w × BitVec w) (value : BitVec w) : BitVec w × BitVec w :=
  (endAround sums.1 value, endAround sums.2 (endAround sums.1 value))

def checksum (values : List (BitVec w)) : BitVec w × BitVec w := values.foldl update (0#w, 0#w)

/-- The first Fletcher sum: the values. -/
def sum1 (values : List (BitVec w)) : ℕ := (values.map BitVec.toNat).sum

/-- The second Fletcher sum: every value as often as it is part of a first sum. -/
def sum2 : List (BitVec w) → ℕ
  | [] => 0
  | value :: values => (values.length + 1) * value.toNat + sum2 values

theorem foldl_update_modEq (hw : 0 < w) (values : List (BitVec w)) (sums : BitVec w × BitVec w) :
    (values.foldl update sums).1.toNat ≡ sums.1.toNat + sum1 values [MOD 2 ^ w - 1] ∧
      (values.foldl update sums).2.toNat ≡ sums.2.toNat + values.length * sums.1.toNat + sum2 values
        [MOD 2 ^ w - 1] := by
  induction values generalizing sums with
  | nil => simp [sum1, sum2, Nat.ModEq.refl]
  | cons value values ih =>
      obtain ⟨hfirst, hsecond⟩ := ih (update sums value)
      have hone : (endAround sums.1 value).toNat ≡ sums.1.toNat + value.toNat [MOD 2 ^ w - 1] := endAround_modEq hw _ _
      constructor
      · refine hfirst.trans (((hone.add_right _)).trans ?_)
        rw [sum1, sum1, List.map_cons, List.sum_cons, Nat.add_assoc]
      · refine hsecond.trans ?_
        have htwo : (endAround sums.2 (endAround sums.1 value)).toNat ≡
            sums.2.toNat + (sums.1.toNat + value.toNat) [MOD 2 ^ w - 1] :=
          (endAround_modEq hw _ _).trans (hone.add_left _)
        have hregroup : sums.2.toNat + (value :: values).length * sums.1.toNat + sum2 (value :: values) =
            sums.2.toNat + (sums.1.toNat + value.toNat) + values.length * (sums.1.toNat + value.toNat) +
              sum2 values := by
          rw [sum2, List.length_cons]
          ring
        rw [hregroup]
        exact (htwo.add (hone.mul_left values.length)).add_right (sum2 values)

/-- The sums are congruent to the Fletcher sums of the values. -/
theorem checksum_modEq (hw : 0 < w) (values : List (BitVec w)) :
    (checksum values).1.toNat ≡ sum1 values [MOD 2 ^ w - 1] ∧ (checksum values).2.toNat ≡ sum2 values [MOD 2 ^ w - 1] := by
  have h := foldl_update_modEq hw values (0#w, 0#w)
  simpa [checksum] using h

theorem foldl_update_eq_zero (hw : 0 < w) (values : List (BitVec w)) (sums : BitVec w × BitVec w) :
    ((values.foldl update sums).1 = 0#w ↔ sums.1 = 0#w ∧ ∀ value ∈ values, value = 0#w) ∧
      ((values.foldl update sums).2 = 0#w ↔
        sums.2 = 0#w ∧ (values ≠ [] → sums.1 = 0#w) ∧ ∀ value ∈ values, value = 0#w) := by
  induction values generalizing sums with
  | nil => simp
  | cons value values ih =>
      obtain ⟨hfirst, hsecond⟩ := ih (update sums value)
      rw [List.foldl_cons, hfirst, hsecond]
      simp only [update, endAround_eq_zero hw, List.forall_mem_cons, ne_eq, List.cons_ne_nil, not_false_eq_true,
        true_imp_iff]
      tauto

/-- A sum is zero only when all values are. -/
theorem checksum_eq_zero (hw : 0 < w) (values : List (BitVec w)) :
    ((checksum values).1 = 0#w ↔ ∀ value ∈ values, value = 0#w) ∧
      ((checksum values).2 = 0#w ↔ ∀ value ∈ values, value = 0#w) := by
  have h := foldl_update_eq_zero hw values (0#w, 0#w)
  simpa [checksum] using h

/-! ### Detection -/

/-- One word is zero and the other one is made of ones. -/
def BothZeros (x y : BitVec w) : Prop := (x = 0#w ∧ y = BitVec.allOnes w) ∨ (x = BitVec.allOnes w ∧ y = 0#w)

theorem modEq_iff {x y : BitVec w} (hne : x ≠ y) : x.toNat ≡ y.toNat [MOD 2 ^ w - 1] ↔ BothZeros x y := by
  have hones : (BitVec.allOnes w).toNat = 2 ^ w - 1 := BitVec.toNat_allOnes
  constructor
  · intro hmod
    have hzero : ¬(x = 0#w ↔ y = 0#w) := fun hzero => hne (eq_of_modEq hmod hzero)
    have hother : ∀ {z : BitVec w}, z ≠ 0#w → z.toNat ≡ 0 [MOD 2 ^ w - 1] → z = BitVec.allOnes w := by
      intro z hz hmod
      obtain ⟨k, hk⟩ := (Nat.modEq_zero_iff_dvd).mp hmod
      have hlt := z.isLt
      have hpos : z.toNat ≠ 0 := fun h => hz (BitVec.eq_of_toNat_eq h)
      apply BitVec.eq_of_toNat_eq
      rw [hones]
      rcases k with _ | _ | k
      · omega
      · omega
      · have hbig : (2 ^ w - 1) * (k + 1 + 1) = (2 ^ w - 1) * k + 2 * (2 ^ w - 1) := by ring
        omega
    by_cases hx : x = 0#w
    · subst hx
      exact .inl ⟨rfl, hother (fun hy => hzero (by simp [hy])) hmod.symm⟩
    · have hy : y = 0#w := by tauto
      subst hy
      exact .inr ⟨hother hx hmod, rfl⟩
  · rintro (⟨rfl, rfl⟩ | ⟨rfl, rfl⟩)
    · rw [hones]
      exact (Nat.modEq_zero_iff_dvd.mpr (dvd_refl _)).symm
    · rw [hones]
      exact Nat.modEq_zero_iff_dvd.mpr (dvd_refl _)

theorem sum1_append (front back : List (BitVec w)) : sum1 (front ++ back) = sum1 front + sum1 back := by
  rw [sum1, List.map_append, List.sum_append]
  rfl

theorem sum2_append (front back : List (BitVec w)) :
    sum2 (front ++ back) = sum2 front + back.length * sum1 front + sum2 back := by
  induction front with
  | nil => simp [sum1, sum2]
  | cons value front ih =>
      rw [List.cons_append, sum2, ih, sum2, List.length_append, sum1, sum1, List.map_cons, List.sum_cons]
      ring

/-- Replacing one value changes the sums, unless it puts one zero for the other and another value is not zero. -/
theorem checksum_replace (hw : 0 < w) (front back : List (BitVec w)) {x y : BitVec w} (hne : x ≠ y) :
    checksum (front ++ x :: back) ≠ checksum (front ++ y :: back) ↔
      ¬(BothZeros x y ∧ ∃ value ∈ front ++ back, value ≠ 0#w) := by
  obtain ⟨hx1, hx2⟩ := checksum_modEq hw (front ++ x :: back)
  obtain ⟨hy1, hy2⟩ := checksum_modEq hw (front ++ y :: back)
  obtain ⟨hxz1, hxz2⟩ := checksum_eq_zero hw (front ++ x :: back)
  obtain ⟨hyz1, hyz2⟩ := checksum_eq_zero hw (front ++ y :: back)
  have hsum1 : ∀ z : BitVec w, sum1 (front ++ z :: back) = z.toNat + (sum1 front + sum1 back) := by
    intro z
    rw [sum1_append, sum1, sum1, sum1, List.map_cons, List.sum_cons]
    ring
  have hsum2 : ∀ z : BitVec w, sum2 (front ++ z :: back) =
      (back.length + 1) * z.toNat + (sum2 front + (back.length + 1) * sum1 front + sum2 back) := by
    intro z
    rw [sum2_append, sum2, List.length_cons]
    ring
  rw [not_iff_not]
  constructor
  · intro heq
    have hmod : x.toNat ≡ y.toNat [MOD 2 ^ w - 1] := by
      have hsums := hx1.symm.trans (heq ▸ hy1)
      rw [hsum1, hsum1] at hsums
      exact hsums.add_right_cancel'
    refine ⟨(modEq_iff hne).mp hmod, ?_⟩
    by_contra hall
    push Not at hall
    -- all other values are zero, so one of the sums is and the other one is not
    have hzero : ∀ z : BitVec w, (checksum (front ++ z :: back)).1 = 0#w ↔ z = 0#w := by
      intro z
      rw [(checksum_eq_zero hw _).1]
      refine ⟨fun h => h z (by simp), ?_⟩
      rintro rfl value hvalue
      rcases List.mem_append.mp hvalue with hvalue | hvalue
      · exact hall value (List.mem_append_left _ hvalue)
      · rcases List.mem_cons.mp hvalue with rfl | hvalue
        · rfl
        · exact hall value (List.mem_append_right _ hvalue)
    exact hne (eq_of_modEq hmod ((hzero x).symm.trans (heq ▸ hzero y)))
  · rintro ⟨hzeros, other, hother, hnonzero⟩
    have hmod := (modEq_iff hne).mpr hzeros
    have hmem : ∀ z : BitVec w, other ∈ front ++ z :: back := by
      intro z
      rcases List.mem_append.mp hother with hother | hother
      · exact List.mem_append_left _ hother
      · exact List.mem_append_right _ (List.mem_cons_of_mem z hother)
    have hnot : ∀ z : BitVec w, ¬∀ value ∈ front ++ z :: back, value = 0#w := fun z h => hnonzero (h other (hmem z))
    refine Prod.ext (eq_of_modEq ?_ ?_) (eq_of_modEq ?_ ?_)
    · refine hx1.trans (Nat.ModEq.trans ?_ hy1.symm)
      rw [hsum1, hsum1]
      exact hmod.add_right _
    · rw [hxz1, hyz1]
      exact iff_of_false (hnot x) (hnot y)
    · refine hx2.trans (Nat.ModEq.trans ?_ hy2.symm)
      rw [hsum2, hsum2]
      exact (hmod.mul_left _).add_right _
    · rw [hxz2, hyz2]
      exact iff_of_false (hnot x) (hnot y)

end Fletcher
