import Mathlib

/-! The random number generator, `riescue/lib/rand.py`. A generator is the list of the draws it will
still make, and every operation decodes the next draws into a value of its documented range. A result
proved for every `RandNum` therefore holds for every outcome of the random choices. -/

namespace Riescue

/-- `RandNum`: the outcomes still to come. An exhausted generator keeps drawing zero. -/
structure RandNum where
  draws : List ℕ
  deriving Repr

namespace RandNum

def next : RandNum → ℕ × RandNum
  | ⟨[]⟩ => (0, ⟨[]⟩)
  | ⟨draw :: draws⟩ => (draw, ⟨draws⟩)

/-- `random_in_range(lo, hi)`: an integer of `[lo, hi)`. `none` stands for the `ValueError` of an empty
range. -/
def randomInRange (rng : RandNum) (lo hi : ℤ) : Option ℤ × RandNum :=
  if hi ≤ lo then (none, rng)
  else
    let (draw, rng) := rng.next
    (some (lo + (draw : ℤ) % (hi - lo)), rng)

theorem randomInRange_bounds {rng : RandNum} {lo hi value : ℤ}
    (h : (rng.randomInRange lo hi).1 = some value) : lo ≤ value ∧ value < hi := by
  unfold randomInRange at h
  split_ifs at h with hempty
  obtain rfl := Option.some.inj h
  have hpos : 0 < hi - lo := by omega
  have hlow := Int.emod_nonneg (rng.next.1 : ℤ) (by omega : hi - lo ≠ 0)
  have hhigh := Int.emod_lt_of_pos (rng.next.1 : ℤ) hpos
  omega

/-- `percent()`: an integer of `[0, 100)`. -/
def percent (rng : RandNum) : ℕ × RandNum :=
  let (draw, rng) := rng.next
  (draw % 100, rng)

/-- `with_probability_of(percent)`. -/
def withProbabilityOf (rng : RandNum) (percent : ℕ) : Bool × RandNum :=
  let (draw, rng) := rng.percent
  (decide (draw < percent), rng)

/-- `random_entry_in(x)` and `choice(x)`: an entry of the list, `none` when there is no entry. -/
def randomEntryIn {α : Type} (rng : RandNum) (entries : List α) : Option α × RandNum :=
  if entries = [] then (none, rng)
  else
    let (draw, rng) := rng.next
    (entries[draw % entries.length]?, rng)

theorem randomEntryIn_mem {α : Type} {rng : RandNum} {entries : List α} {entry : α}
    (h : (rng.randomEntryIn entries).1 = some entry) : entry ∈ entries := by
  unfold randomEntryIn at h
  split_ifs at h
  exact List.mem_of_getElem? h

theorem randomEntryIn_isSome {α : Type} (rng : RandNum) {entries : List α} (h : entries ≠ []) :
    ∃ entry, (rng.randomEntryIn entries).1 = some entry := by
  unfold randomEntryIn
  rw [if_neg h]
  have hpos : 0 < entries.length := List.length_pos_iff.mpr h
  have hlt : rng.next.1 % entries.length < entries.length := Nat.mod_lt _ hpos
  exact ⟨_, List.getElem?_eq_getElem hlt⟩

/-- Repeatedly move one drawn entry of the remaining list to the result. -/
def shuffleFrom {α : Type} : ℕ → RandNum → List α → List α × RandNum
  | 0, rng, entries => (entries, rng)
  | count + 1, rng, entries =>
      let (draw, rng) := rng.next
      let index := draw % entries.length
      match entries[index]? with
      | none => (entries, rng)
      | some entry =>
          let (rest, rng) := shuffleFrom count rng (entries.eraseIdx index)
          (entry :: rest, rng)

/-- `shuffle(lst)`: some rearrangement of the list. -/
def shuffle {α : Type} (rng : RandNum) (entries : List α) : List α × RandNum :=
  shuffleFrom entries.length rng entries

theorem shuffleFrom_perm {α : Type} (count : ℕ) (rng : RandNum) (entries : List α) :
    (shuffleFrom count rng entries).1.Perm entries := by
  induction count generalizing rng entries with
  | zero => exact List.Perm.refl _
  | succ count ih =>
      simp only [shuffleFrom]
      cases hentry : entries[rng.next.1 % entries.length]? with
      | none => exact List.Perm.refl _
      | some entry =>
          obtain ⟨hlt, rfl⟩ := List.getElem?_eq_some_iff.mp hentry
          exact ((ih _ _).cons _).trans (List.getElem_cons_eraseIdx_perm hlt)

theorem shuffle_perm {α : Type} (rng : RandNum) (entries : List α) :
    (rng.shuffle entries).1.Perm entries :=
  shuffleFrom_perm _ _ _

/-- Every rearrangement is the outcome of some draws, whatever is drawn later. -/
theorem exists_shuffle_append {α : Type} {target entries : List α} (hperm : target.Perm entries) :
    ∃ draws, ∀ later, (RandNum.mk (draws ++ later)).shuffle entries = (target, ⟨later⟩) := by
  induction target generalizing entries with
  | nil =>
      rw [List.nil_perm.mp hperm]
      exact ⟨[], fun _ => rfl⟩
  | cons head tail ih =>
      obtain ⟨index, hindex, hentry⟩ :=
        List.getElem_of_mem (hperm.subset List.mem_cons_self)
      have herase : tail.Perm (entries.eraseIdx index) := by
        have hcons := hperm.trans (List.getElem_cons_eraseIdx_perm hindex).symm
        rw [hentry] at hcons
        exact hcons.cons_inv
      obtain ⟨draws, hdraws⟩ := ih herase
      refine ⟨index :: draws, fun later => ?_⟩
      have hlength : entries.length = (entries.eraseIdx index).length + 1 := by
        rw [List.length_eraseIdx_of_lt hindex]
        omega
      have hget : entries[index % entries.length]? = some head := by
        rw [Nat.mod_eq_of_lt hindex, List.getElem?_eq_getElem hindex, hentry]
      unfold shuffle
      rw [hlength, shuffleFrom]
      simp only [List.cons_append, next, hget]
      rw [Nat.mod_eq_of_lt hindex]
      have htail := hdraws later
      unfold shuffle at htail
      rw [htail]

/-- Every entry of a list is the outcome of some draw. -/
theorem exists_randomEntryIn {α : Type} {entries : List α} {entry : α} (hmem : entry ∈ entries) :
    ∃ draw, ∀ later, (RandNum.mk (draw :: later)).randomEntryIn entries = (some entry, ⟨later⟩) := by
  obtain ⟨index, hindex, hentry⟩ := List.getElem_of_mem hmem
  refine ⟨index, fun later => ?_⟩
  unfold randomEntryIn
  rw [if_neg (List.ne_nil_of_mem hmem)]
  simp only [next, Nat.mod_eq_of_lt hindex]
  rw [List.getElem?_eq_getElem hindex, hentry]

/-- Every integer of a range is the outcome of some draw. -/
theorem exists_randomInRange {lo hi value : ℤ} (hlo : lo ≤ value) (hhi : value < hi) :
    ∃ draw, ∀ later, (RandNum.mk (draw :: later)).randomInRange lo hi = (some value, ⟨later⟩) := by
  refine ⟨(value - lo).toNat, fun later => ?_⟩
  have hmod : ((value - lo).toNat : ℤ) % (hi - lo) = value - lo := by
    rw [Int.toNat_of_nonneg (by omega)]
    exact Int.emod_eq_of_lt (by omega) (by omega)
  have hvalue : lo + (value - lo) = value := by omega
  unfold randomInRange
  rw [if_neg (by omega)]
  simp only [next, hmod, hvalue]

/-- The walk over the weights in the order of the dictionary. -/
def pickWeighted {α : Type} : List (α × ℕ) → ℕ → Option α
  | [], _ => none
  | (key, weight) :: rest, point => if point < weight then some key else pickWeighted rest (point - weight)

/-- `random_choice_weighted(x)`: a key, drawn by the weights. `none` stands for the `ValueError` of an empty
dictionary and of weights that are all zero. -/
def randomChoiceWeighted {α : Type} (rng : RandNum) (x : List (α × ℕ)) : Option α × RandNum :=
  let total := (x.map Prod.snd).sum
  if total = 0 then (none, rng)
  else
    let (draw, rng) := rng.next
    (pickWeighted x (draw % total), rng)

theorem pickWeighted_mem {α : Type} {x : List (α × ℕ)} {point : ℕ} {key : α}
    (h : pickWeighted x point = some key) : ∃ weight, 0 < weight ∧ (key, weight) ∈ x := by
  induction x generalizing point with
  | nil => cases h
  | cons entry rest ih =>
      obtain ⟨first, weight⟩ := entry
      rw [pickWeighted] at h
      split_ifs at h with hpoint
      · obtain rfl := Option.some.inj h
        exact ⟨weight, by omega, List.mem_cons_self⟩
      · obtain ⟨weight', hpos, hmem⟩ := ih h
        exact ⟨weight', hpos, List.mem_cons_of_mem _ hmem⟩

theorem pickWeighted_isSome {α : Type} {x : List (α × ℕ)} {point : ℕ} (h : point < (x.map Prod.snd).sum) :
    ∃ key, pickWeighted x point = some key := by
  induction x generalizing point with
  | nil => simp at h
  | cons entry rest ih =>
      obtain ⟨first, weight⟩ := entry
      rw [List.map_cons, List.sum_cons] at h
      rw [pickWeighted]
      split_ifs with hpoint
      · exact ⟨first, rfl⟩
      · exact ih (by omega)

/-- Every key of positive weight is at some point of the walk. -/
theorem exists_pickWeighted {α : Type} {x : List (α × ℕ)} {key : α} {weight : ℕ} (hpos : 0 < weight)
    (hmem : (key, weight) ∈ x) : ∃ point, point < (x.map Prod.snd).sum ∧ pickWeighted x point = some key := by
  induction x with
  | nil => cases hmem
  | cons entry rest ih =>
      obtain ⟨first, firstWeight⟩ := entry
      rcases List.mem_cons.mp hmem with heq | hmem
      · obtain ⟨rfl, rfl⟩ := Prod.mk.inj heq
        refine ⟨0, ?_, by rw [pickWeighted, if_pos hpos]⟩
        rw [List.map_cons, List.sum_cons]
        omega
      · obtain ⟨point, hpoint, hpick⟩ := ih hmem
        refine ⟨firstWeight + point, ?_, ?_⟩
        · rw [List.map_cons, List.sum_cons]
          omega
        · rw [pickWeighted, if_neg (by omega), Nat.add_sub_cancel_left, hpick]

theorem randomChoiceWeighted_mem {α : Type} {rng : RandNum} {x : List (α × ℕ)} {key : α}
    (h : (rng.randomChoiceWeighted x).1 = some key) : ∃ weight, 0 < weight ∧ (key, weight) ∈ x := by
  unfold randomChoiceWeighted at h
  dsimp only at h
  split_ifs at h
  exact pickWeighted_mem h

theorem randomChoiceWeighted_isSome {α : Type} (rng : RandNum) {x : List (α × ℕ)} {key : α} {weight : ℕ}
    (hpos : 0 < weight) (hmem : (key, weight) ∈ x) : ∃ chosen, (rng.randomChoiceWeighted x).1 = some chosen := by
  obtain ⟨point, hpoint, -⟩ := exists_pickWeighted hpos hmem
  unfold randomChoiceWeighted
  dsimp only
  rw [if_neg (by omega)]
  exact pickWeighted_isSome (Nat.mod_lt _ (by omega))

/-- Every key of positive weight is the outcome of some draw. -/
theorem exists_randomChoiceWeighted {α : Type} {x : List (α × ℕ)} {key : α} {weight : ℕ} (hpos : 0 < weight)
    (hmem : (key, weight) ∈ x) :
    ∃ draw, ∀ later, (RandNum.mk (draw :: later)).randomChoiceWeighted x = (some key, ⟨later⟩) := by
  obtain ⟨point, hpoint, hpick⟩ := exists_pickWeighted hpos hmem
  refine ⟨point, fun later => ?_⟩
  unfold randomChoiceWeighted
  dsimp only
  rw [if_neg (by omega)]
  simp only [next, Nat.mod_eq_of_lt hpoint, hpick]

end RandNum
end Riescue
