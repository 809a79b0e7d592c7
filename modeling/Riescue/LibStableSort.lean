import Mathlib.Data.List.Sort
import Mathlib.Order.Basic
import Mathlib.Tactic.Common

/-! Sorting by a key. `sortBy` is the insertion sort of Mathlib on the order of the keys: elements of
equal keys keep their order, so sorting part of a list beforehand changes nothing. -/

namespace StableSort
variable {α κ : Type} [LinearOrder κ] {key : α → κ}

/-- The stable sort by a key, smallest key first. -/
def sortBy (key : α → κ) (entries : List α) : List α :=
  entries.insertionSort fun left right => key left ≤ key right

/-- Insertion into the list in front of the elements of the same key. -/
abbrev insertBy (key : α → κ) (entry : α) (entries : List α) : List α :=
  entries.orderedInsert (fun left right => key left ≤ key right) entry

theorem sortBy_perm (key : α → κ) (entries : List α) : (sortBy key entries).Perm entries :=
  List.perm_insertionSort _ _

theorem sortBy_sorted (key : α → κ) (entries : List α) :
    (sortBy key entries).Pairwise fun left right => key left ≤ key right := by
  have htotal : Std.Total fun left right : α => key left ≤ key right :=
    ⟨fun left right => le_total (key left) (key right)⟩
  have htrans : IsTrans α fun left right => key left ≤ key right := ⟨fun _ _ _ => le_trans⟩
  exact List.pairwise_insertionSort _ _

@[simp] theorem mem_sortBy {entry : α} {entries : List α} :
    entry ∈ sortBy key entries ↔ entry ∈ entries := (sortBy_perm key entries).mem_iff

theorem sortBy_eq_nil {entries : List α} : sortBy key entries = [] ↔ entries = [] := by
  constructor
  · intro h
    exact List.nil_perm.mp (h ▸ sortBy_perm key entries)
  · rintro rfl
    rfl

theorem sortBy_of_sorted {entries : List α}
    (hsorted : entries.Pairwise fun left right => key left ≤ key right) :
    sortBy key entries = entries :=
  List.Pairwise.insertionSort_eq hsorted

/-- Sorting images is sorting by the key of the image. -/
theorem sortBy_map {β : Type} (f : β → α) (entries : List β) :
    sortBy key (entries.map f) = (sortBy (fun entry => key (f entry)) entries).map f := by
  have hsort := List.map_insertionSort (fun left right : β => key (f left) ≤ key (f right))
    (fun left right : α => key left ≤ key right) f entries fun _ _ _ _ => Iff.rfl
  exact hsort.symm

/-- Only the keys of the elements count. -/
theorem sortBy_congr {key' : α → κ} {entries : List α} (h : ∀ entry ∈ entries, key entry = key' entry) :
    sortBy key entries = sortBy key' entries := by
  have hinsert : ∀ (entry : α) (sorted : List α), key entry = key' entry → (∀ other ∈ sorted, key other = key' other) →
      insertBy key entry sorted = insertBy key' entry sorted := by
    intro entry sorted hentry hsorted
    induction sorted with
    | nil => rfl
    | cons head tail ih =>
        obtain ⟨hhead, htail⟩ := List.forall_mem_cons.mp hsorted
        have hrest : tail.orderedInsert (fun left right => key left ≤ key right) entry =
            tail.orderedInsert (fun left right => key' left ≤ key' right) entry := ih htail
        rw [insertBy, insertBy, List.orderedInsert_cons, List.orderedInsert_cons, hentry, hhead, hrest]
  induction entries with
  | nil => rfl
  | cons entry rest ih =>
      obtain ⟨hentry, hrest⟩ := List.forall_mem_cons.mp h
      calc sortBy key (entry :: rest) = insertBy key entry (sortBy key rest) := rfl
        _ = insertBy key' entry (sortBy key rest) :=
            hinsert entry _ hentry fun other hother => hrest other (mem_sortBy.mp hother)
        _ = insertBy key' entry (sortBy key' rest) := by rw [ih hrest]

/-- Insertions of different keys commute. -/
theorem insertBy_comm {left right : α} (hlt : key left < key right) (entries : List α) :
    insertBy key left (insertBy key right entries) =
      insertBy key right (insertBy key left entries) := by
  induction entries with
  | nil => simp [insertBy, hlt.le, hlt.not_ge]
  | cons head tail ih =>
      simp only [insertBy, List.orderedInsert] at ih ⊢
      by_cases hright : key right ≤ key head
      · have hleft := hlt.le.trans hright
        simp [hright, hleft, hlt.le, hlt.not_ge]
      · by_cases hleft : key left ≤ key head
        · simp [hright, hleft, hlt.not_ge]
        · simp only [if_neg hright, List.orderedInsert_cons, if_neg hleft]
          exact congrArg (List.cons head) ih

/-- Sorting in two stages: insert the first part into the sorted second part. -/
theorem sortBy_append (front back : List α) :
    sortBy key (front ++ back) = front.foldr (insertBy key) (sortBy key back) := by
  induction front with
  | nil => rfl
  | cons entry front ih => exact congrArg (insertBy key entry) ih

theorem foldr_insertBy (entry : α) (middle start : List α) :
    (insertBy key entry middle).foldr (insertBy key) start =
      insertBy key entry (middle.foldr (insertBy key) start) := by
  induction middle with
  | nil => rfl
  | cons head tail ih =>
      by_cases hle : key entry ≤ key head
      · rw [insertBy, List.orderedInsert_cons, if_pos hle]
        rfl
      · rw [insertBy, List.orderedInsert_cons, if_neg hle, List.foldr_cons, ih, List.foldr_cons]
        exact insertBy_comm (not_le.mp hle) _

/-- Sorting the front of a list beforehand does not change the sorted list. -/
theorem sortBy_sortBy_append (front back : List α) :
    sortBy key (sortBy key front ++ back) = sortBy key (front ++ back) := by
  rw [sortBy_append, sortBy_append]
  induction front with
  | nil => rfl
  | cons entry front ih =>
      rw [List.foldr_cons, ← ih]
      exact foldr_insertBy entry (sortBy key front) (sortBy key back)

theorem sortBy_append_congr {front front' : List α} (h : sortBy key front = sortBy key front')
    (back : List α) : sortBy key (front ++ back) = sortBy key (front' ++ back) := by
  rw [← sortBy_sortBy_append front, h, sortBy_sortBy_append]

end StableSort
