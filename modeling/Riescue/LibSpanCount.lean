import Riescue.LibSpan
import Mathlib.Data.Int.Interval

/-! Counting the integers that a set of spans leaves uncovered. Inserting a span takes its integers away; it
takes away as many as it is long exactly when none of them was covered before. -/

namespace Spans

instance (b : ℤ) (set : SpanSet) : Decidable (b ∈ set.covered) :=
  inferInstanceAs (Decidable (∃ span ∈ set.spans, b ∈ span))

/-- The integers from `lo` to `hi`, with the computable order of `ℤ`. -/
def between (lo hi : ℤ) : Finset ℤ := Int.instLocallyFiniteOrder.finsetIcc lo hi

theorem mem_between {lo hi b : ℤ} : b ∈ between lo hi ↔ lo ≤ b ∧ b ≤ hi := Finset.mem_Icc

theorem card_between {lo hi : ℤ} (h : lo ≤ hi + 1) : ((between lo hi).card : ℤ) = hi - lo + 1 := by
  have hcard : (between lo hi).card = (hi + 1 - lo).toNat := Int.card_Icc lo hi
  rw [hcard, Int.toNat_of_nonneg (by omega)]
  omega

namespace Span

/-- The integers of the span. -/
def ints (span : Span) : Finset ℤ := between span.lo span.hi

@[simp] theorem mem_ints {b : ℤ} {span : Span} : b ∈ span.ints ↔ b ∈ span := mem_between

theorem card_ints (span : Span) : (span.ints.card : ℤ) = span.hi - span.lo + 1 :=
  card_between (by have hle := span.le; omega)

end Span

namespace SpanSet

/-- The integers of a range that no span of the set covers. -/
def uncovered (set : SpanSet) (within : Finset ℤ) : Finset ℤ := within.filter (· ∉ set.covered)

theorem mem_uncovered {set : SpanSet} {within : Finset ℤ} {b : ℤ} :
    b ∈ set.uncovered within ↔ b ∈ within ∧ b ∉ set.covered := Finset.mem_filter

theorem uncovered_insert (set : SpanSet) (span : Span) (within : Finset ℤ) :
    (set.insert span).uncovered within = set.uncovered within \ span.ints := by
  ext b
  simp only [mem_uncovered, covered_insert, Set.mem_union, Set.mem_ofPred_eq, Finset.mem_sdiff, Span.mem_ints]
  tauto

theorem uncovered_insert_subset (set : SpanSet) (span : Span) (within : Finset ℤ) :
    (set.insert span).uncovered within ⊆ set.uncovered within := by
  rw [uncovered_insert]
  exact Finset.sdiff_subset

/-- A span of uncovered integers takes away as many as it is long. -/
theorem card_uncovered_insert {set : SpanSet} {span : Span} {within : Finset ℤ}
    (hspan : span.ints ⊆ set.uncovered within) :
    (((set.insert span).uncovered within).card : ℤ) =
      (set.uncovered within).card - (span.hi - span.lo + 1) := by
  have hcard := Finset.card_sdiff_add_card_eq_card hspan
  have hlength := span.card_ints
  rw [uncovered_insert]
  omega

end SpanSet
end Spans
