import Mathlib.Data.Set.Lattice
import Mathlib.Data.List.Pairwise
import Mathlib.Tactic.Common

/-! Finite sets of closed integer spans, kept as strictly increasing lists. A span is never empty and
a set never holds a span twice, so a set of spans is determined by its members. `covered` is the set of
integers under some span: the insertion and overlap queries are described through it alone. -/

namespace Spans

/-- A non-empty closed span of integers. -/
structure Span where
  lo : ℤ
  hi : ℤ
  le : lo ≤ hi
  deriving DecidableEq, Repr

instance : Membership ℤ Span := ⟨fun span b => span.lo ≤ b ∧ b ≤ span.hi⟩

namespace Span

theorem mem_iff {b : ℤ} {span : Span} : b ∈ span ↔ span.lo ≤ b ∧ b ≤ span.hi := Iff.rfl

instance (b : ℤ) (span : Span) : Decidable (b ∈ span) :=
  inferInstanceAs (Decidable (span.lo ≤ b ∧ b ≤ span.hi))

theorem lo_mem (span : Span) : span.lo ∈ span := ⟨le_rfl, span.le⟩

theorem hi_mem (span : Span) : span.hi ∈ span := ⟨span.le, le_rfl⟩

/-- Lexicographic order on the two ends. -/
def Before (left right : Span) : Prop :=
  left.lo < right.lo ∨ (left.lo = right.lo ∧ left.hi < right.hi)

instance (left right : Span) : Decidable (Before left right) :=
  inferInstanceAs (Decidable (_ ∨ _))

theorem before_trans {a b c : Span} (hab : Before a b) (hbc : Before b c) : Before a c := by
  unfold Before at *
  omega

theorem lo_le_of_before {a b : Span} (h : Before a b) : a.lo ≤ b.lo := by
  unfold Before at h
  omega

theorem before_of_not {a b : Span} (hne : a ≠ b) (h : ¬Before a b) : Before b a := by
  cases a with
  | mk alo ahi ale =>
      cases b with
      | mk blo bhi ble =>
          simp only [ne_eq, mk.injEq, not_and] at hne
          unfold Before at *
          simp only at h ⊢
          by_cases hlo : alo = blo
          · have := hne hlo
            omega
          · omega

/-- The two spans share an integer. -/
def Meets (span : Span) (lo hi : ℤ) : Prop := span.lo ≤ hi ∧ lo ≤ span.hi ∧ lo ≤ hi

instance (span : Span) (lo hi : ℤ) : Decidable (Meets span lo hi) :=
  inferInstanceAs (Decidable (_ ∧ _ ∧ _))

theorem meets_iff {span : Span} {lo hi : ℤ} :
    span.Meets lo hi ↔ ∃ b ∈ span, lo ≤ b ∧ b ≤ hi := by
  have hle := span.le
  constructor
  · rintro ⟨hspan, hlo, horder⟩
    by_cases h : span.lo ≤ lo
    · exact ⟨lo, ⟨h, hlo⟩, le_rfl, horder⟩
    · exact ⟨span.lo, span.lo_mem, by omega, hspan⟩
  · rintro ⟨b, ⟨hb, hb'⟩, hlo, hhi⟩
    exact ⟨by omega, by omega, by omega⟩

end Span

/-- Insertion that keeps the list strictly increasing and drops a duplicate. -/
def insertSorted (span : Span) : List Span → List Span
  | [] => [span]
  | head :: tail =>
      if span = head then head :: tail
      else if span.Before head then span :: head :: tail
      else head :: insertSorted span tail

theorem mem_insertSorted {span other : Span} {spans : List Span} :
    other ∈ insertSorted span spans ↔ other = span ∨ other ∈ spans := by
  induction spans with
  | nil => simp [insertSorted]
  | cons head tail ih =>
      rw [insertSorted]
      split_ifs with heq hbefore
      · subst heq
        simp
      · simp
      · simp only [List.mem_cons, ih]
        tauto

theorem pairwise_insertSorted {span : Span} {spans : List Span}
    (hsorted : spans.Pairwise Span.Before) : (insertSorted span spans).Pairwise Span.Before := by
  induction spans with
  | nil => simp [insertSorted]
  | cons head tail ih =>
      obtain ⟨hhead, htail⟩ := List.pairwise_cons.mp hsorted
      rw [insertSorted]
      split_ifs with heq hbefore
      · exact hsorted
      · refine List.pairwise_cons.mpr ⟨?_, hsorted⟩
        intro other hother
        rcases List.mem_cons.mp hother with rfl | hother
        · exact hbefore
        · exact Span.before_trans hbefore (hhead other hother)
      · refine List.pairwise_cons.mpr ⟨?_, ih htail⟩
        intro other hother
        rcases mem_insertSorted.mp hother with rfl | hother
        · exact Span.before_of_not heq hbefore
        · exact hhead other hother

/-- A finite set of spans, listed in increasing order. -/
structure SpanSet where
  spans : List Span
  sorted : spans.Pairwise Span.Before

namespace SpanSet

instance : Membership Span SpanSet := ⟨fun set span => span ∈ set.spans⟩

theorem mem_iff {span : Span} {set : SpanSet} : span ∈ set ↔ span ∈ set.spans := Iff.rfl

def empty : SpanSet := ⟨[], List.Pairwise.nil⟩

theorem not_mem_empty (span : Span) : span ∉ empty := List.not_mem_nil

def insert (set : SpanSet) (span : Span) : SpanSet :=
  ⟨insertSorted span set.spans, pairwise_insertSorted set.sorted⟩

@[simp] theorem mem_insert {set : SpanSet} {span other : Span} :
    other ∈ set.insert span ↔ other = span ∨ other ∈ set := mem_insertSorted

/-- The members that share an integer with `[lo, hi]`, in increasing order. -/
def overlap (set : SpanSet) (lo hi : ℤ) : List Span :=
  set.spans.filter fun span => decide (span.Meets lo hi)

theorem mem_overlap {set : SpanSet} {span : Span} {lo hi : ℤ} :
    span ∈ set.overlap lo hi ↔ span ∈ set ∧ span.Meets lo hi := by
  simp [overlap, mem_iff]

theorem overlap_sorted (set : SpanSet) (lo hi : ℤ) :
    (set.overlap lo hi).Pairwise Span.Before :=
  set.sorted.sublist List.filter_sublist

/-- The integers under some member. -/
def covered (set : SpanSet) : Set ℤ := {b | ∃ span ∈ set, b ∈ span}

theorem mem_covered {set : SpanSet} {b : ℤ} : b ∈ set.covered ↔ ∃ span ∈ set, b ∈ span := Iff.rfl

@[simp] theorem covered_empty : empty.covered = ∅ := by
  ext b
  simp [mem_covered, not_mem_empty]

@[simp] theorem covered_insert (set : SpanSet) (span : Span) :
    (set.insert span).covered = {b | b ∈ span} ∪ set.covered := by
  ext b
  simp only [mem_covered, mem_insert, Set.mem_union, Set.mem_ofPred_eq]
  constructor
  · rintro ⟨other, rfl | hother, hb⟩
    · exact Or.inl hb
    · exact Or.inr ⟨other, hother, hb⟩
  · rintro (hb | ⟨other, hother, hb⟩)
    · exact ⟨span, Or.inl rfl, hb⟩
    · exact ⟨other, Or.inr hother, hb⟩

/-- An overlap query finds something exactly when a covered integer lies in the queried interval. -/
theorem overlap_ne_nil_iff {set : SpanSet} {lo hi : ℤ} :
    set.overlap lo hi ≠ [] ↔ ∃ b ∈ set.covered, lo ≤ b ∧ b ≤ hi := by
  rw [List.ne_nil_iff_exists_cons]
  constructor
  · rintro ⟨span, tail, hcons⟩
    have hspan : span ∈ set.overlap lo hi := by rw [hcons]; exact List.mem_cons_self
    obtain ⟨hset, hmeets⟩ := mem_overlap.mp hspan
    obtain ⟨b, hb, hbounds⟩ := Span.meets_iff.mp hmeets
    exact ⟨b, ⟨span, hset, hb⟩, hbounds⟩
  · rintro ⟨b, ⟨span, hset, hb⟩, hbounds⟩
    have hspan : span ∈ set.overlap lo hi :=
      mem_overlap.mpr ⟨hset, Span.meets_iff.mpr ⟨b, hb, hbounds⟩⟩
    exact List.ne_nil_iff_exists_cons.mp (List.ne_nil_of_mem hspan)

end SpanSet
end Spans
