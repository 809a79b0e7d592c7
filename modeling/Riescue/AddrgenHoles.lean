import Riescue.AddrgenReserved
import Mathlib.Order.Interval.Set.Disjoint

/-! Spans with holes, `_subtract_inclusive_span` for one hole after the other: what is left of a span is exactly the bytes outside
all holes, in ascending spans. -/

namespace Riescue.Addrgen
open AddrGen

/-- The loop over the holes, from one span. -/
def subtractHoles (lo hi : ℤ) (holes : List (ℤ × ℤ)) : List (ℤ × ℤ) :=
  holes.foldl (fun segments hole => segments.flatMap fun segment => subtractInclusiveSpan segment.1 segment.2 hole.1 hole.2)
    [(lo, hi)]

/-- The bytes of an inclusive span. -/
abbrev bytesOf (span : ℤ × ℤ) : Set ℤ := Set.Icc span.1 span.2

/-- Spans that are not empty, each behind the last. -/
structure Ascending (spans : List (ℤ × ℤ)) : Prop where
  nonempty : ∀ span ∈ spans, span.1 ≤ span.2
  ordered : spans.Pairwise fun left right => left.2 < right.1

/-- What is left of a span: non-empty spans in ascending order, disjoint, with exactly the bytes in no hole. -/
structure Remains (lo hi : ℤ) (holes spans : List (ℤ × ℤ)) : Prop where
  nonempty : ∀ span ∈ spans, span.1 ≤ span.2
  ascending : spans.Pairwise fun left right => left.1 < right.1
  disjoint : spans.Pairwise fun left right => Disjoint (bytesOf left) (bytesOf right)
  union : ∀ b, InSpans spans b ↔ b ∈ Set.Icc lo hi ∧ ∀ hole ∈ holes, b ∉ bytesOf hole

/-! ### One hole -/

/-- The pieces of a span are ascending and lie in it. -/
theorem ascending_subtractInclusiveSpan (lo hi holeLo holeHi : ℤ) :
    Ascending (subtractInclusiveSpan lo hi holeLo holeHi) ∧
      ∀ piece ∈ subtractInclusiveSpan lo hi holeLo holeHi, lo ≤ piece.1 ∧ piece.2 ≤ hi := by
  unfold subtractInclusiveSpan
  dsimp only
  have hlo := le_max_left lo holeLo
  have hhi := min_le_left hi holeHi
  generalize max lo holeLo = hs at hlo
  generalize min hi holeHi = he at hhi
  split_ifs with hempty hapart hfirst hlast hlast
  · exact ⟨⟨nofun, .nil⟩, nofun⟩
  · refine ⟨⟨?_, List.pairwise_singleton _ _⟩, ?_⟩
    · exact List.forall_mem_singleton.mpr (by omega)
    · exact List.forall_mem_singleton.mpr ⟨le_rfl, le_rfl⟩
  · rw [List.singleton_append]
    refine ⟨⟨?_, ?_⟩, ?_⟩
    · exact List.forall_mem_cons.mpr ⟨hfirst, List.forall_mem_singleton.mpr hlast⟩
    · exact List.pairwise_pair.mpr (by dsimp only; omega)
    · exact List.forall_mem_cons.mpr ⟨⟨le_rfl, by dsimp only; omega⟩,
        List.forall_mem_singleton.mpr ⟨by dsimp only; omega, le_rfl⟩⟩
  · rw [List.append_nil]
    refine ⟨⟨List.forall_mem_singleton.mpr hfirst, List.pairwise_singleton _ _⟩, ?_⟩
    exact List.forall_mem_singleton.mpr ⟨le_rfl, by dsimp only; omega⟩
  · rw [List.nil_append]
    refine ⟨⟨List.forall_mem_singleton.mpr hlast, List.pairwise_singleton _ _⟩, ?_⟩
    exact List.forall_mem_singleton.mpr ⟨by dsimp only; omega, le_rfl⟩
  · exact ⟨⟨nofun, .nil⟩, nofun⟩

/-- Cutting one hole out of every span keeps the order: pieces of different spans stay as far apart as the spans. -/
theorem Ascending.subtract {spans : List (ℤ × ℤ)} (h : Ascending spans) (hole : ℤ × ℤ) :
    Ascending (spans.flatMap fun segment => subtractInclusiveSpan segment.1 segment.2 hole.1 hole.2) := by
  constructor
  · intro piece hpiece
    obtain ⟨segment, -, hmem⟩ := List.mem_flatMap.mp hpiece
    exact (ascending_subtractInclusiveSpan segment.1 segment.2 hole.1 hole.2).1.nonempty piece hmem
  · refine List.pairwise_flatMap.mpr ⟨fun segment _ => ?_, h.ordered.imp fun hlt first hfirst second hsecond => ?_⟩
    · exact (ascending_subtractInclusiveSpan segment.1 segment.2 hole.1 hole.2).1.ordered
    · exact ((ascending_subtractInclusiveSpan _ _ hole.1 hole.2).2 first hfirst).2.trans_lt
        (hlt.trans_le ((ascending_subtractInclusiveSpan _ _ hole.1 hole.2).2 second hsecond).1)

/-! ### All holes -/

theorem ascending_foldl {spans : List (ℤ × ℤ)} (h : Ascending spans) (holes : List (ℤ × ℤ)) :
    Ascending (holes.foldl
      (fun segments hole => segments.flatMap fun segment => subtractInclusiveSpan segment.1 segment.2 hole.1 hole.2) spans) := by
  induction holes generalizing spans with
  | nil => exact h
  | cons hole rest ih => exact ih (h.subtract hole)

/-- The bytes of a span that is cut by holes, whatever their order is. -/
theorem inSpans_subtractHoles (lo hi : ℤ) (holes : List (ℤ × ℤ)) {b : ℤ} :
    InSpans (subtractHoles lo hi holes) b ↔ b ∈ Set.Icc lo hi ∧ ∀ hole ∈ holes, b ∉ bytesOf hole := by
  rw [subtractHoles, inSpans_foldl, inSpans_cons]
  refine and_congr ?_ Iff.rfl
  simp only [InSpans, List.not_mem_nil, false_and, exists_false, or_false]
  exact Iff.rfl

theorem remains_subtractHoles {lo hi : ℤ} (hle : lo ≤ hi) (holes : List (ℤ × ℤ)) :
    Remains lo hi holes (subtractHoles lo hi holes) := by
  have hascending : Ascending (subtractHoles lo hi holes) :=
    ascending_foldl ⟨List.forall_mem_singleton.mpr hle, List.pairwise_singleton _ _⟩ holes
  refine ⟨hascending.nonempty, ?_, ?_, fun b => inSpans_subtractHoles lo hi holes⟩
  · refine hascending.ordered.imp_of_mem fun {left right} hleft _ hlt => ?_
    exact (hascending.nonempty left hleft).trans_lt hlt
  · refine hascending.ordered.imp fun hlt => Set.disjoint_left.mpr fun b hleft hright => ?_
    exact absurd (hleft.2.trans_lt hlt) (not_lt.mpr hright.1)

/-- Cutting holes out of a span leaves exactly the bytes in none of them, and other orders of the holes leave the same bytes. -/
theorem subtractHoles_remains {lo hi : ℤ} (hle : lo ≤ hi) (holes : List (ℤ × ℤ)) :
    Remains lo hi holes (subtractHoles lo hi holes) ∧
      ∀ reordered, reordered.Perm holes →
        ∀ b, InSpans (subtractHoles lo hi reordered) b ↔ InSpans (subtractHoles lo hi holes) b := by
  refine ⟨remains_subtractHoles hle holes, fun reordered hperm b => ?_⟩
  rw [inSpans_subtractHoles, inSpans_subtractHoles]
  exact and_congr_right fun _ => forall_congr' fun hole => imp_congr_left hperm.mem_iff

/-- A hole in the middle, an empty one and one over the end. -/
theorem subtractHoles_remains_three :
    Remains 0x1000 0x8fff [(0x3000, 0x3fff), (5, 4), (0x8000, 0x9fff)] [(0x1000, 0x2fff), (0x4000, 0x7fff)] :=
  (subtractHoles_remains (by decide : (0x1000 : ℤ) ≤ 0x8fff) [(0x3000, 0x3fff), (5, 4), (0x8000, 0x9fff)]).1

/-- The loop of `__init__` cuts the custom ranges out of a reserved range that is not empty. -/
theorem outsideHoles_eq (customRanges : List (String × MemoryRange)) {range : MemoryRange}
    (hrange : (range.start : ℤ) ≤ range.stop - 1) :
    outsideHoles customRanges range =
      subtractHoles range.start (range.stop - 1) (customRanges.map fun custom => (custom.2.start, custom.2.stop)) := by
  rw [outsideHoles, subtractHoles, List.foldl_map, if_pos hrange]

/-- What `__init__` reserves of a range is what the custom ranges leave of it. -/
theorem outsideHoles_remains (customRanges : List (String × MemoryRange)) {range : MemoryRange}
    (hrange : (range.start : ℤ) ≤ range.stop - 1) :
    Remains range.start (range.stop - 1) (customRanges.map fun custom => (custom.2.start, custom.2.stop))
      (outsideHoles customRanges range) :=
  outsideHoles_eq customRanges hrange ▸ remains_subtractHoles hrange _

end Riescue.Addrgen
