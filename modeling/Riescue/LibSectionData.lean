import Riescue.LibDigits

/-! The contents of a data section: `.org` moves on to a position, a data directive appends numbers of one size. Pieces that
are placed one behind the other stand where they are placed. -/

namespace SectionData
open Digits

/-- The bytes of a number, lowest first. -/
def littleEndian (count number : ℕ) : List ℕ := (lowest 256 count number).reverse

inductive Line where
  | org (position : ℕ)
  | data (size : ℕ) (numbers : List ℕ)
  deriving DecidableEq, Repr

/-- The contents behind a line. The position cannot be moved back. -/
def Line.emit (contents : List ℕ) : Line → Option (List ℕ)
  | .org position =>
      if contents.length ≤ position then some (contents ++ List.replicate (position - contents.length) 0) else none
  | .data size numbers => some (contents ++ numbers.flatMap (littleEndian size))

def assemble (lines : List Line) (contents : List ℕ) : Option (List ℕ) := lines.foldlM Line.emit contents

/-- These bytes stand at this position. -/
def StandsAt (contents : List ℕ) (position : ℕ) (bytes : List ℕ) : Prop :=
  ∃ front back, contents = front ++ bytes ++ back ∧ front.length = position

/-- Numbers of one size at a position. -/
structure Chunk where
  position : ℕ
  size : ℕ
  numbers : List ℕ

namespace Chunk

def lines (chunk : Chunk) : List Line := [.org chunk.position, .data chunk.size chunk.numbers]

def bytes (chunk : Chunk) : List ℕ := chunk.numbers.flatMap (littleEndian chunk.size)

/-- The position behind the numbers. -/
def last (chunk : Chunk) : ℕ := chunk.position + chunk.size * chunk.numbers.length

end Chunk

theorem length_littleEndian (count number : ℕ) : (littleEndian count number).length = count := by
  rw [littleEndian, List.length_reverse, length_lowest]

theorem length_flatMap_littleEndian (size : ℕ) (numbers : List ℕ) :
    (numbers.flatMap (littleEndian size)).length = size * numbers.length := by
  induction numbers with
  | nil => rfl
  | cons number numbers ih =>
      rw [List.flatMap_cons, List.length_append, length_littleEndian, ih, List.length_cons, Nat.mul_succ, Nat.add_comm]

theorem StandsAt.append {contents bytes : List ℕ} {position : ℕ} (h : StandsAt contents position bytes) (more : List ℕ) :
    StandsAt (contents ++ more) position bytes := by
  obtain ⟨front, back, rfl, hfront⟩ := h
  exact ⟨front, back ++ more, List.append_assoc _ _ _, hfront⟩

theorem StandsAt.of_prefix {contents contents' bytes : List ℕ} {position : ℕ} (h : StandsAt contents position bytes)
    (hfront : contents <+: contents') : StandsAt contents' position bytes := by
  obtain ⟨more, rfl⟩ := hfront
  exact h.append more

/-- A number of a chunk stands behind the ones in front of it. -/
theorem StandsAt.getElem {contents numbers : List ℕ} {position size : ℕ}
    (h : StandsAt contents position (numbers.flatMap (littleEndian size))) {i : ℕ} (hi : i < numbers.length) :
    StandsAt contents (position + i * size) (littleEndian size numbers[i]) := by
  obtain ⟨front, back, rfl, hfront⟩ := h
  have hsplit : numbers = numbers.take i ++ numbers[i] :: numbers.drop (i + 1) := by
    rw [← List.drop_eq_getElem_cons hi, List.take_append_drop]
  refine ⟨front ++ (numbers.take i).flatMap (littleEndian size),
    (numbers.drop (i + 1)).flatMap (littleEndian size) ++ back, ?_, ?_⟩
  · conv_lhs => rw [hsplit]
    rw [List.flatMap_append, List.flatMap_cons]
    simp only [List.append_assoc]
  · rw [List.length_append, length_flatMap_littleEndian, hfront, List.length_take, Nat.min_eq_left hi.le, Nat.mul_comm]

theorem emit_chunk {contents : List ℕ} {chunk : Chunk} (h : contents.length ≤ chunk.position) :
    assemble chunk.lines contents =
      some (contents ++ List.replicate (chunk.position - contents.length) 0 ++ chunk.bytes) := by
  show (Line.emit contents (.org chunk.position)).bind _ = _
  rw [Line.emit, if_pos h]
  rfl

theorem assemble_append (front back : List Line) (contents : List ℕ) :
    assemble (front ++ back) contents = (assemble front contents).bind (assemble back) := List.foldlM_append

/-- Chunks in the order of their positions, none of which reaches the next one, stand where they are placed. -/
theorem assemble_chunks {chunks : List Chunk} {contents : List ℕ} {limit : ℕ} (hlimit : contents.length ≤ limit)
    (hfirst : ∀ chunk ∈ chunks, contents.length ≤ chunk.position)
    (hsorted : chunks.Pairwise fun chunk next => chunk.last ≤ next.position) (hlast : ∀ chunk ∈ chunks, chunk.last ≤ limit) :
    ∃ contents', assemble (chunks.flatMap Chunk.lines) contents = some contents' ∧ contents <+: contents' ∧
      contents'.length ≤ limit ∧ ∀ chunk ∈ chunks, StandsAt contents' chunk.position chunk.bytes := by
  induction chunks generalizing contents with
  | nil => exact ⟨contents, rfl, List.prefix_refl _, hlimit, nofun⟩
  | cons chunk chunks ih =>
      obtain ⟨hnext, hsorted⟩ := List.pairwise_cons.mp hsorted
      obtain ⟨hposition, -⟩ := List.forall_mem_cons.mp hfirst
      obtain ⟨hend, hlast⟩ := List.forall_mem_cons.mp hlast
      let gap := List.replicate (chunk.position - contents.length) 0
      have hgap : (contents ++ gap).length = chunk.position := by
        rw [List.length_append, List.length_replicate, Nat.add_sub_cancel' hposition]
      have hlength : (contents ++ gap ++ chunk.bytes).length = chunk.last := by
        rw [List.length_append, hgap, Chunk.bytes, length_flatMap_littleEndian, Chunk.last]
      obtain ⟨contents', hassemble, hfront, hle, hstands⟩ := ih (hlength.trans_le hend)
        (fun next hmem => hlength.trans_le (hnext next hmem)) hsorted hlast
      refine ⟨contents', ?_, ?_, hle, List.forall_mem_cons.mpr ⟨?_, hstands⟩⟩
      · rw [List.flatMap_cons, assemble_append, emit_chunk hposition]
        exact hassemble
      · rw [List.append_assoc] at hfront
        exact (List.prefix_append contents _).trans hfront
      · exact StandsAt.of_prefix ⟨contents ++ gap, [], (List.append_nil _).symm, hgap⟩ hfront

end SectionData
