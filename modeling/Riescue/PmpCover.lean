import Riescue.PmpRoundTrip

/-! `napot_cover` splits a range with the fewest entries. The loop takes the largest aligned chunk that
fits at the current address, so its chunks are the greedy cuts of the range. -/

namespace Riescue.Pmp
open Napot Fallible

theorem Tiles.dvd {addr rem : ℕ} {chunks : List (ℕ × ℕ)} (h : Tiles addr rem chunks) (hrem : 0 < rem) :
    8 ∣ addr ∧ 8 ∣ rem := by
  have hlength : 8 ∣ rem := by
    clear hrem
    induction h with
    | nil addr => exact Nat.dvd_zero _
    | cons haligned hchunk hrest ih => exact Nat.dvd_add (haligned.eight_dvd hchunk) ih
  cases h with
  | nil => omega
  | cons haligned hchunk hrest => exact ⟨(haligned.eight_dvd hchunk).trans haligned.dvd, hlength⟩

theorem Tiles.exactCover {base size : ℕ} {chunks : List (ℕ × ℕ)} (h : Tiles base size chunks) :
    ExactCover base size chunks where
  aligned := fun _ hblock => (h.mem hblock).1
  covers := h.covers

namespace PmpRegion

/-- No aligned block that starts at the address and fits in the remaining length is larger than the
chunk. -/
theorem le_napotChunk {addr rem size : ℕ} (hblock : Aligned addr size) (hfits : size ≤ rem) :
    size ≤ napotChunk addr rem := by
  obtain ⟨k, rfl⟩ := hblock.isPow
  have hspan : 2 ^ k ≤ 2 ^ (Nat.size rem - 1) := by
    have hlt : k < Nat.size rem := Nat.lt_size.mpr hfits
    exact Nat.pow_le_pow_right (by omega) (by omega)
  unfold napotChunk
  simp only [Nat.one_shiftLeft]
  split_ifs with h
  · exact hspan
  · have haddr : addr ≠ 0 := by
      rintro rfl
      exact h (Or.inr lowestBit_zero)
    obtain ⟨j, m, ⟨i, rfl⟩, rfl⟩ := Nat.exists_eq_two_pow_mul_odd haddr
    rw [lowestBit_two_pow_mul_odd]
    have hodd : Nat.Coprime (2 ^ k) (2 * i + 1) :=
      Nat.Coprime.pow_left k (by simp)
    exact Nat.le_of_dvd (Nat.two_pow_pos j) (hodd.dvd_of_dvd_mul_right hblock.dvd)

theorem napotCover_greedy {addr rem : ℕ} {chunks : List (ℕ × ℕ)} (h : napotCover addr rem = .ok chunks) :
    Greedy addr rem chunks := by
  induction rem using Nat.strong_induction_on generalizing addr chunks with
  | h rem ih =>
      rw [napotCover] at h
      dsimp only at h
      split_ifs at h with hrem hsmall
      · subst hrem
        obtain rfl := Except.ok.inj h
        exact Greedy.nil addr
      · obtain ⟨rest, hrest, rfl⟩ := map_ok h
        obtain ⟨haligned, hle⟩ := napotChunk_spec addr hrem
        have hpos := haligned.pos
        have hlargest : ∀ size, Aligned addr size →
            size ≤ napotChunk addr rem + (rem - napotChunk addr rem) → size ≤ napotChunk addr rem := by
          intro size hblock hfits
          exact le_napotChunk hblock (by omega)
        have hgreedy := Greedy.cons haligned hlargest (ih _ (by omega) hrest)
        rwa [Nat.add_sub_cancel' hle] at hgreedy

theorem napotChunk_ge {addr rem : ℕ} (haddr : 8 ∣ addr) (hdvd : 8 ∣ rem) (hrem : rem ≠ 0) :
    pmpNapotGranule ≤ napotChunk addr rem :=
  le_napotChunk ⟨⟨3, rfl⟩, haddr⟩ (Nat.le_of_dvd (Nat.pos_of_ne_zero hrem) hdvd)

/-- On multiples of eight the loop never meets a chunk that is too small. -/
theorem napotCover_total {addr rem : ℕ} (haddr : 8 ∣ addr) (hdvd : 8 ∣ rem) :
    ∃ chunks, napotCover addr rem = .ok chunks := by
  induction rem using Nat.strong_induction_on generalizing addr with
  | h rem ih =>
      rw [napotCover]
      dsimp only
      by_cases hrem : rem = 0
      · exact ⟨[], if_pos hrem⟩
      · obtain ⟨haligned, hle⟩ := napotChunk_spec addr hrem
        have hlarge := napotChunk_ge haddr hdvd hrem
        have hpos := haligned.pos
        have hchunk := haligned.eight_dvd hlarge
        obtain ⟨chunks, hchunks⟩ :=
          ih _ (by omega) (Nat.dvd_add haddr hchunk) (Nat.dvd_sub hdvd hchunk)
        exact ⟨_, by rw [if_neg hrem, if_neg (Nat.not_lt.mpr hlarge), hchunks]; rfl⟩

/-- The only exception of the loop. -/
theorem napotCover_error {addr rem : ℕ} {error : PyError} (h : napotCover addr rem = .error error) :
    ∃ text, error = .valueError text := by
  induction rem using Nat.strong_induction_on generalizing addr with
  | h rem ih =>
      rw [napotCover] at h
      dsimp only at h
      split_ifs at h with hrem hsmall
      · exact ⟨_, (Except.error.inj h).symm⟩
      · have hpos := (napotChunk_spec addr hrem).1.pos
        cases hrest : napotCover (addr + napotChunk addr rem) (rem - napotChunk addr rem) with
        | ok rest =>
            rw [hrest] at h
            cases h
        | error error' =>
            rw [hrest] at h
            obtain rfl := Except.error.inj h
            exact ih _ (by omega) hrest

/-- `napot_cover` is right: the pieces follow one another from the base, each an aligned power of two of
at least eight bytes, they cover the range exactly, and no list of aligned blocks that does is shorter. -/
structure MinimalCover (base size : ℕ) (chunks : List (ℕ × ℕ)) : Prop where
  tiles : Tiles base size chunks
  covers : ∀ a, (∃ chunk ∈ chunks, Within chunk a) ↔ base ≤ a ∧ a < base + size
  minimal : ∀ blocks, ExactCover base size blocks → chunks.length ≤ blocks.length

/-- `napot_cover` on every range: a cover with the fewest entries where base and size are multiples of
eight, and a `ValueError` elsewhere. -/
theorem napotCover_minimal (base size : ℕ) :
    (8 ∣ base ∧ 8 ∣ size → ∃ chunks, napotCover base size = .ok chunks ∧ MinimalCover base size chunks) ∧
      (¬(8 ∣ base ∧ 8 ∣ size) → 0 < size →
        ∃ text, napotCover base size = .error (.valueError text)) := by
  constructor
  · rintro ⟨hbase, hsize⟩
    obtain ⟨chunks, hchunks⟩ := napotCover_total hbase hsize
    have htiles := napotCover_tiles hchunks
    exact ⟨chunks, hchunks, htiles, htiles.covers,
      fun blocks hblocks => (napotCover_greedy hchunks).length_le hblocks⟩
  · intro hdvd hpos
    cases hcover : napotCover base size with
    | ok chunks => exact absurd ((napotCover_tiles hcover).dvd hpos) hdvd
    | error error =>
        obtain ⟨text, rfl⟩ := napotCover_error hcover
        exact ⟨text, rfl⟩

/-- Three gigabytes from the second one on, and a range that is four bytes too long. -/
theorem napotCover_minimal_gigabytes :
    (∃ chunks, napotCover 0x40000000 0xC0000000 = .ok chunks ∧
      MinimalCover 0x40000000 0xC0000000 chunks) ∧
      ∃ text, napotCover 0x80000000 0x24 = .error (.valueError text) :=
  ⟨(napotCover_minimal 0x40000000 0xC0000000).1 ⟨by decide, by decide⟩,
    (napotCover_minimal 0x80000000 0x24).2 (by decide) (by decide)⟩

end PmpRegion

end Riescue.Pmp
