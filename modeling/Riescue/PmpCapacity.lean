import Riescue.PmpCover

/-! The capacity of the PMP builder. `add_region` tests once whether a slot is left and then appends all the
pieces of its range. Here a call shows what it leaves behind also where it raises, so that a caller may
catch the exception and go on. -/

namespace Riescue.Pmp
open Napot Fallible

namespace PmpRegion

/-- `self._entries.append` -/
def append (region : PmpRegion) (entry : PmpEntry) : PmpRegion :=
  { region with entries := region.entries ++ [entry] }

/-- The loop over the pieces of a split range. -/
def appendSplit (perms : PmpAttributes) : List (ℕ × ℕ) → PmpRegion → PmpRegion
  | [], region => region
  | (napotStart, napotSize) :: alignedNapot, region =>
      appendSplit perms alignedNapot (region.append ⟨napotStart, napotSize, perms, .napot⟩)

/-- `add_region` as a step of the builder: its state afterwards, and the exception it raised. -/
def addRegionStep (region : PmpRegion) (range : BaseMem) (secure : Bool) :
    PmpRegion × Except PyError Unit :=
  match targetRange range secure with
  | .error error => (region, .error error)
  | .ok range =>
      if numEntries ≤ region.entries.length then
        (region, .error (.valueError "no PMP slots left. Consolidate regions before adding more"))
      else if isNapot range.start range.size then
        (region.append ⟨range.start, range.size, range.permissions, .napot⟩, .ok ())
      else
        match region.alignNapot range.start range.size with
        | .error error => (region, .error error)
        | .ok alignedNapot => (appendSplit range.permissions alignedNapot region, .ok ())

theorem appendSplit_eq (perms : PmpAttributes) (alignedNapot : List (ℕ × ℕ)) (region : PmpRegion) :
    appendSplit perms alignedNapot region =
      { region with
        entries := region.entries ++ alignedNapot.map fun napot => ⟨napot.1, napot.2, perms, .napot⟩ } := by
  induction alignedNapot generalizing region with
  | nil => simp [appendSplit]
  | cons napot alignedNapot ih => simp [appendSplit, ih, append]

/-- The step is `addRegion`, with the builder kept where the call raises. -/
theorem addRegionStep_eq (region : PmpRegion) (range : BaseMem) (secure : Bool) :
    region.addRegionStep range secure =
      match region.addRegion range secure with
      | .ok region' => (region', .ok ())
      | .error error => (region, .error error) := by
  unfold addRegionStep addRegion
  cases htarget : targetRange range secure with
  | error error => rfl
  | ok target =>
      dsimp only [bind, Except.bind]
      split_ifs with hfull hnapot
      · rfl
      · rfl
      · cases halign : region.alignNapot target.start target.size with
        | error error => rfl
        | ok alignedNapot => simp only [appendSplit_eq]

/-- The builder after a sequence of calls, each of which may have raised. -/
def run (region : PmpRegion) (calls : List (BaseMem × Bool)) : PmpRegion :=
  calls.foldl (fun region call => (region.addRegionStep call.1 call.2).1) region

@[simp] theorem run_nil (region : PmpRegion) : region.run [] = region := rfl

@[simp] theorem run_concat (region : PmpRegion) (calls : List (BaseMem × Bool)) (call : BaseMem × Bool) :
    region.run (calls ++ [call]) = ((region.run calls).addRegionStep call.1 call.2).1 := by
  simp [run]

/-- A call that raises appends nothing: the pieces are known before the first of them is appended. -/
theorem addRegionStep_atomic {region : PmpRegion} {range : BaseMem} {secure : Bool} {error : PyError}
    (h : (region.addRegionStep range secure).2 = .error error) :
    (region.addRegionStep range secure).1 = region := by
  rw [addRegionStep_eq] at h ⊢
  cases hadd : region.addRegion range secure with
  | error error => rfl
  | ok region' =>
      rw [hadd] at h
      cases h

/-- The builder stays within the registers, and a raising call does not change its entries. -/
structure Sound (region : PmpRegion) (calls : List (BaseMem × Bool)) : Prop where
  capacity : ∀ before, before <+: calls → (region.run before).entries.length ≤ numEntries
  atomic : ∀ before call error, before ++ [call] <+: calls →
    ((region.run before).addRegionStep call.1 call.2).2 = .error error →
    (region.run (before ++ [call])).entries = (region.run before).entries

/-- A call that meets a builder with a slot left, without padding, and whose target range cannot be
covered by as many aligned blocks as there are slots. -/
def Overflows (region : PmpRegion) (call : BaseMem × Bool) : Prop :=
  region.padNapot = false ∧ region.entries.length < numEntries ∧
    ∃ target, targetRange call.1 call.2 = .ok target ∧ 8 ∣ target.start ∧ 8 ∣ target.size ∧
      ∀ blocks, ExactCover target.start target.size blocks →
        numEntries < region.entries.length + blocks.length

theorem exactCover_singleton {base size : ℕ} (h : Aligned base size) :
    ExactCover base size [(base, size)] where
  aligned := by simpa using h
  covers := by simp

theorem napotPad_length {base size : ℕ} {pieces : List (ℕ × ℕ)} (h : napotPad base size = .ok pieces) :
    pieces.length = 1 := by
  unfold napotPad at h
  dsimp only at h
  split_ifs at h
  obtain rfl := Except.ok.inj h
  rfl

/-- The split of a range needs more slots than there are left exactly where every cover does. -/
theorem napotCover_length {base size : ℕ} {pieces : List (ℕ × ℕ)}
    (h : napotCover base size = .ok pieces) (left : ℕ) :
    left < pieces.length ↔
      8 ∣ base ∧ 8 ∣ size ∧ ∀ blocks, ExactCover base size blocks → left < blocks.length := by
  have htiles := napotCover_tiles h
  constructor
  · intro hlength
    have hsize : 0 < size := by
      cases htiles with
      | nil => simp at hlength
      | cons haligned hchunk hrest =>
          have := haligned.pos
          omega
    have hdvd := htiles.dvd hsize
    exact ⟨hdvd.1, hdvd.2, fun blocks hblocks =>
      hlength.trans_le ((napotCover_greedy h).length_le hblocks)⟩
  · rintro ⟨-, -, hblocks⟩
    exact hblocks pieces htiles.exactCover

/-- What one call does to the fill level. -/
theorem addRegionStep_capacity_iff {region : PmpRegion} (hcapacity : region.entries.length ≤ numEntries)
    (call : BaseMem × Bool) :
    (region.addRegionStep call.1 call.2).1.entries.length ≤ numEntries ↔ ¬region.Overflows call := by
  have hfits : ∀ {region' : PmpRegion}, region'.entries.length ≤ numEntries → ¬region.Overflows call →
      (region'.entries.length ≤ numEntries ↔ ¬region.Overflows call) :=
    fun hle hfits => ⟨fun _ => hfits, fun _ => hle⟩
  unfold addRegionStep
  cases htarget : targetRange call.1 call.2 with
  | error error =>
      refine hfits hcapacity ?_
      rintro ⟨-, -, target, htarget', -⟩
      cases htarget.symm.trans htarget'
  | ok target =>
      dsimp only
      split_ifs with hfull hnapot
      · exact hfits hcapacity fun h => absurd h.2.1 (Nat.not_lt.mpr hfull)
      · refine hfits (by simp only [append, List.length_append, List.length_singleton]; omega) ?_
        rintro ⟨-, hroom, target', htarget', -, -, hblocks⟩
        obtain rfl := Except.ok.inj (htarget.symm.trans htarget')
        have := hblocks _ (exactCover_singleton (isNapot_iff.mp hnapot).2)
        simp only [List.length_singleton] at this
        omega
      · cases halign : region.alignNapot target.start target.size with
        | error error =>
            refine hfits hcapacity ?_
            rintro ⟨hpad, -, target', htarget', hstart, hsize, -⟩
            obtain rfl := Except.ok.inj (htarget.symm.trans htarget')
            obtain ⟨pieces, hpieces⟩ := napotCover_total hstart hsize
            rw [alignNapot, hpad] at halign
            cases hpieces.symm.trans halign
        | ok pieces =>
            simp only [appendSplit_eq, List.length_append, List.length_map]
            cases hpad : region.padNapot with
            | true =>
                rw [alignNapot, hpad] at halign
                refine ⟨fun _ h => ?_, fun _ => ?_⟩
                · cases hpad.symm.trans h.1
                · rw [napotPad_length halign]
                  omega
            | false =>
                rw [alignNapot, hpad] at halign
                have hlength := napotCover_length halign (numEntries - region.entries.length)
                rw [← Nat.not_lt, not_iff_not]
                constructor
                · intro hmore
                  obtain ⟨hstart, hsize, hblocks⟩ := hlength.mp (by omega)
                  refine ⟨hpad, Nat.not_le.mp hfull, target, htarget, hstart, hsize, ?_⟩
                  intro blocks hcover
                  have := hblocks blocks hcover
                  omega
                · rintro ⟨-, -, target', htarget', hstart, hsize, hblocks⟩
                  obtain rfl := Except.ok.inj (htarget.symm.trans htarget')
                  have := hlength.mpr ⟨hstart, hsize, fun blocks hcover => by
                    have := hblocks blocks hcover
                    omega⟩
                  omega

/-- No call of the run meets a builder with fewer slots left than its range needs. -/
def NeverOverflows (region : PmpRegion) (calls : List (BaseMem × Bool)) : Prop :=
  ∀ before call, before ++ [call] <+: calls → ¬(region.run before).Overflows call

/-- A run keeps to the capacity, by induction over its calls from the left. -/
theorem run_capacity {region : PmpRegion} {calls : List (BaseMem × Bool)}
    (hregion : region.entries.length ≤ numEntries) (hfits : region.NeverOverflows calls) :
    (region.run calls).entries.length ≤ numEntries := by
  induction calls using List.reverseRecOn with
  | nil => exact hregion
  | append_singleton calls call ih =>
      have hbefore := ih fun before call' hpre =>
        hfits before call' (hpre.trans (List.prefix_append calls [call]))
      rw [run_concat]
      exact (addRegionStep_capacity_iff hbefore call).mpr (hfits calls call (List.prefix_refl _))

/-- A run from a new builder is sound exactly when none of its calls overflows. -/
theorem sound_iff_neverOverflows (padNapot : Bool) (xlen : Xlen) (calls : List (BaseMem × Bool)) :
    (new padNapot xlen).Sound calls ↔ (new padNapot xlen).NeverOverflows calls := by
  have hnew : (new padNapot xlen).entries.length ≤ numEntries := Nat.zero_le _
  constructor
  · intro hsound before call hpre
    have hbefore := hsound.capacity before ((List.prefix_append before [call]).trans hpre)
    have hafter := hsound.capacity _ hpre
    rw [run_concat] at hafter
    exact (addRegionStep_capacity_iff hbefore call).mp hafter
  · intro hfits
    refine ⟨fun before hpre => ?_, fun before call error _ herror => ?_⟩
    · exact run_capacity hnew fun before' call hpre' => hfits before' call (hpre'.trans hpre)
    · rw [run_concat, addRegionStep_atomic herror]

/-- One range of almost a terabyte that is aligned to eight bytes only: it takes 72 entries. -/
theorem not_sound :
    ¬∀ (padNapot : Bool) (xlen : Xlen) (calls : List (BaseMem × Bool)), (new padNapot xlen).Sound calls := by
  intro h
  have hcapacity := (h false .xlen64 [(⟨.dramRange, 8, 2 ^ 40 - 16, .rWX⟩, false)]).capacity _
    (List.prefix_refl _)
  exact absurd hcapacity (by decide +kernel)

end PmpRegion

end Riescue.Pmp
