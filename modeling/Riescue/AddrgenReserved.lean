import Riescue.AddrgenAtomic

/-! What a fresh address generator has reserved: the reserved ranges of the memory map, each without its last
byte, outside the custom ranges. -/

namespace Riescue.Addrgen
open Spans Fallible

/-- Byte `b` lies in one of the inclusive spans. -/
def InSpans (spans : List (ℤ × ℤ)) (b : ℤ) : Prop := ∃ span ∈ spans, span.1 ≤ b ∧ b ≤ span.2

theorem inSpans_cons {span : ℤ × ℤ} {spans : List (ℤ × ℤ)} {b : ℤ} :
    InSpans (span :: spans) b ↔ (span.1 ≤ b ∧ b ≤ span.2) ∨ InSpans spans b := by
  simp [InSpans]

theorem inSpans_flatMap {spans : List (ℤ × ℤ)} {f : ℤ × ℤ → List (ℤ × ℤ)} {b : ℤ} :
    InSpans (spans.flatMap f) b ↔ ∃ span ∈ spans, InSpans (f span) b := by
  simp only [InSpans, List.mem_flatMap]
  constructor
  · rintro ⟨piece, ⟨span, hspan, hpiece⟩, hb⟩
    exact ⟨span, hspan, piece, hpiece, hb⟩
  · rintro ⟨span, hspan, piece, hpiece, hb⟩
    exact ⟨piece, ⟨span, hspan, hpiece⟩, hb⟩

/-- `_subtract_inclusive_span` returns the bytes outside the hole. -/
theorem inSpans_subtractInclusiveSpan {lo hi holeLo holeHi b : ℤ} :
    InSpans (subtractInclusiveSpan lo hi holeLo holeHi) b ↔
      (lo ≤ b ∧ b ≤ hi) ∧ ¬(holeLo ≤ b ∧ b ≤ holeHi) := by
  unfold subtractInclusiveSpan
  dsimp only
  generalize hstart : max lo holeLo = holeStart
  generalize hend : min hi holeHi = holeEnd
  split_ifs
  all_goals
    simp only [InSpans, List.mem_append, List.mem_singleton, List.not_mem_nil, or_false, false_or, false_and,
      exists_false, exists_eq_left, or_and_right, exists_or, false_iff]
    omega

/-- The pieces start inside the span. -/
theorem le_of_mem_subtractInclusiveSpan {lo hi holeLo holeHi : ℤ} {span : ℤ × ℤ}
    (h : span ∈ subtractInclusiveSpan lo hi holeLo holeHi) : lo ≤ span.1 := by
  unfold subtractInclusiveSpan at h
  dsimp only at h
  split_ifs at h
  all_goals
    simp only [List.mem_append, List.mem_singleton, List.not_mem_nil, or_false, false_or] at h
  · exact h ▸ le_rfl
  · rcases h with rfl | rfl
    · exact le_rfl
    · dsimp only
      omega
  · exact h ▸ le_rfl
  · subst h
    dsimp only
    omega

/-! ### Spaces and what they have taken -/

/-- The space is reached by calls that have taken exactly these bytes. -/
def TakenExactly (space : AddressSpace) (taken : ℤ → Prop) : Prop :=
  ∃ history, Reachable history space ∧ ∀ b, Taken history b ↔ taken b

theorem TakenExactly.allocated {space : AddressSpace} {taken : ℤ → Prop} (h : TakenExactly space taken) (b : ℕ) :
    Allocated space b ↔ taken b := by
  obtain ⟨history, hreach, htaken⟩ := h
  exact (allocated_iff hreach (Int.natCast_nonneg b)).trans (htaken b)

theorem takenExactly_init : TakenExactly AddressSpace.init fun _ => False :=
  ⟨[], .fresh, fun b => by simp [Taken]⟩

theorem TakenExactly.defineSegment {space : AddressSpace} {taken : ℤ → Prop} (h : TakenExactly space taken)
    (qualifier : AddressQualifiers) (start stop : ℕ) :
    TakenExactly (space.defineSegment qualifier start stop).2 taken := by
  obtain ⟨history, hreach, htaken⟩ := h
  refine ⟨_, hreach.defineSegment qualifier start stop, fun b => ?_⟩
  rw [taken_cons, htaken]
  exact ⟨fun hb => hb.resolve_left id, .inr⟩

theorem reserveMemoryLoop_lt {start stop clStart clEnd : ℕ} {interestingAddress : Bool} {indices : List ℕ}
    {space : AddressSpace}
    (h : (AddressSpace.reserveMemoryLoop start stop interestingAddress clStart clEnd indices space).1 = .ok ()) :
    ∀ i ∈ indices, i < 64 := by
  induction indices generalizing space with
  | nil => exact fun i hi => absurd hi List.not_mem_nil
  | cons i rest ih =>
      rw [AddressSpace.reserveMemoryLoop] at h
      by_cases hi : i < 64
      · rw [cluster_of_lt space hi] at h
        dsimp only at h
        split at h
        · exact fun j hj => (List.mem_cons.mp hj).elim (fun heq => heq ▸ hi) (ih h j)
        · cases h
      · rw [cluster_of_not_lt space hi] at h
        cases h

/-- A reservation that runs out of the last cluster raises. -/
theorem reserveMemory_lt {space : AddressSpace} {start stop : ℕ} {interestingAddress : Bool} (hle : start ≤ stop)
    (h : (space.reserveMemory start stop interestingAddress).1 = .ok ()) : stop < 2 ^ 64 := by
  have hmem : AddressSpace.addressToCluster stop ∈ AddressSpace.clusterRange (AddressSpace.addressToCluster start)
      (AddressSpace.addressToCluster stop) := by
    have hmono := addressToCluster_mono hle
    unfold AddressSpace.clusterRange
    rw [List.mem_range'_1]
    omega
  have hlt := reserveMemoryLoop_lt h _ hmem
  have hupper := (inCluster_addressToCluster stop).2
  have hpow : (2 : ℤ) ^ (AddressSpace.addressToCluster stop + 1) ≤ 2 ^ 64 :=
    pow_le_pow_right₀ (by norm_num) (by omega)
  omega

theorem TakenExactly.reserveMemory {space : AddressSpace} {taken : ℤ → Prop} (h : TakenExactly space taken)
    {start stop : ℕ} {interestingAddress : Bool} (hle : start ≤ stop)
    (hok : (space.reserveMemory start stop interestingAddress).1 = .ok ()) :
    TakenExactly (space.reserveMemory start stop interestingAddress).2
      fun b => ((start : ℤ) ≤ b ∧ b ≤ stop) ∨ taken b := by
  obtain ⟨history, hreach, htaken⟩ := h
  refine ⟨_, hreach.reserveMemory start stop interestingAddress, fun b => ?_⟩
  have hlt := reserveMemory_lt hle hok
  rw [taken_cons, htaken]
  refine or_congr_left ⟨fun hb => ⟨hb.1, hb.2.1⟩, fun hb => ⟨hb.1, hb.2, ?_⟩⟩
  omega

theorem TakenExactly.congr {space : AddressSpace} {taken taken' : ℤ → Prop} (h : TakenExactly space taken)
    (hiff : ∀ b, taken b ↔ taken' b) : TakenExactly space taken' := by
  obtain ⟨history, hreach, htaken⟩ := h
  exact ⟨history, hreach, fun b => (htaken b).trans (hiff b)⟩

namespace AddrGen

theorem construct_eq_ok {out : Except AddrGenFault Unit × AddressSpace} {space : AddressSpace}
    (h : construct out = .ok space) : out = (.ok (), space) := by
  obtain ⟨fault | _, space'⟩ := out
  · cases h
  · exact congrArg (Prod.mk _) (Except.ok.inj h)

theorem defineSegments_taken {qualifier : AddressQualifiers} {ranges : List MemoryRange} {taken : ℤ → Prop}
    {space space' : AddressSpace} (h : defineSegments qualifier ranges space = .ok space')
    (htaken : TakenExactly space taken) : TakenExactly space' taken := by
  induction ranges generalizing space with
  | nil => exact Except.ok.inj h ▸ htaken
  | cons range ranges ih =>
      obtain ⟨middle, hmiddle, hrest⟩ := bind_ok h
      obtain rfl := construct_ok hmiddle
      exact ih hrest (htaken.defineSegment qualifier range.start range.stop)

/-- Reserving spans takes the bytes in them and no others. -/
theorem reserveSpans_taken {spans : List (ℤ × ℤ)} {taken : ℤ → Prop} {space space' : AddressSpace}
    (h : reserveSpans spans space = .ok space') (hnonneg : ∀ span ∈ spans, 0 ≤ span.1)
    (htaken : TakenExactly space taken) : TakenExactly space' fun b => InSpans spans b ∨ taken b := by
  induction spans generalizing space taken with
  | nil => exact Except.ok.inj h ▸ htaken.congr fun b => by simp [InSpans]
  | cons span spans ih =>
      obtain ⟨lo, hi⟩ := span
      have hlo : 0 ≤ lo := hnonneg (lo, hi) List.mem_cons_self
      have hrest := fun span hspan => hnonneg span (List.mem_cons_of_mem _ hspan)
      rw [reserveSpans] at h
      split_ifs at h with hle
      · obtain ⟨middle, hmiddle, h⟩ := bind_ok h
        have hout := construct_eq_ok hmiddle
        have hmiddle := htaken.reserveMemory (by omega) (congrArg Prod.fst hout)
        rw [hout] at hmiddle
        refine (ih h hrest hmiddle).congr fun b => ?_
        rw [inSpans_cons, Int.toNat_of_nonneg hlo, Int.toNat_of_nonneg (hlo.trans hle)]
        tauto
      · refine (ih h hrest htaken).congr fun b => ?_
        rw [inSpans_cons]
        have hempty : ¬(lo ≤ b ∧ b ≤ hi) := by omega
        tauto

/-! ### The reserved ranges -/

/-- What `__init__` reserves for one range: all but its last byte, outside the custom ranges. -/
def ReservedFor (customRanges : List (String × MemoryRange)) (range : MemoryRange) (b : ℤ) : Prop :=
  ((range.start : ℤ) ≤ b ∧ b ≤ (range.stop : ℤ) - 1) ∧
    ∀ custom ∈ customRanges, ¬((custom.2.start : ℤ) ≤ b ∧ b ≤ custom.2.stop)

/-- Cutting spans at a list of holes, one hole after the other. -/
theorem inSpans_foldl (holes spans : List (ℤ × ℤ)) (b : ℤ) :
    InSpans (holes.foldl
        (fun segments hole => segments.flatMap fun segment => subtractInclusiveSpan segment.1 segment.2 hole.1 hole.2) spans) b ↔
      InSpans spans b ∧ ∀ hole ∈ holes, ¬(hole.1 ≤ b ∧ b ≤ hole.2) := by
  induction holes generalizing spans with
  | nil => simp
  | cons hole rest ih =>
      have hpiece : InSpans (spans.flatMap fun segment => subtractInclusiveSpan segment.1 segment.2 hole.1 hole.2) b ↔
          InSpans spans b ∧ ¬(hole.1 ≤ b ∧ b ≤ hole.2) := by
        simp only [inSpans_flatMap, inSpans_subtractInclusiveSpan]
        exact ⟨fun ⟨span, hspan, hin, hout⟩ => ⟨⟨span, hspan, hin⟩, hout⟩,
          fun ⟨⟨span, hspan, hin⟩, hout⟩ => ⟨span, hspan, hin, hout⟩⟩
      rw [List.foldl_cons, ih, hpiece, List.forall_mem_cons, and_assoc]

theorem inSpans_foldl_subtract (customRanges : List (String × MemoryRange)) (spans : List (ℤ × ℤ)) (b : ℤ) :
    InSpans (customRanges.foldl (fun segments custom => segments.flatMap fun segment =>
        subtractInclusiveSpan segment.1 segment.2 custom.2.start custom.2.stop) spans) b ↔
      InSpans spans b ∧ ∀ custom ∈ customRanges, ¬((custom.2.start : ℤ) ≤ b ∧ b ≤ custom.2.stop) := by
  have hmap := inSpans_foldl (customRanges.map fun custom => ((custom.2.start : ℤ), (custom.2.stop : ℤ))) spans b
  rwa [List.foldl_map, List.forall_mem_map] at hmap

theorem foldl_subtract_nonneg (customRanges : List (String × MemoryRange)) (spans : List (ℤ × ℤ))
    (h : ∀ span ∈ spans, 0 ≤ span.1) :
    ∀ span ∈ customRanges.foldl (fun segments custom => segments.flatMap fun segment =>
        subtractInclusiveSpan segment.1 segment.2 custom.2.start custom.2.stop) spans, 0 ≤ span.1 := by
  induction customRanges generalizing spans with
  | nil => exact h
  | cons custom rest ih =>
      refine ih _ fun span hspan => ?_
      obtain ⟨segment, hsegment, hpiece⟩ := List.mem_flatMap.mp hspan
      exact (h segment hsegment).trans (le_of_mem_subtractInclusiveSpan hpiece)

theorem inSpans_outsideHoles {customRanges : List (String × MemoryRange)} {range : MemoryRange} {b : ℤ} :
    InSpans (outsideHoles customRanges range) b ↔ ReservedFor customRanges range b := by
  unfold outsideHoles ReservedFor
  rw [inSpans_foldl_subtract]
  refine and_congr_left fun _ => ?_
  split_ifs with hle
  · simp [InSpans]
  · simp only [InSpans, List.not_mem_nil, false_and, exists_false, false_iff]
    omega

theorem outsideHoles_nonneg (customRanges : List (String × MemoryRange)) (range : MemoryRange) :
    ∀ span ∈ outsideHoles customRanges range, 0 ≤ span.1 := by
  refine foldl_subtract_nonneg _ _ fun span hspan => ?_
  split_ifs at hspan
  · rw [List.mem_singleton.mp hspan]
    exact Int.natCast_nonneg _
  · exact absurd hspan List.not_mem_nil

theorem reserveRanges_taken {customRanges : List (String × MemoryRange)} {ranges : List MemoryRange}
    {taken taken' : ℤ → Prop} {spaces spaces' : AddressSpace × AddressSpace}
    (h : reserveRanges customRanges ranges spaces = .ok spaces') (hphysical : TakenExactly spaces.1 taken)
    (hlinear : TakenExactly spaces.2 taken') :
    TakenExactly spaces'.1 (fun b => (∃ range ∈ ranges, ReservedFor customRanges range b) ∨ taken b) ∧
      TakenExactly spaces'.2 (fun b => (∃ range ∈ ranges, ReservedFor customRanges range b) ∨ taken' b) := by
  induction ranges generalizing spaces taken taken' with
  | nil =>
      obtain rfl := Except.ok.inj h
      exact ⟨hphysical.congr fun b => by simp, hlinear.congr fun b => by simp⟩
  | cons range ranges ih =>
      obtain ⟨physical, linear⟩ := spaces
      obtain ⟨reserved, hreserved, h⟩ := bind_ok h
      obtain ⟨linear', hlinear', h⟩ := bind_ok h
      obtain ⟨defined, hdefined, hrest⟩ := bind_ok h
      obtain rfl := construct_ok hdefined
      have hnonneg := outsideHoles_nonneg customRanges range
      have hphysical := (reserveSpans_taken hreserved hnonneg hphysical).defineSegment .addressReserved
        range.start range.stop
      obtain ⟨hphysical, hlinear⟩ := ih hrest hphysical (reserveSpans_taken hlinear' hnonneg hlinear)
      refine ⟨hphysical.congr fun b => ?_, hlinear.congr fun b => ?_⟩
      all_goals
        rw [inSpans_outsideHoles, List.exists_mem_cons_iff, or_assoc]
        exact or_left_comm

/-- A fresh generator has reserved, in both spaces, the reserved ranges without their last bytes. -/
theorem init_taken {mem : Memory} {limitIndices limitWayPredictorMultihit : Bool} {gen : AddrGen}
    (h : init mem limitIndices limitWayPredictorMultihit = .ok gen) :
    TakenExactly gen.physicalAddrSpace (fun b => ∃ range ∈ mem.reservedRanges, ReservedFor mem.customRanges range b) ∧
      TakenExactly gen.linearAddrSpace (fun b => ∃ range ∈ mem.reservedRanges, ReservedFor mem.customRanges range b) := by
  unfold init at h
  obtain ⟨dram, hdram, h⟩ := bind_ok h
  obtain ⟨io, hio, h⟩ := bind_ok h
  obtain ⟨secure, hsecure, h⟩ := bind_ok h
  obtain ⟨spaces, hspaces, h⟩ := bind_ok h
  obtain ⟨physical, hphysical, h⟩ := bind_ok h
  obtain ⟨linear, hlinear, h⟩ := bind_ok h
  obtain rfl := Except.ok.inj h
  have hsecure := defineSegments_taken hsecure (defineSegments_taken hio (defineSegments_taken hdram takenExactly_init))
  obtain ⟨hreserved, hreserved'⟩ := reserveRanges_taken hspaces hsecure takenExactly_init
  have hdefine := construct_ok hlinear
  subst hdefine
  exact ⟨(defineSegments_taken hphysical hreserved).congr fun b => (or_false _).to_iff,
    (hreserved'.defineSegment .addressLinear 0 (2 ^ 57 - 1)).congr fun b => (or_false _).to_iff⟩

/-- The byte lies in a reserved range, its last byte included, and in no custom range. -/
def Reserved (mem : Memory) (b : ℕ) : Prop :=
  (∃ range ∈ mem.reservedRanges, range.start ≤ b ∧ b ≤ range.stop) ∧
    ∀ custom ∈ mem.customRanges, ¬(custom.2.start ≤ b ∧ b ≤ custom.2.stop)

/-- In both spaces exactly these bytes are marked allocated. -/
def FullyReserved (mem : Memory) (gen : AddrGen) : Prop :=
  ∀ b : ℕ, (Allocated gen.physicalAddrSpace b ↔ Reserved mem b) ∧ (Allocated gen.linearAddrSpace b ↔ Reserved mem b)

/-- The last byte of every reserved range is in a custom range or inside another reserved range. -/
def LastBytesCovered (mem : Memory) : Prop :=
  ∀ range ∈ mem.reservedRanges,
    (∃ custom ∈ mem.customRanges, custom.2.start ≤ range.stop ∧ range.stop ≤ custom.2.stop) ∨
      ∃ other ∈ mem.reservedRanges, other.start ≤ range.stop ∧ range.stop < other.stop

theorem exists_reservedFor_iff {mem : Memory} {b : ℕ} :
    (∃ range ∈ mem.reservedRanges, ReservedFor mem.customRanges range b) ↔
      (∃ range ∈ mem.reservedRanges, range.start ≤ b ∧ b < range.stop) ∧
        ∀ custom ∈ mem.customRanges, ¬(custom.2.start ≤ b ∧ b ≤ custom.2.stop) := by
  have hcast : ∀ range : MemoryRange, b < range.stop ↔ (b : ℤ) ≤ (range.stop : ℤ) - 1 := fun range => by omega
  simp only [ReservedFor, Nat.cast_le, hcast]
  constructor
  · rintro ⟨range, hrange, hb, hout⟩
    exact ⟨⟨range, hrange, hb⟩, hout⟩
  · rintro ⟨⟨range, hrange, hb⟩, hout⟩
    exact ⟨range, hrange, hb, hout⟩

/-- The reserved ranges are fully reserved exactly when no last byte depends on its own range. -/
theorem fullyReserved_iff {mem : Memory} {limitIndices limitWayPredictorMultihit : Bool} {gen : AddrGen}
    (h : init mem limitIndices limitWayPredictorMultihit = .ok gen) :
    FullyReserved mem gen ↔ LastBytesCovered mem := by
  obtain ⟨hphysical, hlinear⟩ := init_taken h
  have hallocated : ∀ b : ℕ, (Allocated gen.physicalAddrSpace b ↔ _) ∧ (Allocated gen.linearAddrSpace b ↔ _) :=
    fun b => ⟨(hphysical.allocated b).trans exists_reservedFor_iff, (hlinear.allocated b).trans exists_reservedFor_iff⟩
  constructor
  · intro hfully range hrange
    by_cases hcustom : ∃ custom ∈ mem.customRanges, custom.2.start ≤ range.stop ∧ range.stop ≤ custom.2.stop
    · exact .inl hcustom
    · have hpos := range.pos
      have hlast : range.start ≤ range.stop := by
        unfold MemoryRange.stop
        omega
      have hreserved : Reserved mem range.stop :=
        ⟨⟨range, hrange, hlast, le_rfl⟩, fun custom hmem hin => hcustom ⟨custom, hmem, hin⟩⟩
      exact .inr ((hallocated range.stop).1.mp ((hfully range.stop).1.mpr hreserved)).1
  · intro hcovered b
    have hiff : ((∃ range ∈ mem.reservedRanges, range.start ≤ b ∧ b < range.stop) ∧
        ∀ custom ∈ mem.customRanges, ¬(custom.2.start ≤ b ∧ b ≤ custom.2.stop)) ↔ Reserved mem b := by
      refine and_congr_left fun hout => ⟨?_, ?_⟩
      · rintro ⟨range, hrange, hlower, hupper⟩
        exact ⟨range, hrange, hlower, hupper.le⟩
      · rintro ⟨range, hrange, hlower, hupper⟩
        rcases hupper.lt_or_eq with hlt | rfl
        · exact ⟨range, hrange, hlower, hlt⟩
        · rcases hcovered range hrange with ⟨custom, hmem, hin⟩ | hother
          · exact absurd hin (hout custom hmem)
          · exact hother
    exact ⟨(hallocated b).1.trans hiff, (hallocated b).2.trans hiff⟩

/-- A memory map with one reserved page, whose second half is the start of a custom range. -/
def customReserved : Memory :=
  { noRanges with
    reservedRanges := [⟨0x1000, 0x1000, by decide⟩]
    customRanges := [("custom", ⟨0x1800, 0x1000, by decide⟩)] }

/-- The custom range has the last byte of the reserved page. -/
theorem fullyReserved_customReserved :
    ∃ gen, init customReserved false false = .ok gen ∧ FullyReserved customReserved gen := by
  obtain ⟨gen, hgen⟩ := exists_ok (x := init customReserved false false) (by decide +kernel)
  refine ⟨gen, hgen, (fullyReserved_iff hgen).mpr fun range hrange => .inl ⟨_, List.mem_cons_self, ?_⟩⟩
  obtain rfl := List.mem_singleton.mp hrange
  exact ⟨by decide, by decide⟩

/-- A memory map with one reserved page. -/
def oneReserved : Memory := { noRanges with reservedRanges := [⟨0x1000, 0x1000, by decide⟩] }

/-- The last byte of the only reserved page stays free. -/
theorem not_fullyReserved_oneReserved :
    ∃ gen, init oneReserved false false = .ok gen ∧ ¬FullyReserved oneReserved gen := by
  obtain ⟨gen, hgen⟩ := exists_ok (x := init oneReserved false false) (by decide +kernel)
  refine ⟨gen, hgen, fun hfully => ?_⟩
  have hreserved : Reserved oneReserved 0x1fff :=
    ⟨⟨_, List.mem_cons_self, by decide, by decide⟩, fun _ hmem => absurd hmem List.not_mem_nil⟩
  have hallocated := (hfully 0x1fff).1.mpr hreserved
  rw [(init_taken hgen).1.allocated, exists_reservedFor_iff] at hallocated
  obtain ⟨⟨range, hrange, _, hlt⟩, _⟩ := hallocated
  obtain rfl := List.mem_singleton.mp hrange
  exact absurd hlt (by decide)

end AddrGen
end Riescue.Addrgen
