import Riescue.AddrgenFacade
import Riescue.LibExcept
import Riescue.AddrgenServes

/-! The states an address generator reaches. Each of its address spaces only makes calls that an address space
can make, so what holds of every reachable space holds of both; the linear one has the one segment that the
constructor defines. -/

namespace Riescue.Addrgen
open Fallible

/-- The space makes further `reserve_memory` and `generate_address` calls. -/
inductive Grows (space : AddressSpace) : AddressSpace → Prop where
  | refl : Grows space space
  | reserveMemory {space' : AddressSpace} (h : Grows space space') (start stop : ℕ) (interestingAddress : Bool) :
      Grows space (space'.reserveMemory start stop interestingAddress).2
  | generateAddress {space' : AddressSpace} (h : Grows space space') (constraint : AddressConstraint)
      (rng : RandNum) : Grows space (space'.generateAddress constraint rng).2.1

theorem Grows.trans {a b c : AddressSpace} (hab : Grows a b) (hbc : Grows b c) : Grows a c := by
  induction hbc with
  | refl => exact hab
  | reserveMemory _ start stop interestingAddress ih => exact ih.reserveMemory start stop interestingAddress
  | generateAddress _ constraint rng ih => exact ih.generateAddress constraint rng

/-- Growing adds calls to the history, none of which defines a segment. -/
theorem Grows.reachable {history : List Event} {space space' : AddressSpace} (h : Reachable history space)
    (hgrows : Grows space space') :
    ∃ later, Reachable (later ++ history) space' ∧ ∀ q start stop, Event.segment q start stop ∉ later := by
  induction hgrows with
  | refl => exact ⟨[], h, fun _ _ _ => List.not_mem_nil⟩
  | reserveMemory _ start stop interestingAddress ih =>
      obtain ⟨later, hreach, hno⟩ := ih
      exact ⟨.reserved start stop :: later, hreach.reserveMemory start stop interestingAddress, by simpa using hno⟩
  | generateAddress _ constraint rng ih =>
      obtain ⟨later, hreach, hno⟩ := ih
      exact ⟨.generated constraint _ :: later, hreach.generateAddress constraint rng, by simpa using hno⟩

theorem Taken.append {history : List Event} {b : ℤ} (h : Taken history b) (later : List Event) :
    Taken (later ++ history) b := by
  obtain ⟨event, hevent, htakes⟩ := h
  exact ⟨event, List.mem_append_right later hevent, htakes⟩

/-! ### The qualifiers with segments -/

theorem reserveMemoryLoop_subClusters (start stop clStart clEnd : ℕ) (interestingAddress : Bool)
    (indices : List ℕ) (space : AddressSpace) :
    (AddressSpace.reserveMemoryLoop start stop interestingAddress clStart clEnd indices space).2.subClusters =
      space.subClusters := by
  induction indices generalizing space with
  | nil => rfl
  | cons i rest ih =>
      rw [AddressSpace.reserveMemoryLoop]
      split
      · rfl
      · dsimp only
        split
        · rw [ih]
          rfl
        · rfl

theorem tryClusters_subClusters (constraint : AddressConstraint) (indices : List ℕ) (space : AddressSpace)
    (rng : RandNum) :
    (AddressSpace.tryClusters constraint indices space rng).2.1.subClusters = space.subClusters := by
  induction indices generalizing space rng with
  | nil => rfl
  | cons i rest ih =>
      rw [AddressSpace.tryClusters]
      split
      · rfl
      · split
        · rfl
        · split
          · split
            · rfl
            · rw [ih]
              rfl
            · rfl
          · rw [ih]

theorem generateAddress_subClusters (space : AddressSpace) (constraint : AddressConstraint) (rng : RandNum) :
    (space.generateAddress constraint rng).2.1.subClusters = space.subClusters := by
  unfold AddressSpace.generateAddress
  split
  · rfl
  · split
    · rfl
    · exact tryClusters_subClusters _ _ _ _

theorem Grows.subClusters_eq {space space' : AddressSpace} (h : Grows space space') :
    space'.subClusters = space.subClusters := by
  induction h with
  | refl => rfl
  | reserveMemory _ start stop interestingAddress ih =>
      exact (reserveMemoryLoop_subClusters _ _ _ _ _ _ _).trans ih
  | generateAddress _ constraint rng ih => exact (generateAddress_subClusters _ _ _).trans ih

/-! ### What the generator does to its spaces -/

namespace AddrGen

/-- The states of a generator: constructed for any memory map and options, then called in any way. A call that
raises may be followed by others. -/
inductive Reachable : AddrGen → Prop where
  | init {mem : Memory} {limitIndices limitWayPredictorMultihit : Bool} {gen : AddrGen}
      (h : init mem limitIndices limitWayPredictorMultihit = .ok gen) : Reachable gen
  | reserveMemory {gen : AddrGen} (h : Reachable gen) (addressType : AddressType) (startAddress size : ℕ)
      (interestingAddress : Bool) :
      Reachable (gen.reserveMemory addressType startAddress size interestingAddress).2
  | generateAddress {gen : AddrGen} (h : Reachable gen) (constraint : AddressConstraint)
      (customRegion : Option String) (rng : RandNum) :
      Reachable (gen.generateAddress constraint customRegion rng).2.1

/-- Both spaces grow. -/
structure Steps (gen gen' : AddrGen) : Prop where
  linear : Grows gen.linearAddrSpace gen'.linearAddrSpace
  physical : Grows gen.physicalAddrSpace gen'.physicalAddrSpace

theorem Steps.refl (gen : AddrGen) : Steps gen gen := ⟨.refl, .refl⟩

theorem Steps.trans {a b c : AddrGen} (hab : Steps a b) (hbc : Steps b c) : Steps a c :=
  ⟨hab.linear.trans hbc.linear, hab.physical.trans hbc.physical⟩

theorem reserveLinear_steps (gen : AddrGen) (start stop : ℤ) (interestingAddress : Bool) :
    Steps gen (gen.reserveLinear start stop interestingAddress).2 := by
  unfold reserveLinear
  split_ifs
  · exact .refl gen
  · exact ⟨Grows.refl.reserveMemory _ _ _, .refl⟩

theorem reservePhysical_steps (gen : AddrGen) (start stop : ℤ) (interestingAddress : Bool) :
    Steps gen (gen.reservePhysical start stop interestingAddress).2 := by
  unfold reservePhysical
  split_ifs
  · exact .refl gen
  · exact ⟨.refl, Grows.refl.reserveMemory _ _ _⟩

theorem reserveMemory_steps (gen : AddrGen) (addressType : AddressType) (startAddress size : ℕ)
    (interestingAddress : Bool) :
    Steps gen (gen.reserveMemory addressType startAddress size interestingAddress).2 := by
  unfold reserveMemory
  cases addressType
  case linear => exact reserveLinear_steps _ _ _ _
  case physical => exact reservePhysical_steps _ _ _ _
  case memory =>
    have hlinear := reserveLinear_steps gen startAddress (startAddress + size - 1) interestingAddress
    dsimp only
    generalize gen.reserveLinear startAddress (startAddress + size - 1) interestingAddress = out at hlinear
    obtain ⟨fault | _, middle⟩ := out
    · exact hlinear
    · exact hlinear.trans (reservePhysical_steps _ _ _ _)
  all_goals exact .refl gen

theorem generateLinear_steps (gen : AddrGen) (constraint : AddressConstraint) (rng : RandNum) :
    Steps gen (gen.generateLinear constraint rng).2.1 :=
  ⟨Grows.refl.generateAddress constraint rng, .refl⟩

theorem generatePhysical_steps (gen : AddrGen) (constraint : AddressConstraint) (rng : RandNum) :
    Steps gen (gen.generatePhysical constraint rng).2.1 :=
  ⟨.refl, Grows.refl.generateAddress constraint rng⟩

theorem generateAndReserveMemory_steps (constraint : AddressConstraint) (tries : ℕ) (gen : AddrGen)
    (rng : RandNum) : Steps gen (generateAndReserveMemory constraint tries gen rng).2.1 := by
  induction tries generalizing gen rng with
  | zero => exact .refl gen
  | succ tries ih =>
      have hdrawn := generateLinear_steps gen constraint rng
      rw [generateAndReserveMemory]
      generalize gen.generateLinear constraint rng = drawn at hdrawn
      obtain ⟨fault | address, middle, rng⟩ := drawn
      · exact hdrawn
      · dsimp only
        split
        · exact hdrawn
        · exact hdrawn.trans (ih _ _)
        · split_ifs
          · exact hdrawn
          · have hlinear := reserveLinear_steps middle address (address + constraint.size) false
            generalize middle.reserveLinear address (address + constraint.size) false = out at hlinear
            obtain ⟨fault | _, reserved⟩ := out
            · exact hdrawn.trans hlinear
            · exact (hdrawn.trans hlinear).trans (reservePhysical_steps _ _ _ _)

theorem restrict_spaces (gen : AddrGen) (constraint : AddressConstraint) (address : ℤ) :
    (gen.restrict constraint address).2.linearAddrSpace = gen.linearAddrSpace ∧
      (gen.restrict constraint address).2.physicalAddrSpace = gen.physicalAddrSpace := by
  unfold restrict
  split_ifs <;> exact ⟨rfl, rfl⟩

theorem generateFor_steps (gen : AddrGen) (constraint : AddressConstraint) (rng : RandNum) :
    Steps gen (gen.generateFor constraint rng).2.1 := by
  unfold generateFor
  split
  · exact generateAndReserveMemory_steps _ _ _ _
  · exact generateLinear_steps _ _ _
  · exact generatePhysical_steps _ _ _
  · exact .refl gen

theorem generateAddress_steps (gen : AddrGen) (constraint : AddressConstraint) (customRegion : Option String)
    (rng : RandNum) : Steps gen (gen.generateAddress constraint customRegion rng).2.1 := by
  unfold generateAddress
  split
  · exact .refl gen
  · rename_i resolved _
    split
    · exact .refl gen
    · have hdrawn := generateFor_steps gen resolved rng
      generalize gen.generateFor resolved rng = drawn at hdrawn
      obtain ⟨fault | address, middle, rng⟩ := drawn
      · exact hdrawn
      · obtain ⟨hlinear, hphysical⟩ := restrict_spaces middle resolved address
        constructor
        · dsimp only
          rw [hlinear]
          exact hdrawn.linear
        · dsimp only
          rw [hphysical]
          exact hdrawn.physical

/-! ### The constructor -/

theorem construct_ok {out : Except AddrGenFault Unit × AddressSpace} {space : AddressSpace}
    (h : construct out = .ok space) : space = out.2 := by
  obtain ⟨fault | _, space'⟩ := out
  · cases h
  · exact (Except.ok.inj h).symm

theorem defineSegments_reachable {qualifier : AddressQualifiers} {ranges : List MemoryRange}
    {space space' : AddressSpace} (h : defineSegments qualifier ranges space = .ok space')
    (hreach : ∃ history, Addrgen.Reachable history space) : ∃ history, Addrgen.Reachable history space' := by
  induction ranges generalizing space with
  | nil => exact Except.ok.inj h ▸ hreach
  | cons range ranges ih =>
      obtain ⟨middle, hmiddle, hrest⟩ := bind_ok h
      obtain rfl := construct_ok hmiddle
      obtain ⟨history, hreach⟩ := hreach
      exact ih hrest ⟨_, hreach.defineSegment qualifier range.start range.stop⟩

theorem reserveSpans_grows {spans : List (ℤ × ℤ)} {space space' : AddressSpace}
    (h : reserveSpans spans space = .ok space') : Grows space space' := by
  induction spans generalizing space with
  | nil => exact Except.ok.inj h ▸ .refl
  | cons span spans ih =>
      obtain ⟨lo, hi⟩ := span
      rw [reserveSpans] at h
      split_ifs at h
      · obtain ⟨middle, hmiddle, hrest⟩ := bind_ok h
        obtain rfl := construct_ok hmiddle
        exact (Grows.refl.reserveMemory _ _ _).trans (ih hrest)
      · exact ih h

theorem reserveRanges_spec {customRanges : List (String × MemoryRange)} {ranges : List MemoryRange}
    {spaces spaces' : AddressSpace × AddressSpace} (h : reserveRanges customRanges ranges spaces = .ok spaces')
    (hreach : ∃ history, Addrgen.Reachable history spaces.1) :
    (∃ history, Addrgen.Reachable history spaces'.1) ∧ Grows spaces.2 spaces'.2 := by
  induction ranges generalizing spaces with
  | nil => exact Except.ok.inj h ▸ ⟨hreach, .refl⟩
  | cons range ranges ih =>
      obtain ⟨physical, linear⟩ := spaces
      obtain ⟨reserved, hreserved, h⟩ := bind_ok h
      obtain ⟨linear', hlinear, h⟩ := bind_ok h
      obtain ⟨defined, hdefined, hrest⟩ := bind_ok h
      obtain rfl := construct_ok hdefined
      obtain ⟨history, hreach⟩ := hreach
      obtain ⟨later, hlater, _⟩ := (reserveSpans_grows hreserved).reachable hreach
      obtain ⟨hphysical, hgrows⟩ := ih hrest ⟨_, hlater.defineSegment .addressReserved range.start range.stop⟩
      exact ⟨hphysical, (reserveSpans_grows hlinear).trans hgrows⟩

theorem addSubCluster_ne_nil (qualifier : AddressQualifiers) (i : ℕ)
    (subClusters : List (AddressQualifiers × List ℕ)) :
    AddressSpace.addSubCluster qualifier i subClusters ≠ [] := by
  cases subClusters with
  | nil => exact List.cons_ne_nil _ _
  | cons entry rest =>
      obtain ⟨q, indices⟩ := entry
      rw [AddressSpace.addSubCluster]
      split_ifs <;> exact List.cons_ne_nil _ _

theorem defineSegmentLoop_subClusters {qualifier : AddressQualifiers} {start stop startCluster endCluster : ℕ}
    {indices : List ℕ} {space : AddressSpace}
    (hok : (AddressSpace.defineSegmentLoop qualifier start stop startCluster endCluster indices space).1 = .ok ())
    (h : space.subClusters ≠ [] ∨ indices ≠ []) :
    (AddressSpace.defineSegmentLoop qualifier start stop startCluster endCluster indices space).2.subClusters ≠ [] := by
  induction indices generalizing space with
  | nil => exact h.resolve_right fun hne => hne rfl
  | cons i rest ih =>
      rw [AddressSpace.defineSegmentLoop] at hok ⊢
      split at hok
      · cases hok
      · dsimp only at hok ⊢
        split at hok
        · cases hok
        · exact ih hok (.inl (addSubCluster_ne_nil _ _ _))

/-- The linear space has the one segment `[0, 2^57 - 1]`. -/
structure LinearTrace (history : List Event) (space : AddressSpace) : Prop where
  reachable : Addrgen.Reachable history space
  segments : ∀ q start stop, Event.segment q start stop ∈ history → stop = 2 ^ 57 - 1
  keys : space.subClusters ≠ []

theorem LinearTrace.grows {history : List Event} {space space' : AddressSpace} (h : LinearTrace history space)
    (hgrows : Grows space space') : ∃ later, LinearTrace (later ++ history) space' := by
  obtain ⟨later, hreach, hno⟩ := hgrows.reachable h.reachable
  refine ⟨later, hreach, fun q start stop hmem => ?_, hgrows.subClusters_eq ▸ h.keys⟩
  rcases List.mem_append.mp hmem with hlater | hbefore
  · exact absurd hlater (hno q start stop)
  · exact h.segments q start stop hbefore

/-- Both spaces of a generator are spaces that calls have led to. -/
structure Traced (gen : AddrGen) : Prop where
  linear : ∃ history, LinearTrace history gen.linearAddrSpace
  physical : ∃ history, Addrgen.Reachable history gen.physicalAddrSpace

theorem Traced.steps {gen gen' : AddrGen} (h : Traced gen) (hsteps : Steps gen gen') : Traced gen' where
  linear := by
    obtain ⟨history, htrace⟩ := h.linear
    obtain ⟨later, hlater⟩ := htrace.grows hsteps.linear
    exact ⟨_, hlater⟩
  physical := by
    obtain ⟨history, hreach⟩ := h.physical
    obtain ⟨later, hlater, _⟩ := hsteps.physical.reachable hreach
    exact ⟨_, hlater⟩

theorem traced_init {mem : Memory} {limitIndices limitWayPredictorMultihit : Bool} {gen : AddrGen}
    (h : init mem limitIndices limitWayPredictorMultihit = .ok gen) : Traced gen := by
  unfold init at h
  obtain ⟨dram, hdram, h⟩ := bind_ok h
  obtain ⟨io, hio, h⟩ := bind_ok h
  obtain ⟨secure, hsecure, h⟩ := bind_ok h
  obtain ⟨spaces, hspaces, h⟩ := bind_ok h
  obtain ⟨physical, hphysical, h⟩ := bind_ok h
  obtain ⟨linear, hlinear, h⟩ := bind_ok h
  obtain rfl := Except.ok.inj h
  have hsecure := defineSegments_reachable hsecure
    (defineSegments_reachable hio (defineSegments_reachable hdram ⟨_, .fresh⟩))
  obtain ⟨hreserved, hgrows⟩ := reserveRanges_spec hspaces hsecure
  refine ⟨?_, defineSegments_reachable hphysical hreserved⟩
  obtain ⟨later, hlater, hno⟩ := hgrows.reachable .fresh
  have hdefine := construct_ok hlinear
  subst hdefine
  refine ⟨_, hlater.defineSegment .addressLinear 0 (2 ^ 57 - 1), fun q start stop hmem => ?_, ?_⟩
  · rcases List.mem_cons.mp hmem with heq | hmem
    · exact (Event.segment.inj heq).2.2
    · rw [List.append_nil] at hmem
      exact absurd hmem (hno q start stop)
  · have hok : (spaces.2.defineSegment .addressLinear 0 (2 ^ 57 - 1)).1 = .ok () := by
      generalize spaces.2.defineSegment .addressLinear 0 (2 ^ 57 - 1) = out at hlinear
      obtain ⟨fault | _, space⟩ := out
      · cases hlinear
      · rfl
    refine defineSegmentLoop_subClusters hok (.inr ?_)
    decide

theorem Reachable.traced {gen : AddrGen} (h : Reachable gen) : Traced gen := by
  induction h with
  | init h => exact traced_init h
  | reserveMemory _ addressType startAddress size interestingAddress ih =>
      exact ih.steps (reserveMemory_steps _ _ _ _ _)
  | generateAddress _ constraint customRegion rng ih => exact ih.steps (generateAddress_steps _ _ _ _)

end AddrGen
end Riescue.Addrgen
