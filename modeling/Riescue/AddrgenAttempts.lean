import Riescue.AddrgenAtomic

/-! The attempts of `_generate_and_reserve_memory`. Each picks a candidate in the linear space, asks whether both
spaces are free there, and reserves it in both. The pick is already an allocation, so the answer is always no. -/

namespace Riescue.Addrgen
open Spans AddressCluster

/-- No byte of the `size` bytes from `a` is allocated in the space. -/
def FreeIn (space : AddressSpace) (a : ℤ) (size : ℕ) : Prop := ∀ b, a ≤ b → b ≤ a + size - 1 → ¬Allocated space b

namespace AddrGen
variable {gen gen' : AddrGen} {constraint : AddressConstraint} {a : ℤ}

/-- A generator at the start of an attempt that has `tries` attempts behind it, itself included, whatever the
earlier attempts have drawn. -/
inductive AttemptState (constraint : AddressConstraint) (gen : AddrGen) : ℕ → AddrGen → Prop where
  | first : AttemptState constraint gen 10 gen
  | retry {tries : ℕ} {gen' : AddrGen} {a : ℤ} {rng : RandNum} (h : AttemptState constraint gen (tries + 1) gen')
      (hdrawn : (gen'.generateLinear constraint rng).1 = .ok a)
      (hoverlap : (gen'.generateLinear constraint rng).2.1.bothFree a constraint.size = .ok false) :
      AttemptState constraint gen tries (gen'.generateLinear constraint rng).2.1

theorem AttemptState.steps {tries : ℕ} (h : AttemptState constraint gen tries gen') : Steps gen gen' := by
  induction h with
  | first => exact .refl gen
  | retry _ _ _ ih => exact ih.trans (generateLinear_steps _ _ _)

/-- The attempts leave the physical space alone. -/
theorem AttemptState.physical {tries : ℕ} (h : AttemptState constraint gen tries gen') :
    gen'.physicalAddrSpace = gen.physicalAddrSpace := by
  induction h with
  | first => rfl
  | retry _ _ _ ih => exact ih

/-- Every candidate that the attempts draw collides with the physical space. -/
def AllCollide (constraint : AddressConstraint) : ℕ → AddrGen → RandNum → Prop
  | 0, _, _ => True
  | tries + 1, gen, rng =>
      ∀ a, (gen.generateLinear constraint rng).1 = .ok a →
        ¬FreeIn gen.physicalAddrSpace a constraint.size ∧
          AllCollide constraint tries (gen.generateLinear constraint rng).2.1 (gen.generateLinear constraint rng).2.2

/-- From `gen` to `gen'` exactly the `size` bytes from `a` have become allocated, in both spaces. -/
structure AllocatedOnly (gen gen' : AddrGen) (a : ℤ) (size : ℕ) : Prop where
  linear : ∀ b, Allocated gen'.linearAddrSpace b ↔
    Allocated gen.linearAddrSpace b ∨ a ≤ b ∧ b ≤ a + size - 1
  physical : ∀ b, Allocated gen'.physicalAddrSpace b ↔
    Allocated gen.physicalAddrSpace b ∨ a ≤ b ∧ b ≤ a + size - 1

/-- An attempt whose candidate is free in both spaces takes it; a call whose candidates all collide with the
physical space raises. -/
structure TakesFreeCandidate (gen : AddrGen) (constraint : AddressConstraint) : Prop where
  takes : ∀ tries gen' rng a, AttemptState constraint gen (tries + 1) gen' →
    (gen'.generateLinear constraint rng).1 = .ok a →
    FreeIn gen'.linearAddrSpace a constraint.size → FreeIn gen'.physicalAddrSpace a constraint.size →
    (generateAndReserveMemory constraint (tries + 1) gen' rng).1 = .ok a ∧
      AllocatedOnly gen' (generateAndReserveMemory constraint (tries + 1) gen' rng).2.1 a constraint.size
  raises : ∀ rng, AllCollide constraint 10 gen rng →
    ∃ fault, (generateAndReserveMemory constraint 10 gen rng).1 = .error fault

/-- No attempt starts where the linear space can hand out a range that is free in the physical space. -/
def NoFreeCandidate (gen : AddrGen) (constraint : AddressConstraint) : Prop :=
  ∀ tries gen' a, AttemptState constraint gen (tries + 1) gen' → Serves gen'.linearAddrSpace constraint a →
    ¬FreeIn gen.physicalAddrSpace a constraint.size

/-- What the linear space picks is free in it. -/
theorem linear_free (h : Traced gen) {rng : RandNum} (ha : (gen.generateLinear constraint rng).1 = .ok a) :
    FreeIn gen.linearAddrSpace a constraint.size := by
  intro b hlower hupper hallocated
  obtain ⟨history, htrace⟩ := h.linear
  obtain ⟨hnonneg, _, hfree⟩ := linear_picked htrace (generateLinear_ok ha)
  exact hfree b hlower hupper ((allocated_iff htrace.reachable (by omega)).mp hallocated)

/-- A free candidate is taken exactly when there never is one: every attempt that draws an address fails. -/
theorem takesFreeCandidate_iff (h : Reachable gen) (hvalid : constraint.validateConstraints = .ok ())
    (hallocate : constraint.dontAllocate = false) :
    TakesFreeCandidate gen constraint ↔ NoFreeCandidate gen constraint := by
  constructor
  · intro htakes tries gen' a hattempt hserves hfree
    have htraced := h.traced.steps hattempt.steps
    obtain ⟨rng, hdrawn⟩ := exists_generateLinear hvalid hserves
    have hok := (htakes.takes tries gen' rng a hattempt hdrawn (linear_free htraced hdrawn)
      (by rw [hattempt.physical]; exact hfree)).1
    obtain ⟨fault, hfault, _⟩ := generateAndReserveMemory_raises htraced hvalid hallocate (tries + 1) rng
    rw [hok] at hfault
    cases hfault
  · intro hnone
    constructor
    · intro tries gen' rng a hattempt hdrawn _ hfree
      rw [hattempt.physical] at hfree
      exact absurd hfree (hnone tries gen' a hattempt (serves_of_generateLinear hvalid hdrawn))
    · intro rng _
      obtain ⟨fault, hfault, _⟩ := generateAndReserveMemory_raises h.traced hvalid hallocate 10 rng
      exact ⟨fault, hfault⟩

/-- The equivalence at a generator without allocations. -/
theorem takesFreeCandidate_iff_freshGen :
    TakesFreeCandidate freshGen { type := .memory } ↔ NoFreeCandidate freshGen { type := .memory } :=
  takesFreeCandidate_iff (.init init_freshGen) rfl rfl

theorem freeIn_freshGen (a : ℤ) (size : ℕ) :
    FreeIn freshGen.linearAddrSpace a size ∧ FreeIn freshGen.physicalAddrSpace a size := by
  have hspans : ∀ i, (freshGen.linearAddrSpace.clusters i).allocatedAddresses.spans = [] ∧
      (freshGen.physicalAddrSpace.clusters i).allocatedAddresses.spans = [] := by decide +kernel
  refine ⟨fun b _ _ => ?_, fun b _ _ => ?_⟩
  all_goals
    rintro ⟨i, span, hspan, _⟩
    obtain ⟨hlinear, hphysical⟩ := hspans i
    simp [SpanSet.mem_iff, hlinear, hphysical] at hspan

/-- Nothing is allocated in either space, and still the first request raises. -/
theorem not_takesFreeCandidate_freshGen :
    Reachable freshGen ∧ ¬TakesFreeCandidate freshGen { type := .memory } := by
  refine ⟨.init init_freshGen, fun htakes => ?_⟩
  have hfault : (generateAndReserveMemory { type := .memory } 10 freshGen ⟨[]⟩).1 = .error .noPhysicalAddress := by
    decide +kernel
  have hdrawn : (freshGen.generateLinear { type := .memory } ⟨[]⟩).1 = .ok 4096 := by decide +kernel
  obtain ⟨hlinear, hphysical⟩ := freeIn_freshGen 4096 4096
  have hok := (htakes.takes 9 freshGen ⟨[]⟩ 4096 .first hdrawn hlinear hphysical).1
  rw [hfault] at hok
  cases hok

end AddrGen
end Riescue.Addrgen
