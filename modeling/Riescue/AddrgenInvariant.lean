import Riescue.AddrgenPlacement
import Mathlib.Tactic.NormNum
import Mathlib.Tactic.Positivity

/-! The invariant of the address space over whole runs. A history lists what was asked of the space;
the bytes it has taken are described by the history alone, and cluster `i` holds exactly the taken bytes
of its own power of two. -/

namespace Riescue.Addrgen
open Spans AddressCluster

/-! ### The bytes of a cluster -/

/-- Byte `b` belongs to cluster `i`. Cluster 0 also holds address zero. -/
def InCluster (i : ℕ) (b : ℤ) : Prop := (if i = 0 then 0 else 2 ^ i) ≤ b ∧ b < 2 ^ (i + 1)

theorem inCluster_iff {i b : ℕ} : InCluster i b ↔ AddressSpace.addressToCluster b = i := by
  have hlower : ∀ n : ℕ, ((2 : ℤ) ^ n ≤ b ↔ 2 ^ n ≤ b) := fun n => by exact_mod_cast Iff.rfl
  have hupper : ∀ n : ℕ, ((b : ℤ) < 2 ^ n ↔ b < 2 ^ n) := fun n => by exact_mod_cast Iff.rfl
  unfold InCluster AddressSpace.addressToCluster bitLength
  rw [hupper, ← Nat.size_le]
  by_cases hb : b = 0
  · subst hb
    rw [if_pos rfl]
    by_cases hi : i = 0
    · simp [hi]
    · have hpos : (0 : ℤ) < 2 ^ i := by positivity
      rw [if_neg hi]
      push_cast
      omega
  · have hsize : 0 < b.size := Nat.size_pos.mpr (Nat.pos_of_ne_zero hb)
    rw [if_neg hb]
    by_cases hi : i = 0
    · simp only [hi, if_true]
      omega
    · rw [if_neg hi, hlower, ← Nat.lt_size]
      omega

theorem InCluster.nonneg {i : ℕ} {b : ℤ} (h : InCluster i b) : 0 ≤ b := by
  have hlower := h.1
  have hpos : (0 : ℤ) < 2 ^ i := by positivity
  split_ifs at hlower <;> omega

theorem InCluster.exists_nat {i : ℕ} {b : ℤ} (h : InCluster i b) :
    ∃ n : ℕ, (n : ℤ) = b ∧ AddressSpace.addressToCluster n = i := by
  obtain ⟨n, rfl⟩ := Int.eq_ofNat_of_zero_le h.nonneg
  exact ⟨n, rfl, inCluster_iff.mp h⟩

theorem inCluster_addressToCluster (b : ℕ) : InCluster (AddressSpace.addressToCluster b) b :=
  inCluster_iff.mpr rfl

theorem InCluster.mono {i j : ℕ} {a b : ℤ} (ha : InCluster i a) (hb : InCluster j b) (h : a ≤ b) :
    i ≤ j := by
  by_contra hlt
  have hpow : (2 : ℤ) ^ (j + 1) ≤ 2 ^ i := pow_le_pow_right₀ (by norm_num) (by omega)
  have hlower := ha.1
  rw [if_neg (by omega)] at hlower
  have := hb.2
  omega

theorem InCluster.of_between {i : ℕ} {a b c : ℤ} (ha : InCluster i a) (hc : InCluster i c)
    (hab : a ≤ b) (hbc : b ≤ c) : InCluster i b :=
  ⟨ha.1.trans hab, hbc.trans_lt hc.2⟩

theorem addressToCluster_mono {a b : ℕ} (h : a ≤ b) :
    AddressSpace.addressToCluster a ≤ AddressSpace.addressToCluster b :=
  (inCluster_addressToCluster a).mono (inCluster_addressToCluster b) (by exact_mod_cast h)

theorem addressToCluster_lt {b n : ℕ} (h : b < 2 ^ (n + 1)) :
    AddressSpace.addressToCluster b < n + 1 := by
  have hsize := Nat.size_le.mpr h
  unfold AddressSpace.addressToCluster bitLength
  split_ifs <;> omega

/-- The part of `[start, stop]` that `define_segment` and `reserve_memory` put in cluster `i`: the
ends of the cluster replace the ends that lie outside it. -/
theorem inCluster_piece {start stop i : ℕ} {b : ℤ}
    (hstart : AddressSpace.addressToCluster start ≤ i)
    (hstop : i ≤ AddressSpace.addressToCluster stop) :
    ((if i = AddressSpace.addressToCluster start then (start : ℤ) else 2 ^ i) ≤ b ∧
      b ≤ if i = AddressSpace.addressToCluster stop then (stop : ℤ) else 2 ^ (i + 1) - 1) ↔
      (start : ℤ) ≤ b ∧ b ≤ stop ∧ InCluster i b := by
  have hfirst := inCluster_addressToCluster start
  have hlast := inCluster_addressToCluster stop
  constructor
  · rintro ⟨hlower, hupper⟩
    have hlo : (start : ℤ) ≤ b ∧ (if i = 0 then 0 else 2 ^ i) ≤ b := by
      split_ifs at hlower with heq
      · exact ⟨hlower, (heq ▸ hfirst).1.trans hlower⟩
      · have hpow : (2 : ℤ) ^ (AddressSpace.addressToCluster start + 1) ≤ 2 ^ i :=
          pow_le_pow_right₀ (by norm_num) (by omega)
        have := hfirst.2
        rw [if_neg (by omega)]
        omega
    have hhi : b ≤ stop ∧ b < 2 ^ (i + 1) := by
      split_ifs at hupper with heq
      · exact ⟨hupper, hupper.trans_lt (heq ▸ hlast).2⟩
      · have hpow : (2 : ℤ) ^ (i + 1) ≤ 2 ^ AddressSpace.addressToCluster stop :=
          pow_le_pow_right₀ (by norm_num) (by omega)
        have hlower := hlast.1
        rw [if_neg (by omega)] at hlower
        omega
    exact ⟨hlo.1, hhi.1, hlo.2, hhi.2⟩
  · rintro ⟨hlo, hhi, hlower, hupper⟩
    constructor
    · split_ifs with heq
      · exact hlo
      · rwa [if_neg (by omega)] at hlower
    · split_ifs with heq
      · exact hhi
      · omega

/-! ### Histories -/

/-- A call on the address space. A call that raised is an event too. -/
inductive Event where
  | segment (qualifier : AddressQualifiers) (start stop : ℕ)
  | reserved (start stop : ℕ)
  | generated (constraint : AddressConstraint) (result : Except AddrGenFault ℤ)

/-- The states reached from a fresh address space, with the calls made so far, newest first. Every
call of `generate_address` may see other random choices, and a call that raises may be followed by
others. -/
inductive Reachable : List Event → AddressSpace → Prop where
  | fresh : Reachable [] AddressSpace.init
  | defineSegment {history : List Event} {space : AddressSpace} (h : Reachable history space)
      (qualifier : AddressQualifiers) (start stop : ℕ) :
      Reachable (.segment qualifier start stop :: history)
        (space.defineSegment qualifier start stop).2
  | reserveMemory {history : List Event} {space : AddressSpace} (h : Reachable history space)
      (start stop : ℕ) (interestingAddress : Bool) :
      Reachable (.reserved start stop :: history)
        (space.reserveMemory start stop interestingAddress).2
  | generateAddress {history : List Event} {space : AddressSpace} (h : Reachable history space)
      (constraint : AddressConstraint) (rng : RandNum) :
      Reachable (.generated constraint (space.generateAddress constraint rng).1 :: history)
        (space.generateAddress constraint rng).2.1

/-- The event reserves or allocates byte `b`. There is no cluster for an address from `2^64` on: a
reservation that runs into one raises there, after it has reserved what lies below. -/
def Event.Takes (b : ℤ) : Event → Prop
  | .segment _ _ _ => False
  | .reserved start stop => (start : ℤ) ≤ b ∧ b ≤ stop ∧ b < 2 ^ 64
  | .generated constraint (.ok address) =>
      constraint.dontAllocate = false ∧ address ≤ b ∧ b ≤ address + constraint.size - 1
  | .generated _ (.error _) => False

/-- Byte `b` has been reserved or allocated. -/
def Taken (history : List Event) (b : ℤ) : Prop := ∃ event ∈ history, event.Takes b

theorem taken_cons {event : Event} {history : List Event} {b : ℤ} :
    Taken (event :: history) b ↔ event.Takes b ∨ Taken history b := by
  simp [Taken]

/-- A range lies in a segment defined for the qualifier. -/
def InSegment (history : List Event) (qualifier : AddressQualifiers) (lo hi : ℤ) : Prop :=
  ∃ start stop : ℕ, .segment qualifier start stop ∈ history ∧ (start : ℤ) ≤ lo ∧ hi ≤ stop

theorem InSegment.cons {history : List Event} {qualifier : AddressQualifiers} {lo hi : ℤ}
    (h : InSegment history qualifier lo hi) (event : Event) :
    InSegment (event :: history) qualifier lo hi := by
  obtain ⟨start, stop, hmem, hlo, hhi⟩ := h
  exact ⟨start, stop, List.mem_cons_of_mem _ hmem, hlo, hhi⟩

/-! ### The invariant -/

/-- Cluster `i` keeps to its own addresses: `segments` says which ranges a qualifier may use and
`taken` which bytes have been handed out. -/
structure ClusterInv (segments : AddressQualifiers → ℤ → ℤ → Prop) (taken : ℤ → Prop) (i : ℕ)
    (cluster : AddressCluster) : Prop where
  id : cluster.clusterId = i
  segment : ∀ qualifier, ∀ range ∈ cluster.superCluster qualifier,
    InCluster i range.lo ∧ InCluster i range.hi ∧ segments qualifier range.lo range.hi
  allocated : ∀ b, b ∈ cluster.allocatedAddresses.covered ↔ InCluster i b ∧ taken b

theorem ClusterInv.ofSame {segments : AddressQualifiers → ℤ → ℤ → Prop} {taken : ℤ → Prop} {i : ℕ}
    {cluster cluster' : AddressCluster} (hinv : ClusterInv segments taken i cluster)
    (hsame : SameButFlags cluster cluster') : ClusterInv segments taken i cluster' := by
  obtain ⟨_, _, rfl⟩ := hsame
  exact ⟨hinv.id, hinv.segment, hinv.allocated⟩

/-- Every cluster of the space agrees with the history. -/
def SpaceInv (history : List Event) (space : AddressSpace) : Prop :=
  ∀ i : Fin 64, ClusterInv (InSegment history) (Taken history) i (space.clusters i)

theorem spaceInv_init : SpaceInv [] AddressSpace.init := fun i =>
  ⟨rfl, fun _ range hrange => absurd hrange (SpanSet.not_mem_empty range), fun b => by
    simp [AddressSpace.init, AddressCluster.init, Taken]⟩

/-- An event that takes nothing leaves every cluster as it describes it. -/
theorem SpaceInv.cons {history : List Event} {space : AddressSpace} (hinv : SpaceInv history space)
    {event : Event} (htakes : ∀ b, ¬event.Takes b) : SpaceInv (event :: history) space := by
  intro i
  obtain ⟨hid, hsegment, hallocated⟩ := hinv i
  refine ⟨hid, fun qualifier range hrange => ?_, fun b => ?_⟩
  · obtain ⟨hlo, hhi, hin⟩ := hsegment qualifier range hrange
    exact ⟨hlo, hhi, hin.cons event⟩
  · rw [hallocated b, taken_cons, or_iff_right (htakes b)]

theorem cluster_of_lt (space : AddressSpace) {i : ℕ} (hlt : i < 64) :
    space.cluster i = .ok (space.clusters ⟨i, hlt⟩) := dif_pos hlt

theorem cluster_of_not_lt (space : AddressSpace) {i : ℕ} (hlt : ¬i < 64) :
    space.cluster i = .error (.noCluster i) := dif_neg hlt

/-- What holds of the changed cluster and of the others holds of every cluster after the change. -/
theorem forall_setCluster {P : Fin 64 → AddressCluster → Prop} {space space' : AddressSpace} {i : ℕ}
    {cluster : AddressCluster} (hset : space'.clusters = (space.setCluster i cluster).clusters)
    (hself : ∀ hlt : i < 64, P ⟨i, hlt⟩ cluster)
    (hother : ∀ j : Fin 64, j.val ≠ i → P j (space.clusters j)) (j : Fin 64) :
    P j (space'.clusters j) := by
  rw [hset, AddressSpace.setCluster]
  dsimp only
  split_ifs with heq
  · subst heq
    exact hself j.isLt
  · exact hother j heq

/-! ### Defining segments and reserving memory -/

section Loops
variable {segments : AddressQualifiers → ℤ → ℤ → Prop} {taken : Fin 64 → ℤ → Prop}
  {start stop : ℕ} {indices : List ℕ} {space : AddressSpace}

/-- The indices a loop over `[start, stop]` still has to visit. -/
structure Pieces (start stop : ℕ) (indices : List ℕ) : Prop where
  sorted : indices.Pairwise (· < ·)
  lower : ∀ i ∈ indices, AddressSpace.addressToCluster start ≤ i
  upper : ∀ i ∈ indices, i ≤ AddressSpace.addressToCluster stop

theorem pieces_clusterRange (start stop : ℕ) :
    Pieces start stop (AddressSpace.clusterRange (AddressSpace.addressToCluster start)
      (AddressSpace.addressToCluster stop)) := by
  refine ⟨List.pairwise_lt_range', fun i hi => ?_, fun i hi => ?_⟩
  · exact (List.mem_range'_1.mp hi).1
  · obtain ⟨hlower, hupper⟩ := List.mem_range'_1.mp hi
    omega

theorem Pieces.tail {i : ℕ} (h : Pieces start stop (i :: indices)) : Pieces start stop indices :=
  ⟨h.sorted.of_cons, fun j hj => h.lower j (List.mem_cons_of_mem i hj),
    fun j hj => h.upper j (List.mem_cons_of_mem i hj)⟩

/-- The ends of the piece that goes to cluster `i`. -/
def pieceLo (start i : ℕ) : ℤ := if i = AddressSpace.addressToCluster start then start else 2 ^ i

def pieceHi (stop i : ℕ) : ℤ :=
  if i = AddressSpace.addressToCluster stop then stop else 2 ^ (i + 1) - 1

theorem Pieces.mem_iff {i : ℕ} {b : ℤ} (h : Pieces start stop (i :: indices)) :
    (pieceLo start i ≤ b ∧ b ≤ pieceHi stop i) ↔ (start : ℤ) ≤ b ∧ b ≤ stop ∧ InCluster i b :=
  inCluster_piece (h.lower i List.mem_cons_self) (h.upper i List.mem_cons_self)

/-- Only the last piece can be empty. -/
theorem Pieces.eq_nil_of_empty {i : ℕ} (h : Pieces start stop (i :: indices))
    (hempty : ¬pieceLo start i ≤ pieceHi stop i) : indices = [] := by
  refine List.eq_nil_iff_forall_not_mem.mpr fun j hj => hempty ?_
  have hij := (List.pairwise_cons.mp h.sorted).1 j hj
  have hj' := h.upper j (List.mem_cons_of_mem i hj)
  have hpow : (2 : ℤ) ^ (i + 1) = 2 * 2 ^ i := pow_succ' 2 i
  have hpos : (0 : ℤ) < 2 ^ i := by positivity
  unfold pieceLo pieceHi
  rw [if_neg (by omega : i ≠ AddressSpace.addressToCluster stop)]
  split_ifs with heq
  · have := (inCluster_addressToCluster start).2
    rw [← heq] at this
    omega
  · omega

end Loops

end Riescue.Addrgen
