import Riescue.LibSpan
import Mathlib.Data.Int.Bitwise
import Mathlib.Data.Nat.Size

/-! The types of the address generator: `addrgen/types.py`, `addrgen/address_range.py` and the two
address enumerations of `lib/enums.py`. Python integers are `ℤ`; the bit operations on them are
Mathlib's two's complement ones. -/

namespace Riescue.Addrgen
open Spans

inductive AddressType where
  | none | linear | physical | memory | guestLinear | guestPhysical
  deriving DecidableEq, Repr

inductive AddressQualifiers where
  | addressLinear | addressPhysical | addressDram | addressMmio | addressSecure
  | addressGuestPhysical | addressReserved | addressCustom
  deriving DecidableEq, Repr

/-- The exceptions of the address generator. The first four are raised as `AddrGenError`, the other
three by the containers and the random generator underneath. -/
inductive AddrGenFault where
  /-- "No matching clusters found. Likely out of memory." -/
  | noMatchingClusters
  /-- "Below sub_clusters are not setup yet" -/
  | subClustersNotSetUp (missing : List AddressQualifiers)
  /-- "No compatible clusters found" -/
  | noCompatibleClusters
  /-- "AddrGen could not pick a cluster" -/
  | couldNotPickCluster
  /-- `KeyError` of `self.clusters[i]` -/
  | noCluster (index : ℕ)
  /-- `ValueError` of adding an empty interval to an `IntervalTree` -/
  | nullInterval
  /-- `ValueError` of drawing from an empty range or list -/
  | emptyChoice
  deriving DecidableEq, Repr

/-- `AddressConstraint`. The qualifiers are a Python set, so their order is any order; `customRegion`
is resolved by `AddrGen` before an address space sees the constraint. -/
structure AddressConstraint where
  type : AddressType := .none
  bits : ℕ := 64
  size : ℕ := 0x1000
  mask : ℕ := 0xFFFFFFFFFFFFF000
  orMask : ℕ := 0
  start : ℕ := 0
  stop : ℕ := 0
  dontAllocate : Bool := false
  qualifiers : List AddressQualifiers := []
  deriving DecidableEq, Repr

/-- Whether the constraint has explicit bounds. -/
def AddressConstraint.HasBounds (constraint : AddressConstraint) : Prop :=
  constraint.start ≠ 0 ∨ constraint.stop ≠ 0

instance (constraint : AddressConstraint) : Decidable constraint.HasBounds :=
  inferInstanceAs (Decidable (_ ∨ _))

/-- `AddressRangeSet`: the interval tree holds half-open intervals `[start, end + 1)`, which the class
presents as closed ranges, iterated in increasing order. -/
abbrev AddressRangeSet := SpanSet

/-- `add((start, end))`. An interval tree refuses an empty interval. -/
def addRange (set : AddressRangeSet) (start stop : ℤ) : Except AddrGenFault AddressRangeSet :=
  if hle : start ≤ stop then .ok (set.insert ⟨start, stop, hle⟩) else .error .nullInterval

theorem addRange_of_le (set : AddressRangeSet) {start stop : ℤ} (hle : start ≤ stop) :
    addRange set start stop = .ok (set.insert ⟨start, stop, hle⟩) := dif_pos hle

theorem addRange_of_not_le (set : AddressRangeSet) {start stop : ℤ} (hle : ¬start ≤ stop) :
    addRange set start stop = .error .nullInterval := dif_neg hle

theorem addRange_ok {set set' : AddressRangeSet} {start stop : ℤ}
    (h : addRange set start stop = .ok set') :
    ∃ hle : start ≤ stop, set' = set.insert ⟨start, stop, hle⟩ := by
  unfold addRange at h
  split_ifs at h with hle
  exact ⟨hle, (Except.ok.inj h).symm⟩

/-- `int.bit_length()` of a non-negative integer. -/
abbrev bitLength (value : ℕ) : ℕ := value.size

end Riescue.Addrgen
