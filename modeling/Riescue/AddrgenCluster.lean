import Riescue.AddrgenTypes
import Riescue.RandNum

/-! One power-of-two cluster of addresses, `addrgen/address_cluster.py`. The cluster with id `i` spans
`[2^i, 2^(i+1) - 1]`. Methods that change the cluster return the changed cluster next to their
result, also when they raise: Python keeps what was assigned before the exception. -/

namespace Riescue.Addrgen
open Spans

/-- `AddressCluster`. `total_memory` and `flags` are never read. -/
structure AddressCluster where
  clusterId : ℕ
  availableMemory : ℤ
  startAllocated : Bool
  endAllocated : Bool
  qualifierSize : AddressQualifiers → ℤ
  superCluster : AddressQualifiers → AddressRangeSet
  allocatedAddresses : AddressRangeSet
  interestingAddresses : AddressRangeSet

namespace AddressCluster

/-- `__init__` -/
def init (clusterId : ℕ) : AddressCluster where
  clusterId := clusterId
  availableMemory := 2 ^ clusterId
  startAllocated := false
  endAllocated := false
  qualifierSize := fun _ => 0
  superCluster := fun _ => SpanSet.empty
  allocatedAddresses := SpanSet.empty
  interestingAddresses := SpanSet.empty

def startAddress (cluster : AddressCluster) : ℤ := 2 ^ cluster.clusterId

def endAddress (cluster : AddressCluster) : ℤ := 2 ^ (cluster.clusterId + 1) - 1

/-- `_get_intersection`: an intersection of one byte is left out (`start < end`). -/
def getIntersection (cluster1 cluster2 : AddressRangeSet) : AddressRangeSet :=
  cluster1.spans.foldl (fun ilist i =>
    cluster2.spans.foldl (fun ilist j =>
      if hlt : max i.lo j.lo < min i.hi j.hi then
        ilist.insert ⟨max i.lo j.lo, min i.hi j.hi, hlt.le⟩
      else ilist) ilist) SpanSet.empty

/-- The sweep of `find_ucluster` over the allocated ranges that overlap `[start, stop]`: the gap
before each of them, then the rest. A rest of one byte is left out (`start < end`). -/
def freeGaps (newList : AddressRangeSet) (start stop : ℤ) : List Span → AddressRangeSet
  | [] => if hlt : start < stop then newList.insert ⟨start, stop, hlt.le⟩ else newList
  | j :: overlap =>
      let newList :=
        if hlt : start < j.lo then newList.insert ⟨start, j.lo - 1, Int.le_sub_one_of_lt hlt⟩ else newList
      freeGaps newList (max start (j.hi + 1)) stop overlap

/-- The part of the common range `i` that is not allocated, step (2) of `find_ucluster`. -/
def addFree (allocated : AddressRangeSet) (newList : AddressRangeSet) (i : Span) :
    AddressRangeSet :=
  let overlap := allocated.overlap i.lo i.hi
  if overlap.length = 0 then newList.insert i else freeGaps newList i.lo i.hi overlap

/-- Steps (1) and (1b) of `find_ucluster`: what every qualifier and the bounds allow. -/
def commonRange (cluster : AddressCluster) (constraint : AddressConstraint) :
    Except AddrGenFault AddressRangeSet :=
  match constraint.qualifiers with
  | [] => .error .emptyChoice
  | first :: qualifiers =>
      let clusterRange := qualifiers.foldl
        (fun clusterRange q => getIntersection clusterRange (cluster.superCluster q))
        (cluster.superCluster first)
      if constraint.HasBounds then do
        let bounds ← addRange SpanSet.empty constraint.start constraint.stop
        pure (getIntersection clusterRange bounds)
      else pure clusterRange

/-- `find_ucluster` -/
def findUcluster (cluster : AddressCluster) (constraint : AddressConstraint) :
    Except AddrGenFault AddressRangeSet := do
  let clusterRange ← cluster.commonRange constraint
  let newList := clusterRange.spans.foldl (addFree cluster.allocatedAddresses) SpanSet.empty
  pure (newList.spans.foldl (fun newAddrRange span =>
    if (constraint.size : ℤ) ≤ span.hi - span.lo + 1 then newAddrRange.insert span
    else newAddrRange) SpanSet.empty)

/-- `overlap_level`: 0 for no overlap, 1 when some range contains the entry, 2 for a partial one. -/
def overlapLevel (start stop : ℤ) (ucluster : AddressRangeSet) : ℕ :=
  let overlap := ucluster.overlap start stop
  if overlap.any fun span => decide (span.lo ≤ start ∧ stop ≤ span.hi) then 1
  else if overlap = [] then 0 else 2

/-- The inner loop of `_allocate_anywhere`: draws from one micro-cluster. -/
def drawInside (constraint : AddressConstraint) (uclusters : AddressRangeSet) (span : Span) :
    ℕ → RandNum → Except AddrGenFault (Option ℤ) × RandNum
  | 0, rng => (.ok none, rng)
  | tries + 1, rng =>
      match rng.randomInRange span.lo (span.hi - constraint.size + 1 + 1) with
      | (none, rng) => (.error .emptyChoice, rng)
      | (some address, rng) =>
          let start := Int.lor (Int.land address constraint.mask) constraint.orMask
          if overlapLevel start (start + constraint.size - 1) uclusters = 1 then (.ok (some start), rng)
          else drawInside constraint uclusters span tries rng

/-- The outer loop of `_allocate_anywhere`: random micro-clusters, each tried ten times. -/
def drawAnywhere (constraint : AddressConstraint) (uclusters : AddressRangeSet) :
    ℕ → List Span → RandNum → Except AddrGenFault (Option ℤ) × RandNum
  | 0, _, rng => (.ok none, rng)
  | tries + 1, uclusterList, rng =>
      match rng.randomEntryIn uclusterList with
      | (none, rng) => (.error .emptyChoice, rng)
      | (some rndUcluster, rng) =>
          match drawInside constraint uclusters rndUcluster 10 rng with
          | (.ok none, rng) =>
              drawAnywhere constraint uclusters tries (uclusterList.erase rndUcluster) rng
          | found => found

/-- The first part of `_allocate_anywhere`: now and then look near a limit of the cluster. Only the
flag that records the look survives; the address it computes is dropped by the loop that follows. -/
def markLimit (cluster : AddressCluster) (constraint : AddressConstraint)
    (uclusters : AddressRangeSet) (rng : RandNum) : AddressCluster × RandNum :=
  if cluster.startAllocated && cluster.endAllocated then (cluster, rng)
  else
    let (percent, rng) := rng.percent
    if percent < 10 then
      if cluster.startAllocated = false then
        let start := Int.lor (Int.land cluster.startAddress constraint.mask) constraint.orMask
        if overlapLevel start (start + constraint.size + 1) uclusters = 1 then
          ({ cluster with startAllocated := true }, rng)
        else (cluster, rng)
      else
        let start := Int.lor (Int.land (cluster.endAddress - constraint.size + 1) constraint.mask)
          constraint.orMask
        if overlapLevel start (start + constraint.size + 1) uclusters = 1 then
          ({ cluster with endAllocated := true }, rng)
        else (cluster, rng)
    else (cluster, rng)

/-- `_allocate_anywhere` -/
def allocateAnywhere (cluster : AddressCluster) (constraint : AddressConstraint)
    (uclusters : AddressRangeSet) (rng : RandNum) :
    Except AddrGenFault (Option ℤ) × AddressCluster × RandNum :=
  let (cluster, rng) := cluster.markLimit constraint uclusters rng
  let (found, rng) :=
    drawAnywhere constraint uclusters uclusters.spans.length uclusters.spans rng
  (found, cluster, rng)

/-- The loop of `_allocate_near`: just before or just after each entry, in the given order. -/
def drawNear (cluster : AddressCluster) (constraint : AddressConstraint)
    (uclusters : AddressRangeSet) : List Span → RandNum → Option ℤ × RandNum
  | [], rng => (none, rng)
  | entry :: entries, rng =>
      let (percent, rng) := rng.percent
      let start :=
        if percent < 50 then Int.land (entry.lo - constraint.size) constraint.mask
        else Int.land (entry.hi + 1) constraint.mask
      let stop := start + constraint.size - 1
      if (cluster.allocatedAddresses.overlap start stop).length ≠ 0 ∨ start < cluster.startAddress ∨
          cluster.endAddress < stop then
        drawNear cluster constraint uclusters entries rng
      else if ¬uclusters.spans.any fun u => decide (u.lo ≤ start ∧ stop ≤ u.hi) then
        drawNear cluster constraint uclusters entries rng
      else (some start, rng)

/-- `_allocate_near` -/
def allocateNear (cluster : AddressCluster) (constraint : AddressConstraint)
    (uclusters addresses : AddressRangeSet) (rng : RandNum) :
    Except AddrGenFault (Option ℤ) × AddressCluster × RandNum :=
  if addresses.spans.length = 0 then cluster.allocateAnywhere constraint uclusters rng
  else
    let (shuffled, rng) := rng.shuffle addresses.spans
    let (found, rng) := cluster.drawNear constraint uclusters shuffled rng
    (.ok found, cluster, rng)

/-- The choice of a strategy in `allocate_address`. The last branch is never taken, since `percent()`
stays below 100. -/
def pickStrategy (cluster : AddressCluster) (constraint : AddressConstraint)
    (uclusters : AddressRangeSet) (rng : RandNum) :
    Except AddrGenFault (Option ℤ) × AddressCluster × RandNum :=
  if cluster.allocatedAddresses.spans.length = 0 then
    cluster.allocateAnywhere constraint uclusters rng
  else
    let (percent, rng) := rng.percent
    if percent < 90 then cluster.allocateAnywhere constraint uclusters rng
    else
      let (percent, rng) := rng.percent
      if percent ≤ 100 then
        cluster.allocateNear constraint uclusters cluster.allocatedAddresses rng
      else cluster.allocateNear constraint uclusters cluster.interestingAddresses rng

/-- The bookkeeping at the end of `allocate_address`. -/
def record (cluster : AddressCluster) (constraint : AddressConstraint) (startAddr : ℤ) :
    Except AddrGenFault (Option ℤ) × AddressCluster :=
  if constraint.dontAllocate then (.ok (some startAddr), cluster)
  else
    match addRange cluster.allocatedAddresses startAddr (startAddr + constraint.size - 1) with
    | .error fault => (.error fault, cluster)
    | .ok allocated =>
        (.ok (some startAddr),
          { cluster with
            allocatedAddresses := allocated
            availableMemory := cluster.availableMemory - constraint.size
            qualifierSize := fun q =>
              if q ∈ constraint.qualifiers then cluster.qualifierSize q - constraint.size
              else cluster.qualifierSize q })

/-- `allocate_address` -/
def allocateAddress (cluster : AddressCluster) (constraint : AddressConstraint)
    (uclusters : AddressRangeSet) (rng : RandNum) :
    Except AddrGenFault (Option ℤ) × AddressCluster × RandNum :=
  match cluster.pickStrategy constraint uclusters rng with
  | (.error fault, cluster, rng) => (.error fault, cluster, rng)
  | (.ok (some startAddr), cluster, rng) =>
      let (result, cluster) := cluster.record constraint startAddr
      (result, cluster, rng)
  | (.ok none, cluster, rng) =>
      -- `_allocate_near` can fail where `_allocate_anywhere` still works
      match cluster.allocateAnywhere constraint uclusters rng with
      | (.ok (some startAddr), cluster, rng) =>
          let (result, cluster) := cluster.record constraint startAddr
          (result, cluster, rng)
      | failed => failed

end AddressCluster
end Riescue.Addrgen
