import Riescue.AddrgenCluster
import Mathlib.Data.List.Sort

/-! The address space, `addrgen/address_space.py`: 64 clusters and the segments defined over them. -/

namespace Riescue.Addrgen
open Spans

/-- `SortedSet.add` on cluster indices. -/
def addIndex (indices : List ℕ) (i : ℕ) : List ℕ :=
  if i ∈ indices then indices else indices.orderedInsert (· ≤ ·) i

/-- `SortedSet.intersection` -/
def intersectIndices (indices others : List ℕ) : List ℕ := indices.filter (· ∈ others)

/-- `AddressSpace`. `subClusters` keeps the insertion order of the Python dictionary. -/
structure AddressSpace where
  totalAllocatedAddress : ℕ
  allValidClusters : List ℕ
  clusters : Fin 64 → AddressCluster
  subClusters : List (AddressQualifiers × List ℕ)

namespace AddressSpace

/-- `__init__` -/
def init : AddressSpace where
  totalAllocatedAddress := 0
  allValidClusters := []
  clusters := fun i => AddressCluster.init i
  subClusters := []

/-- `self.clusters[i]`, with a `KeyError` for an index that is not there. -/
def cluster (space : AddressSpace) (i : ℕ) : Except AddrGenFault AddressCluster :=
  if hlt : i < 64 then .ok (space.clusters ⟨i, hlt⟩) else .error (.noCluster i)

/-- The space with the object `self.clusters[i]` changed. -/
def setCluster (space : AddressSpace) (i : ℕ) (cluster : AddressCluster) : AddressSpace :=
  { space with clusters := fun j => if j.val = i then cluster else space.clusters j }

/-- `_address_to_cluster` for one address. -/
def addressToCluster (address : ℕ) : ℕ := if address = 0 then 0 else bitLength address - 1

/-- `range(cl_start, cl_end + 1)` -/
def clusterRange (clStart clEnd : ℕ) : List ℕ := List.range' clStart (clEnd + 1 - clStart)

/-- `self.sub_clusters[qualifier].add(i)` -/
def addSubCluster (qualifier : AddressQualifiers) (i : ℕ) :
    List (AddressQualifiers × List ℕ) → List (AddressQualifiers × List ℕ)
  | [] => [(qualifier, [i])]
  | (q, indices) :: rest =>
      if q = qualifier then (q, addIndex indices i) :: rest
      else (q, indices) :: addSubCluster qualifier i rest

/-- The loop of `define_segment`. -/
def defineSegmentLoop (qualifier : AddressQualifiers) (start stop : ℕ) (startCluster endCluster : ℕ) :
    List ℕ → AddressSpace → Except AddrGenFault Unit × AddressSpace
  | [], space => (.ok (), space)
  | i :: rest, space =>
      match space.cluster i with
      | .error fault => (.error fault, space)
      | .ok cluster =>
          let startAddress : ℤ := if i = startCluster then start else cluster.startAddress
          let endAddress : ℤ := if i = endCluster then stop else cluster.endAddress
          match addRange (cluster.superCluster qualifier) startAddress endAddress with
          | .error fault => (.error fault, space)
          | .ok superCluster =>
              let size := endAddress - startAddress + 1
              let cluster := { cluster with
                superCluster := Function.update cluster.superCluster qualifier superCluster
                qualifierSize := Function.update cluster.qualifierSize qualifier
                  (cluster.qualifierSize qualifier + size) }
              defineSegmentLoop qualifier start stop startCluster endCluster rest
                { space.setCluster i cluster with
                  allValidClusters := addIndex space.allValidClusters i
                  subClusters := addSubCluster qualifier i space.subClusters }

/-- `define_segment` -/
def defineSegment (space : AddressSpace) (qualifier : AddressQualifiers) (start stop : ℕ) :
    Except AddrGenFault Unit × AddressSpace :=
  let startCluster := addressToCluster start
  let endCluster := addressToCluster stop
  defineSegmentLoop qualifier start stop startCluster endCluster
    (clusterRange startCluster endCluster) space

/-- The loop of `check_overlap`. -/
def checkOverlapLoop (space : AddressSpace) (start stop : ℕ) : List ℕ → Except AddrGenFault Bool
  | [] => .ok false
  | i :: rest =>
      match space.cluster i with
      | .error fault => .error fault
      | .ok cl =>
          if (cl.allocatedAddresses.overlap start stop).length ≠ 0 then .ok true
          else checkOverlapLoop space start stop rest

/-- `check_overlap` -/
def checkOverlap (space : AddressSpace) (start stop : ℕ) : Except AddrGenFault Bool :=
  space.checkOverlapLoop start stop (clusterRange (addressToCluster start) (addressToCluster stop))

/-- The loop of `reserve_memory`. -/
def reserveMemoryLoop (start stop : ℕ) (interestingAddress : Bool) (clStart clEnd : ℕ) :
    List ℕ → AddressSpace → Except AddrGenFault Unit × AddressSpace
  | [], space => (.ok (), space)
  | i :: rest, space =>
      match space.cluster i with
      | .error fault => (.error fault, space)
      | .ok cluster =>
          let startAddr : ℤ := if i = clStart then start else cluster.startAddress
          let endAddr : ℤ := if i = clEnd then stop else cluster.endAddress
          match addRange cluster.allocatedAddresses startAddr endAddr,
              addRange cluster.interestingAddresses startAddr endAddr with
          | .ok allocated, .ok interesting =>
              let size := endAddr - startAddr + 1
              let cluster := { cluster with
                allocatedAddresses := allocated
                interestingAddresses :=
                  if interestingAddress then interesting else cluster.interestingAddresses
                availableMemory := cluster.availableMemory - size }
              reserveMemoryLoop start stop interestingAddress clStart clEnd rest
                { space.setCluster i cluster with
                  totalAllocatedAddress := space.totalAllocatedAddress + 1 }
          | _, _ => (.error .nullInterval, space)

/-- `reserve_memory` -/
def reserveMemory (space : AddressSpace) (start stop : ℕ) (interestingAddress : Bool) :
    Except AddrGenFault Unit × AddressSpace :=
  let clStart := addressToCluster start
  let clEnd := addressToCluster stop
  reserveMemoryLoop start stop interestingAddress clStart clEnd (clusterRange clStart clEnd) space

/-- `_possible_clusters` -/
def possibleClusters (addressMask addressBits : ℕ) : List ℕ :=
  (List.range (min (bitLength addressMask) addressBits)).filter addressMask.testBit

/-- `self.sub_clusters[q]` of a key that is there. -/
def subCluster (space : AddressSpace) (q : AddressQualifiers) : List ℕ :=
  ((space.subClusters.find? fun entry => entry.1 = q).map Prod.snd).getD []

/-- The default qualifier of a constraint that names none. -/
def defaultQualifiers (space : AddressSpace) (constraint : AddressConstraint) (rng : RandNum) :
    Except AddrGenFault AddressConstraint × RandNum :=
  if constraint.qualifiers.length = 0 then
    if constraint.type = .physical then
      (.ok { constraint with qualifiers := [.addressDram] }, rng)
    else
      match rng.randomEntryIn (space.subClusters.map Prod.fst) with
      | (none, rng) => (.error .emptyChoice, rng)
      | (some rndQualifier, rng) => (.ok { constraint with qualifiers := [rndQualifier] }, rng)
  else (.ok constraint, rng)

/-- The filter on qualifiers of `find_clusters`, which stops as soon as nothing is left. -/
def filterQualifiers (space : AddressSpace) :
    List AddressQualifiers → List ℕ → Except AddrGenFault (List ℕ)
  | [], clusters => .ok clusters
  | q :: qualifiers, clusters =>
      let clusters := intersectIndices clusters (space.subCluster q)
      if clusters.length = 0 then .error .noCompatibleClusters
      else filterQualifiers space qualifiers clusters

/-- Step (3) of `find_clusters`: enough memory in the cluster and for every qualifier. -/
def hasMemory (space : AddressSpace) (constraint : AddressConstraint) (i : ℕ) : Bool :=
  match space.cluster i with
  | .error _ => false
  | .ok cluster =>
      decide ((constraint.size : ℤ) ≤ cluster.availableMemory) &&
        constraint.qualifiers.all fun q => decide ((constraint.size : ℤ) ≤ cluster.qualifierSize q)

/-- `find_clusters`, with the constraint it completes. -/
def findClusters (space : AddressSpace) (constraint : AddressConstraint) (rng : RandNum) :
    Except AddrGenFault (List ℕ × AddressConstraint) × RandNum :=
  match space.defaultQualifiers constraint rng with
  | (.error fault, rng) => (.error fault, rng)
  | (.ok constraint, rng) =>
      let clusters := intersectIndices (possibleClusters constraint.mask constraint.bits)
        space.allValidClusters
      let missing := constraint.qualifiers.filter fun q => q ∉ space.subClusters.map Prod.fst
      if missing.length ≠ 0 then (.error (.subClustersNotSetUp missing), rng)
      else
        match space.filterQualifiers constraint.qualifiers clusters with
        | .error fault => (.error fault, rng)
        | .ok clusters =>
            let clusters :=
              if constraint.HasBounds then
                intersectIndices clusters (clusterRange (addressToCluster constraint.start)
                  (addressToCluster constraint.stop))
              else clusters
            (.ok (clusters.filter (space.hasMemory constraint), constraint), rng)

/-- The loop of `generate_address` over the shuffled clusters. -/
def tryClusters (constraint : AddressConstraint) :
    List ℕ → AddressSpace → RandNum → Except AddrGenFault ℤ × AddressSpace × RandNum
  | [], space, rng => (.error .couldNotPickCluster, space, rng)
  | i :: rest, space, rng =>
      match space.cluster i with
      | .error fault => (.error fault, space, rng)
      | .ok cluster =>
          match cluster.findUcluster constraint with
          | .error fault => (.error fault, space, rng)
          | .ok uclusters =>
              if uclusters.spans.length ≠ 0 then
                match cluster.allocateAddress constraint uclusters rng with
                | (.error fault, cluster, rng) => (.error fault, space.setCluster i cluster, rng)
                | (.ok none, cluster, rng) =>
                    tryClusters constraint rest (space.setCluster i cluster) rng
                | (.ok (some addr), cluster, rng) =>
                    (.ok addr, { space.setCluster i cluster with
                      totalAllocatedAddress := space.totalAllocatedAddress + 1 }, rng)
              else tryClusters constraint rest space rng

/-- `generate_address` -/
def generateAddress (space : AddressSpace) (constraint : AddressConstraint) (rng : RandNum) :
    Except AddrGenFault ℤ × AddressSpace × RandNum :=
  match space.findClusters constraint rng with
  | (.error fault, rng) => (.error fault, space, rng)
  | (.ok (clusters, constraint), rng) =>
      if clusters.length = 0 then (.error .noMatchingClusters, space, rng)
      else
        let (shuffled, rng) := rng.shuffle clusters
        tryClusters constraint shuffled space rng

end AddressSpace
end Riescue.Addrgen
