import Riescue.LibExcept
import Riescue.Pmp

/-! Requests for a memory region of given permissions, `memory/memory_registry.py`: a DRAM range that has them, or a part of a
configurable range, `DramRange.split` of `config/memory.py`. -/

namespace Riescue.MemoryRegistry
open Pmp (PmpAttributes)

/-- The permissions of a request, `PmpAttribute`. -/
structure PmpAttribute where
  read : Bool
  write : Bool
  execute : Bool
  deriving DecidableEq, Repr

inductive MemoryFault where
  | unsupported (attributes : PmpAttribute)
  | splitTooLarge (size rangeSize : ℤ)
  | notConfigurable (name : String)
  deriving DecidableEq, Repr

/-- `DramRange`, a range of bytes. -/
structure DramRange where
  start : ℤ := 0
  size : ℤ := 0
  secure : Bool := false
  cacheable : Bool := false
  configurable : Bool := false
  name : String := ""
  permissions : PmpAttributes := .rWX
  deriving DecidableEq, Repr

/-- `IoRange` -/
structure IoRange where
  start : ℤ := 0
  size : ℤ := 0
  testAccess : Bool := false
  name : String := ""
  permissions : PmpAttributes := .rW
  deriving DecidableEq, Repr

/-- `CustomRange` -/
structure CustomRange where
  start : ℤ := 0
  size : ℤ := 0
  name : String := ""
  permissions : PmpAttributes := .rWX
  deriving DecidableEq, Repr

/-- `Memory`. Reserved ranges are the IO ranges that tests must not access. -/
structure MemoryMap where
  dramRanges : List DramRange := [{ start := 0x80000000, size := 2 ^ 56 }]
  ioRanges : List IoRange := [{ start := 0, size := 0x80000000 }]
  secureRanges : List DramRange := []
  reservedRanges : List IoRange := []
  customRanges : List CustomRange := []
  deriving DecidableEq, Repr

/-- `DramRange.split`. The name and the permissions are those of a new range. -/
def DramRange.split (range : DramRange) (size : ℤ) : Except MemoryFault (DramRange × DramRange) :=
  if size > range.size then .error (.splitTooLarge size range.size)
  else if !range.configurable then .error (.notConfigurable range.name)
  else .ok
    ({ start := range.start, size := size, secure := range.secure, cacheable := range.cacheable,
       configurable := range.configurable },
     { start := range.start + size, size := range.size - size, secure := range.secure, cacheable := range.cacheable,
       configurable := range.configurable })

/-- The permissions that a request asks for. -/
def rvPmaAttr (attributes : PmpAttribute) : Except MemoryFault PmpAttributes :=
  match attributes with
  | ⟨true, false, false⟩ => .ok .r
  | ⟨true, true, false⟩ => .ok .rW
  | ⟨true, false, true⟩ => .ok .rX
  | ⟨true, true, true⟩ => .ok .rWX
  | attributes => .error (.unsupported attributes)

/-- What `_request_pmp_region` returns and leaves: the memory map that is installed afterwards, and the previous map, whose list
of DRAM ranges it extends. -/
structure Outcome where
  region : Option DramRange
  installed : MemoryMap
  previous : MemoryMap
  deriving DecidableEq, Repr

/-- The scan for a configurable range. `newDrams` are the ranges before it. -/
def splitFirst (memoryMap : MemoryMap) (permissions : PmpAttributes) (size : ℤ) (newDrams : List DramRange) :
    List DramRange → Except MemoryFault Outcome
  | [] => .ok { region := none, installed := memoryMap, previous := memoryMap }
  | dramRange :: dramRanges =>
      if dramRange.configurable then do
        let (dram0, newDram) ← dramRange.split (size / 2)
        let newDram := { newDram with permissions }
        let newMemoryMap : MemoryMap := {
          dramRanges := newDrams
          ioRanges := memoryMap.ioRanges
          secureRanges := memoryMap.secureRanges
          reservedRanges := memoryMap.reservedRanges }
        pure {
          region := some newDram
          installed := newMemoryMap
          previous := { memoryMap with dramRanges := memoryMap.dramRanges ++ [dram0, newDram] } }
      else splitFirst memoryMap permissions size (newDrams ++ [dramRange]) dramRanges

/-- `_request_pmp_region` -/
def requestPmpRegion (memoryMap : MemoryMap) (attributes : PmpAttribute) (size : ℤ) : Except MemoryFault Outcome := do
  let permissions ← rvPmaAttr attributes
  match memoryMap.dramRanges.find? fun range => range.permissions = permissions with
  | some range => pure { region := some range, installed := memoryMap, previous := memoryMap }
  | none => splitFirst memoryMap permissions size [] memoryMap.dramRanges

/-! ### Splitting -/

/-- The byte is in the range. -/
def DramRange.Covers (range : DramRange) (a : ℤ) : Prop := range.start ≤ a ∧ a < range.start + range.size

def DramRange.Disjoint (range other : DramRange) : Prop := ∀ a, ¬(range.Covers a ∧ other.Covers a)

/-- The DRAM ranges of a map that is split exactly: the same bytes, disjoint where they were, with the requested permissions in
the region and the old ones elsewhere; and the other ranges as before. -/
structure SplitExact (memoryMap : MemoryMap) (permissions : PmpAttributes) (region : DramRange) (installed : MemoryMap) :
    Prop where
  bytes : ∀ a, (∃ range ∈ installed.dramRanges, range.Covers a) ↔ ∃ range ∈ memoryMap.dramRanges, range.Covers a
  disjoint : memoryMap.dramRanges.Pairwise DramRange.Disjoint → installed.dramRanges.Pairwise DramRange.Disjoint
  hasRegion : ∃ range ∈ installed.dramRanges, range.permissions = permissions ∧ ∀ a, region.Covers a → range.Covers a
  keepsPermissions : ∀ a, ¬region.Covers a → ∀ other,
    (∃ range ∈ installed.dramRanges, range.Covers a ∧ range.permissions = other) ↔
    ∃ range ∈ memoryMap.dramRanges, range.Covers a ∧ range.permissions = other
  ioRanges : installed.ioRanges = memoryMap.ioRanges
  secureRanges : installed.secureRanges = memoryMap.secureRanges
  reservedRanges : installed.reservedRanges = memoryMap.reservedRanges
  customRanges : installed.customRanges = memoryMap.customRanges

/-- Where a new region comes from: the first configurable range is split, and the map keeps the ranges before it only. -/
theorem splitFirst_some {memoryMap : MemoryMap} {permissions : PmpAttributes} {size : ℤ} {newDrams dramRanges : List DramRange}
    {region : DramRange} {installed previous : MemoryMap}
    (h : splitFirst memoryMap permissions size newDrams dramRanges = .ok ⟨some region, installed, previous⟩) :
    region.permissions = permissions ∧
      installed = { dramRanges := newDrams ++ dramRanges.takeWhile fun range => !range.configurable
                    ioRanges := memoryMap.ioRanges
                    secureRanges := memoryMap.secureRanges
                    reservedRanges := memoryMap.reservedRanges } ∧
      ∃ range ∈ dramRanges, range.configurable = true ∧ ∃ dram0 newDram, range.split (size / 2) = .ok (dram0, newDram) ∧
        region = { newDram with permissions } := by
  induction dramRanges generalizing newDrams with
  | nil => cases h
  | cons dramRange dramRanges ih =>
      rw [splitFirst] at h
      split_ifs at h with hconfigurable
      · obtain ⟨⟨dram0, newDram⟩, hsplit, h⟩ := Fallible.bind_ok h
        injection Except.ok.inj h with hregion hinstalled
        obtain rfl := Option.some.inj hregion
        refine ⟨rfl, ?_, dramRange, List.mem_cons_self, hconfigurable, dram0, newDram, hsplit, rfl⟩
        rw [← hinstalled, List.takeWhile_cons, hconfigurable]
        simp
      · obtain ⟨hpermissions, hinstalled, range, hrange, hfacts⟩ := ih h
        refine ⟨hpermissions, ?_, range, List.mem_cons_of_mem _ hrange, hfacts⟩
        rw [hinstalled, List.takeWhile_cons, Bool.eq_false_iff.mpr hconfigurable]
        simp

/-- The installed map never has the region, whatever the request and the map are: it ends in front of the range that was split,
without the custom ranges. -/
theorem not_splitExact {memoryMap : MemoryMap} {attributes : PmpAttribute} {permissions : PmpAttributes} {size : ℤ}
    {region : DramRange} {installed previous : MemoryMap} (hattributes : rvPmaAttr attributes = .ok permissions)
    (hnone : ∀ range ∈ memoryMap.dramRanges, range.permissions ≠ permissions)
    (hrequest : requestPmpRegion memoryMap attributes size = .ok ⟨some region, installed, previous⟩) :
    (installed.dramRanges = memoryMap.dramRanges.takeWhile (fun range => !range.configurable) ∧ installed.customRanges = []) ∧
      ¬SplitExact memoryMap permissions region installed := by
  have hfind : memoryMap.dramRanges.find? (fun range => range.permissions = permissions) = none := by
    rw [List.find?_eq_none]
    exact fun range hrange => by simpa using hnone range hrange
  have hsplit : splitFirst memoryMap permissions size [] memoryMap.dramRanges = .ok ⟨some region, installed, previous⟩ := by
    obtain ⟨permissions', hattributes', hrequest⟩ := Fallible.bind_ok hrequest
    obtain rfl := Except.ok.inj (hattributes'.symm.trans hattributes)
    rwa [hfind] at hrequest
  obtain ⟨-, rfl, -⟩ := splitFirst_some hsplit
  refine ⟨⟨List.nil_append _, rfl⟩, fun hexact => ?_⟩
  obtain ⟨range, hrange, hpermissions, -⟩ := hexact.hasRegion
  rw [List.nil_append] at hrange
  exact hnone range (List.takeWhile_subset _ hrange) hpermissions

/-- One configurable range without permissions. -/
def oneRange : MemoryMap where
  dramRanges := [{ start := 0x80000000, size := 0x80000000, configurable := true, permissions := .none }]

/-- A request to read and write a page of it. -/
theorem not_splitExact_oneRange : ∃ region installed previous,
    requestPmpRegion oneRange ⟨true, true, false⟩ 0x1000 = .ok ⟨some region, installed, previous⟩ ∧
      installed.dramRanges = [] ∧ ¬SplitExact oneRange .rW region installed := by
  have hnone : ∀ range ∈ oneRange.dramRanges, range.permissions ≠ .rW := by decide
  have h := not_splitExact rfl hnone (rfl : requestPmpRegion oneRange ⟨true, true, false⟩ 0x1000 = .ok ⟨some _, _, _⟩)
  exact ⟨_, _, _, rfl, h.1.1, h.2⟩

/-- The only range is lost. -/
theorem not_splitExact_all :
    ¬ ∀ (memoryMap : MemoryMap) (attributes : PmpAttribute) (permissions : PmpAttributes) (size : ℤ) (region : DramRange)
      (installed previous : MemoryMap), rvPmaAttr attributes = .ok permissions →
      (∀ range ∈ memoryMap.dramRanges, range.permissions ≠ permissions) →
      requestPmpRegion memoryMap attributes size = .ok ⟨some region, installed, previous⟩ →
        SplitExact memoryMap permissions region installed := by
  intro hclaim
  have hexact := hclaim oneRange ⟨true, true, false⟩ .rW 0x1000 _ _ _ rfl (by decide) rfl
  obtain ⟨range, hrange, -⟩ := (hexact.bytes 0x80000000).mpr ⟨_, List.mem_cons_self, by
    simp only [DramRange.Covers]
    omega⟩
  cases hrange

end Riescue.MemoryRegistry
